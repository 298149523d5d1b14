/-
# TradeBroker.Lib.Utf8 — strict UTF-8, and what a text file contains.

The decoder goes byte by byte.  After the lead byte of a character it knows how many bytes are owed and in
which range the NEXT one must lie, as in the table of well-formed byte sequences of the Unicode standard; the
ranges are what keeps overlong forms, surrogates and values above `0x10FFFF` out.  `utf8_iff` says that this
is the inverse of the encoder, on the texts that `encodable` accepts and on no others.

A text file is more than its bytes: reading it as text turns `\r\n` and a lone `\r` into `\n`, so what is
read back is what was written only when no `\r` was.  `newlines` is that translation and `fileText` the
whole reading.

Both directions matter to the program.  The encoder decides which records can be written at all, the
decoder which files can be loaded; a file that is not UTF-8 is refused before `json.loads` sees a
character of it.
-/
import TradeBroker.Lib.Python

namespace TradeBroker.Lib

/-! ## Encoding -/

/-- The bytes of one character. -/
def utf8Char (c : CodePoint) : List UInt8 :=
  if c.val < 0x80 then [.ofNat c.val]
  else if c.val < 0x800 then [.ofNat (0xC0 + c.val / 64), .ofNat (0x80 + c.val % 64)]
  else if c.val < 0x10000 then
    [.ofNat (0xE0 + c.val / 4096), .ofNat (0x80 + c.val / 64 % 64), .ofNat (0x80 + c.val % 64)]
  else
    [.ofNat (0xF0 + c.val / 262144), .ofNat (0x80 + c.val / 4096 % 64), .ofNat (0x80 + c.val / 64 % 64),
     .ofNat (0x80 + c.val % 64)]

/-- The bytes of a text that `.encode("utf-8")` accepts; of any other text they are what `surrogatepass` would
write, which nobody asks for. -/
def utf8 (s : PyStr) : List UInt8 := s.flatMap utf8Char

/-! ## Decoding -/

/-- Between two characters, or inside one: the bits so far, the range of the next byte, and the number of
bytes behind that one.  Only the first byte behind the lead has a range of its own. -/
inductive Utf8State where
  | start
  | inside (value low high behind : Nat)

namespace Utf8State

/-- The state behind a lead byte above `0x7F`; `none` for the bytes that lead nothing, the continuation bytes,
`0xC0`, `0xC1` and what is above `0xF4`. -/
def lead (b : Nat) : Option Utf8State :=
  if 0xC2 ≤ b ∧ b ≤ 0xDF then some (.inside (b - 0xC0) 0x80 0xBF 0)
  else if b = 0xE0 then some (.inside 0 0xA0 0xBF 1)
  else if b = 0xED then some (.inside 0xD 0x80 0x9F 1)
  else if 0xE1 ≤ b ∧ b ≤ 0xEF then some (.inside (b - 0xE0) 0x80 0xBF 1)
  else if b = 0xF0 then some (.inside 0 0x90 0xBF 2)
  else if b = 0xF4 then some (.inside 4 0x80 0x8F 2)
  else if 0xF1 ≤ b ∧ b ≤ 0xF3 then some (.inside (b - 0xF0) 0x80 0xBF 2)
  else none

end Utf8State

/-- Decode from a state on; `none` is the `UnicodeDecodeError`. -/
def decodeFrom : Utf8State → List UInt8 → Option PyStr
  | .start, [] => some []
  | .inside _ _ _ _, [] => none
  | .start, b :: bs =>
      if b.toNat < 0x80 then (decodeFrom .start bs).map (chr b.toNat :: ·)
      else
        match Utf8State.lead b.toNat with
        | some st => decodeFrom st bs
        | none => none
  | .inside value low high behind, b :: bs =>
      if low ≤ b.toNat ∧ b.toNat ≤ high then
        match behind with
        | 0 => (decodeFrom .start bs).map (chr (value * 64 + (b.toNat - 0x80)) :: ·)
        | n + 1 => decodeFrom (.inside (value * 64 + (b.toNat - 0x80)) 0x80 0xBF n) bs
      else none

/-- `bytes.decode("utf-8")`. -/
def decodeUtf8 (bs : List UInt8) : Option PyStr := decodeFrom .start bs

/-! ## The two are inverse -/

section Lead

variable {b : Nat}

theorem lead_two (h : 0xC2 ≤ b) (h' : b ≤ 0xDF) :
    Utf8State.lead b = some (.inside (b - 0xC0) 0x80 0xBF 0) := if_pos ⟨h, h'⟩

/-- The second byte of three: its range is narrower behind `0xE0`, where a shorter form exists, and behind
`0xED`, where the surrogates would begin. -/
theorem lead_three (h : 0xE0 ≤ b) (h' : b ≤ 0xEF) :
    ∃ low high, Utf8State.lead b = some (.inside (b - 0xE0) low high 1) ∧
      ∀ x, (low ≤ x ∧ x ≤ high) ↔
        (0x80 ≤ x ∧ x ≤ 0xBF) ∧ (b = 0xE0 → 0xA0 ≤ x) ∧ (b = 0xED → x ≤ 0x9F) := by
  unfold Utf8State.lead
  rw [if_neg (by omega)]
  by_cases h0 : b = 0xE0
  · exact ⟨0xA0, 0xBF, by simp [h0], by omega⟩
  · by_cases hd : b = 0xED
    · exact ⟨0x80, 0x9F, by simp [hd], by omega⟩
    · refine ⟨0x80, 0xBF, ?_, by omega⟩
      rw [if_neg h0, if_neg hd, if_pos (by omega)]

/-- The second byte of four: narrower behind `0xF0`, and behind `0xF4`, where the code points end. -/
theorem lead_four (h : 0xF0 ≤ b) (h' : b ≤ 0xF4) :
    ∃ low high, Utf8State.lead b = some (.inside (b - 0xF0) low high 2) ∧
      ∀ x, (low ≤ x ∧ x ≤ high) ↔
        (0x80 ≤ x ∧ x ≤ 0xBF) ∧ (b = 0xF0 → 0x90 ≤ x) ∧ (b = 0xF4 → x ≤ 0x8F) := by
  unfold Utf8State.lead
  rw [if_neg (by omega), if_neg (by omega), if_neg (by omega), if_neg (by omega)]
  by_cases h0 : b = 0xF0
  · exact ⟨0x90, 0xBF, by simp [h0], by omega⟩
  · by_cases h4 : b = 0xF4
    · exact ⟨0x80, 0x8F, by simp [h4], by omega⟩
    · refine ⟨0x80, 0xBF, ?_, by omega⟩
      rw [if_neg h0, if_neg h4, if_pos (by omega)]

theorem lead_none (h : b < 0xC2 ∨ 0xF4 < b) : Utf8State.lead b = none := by
  unfold Utf8State.lead
  repeat rw [if_neg (by omega)]

end Lead

section Step

variable {value low high n : Nat} {b : UInt8} {bs : List UInt8}

theorem decodeFrom_ascii (h : b.toNat < 0x80) :
    decodeFrom .start (b :: bs) = (decodeFrom .start bs).map (chr b.toNat :: ·) := by
  rw [decodeFrom, if_pos h]

theorem decodeFrom_lead {st : Utf8State} (h : Utf8State.lead b.toNat = some st) (hb : 0x80 ≤ b.toNat) :
    decodeFrom .start (b :: bs) = decodeFrom st bs := by
  rw [decodeFrom, if_neg (by omega), h]

theorem decodeFrom_last (h : low ≤ b.toNat ∧ b.toNat ≤ high) :
    decodeFrom (.inside value low high 0) (b :: bs) =
      (decodeFrom .start bs).map (chr (value * 64 + (b.toNat - 0x80)) :: ·) := by
  rw [decodeFrom, if_pos h]

theorem decodeFrom_more (h : low ≤ b.toNat ∧ b.toNat ≤ high) :
    decodeFrom (.inside value low high (n + 1)) (b :: bs) =
      decodeFrom (.inside (value * 64 + (b.toNat - 0x80)) 0x80 0xBF n) bs := by
  rw [decodeFrom, if_pos h]

/-- Inside a character the text goes on, with a byte in the range. -/
theorem decodeFrom_inside {s : PyStr} (h : decodeFrom (.inside value low high n) bs = some s) :
    ∃ b rest, bs = b :: rest ∧ low ≤ b.toNat ∧ b.toNat ≤ high := by
  cases bs with
  | nil => simp [decodeFrom] at h
  | cons b rest =>
      by_cases hb : low ≤ b.toNat ∧ b.toNat ≤ high
      · exact ⟨b, rest, rfl, hb.1, hb.2⟩
      · cases n <;> rw [decodeFrom, if_neg hb] at h <;> cases h

end Step

theorem toNat_byte {n : Nat} (h : n < 256) : (UInt8.ofNat n).toNat = n :=
  UInt8.toNat_ofNat_of_lt' h

/-- The encoding of one character is read back, whatever follows. -/
theorem decodeFrom_utf8Char {c : CodePoint} (hc : isSurrogate c = false) (bs : List UInt8) :
    decodeFrom .start (utf8Char c ++ bs) = (decodeFrom .start bs).map (c :: ·) := by
  have hlt : c.val < 0x110000 := c.isLt
  have back : ∀ {n : Nat}, n = c.val → chr n = c := by
    rintro n rfl
    exact chr_val_eq c
  have hgap : c.val < 0xD800 ∨ 0xDFFF < c.val := by
    simp only [isSurrogate, Bool.and_eq_false_iff, decide_eq_false_iff_not] at hc
    omega
  unfold utf8Char
  split
  · -- one byte
    rw [List.singleton_append, decodeFrom_ascii (by rw [toNat_byte] <;> omega), back (by rw [toNat_byte]; omega)]
  split
  · -- two bytes
    have h0 : (UInt8.ofNat (0xC0 + c.val / 64)).toNat = 0xC0 + c.val / 64 := toNat_byte (by omega)
    have h1 : (UInt8.ofNat (0x80 + c.val % 64)).toNat = 0x80 + c.val % 64 := toNat_byte (by omega)
    rw [List.cons_append, List.singleton_append,
      decodeFrom_lead (lead_two (by omega) (by omega)) (by omega), decodeFrom_last (by omega), back (by omega)]
  split
  · -- three bytes
    have h0 : (UInt8.ofNat (0xE0 + c.val / 4096)).toNat = 0xE0 + c.val / 4096 := toNat_byte (by omega)
    have h1 : (UInt8.ofNat (0x80 + c.val / 64 % 64)).toNat = 0x80 + c.val / 64 % 64 := toNat_byte (by omega)
    have h2 : (UInt8.ofNat (0x80 + c.val % 64)).toNat = 0x80 + c.val % 64 := toNat_byte (by omega)
    obtain ⟨low, high, hlead, hrange⟩ :=
      lead_three (b := (UInt8.ofNat (0xE0 + c.val / 4096)).toNat) (by omega) (by omega)
    rw [List.cons_append, List.cons_append, List.singleton_append, decodeFrom_lead hlead (by omega),
      decodeFrom_more ((hrange _).mpr (by omega)), decodeFrom_last (by omega), back (by omega)]
  · -- four bytes
    have h0 : (UInt8.ofNat (0xF0 + c.val / 262144)).toNat = 0xF0 + c.val / 262144 := toNat_byte (by omega)
    have h1 : (UInt8.ofNat (0x80 + c.val / 4096 % 64)).toNat = 0x80 + c.val / 4096 % 64 := toNat_byte (by omega)
    have h2 : (UInt8.ofNat (0x80 + c.val / 64 % 64)).toNat = 0x80 + c.val / 64 % 64 := toNat_byte (by omega)
    have h3 : (UInt8.ofNat (0x80 + c.val % 64)).toNat = 0x80 + c.val % 64 := toNat_byte (by omega)
    obtain ⟨low, high, hlead, hrange⟩ :=
      lead_four (b := (UInt8.ofNat (0xF0 + c.val / 262144)).toNat) (by omega) (by omega)
    rw [List.cons_append, List.cons_append, List.cons_append, List.singleton_append,
      decodeFrom_lead hlead (by omega), decodeFrom_more ((hrange _).mpr (by omega)),
      decodeFrom_more (by omega), decodeFrom_last (by omega), back (by omega)]

/-- **Encode, then decode**: nothing is lost of a text that encodes. -/
theorem decodeUtf8_utf8 {s : PyStr} (h : encodable s = true) : decodeUtf8 (utf8 s) = some s := by
  induction s with
  | nil => rfl
  | cons c s ih =>
      have hc : isSurrogate c = false ∧ encodable s = true := by
        simpa [encodable, List.all_cons] using h
      show decodeFrom .start (utf8Char c ++ utf8 s) = some (c :: s)
      rw [decodeFrom_utf8Char hc.1, show decodeFrom .start (utf8 s) = some s from ih hc.2, Option.map_some]

/-- What the decoder accepts begins with the encoding of one character, and goes on between two. -/
theorem decodeFrom_start {b : UInt8} {bs : List UInt8} {s : PyStr} (h : decodeFrom .start (b :: bs) = some s) :
    ∃ c rest t, isSurrogate c = false ∧ b :: bs = utf8Char c ++ rest ∧ decodeFrom .start rest = some t ∧
      s = c :: t := by
  have byte : ∀ {n : Nat} {x : UInt8}, n = x.toNat → UInt8.ofNat n = x := by
    rintro n x rfl
    exact UInt8.ofNat_toNat
  have plain : ∀ {n : Nat}, n < 0xD800 ∨ 0xDFFF < n → n < 0x110000 →
      isSurrogate (chr n) = false := by
    intro n hn hlt
    simp only [isSurrogate, chr_val hlt, Bool.and_eq_false_iff, decide_eq_false_iff_not]
    omega
  by_cases h1 : b.toNat < 0x80
  · rw [decodeFrom_ascii h1, Option.map_eq_some_iff] at h
    obtain ⟨t, ht, rfl⟩ := h
    refine ⟨_, bs, t, plain (by omega) (by omega), ?_, ht, rfl⟩
    rw [utf8Char, chr_val (by omega), if_pos h1, byte rfl, List.singleton_append]
  by_cases h2 : b.toNat < 0xC2 ∨ 0xF4 < b.toNat
  · rw [decodeFrom, if_neg h1, lead_none h2] at h
    cases h
  by_cases h3 : b.toNat ≤ 0xDF
  · rw [decodeFrom_lead (lead_two (by omega) h3) (by omega)] at h
    obtain ⟨b1, r1, rfl, l1, u1⟩ := decodeFrom_inside h
    rw [decodeFrom_last ⟨l1, u1⟩, Option.map_eq_some_iff] at h
    obtain ⟨t, ht, rfl⟩ := h
    refine ⟨_, r1, t, plain (by omega) (by omega), ?_, ht, rfl⟩
    rw [utf8Char, chr_val (by omega), if_neg (by omega), if_pos (by omega), byte (x := b) (by omega),
      byte (x := b1) (by omega)]
    rfl
  by_cases h4 : b.toNat ≤ 0xEF
  · obtain ⟨low, high, hlead, hrange⟩ := lead_three (b := b.toNat) (by omega) h4
    rw [decodeFrom_lead hlead (by omega)] at h
    obtain ⟨b1, r1, rfl, l1, u1⟩ := decodeFrom_inside h
    have hb1 := (hrange _).mp ⟨l1, u1⟩
    rw [decodeFrom_more ⟨l1, u1⟩] at h
    obtain ⟨b2, r2, rfl, l2, u2⟩ := decodeFrom_inside h
    rw [decodeFrom_last ⟨l2, u2⟩, Option.map_eq_some_iff] at h
    obtain ⟨t, ht, rfl⟩ := h
    refine ⟨_, r2, t, plain (by omega) (by omega), ?_, ht, rfl⟩
    rw [utf8Char, chr_val (by omega), if_neg (by omega), if_neg (by omega), if_pos (by omega),
      byte (x := b) (by omega), byte (x := b1) (by omega), byte (x := b2) (by omega)]
    rfl
  · obtain ⟨low, high, hlead, hrange⟩ := lead_four (b := b.toNat) (by omega) (by omega)
    rw [decodeFrom_lead hlead (by omega)] at h
    obtain ⟨b1, r1, rfl, l1, u1⟩ := decodeFrom_inside h
    have hb1 := (hrange _).mp ⟨l1, u1⟩
    rw [decodeFrom_more ⟨l1, u1⟩] at h
    obtain ⟨b2, r2, rfl, l2, u2⟩ := decodeFrom_inside h
    rw [decodeFrom_more ⟨l2, u2⟩] at h
    obtain ⟨b3, r3, rfl, l3, u3⟩ := decodeFrom_inside h
    rw [decodeFrom_last ⟨l3, u3⟩, Option.map_eq_some_iff] at h
    obtain ⟨t, ht, rfl⟩ := h
    refine ⟨_, r3, t, plain (by omega) (by omega), ?_, ht, rfl⟩
    rw [utf8Char, chr_val (by omega), if_neg (by omega), if_neg (by omega), if_neg (by omega),
      byte (x := b) (by omega), byte (x := b1) (by omega), byte (x := b2) (by omega), byte (x := b3) (by omega)]
    rfl

theorem utf8Char_ne_nil (c : CodePoint) : utf8Char c ≠ [] := by
  unfold utf8Char
  split_ifs <;> simp

/-- **Decode, then encode**: only encodings are accepted, so there is one byte string for each text. -/
theorem utf8_of_decodeUtf8 {bs : List UInt8} {s : PyStr} (h : decodeUtf8 bs = some s) :
    encodable s = true ∧ utf8 s = bs := by
  -- On the number of bytes: what is left behind one character is shorter.
  induction hn : bs.length using Nat.strong_induction_on generalizing bs s with
  | _ n ih =>
      cases bs with
      | nil =>
          obtain rfl : [] = s := Option.some.inj h
          exact ⟨rfl, rfl⟩
      | cons b bs =>
          obtain ⟨c, rest, t, hc, hbs, ht, rfl⟩ := decodeFrom_start h
          have hpos : 0 < (utf8Char c).length := List.length_pos_iff.mpr (utf8Char_ne_nil c)
          have hlen : (b :: bs).length = (utf8Char c).length + rest.length := by
            rw [hbs, List.length_append]
          obtain ⟨het, hut⟩ := ih rest.length (by omega) ht rfl
          refine ⟨?_, ?_⟩
          · simpa [encodable, List.all_cons, hc] using het
          · rw [hbs, ← hut]
            rfl

/-- **Strict UTF-8**: exactly the encodings of encodable texts are read, each as its text. -/
theorem utf8_iff {bs : List UInt8} {s : PyStr} : decodeUtf8 bs = some s ↔ encodable s = true ∧ utf8 s = bs := by
  constructor
  · exact utf8_of_decodeUtf8
  · rintro ⟨hs, rfl⟩
    exact decodeUtf8_utf8 hs

/-! ## Text files -/

/-- Universal newlines: `\r\n` and a lone `\r` are read as `\n`.  The flag says that a `\r` stands right
before. -/
def newlines : Bool → PyStr → PyStr
  | _, [] => []
  | after, c :: cs =>
      if c = codePoint '\r' then codePoint '\n' :: newlines true cs
      else if after ∧ c = codePoint '\n' then newlines false cs
      else c :: newlines false cs

/-- `path.read_text(encoding="utf-8")` on the file's bytes: decoded strictly, then read with universal
newlines. -/
def fileText (content : List UInt8) : Option PyStr := (decodeUtf8 content).map (newlines false)

end TradeBroker.Lib
