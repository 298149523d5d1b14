/-
# TradeBroker.Lib.Python — the values of the host language that a durable record is made of.

Text, dictionaries, JSON documents and UUIDs, with the behaviour the standard library documents for
them and nothing about any particular program.

* `PyStr` is a sequence of code points, LONE SURROGATES INCLUDED: a `str` that came out of
  `surrogateescape` is a value here, and `encodable` says exactly when `.encode("utf-8")` accepts it.
* `Dict` keeps insertion order and carries the distinctness of its keys.
* `Json` is what `json.loads` returns.  A JSON text is identified with the document it denotes:
  `dumps` and `loads` are inverse to each other, and `sort_keys` only reorders object members, which
  dictionary equality does not see.

The identification is for the programs that only pass documents on.  The text itself, with its escapes,
its numbers and its white space, is the subject of `Lib.JsonText` and `Lib.JsonDump`, and the bytes of a
text that of `Lib.Utf8`.

`uuidParses` is what `UUID(text)` does to any text, which is more than the printed form of a UUID: it
strips braces and prefixes, and its digits may come from any script and have single underscores between
them, since `int(text, 16)` reads them.  A journal that somebody edited is checked by it, and by nothing
stricter.
-/
import Mathlib.Data.List.Basic
import Mathlib.Data.List.Nodup
import Mathlib.Tactic.Common
import Mathlib.Tactic.IntervalCases

namespace TradeBroker.Lib

/-! ## Text -/

abbrev CodePoint : Type := Fin 0x110000

/-- A Python `str`: any sequence of code points, so also one that no encoder accepts. -/
abbrev PyStr : Type := List CodePoint

instance : LawfulBEq PyStr := inferInstance

/-- The code point of a Unicode scalar value: every `Char` is one. -/
def codePoint (c : Char) : CodePoint :=
  ⟨c.toNat, by
    rcases c.valid with h | h
    · exact Nat.lt_trans h (by decide)
    · exact h.2⟩

/-- `chr(n)`, below `0x110000`, surrogates included. -/
def chr (n : Nat) : CodePoint := ⟨n % 0x110000, Nat.mod_lt n (by decide)⟩

theorem chr_val {n : Nat} (h : n < 0x110000) : (chr n).val = n := Nat.mod_eq_of_lt h

theorem chr_val_eq (c : CodePoint) : chr c.val = c := Fin.ext (Nat.mod_eq_of_lt c.isLt)

/-- A text literal, as the list of its code points. -/
def lit (s : String) : PyStr := s.toList.map codePoint

instance : Coe String PyStr := ⟨lit⟩

def isSurrogate (c : CodePoint) : Bool := decide (0xD800 ≤ c.val) && decide (c.val ≤ 0xDFFF)

/-- `.encode("utf-8")` accepts the text: it holds no lone surrogate, and there are no others in a `str`. -/
def encodable (s : PyStr) : Bool := s.all fun c => !isSurrogate c

theorem isSurrogate_codePoint (c : Char) : isSurrogate (codePoint c) = false := by
  rcases c.valid with h | h
  · have : ¬ 0xD800 ≤ (codePoint c).val := Nat.not_le.mpr h
    simp [isSurrogate, this]
  · have : ¬ (codePoint c).val ≤ 0xDFFF := Nat.not_le.mpr h.1
    simp [isSurrogate, this]

theorem encodable_map_codePoint (cs : List Char) : encodable (cs.map codePoint) = true := by
  simp [encodable, isSurrogate_codePoint]

@[simp] theorem encodable_lit (s : String) : encodable (lit s) = true :=
  encodable_map_codePoint s.toList

@[simp] theorem encodable_append (s t : PyStr) :
    encodable (s ++ t) = (encodable s && encodable t) := by
  simp [encodable]

/-! ## Dictionaries -/

/-- A Python `dict` with `str` keys, in insertion order.  That no key occurs twice is part of the type, so a
lookup needs no hypothesis. -/
structure Dict (V : Type) where
  entries : List (PyStr × V)
  nodup : (entries.map Prod.fst).Nodup
  deriving DecidableEq

namespace Dict

variable {V : Type}

def keys (d : Dict V) : List PyStr := d.entries.map Prod.fst

/-- `d.get(key)`: `none` where the key is missing. -/
def get? (d : Dict V) (key : PyStr) : Option V := (d.entries.find? (·.1 = key)).map Prod.snd

/-- `d[key] = value` on the entry list: a known key keeps its place, a new one goes last, which is the order
that a dictionary iterates in. -/
def put : List (PyStr × V) → PyStr → V → List (PyStr × V)
  | [], key, value => [(key, value)]
  | (k, v) :: rest, key, value =>
      if k = key then (key, value) :: rest else (k, v) :: put rest key value

theorem mem_keys_put {l : List (PyStr × V)} {key k : PyStr} {value : V} :
    k ∈ (put l key value).map Prod.fst ↔ k = key ∨ k ∈ l.map Prod.fst := by
  induction l with
  | nil => simp [put]
  | cons e l ih =>
      obtain ⟨k', v'⟩ := e
      simp only [put]
      split
      · rename_i h
        subst h
        simp
      · simp only [List.map_cons, List.mem_cons, ih]
        tauto

theorem nodup_put {l : List (PyStr × V)} (h : (l.map Prod.fst).Nodup) (key : PyStr) (value : V) :
    ((put l key value).map Prod.fst).Nodup := by
  induction l with
  | nil => simp [put]
  | cons e l ih =>
      obtain ⟨k', v'⟩ := e
      simp only [List.map_cons, List.nodup_cons] at h
      simp only [put]
      split
      · rename_i hk
        subst hk
        simpa using h
      · rename_i hk
        simp only [List.map_cons, List.nodup_cons, mem_keys_put]
        exact ⟨by tauto, ih h.2⟩

/-- `d[key] = value`: in its place when the key is there, at the end otherwise. -/
def set (d : Dict V) (key : PyStr) (value : V) : Dict V :=
  ⟨put d.entries key value, nodup_put d.nodup key value⟩

/-- A dictionary display: the entries are set one after the other, so of two with one key the later value
stays, in the earlier place. -/
def ofList (l : List (PyStr × V)) : Dict V := l.foldl (fun d kv => d.set kv.1 kv.2) ⟨[], by simp⟩

/-- `d.update(e)`: the entries of `e`, one after the other. -/
def update (d : Dict V) (e : Dict V) : Dict V :=
  e.entries.foldl (fun d kv => d.set kv.1 kv.2) d

@[ext] theorem ext_entries {d e : Dict V} (h : d.entries = e.entries) : d = e := by
  cases d
  cases e
  cases h
  rfl

theorem find?_put_self (l : List (PyStr × V)) (key : PyStr) (value : V) :
    (put l key value).find? (·.1 = key) = some (key, value) := by
  induction l with
  | nil => simp [put]
  | cons e l ih =>
      obtain ⟨k', v'⟩ := e
      simp only [put]
      split
      · simp
      · rename_i hk
        simp [hk, ih]

theorem find?_put_ne {l : List (PyStr × V)} {key k : PyStr} (value : V) (hne : key ≠ k) :
    (put l key value).find? (·.1 = k) = l.find? (·.1 = k) := by
  induction l with
  | nil => simp [put, hne]
  | cons e l ih =>
      obtain ⟨k', v'⟩ := e
      simp only [put]
      split
      · rename_i hk
        subst hk
        simp [hne]
      · by_cases hk' : k' = k
        · simp [hk']
        · simp [hk', ih]

@[simp] theorem get?_set_self (d : Dict V) (key : PyStr) (value : V) :
    (d.set key value).get? key = some value := by
  simp [get?, set, find?_put_self]

theorem get?_set_ne {d : Dict V} {key k : PyStr} (value : V) (hne : key ≠ k) :
    (d.set key value).get? k = d.get? k := by
  simp [get?, set, find?_put_ne value hne]

/-- The keys are distinct, so a key has the value of its one entry. -/
theorem get?_eq_some {d : Dict V} {k : PyStr} {v : V} : d.get? k = some v ↔ (k, v) ∈ d.entries := by
  obtain ⟨l, hl⟩ := d
  simp only [get?, Option.map_eq_some_iff]
  induction l with
  | nil => simp
  | cons e l ih =>
      simp only [List.map_cons, List.nodup_cons] at hl
      by_cases he : e.1 = k
      · have hnot : (k, v) ∉ l := by
          intro hm
          exact hl.1 (he ▸ List.mem_map_of_mem (f := Prod.fst) hm)
        obtain ⟨k', v'⟩ := e
        subst he
        simp only [List.find?_cons, decide_true, List.mem_cons, Prod.mk.injEq, true_and, hnot,
          or_false]
        exact ⟨fun ⟨_, h, h'⟩ => by rw [← h', ← Option.some.inj h], fun h => ⟨_, rfl, h.symm⟩⟩
      · have hne : (k, v) ≠ e := by
          rintro rfl
          exact he rfl
        simpa [he, hne] using ih hl.2

theorem get?_foldl_set {l : List (PyStr × V)} (hl : (l.map Prod.fst).Nodup) (d : Dict V) (k : PyStr) :
    (l.foldl (fun d kv => d.set kv.1 kv.2) d).get? k =
      ((l.find? (·.1 = k)).map Prod.snd).or (d.get? k) := by
  induction l generalizing d with
  | nil => simp
  | cons e l ih =>
      simp only [List.map_cons, List.nodup_cons] at hl
      rw [List.foldl_cons, ih hl.2]
      by_cases he : e.1 = k
      · have hnone : l.find? (·.1 = k) = none := by
          rw [List.find?_eq_none]
          intro x hx hk
          exact hl.1 (he ▸ of_decide_eq_true hk ▸ List.mem_map_of_mem hx)
        subst he
        simp [hnone]
      · simp [he, get?_set_ne]

/-- `update` overrides what it names and keeps the rest, whatever the order of the two dictionaries is. -/
theorem get?_update (d e : Dict V) (k : PyStr) : (d.update e).get? k = (e.get? k).or (d.get? k) :=
  get?_foldl_set e.nodup d k

theorem keys_put_of_mem {l : List (PyStr × V)} {key : PyStr} (value : V)
    (h : key ∈ l.map Prod.fst) : (put l key value).map Prod.fst = l.map Prod.fst := by
  induction l with
  | nil => simp at h
  | cons e l ih =>
      obtain ⟨k', v'⟩ := e
      simp only [put]
      split
      · rename_i hk
        simp [hk]
      · rename_i hk
        have hm : key ∈ l.map Prod.fst := by
          rcases List.mem_cons.mp h with heq | hm
          · exact absurd heq.symm hk
          · exact hm
        rw [List.map_cons, ih hm, List.map_cons]

/-- An update of known keys adds none. -/
theorem keys_update_of_subset {d e : Dict V} (h : ∀ k ∈ e.keys, k ∈ d.keys) :
    (d.update e).keys = d.keys := by
  obtain ⟨l, hl⟩ := e
  show (l.foldl _ d).keys = d.keys
  replace h : ∀ k ∈ l.map Prod.fst, k ∈ d.keys := h
  clear hl
  induction l generalizing d with
  | nil => rfl
  | cons e l ih =>
      have hset : (d.set e.1 e.2).keys = d.keys := keys_put_of_mem e.2 (h e.1 (by simp))
      rw [List.foldl_cons, ih, hset]
      intro k hk
      rw [hset]
      exact h k (List.mem_cons_of_mem e.1 hk)

end Dict

/-! ## JSON documents -/

/-- What `json.loads` returns.  Numbers are two types, as they are in Python, and the members of an object are
in the order of the file. -/
inductive Json where
  | null
  | bool (b : Bool)
  | int (n : Int)
  | real (x : Float)
  | str (s : PyStr)
  | arr (items : List Json)
  | obj (fields : List (PyStr × Json))

mutual

/-- Every text in the document, member names included, is accepted by `.encode("utf-8")`: with
`ensure_ascii=False` these are the texts that reach the encoder. -/
def Json.encodable : Json → Bool
  | .null => true
  | .bool _ => true
  | .int _ => true
  | .real _ => true
  | .str s => TradeBroker.Lib.encodable s
  | .arr items => Json.encodableAll items
  | .obj fields => Json.encodableFields fields

def Json.encodableAll : List Json → Bool
  | [] => true
  | j :: js => j.encodable && Json.encodableAll js

def Json.encodableFields : List (PyStr × Json) → Bool
  | [] => true
  | (k, j) :: fs => TradeBroker.Lib.encodable k && (j.encodable && Json.encodableFields fs)

end

/-- `obj.get(key)` on the members of a parsed object. -/
def Json.member (fields : List (PyStr × Json)) (key : PyStr) : Option Json :=
  (fields.find? (·.1 = key)).map Prod.snd

/-! ## Hexadecimal and UUIDs -/

/-- One hexadecimal digit, lower case, of a number below sixteen. -/
def hexDigit (n : Nat) : Char := if n < 10 then Char.ofNat (48 + n) else Char.ofNat (87 + n)

def hexChars : List UInt8 → List Char
  | [] => []
  | b :: bs => hexDigit (b.toNat / 16) :: hexDigit (b.toNat % 16) :: hexChars bs

/-- `bytes.hex()`: two digits a byte, the high one first. -/
def hex (bs : List UInt8) : PyStr := (hexChars bs).map codePoint

@[simp] theorem encodable_hex (bs : List UInt8) : encodable (hex bs) = true :=
  encodable_map_codePoint (hexChars bs)

@[simp] theorem length_hexChars (bs : List UInt8) : (hexChars bs).length = 2 * bs.length := by
  induction bs with
  | nil => rfl
  | cons b bs ih =>
      simp only [hexChars, List.length_cons, ih]
      omega

/-- `repr(bs)` of a `bytes` object, as it stands in a message that prints one: the quotes depend on the quotes
inside. -/
def bytesRepr (bs : List UInt8) : PyStr :=
  let char (b : UInt8) : CodePoint := ⟨b.toNat, Nat.lt_trans b.toNat_lt (by decide)⟩
  -- double quotes only when the text has a single quote and no double one
  let quote : UInt8 := if 39 ∈ bs ∧ 34 ∉ bs then 34 else 39
  let escape (b : UInt8) : PyStr :=
    if b = quote ∨ b = 92 then [char 92, char b]
    else if b = 9 then [char 92, codePoint 't']
    else if b = 10 then [char 92, codePoint 'n']
    else if b = 13 then [char 92, codePoint 'r']
    else if b < 32 ∨ 127 ≤ b then [char 92, codePoint 'x'] ++ hex [b]
    else [char b]
  [codePoint 'b', char quote] ++ bs.flatMap escape ++ [char quote]

/-- A UUID: sixteen bytes, in the order in which `bytes` prints them and a frame carries them. -/
structure Uuid where
  bytes : List UInt8
  size_eq : bytes.length = 16
  deriving DecidableEq

namespace Uuid

/-- The nil UUID, sixteen zero bytes. -/
def nil : Uuid := ⟨List.replicate 16 0, by simp⟩

/-- `UUID(bytes=bs)`, on sixteen bytes. -/
def ofBytes (bs : List UInt8) : Uuid := ⟨(bs ++ List.replicate 16 0).take 16, by simp⟩

theorem ofBytes_bytes (u : Uuid) : ofBytes u.bytes = u := by
  obtain ⟨bs, h⟩ := u
  have e : (bs ++ List.replicate 16 0).take 16 = bs := by
    rw [← h, List.take_left]
  simp only [ofBytes, e]

/-- The version and variant bits that `uuid4` sets; the other 122 bits are free, and none of these UUIDs is
the nil one. -/
def isV4 (u : Uuid) : Bool :=
  decide ((u.bytes.getD 6 0).toNat / 16 = 4) && decide ((u.bytes.getD 8 0).toNat / 64 = 2)

theorem not_isV4_nil : nil.isV4 = false := by decide

/-- `str(u)`: the 8-4-4-4-12 form. -/
def str (u : Uuid) : PyStr :=
  hex (u.bytes.take 4) ++ "-" ++ hex ((u.bytes.drop 4).take 2) ++ "-" ++
    hex ((u.bytes.drop 6).take 2) ++ "-" ++ hex ((u.bytes.drop 8).take 2) ++ "-" ++
    hex (u.bytes.drop 10)

theorem encodable_str (u : Uuid) : encodable u.str = true := by
  simp [str]

end Uuid

/-- Drop every occurrence of `pat`, left to right; `skip` counts the rest of a match. -/
def dropMatches (pat : PyStr) : Nat → PyStr → PyStr
  | _, [] => []
  | skip + 1, _ :: cs => dropMatches pat skip cs
  | 0, c :: cs =>
      if pat.isPrefixOf (c :: cs) then dropMatches pat (pat.length - 1) cs
      else c :: dropMatches pat 0 cs

/-- `s.strip('{}')`: any number of either brace at both ends, paired or not. -/
def stripBraces (s : PyStr) : PyStr :=
  let brace := fun c : CodePoint => decide (c = codePoint '\x7b') || decide (c = codePoint '\x7d')
  ((s.dropWhile brace).reverse.dropWhile brace).reverse

def isHexDigit (c : CodePoint) : Bool :=
  (decide (48 ≤ c.val) && decide (c.val ≤ 57)) || (decide (65 ≤ c.val) && decide (c.val ≤ 70)) ||
    (decide (97 ≤ c.val) && decide (c.val ≤ 102))

/-- The zero of each run of decimal digits in Unicode 15. -/
def decimalZeros : List Nat :=
  [0x30, 0x660, 0x6F0, 0x7C0, 0x966, 0x9E6, 0xA66, 0xAE6, 0xB66, 0xBE6, 0xC66, 0xCE6, 0xD66, 0xDE6, 0xE50,
   0xED0, 0xF20, 0x1040, 0x1090, 0x17E0, 0x1810, 0x1946, 0x19D0, 0x1A80, 0x1A90, 0x1B50, 0x1BB0, 0x1C40,
   0x1C50, 0xA620, 0xA8D0, 0xA900, 0xA9D0, 0xA9F0, 0xAA50, 0xABF0, 0xFF10, 0x104A0, 0x10D30, 0x11066,
   0x110F0, 0x11136, 0x111D0, 0x112F0, 0x11450, 0x114D0, 0x11650, 0x116C0, 0x11730, 0x118E0, 0x11950,
   0x11C50, 0x11D50, 0x11DA0, 0x11F50, 0x16A60, 0x16AC0, 0x16B50, 0x1D7CE, 0x1D7D8, 0x1D7E2, 0x1D7EC,
   0x1D7F6, 0x1E140, 0x1E2F0, 0x1E4F0, 0x1E950, 0x1FBF0]

/-- `c.isspace()`, above ASCII: the blanks of Unicode. -/
def isWideSpace (c : CodePoint) : Bool :=
  decide (c.val ∈ [0x85, 0xA0, 0x1680, 0x2028, 0x2029, 0x202F, 0x205F, 0x3000]) ||
    (decide (0x2000 ≤ c.val) && decide (c.val ≤ 0x200A))

/-- What the integer constructor reads for a character: digits and spaces of any script as ASCII, any other
wide character as `?`, which is no digit in any base. -/
def toAscii (c : CodePoint) : CodePoint :=
  if c.val < 127 then c
  else if isWideSpace c then codePoint ' '
  else
    match decimalZeros.find? (fun z => decide (z ≤ c.val) && decide (c.val < z + 10)) with
    | some z => chr (0x30 + (c.val - z))
    | none => codePoint '?'

def isAsciiSpace (c : CodePoint) : Bool := decide (c.val = 32) || (decide (9 ≤ c.val) && decide (c.val ≤ 13))

def dropSign : PyStr → PyStr
  | [] => []
  | c :: cs => if c = codePoint '+' ∨ c = codePoint '-' then cs else c :: cs

/-- A `0x` goes, with one underscore behind it, as `int` allows. -/
def dropHexPrefix : PyStr → PyStr
  | z :: x :: cs =>
      if z = codePoint '0' ∧ (x = codePoint 'x' ∨ x = codePoint 'X') then
        if cs.head? = some (codePoint '_') then cs.tail else cs
      else z :: x :: cs
  | s => s

/-- Digits with single underscores between them; `after` says that a digit stands right before, so that an
underscore may follow. -/
def hexRun : Bool → PyStr → Bool
  | after, [] => after
  | after, c :: cs =>
      if isHexDigit c then hexRun true cs else after && decide (c = codePoint '_') && hexRun false cs

/-- `int(s, 16)` accepts the text. -/
def hexParses (s : PyStr) : Bool :=
  let stripped := (((s.map toAscii).dropWhile isAsciiSpace).reverse.dropWhile isAsciiSpace).reverse
  hexRun false (dropHexPrefix (dropSign stripped))

/-- `UUID(s)` accepts the text: without `urn:`, `uuid:`, the braces around it and the hyphens it has 32
characters, and they are a hexadecimal integer. -/
def uuidParses (s : PyStr) : Bool :=
  let digits := (stripBraces (dropMatches "uuid:" 0 (dropMatches "urn:" 0 s))).filter
    fun c => decide (c ≠ codePoint '-')
  decide (digits.length = 32) && hexParses digits

theorem hexRun_of_all {s : PyStr} (h : ∀ c ∈ s, isHexDigit c = true) : hexRun true s = true := by
  induction s with
  | nil => rfl
  | cons c cs ih =>
      rw [hexRun, if_pos (h c (by simp))]
      exact ih fun x hx => h x (List.mem_cons_of_mem c hx)

/-- Plain hexadecimal digits are an integer. -/
theorem hexParses_of_all {s : PyStr} (hne : s ≠ []) (h : ∀ c ∈ s, isHexDigit c = true) :
    hexParses s = true := by
  have range : ∀ c : CodePoint, isHexDigit c = true →
      (48 ≤ c.val ∧ c.val ≤ 57) ∨ (65 ≤ c.val ∧ c.val ≤ 70) ∨ (97 ≤ c.val ∧ c.val ≤ 102) := by
    intro c hc
    simpa [isHexDigit, or_assoc] using hc
  have hascii : s.map toAscii = s := by
    refine (List.map_congr_left fun c hc => ?_).trans (List.map_id s)
    have := range c (h c hc)
    exact if_pos (by omega)
  have drop : ∀ t : PyStr, (∀ c ∈ t, c ∈ s) → t.dropWhile isAsciiSpace = t := by
    intro t ht
    cases t with
    | nil => rfl
    | cons c cs =>
        have := range c (h c (ht c (by simp)))
        have hc : isAsciiSpace c = false := by
          simp only [isAsciiSpace, Bool.or_eq_false_iff, Bool.and_eq_false_iff, decide_eq_false_iff_not]
          omega
        rw [List.dropWhile_cons, hc, if_neg (by simp)]
  have hstrip : (s.dropWhile isAsciiSpace).reverse.dropWhile isAsciiSpace = s.reverse := by
    rw [drop s (fun c hc => hc), drop s.reverse fun c hc => List.mem_reverse.mp hc]
  have hsign : dropSign s = s := by
    cases s with
    | nil => rfl
    | cons c cs =>
        refine if_neg ?_
        rintro (rfl | rfl)
        · exact absurd (h _ (List.mem_cons_self ..)) (by decide)
        · exact absurd (h _ (List.mem_cons_self ..)) (by decide)
  have hprefix : dropHexPrefix s = s := by
    match s, h with
    | [], _ => rfl
    | [_], _ => rfl
    | z :: x :: cs, h =>
        refine if_neg ?_
        rintro ⟨_, rfl | rfl⟩
        · exact absurd (h (codePoint 'x') (by simp)) (by decide)
        · exact absurd (h (codePoint 'X') (by simp)) (by decide)
  simp only [hexParses, hascii, hstrip, List.reverse_reverse, hsign, hprefix]
  cases s with
  | nil => exact absurd rfl hne
  | cons c cs =>
      rw [hexRun, if_pos (h c (by simp))]
      exact hexRun_of_all fun x hx => h x (List.mem_cons_of_mem c hx)

theorem dropMatches_of_not_mem {p : CodePoint} {pat s : PyStr} (h : p ∉ s) :
    dropMatches (p :: pat) 0 s = s := by
  induction s with
  | nil => rfl
  | cons c cs ih =>
      have hpc : p ≠ c := fun e => h (by simp [e])
      have hcs : p ∉ cs := fun hm => h (List.mem_cons_of_mem c hm)
      have hpre : (p :: pat).isPrefixOf (c :: cs) = false := by
        simp [List.isPrefixOf, hpc]
      simp only [dropMatches, hpre, Bool.false_eq_true, if_false, ih hcs]

theorem stripBraces_of_not_mem {s : PyStr} (h : codePoint '\x7b' ∉ s) (h' : codePoint '\x7d' ∉ s) :
    stripBraces s = s := by
  have drop : ∀ t : PyStr, (∀ c ∈ t, c ∈ s) →
      t.dropWhile (fun c => decide (c = codePoint '\x7b') || decide (c = codePoint '\x7d')) = t := by
    intro t ht
    cases t with
    | nil => rfl
    | cons c cs =>
        have hc : c ∈ s := ht c (by simp)
        have h1 : c ≠ codePoint '\x7b' := fun e => h (e ▸ hc)
        have h2 : c ≠ codePoint '\x7d' := fun e => h' (e ▸ hc)
        simp [List.dropWhile, h1, h2]
  have h1 := drop s fun c hc => hc
  have h2 := drop s.reverse fun c hc => List.mem_reverse.mp hc
  simp only [stripBraces, h1, h2, List.reverse_reverse]

theorem isHexDigit_hexDigit {n : Nat} (h : n < 16) : isHexDigit (codePoint (hexDigit n)) = true := by
  interval_cases n <;> decide

theorem all_hex (bs : List UInt8) : ∀ c ∈ hex bs, isHexDigit c = true := by
  induction bs with
  | nil => simp [hex, hexChars]
  | cons b bs ih =>
      have hb : b.toNat < 256 := b.toNat_lt
      intro c hc
      simp only [hex, hexChars, List.map_cons, List.mem_cons] at hc
      rcases hc with rfl | rfl | hc
      · exact isHexDigit_hexDigit (by omega)
      · exact isHexDigit_hexDigit (by omega)
      · exact ih c hc

theorem filter_hyphen_hex (bs : List UInt8) :
    (hex bs).filter (fun c => decide (c ≠ codePoint '-')) = hex bs := by
  rw [List.filter_eq_self]
  intro c hc
  have := all_hex bs c hc
  simp only [ne_eq, decide_not, Bool.not_eq_true', decide_eq_false_iff_not]
  rintro rfl
  exact absurd this (by decide)

namespace Uuid

/-- Every code point of the printed form is a hexadecimal digit or a hyphen. -/
theorem mem_str {u : Uuid} {c : CodePoint} (hc : c ∈ u.str) :
    isHexDigit c = true ∨ c = codePoint '-' := by
  simp only [str, List.mem_append] at hc
  have hyphen : ∀ {c : CodePoint}, c ∈ lit "-" → c = codePoint '-' := by
    intro c h
    simpa [lit] using h
  rcases hc with ((((((((h | h) | h) | h) | h) | h) | h) | h) | h)
  all_goals first
    | exact Or.inl (all_hex _ _ h)
    | exact Or.inr (hyphen h)

theorem not_mem_str (u : Uuid) {c : CodePoint} (h : isHexDigit c = false) (h' : c ≠ codePoint '-') :
    c ∉ u.str := by
  intro hc
  rcases mem_str hc with hx | hx
  · rw [h] at hx
    exact Bool.false_ne_true hx
  · exact h' hx

theorem filter_hyphen_str (u : Uuid) :
    u.str.filter (fun c => decide (c ≠ codePoint '-')) =
      hex (u.bytes.take 4) ++ hex ((u.bytes.drop 4).take 2) ++ hex ((u.bytes.drop 6).take 2) ++
        hex ((u.bytes.drop 8).take 2) ++ hex (u.bytes.drop 10) := by
  have hyphen : (lit "-").filter (fun c => decide (c ≠ codePoint '-')) = [] := by decide
  simp only [str, List.filter_append, filter_hyphen_hex, hyphen, List.append_nil]

/-- **`UUID(str(u))` is accepted**: the printed form passes every step of the constructor. -/
theorem uuidParses_str (u : Uuid) : uuidParses u.str = true := by
  have hurn : dropMatches "urn:" 0 u.str = u.str :=
    dropMatches_of_not_mem (u.not_mem_str (by decide) (by decide))
  have huuid : dropMatches "uuid:" 0 u.str = u.str :=
    dropMatches_of_not_mem (u.not_mem_str (by decide) (by decide))
  have hbrace : stripBraces u.str = u.str :=
    stripBraces_of_not_mem (u.not_mem_str (by decide) (by decide))
      (u.not_mem_str (by decide) (by decide))
  have hall : ∀ c ∈ hex (u.bytes.take 4) ++ hex ((u.bytes.drop 4).take 2) ++ hex ((u.bytes.drop 6).take 2) ++
      hex ((u.bytes.drop 8).take 2) ++ hex (u.bytes.drop 10), isHexDigit c = true := by
    intro c hc
    simp only [List.mem_append] at hc
    rcases hc with (((hc | hc) | hc) | hc) | hc <;> exact all_hex _ _ hc
  have hlen : (hex (u.bytes.take 4) ++ hex ((u.bytes.drop 4).take 2) ++ hex ((u.bytes.drop 6).take 2) ++
      hex ((u.bytes.drop 8).take 2) ++ hex (u.bytes.drop 10)).length = 32 := by
    simp [hex, u.size_eq]
  simp only [uuidParses, hurn, huuid, hbrace, filter_hyphen_str, Bool.and_eq_true, decide_eq_true_eq]
  exact ⟨hlen, hexParses_of_all (List.ne_nil_of_length_pos (by omega)) hall⟩

end Uuid

end TradeBroker.Lib
