/-
# TradeBroker.Firmware.Parsing — the codec on arbitrary bytes, and the two decoders side by side.

`Firmware.Stream` is about streams of frames that the host wrote.  Here the bytes are anybody's.

* What the codec recognises was there, and in that order (`device_frames_in_stream`).
* How the bytes are cut makes no difference, as long as no call finds the buffer too full
  (`device_cut_irrelevant`).
* Where the decoder of the host raises nothing, the codec recognises the same frames, and then what it sees in
  the bytes that the host still holds (`decoders_agree`).  Where the host raises, the two part: it drops a frame
  with a bad CRC as a whole, the codec only its magic.

The comparison needs no third description of the format.  Each of the two scanners is settled in the sense
of `Lib.Confluence`, and `imitates` shows, turn by turn, that the codec goes through what the host's
decoder drops and finds what it finds.  The host looks for the magic in one step, the codec skips to it
byte by byte; the host keeps three bytes of a buffer without a magic, and so does the codec in the end.

The receive buffer of the device is bounded and that of the host is not, so every statement about the
codec says that no call found the buffer too full, or says what is lost when one does.
-/
import TradeBroker.Gba.Progress
import TradeBroker.Firmware.Delivery

namespace TradeBroker.Firmware

open Lib
open Gba (magic version headerSize crcSize maxPayload Frame Header FrameDecoder)
open Gba.FrameDecoder (declared)

/-! ## §1 — a frame of any type. -/

namespace ParsedFrame

def header (f : ParsedFrame) : Header where
  magic := magic
  version := version
  rawType := f.type.raw
  flags := 0
  size := f.payload.length
  txid := f.transactionId.bytes
  sequence := f.sequence

def body (f : ParsedFrame) : Bytes := f.header.pack ++ f.payload

/-- The bytes of a frame. -/
def encode (f : ParsedFrame) : Bytes := f.body ++ leBytes crcSize (crc32 f.body).toNat

end ParsedFrame

namespace Codec

/-- **`send` writes this encoding.** -/
theorem encode_eq (c : Codec) (type : Message) (payload : Bytes) :
    c.encode type payload = ParsedFrame.encode ⟨type, c.transactionId, c.sendSequence, payload⟩ := rfl

/-! ## §2 — one pass. -/

/-- The header at the front is one that the codec goes on with: its version, no flags, and a payload that is
not too long. -/
def Sane (p : Bytes) : Prop :=
  (Header.unpackFrom p).version = version ∧ (Header.unpackFrom p).flags = 0 ∧
    (Header.unpackFrom p).size ≤ maxPayload

instance (p : Bytes) : Decidable (Sane p) := inferInstanceAs (Decidable (_ ∧ _ ∧ _))

/-- The CRC of the frame at the front is the one behind it. -/
def Checked (p : Bytes) : Prop :=
  (crc32 (slice p 0 (headerSize + (Header.unpackFrom p).size))).toNat =
    leNat (slice p (headerSize + (Header.unpackFrom p).size) (declared p))

instance (p : Bytes) : Decidable (Checked p) := inferInstanceAs (Decidable (_ = _))

def frameAt (p : Bytes) : ParsedFrame where
  type := ⟨(Header.unpackFrom p).rawType⟩
  transactionId := Uuid.ofBytes (Header.unpackFrom p).txid
  sequence := (Header.unpackFrom p).sequence
  payload := slice p headerSize (headerSize + (Header.unpackFrom p).size)

theorem turn_short {p : Bytes} (h : p.length < magic.length) : turn p = .wait p := if_pos h

theorem turn_noise {p : Bytes} (h : magic.length ≤ p.length) (hm : ¬ magic <+: p) : turn p = .skip (p.drop 1) := by
  have hne : p.take magic.length ≠ magic := fun he => hm ⟨_, he ▸ List.take_append_drop _ _⟩
  rw [turn, if_neg (Nat.not_lt.mpr h), if_pos hne]

theorem turn_magic {p : Bytes} (hm : magic <+: p) :
    turn p =
      if p.length < headerSize then .wait p
      else if Sane p then
        if p.length < declared p then .wait p
        else if Checked p then .emit (frameAt p) (p.drop (declared p))
        else .skip (p.drop magic.length)
      else .skip (p.drop magic.length) := by
  have htake : p.take magic.length = magic := by
    obtain ⟨bs, rfl⟩ := hm
    exact List.take_left
  have hsane : ((Header.unpackFrom p).version ≠ version ∨ (Header.unpackFrom p).flags ≠ 0 ∨
      maxPayload < (Header.unpackFrom p).size) ↔ ¬ Sane p := by
    rw [Sane, ← not_le]
    tauto
  rw [turn, if_neg (Nat.not_lt.mpr hm.length_le), if_neg (not_not.mpr htake)]
  by_cases hlen : p.length < headerSize
  · rw [if_pos hlen, if_pos hlen]
  rw [if_neg hlen, if_neg hlen]
  show (if (Header.unpackFrom p).version ≠ version ∨ (Header.unpackFrom p).flags ≠ 0 ∨
    maxPayload < (Header.unpackFrom p).size then _ else if p.length < declared p then _ else
      if ¬ Checked p then _ else _) = _
  by_cases hs : Sane p
  · rw [if_neg (fun h => hsane.mp h hs), if_pos hs]
    by_cases ht : p.length < declared p
    · rw [if_pos ht, if_pos ht]
    · rw [if_neg ht, if_neg ht]
      by_cases hc : Checked p
      · rw [if_neg (not_not.mpr hc), if_pos hc]
        rfl
      · rw [if_pos hc, if_neg hc]
  · rw [if_pos (hsane.mpr hs), if_neg hs]

theorem sane_append {p : Bytes} (h : headerSize ≤ p.length) (q : Bytes) : Sane (p ++ q) ↔ Sane p := by
  rw [Sane, Sane, Header.unpackFrom_append h]

theorem checked_append {p : Bytes} (h : declared p ≤ p.length) (q : Bytes) : Checked (p ++ q) ↔ Checked p := by
  have hlen : headerSize + (Header.unpackFrom p).size + crcSize ≤ p.length := h
  have hhead : headerSize ≤ p.length := by omega
  rw [Checked, Checked, Header.unpackFrom_append hhead, FrameDecoder.declared_append hhead,
    slice_append_left (by omega), slice_append_left h]

theorem frameAt_append {p : Bytes} (h : declared p ≤ p.length) (q : Bytes) : frameAt (p ++ q) = frameAt p := by
  have hlen : headerSize + (Header.unpackFrom p).size + crcSize ≤ p.length := h
  rw [frameAt, frameAt, Header.unpackFrom_append (by omega), slice_append_left (by omega)]

/-- **A recognised frame is its own encoding.** -/
theorem encode_frameAt {p : Bytes} (hm : magic <+: p) (hlen : declared p ≤ p.length) (hs : Sane p)
    (hc : Checked p) : (frameAt p).encode = slice p 0 (declared p) := by
  have hall : headerSize + (Header.unpackFrom p).size + crcSize ≤ p.length := hlen
  have hhead : headerSize ≤ p.length := by omega
  have hsize : (frameAt p).payload.length = (Header.unpackFrom p).size := by
    rw [frameAt, length_slice (by omega)]
    omega
  have hid : (frameAt p).transactionId.bytes = (Header.unpackFrom p).txid := by
    have h16 : (Header.unpackFrom p).txid.length = 16 := length_slice (le_trans (by decide) hhead)
    show ((Header.unpackFrom p).txid ++ List.replicate 16 0).take 16 = _
    rw [← h16, List.take_left]
  have hheader : (frameAt p).header = Header.unpackFrom p := by
    obtain ⟨hver, hflags, -⟩ := hs
    have hmagic := Header.magic_unpackFrom hm
    have htype : (frameAt p).type.raw = (Header.unpackFrom p).rawType := rfl
    have hseq : (frameAt p).sequence = (Header.unpackFrom p).sequence := rfl
    rw [ParsedFrame.header, htype, hsize, hid, hseq]
    rcases hu : Header.unpackFrom p with ⟨m, v, t, fl, sz, tx, sq⟩
    rw [hu] at hver hflags hmagic
    simp only at hver hflags hmagic
    rw [hver, hflags, hmagic]
  have hbody : (frameAt p).body = slice p 0 (headerSize + (Header.unpackFrom p).size) := by
    rw [ParsedFrame.body, hheader, Header.pack_unpackFrom hhead]
    exact slice_slice p (Nat.zero_le _) (by omega)
  have hword : leBytes crcSize (crc32 (frameAt p).body).toNat =
      slice p (headerSize + (Header.unpackFrom p).size) (declared p) := by
    rw [hbody, show (crc32 _).toNat = _ from hc]
    exact leBytes_slice hlen
  rw [ParsedFrame.encode, hword, hbody]
  exact slice_slice p (Nat.zero_le _) (by rw [declared]; omega)

theorem encode_ne_nil (f : ParsedFrame) : f.encode ≠ [] := by
  rw [ParsedFrame.encode, ParsedFrame.body, ParsedFrame.header, Header.pack]
  simp [magic]

/-- **One pass**: bytes that have to wait are kept, and what is skipped or taken off does not depend on what
comes later.  Nothing is skipped together with a frame. -/
theorem codec_settled (p : Bytes) : Settled turn ParsedFrame.encode (fun noise => noise = []) p := by
  have hwaits : turn p = .wait p → Settled turn ParsedFrame.encode (fun noise => noise = []) p :=
    fun h => .wait h List.suffix_rfl fun _ => rfl
  by_cases hlen : magic.length ≤ p.length
  swap
  · exact hwaits (turn_short (Nat.lt_of_not_le hlen))
  by_cases hm : magic <+: p
  swap
  · -- the first byte is noise
    have h4 : 4 ≤ p.length := hlen
    refine .skip (List.drop_suffix 1 p) (by rw [List.length_drop]; omega) fun q => ?_
    have hm' : ¬ magic <+: p ++ q := fun h => hm (List.prefix_of_prefix_length_le h (List.prefix_append _ _) hlen)
    rw [turn_noise (by rw [List.length_append]; omega) hm', List.drop_append_of_le_length (by omega)]
  by_cases hhead : p.length < headerSize
  · exact hwaits (by rw [turn_magic hm, if_pos hhead])
  have hhead' : headerSize ≤ p.length := Nat.not_lt.mp hhead
  have hlong : ∀ q : Bytes, ¬ (p ++ q).length < headerSize := fun q => by
    rw [List.length_append]
    omega
  have hskip : (∀ q, turn (p ++ q) = .skip ((p ++ q).drop magic.length)) →
      Settled turn ParsedFrame.encode (fun noise => noise = []) p := by
    intro h
    have h4 : 4 ≤ p.length := hlen
    refine .skip (List.drop_suffix magic.length p) ?_ fun q => ?_
    · rw [List.length_drop]
      show p.length - 4 < p.length
      omega
    · rw [h q, List.drop_append_of_le_length hlen]
  by_cases hs : Sane p
  swap
  · refine hskip fun q => ?_
    rw [turn_magic (hm.trans (List.prefix_append _ _)), if_neg (hlong q), if_neg (mt (sane_append hhead' q).mp hs)]
  by_cases ht : p.length < declared p
  · exact hwaits (by rw [turn_magic hm, if_neg hhead, if_pos hs, if_pos ht])
  have ht' : declared p ≤ p.length := Nat.not_lt.mp ht
  have hwhole : ∀ q : Bytes, ¬ (p ++ q).length < declared (p ++ q) := fun q => by
    rw [FrameDecoder.declared_append hhead', List.length_append]
    omega
  by_cases hc : Checked p
  · have hsplit : p = [] ++ ((frameAt p).encode ++ p.drop (declared p)) := by
      rw [encode_frameAt hm ht' hs hc]
      exact (List.take_append_drop _ _).symm
    refine .emit rfl (encode_ne_nil (frameAt p)) hsplit fun q => ?_
    rw [turn_magic (hm.trans (List.prefix_append _ _)), if_neg (hlong q), if_pos ((sane_append hhead' q).mpr hs),
      if_neg (hwhole q), if_pos ((checked_append ht' q).mpr hc), frameAt_append ht',
      FrameDecoder.declared_append hhead', List.drop_append_of_le_length ht']
  · refine hskip fun q => ?_
    rw [turn_magic (hm.trans (List.prefix_append _ _)), if_neg (hlong q), if_pos ((sane_append hhead' q).mpr hs),
      if_neg (hwhole q), if_neg (mt (checked_append ht' q).mp hc)]

/-! ## §3 — any bytes. -/

/-- What the codec makes of the bytes in its buffer: the frames it recognises, and the bytes it goes on with.
It is the scan without the filter and without the handler. -/
def sight (rx : Bytes) : Scanned ParsedFrame Empty := scan turn (rx.length + 1) rx

/-- One scan over both parts, or the scan of the second part from where the first one stopped. -/
theorem sight_append (p q : Bytes) :
    sight (p ++ q) = { sight ((sight p).rest ++ q) with
      found := (sight p).found ++ (sight ((sight p).rest ++ q)).found } := by
  have hscan := scan_append (p := p) (q := q) codec_settled (Nat.lt_succ_self _) (Nat.lt_succ_self _)
    (Nat.lt_succ_self _)
  cases hfail : (scan turn (p.length + 1) p).failure with
  | none =>
      rw [hfail] at hscan
      exact hscan
  | some e => exact e.elim

/-- What a scan keeps, it keeps again. -/
theorem sight_rest (p : Bytes) : sight (sight p).rest = ⟨[], none, (sight p).rest⟩ := by
  have hagain := sight_append p []
  rw [List.append_nil, List.append_nil] at hagain
  have hfound : (sight (sight p).rest).found = [] := by
    have hlen := congrArg (fun s => s.found.length) hagain
    simp only [List.length_append] at hlen
    exact List.length_eq_zero_iff.mp (by omega)
  have hrest : (sight (sight p).rest).rest = (sight p).rest := (congrArg Scanned.rest hagain).symm
  cases hs : sight (sight p).rest with
  | mk found failure rest =>
      rw [hs] at hfound hrest
      obtain rfl : found = [] := hfound
      obtain rfl : rest = (sight p).rest := hrest
      cases failure with
      | none => rfl
      | some e => exact e.elim

theorem received_fits {chunk rx : Bytes} (h : ¬ maxFrame - rx.length < chunk.length) (chunks : List Bytes) :
    received (chunk :: chunks) rx = ((sight (rx ++ chunk)).found ++ (received chunks (sight (rx ++ chunk)).rest).1,
      (received chunks (sight (rx ++ chunk)).rest).2) := if_neg h

/-- The frames recognised stand in the stream, one behind the other, also where calls have emptied the buffer
in between. -/
theorem received_segments (chunks : List Bytes) (rx : Bytes) :
    ∃ items last, rx ++ chunks.flatten = noisy ParsedFrame.encode items last ∧
      items.map Prod.snd = (received chunks rx).1 := by
  induction chunks generalizing rx with
  | nil => exact ⟨[], rx ++ [], rfl, rfl⟩
  | cons chunk chunks ih =>
      by_cases hfit : maxFrame - rx.length < chunk.length
      swap
      · rw [received_fits hfit, List.flatten_cons]
        obtain ⟨items, dropped, hbuf, hfound⟩ := scan_segments codec_settled ((rx ++ chunk).length + 1) (rx ++ chunk)
        obtain ⟨more, last, hrest, hmore⟩ := ih (sight (rx ++ chunk)).rest
        obtain ⟨all, last', hall, hsnd⟩ := noisy_append ParsedFrame.encode items more dropped last
        refine ⟨all, last', ?_, ?_⟩
        · have hcut : rx ++ chunk = noisy ParsedFrame.encode items (dropped ++ (sight (rx ++ chunk)).rest) := hbuf
          rw [← hall, ← hrest, ← List.append_assoc dropped, noisy_last, ← hcut, List.append_assoc]
        · rw [hsnd, hfound, hmore]
          rfl
      · -- what was in the buffer is lost with the chunk
        rw [received, if_pos hfit, List.flatten_cons]
        obtain ⟨items, last, hrest, hitems⟩ := ih []
        obtain ⟨items', last', hall, hsame⟩ := noisy_behind ParsedFrame.encode (rx ++ chunk) items last []
        refine ⟨items', last' ++ [], ?_, hsame.trans hitems⟩
        rw [← hall, List.append_nil, ← hrest, List.nil_append, List.append_assoc]

section Receive

variable {σ : Type} {receive : ParsedFrame → Codec × σ → Codec × σ}

/-- A call that finds room. -/
theorem feed_fits (hl : Local receive) {chunk : Bytes} {s : Codec × σ}
    (h : ¬ maxFrame - s.1.rx.length < chunk.length) :
    feed receive chunk s = withRx (sight (s.1.rx ++ chunk)).rest
      (deliverAll receive (sight (s.1.rx ++ chunk)).found s) := by
  rw [feed, if_neg h]
  show consume receive _ (withRx (s.1.rx ++ chunk) s) = _
  rw [consume_eq hl]
  show withRx (sight (s.1.rx ++ chunk)).rest
    (deliverAll receive (sight (s.1.rx ++ chunk)).found (withRx _ s)) = _
  rw [deliverAll_withRx hl]
  rfl

/-- As many bytes as the buffer takes always find room. -/
theorem overflows_few (hl : Local receive) (chunks : List Bytes) {s : Codec × σ}
    (h : s.1.rx.length + chunks.flatten.length ≤ maxFrame) : overflows receive chunks s = false := by
  induction chunks generalizing s with
  | nil => rfl
  | cons chunk chunks ih =>
      rw [List.flatten_cons, List.length_append] at h
      have hfit : ¬ maxFrame - s.1.rx.length < chunk.length := by omega
      have hweight := scan_weight ((s.1.rx ++ chunk).length + 1) (s.1.rx ++ chunk)
      rw [overflows, Bool.or_eq_false_iff, decide_eq_false_iff_not]
      refine ⟨hfit, ih ?_⟩
      rw [feed_fits hl hfit]
      show (sight (s.1.rx ++ chunk)).rest.length + _ ≤ _
      rw [sight]
      rw [List.length_append] at hweight ⊢
      omega

/-- **Calls that find room are one scan of all their bytes**, wherever the calls begin and end. -/
theorem received_sight (hl : Local receive) (chunks : List Bytes) {s : Codec × σ}
    (hidle : sight s.1.rx = ⟨[], none, s.1.rx⟩) (hroom : overflows receive chunks s = false) :
    received chunks s.1.rx = ((sight (s.1.rx ++ chunks.flatten)).found, (sight (s.1.rx ++ chunks.flatten)).rest) := by
  induction chunks generalizing s with
  | nil =>
      rw [List.flatten_nil, List.append_nil, hidle]
      rfl
  | cons chunk chunks ih =>
      rw [overflows, Bool.or_eq_false_iff, decide_eq_false_iff_not] at hroom
      obtain ⟨hfit, hlater⟩ := hroom
      rw [feed_fits hl hfit] at hlater
      have hrest := ih (s := withRx (sight (s.1.rx ++ chunk)).rest
        (deliverAll receive (sight (s.1.rx ++ chunk)).found s)) ?_ hlater
      · rw [received_fits hfit]
        have hrest : received chunks (sight (s.1.rx ++ chunk)).rest = _ := hrest
        rw [hrest, List.flatten_cons, ← List.append_assoc, sight_append (s.1.rx ++ chunk)]
        rfl
      · exact sight_rest _

end Receive

/-! ## §4 — beside the decoder of the host. -/

/-- The bytes in front of the first magic are skipped one by one. -/
theorem alike_find {buf : Bytes} {k : Nat} (h : find magic buf = some k) : Alike turn buf (buf.drop k) := by
  induction buf generalizing k with
  | nil => cases h
  | cons b bs ih =>
      rw [find] at h
      split at h
      · obtain rfl := Option.some.inj h
        exact .refl codec_settled _
      · rename_i hm
        rw [List.isPrefixOf_iff_prefix] at hm
        obtain ⟨j, hj, rfl⟩ := Option.map_eq_some_iff.mp h
        obtain ⟨noise, tail, hbs, -, -⟩ := find_eq_some (by decide) hj
        have hlen : magic.length ≤ (b :: bs).length := by
          have := congrArg List.length hbs
          simp only [List.length_append, List.length_cons] at this ⊢
          omega
        exact (Alike.skip codec_settled (turn_noise hlen hm) (Nat.lt_succ_self _)).trans (ih hj)

/-- Bytes without a magic are skipped up to the last three. -/
theorem alike_none {buf : Bytes} (h : find magic buf = none) :
    Alike turn buf (buf.drop (buf.length - min buf.length (magic.length - 1))) := by
  induction buf with
  | nil => exact .refl codec_settled _
  | cons b bs ih =>
      by_cases hlen : magic.length ≤ (b :: bs).length
      · rw [find] at h
        split at h
        · cases h
        · rename_i hm
          rw [List.isPrefixOf_iff_prefix] at hm
          have hone := Alike.skip codec_settled (turn_noise hlen hm) (Nat.lt_succ_self _)
          have hrest := ih (Option.map_eq_none_iff.mp h)
          have hcut : (b :: bs).length - min (b :: bs).length (magic.length - 1) =
              (bs.length - min bs.length (magic.length - 1)) + 1 := by
            have h4 : magic.length = 4 := rfl
            rw [h4, List.length_cons] at hlen ⊢
            omega
          rw [hcut]
          exact hone.trans hrest
      · have hall : (b :: bs).length - min (b :: bs).length (magic.length - 1) = 0 := by
          have h4 : magic.length = 4 := rfl
          omega
        rw [hall]
        exact .refl codec_settled _

/-- A pass of the host over a buffer with a magic in it: the codec gets to the same place. -/
theorem host_turn {buf : Bytes} {k : Nat} (h : find magic buf = some k) :
    ∃ p, Alike turn buf p ∧ magic <+: p ∧ FrameDecoder.turn buf = FrameDecoder.turnAt p := by
  obtain ⟨noise, tail, hbuf, hk, -⟩ := find_eq_some (by decide) h
  have hdrop : buf.drop k = magic ++ tail := by
    rw [hbuf, ← hk]
    exact List.drop_left
  refine ⟨magic ++ tail, hdrop ▸ alike_find h, List.prefix_append magic tail, ?_⟩
  rw [FrameDecoder.turn, h]
  show FrameDecoder.turnAt (buf.drop k) = _
  rw [hdrop]

/-- **The codec imitates the decoder of the host**, wherever that one does not raise. -/
theorem imitates : Imitates FrameDecoder.turn turn parsed where
  wait := by
    intro p kept h
    cases hfind : find magic p with
    | none =>
        rw [FrameDecoder.turn, hfind] at h
        injection h with h
        exact h ▸ alike_none hfind
    | some k =>
        obtain ⟨mid, halike, hm, hturn⟩ := host_turn hfind
        rw [hturn] at h
        have hkept : kept = mid := by
          rcases FrameDecoder.turnAt_cases hm with ⟨hwait, -⟩ | ⟨-, -, hfail⟩ | ⟨-, -, -, hdone⟩
          · rw [hwait] at h
            injection h with h
            exact h.symm
          · rw [hfail] at h
            cases h
          · rw [hdone] at h
            cases hv : FrameDecoder.validateAt mid with
            | error e =>
                rw [hv] at h
                cases h
            | ok f =>
                rw [hv] at h
                cases h
        exact hkept ▸ halike
  skip := fun h => absurd h (FrameDecoder.turn_ne_skip _ _)
  emit := by
    intro p f rest h
    cases hfind : find magic p with
    | none =>
        rw [FrameDecoder.turn, hfind] at h
        cases h
    | some k =>
        obtain ⟨mid, halike, hm, hturn⟩ := host_turn hfind
        rw [hturn] at h
        rcases FrameDecoder.turnAt_cases hm with ⟨hwait, -⟩ | ⟨-, -, hfail⟩ | ⟨-, -, ht, hdone⟩
        · rw [hwait] at h
          cases h
        · rw [hfail] at h
          cases h
        · rw [hdone] at h
          cases hv : FrameDecoder.validateAt mid with
          | error e =>
              rw [hv] at h
              cases h
          | ok f' =>
              rw [hv] at h
              injection h with hf hrest
              subst hf hrest
              -- the frame that the host accepts stands at the front, and the codec takes it off
              have hsplit : mid = f'.encode ++ mid.drop (declared mid) := by
                rw [FrameDecoder.encode_of_validate hm ht hv]
                exact (List.take_append_drop _ _).symm
              refine ⟨mid, halike, ?_, ?_⟩
              · nth_rewrite 1 [hsplit]
                exact turn_encode f' _
              · have hpos := List.length_pos_of_ne_nil f'.encode_ne_nil
                have hlen := congrArg List.length hsplit
                rw [List.length_append] at hlen
                omega

/-- **What the host still waits for**, when it is no more than its beginning or has the version and the flags of
a frame, the codec waits for as well. -/
theorem sight_waiting {rx : Bytes} (ht : FrameDecoder.Tidy rx) (h : rx.length < headerSize ∨ Sane rx) :
    (sight rx).found = [] := by
  have hweight := scan_weight (rx.length + 1) rx
  have hhead : headerSize = 32 := rfl
  have hfew : rx.length < headerSize → (sight rx).found = [] := by
    intro hlt
    cases hfound : (sight rx).found with
    | nil => rfl
    | cons f fs =>
        have hle : totalWeight (sight rx).found ≤ rx.length := by
          show totalWeight (scan turn (rx.length + 1) rx).found ≤ rx.length
          omega
        rw [hfound, totalWeight, List.map_cons, List.sum_cons, ParsedFrame.weight] at hle
        omega
  rcases ht with hthree | ⟨hm, hlt | ⟨-, hopen⟩⟩
  · exact hfew (by omega)
  · exact hfew hlt
  · rcases h with hlt | hs
    · exact hfew hlt
    · have hwait : turn rx = .wait rx := by
        rw [turn_magic hm, if_pos hs, if_pos hopen, ite_self]
      rw [sight, scan, hwait]

/-! ## §5 — what is handed over. -/

section Handed

variable {σ : Type} {receive : ParsedFrame → Codec × σ → Codec × σ}

/-- Only frames of the transaction are handed over, each once and in order, and the transaction stays what it
is: a tame handler does not leave it. -/
theorem deliverAll_own (hr : Tame receive) (frames : List ParsedFrame) (s : Codec × σ × List ParsedFrame) :
    ∃ handed, handed.Sublist frames ∧ (∀ frame ∈ handed, frame.transactionId = s.1.transactionId) ∧
      (deliverAll (logged receive) frames s).2.2 = s.2.2 ++ handed := by
  induction frames generalizing s with
  | nil => exact ⟨[], List.Sublist.slnil, fun _ h => absurd h List.not_mem_nil, by simp [deliverAll]⟩
  | cons frame frames ih =>
      obtain ⟨handed, hsub, hown, hlog⟩ := ih (deliver (logged receive) frame s)
      show ∃ handed, _ ∧ _ ∧ (deliverAll (logged receive) frames (deliver (logged receive) frame s)).2.2 = _
      rw [hlog]
      rw [deliver] at hown ⊢
      split
      · rename_i hskip
        rw [if_pos hskip] at hown
        exact ⟨handed, hsub.cons frame, hown, rfl⟩
      · rename_i htake
        rw [if_neg htake] at hown
        have hid : frame.transactionId = s.1.transactionId := not_not.mp fun hne => htake (Or.inl hne)
        have hkeep := hr.transaction frame ({ s.1 with lastReceivedSequence := frame.sequence }, s.2.1) hid
        refine ⟨frame :: handed, hsub.cons_cons frame, ?_, ?_⟩
        · intro f hf
          rcases List.mem_cons.mp hf with rfl | hf
          · exact hid
          · exact (hown f hf).trans hkeep
        · show (s.2.2 ++ [frame]) ++ handed = _
          rw [List.append_assoc, List.singleton_append]

end Handed

end Codec

/-! ## §6 — for every stream. -/

section Stream

variable {σ : Type} {receive : ParsedFrame → Codec × σ → Codec × σ}

/-- **Nothing is made up.**  Whatever arrives, in whatever chunks and with whatever chunks lost: the encodings of
the frames that the handler is called with stand in the stream one behind the other, in that order, and are of
the codec's transaction. -/
theorem device_frames_in_stream (hr : Codec.Tame receive) (chunks : List Bytes) (c : Codec) (owner : σ) :
    ∃ items last, c.rx ++ chunks.flatten = noisy ParsedFrame.encode items last ∧
      (∀ item ∈ items, item.2.transactionId = c.transactionId) ∧
      (Codec.feedAll (Codec.logged receive) chunks (c, owner, [])).2.2 = items.map Prod.snd := by
  obtain ⟨items, last, hstream, hitems⟩ := Codec.received_segments chunks c.rx
  obtain ⟨handed, hsub, hown, hlog⟩ := Codec.deliverAll_own hr (Codec.received chunks c.rx).1 (c, owner, [])
  rw [← hitems] at hsub
  obtain ⟨items', last', hnoisy, hsnd⟩ := noisy_sublist ParsedFrame.encode hsub last
  refine ⟨items', last', hstream.trans hnoisy, ?_, ?_⟩
  · intro item hitem
    exact hown item.2 (hsnd ▸ List.mem_map_of_mem hitem)
  · rw [Codec.feedAll_eq (Codec.logged_local hr.rx), hsnd]
    exact hlog

theorem device_frames_in_stream_straddled :
    ∃ items last, ({} : Codec).rx ++ Sample.across.flatten = noisy ParsedFrame.encode items last ∧
      (∀ item ∈ items, item.2.transactionId = ({} : Codec).transactionId) ∧
      (Codec.feedAll (Codec.logged (TradeBridge.handle Lib.sha256)) Sample.across ({}, {}, [])).2.2 =
        items.map Prod.snd :=
  device_frames_in_stream (TradeBridge.handle_tame Lib.sha256) Sample.across {} {}

/-- **The cut makes no difference**, as long as no call finds the buffer too full: the codec ends in one state,
and so does its owner. -/
theorem device_cut_irrelevant (hl : Codec.Local receive) {s : Codec × σ} {chunks chunks' : List Bytes}
    (hrest : Codec.turn s.1.rx = .wait s.1.rx) (hcut : chunks.flatten = chunks'.flatten)
    (hroom : Codec.overflows receive chunks s = false) (hroom' : Codec.overflows receive chunks' s = false) :
    Codec.feedAll receive chunks s = Codec.feedAll receive chunks' s := by
  have hidle : Codec.sight s.1.rx = ⟨[], none, s.1.rx⟩ := by
    rw [Codec.sight, scan, hrest]
  rw [Codec.feedAll_eq hl, Codec.feedAll_eq hl, Codec.received_sight hl chunks hidle hroom,
    Codec.received_sight hl chunks' hidle hroom', hcut]

/-- A frame behind the beginning of another magic. -/
def Sample.stray : Bytes := magic.take 3 ++ Gba.magicFrame.encode

theorem device_cut_irrelevant_bytewise :
    Codec.feedAll (TradeBridge.handle Lib.sha256) [Sample.stray] ({}, {}) =
      Codec.feedAll (TradeBridge.handle Lib.sha256) (bytewise Sample.stray) ({}, {}) := by
  have hl := TradeBridge.handle_local Lib.sha256
  have hlen : (0 : Nat) + Sample.stray.length ≤ maxFrame := by
    rw [Sample.stray, List.length_append, Gba.magicFrame.length_encode]
    decide
  refine device_cut_irrelevant hl rfl ?_ (Codec.overflows_few hl _ ?_) (Codec.overflows_few hl _ ?_)
  · rw [flatten_bytewise, List.flatten_singleton]
  · rw [List.flatten_singleton]
    exact hlen
  · rw [flatten_bytewise]
    exact hlen

/-- **The two decoders agree** on every stream that the host decodes without an error, each with its own cuts and
as long as no call finds the buffer of the codec too full: the codec recognises the frames that the host returned,
and then exactly what it sees in the bytes that the host still holds.  It sees nothing there, unless those bytes
begin with a header of another version or with flags, which only the codec refuses before the frame is complete. -/
theorem decoders_agree (hl : Codec.Local receive) {reads chunks : List Bytes} {s : Codec × σ}
    (hcut : reads.flatten = chunks.flatten) (hrx : s.1.rx = [])
    (hroom : Codec.overflows receive chunks s = false)
    (hok : ∀ r ∈ (FrameDecoder.feedAll reads {}).1, ∃ frames, r = .ok frames) :
    (Codec.received chunks []).1 =
        (FrameDecoder.returned (FrameDecoder.feedAll reads {}).1).map parsed ++
          (Codec.sight (FrameDecoder.feedAll reads {}).2.buffer).found ∧
      ((FrameDecoder.feedAll reads {}).2.buffer.length < headerSize ∨
        Codec.Sane (FrameDecoder.feedAll reads {}).2.buffer →
          (Codec.sight (FrameDecoder.feedAll reads {}).2.buffer).found = []) := by
  have hpass := FrameDecoder.feedAll_pass rfl hok
  have hscan : scan FrameDecoder.turn (reads.flatten.length + 1) reads.flatten = _ := hpass
  have hidle : Codec.sight s.1.rx = ⟨[], none, s.1.rx⟩ := by
    rw [hrx]
    rfl
  have hreceived := Codec.received_sight hl chunks hidle hroom
  rw [hrx, List.nil_append, ← hcut] at hreceived
  have hnone : (scan FrameDecoder.turn (reads.flatten.length + 1) reads.flatten).failure = none := by
    rw [hscan]
  have himitates := Codec.imitates.scan Codec.codec_settled hnone (Nat.lt_succ_self _) (Nat.lt_succ_self _)
  rw [hscan] at himitates
  refine ⟨?_, ?_⟩
  · rw [hreceived]
    exact congrArg Scanned.found himitates
  · have htidy : FrameDecoder.Tidy (FrameDecoder.feedAll reads {}).2.buffer := by
      rcases (FrameDecoder.pass_ended {} reads.flatten).2 with ⟨-, h⟩ | ⟨e, h, -⟩
      · rw [hpass] at h
        exact h
      · rw [hpass] at h
        cases h
    exact Codec.sight_waiting htidy

theorem decoders_agree_stray :
    (Codec.received [Sample.stray] []).1 =
        (FrameDecoder.returned (FrameDecoder.feedAll (bytewise Sample.stray) {}).1).map parsed ++
          (Codec.sight (FrameDecoder.feedAll (bytewise Sample.stray) {}).2.buffer).found ∧
      ((FrameDecoder.feedAll (bytewise Sample.stray) {}).2.buffer.length < headerSize ∨
        Codec.Sane (FrameDecoder.feedAll (bytewise Sample.stray) {}).2.buffer →
          (Codec.sight (FrameDecoder.feedAll (bytewise Sample.stray) {}).2.buffer).found = []) := by
  have hl := TradeBridge.handle_local Lib.sha256
  have hcut : (bytewise Sample.stray).flatten = [Sample.stray].flatten := by
    rw [flatten_bytewise, List.flatten_singleton]
  refine decoders_agree hl (s := ({}, {})) hcut rfl (Codec.overflows_few hl _ ?_) ?_
  · rw [List.flatten_singleton, Sample.stray, List.length_append, Gba.magicFrame.length_encode]
    decide
  · have hquiet : Quiet (fun noise => ¬ magic <:+: noise) [(magic.take 3, Gba.magicFrame)] [] :=
      ⟨by decide, by decide⟩
    have hstream : noisy Frame.encode [(magic.take 3, Gba.magicFrame)] [] =
        [] ++ (bytewise Sample.stray).flatten := by
      rw [flatten_bytewise, noisy, noisy, List.append_nil]
      rfl
    obtain ⟨lists, hlists, -⟩ := FrameDecoder.feedAll_noisy hquiet hstream fun h => absurd h (by decide)
    have hresults : (FrameDecoder.feedAll (bytewise Sample.stray) {}).1 = _ := hlists
    intro r hr
    rw [hresults] at hr
    obtain ⟨frames, -, hframes⟩ := List.mem_map.mp hr
    exact ⟨frames, hframes.symm⟩

end Stream

end TradeBroker.Firmware
