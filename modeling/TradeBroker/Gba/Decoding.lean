/-
# TradeBroker.Gba.Decoding — the frame decoder on arbitrary bytes.

`Gba.RoundTrip` is about streams that `encode` wrote.  Here the bytes are anybody's: noise, stray magics,
headers with absurd lengths, frames whose CRC is wrong.  Three questions, for every content of the buffer and
every cutting.

* What the decoder returns was there: `encode` undoes every accepted decode (`encode_of_validate`), so the
  frames are segments of the stream, in order and disjoint.
* How the bytes are cut makes no difference as long as nothing is raised: the bytes that `feed` keeps are
  enough to go on from (`decoder_settled`).
* What the decoder has taken off its buffer may be gone: the frames found before a bad one in the same call
  are in a local list when the call raises.

All of it comes from what one pass of the loop can do (`turn_cases`, `turnAt_cases`), said once: the pass
waits and keeps a suffix, or it takes a frame off, or it refuses one and drops it.  `Lib.Scan` makes of
this the statements about a whole call and about calls one after the other.  `Mixed` is the exact
condition of the third question: a call loses frames when its buffer holds whole ones in front of a
refused one.
-/
import TradeBroker.Lib.Confluence
import TradeBroker.Gba.RoundTrip

namespace TradeBroker.Gba

open Lib

/-! ## §1 — the header, byte by byte. -/

namespace Header

/-- **Packing writes back what was unpacked**: a header of any bytes, read and written again, is the same
bytes. -/
theorem pack_unpackFrom {p : Bytes} (h : headerSize ≤ p.length) :
    (unpackFrom p).pack = slice p 0 headerSize := by
  have h32 : 32 ≤ p.length := h
  have hflags : leBytes 2 (leNat (slice p 6 8)) = slice p 6 8 := leBytes_slice (by omega)
  have hsize : leBytes 4 (leNat (slice p 8 12)) = slice p 8 12 := leBytes_slice (by omega)
  have hseq : leBytes 4 (leNat (slice p 28 32)) = slice p 28 32 := leBytes_slice (by omega)
  have hver : [p.getD 4 0] = slice p 4 5 := (slice_one (by omega)).symm
  have htype : [p.getD 5 0] = slice p 5 6 := (slice_one (by omega)).symm
  show slice p 0 4 ++ ([p.getD 4 0] ++ ([p.getD 5 0] ++ (leBytes 2 (leNat (slice p 6 8)) ++
    (leBytes 4 (leNat (slice p 8 12)) ++ (slice p 12 28 ++ leBytes 4 (leNat (slice p 28 32))))))) = _
  rw [hflags, hsize, hseq, hver, htype, slice_slice p (by omega) (by omega),
    slice_slice p (by omega) (by omega), slice_slice p (by omega) (by omega),
    slice_slice p (by omega) (by omega), slice_slice p (by omega) (by omega),
    slice_slice p (by omega) (by omega)]
  rfl

/-- A header that is there in full is read the same whatever follows it. -/
theorem unpackFrom_append {p : Bytes} (h : headerSize ≤ p.length) (q : Bytes) :
    unpackFrom (p ++ q) = unpackFrom p := by
  have h32 : 32 ≤ p.length := h
  simp only [unpackFrom, slice_append_left (show 4 ≤ p.length by omega),
    slice_append_left (show 8 ≤ p.length by omega), slice_append_left (show 12 ≤ p.length by omega),
    slice_append_left (show 28 ≤ p.length by omega), slice_append_left h32,
    getD_append_left (show 4 < p.length by omega), getD_append_left (show 5 < p.length by omega)]

theorem magic_unpackFrom {p : Bytes} (h : Gba.magic <+: p) : (unpackFrom p).magic = Gba.magic := by
  obtain ⟨bs, rfl⟩ := h
  show slice (Gba.magic ++ bs) 0 4 = Gba.magic
  rw [slice_append_left (by decide)]
  rfl

end Header

namespace FrameDecoder

/-! ## §2 — one pass over a buffer that starts with the magic. -/

/-- The bytes that the frame at the front of the buffer takes up, by the length that its header declares:
header, payload and CRC. -/
def declared (p : Bytes) : Nat := headerSize + (Header.unpackFrom p).size + crcSize

/-- The checks on the frame at the front of the buffer, with the header, the body and the CRC cut out of it as
the loop does. -/
def validateAt (p : Bytes) : Except Exc Frame :=
  validate (Header.unpackFrom p) (slice p 0 (headerSize + (Header.unpackFrom p).size))
    (leNat (slice p (headerSize + (Header.unpackFrom p).size) (declared p)))

/-- A header that is not there in full is waited for. -/
theorem turnAt_short {p : Bytes} (h : p.length < headerSize) : turnAt p = .wait p := by
  rw [turnAt, if_pos h]

/-- A length that is too large is refused as soon as the header is there, and only the magic is dropped. -/
theorem turnAt_oversized {p : Bytes} (hm : magic <+: p) (h : headerSize ≤ p.length)
    (hs : maxPayload < (Header.unpackFrom p).size) :
    turnAt p = .fail (protocolError "declared payload exceeds 4096 bytes") (p.drop magic.length) := by
  simp only [turnAt, Header.magic_unpackFrom hm, ne_eq, not_true_eq_false, if_false]
  rw [if_neg (by omega), if_pos hs]

/-- A frame that is not there in full is waited for. -/
theorem turnAt_open {p : Bytes} (hm : magic <+: p) (h : headerSize ≤ p.length)
    (hs : (Header.unpackFrom p).size ≤ maxPayload) (ht : p.length < declared p) :
    turnAt p = .wait p := by
  have hopen : p.length < headerSize + (Header.unpackFrom p).size + crcSize := ht
  simp only [turnAt, Header.magic_unpackFrom hm, ne_eq, not_true_eq_false, if_false]
  rw [if_neg (by omega), if_neg (by omega), if_pos hopen]

/-- A complete frame is checked, and taken off the buffer whether it passes or not. -/
theorem turnAt_complete {p : Bytes} (hm : magic <+: p) (h : headerSize ≤ p.length)
    (hs : (Header.unpackFrom p).size ≤ maxPayload) (ht : declared p ≤ p.length) :
    turnAt p =
      match validateAt p with
      | .error e => .fail e (p.drop (declared p))
      | .ok frame => .emit frame (p.drop (declared p)) := by
  have hnot : ¬ p.length < headerSize + (Header.unpackFrom p).size + crcSize := by
    show ¬ p.length < declared p
    omega
  simp only [turnAt, Header.magic_unpackFrom hm, ne_eq, not_true_eq_false, if_false]
  rw [if_neg (by omega), if_neg (by omega), if_neg hnot]
  rfl

/-- **What one pass can do** with a buffer that starts with the magic: it waits, since header or frame are not
there in full; it refuses the length; or it checks the frame. -/
theorem turnAt_cases {p : Bytes} (hm : magic <+: p) :
    (turnAt p = .wait p ∧ (p.length < headerSize ∨
        headerSize ≤ p.length ∧ (Header.unpackFrom p).size ≤ maxPayload ∧ p.length < declared p)) ∨
      (headerSize ≤ p.length ∧ maxPayload < (Header.unpackFrom p).size ∧ turnAt p =
        .fail (protocolError "declared payload exceeds 4096 bytes") (p.drop magic.length)) ∨
      (headerSize ≤ p.length ∧ (Header.unpackFrom p).size ≤ maxPayload ∧ declared p ≤ p.length ∧
        turnAt p =
          match validateAt p with
          | .error e => .fail e (p.drop (declared p))
          | .ok frame => .emit frame (p.drop (declared p))) := by
  by_cases h : p.length < headerSize
  · exact Or.inl ⟨turnAt_short h, Or.inl h⟩
  · rw [not_lt] at h
    by_cases hs : maxPayload < (Header.unpackFrom p).size
    · exact Or.inr (Or.inl ⟨h, hs, turnAt_oversized hm h hs⟩)
    · rw [not_lt] at hs
      by_cases ht : p.length < declared p
      · exact Or.inl ⟨turnAt_open hm h hs ht, Or.inr ⟨h, hs, ht⟩⟩
      · rw [not_lt] at ht
        exact Or.inr (Or.inr ⟨h, hs, ht, turnAt_complete hm h hs ht⟩)

/-! ## §3 — an accepted frame is its own encoding. -/

/-- What the checks establish: the CRC agrees, version, flags and type are those of the protocol, and the
frame has the fields of the header. -/
theorem validate_ok {h : Header} {encoded : Bytes} {expectedCrc : Nat} {f : Frame}
    (hok : validate h encoded expectedCrc = .ok f) :
    (crc32 encoded).toNat = expectedCrc ∧ h.version = version ∧ h.flags = 0 ∧
      f.messageType.code = h.rawType ∧ f.transactionId = Uuid.ofBytes h.txid ∧
      f.sequence = h.sequence ∧ f.payload = encoded.drop headerSize := by
  unfold validate at hok
  by_cases hcrc : (crc32 encoded).toNat = expectedCrc
  · by_cases hver : h.version = version
    · by_cases hflags : h.flags = 0
      · simp only [hcrc, hver, hflags, ne_eq, not_true_eq_false, if_false] at hok
        cases htype : MessageType.ofCode h.rawType with
        | none =>
            rw [htype] at hok
            cases hok
        | some t =>
            have hcode : t.code = h.rawType := by
              have hfound := List.find?_some (show MessageType.all.find? (·.code = h.rawType) = some t from htype)
              exact of_decide_eq_true hfound
            rw [htype] at hok
            simp only [Frame.create, ne_eq, not_true_eq_false, if_false] at hok
            split at hok
            · split at hok
              · obtain rfl := Except.ok.inj hok
                exact ⟨hcrc, hver, hflags, hcode, rfl, rfl, rfl⟩
              · cases hok
            · cases hok
      · simp only [hcrc, hver, hflags, ne_eq, not_true_eq_false, not_false_eq_true, if_false,
          if_true] at hok
        cases hok
    · simp only [hcrc, hver, ne_eq, not_true_eq_false, not_false_eq_true, if_false, if_true] at hok
      cases hok
  · simp only [hcrc, ne_eq, not_false_eq_true, if_true] at hok
    cases hok

/-- **`encode` undoes every accepted decode**: the frame that passed its checks encodes to the very bytes it
was read from, so a frame is never returned that was not in the buffer. -/
theorem encode_of_validate {p : Bytes} {f : Frame} (hm : magic <+: p) (hlen : declared p ≤ p.length)
    (hok : validateAt p = .ok f) : f.encode = slice p 0 (declared p) := by
  obtain ⟨hcrc, hver, hflags, htype, htxid, hseq, hpayload⟩ := validate_ok hok
  have hall : headerSize + (Header.unpackFrom p).size + crcSize ≤ p.length := hlen
  have hhead : headerSize ≤ p.length := by omega
  have hpay : f.payload = slice p headerSize (headerSize + (Header.unpackFrom p).size) := by
    rw [hpayload, ← slice_slice p (Nat.zero_le headerSize) (by omega)]
    have h32 : headerSize = (slice p 0 headerSize).length := by
      rw [length_slice hhead, Nat.sub_zero]
    nth_rewrite 1 [h32]
    exact List.drop_left
  have hsize : f.payload.length = (Header.unpackFrom p).size := by
    rw [hpay, length_slice (by omega)]
    omega
  have hid : f.transactionId.bytes = (Header.unpackFrom p).txid := by
    have h16 : (Header.unpackFrom p).txid.length = 16 := by
      have h28 : 28 ≤ p.length := le_trans (by decide) hhead
      exact length_slice h28
    rw [htxid]
    show ((Header.unpackFrom p).txid ++ List.replicate 16 0).take 16 = _
    rw [← h16, List.take_left]
  have hheader : f.header = Header.unpackFrom p := by
    have hmagic := Header.magic_unpackFrom hm
    rcases hu : Header.unpackFrom p with ⟨m, v, t, fl, sz, tx, sq⟩
    rw [hu] at hver hflags htype hseq hsize hid hmagic
    simp only at hver hflags htype hseq hsize hid hmagic
    rw [Frame.header, htype, hsize, hid, hseq, hver, hflags, hmagic]
  have hbody : f.body = slice p 0 (headerSize + (Header.unpackFrom p).size) := by
    rw [Frame.body, hheader, Header.pack_unpackFrom hhead, hpay]
    exact slice_slice p (Nat.zero_le _) (by omega)
  have hword : leBytes crcSize (crc32 f.body).toNat =
      slice p (headerSize + (Header.unpackFrom p).size) (declared p) := by
    rw [hbody, hcrc]
    exact leBytes_slice hlen
  rw [Frame.encode, hword, hbody]
  exact slice_slice p (Nat.zero_le _) (by rw [declared]; omega)

/-! ## §4 — bytes that arrive later. -/

theorem declared_append {p : Bytes} (h : headerSize ≤ p.length) (q : Bytes) :
    declared (p ++ q) = declared p := by
  rw [declared, declared, Header.unpackFrom_append h]

theorem validateAt_append {p : Bytes} (h : declared p ≤ p.length) (q : Bytes) :
    validateAt (p ++ q) = validateAt p := by
  have hlen : headerSize + (Header.unpackFrom p).size + crcSize ≤ p.length := h
  have hhead : headerSize ≤ p.length := by omega
  rw [validateAt, validateAt, declared_append hhead, Header.unpackFrom_append hhead,
    slice_append_left (by omega), slice_append_left h]

/-- **What one pass can do**: it keeps the last bytes of a buffer without the magic, or it drops the noise and
looks at the frame behind it, and then it does so whatever follows in the buffer. -/
theorem turn_cases (buf : Bytes) :
    (¬ magic <:+: buf ∧ ∃ dropped kept, buf = dropped ++ kept ∧ dropped.length = buf.length - 3 ∧
        turn buf = .wait kept) ∨
      ∃ noise p, buf = noise ++ p ∧ ¬ magic <:+: noise ∧ magic <+: p ∧
        ∀ q, turn (buf ++ q) = turnAt (p ++ q) := by
  cases hfind : find magic buf with
  | none =>
      have hnone := find_eq_none_iff.mp hfind
      exact Or.inl ⟨hnone, turn_no_magic hnone⟩
  | some k =>
      obtain ⟨noise, tail, rfl, rfl, hquiet⟩ := find_eq_some (by decide) hfind
      refine Or.inr ⟨noise, magic ++ tail, rfl, hquiet, ⟨tail, rfl⟩, ?_⟩
      intro q
      rw [List.append_assoc, List.append_assoc, turn_noise hquiet, turn_magic]

/-- The last three bytes, seen from either end: what is dropped of a buffer without the magic can be no part
of a magic that later bytes complete. -/
theorem turn_dropped {dropped kept : Bytes} (h : ¬ magic <:+: dropped ++ kept)
    (hlen : dropped.length = (dropped ++ kept).length - 3) (q : Bytes) :
    turn (dropped ++ kept ++ q) = turn (kept ++ q) := by
  rw [List.length_append] at hlen
  have hmlen : magic.length = 4 := rfl
  have hkept : dropped = [] ∨ magic.length ≤ kept.length + 1 := by
    by_cases hnil : dropped = []
    · exact Or.inl hnil
    · have hpos := List.length_pos_of_ne_nil hnil
      exact Or.inr (by omega)
  have hfind := find_append_none (find_eq_none_iff.mpr h) hkept q
  rw [turn, turn, hfind]
  cases find magic (kept ++ q) with
  | none =>
      -- the same three bytes are kept
      have hcut : (dropped ++ kept ++ q).length -
          min (dropped ++ kept ++ q).length (magic.length - 1) =
            dropped.length + ((kept ++ q).length - min (kept ++ q).length (magic.length - 1)) := by
        simp only [List.length_append, hmlen]
        rcases hkept with hnil | hkept
        · simp only [hnil, List.length_nil]
          omega
        · omega
      show Turn.wait _ = Turn.wait _
      rw [hcut, List.append_assoc, List.drop_length_add_append]
  | some k =>
      show turnAt ((dropped ++ kept ++ q).drop (k + dropped.length)) = turnAt ((kept ++ q).drop k)
      rw [Nat.add_comm, List.append_assoc, List.drop_length_add_append]

theorem turn_append_of_magic {p : Bytes} (hm : magic <+: p) (q : Bytes) :
    turn (p ++ q) = turnAt (p ++ q) := by
  obtain ⟨bs, rfl⟩ := hm
  rw [List.append_assoc, turn_magic]

/-- A frame at the front that `feed` refuses: it declares too long a payload, or it is complete and one of the
checks fails. -/
def RefusedAt (p : Bytes) : Prop :=
  magic <+: p ∧ headerSize ≤ p.length ∧ (maxPayload < (Header.unpackFrom p).size ∨
    declared p ≤ p.length ∧ ∃ e, validateAt p = .error e)

/-- A frame that is refused is refused whatever follows it, with the same exception and the same bytes
dropped. -/
theorem RefusedAt.turnAt {p : Bytes} (h : RefusedAt p) :
    ∃ e rest, rest <:+ p ∧ ∀ q, turnAt (p ++ q) = .fail e (rest ++ q) := by
  obtain ⟨hm, hlen, hbad⟩ := h
  have hlong : ∀ q, headerSize ≤ (p ++ q).length := by
    intro q
    rw [List.length_append]
    omega
  by_cases hs : maxPayload < (Header.unpackFrom p).size
  · refine ⟨protocolError "declared payload exceeds 4096 bytes", p.drop magic.length,
      List.drop_suffix _ _, ?_⟩
    intro q
    rw [turnAt_oversized (hm.trans ⟨q, rfl⟩) (hlong q)
      (by rw [Header.unpackFrom_append hlen]; exact hs), List.drop_append_of_le_length hm.length_le]
  · obtain ⟨ht, e, he⟩ := hbad.resolve_left hs
    rw [not_lt] at hs
    refine ⟨e, p.drop (declared p), List.drop_suffix _ _, ?_⟩
    intro q
    rw [turnAt_complete (hm.trans ⟨q, rfl⟩) (hlong q)
      (by rw [Header.unpackFrom_append hlen]; exact hs)
      (by rw [declared_append hlen, List.length_append]; omega), validateAt_append ht, he,
      declared_append hlen, List.drop_append_of_le_length ht]

/-- **One pass**: a buffer that has to wait is as good as the bytes that are kept of it; a frame at the front
and a refusal do not depend on what comes later.  It is what `Lib.Scan` asks of a decoder, and everything
about cuttings follows from it there. -/
theorem decoder_settled (buf : Bytes) :
    Settled turn Frame.encode (fun noise => ¬ magic <:+: noise) buf := by
  rcases turn_cases buf with ⟨hnone, dropped, kept, rfl, hlen, hturn⟩ | ⟨noise, p, rfl, hquiet, hm, hturn⟩
  · exact .wait hturn (List.suffix_append _ _) fun q => (turn_dropped hnone hlen q).symm
  · have hrefuse : RefusedAt p →
        Settled turn Frame.encode (fun noise => ¬ magic <:+: noise) (noise ++ p) := by
      intro hbad
      obtain ⟨e, rest, hsuffix, hfail⟩ := hbad.turnAt
      exact .fail (hsuffix.trans (List.suffix_append _ _)) fun q => (hturn q).trans (hfail q)
    rcases turnAt_cases hm with ⟨hwait, -⟩ | ⟨h, hs, -⟩ | ⟨h, hs, ht, -⟩
    · have hnow := hturn []
      rw [List.append_nil, List.append_nil] at hnow
      exact .wait (hnow.trans hwait) (List.suffix_append _ _) fun q =>
        (turn_append_of_magic hm q).trans (hturn q).symm
    · exact hrefuse ⟨hm, h, Or.inl hs⟩
    · cases hv : validateAt p with
      | error e => exact hrefuse ⟨hm, h, Or.inr ⟨ht, e, hv⟩⟩
      | ok f =>
          have hsplit : p = f.encode ++ p.drop (declared p) := by
            rw [encode_of_validate hm ht hv]
            exact (List.take_append_drop _ _).symm
          refine .emit hquiet f.encode_ne_nil (congrArg (noise ++ ·) hsplit) ?_
          intro q
          nth_rewrite 1 [hsplit]
          rw [List.append_assoc, List.append_assoc]
          exact decoder_resyncs.emit noise f _ hquiet

/-- Bytes at whose front, behind noise without a magic, is a frame that `feed` refuses. -/
def Refused (bs : Bytes) : Prop := ∃ noise p, bs = noise ++ p ∧ ¬ magic <:+: noise ∧ RefusedAt p

/-- That is, bytes on which the first pass fails. -/
theorem refused_iff (bs : Bytes) : Refused bs ↔ ∃ e rest, turn bs = .fail e rest := by
  constructor
  · rintro ⟨noise, p, rfl, hquiet, hbad⟩
    obtain ⟨e, rest, -, hfail⟩ := hbad.turnAt
    obtain ⟨tail, rfl⟩ := hbad.1
    have hnow := turn_now hfail
    exact ⟨e, rest, by rw [turn_noise hquiet, turn_magic, hnow]⟩
  · rintro ⟨e, rest, hfail⟩
    rcases turn_cases bs with ⟨-, dropped, kept, rfl, -, hturn⟩ | ⟨noise, p, rfl, hquiet, hm, hturn⟩
    · rw [hturn] at hfail
      cases hfail
    · have hnow := turn_now hturn
      rw [hnow] at hfail
      rcases turnAt_cases hm with ⟨hwait, -⟩ | ⟨h, hs, -⟩ | ⟨h, hs, ht, hturnAt⟩
      · rw [hwait] at hfail
        cases hfail
      · exact ⟨noise, p, rfl, hquiet, hm, h, Or.inl hs⟩
      · cases hv : validateAt p with
        | error e' => exact ⟨noise, p, rfl, hquiet, hm, h, Or.inr ⟨ht, e', hv⟩⟩
        | ok f =>
            rw [hturnAt, hv] at hfail
            cases hfail

/-! ## §5 — what the calls return. -/

/-- The frames that the calls of `feed` returned, in order; a call that raises returns none. -/
def returned (results : List (Except Exc (List Frame))) : List Frame :=
  results.flatMap fun r =>
    match r with
    | .ok frames => frames
    | .error _ => []

/-- The loop of one call, with the frames that its local list holds also when it raises. -/
def pass (d : FrameDecoder) (data : Bytes) : Scanned Frame Exc :=
  scan turn ((d.buffer ++ data).length + 1) (d.buffer ++ data)

/-- A call is its loop: it returns the frames of the loop, or raises and forgets them. -/
theorem feed_eq (d : FrameDecoder) (data : Bytes) :
    d.feed data =
      (match (d.pass data).failure with
        | some e => .error e
        | none => .ok (d.pass data).found, ⟨(d.pass data).rest⟩) := by
  rw [feed, pass]
  cases (scan turn ((d.buffer ++ data).length + 1) (d.buffer ++ data)).failure with
  | some e => rfl
  | none => rfl

/-- One loop over both parts is the loop over the first and then, if that did not fail, the loop over the
second from where it stopped. -/
theorem pass_append (d : FrameDecoder) (d1 d2 : Bytes) :
    d.pass (d1 ++ d2) =
      match (d.pass d1).failure with
      | some e => ⟨(d.pass d1).found, some e, (d.pass d1).rest ++ d2⟩
      | none =>
          { pass ⟨(d.pass d1).rest⟩ d2 with
            found := (d.pass d1).found ++ (pass ⟨(d.pass d1).rest⟩ d2).found } := by
  have hscan := scan_append (p := d.buffer ++ d1) (q := d2) decoder_settled (Nat.lt_succ_self _)
    (Nat.lt_succ_self _) (Nat.lt_succ_self _)
  rw [pass, ← List.append_assoc]
  cases hfail : (d.pass d1).failure with
  | some e =>
      rw [pass] at hfail
      rw [hfail] at hscan
      exact hscan
  | none =>
      rw [pass] at hfail
      rw [hfail] at hscan
      exact hscan

/-- The frames of one call are cut out of the buffer in order, with bytes in between, and the rest of the
buffer is kept. -/
theorem feed_segments (d : FrameDecoder) (data : Bytes) :
    ∃ items dropped, d.buffer ++ data = noisy Frame.encode items (dropped ++ (d.feed data).2.buffer) ∧
      items.map Prod.snd = returned [(d.feed data).1] := by
  obtain ⟨items, dropped, hbuf, hfound⟩ :=
    scan_segments decoder_settled ((d.buffer ++ data).length + 1) (d.buffer ++ data)
  have hrest : (d.feed data).2.buffer = (d.pass data).rest := by
    rw [feed_eq]
  rw [hrest]
  cases hfail : (d.pass data).failure with
  | none =>
      have hres : (d.feed data).1 = .ok (d.pass data).found := by
        rw [feed_eq, hfail]
      refine ⟨items, dropped, hbuf, ?_⟩
      rw [hres, hfound, returned, List.flatMap_singleton]
      rfl
  | some e =>
      -- nothing is returned: what was found is noise for the caller
      have hres : (d.feed data).1 = .error e := by
        rw [feed_eq, hfail]
      refine ⟨[], noisy Frame.encode items dropped, ?_, ?_⟩
      · rw [hbuf, noisy_last]
        rfl
      · rw [hres]
        rfl

/-- The same over calls one after another, an error in between or not. -/
theorem feedAll_segments (chunks : List Bytes) (d : FrameDecoder) :
    ∃ items last, d.buffer ++ chunks.flatten = noisy Frame.encode items last ∧
      items.map Prod.snd = returned (feedAll chunks d).1 := by
  induction chunks generalizing d with
  | nil => exact ⟨[], d.buffer ++ [], rfl, rfl⟩
  | cons data chunks ih =>
      obtain ⟨items, dropped, hfirst, hitems⟩ := d.feed_segments data
      obtain ⟨more, last, hrest, hmore⟩ := ih (d.feed data).2
      obtain ⟨all, last', hall, hsnd⟩ := noisy_append Frame.encode items more dropped last
      refine ⟨all, last', ?_, ?_⟩
      · rw [← hall, ← hrest, ← List.append_assoc dropped, noisy_last, ← hfirst, List.flatten_cons,
          List.append_assoc]
      · rw [hsnd, hitems, hmore]
        simp only [feedAll, returned, List.flatMap_cons, List.flatMap_nil, List.append_nil]

/-- The frames that the calls take off the buffer, all their checks passed, whether they are returned or not. -/
def removed : List Bytes → FrameDecoder → List Frame
  | [], _ => []
  | data :: chunks, d => (d.pass data).found ++ removed chunks (d.feed data).2

/-- What each call has in front of it: the bytes kept by the one before, and its own. -/
def seen : List Bytes → FrameDecoder → List Bytes
  | [], _ => []
  | data :: chunks, d => (d.buffer ++ data) :: seen chunks (d.feed data).2

/-- One or more whole frames, noise in front of each, and behind the last of them one that is refused. -/
def Mixed (buf : Bytes) : Prop :=
  ∃ items last, items ≠ [] ∧ (∀ item ∈ items, ¬ magic <:+: item.1) ∧
    buf = noisy Frame.encode items last ∧ Refused last

theorem turn_ne_skip (p rest : Bytes) : turn p ≠ .skip rest := by
  intro h
  rcases turn_cases p with ⟨-, dropped, kept, -, -, hturn⟩ | ⟨noise, q, rfl, -, hm, hturn⟩
  · rw [hturn] at h
    cases h
  · rw [turn_now hturn] at h
    rcases turnAt_cases hm with ⟨hwait, -⟩ | ⟨-, -, hfail⟩ | ⟨-, -, -, hdone⟩
    · rw [hwait] at h
      cases h
    · rw [hfail] at h
      cases h
    · rw [hdone] at h
      cases hv : validateAt q with
      | error e =>
          rw [hv] at h
          cases h
      | ok f =>
          rw [hv] at h
          cases h

/-- Frames with noise in front of each, and then bytes that fail at once: the loop takes off all the frames,
and fails. -/
theorem pass_failing {d : FrameDecoder} {data last rest : Bytes} {e : Exc} {items : List (Bytes × Frame)}
    (hquiet : ∀ item ∈ items, ¬ magic <:+: item.1)
    (hbuf : d.buffer ++ data = noisy Frame.encode items last) (hlast : turn last = .fail e rest) :
    d.pass data = ⟨items.map Prod.snd, some e, rest⟩ := by
  have hscan := scan_messages decoder_resyncs.emit ((d.buffer ++ data).length + 1) hquiet last
  have hend : scan turn ((d.buffer ++ data).length + 1) last = ⟨[], some e, rest⟩ := by
    rw [scan, hlast]
  rw [pass, scan_enough decoder_settled (m := (d.buffer ++ data).length + 1 + items.length)
    (Nat.lt_succ_self _) (by omega)]
  nth_rewrite 2 [hbuf]
  rw [hscan, hend, List.append_nil]

/-- **When a call loses frames**: its loop has found some, and fails. -/
theorem mixed_iff (d : FrameDecoder) (data : Bytes) :
    Mixed (d.buffer ++ data) ↔ (d.pass data).found ≠ [] ∧ ∃ e, (d.pass data).failure = some e := by
  constructor
  · rintro ⟨items, last, hne, hquiet, hbuf, hbad⟩
    obtain ⟨e, rest, hturn⟩ := (refused_iff last).mp hbad
    rw [pass_failing hquiet hbuf hturn]
    refine ⟨?_, e, rfl⟩
    intro hnil
    exact hne (List.map_eq_nil_iff.mp hnil)
  · rintro ⟨hne, e, hfail⟩
    obtain ⟨items, last, rest, hbuf, hquiet, hfound, hlast⟩ :=
      scan_failed decoder_settled turn_ne_skip hfail
    refine ⟨items, last, ?_, hquiet, hbuf, (refused_iff last).mpr ⟨e, rest, hlast⟩⟩
    rintro rfl
    exact hne hfound.symm

/-- What one call returns of what it takes off the buffer: all of it, or nothing when it raises. -/
theorem returned_feed (d : FrameDecoder) (data : Bytes) :
    returned [(d.feed data).1] = if (d.pass data).failure = none then (d.pass data).found else [] := by
  rw [feed_eq]
  cases (d.pass data).failure with
  | none => exact List.flatMap_singleton _ _
  | some e => rfl

theorem returned_cons (r : Except Exc (List Frame)) (rs : List (Except Exc (List Frame))) :
    returned (r :: rs) = returned [r] ++ returned rs := by
  simp only [returned, List.flatMap_cons, List.flatMap_nil, List.append_nil]

/-- No call returns more than it takes off. -/
theorem returned_length_le (chunks : List Bytes) (d : FrameDecoder) :
    (returned (feedAll chunks d).1).length ≤ (removed chunks d).length := by
  induction chunks generalizing d with
  | nil => exact le_refl _
  | cons data chunks ih =>
      have hrest := ih (d.feed data).2
      simp only [feedAll, removed]
      rw [returned_cons, returned_feed, List.length_append, List.length_append]
      split
      · omega
      · rw [List.length_nil]
        omega

theorem returned_eq_removed_iff (chunks : List Bytes) (d : FrameDecoder) :
    returned (feedAll chunks d).1 = removed chunks d ↔ ∀ buf ∈ seen chunks d, ¬ Mixed buf := by
  induction chunks generalizing d with
  | nil =>
      refine ⟨?_, fun _ => rfl⟩
      intro _ buf hbuf
      cases hbuf
  | cons data chunks ih =>
      simp only [feedAll, removed, seen, List.forall_mem_cons]
      rw [returned_cons, returned_feed, mixed_iff]
      cases hfail : (d.pass data).failure with
      | none =>
          rw [if_pos rfl, List.append_cancel_left_eq, ih]
          simp only [reduceCtorEq, exists_false, and_false, not_false_eq_true, true_and]
      | some e =>
          rw [if_neg (by simp only [reduceCtorEq, not_false_eq_true]), List.nil_append]
          by_cases hnil : (d.pass data).found = []
          · rw [hnil, List.nil_append, ih]
            simp only [ne_eq, not_true_eq_false, false_and, not_false_eq_true, true_and]
          · -- the frames found are gone, and nothing later makes up for them
            constructor
            · intro heq
              have hlen := congrArg List.length heq
              have hle := returned_length_le chunks (d.feed data).2
              have hpos := List.length_pos_of_ne_nil hnil
              rw [List.length_append] at hlen
              omega
            · rintro ⟨hno, -⟩
              exact absurd ⟨hnil, e, rfl⟩ hno

/-- A call with no bytes finds nothing: what a call kept is at rest, and can wait for any length of time. -/
theorem pass_kept {d : FrameDecoder} {data : Bytes} (h : (d.pass data).failure = none) :
    pass ⟨(d.pass data).rest⟩ [] = ⟨[], none, (d.pass data).rest⟩ := by
  have hagain := d.pass_append data []
  rw [List.append_nil, h] at hagain
  have hfound : (pass ⟨(d.pass data).rest⟩ []).found = [] := by
    have hlen := congrArg (fun s => s.found.length) hagain
    simp only [List.length_append] at hlen
    exact List.length_eq_zero_iff.mp (by omega)
  have hfailure : (pass ⟨(d.pass data).rest⟩ []).failure = none :=
    (congrArg Scanned.failure hagain).symm.trans h
  have hrest : (pass ⟨(d.pass data).rest⟩ []).rest = (d.pass data).rest :=
    (congrArg Scanned.rest hagain).symm
  rcases hp : pass ⟨(d.pass data).rest⟩ [] with ⟨found, failure, rest⟩
  rw [hp] at hfound hfailure hrest
  simp only at hfound hfailure hrest
  rw [hfound, hfailure, hrest]

/-- **Calls that all return are one loop over all their bytes**, whatever the pieces: the frames together are
those of the one loop, and so is the buffer in the end. -/
theorem feedAll_pass {chunks : List Bytes} {d : FrameDecoder} (hrest : d.pass [] = ⟨[], none, d.buffer⟩)
    (hok : ∀ r ∈ (feedAll chunks d).1, ∃ frames, r = .ok frames) :
    d.pass chunks.flatten = ⟨returned (feedAll chunks d).1, none, (feedAll chunks d).2.buffer⟩ := by
  induction chunks generalizing d with
  | nil => exact hrest
  | cons data chunks ih =>
      obtain ⟨frames, hframes⟩ := hok _ List.mem_cons_self
      have hfail : (d.pass data).failure = none := by
        rw [feed_eq] at hframes
        cases hf : (d.pass data).failure with
        | none => rfl
        | some e =>
            rw [hf] at hframes
            cases hframes
      have hfeed : d.feed data = (.ok (d.pass data).found, ⟨(d.pass data).rest⟩) := by
        rw [feed_eq, hfail]
      have hlater := ih (d := (d.feed data).2) (by rw [hfeed]; exact pass_kept hfail)
        fun r hr => hok r (List.mem_cons_of_mem _ hr)
      rw [List.flatten_cons, pass_append, hfail, feedAll]
      rw [hfeed] at hlater ⊢
      show Scanned.mk _ _ _ = _
      simp only [hlater, returned, List.flatMap_cons]

end FrameDecoder

/-! ## §6 — for every stream. -/

/-- **Nothing is made up.** Whatever arrives, in whatever pieces, with feeding continued after every error:
the encodings of the frames returned stand in the stream one behind the other, in the order in which they
were returned, with other bytes between them. -/
theorem returned_frames_in_stream (chunks : List Bytes) :
    ∃ items last, chunks.flatten = noisy Frame.encode items last ∧
      items.map Prod.snd = FrameDecoder.returned (FrameDecoder.feedAll chunks {}).1 :=
  FrameDecoder.feedAll_segments chunks {}

/-- **The cut makes no difference.** For every content of the buffer: one call with both parts returns exactly
when a call with each returns, with the same frames and the same buffer in the end. -/
theorem feed_in_two_parts (d d' : FrameDecoder) (d1 d2 : Bytes) (frames : List Frame) :
    d.feed (d1 ++ d2) = (.ok frames, d') ↔
      ∃ f1 f2 mid, d.feed d1 = (.ok f1, mid) ∧ mid.feed d2 = (.ok f2, d') ∧ frames = f1 ++ f2 := by
  rw [FrameDecoder.feed_eq, FrameDecoder.feed_eq, FrameDecoder.pass_append]
  cases (d.pass d1).failure with
  | some e =>
      constructor
      · intro h
        cases h
      · rintro ⟨f1, f2, mid, h, -, -⟩
        cases h
  | none =>
      constructor
      · intro h
        cases hfail : (FrameDecoder.pass ⟨(d.pass d1).rest⟩ d2).failure with
        | some e =>
            rw [hfail] at h
            cases h
        | none =>
            rw [hfail] at h
            obtain ⟨hframes, rfl⟩ := Prod.mk.inj h
            obtain rfl := Except.ok.inj hframes
            refine ⟨_, (FrameDecoder.pass ⟨(d.pass d1).rest⟩ d2).found, _, rfl, ?_, rfl⟩
            rw [FrameDecoder.feed_eq, hfail]
      · rintro ⟨f1, f2, mid, hfirst, hsecond, rfl⟩
        obtain ⟨hf1, rfl⟩ := Prod.mk.inj hfirst
        obtain rfl := Except.ok.inj hf1
        rw [FrameDecoder.feed_eq] at hsecond
        cases hfail : (FrameDecoder.pass ⟨(d.pass d1).rest⟩ d2).failure with
        | some e =>
            rw [hfail] at hsecond
            cases hsecond
        | none =>
            rw [hfail] at hsecond
            obtain ⟨hf2, rfl⟩ := Prod.mk.inj hsecond
            obtain rfl := Except.ok.inj hf2
            rfl

/-- **When no frame is lost**: everything that the calls take off the buffer is returned exactly as long as no
call has whole frames in front of a refused one.  The frames that a call found before it raises are in a
local list of its own, and go with it. -/
theorem removed_frames_returned_iff (chunks : List Bytes) :
    FrameDecoder.returned (FrameDecoder.feedAll chunks {}).1 = FrameDecoder.removed chunks {} ↔
      ∀ buf ∈ FrameDecoder.seen chunks {}, ¬ FrameDecoder.Mixed buf :=
  FrameDecoder.returned_eq_removed_iff chunks {}

/-! One bit of a stored CRC, flipped. -/

/-- The encoding of `f`, the lowest bit of its CRC flipped: every other check passes. -/
def spoiled (f : Frame) : Bytes := f.body ++ leBytes crcSize ((crc32 f.body).toNat ^^^ 1)

theorem spoiled_refused (f : Frame) : FrameDecoder.RefusedAt (spoiled f) := by
  have hheader : Header.unpackFrom (spoiled f) = f.header := by
    rw [spoiled, Frame.body, List.append_assoc]
    exact f.header_fits.unpackFrom_pack _
  have hlen : (spoiled f).length = headerSize + f.payload.length + crcSize := by
    rw [spoiled, List.length_append, f.length_body, length_leBytes]
  have hsize : f.header.size = f.payload.length := rfl
  have hdeclared : FrameDecoder.declared (spoiled f) = headerSize + f.payload.length + crcSize := by
    rw [FrameDecoder.declared, hheader, hsize]
  have hbody : slice (spoiled f) 0 (headerSize + f.payload.length) = f.body := by
    rw [spoiled, slice_append_left (le_of_eq f.length_body.symm), ← f.length_body]
    exact List.take_length
  have hword : slice (spoiled f) (headerSize + f.payload.length)
      (headerSize + f.payload.length + crcSize) = leBytes crcSize ((crc32 f.body).toNat ^^^ 1) := by
    have happ := slice_append (c := []) f.length_body
      (show headerSize + f.payload.length + (leBytes crcSize ((crc32 f.body).toNat ^^^ 1)).length = _ by
        rw [length_leBytes])
    rwa [List.append_nil] at happ
  have hfits : (crc32 f.body).toNat ^^^ 1 < 256 ^ crcSize :=
    Nat.xor_lt_two_pow (n := 32) (crc32 f.body).toNat_lt (by decide)
  have hdiffers : (crc32 f.body).toNat ≠ (crc32 f.body).toNat ^^^ 1 := by
    intro h
    have hzero := congrArg ((crc32 f.body).toNat ^^^ ·) h
    simp only [← Nat.xor_assoc, Nat.xor_self, Nat.zero_xor] at hzero
    cases hzero
  refine ⟨?_, ?_, Or.inr ⟨le_of_eq (hdeclared.trans hlen.symm), ?_⟩⟩
  · rw [spoiled, Frame.body, Header.pack]
    exact ⟨_, by simp only [List.append_assoc]; rfl⟩
  · rw [hlen]
    omega
  · rw [FrameDecoder.validateAt, hheader, hdeclared, hsize, hbody, hword, leNat_leBytes_of_lt hfits,
      FrameDecoder.validate]
    exact ⟨_, if_pos hdiffers⟩

/-- A frame and, in the same read, one with a bad CRC: the first frame is taken off the buffer, and no call
returns it. -/
theorem frame_lost_to_error :
    magicFrame ∈ FrameDecoder.removed [magicFrame.encode ++ spoiled magicFrame] {} ∧
      magicFrame ∉ FrameDecoder.returned
        (FrameDecoder.feedAll [magicFrame.encode ++ spoiled magicFrame] {}).1 := by
  have hrefused : FrameDecoder.Refused (spoiled magicFrame) :=
    ⟨[], spoiled magicFrame, rfl, by decide, spoiled_refused magicFrame⟩
  obtain ⟨e, rest, hturn⟩ := (FrameDecoder.refused_iff _).mp hrefused
  have hpass : FrameDecoder.pass {} (magicFrame.encode ++ spoiled magicFrame) =
      ⟨[magicFrame], some e, rest⟩ := by
    have hquiet : ∀ item ∈ [(([] : Bytes), magicFrame)], ¬ magic <:+: item.1 := by
      intro item hitem
      rw [List.mem_singleton] at hitem
      rw [hitem]
      decide
    exact FrameDecoder.pass_failing hquiet rfl hturn
  refine ⟨?_, ?_⟩
  · rw [FrameDecoder.removed, hpass]
    exact List.mem_cons_self
  · rw [FrameDecoder.feedAll, FrameDecoder.returned_cons, FrameDecoder.returned_feed, hpass]
    exact List.not_mem_nil

end TradeBroker.Gba
