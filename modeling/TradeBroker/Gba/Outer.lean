/-
# TradeBroker.Gba.Outer — the packet layer of the transport on arbitrary bytes.

`Gba.Fifo` is about packets with quiet noise around them.  Here the port may answer with anything: lengths that
no packet has, channels that do not exist, sync bytes inside of noise.  `_feed_outer` then raises, in the middle
of a chunk, and whoever called it may go on or not.

Unlike the frame decoder above it, the transport puts a payload into the data buffer as soon as its packet is
complete, so an exception takes nothing with it.  For every run of calls, each of which may raise: what was
given out, what is in the data buffer and what the outer buffer still hides are the data of the stream, a
function of its bytes alone (`outer_data_conserved`).

With the two layers on top of each other this says where a trade comes from: the frames that a result of
`trade_once` rests on stand in the data of packets in the bytes of the serial port (`trade_stands_on_wire`).

What is owed to the caller is the invariant (`owed`): the data buffer, and the data of the packets in what
the outer buffer holds and what is still to come.  A chunk moves bytes from one to the other and adds up
to the same (`feedOuter_owed`), also when the call raises in its middle, because the pass that raises has
taken off bytes that hold no data (`packetAt_cases`).
-/
import TradeBroker.Gba.Decoding
import TradeBroker.Gba.Fifo
import TradeBroker.Gba.Testimony

namespace TradeBroker.Gba

open Lib

namespace SerialTransport

/-! ## §1 — one pass over a buffer that starts with the sync bytes. -/

/-- The length that the header at the front names, in its two bytes behind the channel. -/
def named (p : Bytes) : Nat := leNat (slice p 3 5)

/-- The rest of a pass once the buffer starts with the sync bytes: the header is looked at, then the payload. -/
def packetAt (buf : Bytes) : Turn Packet Exc :=
  if buf.length < 5 then .wait buf
  else if h : named buf ≤ maxOuterPayload then
    if buf.length < 5 + named buf then .wait buf
    else
      match Channel.ofCode (buf.getD 2 0) with
      | some channel =>
          .emit ⟨channel, slice buf 5 (5 + named buf), (length_slice_le buf 5 (named buf)).trans h⟩
            (buf.drop (5 + named buf))
      | none =>
          .fail (serialError ("unknown GB-Link CDC channel " ++ lit (toString (buf.getD 2 0).toNat)))
            (buf.drop (5 + named buf))
  else .fail (serialError ("invalid GB-Link CDC outer length " ++ lit (toString (named buf)))) (buf.drop 2)

theorem outerTurn_found {buf : Bytes} {k : Nat} (h : find sync buf = some k) :
    outerTurn buf = packetAt (buf.drop k) := by
  rw [outerTurn, h]
  rfl

theorem outerTurn_none {buf : Bytes} (h : find sync buf = none) :
    outerTurn buf = .wait (if buf.drop (buf.length - 1) = sync.take 1 then sync.take 1 else []) := by
  rw [outerTurn, h]

theorem named_append {p : Bytes} (h : 5 ≤ p.length) (q : Bytes) : named (p ++ q) = named p := by
  rw [named, named, slice_append_left h]

/-- **What one pass can do**, and that later bytes change nothing about it unless it waits. -/
theorem packetAt_cases (p : Bytes) :
    packetAt p = .wait p ∨
      (∃ e rest, rest <:+ p ∧ rest.length + 2 ≤ p.length ∧ ∀ q, packetAt (p ++ q) = .fail e (rest ++ q)) ∨
        ∃ channel payload h, 5 + payload.length ≤ p.length ∧ channel.code = p.getD 2 0 ∧
          payload.length = named p ∧ payload = slice p 5 (5 + named p) ∧
            ∀ q, packetAt (p ++ q) = .emit ⟨channel, payload, h⟩ (p.drop (5 + named p) ++ q) := by
  by_cases hhead : p.length < 5
  · exact Or.inl (if_pos hhead)
  have h5 : 5 ≤ p.length := Nat.not_lt.mp hhead
  have hlong : ∀ q : Bytes, ¬ (p ++ q).length < 5 := fun q => by
    rw [List.length_append]
    omega
  by_cases hmax : named p ≤ maxOuterPayload
  swap
  · refine Or.inr (Or.inl ⟨serialError ("invalid GB-Link CDC outer length " ++ lit (toString (named p))),
      p.drop 2, List.drop_suffix _ _, ?_, fun q => ?_⟩)
    · rw [List.length_drop]
      omega
    · rw [packetAt, if_neg (hlong q), dif_neg (named_append h5 q ▸ hmax), named_append h5,
        List.drop_append_of_le_length (by omega)]
  by_cases hopen : p.length < 5 + named p
  · refine Or.inl ?_
    rw [packetAt, if_neg hhead, dif_pos hmax, if_pos hopen]
  have hdone : 5 + named p ≤ p.length := Nat.not_lt.mp hopen
  have hwhole : ∀ q : Bytes, ¬ (p ++ q).length < 5 + named p := fun q => by
    rw [List.length_append]
    omega
  cases hchannel : Channel.ofCode (p.getD 2 0) with
  | none =>
      refine Or.inr (Or.inl ⟨serialError ("unknown GB-Link CDC channel " ++ lit (toString (p.getD 2 0).toNat)),
        p.drop (5 + named p), List.drop_suffix _ _, ?_, fun q => ?_⟩)
      · rw [List.length_drop]
        omega
      · rw [packetAt, if_neg (hlong q)]
        simp only [named_append h5, getD_append_left (show 2 < p.length by omega)]
        rw [dif_pos hmax, if_neg (hwhole q), hchannel, List.drop_append_of_le_length hdone]
  | some channel =>
      have hcode : channel.code = p.getD 2 0 := by
        have hfound := List.find?_some
          (show [Channel.command, .data, .status].find? (·.code = p.getD 2 0) = some channel from hchannel)
        exact of_decide_eq_true hfound
      have hsize : (slice p 5 (5 + named p)).length = named p := by
        rw [length_slice hdone]
        omega
      refine Or.inr (Or.inr ⟨channel, _, hsize.trans_le hmax, ?_, hcode, hsize, rfl, fun q => ?_⟩)
      · rw [hsize]
        exact hdone
      · rw [packetAt, if_neg (hlong q)]
        simp only [named_append h5, getD_append_left (show 2 < p.length by omega), slice_append_left hdone]
        rw [dif_pos hmax, if_neg (hwhole q), hchannel, List.drop_append_of_le_length hdone]

/-- **A packet that is taken off is its own encoding**: the bytes it was read from are what `encode` makes of
it. -/
theorem encode_packet {p : Bytes} {channel : Channel} {payload : Bytes} {h : payload.length ≤ maxOuterPayload}
    (hs : sync <+: p) (hlen : 5 + payload.length ≤ p.length) (hcode : channel.code = p.getD 2 0)
    (hsize : payload.length = named p) (hpayload : payload = slice p 5 (5 + named p)) :
    p = (⟨channel, payload, h⟩ : Packet).encode ++ p.drop (5 + named p) := by
  have hsync : sync = slice p 0 2 := by
    obtain ⟨bs, rfl⟩ := hs
    rfl
  have hchannel : [channel.code] = slice p 2 3 := by
    rw [hcode, slice_one (by omega)]
  have hlength : leBytes 2 payload.length = slice p 3 5 := by
    rw [hsize]
    exact leBytes_slice (by omega)
  have hencode : (⟨channel, payload, h⟩ : Packet).encode = slice p 0 (5 + named p) := by
    show sync ++ ([channel.code] ++ (leBytes 2 payload.length ++ payload)) = _
    rw [hlength, hchannel, hsync, hpayload, slice_slice p (by omega) (by omega),
      slice_slice p (by omega) (by omega), slice_slice p (by omega) (by omega)]
  rw [hencode]
  exact (List.take_append_drop _ _).symm

/-! ## §2 — one pass. -/

/-- Bytes in front that hold no sync bytes change nothing, if something is left behind them. -/
theorem outerTurn_front {front q : Bytes} (hq : q ≠ [])
    (h : find sync (front ++ q) = (find sync q).map (· + front.length)) : outerTurn (front ++ q) = outerTurn q := by
  have hpos := List.length_pos_of_ne_nil hq
  cases hfind : find sync q with
  | none =>
      rw [hfind] at h
      have hlast : (front ++ q).length - 1 = front.length + (q.length - 1) := by
        rw [List.length_append]
        omega
      rw [outerTurn_none h, outerTurn_none hfind, hlast, List.drop_length_add_append]
  | some k =>
      rw [hfind] at h
      rw [outerTurn_found h, outerTurn_found hfind]
      show packetAt ((front ++ q).drop (k + front.length)) = _
      rw [Nat.add_comm, List.drop_length_add_append]

/-- Of bytes without the sync bytes, what is kept is as good as all of them. -/
theorem outerTurn_kept {p : Bytes} (h : ¬ sync <:+: p) :
    ∃ kept, kept <:+ p ∧ outerTurn p = .wait kept ∧ ∀ q, outerTurn (kept ++ q) = outerTurn (p ++ q) := by
  have hnone := find_eq_none_iff.mpr h
  rcases List.eq_nil_or_concat p with rfl | ⟨front, b, rfl⟩
  · exact ⟨[], List.suffix_rfl, rfl, fun _ => rfl⟩
  rw [List.concat_eq_append] at hnone ⊢
  have hlast : (front ++ [b]).drop ((front ++ [b]).length - 1) = [b] := by
    rw [List.length_append, List.length_singleton, Nat.add_sub_cancel, List.drop_left]
  have hfront : ∀ q, outerTurn ([b] ++ q) = outerTurn (front ++ [b] ++ q) := by
    intro q
    have hfind := find_append_none hnone (Or.inr (show sync.length ≤ [b].length + 1 from le_rfl)) q
    rw [List.append_assoc] at hfind ⊢
    exact (outerTurn_front (by simp) hfind).symm
  have hturn := outerTurn_none hnone
  rw [hlast] at hturn
  by_cases hb : [b] = sync.take 1
  · rw [if_pos hb, ← hb] at hturn
    exact ⟨[b], List.suffix_append _ _, hturn, hfront⟩
  · rw [if_neg hb] at hturn
    refine ⟨[], List.nil_suffix, hturn, fun q => ?_⟩
    rw [← hfront, List.nil_append]
    have hnot : ¬ sync.isPrefixOf (b :: q) = true := by
      rw [List.isPrefixOf_iff_prefix]
      rintro ⟨t, ht⟩
      exact hb (congrArg (List.take 1) ht).symm
    have hskip : find sync ([b] ++ q) = (find sync q).map (· + [b].length) := if_neg hnot
    by_cases hq : q = []
    · have hone : outerTurn [b] = .wait (if [b] = sync.take 1 then sync.take 1 else []) :=
        outerTurn_none (find_eq_none_of_short (Nat.lt_succ_self 1))
      rw [if_neg hb] at hone
      rw [hq, List.append_nil, hone]
      rfl
    · exact (outerTurn_front hq hskip).symm

/-- **One pass**: what is kept of a buffer that waits stands for all of it, and a packet at the front and a
refusal do not depend on what comes later.  It is what `Lib.Scan` asks for. -/
theorem outer_settled (buf : Bytes) : Settled outerTurn Packet.encode (fun noise => ¬ sync <:+: noise) buf := by
  cases hfind : find sync buf with
  | none =>
      obtain ⟨kept, hsuffix, hturn, hlater⟩ := outerTurn_kept (find_eq_none_iff.mp hfind)
      exact .wait hturn hsuffix hlater
  | some k =>
      obtain ⟨noise, tail, rfl, -, hquiet⟩ := find_eq_some (by decide) hfind
      have hs : sync <+: sync ++ tail := List.prefix_append _ _
      have hturn : ∀ q, outerTurn (noise ++ (sync ++ tail) ++ q) = packetAt (sync ++ tail ++ q) := by
        intro q
        rw [List.append_assoc, List.append_assoc, outerTurn_noise hquiet, outerTurn_found (outerTurn_sync _),
          List.drop_zero]
      rcases packetAt_cases (sync ++ tail) with hwait | ⟨e, rest, hsuffix, -, hfail⟩ |
        ⟨channel, payload, h, hlen, hcode, hsize, hpayload, hemit⟩
      · have hnow := hturn []
        rw [List.append_nil, List.append_nil] at hnow
        refine .wait (hnow.trans hwait) (List.suffix_append _ _) fun q => ?_
        rw [hturn, List.append_assoc, outerTurn_found (outerTurn_sync _), List.drop_zero]
      · exact .fail (hsuffix.trans (List.suffix_append _ _)) fun q => (hturn q).trans (hfail q)
      · refine .emit hquiet (outer_delimits.nonempty ⟨channel, payload, h⟩) ?_ fun q => (hturn q).trans (hemit q)
        exact congrArg (noise ++ ·) (encode_packet hs hlen hcode hsize hpayload)

/-- A pass that raises has taken the sync bytes off, so calls that go on after errors come to an end. -/
theorem outerTurn_fail (p : Bytes) (e : Exc) (rest : Bytes) (h : outerTurn p = .fail e rest) :
    rest.length < p.length := by
  cases hfind : find sync p with
  | none =>
      rw [outerTurn_none hfind] at h
      cases h
  | some k =>
      rw [outerTurn_found hfind] at h
      have hdrop := List.length_drop (i := k) (l := p)
      rcases packetAt_cases (p.drop k) with hwait | ⟨e', rest', -, hlen, hfail⟩ | ⟨_, _, _, _, _, _, _, hemit⟩
      · rw [hwait] at h
        cases h
      · have hnow := hfail []
        rw [List.append_nil, List.append_nil, h] at hnow
        injection hnow with _ hrest
        rw [hrest]
        omega
      · have hnow := hemit []
        rw [List.append_nil, h] at hnow
        cases hnow

/-! ## §3 — runs of calls. -/

/-- The data of a stream: that of every packet in it, whatever stands between the packets. -/
def dataOf (bs : Bytes) : Bytes := (dataPayloads (glean outerTurn bs).found).flatten

/-- The packets of a stream stand in it one behind the other, and its data is theirs. -/
theorem dataOf_packets (bs : Bytes) :
    ∃ packets noise, bs = noisy Packet.encode packets noise ∧
      dataOf bs = (dataPayloads (packets.map Prod.snd)).flatten := by
  obtain ⟨packets, dropped, hbs, hfound⟩ :=
    scan_segments (undeterred_settled outer_settled outerTurn_fail) (bs.length + 1) bs
  refine ⟨packets, _, hbs, ?_⟩
  rw [dataOf, hfound]
  rfl

/-- The data that the caller has not seen, with the bytes `q` still to come: what is in the data buffer, and
what the rest of the stream brings. -/
def owed (t : SerialTransport) (q : Bytes) : Bytes := t.dataBuffer ++ dataOf (t.outerBuffer ++ q)

/-- **One chunk**, whether the call raises or not: what was owed with the chunk to come is owed without it. -/
theorem feedOuter_owed (t : SerialTransport) (chunk q : Bytes) :
    (t.feedOuter chunk).2.owed q = t.owed (chunk ++ q) ∧ (t.feedOuter chunk).2.serial = t.serial := by
  have hglean := glean_append outer_settled outerTurn_fail ((t.outerBuffer ++ chunk).length + 1)
    (t.outerBuffer ++ chunk) q
  rw [List.append_assoc] at hglean
  rw [feedOuter]
  rcases hscan : scan outerTurn ((t.outerBuffer ++ chunk).length + 1) (t.outerBuffer ++ chunk) with
    ⟨found, failure, rest⟩
  rw [hscan] at hglean
  have hdata : (t.dataBuffer ++ (dataPayloads found).flatten) ++ dataOf (rest ++ q) = t.owed (chunk ++ q) := by
    rw [owed, dataOf, dataOf, hglean, dataPayloads_append, List.flatten_append, List.append_assoc]
  cases failure with
  | none => exact ⟨hdata, rfl⟩
  | some e => exact ⟨hdata, rfl⟩

/-- A call that returns hides nothing: no packet in the outer buffer is complete. -/
theorem feedOuter_shown {t t' : SerialTransport} {chunk : Bytes} (h : t.feedOuter chunk = (.ok (), t')) :
    dataOf t'.outerBuffer = [] := by
  rw [feedOuter] at h
  cases hfail : (scan outerTurn ((t.outerBuffer ++ chunk).length + 1) (t.outerBuffer ++ chunk)).failure with
  | some e =>
      simp only [hfail] at h
      cases h
  | none =>
      simp only [hfail] at h
      obtain ⟨-, rfl⟩ := Prod.mk.inj h
      rw [dataOf, glean_kept outer_settled outerTurn_fail (Nat.lt_succ_self _) hfail]
      rfl

/-- **The loop of `read`**: it uses some answers of the port, and their bytes are owed no longer to it but to the
caller. -/
theorem readLoop_owed (polls : Nat) (port : Port) (t : SerialTransport) :
    ∃ port' used, (readLoop polls port t).2.serial = some port' ∧ port.reads = used ++ port'.reads ∧
      ∀ q, (readLoop polls port t).2.owed q = t.owed (answered used ++ q) := by
  induction polls generalizing port t with
  | zero => exact ⟨port, [], rfl, rfl, fun _ => rfl⟩
  | succ polls ih =>
      rw [readLoop]
      by_cases hdata : t.dataBuffer ≠ []
      · rw [if_pos hdata]
        exact ⟨port, [], rfl, rfl, fun _ => rfl⟩
      rw [if_neg hdata]
      cases hreads : port.reads with
      | nil =>
          -- silence
          have hread : port.read = (.ok [], port) := by
            rw [Port.read, hreads]
          rw [hread]
          obtain ⟨port', used, hserial, hused, howed⟩ := ih port t
          exact ⟨port', used, hserial, hreads ▸ hused, howed⟩
      | cons r answers =>
          have hread : port.read = (r, { port with reads := answers }) := by
            rw [Port.read, hreads]
          rw [hread]
          cases r with
          | error e => exact ⟨{ port with reads := answers }, [.error e], rfl, rfl, fun _ => rfl⟩
          | ok chunk =>
              simp only
              by_cases hchunk : chunk = []
              · rw [if_pos hchunk]
                obtain ⟨port', used, hserial, hused, howed⟩ := ih { port with reads := answers } t
                refine ⟨port', .ok chunk :: used, hserial, congrArg _ hused, fun q => ?_⟩
                rw [howed q, hchunk]
                rfl
              rw [if_neg hchunk]
              have hone := feedOuter_owed t chunk
              rcases hfeed : t.feedOuter chunk with ⟨res, t1⟩
              rw [hfeed] at hone
              cases res with
              | error e =>
                  refine ⟨{ port with reads := answers }, [.ok chunk], rfl, rfl, fun q => ?_⟩
                  have hanswer : answered [.ok chunk] = chunk := List.append_nil chunk
                  rw [hanswer]
                  exact (hone q).1
              | ok =>
                  obtain ⟨port', used, hserial, hused, howed⟩ := ih { port with reads := answers } t1
                  refine ⟨port', .ok chunk :: used, hserial, congrArg _ hused, fun q => ?_⟩
                  have hcons : answered (.ok chunk :: used) ++ q = chunk ++ (answered used ++ q) :=
                    List.append_assoc _ _ _
                  rw [hcons, ← (hone (answered used ++ q)).1]
                  exact howed q

/-- **`read`**: what it gives out it owes no longer, and it gives out nothing that it did not owe. -/
theorem read_owed {t : SerialTransport} {port : Port} (hserial : t.serial = some port) (size polls : Nat) :
    ∃ port' used, (t.read size polls).2.serial = some port' ∧ port.reads = used ++ port'.reads ∧
      ∀ q, answered [(t.read size polls).1] ++ (t.read size polls).2.owed q = t.owed (answered used ++ q) := by
  obtain ⟨port', used, hport', hused, howed⟩ := readLoop_owed polls port t
  rw [read, hserial]
  rcases hloop : readLoop polls port t with ⟨res, t'⟩
  rw [hloop] at hport' howed
  simp only [hloop]
  cases res with
  | error e => exact ⟨port', used, hport', hused, howed⟩
  | ok =>
      refine ⟨port', used, hport', hused, fun q => ?_⟩
      rw [← howed q]
      have hanswer : answered [.ok (t'.dataBuffer.take size)] = t'.dataBuffer.take size := List.append_nil _
      show answered [.ok (t'.dataBuffer.take size)] ++ (t'.dataBuffer.drop size ++ dataOf (t'.outerBuffer ++ q)) =
        t'.dataBuffer ++ dataOf (t'.outerBuffer ++ q)
      rw [hanswer, ← List.append_assoc, List.take_append_drop]

/-- One call, of either kind, that returns or raises. -/
theorem use_owed (u : Use) (t : SerialTransport) (q : Bytes) :
    answered [(t.use u).1] ++ (t.use u).2.owed q = t.owed (t.passedBy u ++ q) := by
  cases u with
  | feedOuter chunk =>
      have hone := (feedOuter_owed t chunk q).1
      rw [use]
      rcases hfeed : t.feedOuter chunk with ⟨res, t'⟩
      rw [hfeed] at hone
      cases res with
      | error e => exact hone
      | ok => exact hone
  | read size polls =>
      cases hserial : t.serial with
      | none =>
          have hread : t.read size polls = (.error notOpen, t) := by
            rw [read, hserial]
          show answered [(t.read size polls).1] ++ (t.read size polls).2.owed q =
            t.owed (gone t.serial (t.read size polls).2.serial ++ q)
          rw [hread, hserial]
          rfl
      | some port =>
          obtain ⟨port', used, hport', hused, howed⟩ := read_owed hserial size polls
          have hpassed : t.passedBy (.read size polls) = answered used := by
            show gone t.serial (t.read size polls).2.serial = answered used
            rw [hserial, hport', gone_eq hused]
          rw [hpassed]
          exact howed q

theorem answered_cons (r : Except Exc Bytes) (rs : List (Except Exc Bytes)) :
    answered (r :: rs) = answered [r] ++ answered rs := by
  simp only [answered, List.flatMap_cons, List.flatMap_nil, List.append_nil]

/-- **Calls one after another**, each of which may raise. -/
theorem useAll_owed (us : List Use) (t : SerialTransport) (q : Bytes) :
    answered (useAll us t).1 ++ (useAll us t).2.owed q = t.owed (passed us t ++ q) := by
  induction us generalizing t with
  | nil => rfl
  | cons u us ih =>
      rw [passed, List.append_assoc, ← use_owed u t, ← ih (t.use u).2, ← List.append_assoc, ← answered_cons]
      rfl

/-- Calls of `read` on an open port, each of which may raise. -/
theorem readAll_owed (calls : List (Nat × Nat)) {t : SerialTransport} {port : Port}
    (hserial : t.serial = some port) :
    ∃ port' used, (readAll calls t).2.serial = some port' ∧ port.reads = used ++ port'.reads ∧
      ∀ q, answered (readAll calls t).1 ++ (readAll calls t).2.owed q = t.owed (answered used ++ q) := by
  induction calls generalizing t port with
  | nil => exact ⟨port, [], hserial, rfl, fun _ => rfl⟩
  | cons call calls ih =>
      obtain ⟨port₁, used₁, hserial₁, hused₁, howed₁⟩ := read_owed hserial call.1 call.2
      obtain ⟨port', used, hserial', hused, howed⟩ := ih hserial₁
      refine ⟨port', used₁ ++ used, hserial', ?_, fun q => ?_⟩
      · rw [hused₁, hused, List.append_assoc]
      · have happend : answered (used₁ ++ used) = answered used₁ ++ answered used := List.flatMap_append
        rw [happend, List.append_assoc, ← howed₁, ← howed, ← List.append_assoc, ← answered_cons]
        rfl

end SerialTransport

/-! ## §4 — for every stream. -/

open SerialTransport (useAll passed answered dataOf)

/-- **An exception costs no data.**  Whatever bytes are passed, in whatever chunks, with calls of `read` in
between and with calls that raise: what was given out, what is in the data buffer and what the outer buffer
still hides are together the data of the stream.  A call of `_feed_outer` that returns hides nothing, and the data
are those of packets that stand in the stream one behind the other. -/
theorem outer_data_conserved (us : List SerialTransport.Use) (t : SerialTransport) :
    answered (useAll us t).1 ++ ((useAll us t).2.dataBuffer ++ dataOf (useAll us t).2.outerBuffer) =
        t.dataBuffer ++ dataOf (t.outerBuffer ++ passed us t) ∧
      (∀ chunk t', (useAll us t).2.feedOuter chunk = (.ok (), t') → dataOf t'.outerBuffer = []) ∧
      ∃ packets noise, t.outerBuffer ++ passed us t = noisy Packet.encode packets noise ∧
        dataOf (t.outerBuffer ++ passed us t) = (dataPayloads (packets.map Prod.snd)).flatten := by
  refine ⟨?_, fun chunk t' h => SerialTransport.feedOuter_shown h, SerialTransport.dataOf_packets _⟩
  have howed := SerialTransport.useAll_owed us t []
  rwa [SerialTransport.owed, SerialTransport.owed, List.append_nil, List.append_nil] at howed

/-! ## §5 — the endpoint on top. -/

/-- The frames that the reads bring stand in their bytes, one behind the other, with other bytes in between. -/
theorem deliveries_segments (reads : List (Except Exc Bytes)) (d : FrameDecoder) :
    ∃ frames last, d.buffer ++ answered reads = noisy Frame.encode frames last ∧
      frames.map Prod.snd = (deliveries d reads).flatten := by
  induction reads generalizing d with
  | nil => exact ⟨[], d.buffer ++ [], rfl, rfl⟩
  | cons read reads ih =>
      cases read with
      | error e => exact ⟨[], _, rfl, rfl⟩
      | ok data =>
          rw [deliveries]
          by_cases hd : data = []
          · rw [if_pos hd, hd]
            exact ih d
          rw [if_neg hd]
          obtain ⟨items, dropped, hfirst, hitems⟩ := d.feed_segments data
          have hbytes : answered (.ok data :: reads) = data ++ answered reads := rfl
          rcases hfeed : d.feed data with ⟨res, d'⟩
          rw [hfeed] at hfirst hitems
          cases res with
          | error e => exact ⟨[], _, rfl, rfl⟩
          | ok found =>
              obtain ⟨more, last, hrest, hmore⟩ := ih d'
              obtain ⟨all, last', hall, hsnd⟩ := noisy_append Frame.encode items more dropped last
              refine ⟨all, last', ?_, ?_⟩
              · rw [← hall, ← hrest, ← List.append_assoc dropped, noisy_last, ← hfirst, hbytes, List.append_assoc]
              · have hfound : items.map Prod.snd = found := hitems.trans (List.append_nil found)
                rw [hsnd, hfound, hmore, List.flatten_cons]

/-- **Where a trade comes from.**  Whatever the serial port answers: when `trade_once` returns over this
transport, then there are packets in the bytes of the port, and in the data of these packets, one behind the
other, the encodings of seven frames of the transaction, in order, that testify to the result. -/
theorem trade_stands_on_wire {calls : List (Nat × Nat)} {t : SerialTransport} {port : Port}
    {ep ep' : GbLinkEndpoint} {offered : Pokemon100} {r : GbaTradeResult} (hport : t.serial = some port)
    (hreads : ep.transport.reads = (t.readAll calls).1)
    (h : ep.call (GbLinkEndpoint.tradeOnce offered) = (.ok r, ep')) :
    ∃ packets noise frames rest ready started party slot mon commit closed,
      t.outerBuffer ++ answered port.reads = noisy Packet.encode packets noise ∧
      ep.decoder.buffer ++ (t.dataBuffer ++ (dataPayloads (packets.map Prod.snd)).flatten) =
        noisy Frame.encode frames rest ∧
      frames.map Prod.snd = [ready, started, party, slot, mon, commit, closed] ∧
      Orderly ep.replay ep.txid [ready, started, party, slot, mon, commit, closed] ∧
      Testimony ep.offerSlot offered ready started party slot mon commit closed r := by
  -- the seven frames, among those that the reads bring
  obtain ⟨hconsumed, -, -⟩ := tradeOnce_hears h
  obtain ⟨hown, hacc, picks, hsub, hlead⟩ := tradeOnce_examines h
  obtain ⟨hinc, habove⟩ := ReplayWindow.acceptAll_ok hown hacc
  obtain ⟨ready, started, party, slot, mon, commit, closed, hseven, htestimony⟩ := hlead.testimony
  have hexamined := examined_sublist (hearings ep.offerSlot offered 7 .ready
    (deliveries ep.decoder ep.transport.reads))
  rw [← hconsumed] at hexamined
  have hbrought := ((hseven.trans hsub).trans hexamined).trans (consumed_begin ep ep').sublist
  -- the bytes of the reads, among the data of the packets
  obtain ⟨port', used, -, hused, howed⟩ := SerialTransport.readAll_owed calls hport
  have hdata := howed (answered port'.reads)
  have hall : answered port.reads = answered used ++ answered port'.reads := by
    rw [hused]
    exact List.flatMap_append
  rw [← hreads, ← hall, SerialTransport.owed, SerialTransport.owed] at hdata
  obtain ⟨packets, noise, hpackets, hof⟩ := SerialTransport.dataOf_packets (t.outerBuffer ++ answered port.reads)
  rw [hof] at hdata
  obtain ⟨later, hdata⟩ : ∃ later, answered ep.transport.reads ++ later = _ := ⟨_, hdata⟩
  obtain ⟨frames, last, hframes, hsnd⟩ := deliveries_segments ep.transport.reads ep.decoder
  rw [← hsnd] at hbrought
  obtain ⟨frames', last', hnoisy, hsnd'⟩ := noisy_sublist Frame.encode hbrought last
  refine ⟨packets, noise, frames', last' ++ later, ready, started, party, slot, mon, commit, closed, hpackets, ?_, hsnd',
    ⟨?_, hinc.sublist (hseven.trans hsub)⟩, htestimony⟩
  · rw [← hdata, ← List.append_assoc, hframes, hnoisy, ← noisy_last]
  · intro f hf
    have hmem := (hseven.trans hsub).subset hf
    exact ⟨hown f hmem, habove f hmem⟩

/-! A conversation that arrives byte by byte, each byte in a packet of its own. -/

/-- A packet that an answer of the port brings alone is what the `read` gives out. -/
theorem SerialTransport.readAll_alone (ps : List Packet) (h : ∀ p ∈ ps, p.channel = .data ∧ p.payload ≠ []) :
    SerialTransport.readAll (ps.map fun _ => (512, 1)) { serial := some { reads := ps.map fun p => .ok p.encode } } =
      (ps.map fun p => .ok p.payload, { serial := some {} }) := by
  induction ps with
  | nil => rfl
  | cons p ps ih =>
      obtain ⟨hchannel, hpayload⟩ := h p List.mem_cons_self
      have hscan : scan outerTurn (p.encode.length + 1) p.encode = ⟨[p], none, []⟩ := by
        have hemit := outerTurn_encode p []
        rw [List.append_nil] at hemit
        rw [scan, hemit, length_encode, Nat.add_comm 5]
        rfl
      have hdata : dataPayloads [p] = [p.payload] := by
        rw [dataPayloads, List.filter_cons_of_pos (by rw [hchannel]; rfl)]
        rfl
      have hne := outer_delimits.nonempty p
      have hread : SerialTransport.read 512 1
          { serial := some { reads := .ok p.encode :: ps.map fun p => .ok p.encode } } =
            (.ok p.payload, { serial := some { reads := ps.map fun p => .ok p.encode } }) := by
        have hfit : p.payload.length ≤ 512 := p.payload_le.trans (by decide)
        simp only [read, readLoop, Port.read, feedOuter, List.nil_append, hscan, hdata, ne_eq, not_true_eq_false,
          if_false, if_neg hne, List.flatten_singleton, List.take_of_length_le hfit, List.drop_of_length_le hfit]
      rw [List.map_cons, List.map_cons, List.map_cons, SerialTransport.readAll, hread]
      simp only [ih fun q hq => h q (List.mem_cons_of_mem _ hq)]

namespace Sample

/-- The packets of a sample line: each byte of the sample conversation in a packet of its own. -/
def line : List Packet := (wire Frame.encode conversation).map fun b => ⟨.data, [b], by show 1 ≤ 64; decide⟩

def linePort : Port := { reads := line.map fun p => .ok p.encode }

def lineTransport : SerialTransport := { serial := some linePort }

def lineCalls : List (Nat × Nat) := line.map fun _ => (512, 1)

theorem trickle_returns : ((withReads endpoint trickle).call (GbLinkEndpoint.tradeOnce mon)).1 =
    .ok ⟨⟨mon, mon, true⟩, 0, true⟩ := by
  rw [conversation_follow trickle_cutting,
    follow_eq_inOrder (trickle_inStep conversation_opens conversation_new), flatten_arrivals trickle_cutting.toStreaming]
  apply eq_ok_of_outcome
  decide +kernel

theorem trade_stands_on_wire_trickle :
    ∃ packets noise frames rest ready started party slot mon' commit closed,
      lineTransport.outerBuffer ++ answered linePort.reads = noisy Packet.encode packets noise ∧
      (withReads endpoint trickle).decoder.buffer ++
          (lineTransport.dataBuffer ++ (dataPayloads (packets.map Prod.snd)).flatten) =
        noisy Frame.encode frames rest ∧
      frames.map Prod.snd = [ready, started, party, slot, mon', commit, closed] ∧
      Orderly (withReads endpoint trickle).replay (withReads endpoint trickle).txid
        [ready, started, party, slot, mon', commit, closed] ∧
      Testimony (withReads endpoint trickle).offerSlot mon ready started party slot mon' commit closed
        ⟨⟨mon, mon, true⟩, 0, true⟩ := by
  have halone := SerialTransport.readAll_alone line (by
    intro p hp
    obtain ⟨b, -, rfl⟩ := List.mem_map.mp hp
    exact ⟨rfl, List.cons_ne_nil b []⟩)
  have hreads : (withReads endpoint trickle).transport.reads = (lineTransport.readAll lineCalls).1 := by
    rw [lineTransport, linePort, lineCalls, halone, line, List.map_map]
    show (trickle.map Except.ok : List (Except Exc Bytes)) = _
    rw [trickle, bytewise, List.map_map]
    rfl
  exact trade_stands_on_wire rfl hreads (call_returns trickle_returns)

end Sample

end TradeBroker.Gba
