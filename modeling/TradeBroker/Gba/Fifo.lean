/-
# TradeBroker.Gba.Fifo — the outer transport as a queue of bytes.

`_feed_outer` puts the payloads of the data channel at the end of the data buffer, `read` takes bytes off its
front.  Between the packets there may be noise, as long as it is free of `GB`; the payloads may hold `GB`, a
packet leaves the buffer as a whole.  Whoever passes the bytes to `_feed_outer`, the caller or a `read` that
asks the port, and however calls of both are mixed: what has been given out and what is still in the data
buffer are the data payloads, in order.

The bytes passed are what counts as the stream (`passed`): the chunks of the caller, and the answers of the
port that are gone after a `read`.

`Expects` is the invariant: with the bytes that are still to be passed, what the outer buffer holds is a
stream of packets with quiet noise.  One chunk keeps it (`feedOuter_expects`), so the loop of `read` does,
so one call does whichever it is (`use_expects`), and by induction any calls do.  The noise has to be free
of the sync bytes because a stray `GB` makes the transport take the three bytes behind it for a channel
and a length; what happens then is the subject of `Gba.Outer`.
-/
import TradeBroker.Gba.Serial

namespace TradeBroker.Gba

open Lib

namespace SerialTransport

/-! ## §1 — noise between the packets. -/

/-- The sync bytes do not overlap themselves. -/
theorem sync_unbordered : Unbordered sync := by decide

/-- Noise in front of the sync bytes is passed over in the same pass. -/
theorem outerTurn_noise {noise : Bytes} (h : ¬ sync <:+: noise) (bs : Bytes) :
    outerTurn (noise ++ (sync ++ bs)) = outerTurn (sync ++ bs) := by
  rw [outerTurn, outerTurn, sync_unbordered.find_append (by decide) h, outerTurn_sync]
  simp only [List.drop_left, List.drop_zero]

/-- Of bytes without the sync bytes, a first sync byte at the end is kept, and nothing else. -/
theorem outerTurn_no_sync {p : Bytes} (h : ¬ sync <:+: p) :
    ∃ dropped kept, p = dropped ++ kept ∧ outerTurn p = .wait kept ∧
      ∀ r s, sync = r ++ s → s ≠ [] → r <:+ p → r.length ≤ kept.length := by
  have hturn : outerTurn p =
      .wait (if p.drop (p.length - 1) = sync.take 1 then sync.take 1 else []) := by
    rw [outerTurn, find_eq_none_iff.mpr h]
  by_cases hlast : p.drop (p.length - 1) = sync.take 1
  · refine ⟨p.take (p.length - 1), sync.take 1, ?_, ?_, ?_⟩
    · rw [← hlast, List.take_append_drop]
    · rw [hturn, if_pos hlast]
    · intro r s hr hs _
      have hspos := List.length_pos_of_ne_nil hs
      have htwo := congrArg List.length hr
      rw [List.length_append] at htwo
      have hsync : sync.length = 2 := rfl
      show r.length ≤ 1
      omega
  · refine ⟨p, [], (List.append_nil p).symm, ?_, ?_⟩
    · rw [hturn, if_neg hlast]
    · intro r s hr hs hsuffix
      -- the only beginning of `GB` but the empty one is `G`, and the last byte is none
      rcases r with _ | ⟨b, _ | ⟨c, r⟩⟩
      · exact le_refl _
      · exfalso
        obtain ⟨front, rfl⟩ := hsuffix
        have hb : b = 0x47 := (List.cons.inj hr).1.symm
        apply hlast
        rw [List.length_append, List.length_singleton, Nat.add_sub_cancel, List.drop_left, hb]
        rfl
      · have htwo := congrArg List.length hr
        have hspos := List.length_pos_of_ne_nil hs
        simp only [List.length_append, List.length_cons] at htwo
        have hsync : sync.length = 2 := rfl
        omega

/-- **The transport finds its way through noise** that is free of the sync bytes, cut anywhere. -/
theorem outer_resyncs : Resyncs outerTurn Packet.encode id fun noise => ¬ sync <:+: noise := by
  apply outer_delimits.resyncs sync_unbordered (by decide)
  · intro p
    exact ⟨_, rfl⟩
  · intro noise bs hn
    exact outerTurn_noise hn bs
  · intro p hn
    exact outerTurn_no_sync hn

/-! ## §2 — mixed calls. -/

/-- A call on the transport: `_feed_outer` with a chunk, or `read` with a size and its polls. -/
inductive Use where
  | feedOuter (chunk : Bytes)
  | read (size polls : Nat)

/-- What the call gives out; `_feed_outer` gives out nothing. -/
def use : Use → SerialTransport → Except Exc Bytes × SerialTransport
  | .feedOuter chunk, t =>
      match t.feedOuter chunk with
      | (.error e, t) => (.error e, t)
      | (.ok (), t) => (.ok [], t)
  | .read size polls, t => t.read size polls

/-- The calls in order: what each gave out or raised; a caller that goes on after an exception. -/
def useAll : List Use → SerialTransport → List (Except Exc Bytes) × SerialTransport
  | [], t => ([], t)
  | u :: us, t =>
      let r := t.use u
      let rs := useAll us r.2
      (r.1 :: rs.1, rs.2)

/-- The bytes of some answers of the port, those that raised left out. -/
def answered (answers : List (Except Exc Bytes)) : Bytes :=
  answers.flatMap fun r =>
    match r with
    | .ok bs => bs
    | .error _ => []

/-- The bytes of the answers that the port has given since it was `before`, whatever became of them. -/
def gone (before after : Option Port) : Bytes :=
  match before, after with
  | some p, some p' => answered (p.reads.take (p.reads.length - p'.reads.length))
  | _, _ => []

/-- The bytes that one call passes to `_feed_outer`: its chunk, or what the port answers to it. -/
def passedBy (u : Use) (t : SerialTransport) : Bytes :=
  match u with
  | .feedOuter chunk => chunk
  | .read _ _ => gone t.serial (t.use u).2.serial

/-- The bytes that the calls pass to `_feed_outer`, one after the other: the stream. -/
def passed : List Use → SerialTransport → Bytes
  | [], _ => []
  | u :: us, t => t.passedBy u ++ passed us (t.use u).2

/-- The port is open and its answers are bytes, so that only the packet layer can raise. -/
def Answering (t : SerialTransport) : Prop :=
  ∃ port, t.serial = some port ∧ ∀ r ∈ port.reads, ∃ bs, r = .ok bs

/-! ## §3 — one call. -/

/-- `q` is still to be passed, and with what is in the outer buffer it brings the packets `left`. -/
def Expects (t : SerialTransport) (q : Bytes) (left : List Packet) : Prop :=
  ∃ items last, Quiet (fun noise => ¬ sync <:+: noise) items last ∧ items.map Prod.snd = left ∧
    noisy Packet.encode items last = t.outerBuffer ++ q ∧ (q = [] → left = [])

/-- **One chunk**: nothing is raised and nothing is lost.  The packets that the chunk completes are in the
data buffer, and the others are still expected. -/
theorem feedOuter_expects {t : SerialTransport} {chunk q : Bytes} {left : List Packet}
    (h : Expects t (chunk ++ q) left) :
    ∃ t' left', t.feedOuter chunk = (.ok (), t') ∧ t'.serial = t.serial ∧ Expects t' q left' ∧
      unread t' left' = unread t left := by
  obtain ⟨items, last, hquiet, rfl, hstream, -⟩ := h
  rw [← List.append_assoc] at hstream
  obtain ⟨found, more, last', rest, hitems, hscan, hquiet', hmore, hend⟩ :=
    scan_noisy outer_resyncs hquiet hstream (Nat.lt_succ_self (t.outerBuffer ++ chunk).length)
  rw [List.map_id] at hscan
  refine ⟨{ t with outerBuffer := rest, dataBuffer := t.dataBuffer ++ (dataPayloads found).flatten },
    more.map Prod.snd, ?_, rfl, ⟨more, last', hquiet', rfl, hmore, ?_⟩, ?_⟩
  · simp only [feedOuter, hscan]
  · intro hq
    rw [hend hq]
    rfl
  · rw [unread, unread, hitems, dataPayloads_append, List.flatten_append, List.append_assoc]

theorem gone_eq {port port' : Port} {used : List (Except Exc Bytes)} (h : port.reads = used ++ port'.reads) :
    gone (some port) (some port') = answered used := by
  have hlen : port.reads.length - port'.reads.length = used.length := by
    rw [h, List.length_append, Nat.add_sub_cancel]
  show answered (port.reads.take (port.reads.length - port'.reads.length)) = answered used
  rw [hlen, h, List.take_left]

/-- **The loop of `read`**: it uses some answers of the port, and when these are what was expected, nothing
is raised and nothing is lost. -/
theorem readLoop_expects (polls : Nat) {port : Port} {t : SerialTransport}
    (hok : ∀ r ∈ port.reads, ∃ bs, r = .ok bs) :
    ∃ res t' port' used, readLoop polls port t = (res, t') ∧ t'.serial = some port' ∧
      port.reads = used ++ port'.reads ∧
      ∀ q left, Expects t (answered used ++ q) left →
        ∃ left', res = .ok () ∧ Expects t' q left' ∧ unread t' left' = unread t left := by
  induction polls generalizing port t with
  | zero => exact ⟨.ok (), _, port, [], rfl, rfl, rfl, fun q left h => ⟨left, rfl, h, rfl⟩⟩
  | succ polls ih =>
      rw [readLoop]
      by_cases hdata : t.dataBuffer ≠ []
      · rw [if_pos hdata]
        exact ⟨.ok (), _, port, [], rfl, rfl, rfl, fun q left h => ⟨left, rfl, h, rfl⟩⟩
      · rw [if_neg hdata]
        cases hreads : port.reads with
        | nil =>
            -- silence
            have hread : port.read = (.ok [], port) := by
              rw [Port.read, hreads]
            rw [hread]
            rw [hreads] at hok
            obtain ⟨res, t', port', used, hloop, hserial, hused, hspec⟩ := ih (t := t) (hreads ▸ hok)
            exact ⟨res, t', port', used, hloop, hserial, hreads ▸ hused, hspec⟩
        | cons r answers =>
            obtain ⟨chunk, rfl⟩ := hok r (by rw [hreads]; exact List.mem_cons_self)
            have hread : port.read = (.ok chunk, { port with reads := answers }) := by
              rw [Port.read, hreads]
            have hok' : ∀ r ∈ ({ port with reads := answers } : Port).reads, ∃ bs, r = .ok bs := by
              intro r hr
              exact hok r (by rw [hreads]; exact List.mem_cons_of_mem _ hr)
            rw [hread]
            simp only
            by_cases hchunk : chunk = []
            · rw [if_pos hchunk, hchunk]
              obtain ⟨res, t', port', used, hloop, hserial, hused, hspec⟩ := ih (t := t) hok'
              refine ⟨res, t', port', .ok [] :: used, hloop, hserial, ?_, hspec⟩
              rw [List.cons_append, ← hused]
            · rw [if_neg hchunk]
              cases hfeed : t.feedOuter chunk with
              | mk fed t1 =>
                  cases fed with
                  | error e =>
                      refine ⟨.error e, _, _, [.ok chunk], rfl, rfl, rfl, ?_⟩
                      intro q left h
                      -- a chunk that was expected is not refused
                      have hone : answered [.ok chunk] = chunk := List.append_nil chunk
                      rw [hone] at h
                      obtain ⟨t2, -, hfed, -, -, -⟩ := feedOuter_expects h
                      rw [hfeed] at hfed
                      cases hfed
                  | ok =>
                      obtain ⟨res, t', port', used, hloop, hserial, hused, hspec⟩ := ih (t := t1) hok'
                      refine ⟨res, t', port', .ok chunk :: used, hloop, hserial, ?_, ?_⟩
                      · rw [List.cons_append, ← hused]
                      · intro q left h
                        have hcons : answered (.ok chunk :: used) ++ q = chunk ++ (answered used ++ q) :=
                          List.append_assoc _ _ _
                        rw [hcons] at h
                        obtain ⟨t2, left1, hfed, -, hexp, hunread⟩ := feedOuter_expects h
                        obtain ⟨-, rfl⟩ := Prod.mk.inj (hfeed.symm.trans hfed)
                        obtain ⟨left', hres, hexp', hunread'⟩ := hspec q left1 hexp
                        exact ⟨left', hres, hexp', hunread'.trans hunread⟩

/-- **One call**: when the bytes it passes are what was expected, it does not raise, and what it gives out is
the beginning of the data that the caller has not seen. -/
theorem use_expects {u : Use} {t : SerialTransport} {q : Bytes} {left : List Packet} (ha : Answering t)
    (h : Expects t (t.passedBy u ++ q) left) :
    ∃ out t' left', t.use u = (.ok out, t') ∧ Answering t' ∧ Expects t' q left' ∧
      out ++ unread t' left' = unread t left := by
  obtain ⟨port, hserial, hok⟩ := ha
  cases u with
  | feedOuter chunk =>
      have hchunk : Expects t (chunk ++ q) left := h
      obtain ⟨t', left', hfeed, hsame, hexp, hunread⟩ := feedOuter_expects hchunk
      refine ⟨[], t', left', ?_, ⟨port, hsame.trans hserial, hok⟩, hexp, hunread⟩
      rw [use, hfeed]
  | read size polls =>
      obtain ⟨res, t', port', used, hloop, hserial', hused, hspec⟩ := readLoop_expects polls (t := t) hok
      have hok' : ∀ r ∈ port'.reads, ∃ bs, r = .ok bs := by
        intro r hr
        exact hok r (by rw [hused]; exact List.mem_append_right _ hr)
      have hpassed : t.passedBy (.read size polls) = answered used := by
        have hport : (t.read size polls).2.serial = some port' := by
          rw [read, hserial]
          simp only [hloop]
          cases res with
          | error e => exact hserial'
          | ok => exact hserial'
        show gone t.serial (t.read size polls).2.serial = answered used
        rw [hport, hserial, gone_eq hused]
      rw [hpassed] at h
      obtain ⟨left', rfl, hexp, hunread⟩ := hspec q left h
      refine ⟨t'.dataBuffer.take size, { t' with dataBuffer := t'.dataBuffer.drop size }, left', ?_,
        ⟨port', hserial', hok'⟩, hexp, ?_⟩
      · rw [use, read, hserial]
        simp only [hloop]
      · rw [← hunread]
        show _ ++ (t'.dataBuffer.drop size ++ _) = t'.dataBuffer ++ _
        rw [← List.append_assoc, List.take_append_drop]

/-- **Mixed calls**: what they give out and what is left in the data buffer is the data. -/
theorem useAll_expects (us : List Use) {t : SerialTransport} {left : List Packet} (ha : Answering t)
    (h : Expects t (passed us t) left) :
    ∃ outs : List Bytes, (useAll us t).1 = outs.map .ok ∧
      outs.flatten ++ (useAll us t).2.dataBuffer = unread t left := by
  induction us generalizing t left with
  | nil =>
      obtain ⟨items, last, -, -, -, hend⟩ := h
      refine ⟨[], rfl, ?_⟩
      rw [unread, hend rfl]
      exact (List.append_nil _).symm
  | cons u us ih =>
      rw [passed] at h
      obtain ⟨out, t', left', huse, ha', hexp, hunread⟩ := use_expects ha h
      have hnext : (t.use u).2 = t' := by rw [huse]
      rw [hnext] at hexp
      obtain ⟨outs, houts, hrest⟩ := ih ha' hexp
      refine ⟨out :: outs, ?_, ?_⟩
      · simp only [useAll, huse, houts, List.map_cons]
      · simp only [useAll, huse, List.flatten_cons, List.append_assoc]
        rw [hrest, hunread]

/-! ## §4 — what `write` sends. -/

/-- The pieces that `write` makes of some bytes are these bytes. -/
theorem flatten_payloads (data : Bytes) : (dataPayloads (packets data)).flatten = data := by
  have hall : (packets data).filter (·.channel = .data) = packets data := by
    rw [List.filter_eq_self]
    intro p hp
    obtain ⟨i, -, rfl⟩ := List.mem_map.mp hp
    rfl
  have hpieces : pieces data =
      (List.range ((data.length + 63) / 64)).map fun i => (data.drop (64 * i)).take 64 := by
    apply List.map_congr_left
    intro i _
    rw [slice, Nat.add_sub_cancel_left]
    rfl
  rw [dataPayloads, hall, packets_payload, hpieces]
  exact Lib.flatten_pieces (by omega)

/-- A packet that was written without an error is on the port as a whole, since a short write raises. -/
theorem writeOuter_sent {c : Channel} {payload : Bytes} {t t' : SerialTransport} {port : Port}
    (ht : t.serial = some port) (h : t.writeOuter c payload = (.ok (), t')) :
    ∃ port', t'.serial = some port' ∧ port'.written = port.written ++
      [sync ++ ([c.code] ++ (leBytes 2 payload.length ++ payload))] := by
  rw [writeOuter, ht] at h
  simp only at h
  split at h
  · cases h
  · rw [Port.write] at h
    cases hw : port.writes with
    | nil =>
        rw [hw] at h
        simp only [ne_eq, not_true_eq_false, if_false] at h
        obtain ⟨-, rfl⟩ := Prod.mk.inj h
        exact ⟨_, rfl, rfl⟩
    | cons answer answers =>
        rw [hw] at h
        cases answer with
        | error e => cases h
        | ok n =>
            simp only at h
            split at h
            · cases h
            · rename_i hn
              rw [not_not] at hn
              obtain ⟨-, rfl⟩ := Prod.mk.inj h
              refine ⟨_, rfl, ?_⟩
              show port.written ++ [_] = _
              rw [hn, List.take_length]

/-- **What a `write` that returns has sent**: the packets of its bytes, all of them, in order. -/
theorem write_sent {data : Bytes} {t t' : SerialTransport} {port : Port} (ht : t.serial = some port)
    (h : t.write data = (.ok (), t')) :
    ∃ port', t'.serial = some port' ∧ port'.written = port.written ++ (packets data).map Packet.encode := by
  have hloop : ∀ (ps : List Packet) (t : SerialTransport) (port : Port), (∀ p ∈ ps, p.channel = .data) →
      t.serial = some port → writePieces (ps.map Packet.payload) t = (.ok (), t') →
      ∃ port', t'.serial = some port' ∧ port'.written = port.written ++ ps.map Packet.encode := by
    intro ps
    induction ps with
    | nil =>
        intro t port _ ht h
        obtain ⟨-, rfl⟩ := Prod.mk.inj h
        exact ⟨port, ht, (List.append_nil _).symm⟩
    | cons p ps ih =>
        intro t port hdata ht h
        rw [List.map_cons, writePieces] at h
        cases hone : t.writeOuter .data p.payload with
        | mk res t1 =>
            rw [hone] at h
            cases res with
            | error e => cases h
            | ok =>
                obtain ⟨port1, ht1, hw1⟩ := writeOuter_sent ht hone
                obtain ⟨port', ht', hw'⟩ :=
                  ih t1 port1 (fun other hother => hdata other (List.mem_cons_of_mem _ hother)) ht1 h
                refine ⟨port', ht', ?_⟩
                rw [hw', hw1, ← hdata p List.mem_cons_self, List.append_assoc]
                rfl
  rw [write, ht] at h
  simp only at h
  rw [← packets_payload] at h
  apply hloop (packets data) t port _ ht h
  intro p hp
  obtain ⟨i, -, rfl⟩ := List.mem_map.mp hp
  rfl

end SerialTransport

/-! ## §5 — the queue. -/

/-- The calls raise nothing, and what they give out, followed by what stays in the data buffer, is `data`. -/
def GivesOut (us : List SerialTransport.Use) (t : SerialTransport) (data : Bytes) : Prop :=
  ∃ outs : List Bytes, (SerialTransport.useAll us t).1 = outs.map .ok ∧
    outs.flatten ++ (SerialTransport.useAll us t).2.dataBuffer = data

/-- **The transport is a queue.**  Calls of `_feed_outer` and `read` on a fresh transport, mixed in any way:
when the bytes passed are packets with noise free of `GB` around them, nothing is raised, and the data of
channel 1 comes out in order, nothing lost and nothing twice.  In particular the packets that a `write` sends
bring back its bytes. -/
theorem outer_transport_fifo (us : List SerialTransport.Use) {t : SerialTransport}
    (hfresh : t.outerBuffer = [] ∧ t.dataBuffer = []) (ha : SerialTransport.Answering t) :
    (∀ (items : List (Bytes × Packet)) (last : Bytes),
        (∀ noise ∈ last :: items.map Prod.fst, ¬ sync <:+: noise) →
        SerialTransport.passed us t = noisy Packet.encode items last →
        GivesOut us t (dataPayloads (items.map Prod.snd)).flatten) ∧
      ∀ (data : Bytes) (writer writer' : SerialTransport) (port port' : Port) (sent : List Bytes),
        writer.serial = some port → writer.write data = (.ok (), writer') → writer'.serial = some port' →
        port'.written = port.written ++ sent → SerialTransport.passed us t = sent.flatten →
        GivesOut us t data := by
  have hall : ∀ (items : List (Bytes × Packet)) (last : Bytes),
      (∀ noise ∈ last :: items.map Prod.fst, ¬ sync <:+: noise) →
      SerialTransport.passed us t = noisy Packet.encode items last →
      GivesOut us t (dataPayloads (items.map Prod.snd)).flatten := by
    intro items last hquiet hstream
    have hexp : t.Expects (SerialTransport.passed us t) (items.map Prod.snd) := by
      refine ⟨items, last, ⟨?_, hquiet last List.mem_cons_self⟩, rfl, ?_, ?_⟩
      · intro item hitem
        exact hquiet item.1 (List.mem_cons_of_mem _ (List.mem_map_of_mem hitem))
      · rw [hfresh.1, hstream, List.nil_append]
      · intro hnil
        cases items with
        | nil => rfl
        | cons item items =>
            rw [hstream, noisy] at hnil
            have hencode := (List.append_eq_nil_iff.mp (List.append_eq_nil_iff.mp hnil).2).1
            exact absurd hencode (SerialTransport.outer_delimits.nonempty item.2)
    obtain ⟨outs, houts, hdata⟩ := SerialTransport.useAll_expects us ha hexp
    refine ⟨outs, houts, ?_⟩
    rw [hdata, SerialTransport.unread, hfresh.2, List.nil_append]
  refine ⟨hall, ?_⟩
  intro data writer writer' port port' sent hport hwrite hport' hsent hstream
  obtain ⟨port₁, hport₁, hwritten⟩ := SerialTransport.write_sent hport hwrite
  obtain rfl : port₁ = port' := Option.some.inj (hport₁.symm.trans hport')
  have hpieces : sent = (SerialTransport.packets data).map Packet.encode :=
    List.append_cancel_left (hsent.symm.trans hwritten)
  have hwire : SerialTransport.passed us t =
      noisy Packet.encode ((SerialTransport.packets data).map fun p => ([], p)) [] := by
    rw [hstream, hpieces, noisy_eq_wire, wire, List.flatMap_def]
  have hpackets : ((SerialTransport.packets data).map fun p => (([] : Bytes), p)).map Prod.snd =
      SerialTransport.packets data := by
    rw [List.map_map]
    exact List.map_id _
  have hdata := hall _ [] ?_ hwire
  · rwa [hpackets, SerialTransport.flatten_payloads] at hdata
  · intro noise hnoise
    -- there is no noise
    obtain rfl : noise = [] := by
      rcases List.mem_cons.mp hnoise with hlast | hitem
      · exact hlast
      · rw [List.map_map, List.mem_map] at hitem
        obtain ⟨p, -, hp⟩ := hitem
        exact hp.symm
    decide

/-! A packet that holds `GB`, noise that ends in `G`, a chunk of the caller and one of the port. -/

def gbPacket : Packet := ⟨.data, sync, by decide⟩

def statusPacket : Packet := ⟨.status, [1], by decide⟩

def dataPacket : Packet := ⟨.data, [1, 2, 3], by decide⟩

def cutStream : Bytes := noisy Packet.encode [([0x47], gbPacket), ([], statusPacket), ([0x42], gbPacket)] [0x47]

/-- A fresh transport whose open port has one answer and then is silent. -/
def answering (answer : Bytes) : SerialTransport := { serial := some { reads := [.ok answer] } }

theorem outer_transport_fifo_cut :
    GivesOut [.feedOuter (cutStream.take 4), .read 1 1, .read 9 0] (answering (cutStream.drop 4))
        (sync ++ sync) ∧
      GivesOut [.read 2 1, .read 9 1] (answering dataPacket.encode) [1, 2, 3] := by
  have hanswering : ∀ answer, (answering answer).Answering := by
    intro answer
    refine ⟨_, rfl, ?_⟩
    intro r hr
    rw [List.mem_singleton] at hr
    exact ⟨answer, hr⟩
  constructor
  · exact (outer_transport_fifo _ ⟨rfl, rfl⟩ (hanswering _)).1
      [([0x47], gbPacket), ([], statusPacket), ([0x42], gbPacket)] [0x47] (by decide) (by decide)
  · exact (outer_transport_fifo _ ⟨rfl, rfl⟩ (hanswering _)).2 [1, 2, 3] { serial := some {} } _ {} _
      [dataPacket.encode] rfl rfl rfl rfl (by decide)

end TradeBroker.Gba
