/-
# TradeBroker.Firmware.Agreement — what a returned trade says about the device.

Host and device meet over two byte channels.  The host sends its offer and reads what comes; the device
takes bytes off its channel in chunks of any size, and the link layer reports its events whenever it
likes.  A `System` is both of them with the bytes in flight, and `Step` is what can happen next.

The device keeps a chronicle: each thing it did, with the bridge as it stood when it began to.  Every
frame in flight was announced at some moment of it, and the invariant (`Accounted`) is that the bytes which
the host has read, followed by those in flight, are the announcements of the moments in order.  What the
host concludes from the frames it picked is then true of the moments that announced them.

⚠ The digest of the device is the SHA-256 that its placeholder stands for.  Only the records that are
hashed in a run have to be free of collisions; no digest is injective on all byte strings.

Neither party is simplified for it.  The host is the program of `Gba.GbLink`, run to its end against the
reads of the run; the device is the codec and the bridge, fed byte by byte in whatever chunks arrive.
What lies between them is a list of bytes in each direction, which is what a serial line is.

The last part builds a whole trade.  `Stands` keeps what has been reached and which frames are on their
way, each link event adds one of them, and the two records of the trade are different from each other and
from what a device starts with, so that agreeing means something.
-/
import Mathlib.Logic.Relation
import TradeBroker.Firmware.Session
import TradeBroker.Gba.Hearing

namespace TradeBroker.Firmware

open Lib
open Gba (Frame MessageType FrameDecoder GbLinkEndpoint offerFrame withReads)
open Gba.GbLinkEndpoint (tradeOnce)

/-! ## §1 — the two parties. -/

/-- Something the device did, and the bridge as it stood when it began to; what a frame says is judged against
this bridge. -/
structure Moment where
  deed : Deed
  bridge : Bridge

/-- The device, with its moments so far: codec, bridge and chronicle.  The chronicle is a ghost, nothing reads
it. -/
abbrev Chronicled : Type := Codec × Bridge × List Moment

/-- `handle(frame)`, and the moment of it. -/
def chronicled (frame : ParsedFrame) (d : Chronicled) : Chronicled :=
  let r := TradeBridge.handle Lib.sha256 frame (d.1, d.2.1)
  (r.1, r.2, d.2.2 ++ [⟨.command frame, d.2.1⟩])

/-- An event of the link layer, and the moment of it. -/
def happen (e : LinkEvent) (d : Chronicled) : Chronicled :=
  let r := e.act Lib.sha256 (d.1, d.2.1)
  (r.1, r.2, d.2.2 ++ [⟨.link e, d.2.1⟩])

/-- Both parties and the bytes between them, in either direction, with what the host has read so far. -/
structure System where
  device : Chronicled
  toDevice : Bytes
  toHost : Bytes
  /-- The host has sent its offer. -/
  opened : Bool
  /-- What the reads of the host have brought so far. -/
  reads : List Bytes

/-- The device has become `d`: what it sent meanwhile is on its way. -/
def System.after (s : System) (d : Chronicled) : System :=
  { s with
    device := d
    toHost := s.toHost ++ (d.2.1.link.sent.drop s.device.2.1.link.sent.length).flatten }

/-- **One step** of the host `ep` in `trade_once(offered)`, of the device, or of the link layer.  The host
acts on its reads alone, so its own steps are to send the offer and to read. -/
inductive Step (ep : GbLinkEndpoint) (offered : Pokemon100) : System → System → Prop where
  | offer {s : System} {frame : Frame} (hfirst : s.opened = false)
      (hframe : offerFrame ep offered = .ok frame) :
      Step ep offered s { s with opened := true, toDevice := s.toDevice ++ frame.encode }
  | read {s : System} {chunk rest : Bytes} (hopened : s.opened = true) (hchunk : s.toHost = chunk ++ rest)
      (hsize : chunk.length ≤ 512) :
      Step ep offered s { s with toHost := rest, reads := s.reads ++ [chunk] }
  | receive {s : System} {chunk rest : Bytes} (hchunk : s.toDevice = chunk ++ rest) :
      Step ep offered s
        (System.after { s with toDevice := rest } (Codec.feed chronicled chunk s.device))
  | link {s : System} (e : LinkEvent) : Step ep offered s (s.after (happen e s.device))

/-- Where a run starts: the codec is on the transaction of the host, nothing is on its way to the host or half
read, and the transport of the device takes what it is given. -/
structure Start (ep : GbLinkEndpoint) (s : System) : Prop where
  transaction : s.device.1.transactionId = ep.txid
  reliable : s.device.2.1.link.answers = []
  moments : s.device.2.2 = []
  opened : s.opened = false
  toHost : s.toHost = []
  reads : s.reads = []
  buffer : ep.decoder.buffer = []

/-- `trade_once` has returned `r`, run on exactly the reads that the host has made. -/
def Returned (ep : GbLinkEndpoint) (offered : Pokemon100) (s : System) (r : GbaTradeResult) : Prop :=
  ((withReads ep s.reads).call (tradeOnce offered)).1 = .ok r

/-! ## §2 — what the device announces. -/

/-- A frame is true of the moment that announced it: its digests are those of the records that the bridge held
then. -/
structure Moment.Tells (m : Moment) (f : Frame) : Prop where
  ready : f.messageType = .offerReady → ∃ offer, m.deed = .command offer ∧ TradeBridge.ValidOffer offer ∧
    f.payload = offer.payload.getD 0 0 :: Lib.sha256 (offer.payload.drop 1)
  party : f.messageType = .partnerParty → ∃ party, m.deed = .link (.partnerPartyReady party) ∧
    f.payload = party.bytes
  commit : f.messageType = .tradeCommitted → m.deed = .link .committed ∧
    f.payload = Lib.sha256 m.bridge.offer ++ Lib.sha256 m.bridge.selected
  closed : f.messageType = .tradeLinkClosed → m.deed = .link .linkClosed

/-- From `l` to `l'` the transport took the bytes of these frames, one behind the other, and nothing else. -/
structure Sends (l l' : Link) (fs : List Frame) : Prop where
  reliable : l'.answers = []
  bytes : ∃ chunks, l'.sent = l.sent ++ chunks ∧ chunks.flatten = wire Frame.encode fs

theorem Sends.refl {l : Link} (h : l.answers = []) : Sends l l [] := ⟨h, [], by simp, rfl⟩

theorem Sends.trans {l l' l'' : Link} {fs gs : List Frame} (h : Sends l l' fs) (h' : Sends l' l'' gs) :
    Sends l l'' (fs ++ gs) := by
  obtain ⟨chunks, hsent, hbytes⟩ := h.bytes
  obtain ⟨chunks', hsent', hbytes'⟩ := h'.bytes
  refine ⟨h'.reliable, chunks ++ chunks', ?_, ?_⟩
  · rw [hsent', hsent, List.append_assoc]
  · rw [List.flatten_append, hbytes, hbytes', wire_append]

/-- **A send puts its frame on the wire**, or nothing when the payload is too long. -/
theorem TradeBridge.codecSend_sends (t : MessageType) (payload : Bytes) {s : TradeBridge}
    (h : s.2.link.answers = []) :
    ∃ fs, Sends s.2.link (codecSend ⟨t.code⟩ payload s).2.link fs ∧
      ∀ f ∈ fs, f.messageType = t ∧ f.payload = payload := by
  by_cases hlen : Gba.maxPayload < payload.length
  · refine ⟨[], ?_, by simp⟩
    simp only [codecSend, Codec.send, if_pos hlen]
    exact Sends.refl h
  · let f : Frame := ⟨t, s.1.transactionId, (s.1.sendSequence + 1) % 2 ^ 32, payload, by omega, by omega⟩
    have hsend := @codecSend_frame f ⟨t.code⟩ s rfl rfl rfl h
    refine ⟨[f], ?_, ?_⟩
    · rw [show codecSend ⟨t.code⟩ payload s = _ from hsend]
      refine ⟨h, Codec.chunked f.encode, rfl, ?_⟩
      rw [Codec.flatten_chunked]
      simp
    · intro g hg
      rw [List.mem_singleton.mp hg]
      exact ⟨rfl, rfl⟩

/-- A frame of any other type says nothing that the host relies on. -/
theorem Moment.tells_other (m : Moment) {f : Frame}
    (h : f.messageType ∉ [MessageType.offerReady, .partnerParty, .tradeCommitted, .tradeLinkClosed]) :
    m.Tells f := by
  refine ⟨?_, ?_, ?_, ?_⟩
  all_goals
    intro hf
    rw [hf] at h
    exact absurd h (by decide)

/-- **What the handler announces is true of its command.** -/
theorem TradeBridge.handle_tells (frame : ParsedFrame) {s : TradeBridge} (h : s.2.link.answers = []) :
    ∃ fs, Sends s.2.link (handle Lib.sha256 frame s).2.link fs ∧
      ∀ f ∈ fs, Moment.Tells ⟨.command frame, s.2⟩ f := by
  rcases handle_cases Lib.sha256 frame with ⟨-, hc⟩ | ⟨-, hvalid, hc⟩ | ⟨-, -, type, payload, htype, hc⟩
  · obtain ⟨fs, hsends, hfs⟩ := codecSend_sends .hello [] (s := (s.1.setTransaction frame.transactionId, s.2)) h
    refine ⟨fs, by rw [hc]; exact hsends, ?_⟩
    intro f hf
    apply Moment.tells_other
    rw [(hfs f hf).1]
    decide
  · obtain ⟨fs, hsends, hfs⟩ := codecSend_sends .offerReady
      (frame.payload.getD 0 0 :: Lib.sha256 (frame.payload.drop 1)) (s := offered frame s) h
    refine ⟨fs, by rw [hc]; exact hsends, ?_⟩
    intro f hf
    obtain ⟨htype, hpayload⟩ := hfs f hf
    refine ⟨fun _ => ⟨frame, rfl, hvalid, hpayload⟩, ?_, ?_, ?_⟩
    all_goals
      intro hother
      rw [htype] at hother
      exact absurd hother (by decide)
  · have hother : ∀ t : MessageType, type = ⟨t.code⟩ →
        t ∉ [MessageType.offerReady, .partnerParty, .tradeCommitted, .tradeLinkClosed] →
        ∃ fs, Sends s.2.link (handle Lib.sha256 frame s).2.link fs ∧
          ∀ f ∈ fs, Moment.Tells ⟨.command frame, s.2⟩ f := by
      rintro t rfl ht
      obtain ⟨fs, hsends, hfs⟩ := codecSend_sends t payload h
      refine ⟨fs, by rw [hc]; exact hsends, ?_⟩
      intro f hf
      apply Moment.tells_other
      rw [(hfs f hf).1]
      exact ht
    rcases htype with rfl | rfl
    · exact hother .capabilities rfl (by decide)
    · exact hother .error rfl (by decide)

/-- **What a link event announces is true of it.** -/
theorem LinkEvent.act_tells (e : LinkEvent) {s : TradeBridge} (h : s.2.link.answers = []) :
    ∃ fs, Sends s.2.link (e.act Lib.sha256 s).2.link fs ∧ ∀ f ∈ fs, Moment.Tells ⟨.link e, s.2⟩ f := by
  cases e with
  | sessionStarted =>
      obtain ⟨fs, hsends, hfs⟩ := TradeBridge.codecSend_sends .tradeSessionStarted [] h
      refine ⟨fs, hsends, ?_⟩
      intro f hf
      apply Moment.tells_other
      rw [(hfs f hf).1]
      decide
  | partnerPartyReady party =>
      obtain ⟨fs, hsends, hfs⟩ := TradeBridge.codecSend_sends .partnerParty party.bytes h
      refine ⟨fs, hsends, ?_⟩
      intro f hf
      obtain ⟨htype, hpayload⟩ := hfs f hf
      refine ⟨?_, fun _ => ⟨party, rfl, hpayload⟩, ?_, ?_⟩
      all_goals
        intro hother
        rw [htype] at hother
        exact absurd hother (by decide)
  | select party partnerSlot =>
      show ∃ fs, Sends s.2.link (s.select party partnerSlot).2.2.link fs ∧ _
      by_cases hr : s.2.offerReady = false ∨ 5 < partnerSlot
      · obtain ⟨payload, -, herror⟩ := TradeBridge.sendError_eq 4
        rw [TradeBridge.select_refused party hr, herror]
        obtain ⟨fs, hsends, hfs⟩ := TradeBridge.codecSend_sends .error payload h
        refine ⟨fs, hsends, ?_⟩
        intro f hf
        apply Moment.tells_other
        rw [(hfs f hf).1]
        decide
      · rw [TradeBridge.select_taken party hr]
        obtain ⟨fs, hsends, hfs⟩ := TradeBridge.codecSend_sends .partnerSelectedSlot [partnerSlot]
          (s := TradeBridge.chosen party partnerSlot s) h
        obtain ⟨gs, hsends', hgs⟩ := TradeBridge.codecSend_sends .partnerSelectedMon
          (TradeBridge.chosen party partnerSlot s).2.selected hsends.reliable
        refine ⟨fs ++ gs, hsends.trans hsends', ?_⟩
        intro f hf
        apply Moment.tells_other
        rcases List.mem_append.mp hf with hf | hf
        · rw [(hfs f hf).1]
          decide
        · rw [(hgs f hf).1]
          decide
  | committed =>
      obtain ⟨fs, hsends, hfs⟩ := TradeBridge.codecSend_sends .tradeCommitted
        (Lib.sha256 s.2.offer ++ Lib.sha256 s.2.selected) h
      refine ⟨fs, hsends, ?_⟩
      intro f hf
      obtain ⟨htype, hpayload⟩ := hfs f hf
      refine ⟨?_, ?_, fun _ => ⟨rfl, hpayload⟩, ?_⟩
      all_goals
        intro hother
        rw [htype] at hother
        exact absurd hother (by decide)
  | linkClosed =>
      obtain ⟨fs, hsends, hfs⟩ := TradeBridge.codecSend_sends .tradeLinkClosed [0] h
      refine ⟨fs, hsends, ?_⟩
      intro f hf
      refine ⟨?_, ?_, ?_, fun _ => rfl⟩
      all_goals
        intro hother
        rw [(hfs f hf).1] at hother
        exact absurd hother (by decide)

/-- Moments with the frames they announced, each true of its moment; a moment may have announced nothing. -/
def Accounts (groups : List (Moment × List Frame)) : Prop := ∀ g ∈ groups, ∀ f ∈ g.2, g.1.Tells f

/-- What the device did between `d` and `d'` is in its chronicle, and what it sent meanwhile was announced
there, in order. -/
def Grew (d d' : Chronicled) : Prop :=
  d.2.1.link.answers = [] → ∃ groups, d'.2.2 = d.2.2 ++ groups.map Prod.fst ∧
    Sends d.2.1.link d'.2.1.link (groups.flatMap Prod.snd) ∧ Accounts groups

namespace Grew

theorem refl (d : Chronicled) : Grew d d := by
  intro h
  exact ⟨[], by simp, Sends.refl h, by simp [Accounts]⟩

theorem trans {d d' d'' : Chronicled} (h : Grew d d') (h' : Grew d' d'') : Grew d d'' := by
  intro hd
  obtain ⟨groups, hmoments, hsends, haccounts⟩ := h hd
  obtain ⟨groups', hmoments', hsends', haccounts'⟩ := h' hsends.reliable
  refine ⟨groups ++ groups', ?_, ?_, ?_⟩
  · rw [hmoments', hmoments, List.map_append, List.append_assoc]
  · rw [List.flatMap_append]
    exact hsends.trans hsends'
  · intro g hg
    rcases List.mem_append.mp hg with hg | hg
    · exact haccounts g hg
    · exact haccounts' g hg

/-- One moment. -/
theorem single {d d' : Chronicled} {deed : Deed} (hmoments : d'.2.2 = d.2.2 ++ [⟨deed, d.2.1⟩])
    (h : d.2.1.link.answers = [] → ∃ fs, Sends d.2.1.link d'.2.1.link fs ∧
      ∀ f ∈ fs, Moment.Tells ⟨deed, d.2.1⟩ f) : Grew d d' := by
  intro hd
  obtain ⟨fs, hsends, htells⟩ := h hd
  refine ⟨[(⟨deed, d.2.1⟩, fs)], hmoments, ?_, ?_⟩
  · rw [List.flatMap_singleton]
    exact hsends
  · intro g hg
    rw [List.mem_singleton.mp hg]
    exact htells

end Grew

theorem happen_grew (e : LinkEvent) (d : Chronicled) : Grew d (happen e d) :=
  Grew.single rfl fun h => e.act_tells (s := (d.1, d.2.1)) h

theorem chronicled_grew (frame : ParsedFrame) (d : Chronicled) : Grew d (chronicled frame d) :=
  Grew.single rfl fun h => TradeBridge.handle_tells frame (s := (d.1, d.2.1)) h

theorem deliverAll_grew (frames : List ParsedFrame) (d : Chronicled) :
    Grew d (Codec.deliverAll chronicled frames d) := by
  induction frames generalizing d with
  | nil => exact Grew.refl d
  | cons frame frames ih =>
      refine Grew.trans ?_ (ih (Codec.deliver chronicled frame d))
      rw [Codec.deliver]
      split
      · exact Grew.refl d
      · exact chronicled_grew frame ({ d.1 with lastReceivedSequence := frame.sequence }, d.2)

theorem chronicled_local : Codec.Local chronicled := by
  intro frame d rx
  have h := TradeBridge.handle_local Lib.sha256 frame (d.1, d.2.1) rx
  show ((TradeBridge.handle Lib.sha256 frame (Codec.withRx rx (d.1, d.2.1))).1,
    (TradeBridge.handle Lib.sha256 frame (Codec.withRx rx (d.1, d.2.1))).2, _) = _
  rw [h]
  rfl

/-- **Whatever bytes the device is given**, what it sends is accounted for. -/
theorem feed_grew (chunk : Bytes) (d : Chronicled) : Grew d (Codec.feed chronicled chunk d) := by
  have hfeed : Codec.feed chronicled chunk d = Codec.withRx (Codec.received [chunk] d.1.rx).2
      (Codec.deliverAll chronicled (Codec.received [chunk] d.1.rx).1 d) :=
    Codec.feedAll_eq chronicled_local [chunk] d
  rw [hfeed]
  exact deliverAll_grew (Codec.received [chunk] d.1.rx).1 d

/-! ## §3 — the invariant of a run. -/

/-- The bytes that the host has read, and behind them those on their way to it, are what the moments of the
device announced, and so the host can have read nothing else. -/
structure Accounted (s : System) : Prop where
  reliable : s.device.2.1.link.answers = []
  announced : ∃ groups, s.device.2.2 = groups.map Prod.fst ∧ Accounts groups ∧
    wire Frame.encode (groups.flatMap Prod.snd) = s.reads.flatten ++ s.toHost

theorem Start.accounted {ep : GbLinkEndpoint} {s : System} (h : Start ep s) : Accounted s := by
  refine ⟨h.reliable, [], h.moments, by simp [Accounts], ?_⟩
  rw [h.reads, h.toHost]
  rfl

theorem Accounted.after {s : System} {d : Chronicled} (h : Accounted s) (hgrew : Grew s.device d) :
    Accounted (s.after d) := by
  obtain ⟨groups, hmoments, haccounts, hwire⟩ := h.announced
  obtain ⟨groups', hmoments', hsends, haccounts'⟩ := hgrew h.reliable
  obtain ⟨chunks, hsent, hchunks⟩ := hsends.bytes
  refine ⟨hsends.reliable, groups ++ groups', ?_, ?_, ?_⟩
  · show d.2.2 = _
    rw [hmoments', hmoments, List.map_append]
  · intro g hg
    rcases List.mem_append.mp hg with hg | hg
    · exact haccounts g hg
    · exact haccounts' g hg
  · show _ = s.reads.flatten ++ (s.toHost ++ (d.2.1.link.sent.drop s.device.2.1.link.sent.length).flatten)
    rw [List.flatMap_append, wire_append, hwire, hsent, List.drop_left, hchunks, List.append_assoc]

variable {ep : GbLinkEndpoint} {offered : Pokemon100}

theorem Step.accounted {s s' : System} (hstep : Step ep offered s s') (h : Accounted s) : Accounted s' := by
  cases hstep with
  | offer hfirst hframe => exact ⟨h.reliable, h.announced⟩
  | read hopened hchunk hsize =>
      obtain ⟨groups, hmoments, haccounts, hwire⟩ := h.announced
      refine ⟨h.reliable, groups, hmoments, haccounts, ?_⟩
      rw [hwire, hchunk]
      simp
  | receive hchunk => exact Accounted.after ⟨h.reliable, h.announced⟩ (feed_grew _ _)
  | link e => exact h.after (happen_grew e _)

/-- **Every state of a run is accounted for.** -/
theorem run_accounted {s₀ s : System} (hstart : Start ep s₀)
    (hrun : Relation.ReflTransGen (Step ep offered) s₀ s) : Accounted s := by
  induction hrun with
  | refl => exact hstart.accounted
  | tail _ hstep ih => exact hstep.accounted ih

/-! ## §4 — the agreement. -/

/-- The device takes up the offer and acknowledges it with `OFFER_READY`. -/
def Moment.Acknowledges (m : Moment) (offered : Pokemon100) : Prop :=
  ∃ frame, m.deed = .command frame ∧ TradeBridge.ValidOffer frame ∧ frame.payload.drop 1 = offered.raw

/-- The records that the device hashes at a moment. -/
def Moment.records (m : Moment) : List Bytes :=
  match m.deed with
  | .command frame => if frame.type = .setOfferMon then [frame.payload.drop 1] else []
  | .link .committed => [m.bridge.offer, m.bridge.selected]
  | .link _ => []

/-- The records that are hashed in a run, by either party. -/
def hashed (s : System) (offered : Pokemon100) (r : GbaTradeResult) : List Bytes :=
  offered.raw :: r.receivedMon.raw :: s.device.2.2.flatMap Moment.records

/-- No two of the records have the same digest, which is asked of the few records of the run and not of all
records there are. -/
def CollisionFree (records : List Bytes) : Prop :=
  ∀ x ∈ records, ∀ y ∈ records, Lib.sha256 x = Lib.sha256 y → x = y

/-- What comes first in a sublist of the groups comes from one of them, and the rest from there on; it is how
one frame behind another becomes one moment behind another. -/
theorem sublist_flatMap {α β : Type} {g : α → List β} {x : β} {xs : List β} {groups : List α}
    (h : (x :: xs).Sublist (groups.flatMap g)) :
    ∃ a y b, groups = a ++ y :: b ∧ x ∈ g y ∧ xs.Sublist (g y ++ b.flatMap g) := by
  induction groups with
  | nil => exact absurd h (by simp)
  | cons y groups ih =>
      rw [List.flatMap_cons] at h
      obtain ⟨l, l', hsplit, hl, hl'⟩ := List.sublist_append_iff.mp h
      cases l with
      | nil =>
          rw [List.nil_append] at hsplit
          subst hsplit
          obtain ⟨a, z, b, rfl, hx, hxs⟩ := ih hl'
          exact ⟨y :: a, z, b, rfl, hx, hxs⟩
      | cons x' l =>
          rw [List.cons_append] at hsplit
          obtain ⟨rfl, rfl⟩ := List.cons.inj hsplit
          refine ⟨[], y, groups, rfl, hl.subset (by simp), ?_⟩
          exact List.Sublist.append ((List.sublist_cons_self _ _).trans hl) hl'

theorem sublist_behind {β : Type} {x : β} {xs fs gs : List β} (h : (x :: xs).Sublist (fs ++ gs))
    (hx : x ∉ fs) : (x :: xs).Sublist gs := by
  obtain ⟨l, l', hsplit, hl, hl'⟩ := List.sublist_append_iff.mp h
  cases l with
  | nil =>
      rw [List.nil_append] at hsplit
      rw [hsplit]
      exact hl'
  | cons x' l =>
      rw [List.cons_append] at hsplit
      obtain ⟨rfl, -⟩ := List.cons.inj hsplit
      exact absurd (hl.subset (by simp)) hx

/-- **The host picked its frames out of what the moments announced**, in the order in which they were
announced. -/
theorem Returned.picked {s : System} {r : GbaTradeResult} {frames : List Frame} (h : Returned ep offered s r)
    (hbuffer : ep.decoder.buffer = []) (hwire : wire Frame.encode frames = s.reads.flatten ++ s.toHost) :
    ∃ ready party commit closed, [ready, party, commit, closed].Sublist frames ∧
      Gba.Told ep.offerSlot offered ready party commit closed r := by
  obtain ⟨-, -, picks, hpicks, hleads⟩ := Gba.tradeOnce_hears (Gba.call_returns h)
  obtain ⟨ready, party, commit, closed, hsub, htold⟩ := hleads.told
  refine ⟨ready, party, commit, closed, ?_, htold⟩
  have hstream : wire Frame.encode frames = ep.decoder.buffer ++ (s.reads.flatten ++ s.toHost) := by
    rw [hbuffer, List.nil_append, hwire]
  have hbegin := Gba.deliveries_begin hstream
  have hconsumed := Gba.consumed_begin (withReads ep s.reads) ((withReads ep s.reads).call (tradeOnce offered)).2
  exact hsub.trans (hpicks.trans (hconsumed.trans hbegin).sublist)

theorem Moment.mem_hashed {s : System} {r : GbaTradeResult} {m : Moment} (hm : m ∈ s.device.2.2) {x : Bytes}
    (hx : x ∈ m.records) : x ∈ hashed s offered r :=
  List.mem_cons_of_mem _ (List.mem_cons_of_mem _ (List.mem_flatMap.mpr ⟨m, hm, hx⟩))

/-- An acknowledgement whose digest the host has checked acknowledges the host's offer. -/
theorem acknowledges_of_told {s : System} {r : GbaTradeResult} (hfree : CollisionFree (hashed s offered r))
    {m : Moment} (hm : m ∈ s.device.2.2) {f : Frame} (htells : m.Tells f) (htype : f.messageType = .offerReady)
    (hpayload : f.payload = GbLinkEndpoint.expectedReady ep.offerSlot offered) : m.Acknowledges offered := by
  obtain ⟨frame, hdeed, hvalid, hdigest⟩ := htells.ready htype
  rw [hpayload, GbLinkEndpoint.expectedReady] at hdigest
  refine ⟨frame, hdeed, hvalid, ?_⟩
  refine hfree _ (Moment.mem_hashed hm ?_) _ (by simp [hashed]) (List.cons.inj hdigest).2.symm
  simp [Moment.records, hdeed, hvalid.1]

/-- A commit whose digests the host has checked is a commit of the host's offer for the record the host
received. -/
theorem committed_of_told {s : System} {r : GbaTradeResult} (hfree : CollisionFree (hashed s offered r))
    {m : Moment} (hm : m ∈ s.device.2.2) {f : Frame} (htells : m.Tells f)
    (htype : f.messageType = .tradeCommitted)
    (hpayload : f.payload = GbLinkEndpoint.expectedCommit offered r.receivedMon) :
    m.deed = .link .committed ∧ m.bridge.offer = offered.raw ∧ m.bridge.selected = r.receivedMon.raw := by
  obtain ⟨hdeed, hdigests⟩ := htells.commit htype
  rw [hpayload, GbLinkEndpoint.expectedCommit] at hdigests
  obtain ⟨hoffer, hselected⟩ := List.append_inj hdigests (by rw [length_sha256, length_sha256])
  refine ⟨hdeed, ?_, ?_⟩
  · refine hfree _ (Moment.mem_hashed hm ?_) _ (by simp [hashed]) hoffer.symm
    simp [Moment.records, hdeed]
  · refine hfree _ (Moment.mem_hashed hm ?_) _ (by simp [hashed]) hselected.symm
    simp [Moment.records, hdeed]

/-- **Host and device agree on the commit.**  In every run in which `trade_once(offered)` returns `r`, the
device acknowledged the offer, and later committed while its offer was the host's and its selection the
record that the host received; this record is the slice at the selected slot of a party that was reported
to the device; and if the link is said to be closed, the device closed it after that commit. -/
theorem host_device_agree {s₀ s : System} {r : GbaTradeResult} (hstart : Start ep s₀)
    (hrun : Relation.ReflTransGen (Step ep offered) s₀ s) (hreturn : Returned ep offered s r)
    (hfree : CollisionFree (hashed s offered r)) :
    ∃ before ack between commit after,
      s.device.2.2 = before ++ ack :: (between ++ commit :: after) ∧
      ack.Acknowledges offered ∧ commit.deed = .link .committed ∧
      commit.bridge.offer = offered.raw ∧ commit.bridge.selected = r.receivedMon.raw ∧
      (∃ m ∈ between, ∃ party, ∃ slot : Nat, m.deed = .link (.partnerPartyReady party) ∧
        r.selectedSlot = slot ∧
        r.receivedMon.raw = slice party.bytes (slot * 100) ((slot + 1) * 100)) ∧
      (r.linkClosed = true → ∃ m ∈ after, m.deed = .link .linkClosed) := by
  obtain ⟨groups, hmoments, haccounts, hwire⟩ := (run_accounted hstart hrun).announced
  obtain ⟨ready, party, commit, closed, hsub, htold⟩ := hreturn.picked hstart.buffer hwire
  -- the acknowledgement
  obtain ⟨a, ga, rest, rfl, hready, hsub⟩ := sublist_flatMap hsub
  have htells : ∀ g ∈ a ++ ga :: rest, ∀ f ∈ g.2, g.1.Tells f := haccounts
  have hga := htells ga (by simp) ready hready
  obtain ⟨offer, hofferDeed, -⟩ := hga.ready htold.ready_type
  have hparty : party ∉ ga.2 := by
    intro hmem
    obtain ⟨p, hdeed, -⟩ := (htells ga (by simp) party hmem).party htold.party_type
    rw [hofferDeed] at hdeed
    cases hdeed
  -- the party
  obtain ⟨b, gp, rest', rfl, hmem, hsub⟩ := sublist_flatMap (sublist_behind hsub hparty)
  obtain ⟨p, hpartyDeed, hbytes⟩ := (htells gp (by simp) party hmem).party htold.party_type
  have hcommit : commit ∉ gp.2 := by
    intro hmem'
    obtain ⟨hdeed, -⟩ := (htells gp (by simp) commit hmem').commit htold.commit_type
    rw [hpartyDeed] at hdeed
    cases hdeed
  -- the commit
  obtain ⟨c, gc, after, rfl, hmem', hsub⟩ := sublist_flatMap (sublist_behind hsub hcommit)
  have hgc := htells gc (by simp) commit hmem'
  have hin : ∀ g ∈ a ++ ga :: (b ++ gp :: (c ++ gc :: after)), g.1 ∈ s.device.2.2 := by
    intro g hg
    rw [hmoments]
    exact List.mem_map.mpr ⟨g, hg, rfl⟩
  obtain ⟨hdeed, hoffer, hselected⟩ := committed_of_told hfree (hin gc (by simp)) hgc htold.commit_type
    htold.commit_payload
  obtain ⟨slot, hslot, hslice⟩ := htold.received
  refine ⟨a.map Prod.fst, ga.1, (b ++ gp :: c).map Prod.fst, gc.1, after.map Prod.fst, ?_, ?_, hdeed, hoffer,
    hselected, ⟨gp.1, by simp, p, slot, hpartyDeed, hslot, ?_⟩, ?_⟩
  · rw [hmoments]
    simp
  · exact acknowledges_of_told hfree (hin ga (by simp)) hga htold.ready_type htold.ready_payload
  · rw [hslice, hbytes]
  · intro hclosed
    have htype := htold.closed_type hclosed
    rcases List.mem_append.mp (hsub.subset (List.mem_singleton_self closed)) with hmem | hmem
    · have hother := (htells gc (by simp) closed hmem).closed htype
      rw [hdeed] at hother
      cases hother
    · obtain ⟨g, hg, hmem⟩ := List.mem_flatMap.mp hmem
      refine ⟨g.1, List.mem_map.mpr ⟨g, hg, rfl⟩, ?_⟩
      exact (htells g (by simp [hg]) closed hmem).closed htype

/-! ## §5 — a run that returns. -/

namespace Sample

/-- A connected host that has sent nothing yet. -/
def host (txid : Uuid) : GbLinkEndpoint := { Gba.Sample.endpoint with txid := txid }

/-- A device on the transaction of the host. -/
def start (txid : Uuid) : System where
  device := ({ transactionId := txid }, {}, [])
  toDevice := []
  toHost := []
  opened := false
  reads := []

theorem start_ok (txid : Uuid) : Start (host txid) (start txid) := ⟨rfl, rfl, rfl, rfl, rfl, rfl, rfl⟩

section Run

variable {txid : Uuid} {o m : Pokemon100} {selected : Bytes}

/-- The bridge holds the offer and a selection, and it has sent the frames; nothing is waiting to be handled. -/
structure Ready (txid : Uuid) (o : Pokemon100) (selected : Bytes) (b : TradeBridge) (fs : List Frame) : Prop where
  transaction : b.1.transactionId = txid
  sequence : b.1.sendSequence = fs.length
  reliable : b.2.link.answers = []
  sent : b.2.link.sent.flatten = wire Frame.encode fs
  offerReady : b.2.offerReady = true
  offer : b.2.offer = o.raw
  chosen : b.2.selected = selected

theorem Ready.send {b : TradeBridge} {fs : List Frame} (h : Ready txid o selected b fs) (t : MessageType)
    {payload : Bytes} (hlen : payload.length ≤ Gba.maxPayload) (hfew : fs.length + 1 < 2 ^ 32) :
    Ready txid o selected (TradeBridge.codecSend ⟨t.code⟩ payload b)
      (fs ++ [.trimmed t txid (fs.length + 1) payload]) := by
  have hpayload : (Frame.trimmed t txid (fs.length + 1) payload).payload = payload :=
    List.take_of_length_le hlen
  have hseq : (b.1.sendSequence + 1) % 2 ^ 32 = (Frame.trimmed t txid (fs.length + 1) payload).sequence := by
    rw [h.sequence]
    rfl
  have hsend := @TradeBridge.codecSend_frame (.trimmed t txid (fs.length + 1) payload) ⟨t.code⟩ b rfl
    h.transaction hseq h.reliable
  rw [hpayload] at hsend
  rw [hsend]
  refine ⟨h.transaction, ?_, h.reliable, ?_, h.offerReady, h.offer, h.chosen⟩
  · show (fs.length + 1) % 2 ^ 32 = _
    rw [List.length_append, Nat.mod_eq_of_lt hfew]
    rfl
  · show (b.2.link.sent ++ Codec.chunked _).flatten = _
    rw [List.flatten_append, h.sent, Codec.flatten_chunked, wire_append]
    simp

/-- A run from the start has come to `s`, with the frames on their way; no digest was taken of a record that is
neither offered nor received. -/
structure Stands (txid : Uuid) (o m : Pokemon100) (selected : Bytes) (s : System) (fs : List Frame) : Prop where
  run : Relation.ReflTransGen (Step (host txid) o) (start txid) s
  opened : s.opened = true
  reads : s.reads = []
  toHost : s.toHost = wire Frame.encode fs
  ready : Ready txid o selected (s.device.1, s.device.2.1) fs
  records : ∀ x ∈ s.device.2.2.flatMap Moment.records, x = o.raw ∨ x = m.raw

theorem Stands.link {s : System} {fs gs : List Frame} {selected' : Bytes} (h : Stands txid o m selected s fs)
    (e : LinkEvent) (hcommit : e = .committed → selected = m.raw)
    (hready : Ready txid o selected' (e.act Lib.sha256 (s.device.1, s.device.2.1)) (fs ++ gs)) :
    Stands txid o m selected' (s.after (happen e s.device)) (fs ++ gs) := by
  obtain ⟨_, hsends, -⟩ := e.act_tells (s := (s.device.1, s.device.2.1)) h.ready.reliable
  obtain ⟨chunks, hsent, -⟩ := hsends.bytes
  refine ⟨h.run.tail (.link e), h.opened, h.reads, ?_, hready, ?_⟩
  · show s.toHost ++ ((e.act Lib.sha256 (s.device.1, s.device.2.1)).2.link.sent.drop _).flatten = _
    have hall := hready.sent
    rw [hsent, List.flatten_append, h.ready.sent, wire_append] at hall
    rw [hsent, List.drop_left, h.toHost, wire_append, List.append_cancel_left hall]
  · intro x hx
    rw [show (s.after (happen e s.device)).device.2.2 = s.device.2.2 ++ [⟨.link e, s.device.2.1⟩] from rfl,
      List.flatMap_append] at hx
    rcases List.mem_append.mp hx with hx | hx
    · exact h.records x hx
    · cases e with
      | committed =>
          have hx' : x = s.device.2.1.offer ∨ x = s.device.2.1.selected := by
            simpa [Moment.records] using hx
          rcases hx' with rfl | rfl
          · exact Or.inl h.ready.offer
          · exact Or.inr (h.ready.chosen.trans (hcommit rfl))
      | sessionStarted => simp [Moment.records] at hx
      | partnerPartyReady party => simp [Moment.records] at hx
      | select party partnerSlot => simp [Moment.records] at hx
      | linkClosed => simp [Moment.records] at hx

/-- A frame that comes in one chunk. -/
theorem feed_frame (f : Frame) {d : Chronicled} (hrx : d.1.rx = []) :
    Codec.feed chronicled f.encode d = Codec.withRx [] (Codec.deliver chronicled (parsed f) d) := by
  have hfits : Fits Frame.encode maxFrame 0 [f] [f.encode] := by
    refine fits_wire (fun f : Frame => List.flatten_singleton) ?_ ?_
    · intro g piece hp
      rw [List.mem_singleton.mp hp]
      exact g.encode_ne_nil
    · intro g _
      have hpay := g.payload_le
      rw [g.length_encode, maxFrame]
      omega
  have hw : wire Frame.encode [f] = [] ++ [f.encode].flatten := by simp
  have hrec := Codec.received_stream hw (Codec.codec_delimits.short_zero [f]) hfits
  have hfeed := Codec.feedAll_eq chronicled_local [f.encode] d
  rw [hrx, hrec] at hfeed
  exact hfeed

/-- The frame of the host's offer. -/
def offer (txid : Uuid) (o : Pokemon100) : Frame := .trimmed .setOfferMon txid 1 (0 :: o.raw)

theorem offer_payload : (offer txid o).payload = 0 :: o.raw := by
  apply List.take_of_length_le
  rw [List.length_cons, o.size_eq]
  decide

theorem offer_sent : Gba.offerFrame (host txid) o = .ok (offer txid o) := by
  have hcreate := (offer txid o).create_eq
  rw [offer_payload] at hcreate
  exact hcreate

theorem offer_valid : TradeBridge.ValidOffer (parsed (offer txid o)) := by
  have hpayload : (parsed (offer txid o)).payload = 0 :: o.raw := @offer_payload txid o
  refine ⟨rfl, ?_, ?_⟩
  · rw [hpayload, List.length_cons, o.size_eq]
  · rw [hpayload]
    show (0 : UInt8) ≤ 5
    decide

/-- The device takes the offer up. -/
theorem offer_handled (s : TradeBridge) : TradeBridge.handle Lib.sha256 (parsed (offer txid o)) s =
    TradeBridge.codecSend .offerReady (GbLinkEndpoint.expectedReady (host txid).offerSlot o)
      (TradeBridge.offered (parsed (offer txid o)) s) := by
  have hpayload : (parsed (offer txid o)).payload = 0 :: o.raw := @offer_payload txid o
  rcases TradeBridge.handle_cases Lib.sha256 (parsed (offer txid o)) with
    ⟨hhello, -⟩ | ⟨-, -, h⟩ | ⟨-, hnot, -⟩
  · exact absurd (offer_valid.1.symm.trans hhello) (by decide)
  · rw [h, hpayload]
    rfl
  · exact absurd offer_valid hnot

/-- What a device has selected that has not selected anything. -/
def unselected : Bytes := List.replicate 100 0

theorem stands_offered : ∃ s, Stands txid o m unselected s
    [.trimmed .offerReady txid 1 (GbLinkEndpoint.expectedReady (host txid).offerSlot o)] := by
  let b : TradeBridge := ({ transactionId := txid, lastReceivedSequence := 1 }, {})
  have hbefore : Ready txid o unselected (TradeBridge.offered (parsed (offer txid o)) b) [] := by
    refine ⟨rfl, rfl, rfl, rfl, rfl, ?_, rfl⟩
    show (offer txid o).payload.drop 1 = o.raw
    rw [offer_payload]
    rfl
  have hready : Ready txid o unselected (TradeBridge.handle Lib.sha256 (parsed (offer txid o)) b)
      [.trimmed .offerReady txid 1 (GbLinkEndpoint.expectedReady (host txid).offerSlot o)] := by
    rw [offer_handled]
    refine hbefore.send .offerReady ?_ (by decide)
    rw [GbLinkEndpoint.expectedReady, List.length_cons, length_sha256]
    decide
  have hdeliver : Codec.feed chronicled (offer txid o).encode (start txid).device =
      Codec.withRx [] (chronicled (parsed (offer txid o)) (b.1, b.2, [])) := by
    rw [feed_frame (offer txid o) rfl, Codec.deliver, if_neg]
    · rfl
    · rintro (h | h)
      · exact h rfl
      · exact absurd h (by show ¬ 1 ≤ 0; decide)
  have hrun : Relation.ReflTransGen (Step (host txid) o) (start txid)
      (System.after { start txid with opened := true, toDevice := [] }
        (Codec.feed chronicled (offer txid o).encode (start txid).device)) := by
    refine (Relation.ReflTransGen.single (Step.offer rfl offer_sent)).tail ?_
    exact Step.receive (List.append_nil _).symm
  rw [hdeliver] at hrun
  refine ⟨_, hrun, rfl, rfl, hready.sent, ?_, ?_⟩
  · exact ⟨hready.transaction, hready.sequence, hready.reliable, hready.sent, hready.offerReady, hready.offer,
      hready.chosen⟩
  · intro x hx
    left
    have hx' : x = (parsed (offer txid o)).payload.drop 1 := by
      have hmem : x ∈ [⟨.command (parsed (offer txid o)), b.2⟩].flatMap Moment.records := hx
      simpa [Moment.records, (@offer_valid txid o).1] using hmem
    rw [hx']
    show (offer txid o).payload.drop 1 = o.raw
    rw [offer_payload]
    rfl

/-- The frames of a trade, in the order in which the host waits for them, from the acknowledgement of the
offer to the closed link. -/
def spoken (txid : Uuid) (o m : Pokemon100) (p : Party) : List Frame :=
  [.trimmed .offerReady txid 1 (GbLinkEndpoint.expectedReady (host txid).offerSlot o), .trimmed .tradeSessionStarted txid 2 [],
   .trimmed .partnerParty txid 3 p.bytes, .trimmed .partnerSelectedSlot txid 4 [0],
   .trimmed .partnerSelectedMon txid 5 m.raw,
   .trimmed .tradeCommitted txid 6 (Lib.sha256 o.raw ++ Lib.sha256 m.raw),
   .trimmed .tradeLinkClosed txid 7 [0]]

/-- An event that sends one frame. -/
theorem Stands.say {s : System} {fs : List Frame} (h : Stands txid o m selected s fs) {e : LinkEvent}
    (t : MessageType) {payload : Bytes} (hcommit : e ≠ .committed)
    (hact : ∀ b, e.act Lib.sha256 b = TradeBridge.codecSend ⟨t.code⟩ payload b)
    (hlen : payload.length ≤ Gba.maxPayload) (hfew : fs.length + 1 < 2 ^ 32) :
    Stands txid o m selected (s.after (happen e s.device)) (fs ++ [.trimmed t txid (fs.length + 1) payload]) := by
  refine h.link e (fun he => absurd he hcommit) ?_
  rw [hact]
  exact h.ready.send t hlen hfew

theorem Ready.chooses {b : TradeBridge} {fs : List Frame} (h : Ready txid o selected b fs) {p : Party}
    (hslice : slice p.bytes 0 100 = m.raw) : Ready txid o m.raw (TradeBridge.chosen p 0 b) fs :=
  ⟨h.transaction, h.sequence, h.reliable, h.sent, h.offerReady, h.offer, hslice⟩

theorem Stands.chooses {s : System} {fs : List Frame} (h : Stands txid o m selected s fs) {p : Party}
    (hslice : slice p.bytes 0 100 = m.raw) (hfew : fs.length + 2 < 2 ^ 32) :
    Stands txid o m m.raw (s.after (happen (.select p 0) s.device)) (fs ++
      [.trimmed .partnerSelectedSlot txid (fs.length + 1) [0],
       .trimmed .partnerSelectedMon txid (fs.length + 2) m.raw]) := by
  have hchosen := h.ready.chooses hslice
  have hslot := hchosen.send .partnerSelectedSlot (by decide : [(0 : UInt8)].length ≤ Gba.maxPayload) (by omega)
  have hlen : m.raw.length ≤ Gba.maxPayload := by
    rw [m.size_eq]
    decide
  have hmon := hslot.send .partnerSelectedMon hlen (by rw [List.length_append]; exact hfew)
  rw [List.append_assoc, List.length_append] at hmon
  refine h.link (.select p 0) (fun he => by cases he) ?_
  show Ready txid o m.raw (TradeBridge.select p 0 (s.device.1, s.device.2.1)).2 _
  have htaken : ¬ (s.device.2.1.offerReady = false ∨ 5 < (0 : UInt8)) := by
    have hready : s.device.2.1.offerReady = true := h.ready.offerReady
    rw [hready]
    decide
  rw [TradeBridge.select_taken p htaken, hchosen.chosen]
  exact hmon

theorem Stands.commits {s : System} {fs : List Frame} (h : Stands txid o m m.raw s fs)
    (hfew : fs.length + 1 < 2 ^ 32) : Stands txid o m m.raw (s.after (happen .committed s.device))
      (fs ++ [.trimmed .tradeCommitted txid (fs.length + 1) (Lib.sha256 o.raw ++ Lib.sha256 m.raw)]) := by
  have hlen : (Lib.sha256 o.raw ++ Lib.sha256 m.raw).length ≤ Gba.maxPayload := by
    rw [List.length_append, length_sha256, length_sha256]
    decide
  have hsend := h.ready.send .tradeCommitted hlen hfew
  refine h.link .committed (fun _ => rfl) ?_
  show Ready txid o m.raw (TradeBridge.codecSend .tradeCommitted
    (Lib.sha256 s.device.2.1.offer ++ Lib.sha256 s.device.2.1.selected) (s.device.1, s.device.2.1)) _
  rw [show s.device.2.1.offer = o.raw from h.ready.offer,
    show s.device.2.1.selected = m.raw from h.ready.chosen]
  exact hsend

theorem stands_spoken {p : Party} (hslice : slice p.bytes 0 100 = m.raw) :
    ∃ s, Stands txid o m m.raw s (spoken txid o m p) := by
  obtain ⟨s₁, h₁⟩ := @stands_offered txid o m
  have h₂ := h₁.say .tradeSessionStarted (by simp)
    (fun _ => rfl : ∀ b, LinkEvent.act Lib.sha256 .sessionStarted b = _) (Nat.zero_le _) (by simp)
  have h₃ := h₂.say .partnerParty (by simp)
    (fun _ => rfl : ∀ b, LinkEvent.act Lib.sha256 (.partnerPartyReady p) b = _) (by rw [p.size_eq]; decide) (by simp)
  have h₄ := h₃.chooses hslice (by simp)
  have h₅ := h₄.commits (by simp)
  exact ⟨_, h₅.say .tradeLinkClosed (by simp) (fun _ => rfl : ∀ b, LinkEvent.act Lib.sha256 .linkClosed b = _)
    (by decide : [(0 : UInt8)].length ≤ Gba.maxPayload) (by simp)⟩

/-- The host reads what is on its way. -/
theorem reads_run {s : System} (cut : List Bytes) (hopened : s.opened = true) (hcut : s.toHost = cut.flatten)
    (hsize : ∀ data ∈ cut, data.length ≤ 512) :
    Relation.ReflTransGen (Step (host txid) o) s { s with toHost := [], reads := s.reads ++ cut } := by
  induction cut generalizing s with
  | nil =>
      have hnone : s.toHost = [] := hcut
      rw [List.append_nil, ← hnone]
  | cons data cut ih =>
      have hstep : Step (host txid) o s { s with toHost := cut.flatten, reads := s.reads ++ [data] } :=
        Step.read hopened hcut (hsize data (by simp))
      refine Relation.ReflTransGen.head hstep ?_
      have hrest := ih (s := { s with toHost := cut.flatten, reads := s.reads ++ [data] }) hopened rfl
        fun x hx => hsize x (by simp [hx])
      rw [List.append_assoc] at hrest
      exact hrest

/-- **A run that brings the frames of a trade to the host**, cut as one likes. -/
theorem exists_run {p : Party} (hslice : slice p.bytes 0 100 = m.raw) {cut : List Bytes}
    (hcut : cut.flatten = wire Frame.encode (spoken txid o m p)) (hsize : ∀ data ∈ cut, data.length ≤ 512) :
    ∃ s, Relation.ReflTransGen (Step (host txid) o) (start txid) s ∧ s.reads = cut ∧
      ∀ x ∈ s.device.2.2.flatMap Moment.records, x = o.raw ∨ x = m.raw := by
  obtain ⟨s, h⟩ := @stands_spoken txid o m p hslice
  have hread := @reads_run txid o s cut h.opened (by rw [h.toHost, hcut]) hsize
  refine ⟨_, h.run.trans hread, ?_, h.records⟩
  show s.reads ++ cut = cut
  rw [h.reads, List.nil_append]

end Run

open Gba.Sample (endpoint apart apart_streaming flatten_alone new_to_endpoint)

/-- A record to offer, and another one to receive; neither is what the device starts with. -/
def given : Pokemon100 := ⟨List.replicate 100 7, List.length_replicate⟩

def received : Pokemon100 := ⟨List.replicate 100 8, List.length_replicate⟩

def party : Party :=
  ⟨received.raw ++ List.replicate 500 0, by rw [List.length_append, received.size_eq, List.length_replicate]⟩

def exchange : List Frame := spoken endpoint.txid given received party

theorem exchange_cutting : Gba.Cutting endpoint exchange (apart exchange) :=
  ⟨apart_streaming exchange, by decide +kernel⟩

theorem exchange_returns :
    ((withReads endpoint (apart exchange)).call (tradeOnce given)).1 = .ok ⟨⟨given, received, true⟩, 0, true⟩ := by
  have hdevice : Gba.FromDevice endpoint exchange := by
    refine ⟨by decide +kernel, ?_⟩
    unfold Gba.Increasing
    decide +kernel
  rw [Gba.tradeOnce_follow hdevice exchange_cutting.toStreaming (by decide +kernel) (new_to_endpoint exchange)]
  apply Gba.eq_ok_of_outcome
  decide +kernel

/-- The two records are told apart by their digests, which is computed. -/
theorem exchange_collisionFree {records : List Bytes} (h : ∀ x ∈ records, x = given.raw ∨ x = received.raw) :
    CollisionFree records := by
  have hne : Lib.sha256 given.raw ≠ Lib.sha256 received.raw := by decide +kernel
  intro x hx y hy hdigest
  rcases h x hx with rfl | rfl
  · rcases h y hy with rfl | rfl
    · rfl
    · exact absurd hdigest hne
  · rcases h y hy with rfl | rfl
    · exact absurd hdigest.symm hne
    · rfl

/-- A whole trade of two different records: both agree on it, and on the closed link. -/
theorem host_device_agree_exchange :
    ∃ s, Relation.ReflTransGen (Step (host endpoint.txid) given) (start endpoint.txid) s ∧
      Returned (host endpoint.txid) given s ⟨⟨given, received, true⟩, 0, true⟩ ∧
      ∃ before ack between commit after,
        s.device.2.2 = before ++ ack :: (between ++ commit :: after) ∧
        ack.Acknowledges given ∧ commit.deed = .link .committed ∧
        commit.bridge.offer = given.raw ∧ commit.bridge.selected = received.raw ∧
        ∃ m ∈ after, m.deed = .link .linkClosed := by
  obtain ⟨s, hrun, hreads, hrecords⟩ := @exists_run endpoint.txid given received party rfl _
    (flatten_alone exchange) exchange_cutting.size
  have hreturn : Returned (host endpoint.txid) given s ⟨⟨given, received, true⟩, 0, true⟩ := by
    rw [Returned, hreads]
    exact exchange_returns
  have hfree : CollisionFree (hashed s given ⟨⟨given, received, true⟩, 0, true⟩) := by
    refine exchange_collisionFree fun x hx => ?_
    rcases List.mem_cons.mp hx with rfl | hx
    · exact Or.inl rfl
    · rcases List.mem_cons.mp hx with rfl | hx
      · exact Or.inr rfl
      · exact hrecords x hx
  obtain ⟨before, ack, between, commit, after, hmoments, hack, hcommit, hoffer, hselected, -, hclosed⟩ :=
    host_device_agree (start_ok endpoint.txid) hrun hreturn hfree
  exact ⟨s, hrun, hreturn, before, ack, between, commit, after, hmoments, hack, hcommit, hoffer, hselected,
    hclosed rfl⟩

end Sample

end TradeBroker.Firmware
