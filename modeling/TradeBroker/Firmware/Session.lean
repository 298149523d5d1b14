/-
# TradeBroker.Firmware.Session — runs of the device.

A run of the device is any sequence of chunks from the host and events of the link layer.  What a run does
depends on the bytes only through the frames that the codec recognises in them (`run_eq`), so its steps are
frames that arrive and link events that happen.

The HELLO handler starts the transaction of its frame afresh, and that transaction is the one the codec
already has: the filter lets no other through.  Three things follow, each of them by an exact condition.

* The filter forgets what it has seen: a frame behind a HELLO may be an old one.
* The send counter starts again under the same transaction id.
* The offer of the time before the HELLO stays up.

The conditions are about what arrives and what is done, not about values that the device computes.  For
the first, the frames of one transaction are read against their own highest number so far.  For the
second, a HELLO that is taken up has to come before the first send.  For the third, the `select` deeds of
the run are looked at: between a HELLO that comes upon an offer and a `select` of one of the six slots
there must be a valid offer again.  Each section ends with the shortest conversation in which its
condition fails.
-/
import Mathlib.Data.List.Induction
import TradeBroker.Firmware.Delivery

namespace TradeBroker.Firmware

open Lib
open Gba (maxPayload Frame ReplayWindow)

/-! ## §1 — events and steps. -/

/-- What the link layer reports to the bridge: that a session has started, that the partner's party is there,
that the partner has selected a slot of it, that the trade is committed, or that the link was closed. -/
inductive LinkEvent where
  | sessionStarted
  | partnerPartyReady (party : Party)
  | select (party : Party) (partnerSlot : UInt8)
  | committed
  | linkClosed

/-- What the bridge does about it: the method of the class that the link layer calls, its result left out. -/
def LinkEvent.act (sha256 : Bytes → Bytes) : LinkEvent → TradeBridge → TradeBridge
  | .sessionStarted, s => s.sessionStarted
  | .partnerPartyReady party, s => s.partnerPartyReady party
  | .select party partnerSlot, s => (s.select party partnerSlot).2
  | .committed, s => s.committed sha256
  | .linkClosed, s => s.linkClosed

/-- What can happen to a device from outside: a chunk of the host arrives, of any length, or an event of the
link layer is reported. -/
inductive Event where
  | data (bytes : Bytes)
  | link (e : LinkEvent)

/-- The device, its bridge, and the list of the frames that were handed to `handle` so far, which the device
itself does not keep. -/
abbrev Observed : Type := Codec × Bridge × List ParsedFrame

/-- One event: a chunk goes through `feed`, which logs what it hands over, and a link event through its
method. -/
def step (sha256 : Bytes → Bytes) : Event → Observed → Observed
  | .data bytes, s => Codec.feed (Codec.logged (TradeBridge.handle sha256)) bytes s
  | .link e, s =>
      let r := e.act sha256 (s.1, s.2.1)
      (r.1, r.2, s.2.2)

/-- Events, one after the other, from the first to the last. -/
def run (sha256 : Bytes → Bytes) (events : List Event) (s : Observed) : Observed :=
  events.foldl (fun s e => step sha256 e s) s

/-- A frame that passed its CRC arrives, or an event of the link layer happens: a run with its bytes already
read. -/
inductive Happening where
  | frame (f : ParsedFrame)
  | link (e : LinkEvent)

/-- What happens in a run, and the bytes that are left in the buffer at its end.  It depends on the chunks and
on the buffer alone, not on the codec or the bridge. -/
def happenings : List Event → Bytes → List Happening × Bytes
  | [], rx => ([], rx)
  | .data bytes :: events, rx =>
      let r := Codec.received [bytes] rx
      let rs := happenings events r.2
      (r.1.map .frame ++ rs.1, rs.2)
  | .link e :: events, rx =>
      let rs := happenings events rx
      (.link e :: rs.1, rs.2)

/-- One happening: a frame goes through the filter of `deliver`, a link event is acted on. -/
def occur (sha256 : Bytes → Bytes) : Happening → Observed → Observed
  | .frame f, s => Codec.deliver (Codec.logged (TradeBridge.handle sha256)) f s
  | .link e, s => step sha256 (.link e) s

/-- Happenings, one after the other. -/
def occurAll (sha256 : Bytes → Bytes) (hs : List Happening) (s : Observed) : Observed :=
  hs.foldl (fun s h => occur sha256 h s) s

/-! ## §2 — a run is what happens in it. -/

variable (sha256 : Bytes → Bytes)

theorem LinkEvent.act_withRx (e : LinkEvent) (s : TradeBridge) (rx : Bytes) :
    e.act sha256 (Codec.withRx rx s) = Codec.withRx rx (e.act sha256 s) := by
  cases e with
  | sessionStarted => exact TradeBridge.codecSend_withRx _ _ s rx
  | partnerPartyReady party => exact TradeBridge.codecSend_withRx _ _ s rx
  | select party partnerSlot =>
      show (TradeBridge.select party partnerSlot (Codec.withRx rx s)).2 =
        Codec.withRx rx (TradeBridge.select party partnerSlot s).2
      by_cases h : s.2.offerReady = false ∨ 5 < partnerSlot
      · rw [TradeBridge.select_refused party h, TradeBridge.select_refused party (by exact h)]
        exact TradeBridge.codecSend_withRx _ _ s rx
      · rw [TradeBridge.select_taken party h, TradeBridge.select_taken party (by exact h)]
        have hchosen : TradeBridge.chosen party partnerSlot (Codec.withRx rx s) =
            Codec.withRx rx (TradeBridge.chosen party partnerSlot s) := rfl
        rw [hchosen, TradeBridge.codecSend_withRx, TradeBridge.codecSend_withRx]
        rfl
  | committed => exact TradeBridge.codecSend_withRx _ _ s rx
  | linkClosed => exact TradeBridge.codecSend_withRx _ _ s rx

/-- What happens neither reads nor writes the receive buffer. -/
theorem occur_withRx (h : Happening) (s : Observed) (rx : Bytes) :
    occur sha256 h (Codec.withRx rx s) = Codec.withRx rx (occur sha256 h s) := by
  cases h with
  | frame f => exact Codec.deliver_withRx (Codec.logged_local (TradeBridge.handle_local sha256)) f s rx
  | link e =>
      have := e.act_withRx sha256 (s.1, s.2.1) rx
      show ((e.act sha256 (Codec.withRx rx (s.1, s.2.1))).1, (e.act sha256 (Codec.withRx rx (s.1, s.2.1))).2,
        s.2.2) = _
      rw [this]
      rfl

theorem occurAll_withRx (hs : List Happening) (s : Observed) (rx : Bytes) :
    occurAll sha256 hs (Codec.withRx rx s) = Codec.withRx rx (occurAll sha256 hs s) := by
  induction hs generalizing s with
  | nil => rfl
  | cons h hs ih =>
      show occurAll sha256 hs (occur sha256 h (Codec.withRx rx s)) = _
      rw [occur_withRx]
      exact ih _

theorem occurAll_append (hs hs' : List Happening) (s : Observed) :
    occurAll sha256 (hs ++ hs') s = occurAll sha256 hs' (occurAll sha256 hs s) := by
  rw [occurAll, List.foldl_append]
  rfl

theorem occurAll_frames (fs : List ParsedFrame) (s : Observed) :
    occurAll sha256 (fs.map .frame) s =
      Codec.deliverAll (Codec.logged (TradeBridge.handle sha256)) fs s := by
  rw [occurAll, List.foldl_map]
  rfl

/-- **A run is what happens in it.** The device at the end of a run is the one on which everything has
happened that the bytes and the link brought, with the bytes left over in its buffer: the filter and the
handlers never look at the buffer, so the two can be taken one after the other. -/
theorem run_eq (events : List Event) (s : Observed) :
    run sha256 events s = Codec.withRx (happenings events s.1.rx).2
      (occurAll sha256 (happenings events s.1.rx).1 s) := by
  induction events generalizing s with
  | nil => rfl
  | cons e events ih =>
      show run sha256 events (step sha256 e s) = _
      rw [ih]
      cases e with
      | data bytes =>
          have hstep : step sha256 (.data bytes) s = Codec.withRx (Codec.received [bytes] s.1.rx).2
              (Codec.deliverAll (Codec.logged (TradeBridge.handle sha256))
                (Codec.received [bytes] s.1.rx).1 s) :=
            Codec.feedAll_eq (Codec.logged_local (TradeBridge.handle_local sha256)) [bytes] s
          rw [hstep, happenings, occurAll_append, occurAll_frames, occurAll_withRx]
          rfl
      | link e =>
          have hrx : (step sha256 (.link e) s).1.rx = s.1.rx := by
            have := congrArg (fun r => r.1.rx) (e.act_withRx sha256 (s.1, s.2.1) s.1.rx)
            exact this
          rw [hrx, happenings]
          rfl

/-! ## §3 — which frames are handed over. -/

/-- A link event sends, and touches neither the transaction of the codec nor its receive filter. -/
theorem LinkEvent.act_codec (e : LinkEvent) (s : TradeBridge) :
    (e.act sha256 s).1.transactionId = s.1.transactionId ∧
      (e.act sha256 s).1.lastReceivedSequence = s.1.lastReceivedSequence := by
  cases e with
  | sessionStarted => exact TradeBridge.codecSend_codec _ _ s
  | partnerPartyReady party => exact TradeBridge.codecSend_codec _ _ s
  | select party partnerSlot =>
      show (s.select party partnerSlot).2.1.transactionId = _ ∧
        (s.select party partnerSlot).2.1.lastReceivedSequence = _
      by_cases h : s.2.offerReady = false ∨ 5 < partnerSlot
      · rw [TradeBridge.select_refused party h]
        exact TradeBridge.codecSend_codec _ _ s
      · rw [TradeBridge.select_taken party h, (TradeBridge.codecSend_codec _ _ _).1,
          (TradeBridge.codecSend_codec _ _ _).2]
        exact TradeBridge.codecSend_codec _ _ _
  | committed => exact TradeBridge.codecSend_codec _ _ s
  | linkClosed => exact TradeBridge.codecSend_codec _ _ s

/-- The frame of a happening, if it is one. -/
def Happening.frame? : Happening → Option ParsedFrame
  | .frame f => some f
  | .link _ => none

/-- The frames of one transaction that arrive, in order: what `deliver` does not drop at its first test. -/
def arriving (transactionId : Uuid) (hs : List Happening) : List ParsedFrame :=
  (hs.filterMap Happening.frame?).filter (·.transactionId = transactionId)

/-- Those of them that pass the filter when it stands at `last`: a frame with a higher number is taken and
moves the filter to its own number, but a HELLO resets it to zero. -/
def takenUp : Nat → List ParsedFrame → List ParsedFrame
  | _, [] => []
  | last, f :: fs =>
      if f.sequence ≤ last then takenUp last fs
      else f :: takenUp (if f.type = .hello then 0 else f.sequence) fs

/-- **The frames handed over**: the transaction of the codec never changes, since the one HELLO that gets
through carries it already, and what is handed over of its frames is what the filter takes up. -/
theorem handed_occurAll (hs : List Happening) (s : Observed) :
    (occurAll sha256 hs s).2.2 =
      s.2.2 ++ takenUp s.1.lastReceivedSequence (arriving s.1.transactionId hs) := by
  induction hs generalizing s with
  | nil => simp [occurAll, arriving, takenUp]
  | cons h hs ih =>
      show (occurAll sha256 hs (occur sha256 h s)).2.2 = _
      rw [ih]
      cases h with
      | link e =>
          obtain ⟨hid, hlast⟩ := e.act_codec sha256 (s.1, s.2.1)
          show s.2.2 ++ takenUp (e.act sha256 (s.1, s.2.1)).1.lastReceivedSequence
            (arriving (e.act sha256 (s.1, s.2.1)).1.transactionId hs) = _
          rw [hid, hlast]
          rfl
      | frame f =>
          have hcons : arriving s.1.transactionId (.frame f :: hs) =
              if f.transactionId = s.1.transactionId then f :: arriving s.1.transactionId hs
              else arriving s.1.transactionId hs := by
            simp only [arriving, List.filterMap_cons, Happening.frame?, List.filter_cons,
              decide_eq_true_eq]
          rw [hcons]
          by_cases hid : f.transactionId = s.1.transactionId
          · rw [if_pos hid, takenUp]
            by_cases hold : f.sequence ≤ s.1.lastReceivedSequence
            · have hdrop : occur sha256 (.frame f) s = s := if_pos (Or.inr hold)
              rw [hdrop, if_pos hold]
            · have htake : occur sha256 (.frame f) s =
                  Codec.logged (TradeBridge.handle sha256) f
                    ({ s.1 with lastReceivedSequence := f.sequence }, s.2) :=
                if_neg (by rintro (h | h); exacts [h hid, hold h])
              obtain ⟨hid', hlast'⟩ := TradeBridge.handle_codec sha256 f
                ({ s.1 with lastReceivedSequence := f.sequence }, s.2.1)
              have hkeep : (occur sha256 (.frame f) s).1.transactionId = s.1.transactionId := by
                rw [htake]
                refine hid'.trans ?_
                split
                · exact hid
                · rfl
              have hnext : (occur sha256 (.frame f) s).1.lastReceivedSequence =
                  if f.type = .hello then 0 else f.sequence := by
                rw [htake]
                exact hlast'
              have hlog : (occur sha256 (.frame f) s).2.2 = s.2.2 ++ [f] := by
                rw [htake]
                rfl
              rw [hkeep, hnext, hlog, if_neg hold, List.append_assoc, List.singleton_append]
          · have hdrop : occur sha256 (.frame f) s = s := if_pos (Or.inl hid)
            rw [hdrop, if_neg hid]

/-! ## §4 — no command is applied twice. -/

/-- The sequence numbers of the frames grow within each transaction: of two frames of one transaction the
later has the higher number. -/
def InOrder (frames : List ParsedFrame) : Prop :=
  frames.Pairwise fun a b => a.transactionId = b.transactionId → a.sequence < b.sequence

/-- A HELLO that brings a new highest sequence number is followed, frames numbered zero aside, by a frame with
a higher one still.  `last` is the highest number so far; a HELLO that nothing follows is fine. -/
def GoesOnAbove (last : Nat) (frames : List ParsedFrame) : Prop :=
  ∀ before hello between next after, frames = before ++ hello :: (between ++ next :: after) →
    hello.type = .hello → last < hello.sequence → (∀ f ∈ before, f.sequence < hello.sequence) →
    (∀ f ∈ between, f.sequence = 0) → next.sequence ≠ 0 → hello.sequence < next.sequence

/-- The first frame that is not numbered zero is above `mark`.  A filter at zero drops frames numbered zero,
so it is the first one that can get through. -/
def StartsAbove (mark : Nat) (frames : List ParsedFrame) : Prop :=
  ∀ between next after, frames = between ++ next :: after → (∀ f ∈ between, f.sequence = 0) →
    next.sequence ≠ 0 → mark < next.sequence

/-- A frame that is no new highest one asks for nothing. -/
theorem goesOnAbove_old {last : Nat} {f : ParsedFrame} {fs : List ParsedFrame} (h : f.sequence ≤ last) :
    GoesOnAbove last (f :: fs) ↔ GoesOnAbove last fs := by
  constructor
  · intro hg before hello between next after hfs htype hnew hbefore
    refine hg (f :: before) hello between next after (by rw [hfs]; rfl) htype hnew ?_
    intro x hx
    rcases List.mem_cons.mp hx with rfl | hx
    · omega
    · exact hbefore x hx
  · intro hg before hello between next after hfs htype hnew hbefore
    cases before with
    | nil =>
        obtain ⟨rfl, -⟩ := List.cons.inj hfs
        omega
    | cons b before =>
        obtain ⟨rfl, hfs'⟩ := List.cons.inj hfs
        exact hg before hello between next after hfs' htype hnew
          (fun x hx => hbefore x (List.mem_cons_of_mem _ hx))

/-- A new highest frame moves the mark, and asks for more of what follows if it is a HELLO. -/
theorem goesOnAbove_new {last : Nat} {f : ParsedFrame} {fs : List ParsedFrame} (h : last < f.sequence) :
    GoesOnAbove last (f :: fs) ↔
      (f.type = .hello → StartsAbove f.sequence fs) ∧ GoesOnAbove f.sequence fs := by
  constructor
  · intro hg
    refine ⟨?_, ?_⟩
    · intro htype between next after hfs
      exact hg [] f between next after (by rw [hfs]; rfl) htype h (by simp)
    · intro before hello between next after hfs htype hnew hbefore
      refine hg (f :: before) hello between next after (by rw [hfs]; rfl) htype (by omega) ?_
      intro x hx
      rcases List.mem_cons.mp hx with rfl | hx
      · exact hnew
      · exact hbefore x hx
  · rintro ⟨hstart, hg⟩ before hello between next after hfs htype hnew hbefore
    cases before with
    | nil =>
        obtain ⟨rfl, hfs'⟩ := List.cons.inj hfs
        exact hstart htype between next after hfs'
    | cons b before =>
        obtain ⟨rfl, hfs'⟩ := List.cons.inj hfs
        exact hg before hello between next after hfs' htype (hbefore f (by simp))
          (fun x hx => hbefore x (List.mem_cons_of_mem _ hx))

theorem startsAbove_zero {mark : Nat} {f : ParsedFrame} {fs : List ParsedFrame} (h : f.sequence = 0) :
    StartsAbove mark (f :: fs) ↔ StartsAbove mark fs := by
  constructor
  · intro hs between next after hfs hzero
    refine hs (f :: between) next after (by rw [hfs]; rfl) ?_
    intro x hx
    rcases List.mem_cons.mp hx with rfl | hx
    · exact h
    · exact hzero x hx
  · intro hs between next after hfs hzero hne
    cases between with
    | nil =>
        obtain ⟨rfl, -⟩ := List.cons.inj hfs
        exact absurd h hne
    | cons b between =>
        obtain ⟨rfl, hfs'⟩ := List.cons.inj hfs
        exact hs between next after hfs' (fun x hx => hzero x (List.mem_cons_of_mem _ hx)) hne

theorem startsAbove_first {mark : Nat} {f : ParsedFrame} {fs : List ParsedFrame} (h : f.sequence ≠ 0) :
    StartsAbove mark (f :: fs) ↔ mark < f.sequence := by
  constructor
  · intro hs
    exact hs [] f fs rfl (by simp) h
  · intro hlt between next after hfs hzero hne
    cases between with
    | nil =>
        obtain ⟨rfl, -⟩ := List.cons.inj hfs
        exact hlt
    | cons b between =>
        obtain ⟨rfl, -⟩ := List.cons.inj hfs
        exact absurd (hzero f (by simp)) h

/-- The frames climb from `mark`: each is above the one before, and the first is above the mark. -/
def Climbs (mark : Nat) (frames : List ParsedFrame) : Prop :=
  (∀ f ∈ frames, mark < f.sequence) ∧ frames.Pairwise fun a b => a.sequence < b.sequence

theorem climbs_cons {mark : Nat} {f : ParsedFrame} {fs : List ParsedFrame} :
    Climbs mark (f :: fs) ↔ mark < f.sequence ∧ Climbs f.sequence fs := by
  constructor
  · rintro ⟨habove, hpair⟩
    obtain ⟨hf, hfs⟩ := List.pairwise_cons.mp hpair
    exact ⟨habove f (by simp), hf, hfs⟩
  · rintro ⟨hlt, habove, hpair⟩
    refine ⟨?_, List.pairwise_cons.mpr ⟨habove, hpair⟩⟩
    intro g hg
    rcases List.mem_cons.mp hg with rfl | hg
    · exact hlt
    · have := habove g hg
      omega

/-- What the filter lets through climbs exactly when no HELLO is followed by an old frame: with the filter at
the highest number so far, and with the filter that a HELLO of that number has just reset.  The two are
proved together, by induction on the frames, because a HELLO leads from the first to the second and the
next frame leads back. -/
theorem climbs_takenUp (fs : List ParsedFrame) (mark : Nat) :
    (Climbs mark (takenUp mark fs) ↔ GoesOnAbove mark fs) ∧
      (Climbs mark (takenUp 0 fs) ↔ StartsAbove mark fs ∧ GoesOnAbove mark fs) := by
  induction fs generalizing mark with
  | nil =>
      refine ⟨?_, ?_⟩
      · simp [takenUp, Climbs, GoesOnAbove]
      · simp [takenUp, Climbs, GoesOnAbove, StartsAbove]
  | cons f fs ih =>
      -- a frame that is let through, above the mark
      have hnew : mark < f.sequence →
          (Climbs mark (f :: takenUp (if f.type = .hello then 0 else f.sequence) fs) ↔
            GoesOnAbove mark (f :: fs)) := by
        intro hlt
        rw [climbs_cons, goesOnAbove_new hlt]
        by_cases hhello : f.type = .hello
        · rw [if_pos hhello, (ih f.sequence).2]
          simp only [hlt, hhello, true_and, forall_const]
        · rw [if_neg hhello, (ih f.sequence).1]
          simp only [hlt, hhello, true_and, false_implies]
      refine ⟨?_, ?_⟩
      · rw [takenUp]
        by_cases hold : f.sequence ≤ mark
        · rw [if_pos hold, goesOnAbove_old hold]
          exact (ih mark).1
        · rw [if_neg hold]
          exact hnew (by omega)
      · rw [takenUp]
        by_cases hzero : f.sequence = 0
        · rw [if_pos (by omega), startsAbove_zero hzero, goesOnAbove_old (by omega)]
          exact (ih mark).2
        · rw [if_neg (by omega), startsAbove_first hzero]
          by_cases hlt : mark < f.sequence
          · simp only [hlt, true_and]
            exact hnew hlt
          · rw [climbs_cons]
            simp only [hlt, false_and]

theorem takenUp_sublist (last : Nat) (fs : List ParsedFrame) : (takenUp last fs).Sublist fs := by
  induction fs generalizing last with
  | nil => exact List.Sublist.slnil
  | cons f fs ih =>
      rw [takenUp]
      split
      · exact (ih last).cons f
      · exact (ih _).cons_cons f

/-- What the filter lets through starts above it, so that it climbs as soon as it is in order. -/
theorem climbs_of_pairwise {last : Nat} {fs : List ParsedFrame}
    (h : (takenUp last fs).Pairwise fun a b => a.sequence < b.sequence) :
    Climbs last (takenUp last fs) := by
  induction fs with
  | nil => exact ⟨by simp [takenUp], h⟩
  | cons f fs ih =>
      rw [takenUp] at h ⊢
      split at h
      · rename_i hold
        rw [if_pos hold]
        exact ih h
      · rename_i hold
        rw [if_neg hold, climbs_cons]
        exact ⟨by omega, List.pairwise_cons.mp h⟩

/-- **Commands are applied once, in order, exactly when every HELLO with a new highest sequence number is
followed by a frame with a higher one.** `arriving` are the frames of the codec's transaction in the bytes
of the run, cut into chunks in any way, with any link events in between; the device may be in any state. -/
theorem applied_once_iff (events : List Event) (s : TradeBridge) :
    InOrder (run sha256 events (s.1, s.2, [])).2.2 ↔
      GoesOnAbove s.1.lastReceivedSequence
        (arriving s.1.transactionId (happenings events s.1.rx).1) := by
  have hlog : (run sha256 events (s.1, s.2, [])).2.2 = takenUp s.1.lastReceivedSequence
      (arriving s.1.transactionId (happenings events s.1.rx).1) := by
    rw [run_eq]
    show (occurAll sha256 (happenings events s.1.rx).1 (s.1, s.2, [])).2.2 = _
    rw [handed_occurAll, List.nil_append]
  rw [hlog]
  generalize hfs : arriving s.1.transactionId (happenings events s.1.rx).1 = fs
  have hid : ∀ f ∈ fs, f.transactionId = s.1.transactionId := by
    intro f hf
    rw [← hfs, arriving, List.mem_filter, decide_eq_true_eq] at hf
    exact hf.2
  rw [← (climbs_takenUp fs s.1.lastReceivedSequence).1]
  constructor
  · intro h
    refine climbs_of_pairwise (List.Pairwise.imp_of_mem ?_ h)
    intro a b ha hb hab
    exact hab ((hid a ((takenUp_sublist _ _).subset ha)).trans (hid b ((takenUp_sublist _ _).subset hb)).symm)
  · intro h
    refine h.2.imp ?_
    intro a b hab _
    exact hab

namespace Sample

/-- The HELLO of the transaction that a fresh device is in, with sequence 1. -/
def greeting : Frame := .trimmed .hello .nil 1 []

/-- **A HELLO that is sent twice is handled twice.** The handler has reset the filter to zero, so the copy,
with the same number under the same transaction, is taken for a new frame. -/
theorem greeting_applied_twice :
    (run Lib.sha256 [.data greeting.encode, .data greeting.encode] ({}, {}, [])).2.2 =
        [parsed greeting, parsed greeting] ∧
      ¬ InOrder (run Lib.sha256 [.data greeting.encode, .data greeting.encode] ({}, {}, [])).2.2 := by
  have hlog : (run Lib.sha256 [.data greeting.encode, .data greeting.encode] ({}, {}, [])).2.2 =
      [parsed greeting, parsed greeting] := by
    decide +kernel
  refine ⟨hlog, ?_⟩
  rw [hlog, InOrder, List.pairwise_pair]
  intro h
  exact absurd (h rfl) (lt_irrefl _)

end Sample

/-! ## §5 — what the device sends. -/

/-- The frames sent so far are numbered one by one from the first, all under the transaction of the codec, and
the send counter stands at their number. -/
structure Numbered (s : TradeBridge) : Prop where
  sequences : s.2.link.frames.map ParsedFrame.sequence = List.range' 1 s.1.sendSequence
  transaction : ∀ f ∈ s.2.link.frames, f.transactionId = s.1.transactionId

theorem Numbered.length {s : TradeBridge} (h : Numbered s) :
    s.2.link.frames.length = s.1.sendSequence := by
  have := congrArg List.length h.sequences
  rwa [List.length_map, List.length_range'] at this

/-- **What a send does to the numbers**: it records its frame with the next one, or refuses it, since the
payload is too long, and changes nothing. -/
theorem TradeBridge.codecSend_frames (type : Message) (payload : Bytes) (s : TradeBridge) :
    codecSend type payload s = s ∨
      (codecSend type payload s).1 = { s.1 with sendSequence := (s.1.sendSequence + 1) % 2 ^ 32 } ∧
        (codecSend type payload s).2.link.frames = s.2.link.frames ++
          [⟨type, s.1.transactionId, (s.1.sendSequence + 1) % 2 ^ 32, payload⟩] := by
  by_cases hlen : maxPayload < payload.length
  · refine Or.inl ?_
    simp only [codecSend, Codec.send, if_pos hlen]
  · refine Or.inr ⟨?_, ?_⟩
    · simp only [codecSend, Codec.send, if_neg hlen]
    · simp only [codecSend, Codec.send, if_neg hlen]
      exact sendChunks_frames _ _

/-- Frames are only added: what was written to the port stays the beginning of what is written. -/
theorem TradeBridge.codecSend_grows (type : Message) (payload : Bytes) (s : TradeBridge) :
    s.2.link.frames <+: (codecSend type payload s).2.link.frames := by
  rcases codecSend_frames type payload s with h | ⟨-, h⟩
  · exact ⟨[], by rw [h, List.append_nil]⟩
  · exact ⟨_, h.symm⟩

/-- A send keeps the numbering, as long as the counter does not wrap: it has 32 bits, and `2 ^ 32` frames
would bring it back to zero. -/
theorem Numbered.codecSend {s : TradeBridge} (h : Numbered s) (type : Message) (payload : Bytes)
    (hfew : (TradeBridge.codecSend type payload s).2.link.frames.length < 2 ^ 32) :
    Numbered (TradeBridge.codecSend type payload s) := by
  rcases TradeBridge.codecSend_frames type payload s with hs | ⟨hcodec, hframes⟩
  · rw [hs]
    exact h
  · have hlen := h.length
    rw [hframes, List.length_append, List.length_singleton] at hfew
    have hmod : (s.1.sendSequence + 1) % 2 ^ 32 = s.1.sendSequence + 1 := Nat.mod_eq_of_lt (by omega)
    rw [hmod] at hcodec hframes
    refine ⟨?_, ?_⟩
    · rw [hframes, hcodec, List.map_append, h.sequences, List.map_singleton]
      show _ = List.range' 1 (s.1.sendSequence + 1)
      rw [List.range'_concat]
      simp [Nat.add_comm]
    · intro f hf
      rw [hframes] at hf
      rw [hcodec]
      rcases List.mem_append.mp hf with hf | hf
      · exact h.transaction f hf
      · rw [List.mem_singleton.mp hf]

/-- A link event only adds frames, and keeps the numbering: it sends zero, one or two frames through the codec
and never resets the counter. -/
theorem LinkEvent.act_numbered (e : LinkEvent) (s : TradeBridge) :
    s.2.link.frames <+: (e.act sha256 s).2.link.frames ∧
      (Numbered s → (e.act sha256 s).2.link.frames.length < 2 ^ 32 → Numbered (e.act sha256 s)) := by
  have hone : ∀ (type : Message) (payload : Bytes),
      s.2.link.frames <+: (TradeBridge.codecSend type payload s).2.link.frames ∧
        (Numbered s → (TradeBridge.codecSend type payload s).2.link.frames.length < 2 ^ 32 →
          Numbered (TradeBridge.codecSend type payload s)) := by
    intro type payload
    exact ⟨TradeBridge.codecSend_grows type payload s, fun h hfew => h.codecSend type payload hfew⟩
  cases e with
  | sessionStarted => exact hone _ _
  | partnerPartyReady party => exact hone _ _
  | select party partnerSlot =>
      show s.2.link.frames <+: (s.select party partnerSlot).2.2.link.frames ∧
        (Numbered s → (s.select party partnerSlot).2.2.link.frames.length < 2 ^ 32 →
          Numbered (s.select party partnerSlot).2)
      by_cases h : s.2.offerReady = false ∨ 5 < partnerSlot
      · rw [TradeBridge.select_refused party h]
        exact hone _ _
      · rw [TradeBridge.select_taken party h]
        have hfirst := TradeBridge.codecSend_grows .partnerSelectedSlot [partnerSlot]
          (TradeBridge.chosen party partnerSlot s)
        have hsecond := TradeBridge.codecSend_grows .partnerSelectedMon
          (TradeBridge.chosen party partnerSlot s).2.selected
          (TradeBridge.codecSend .partnerSelectedSlot [partnerSlot]
            (TradeBridge.chosen party partnerSlot s))
        refine ⟨hfirst.trans hsecond, ?_⟩
        intro hs hfew
        have hchosen : Numbered (TradeBridge.chosen party partnerSlot s) :=
          ⟨hs.sequences, hs.transaction⟩
        have := hsecond.length_le
        exact (hchosen.codecSend _ _ (by omega)).codecSend _ _ hfew
  | committed => exact hone _ _
  | linkClosed => exact hone _ _

/-- A command only adds frames, and keeps the numbering, unless it is a HELLO, whose handler sets the counter
back before it answers. -/
theorem TradeBridge.handle_numbered (frame : ParsedFrame) (s : TradeBridge) :
    s.2.link.frames <+: (handle sha256 frame s).2.link.frames ∧
      (frame.type ≠ .hello → Numbered s → (handle sha256 frame s).2.link.frames.length < 2 ^ 32 →
        Numbered (handle sha256 frame s)) := by
  have hone : ∀ (type : Message) (payload : Bytes) (s' : TradeBridge), s'.1 = s.1 →
      s'.2.link = s.2.link →
      s.2.link.frames <+: (codecSend type payload s').2.link.frames ∧
        (Numbered s → (codecSend type payload s').2.link.frames.length < 2 ^ 32 →
          Numbered (codecSend type payload s')) := by
    intro type payload s' hcodec hlink
    have hgrows := codecSend_grows type payload s'
    rw [hlink] at hgrows
    refine ⟨hgrows, fun h hfew => Numbered.codecSend ⟨?_, ?_⟩ type payload hfew⟩
    · rw [hlink, hcodec]
      exact h.sequences
    · rw [hlink, hcodec]
      exact h.transaction
  rcases handle_cases sha256 frame with ⟨hhello, h⟩ | ⟨-, -, h⟩ | ⟨-, -, type, payload, -, h⟩
  · rw [h]
    refine ⟨?_, fun hne => absurd hhello hne⟩
    exact codecSend_grows .hello [] (s.1.setTransaction frame.transactionId, s.2)
  · rw [h]
    obtain ⟨hgrows, hkeep⟩ := hone .offerReady
      (frame.payload.getD 0 0 :: sha256 (frame.payload.drop 1)) (offered frame s) rfl rfl
    exact ⟨hgrows, fun _ => hkeep⟩
  · rw [h]
    obtain ⟨hgrows, hkeep⟩ := hone type payload s rfl rfl
    exact ⟨hgrows, fun _ => hkeep⟩

/-- The frame passes the filter: it is of the codec's transaction, and its number is above the last one. -/
def Accepts (c : Codec) (f : ParsedFrame) : Prop :=
  f.transactionId = c.transactionId ∧ c.lastReceivedSequence < f.sequence

theorem occur_accepted {f : ParsedFrame} {s : Observed} (h : Accepts s.1 f) :
    occur sha256 (.frame f) s = Codec.logged (TradeBridge.handle sha256) f
      ({ s.1 with lastReceivedSequence := f.sequence }, s.2) := by
  refine if_neg ?_
  rintro (hid | hold)
  · exact hid h.1
  · exact absurd h.2 (by omega)

theorem occur_dropped {f : ParsedFrame} {s : Observed} (h : ¬ Accepts s.1 f) :
    occur sha256 (.frame f) s = s := by
  refine if_pos ?_
  by_cases hid : f.transactionId = s.1.transactionId
  · refine Or.inr ?_
    by_contra hnew
    exact h ⟨hid, by omega⟩
  · exact Or.inl hid

/-- What happens only adds frames to those that were sent. -/
theorem occur_grows (h : Happening) (s : Observed) :
    s.2.1.link.frames <+: (occur sha256 h s).2.1.link.frames := by
  cases h with
  | link e => exact (e.act_numbered sha256 (s.1, s.2.1)).1
  | frame f =>
      by_cases ha : Accepts s.1 f
      · rw [occur_accepted sha256 ha]
        exact (TradeBridge.handle_numbered sha256 f
          ({ s.1 with lastReceivedSequence := f.sequence }, s.2.1)).1
      · exact ⟨[], by rw [occur_dropped sha256 ha, List.append_nil]⟩

theorem occurAll_grows (hs : List Happening) (s : Observed) :
    s.2.1.link.frames <+: (occurAll sha256 hs s).2.1.link.frames := by
  induction hs generalizing s with
  | nil => exact List.prefix_refl _
  | cons h hs ih => exact (occur_grows sha256 h s).trans (ih _)

/-- A HELLO that is taken up finds the send counter at zero: nothing has been sent yet. -/
def HelloFirst (h : Happening) (s : Observed) : Prop :=
  ∀ f, h = .frame f → f.type = .hello → Accepts s.1 f → s.1.sendSequence = 0

/-- **One step keeps the numbering**, unless it is a HELLO that is taken up when frames have been sent
already. -/
theorem occur_numbered {h : Happening} {s : Observed} (hs : Numbered (s.1, s.2.1))
    (hfew : (occur sha256 h s).2.1.link.frames.length < 2 ^ 32) (hfirst : HelloFirst h s) :
    Numbered ((occur sha256 h s).1, (occur sha256 h s).2.1) := by
  cases h with
  | link e => exact (e.act_numbered sha256 (s.1, s.2.1)).2 hs hfew
  | frame f =>
      by_cases ha : Accepts s.1 f
      · have hs' : Numbered ({ s.1 with lastReceivedSequence := f.sequence }, s.2.1) :=
          ⟨hs.sequences, hs.transaction⟩
        rw [occur_accepted sha256 ha] at hfew ⊢
        by_cases hhello : f.type = .hello
        · -- nothing was sent, so the counter may start again
          have hzero := hfirst f rfl hhello ha
          have hnone : s.2.1.link.frames = [] :=
            List.length_eq_zero_iff.mp (hs.length.trans hzero)
          have hstart : Numbered
              (Codec.setTransaction f.transactionId { s.1 with lastReceivedSequence := f.sequence }, s.2.1) := by
            refine ⟨?_, ?_⟩
            · show s.2.1.link.frames.map _ = List.range' 1 0
              rw [hnone]
              rfl
            · show ∀ g ∈ s.2.1.link.frames, _
              rw [hnone]
              simp
          have hanswer : TradeBridge.handle sha256 f
              ({ s.1 with lastReceivedSequence := f.sequence }, s.2.1) = TradeBridge.codecSend .hello []
                (Codec.setTransaction f.transactionId { s.1 with lastReceivedSequence := f.sequence },
                  s.2.1) := TradeBridge.handle_hello sha256 _ hhello
          show Numbered (TradeBridge.handle sha256 f _)
          rw [hanswer]
          refine hstart.codecSend .hello [] ?_
          rw [← hanswer]
          exact hfew
        · exact (TradeBridge.handle_numbered sha256 f _).2 hhello hs' hfew
      · rw [occur_dropped sha256 ha]
        exact hs

/-- **A HELLO that comes too late is answered with a number that was used**: the answer is numbered 1 under
the same transaction, and so was the first frame. -/
theorem not_inOrder_of_late {f : ParsedFrame} {s : Observed} (hs : Numbered (s.1, s.2.1))
    (hhello : f.type = .hello) (ha : Accepts s.1 f) (hlate : s.1.sendSequence ≠ 0)
    {frames : List ParsedFrame} (hframes : (occur sha256 (.frame f) s).2.1.link.frames <+: frames) :
    ¬ InOrder frames := by
  obtain ⟨tail, rfl⟩ := hframes
  have hanswer : (occur sha256 (.frame f) s).2.1.link.frames =
      s.2.1.link.frames ++ [⟨.hello, f.transactionId, 1, []⟩] := by
    rw [occur_accepted sha256 ha]
    show (TradeBridge.handle sha256 f ({ s.1 with lastReceivedSequence := f.sequence }, s.2.1)).2.link.frames = _
    rw [TradeBridge.handle_hello sha256 _ hhello]
    rcases TradeBridge.codecSend_frames .hello [] (Codec.setTransaction f.transactionId
      { s.1 with lastReceivedSequence := f.sequence }, s.2.1) with h | ⟨-, h⟩
    · have := congrArg (fun r => r.1.sendSequence) h
      simp [TradeBridge.codecSend, Codec.send, Codec.setTransaction] at this
    · exact h
  -- the first frame ever sent has the same number
  obtain ⟨first, rest, hfirst⟩ : ∃ first rest, s.2.1.link.frames = first :: rest := by
    refine List.exists_cons_of_ne_nil ?_
    intro hnil
    have := hs.length
    rw [hnil] at this
    exact hlate this.symm
  have hone : first.sequence = 1 := by
    obtain ⟨n, hn⟩ : ∃ n, s.1.sendSequence = n + 1 := ⟨s.1.sendSequence - 1, by omega⟩
    have := hs.sequences
    rw [hfirst, hn, List.range'_succ] at this
    exact (List.cons.inj this).1
  have hid : first.transactionId = f.transactionId := by
    rw [ha.1]
    exact hs.transaction first (by rw [hfirst]; simp)
  intro hin
  rw [hanswer, hfirst] at hin
  have := (List.pairwise_cons.mp hin).1 ⟨.hello, f.transactionId, 1, []⟩ (by simp) hid
  simp only at this
  omega

/-- Frames that are numbered one by one are in order. -/
theorem Numbered.inOrder {s : TradeBridge} (h : Numbered s) : InOrder s.2.link.frames := by
  have hinc : (s.2.link.frames.map ParsedFrame.sequence).Pairwise (· < ·) := by
    rw [h.sequences]
    exact List.pairwise_lt_range'
  rw [List.pairwise_map] at hinc
  refine hinc.imp ?_
  intro a b hab _
  exact hab

/-- A run keeps the numbering exactly when no HELLO comes too late: one way by induction over the run, the
other because what was sent can never be taken back. -/
theorem inOrder_occurAll_iff (hs : List Happening) {s : Observed} (h : Numbered (s.1, s.2.1))
    (hfew : (occurAll sha256 hs s).2.1.link.frames.length < 2 ^ 32) :
    InOrder (occurAll sha256 hs s).2.1.link.frames ↔
      ∀ before now after, hs = before ++ now :: after → HelloFirst now (occurAll sha256 before s) := by
  induction hs generalizing s with
  | nil =>
      refine ⟨?_, fun _ => h.inOrder⟩
      intro _ before now after hnil
      simp at hnil
  | cons now hs ih =>
      have hgrows := occurAll_grows sha256 hs (occur sha256 now s)
      by_cases hfirst : HelloFirst now s
      · have hnext := occur_numbered sha256 h (lt_of_le_of_lt hgrows.length_le hfew) hfirst
        show InOrder (occurAll sha256 hs (occur sha256 now s)).2.1.link.frames ↔ _
        rw [ih hnext hfew]
        constructor
        · intro hlater before x after hsplit
          cases before with
          | nil =>
              obtain ⟨rfl, -⟩ := List.cons.inj hsplit
              exact hfirst
          | cons b before =>
              obtain ⟨rfl, hsplit'⟩ := List.cons.inj hsplit
              exact hlater before x after hsplit'
        · intro hall before x after hsplit
          exact hall (now :: before) x after (by rw [hsplit]; rfl)
      · refine ⟨?_, ?_⟩
        · intro hin
          refine absurd hin ?_
          simp only [HelloFirst, not_forall] at hfirst
          obtain ⟨f, rfl, hhello, ha, hlate⟩ := hfirst
          exact not_inOrder_of_late sha256 h hhello ha hlate hgrows
        · intro hall
          exact absurd (hall [] now hs rfl) hfirst

/-! The host can name every frame that the device sends. -/

/-- What was sent can be read by the host: each frame has a message type that the host's table knows. -/
def Nameable (s : TradeBridge) : Prop := ∃ fs : List Frame, fs.map parsed = s.2.link.frames

theorem Nameable.codecSend {s : TradeBridge} (h : Nameable s) {type : Message} (payload : Bytes)
    (htype : type ∈ Message.all) : Nameable (TradeBridge.codecSend type payload s) := by
  by_cases hlen : maxPayload < payload.length
  · have hrefuse : TradeBridge.codecSend type payload s = s := by
      simp only [TradeBridge.codecSend, Codec.send, if_pos hlen]
    rw [hrefuse]
    exact h
  · obtain ⟨fs, hfs⟩ := h
    rw [Message.all_eq] at htype
    obtain ⟨t, -, rfl⟩ := List.mem_map.mp htype
    refine ⟨fs ++ [⟨t, s.1.transactionId, (s.1.sendSequence + 1) % 2 ^ 32, payload, by omega, by omega⟩], ?_⟩
    rw [List.map_append, hfs]
    simp only [TradeBridge.codecSend, Codec.send, if_neg hlen]
    rw [TradeBridge.sendChunks_frames]
    rfl

theorem LinkEvent.act_nameable (e : LinkEvent) {s : TradeBridge} (h : Nameable s) :
    Nameable (e.act sha256 s) := by
  cases e with
  | sessionStarted => exact h.codecSend _ (by decide)
  | partnerPartyReady party => exact h.codecSend _ (by decide)
  | select party partnerSlot =>
      show Nameable (s.select party partnerSlot).2
      by_cases hr : s.2.offerReady = false ∨ 5 < partnerSlot
      · rw [TradeBridge.select_refused party hr]
        exact h.codecSend _ (by decide)
      · rw [TradeBridge.select_taken party hr]
        have hchosen : Nameable (TradeBridge.chosen party partnerSlot s) := h
        exact (hchosen.codecSend _ (by decide)).codecSend _ (by decide)
  | committed => exact h.codecSend _ (by decide)
  | linkClosed => exact h.codecSend _ (by decide)

theorem TradeBridge.handle_nameable (frame : ParsedFrame) {s : TradeBridge} (h : Nameable s) :
    Nameable (handle sha256 frame s) := by
  rcases handle_cases sha256 frame with ⟨-, hc⟩ | ⟨-, -, hc⟩ | ⟨-, -, type, payload, htype, hc⟩
  · rw [hc]
    have hstart : Nameable (s.1.setTransaction frame.transactionId, s.2) := h
    exact hstart.codecSend _ (by decide)
  · rw [hc]
    have hoffered : Nameable (offered frame s) := h
    exact hoffered.codecSend _ (by decide)
  · rw [hc]
    rcases htype with rfl | rfl
    · exact h.codecSend _ (by decide)
    · exact h.codecSend _ (by decide)

theorem occurAll_nameable (hs : List Happening) {s : Observed} (h : Nameable (s.1, s.2.1)) :
    Nameable ((occurAll sha256 hs s).1, (occurAll sha256 hs s).2.1) := by
  induction hs generalizing s with
  | nil => exact h
  | cons now hs ih =>
      refine ih (s := occur sha256 now s) ?_
      cases now with
      | link e => exact e.act_nameable sha256 h
      | frame f =>
          by_cases ha : Accepts s.1 f
          · rw [occur_accepted sha256 ha]
            have hs' : Nameable ({ s.1 with lastReceivedSequence := f.sequence }, s.2.1) := h
            exact TradeBridge.handle_nameable sha256 f hs'
          · rw [occur_dropped sha256 ha]
            exact h

/-- **The events of the device are numbered upwards, and none is mistaken for a replay, exactly when every
HELLO that is taken up comes before the device has sent anything.** A device that has not sent yet, any
chunks and link events, fewer than `2 ^ 32` frames; the replay window is that of the host's decoder,
reading what the device has sent. -/
theorem events_in_order_iff (events : List Event) (s : TradeBridge) (hzero : s.1.sendSequence = 0)
    (hnone : s.2.link.frames = [])
    (hfew : (run sha256 events (s.1, s.2, [])).2.1.link.frames.length < 2 ^ 32) :
    (InOrder (run sha256 events (s.1, s.2, [])).2.1.link.frames ∧
      ∃ fs : List Frame, fs.map parsed = (run sha256 events (s.1, s.2, [])).2.1.link.frames ∧
        (ReplayWindow.acceptAll fs {}).1 = .ok ()) ↔
      ∀ before f after, (happenings events s.1.rx).1 = before ++ .frame f :: after →
        f.type = .hello → Accepts (occurAll sha256 before (s.1, s.2, [])).1 f →
        (occurAll sha256 before (s.1, s.2, [])).1.sendSequence = 0 := by
  have hrun : (run sha256 events (s.1, s.2, [])).2.1 =
      (occurAll sha256 (happenings events s.1.rx).1 (s.1, s.2, [])).2.1 := by
    rw [run_eq]
    rfl
  have hstart : Numbered (s.1, s.2) := by
    refine ⟨?_, ?_⟩
    · show s.2.link.frames.map _ = List.range' 1 s.1.sendSequence
      rw [hnone, hzero]
      rfl
    · show ∀ f ∈ s.2.link.frames, _
      rw [hnone]
      simp
  rw [hrun] at hfew ⊢
  have hiff := inOrder_occurAll_iff sha256 (happenings events s.1.rx).1 (s := (s.1, s.2, [])) hstart hfew
  constructor
  · rintro ⟨hin, -⟩ before f after hsplit hhello ha
    exact hiff.mp hin before (.frame f) after hsplit f rfl hhello ha
  · intro hcond
    have hin := hiff.mpr (by
      intro before now after hsplit f hnow hhello ha
      subst hnow
      exact hcond before f after hsplit hhello ha)
    have hname : Nameable (s.1, s.2) := ⟨[], by rw [hnone]; rfl⟩
    obtain ⟨fs, hfs⟩ := occurAll_nameable sha256 (happenings events s.1.rx).1 (s := (s.1, s.2, [])) hname
    refine ⟨hin, fs, hfs, ReplayWindow.acceptAll_increasing ?_ (by simp)⟩
    have hin' : InOrder (fs.map parsed) := by
      rw [hfs]
      exact hin
    rw [InOrder, List.pairwise_map] at hin'
    exact hin'

namespace Sample

/-- What one endpoint writes that connects, closes and connects again: a request for the capabilities with
sequence `n`, between the two HELLOs and behind the second. -/
def capabilitiesRequest (n : Nat) : Frame := .trimmed .getCapabilities .nil n []

/-- The second HELLO, with the number that the host's counter has reached. -/
def greetingAgain : Frame := .trimmed .hello .nil 3 []

/-- The four frames of such a host, each in a chunk of its own. -/
def reconnect : List Event :=
  [.data greeting.encode, .data (capabilitiesRequest 2).encode, .data greetingAgain.encode,
   .data (capabilitiesRequest 4).encode]

/-- The answers of the device: they are numbered 1, 2, and then 1, 2 again. -/
def reconnectAnswers : List Frame :=
  [.trimmed .hello .nil 1 [], .trimmed .capabilities .nil 2 [0x3f, 0, 0, 0], .trimmed .hello .nil 1 [],
   .trimmed .capabilities .nil 2 [0x3f, 0, 0, 0]]

theorem reconnect_frames :
    (run Lib.sha256 reconnect (TradeBridge.fresh.1, TradeBridge.fresh.2, [])).2.1.link.frames = reconnectAnswers.map parsed := by
  decide +kernel

theorem reconnect_not_inOrder :
    ¬ InOrder (run Lib.sha256 reconnect (TradeBridge.fresh.1, TradeBridge.fresh.2, [])).2.1.link.frames := by
  rw [reconnect_frames]
  intro hin
  have := (List.pairwise_cons.mp hin).1 (parsed (.trimmed .hello .nil 1 [])) (by decide) rfl
  exact absurd this (lt_irrefl _)

/-- **A second HELLO makes the device repeat its numbers**, and the replay window of the host refuses the
answer, although it is a new one to a new question. -/
theorem reconnect_taken_for_replay :
    (run Lib.sha256 reconnect (TradeBridge.fresh.1, TradeBridge.fresh.2, [])).2.1.link.frames = reconnectAnswers.map parsed ∧
      ¬ InOrder (run Lib.sha256 reconnect (TradeBridge.fresh.1, TradeBridge.fresh.2, [])).2.1.link.frames ∧
      (ReplayWindow.acceptAll reconnectAnswers {}).1 ≠ .ok () :=
  ⟨reconnect_frames, reconnect_not_inOrder, by decide +kernel⟩

theorem events_in_order_iff_reconnect :
    (run Lib.sha256 reconnect (TradeBridge.fresh.1, TradeBridge.fresh.2, [])).2.1.link.frames.length < 2 ^ 32 ∧
      ¬ ∀ before f after, (happenings reconnect TradeBridge.fresh.1.rx).1 = before ++ .frame f :: after →
        f.type = .hello → Accepts (occurAll Lib.sha256 before (TradeBridge.fresh.1, TradeBridge.fresh.2, [])).1 f →
        (occurAll Lib.sha256 before (TradeBridge.fresh.1, TradeBridge.fresh.2, [])).1.sendSequence = 0 := by
  have hfew : (run Lib.sha256 reconnect (TradeBridge.fresh.1, TradeBridge.fresh.2, [])).2.1.link.frames.length < 2 ^ 32 := by
    rw [reconnect_frames]
    decide
  refine ⟨hfew, ?_⟩
  intro hcond
  exact reconnect_not_inOrder
    ((events_in_order_iff Lib.sha256 reconnect TradeBridge.fresh rfl rfl hfew).mpr hcond).1

end Sample

/-! ## §6 — the offer. -/

/-- A command that is handled, or an event of the link layer: what changes the bridge, with the filter of the
codec already behind it. -/
inductive Deed where
  | command (frame : ParsedFrame)
  | link (e : LinkEvent)

/-- What a deed does to the device: the handler for a command, the method for an event. -/
def Deed.act : Deed → TradeBridge → TradeBridge
  | .command frame, s => TradeBridge.handle sha256 frame s
  | .link e, s => e.act sha256 s

/-- Deeds, one after the other, from the first to the last. -/
def actAll (deeds : List Deed) (s : TradeBridge) : TradeBridge :=
  deeds.foldl (fun s d => d.act sha256 s) s

/-- A `select` that puts the offer up: it announces the partner's slot and record to the host and returns the
slot of the offer, instead of an error. -/
def PutsUp (party : Party) (partnerSlot : UInt8) (s : TradeBridge) : Prop :=
  (s.select party partnerSlot).1 = s.2.offerSlot ∧
    (s.select party partnerSlot).2.2.link.frames.map ParsedFrame.type =
      s.2.link.frames.map ParsedFrame.type ++ [.partnerSelectedSlot, .partnerSelectedMon]

/-- Since the last HELLO, a valid offer was handled: there is one among the deeds that no HELLO follows. -/
def OfferedSinceHello (deeds : List Deed) : Prop :=
  ∃ before frame after, deeds = before ++ .command frame :: after ∧ TradeBridge.ValidOffer frame ∧
    ∀ d ∈ after, ∀ f, d = .command f → f.type ≠ .hello

theorem TradeBridge.codecSend_bridge (type : Message) (payload : Bytes) (s : TradeBridge) :
    (codecSend type payload s).2 = { s.2 with link := (codecSend type payload s).2.link } := rfl

/-- A send with a payload that fits adds a frame of its type. -/
theorem TradeBridge.codecSend_types {type : Message} {payload : Bytes} (s : TradeBridge)
    (hlen : payload.length ≤ maxPayload) :
    (codecSend type payload s).2.link.frames.map ParsedFrame.type =
      s.2.link.frames.map ParsedFrame.type ++ [type] := by
  have hnot : ¬ maxPayload < payload.length := by omega
  simp only [codecSend, Codec.send, if_neg hnot]
  rw [sendChunks_frames, List.map_append, List.map_singleton]

/-- A `select` puts the offer up exactly when one is ready and the slot is one of six; nothing else is looked
at, not even whether the offer is of this transaction. -/
theorem putsUp_iff (party : Party) (partnerSlot : UInt8) (s : TradeBridge) :
    PutsUp party partnerSlot s ↔ s.2.offerReady = true ∧ partnerSlot ≤ 5 := by
  by_cases h : s.2.offerReady = false ∨ 5 < partnerSlot
  · have hno : ¬ (s.2.offerReady = true ∧ partnerSlot ≤ 5) := by
      rintro ⟨hready, hslot⟩
      rcases h with h | h
      · rw [hready] at h
        exact absurd h (by decide)
      · exact absurd h (UInt8.not_lt.mpr hslot)
    refine iff_of_false ?_ hno
    rintro ⟨-, htypes⟩
    obtain ⟨payload, hlen, herror⟩ := TradeBridge.sendError_eq 4
    rw [TradeBridge.select_refused party h, herror,
      TradeBridge.codecSend_types s (by rw [hlen]; decide)] at htypes
    have := congrArg List.length htypes
    simp at this
  · have hyes : s.2.offerReady = true ∧ partnerSlot ≤ 5 := by
      rw [not_or, Bool.not_eq_false, UInt8.not_lt] at h
      exact h
    refine iff_of_true ⟨?_, ?_⟩ hyes
    · rw [TradeBridge.select, if_neg h]
      rfl
    · have hlen : (TradeBridge.chosen party partnerSlot s).2.selected.length ≤ maxPayload := by
        have hslice := length_slice_le party.bytes (partnerSlot.toNat * 100) 100
        have hend : partnerSlot.toNat * 100 + 100 = (partnerSlot.toNat + 1) * 100 := by omega
        rw [hend] at hslice
        exact hslice.trans (by decide)
      have hone : [partnerSlot].length ≤ maxPayload := by
        show 1 ≤ maxPayload
        decide
      rw [TradeBridge.select_taken party h, TradeBridge.codecSend_types _ hlen,
        TradeBridge.codecSend_types _ hone, List.append_assoc]
      rfl

/-- **What a deed does to the offer**: a valid offer makes one ready, and nothing takes it down, neither a
HELLO nor the end of the link. -/
theorem Deed.act_offerReady (d : Deed) (s : TradeBridge) :
    (d.act sha256 s).2.offerReady = true ↔
      s.2.offerReady = true ∨ ∃ frame, d = .command frame ∧ TradeBridge.ValidOffer frame := by
  cases d with
  | command frame =>
      show (TradeBridge.handle sha256 frame s).2.offerReady = true ↔ _
      rcases TradeBridge.handle_cases sha256 frame with
        ⟨hhello, h⟩ | ⟨-, hvalid, h⟩ | ⟨-, hvalid, type, payload, -, h⟩
      · rw [h, TradeBridge.codecSend_bridge]
        refine ⟨Or.inl, ?_⟩
        rintro (hready | ⟨f, hf, hoffer⟩)
        · exact hready
        · obtain rfl := Deed.command.inj hf
          have := hoffer.1
          rw [hhello] at this
          exact absurd this (by decide)
      · rw [h, TradeBridge.codecSend_bridge]
        exact iff_of_true rfl (Or.inr ⟨frame, rfl, hvalid⟩)
      · rw [h, TradeBridge.codecSend_bridge]
        refine ⟨Or.inl, ?_⟩
        rintro (hready | ⟨f, hf, hoffer⟩)
        · exact hready
        · obtain rfl := Deed.command.inj hf
          exact absurd hoffer hvalid
  | link e =>
      have hsame : (e.act sha256 s).2.offerReady = s.2.offerReady := by
        cases e with
        | select party partnerSlot =>
            show (s.select party partnerSlot).2.2.offerReady = _
            by_cases h : s.2.offerReady = false ∨ 5 < partnerSlot
            · rw [TradeBridge.select_refused party h]
              rfl
            · rw [TradeBridge.select_taken party h]
              rfl
        | sessionStarted => rfl
        | partnerPartyReady party => rfl
        | committed => rfl
        | linkClosed => rfl
      show (e.act sha256 s).2.offerReady = true ↔ _
      rw [hsame]
      refine ⟨Or.inl, ?_⟩
      rintro (hready | ⟨f, hf, -⟩)
      · exact hready
      · cases hf

theorem actAll_concat (deeds : List Deed) (d : Deed) (s : TradeBridge) :
    actAll sha256 (deeds ++ [d]) s = d.act sha256 (actAll sha256 deeds s) := by
  rw [actAll, List.foldl_append]
  rfl

/-- Among the deeds there is a valid offer: 101 bytes, the first of them a slot of the party. -/
def Offered (deeds : List Deed) : Prop := ∃ frame, .command frame ∈ deeds ∧ TradeBridge.ValidOffer frame

/-- **An offer is ready exactly when there has ever been a valid one** since the device was switched on. -/
theorem offerReady_iff (deeds : List Deed) :
    (actAll sha256 deeds TradeBridge.fresh).2.offerReady = true ↔ Offered deeds := by
  induction deeds using List.reverseRecOn with
  | nil =>
      refine iff_of_false Bool.false_ne_true ?_
      rintro ⟨frame, hframe, -⟩
      cases hframe
  | append_singleton deeds d ih =>
      rw [actAll_concat, Deed.act_offerReady, ih]
      constructor
      · rintro (⟨frame, hframe, hvalid⟩ | ⟨frame, rfl, hvalid⟩)
        · exact ⟨frame, List.mem_append_left _ hframe, hvalid⟩
        · exact ⟨frame, by simp, hvalid⟩
      · rintro ⟨frame, hframe, hvalid⟩
        rcases List.mem_append.mp hframe with hframe | hframe
        · exact Or.inl ⟨frame, hframe, hvalid⟩
        · exact Or.inr ⟨frame, (List.mem_singleton.mp hframe).symm, hvalid⟩

/-- No HELLO is among the deeds. -/
def NoHello (deeds : List Deed) : Prop := ∀ d ∈ deeds, ∀ f, d = .command f → f.type ≠ .hello

/-- A run has no HELLO, or it has a latest one, behind which there is none. -/
theorem noHello_or_latest (deeds : List Deed) :
    NoHello deeds ∨ ∃ before hello after, deeds = before ++ .command hello :: after ∧
      hello.type = .hello ∧ NoHello after := by
  induction deeds with
  | nil => exact Or.inl fun d hd => by cases hd
  | cons d deeds ih =>
      rcases ih with hno | ⟨before, hello, after, rfl, hhello, hafter⟩
      · by_cases hd : ∃ f, d = .command f ∧ f.type = .hello
        · obtain ⟨f, rfl, hf⟩ := hd
          exact Or.inr ⟨[], f, deeds, rfl, hf, hno⟩
        · refine Or.inl fun x hx f hf hhello => ?_
          rcases List.mem_cons.mp hx with rfl | hx
          · exact hd ⟨f, hf, hhello⟩
          · exact hno x hx f hf hhello
      · exact Or.inr ⟨d :: before, hello, after, rfl, hhello, hafter⟩

/-- An offer among deeds without a HELLO is one since the last HELLO. -/
theorem OfferedSinceHello.of_offered {before after : List Deed} (h : Offered after) (hno : NoHello after) :
    OfferedSinceHello (before ++ after) := by
  obtain ⟨frame, hframe, hvalid⟩ := h
  obtain ⟨earlier, later, rfl⟩ := List.append_of_mem hframe
  refine ⟨before ++ earlier, frame, later, by simp, hvalid, ?_⟩
  intro d hd
  exact hno d (by simp [hd])

/-- What was offered since the last HELLO was offered behind every HELLO, whichever one looks at. -/
theorem OfferedSinceHello.behind {before after : List Deed} {hello : ParsedFrame}
    (h : OfferedSinceHello (before ++ .command hello :: after)) (hhello : hello.type = .hello) :
    Offered after := by
  obtain ⟨earlier, frame, later, hsplit, hvalid, hlater⟩ := h
  have hne : Deed.command frame ≠ .command hello := by
    intro hsame
    obtain rfl := Deed.command.inj hsame
    have htype := hvalid.1
    rw [hhello] at htype
    exact absurd htype (by decide)
  rcases List.append_eq_append_iff.mp hsplit with ⟨gap, -, hgap⟩ | ⟨gap, -, hgap⟩
  · -- the offer is behind the HELLO
    cases gap with
    | nil => exact absurd (List.cons.inj hgap).1.symm hne
    | cons d gap =>
        obtain ⟨-, rfl⟩ := List.cons.inj hgap
        exact ⟨frame, by simp, hvalid⟩
  · -- the HELLO is behind the offer
    cases gap with
    | nil => exact absurd (List.cons.inj hgap).1 hne
    | cons d gap =>
        obtain ⟨-, rfl⟩ := List.cons.inj hgap
        exact absurd hhello (hlater (.command hello) (by simp) hello rfl)

/-- **No stale offer is put up exactly when every offer is renewed.** Whatever commands and link events a
device handles: every `select` of the run that puts the offer up finds a valid one since the last HELLO,
if and only if between a HELLO behind an offer and a `select` of one of the six slots there is a valid
offer again.  A run that never selects in between meets the condition, however often it greets. -/
theorem offers_fresh_iff (deeds : List Deed) :
    (∀ before party partnerSlot after, deeds = before ++ .link (.select party partnerSlot) :: after →
      PutsUp party partnerSlot (actAll sha256 before TradeBridge.fresh) → OfferedSinceHello before) ↔
      ∀ before hello between party partnerSlot after,
        deeds = before ++ .command hello :: (between ++ .link (.select party partnerSlot) :: after) →
        hello.type = .hello → Offered before → partnerSlot ≤ 5 → Offered between := by
  constructor
  · intro hfresh before hello between party partnerSlot after hsplit hhello hoffer hslot
    have hup : PutsUp party partnerSlot
        (actAll sha256 (before ++ .command hello :: between) TradeBridge.fresh) := by
      obtain ⟨frame, hframe, hvalid⟩ := hoffer
      rw [putsUp_iff, offerReady_iff]
      exact ⟨⟨frame, List.mem_append_left _ hframe, hvalid⟩, hslot⟩
    have hsince := hfresh (before ++ .command hello :: between) party partnerSlot after
      (by rw [hsplit]; simp) hup
    exact hsince.behind hhello
  · intro hrenewed before party partnerSlot after hsplit hup
    rw [putsUp_iff, offerReady_iff] at hup
    obtain ⟨hoffer, hslot⟩ := hup
    rcases noHello_or_latest before with hno | ⟨earlier, hello, later, rfl, hhello, hno⟩
    · exact @OfferedSinceHello.of_offered [] before hoffer hno
    · -- what was offered at all was offered before the last HELLO, and renewed, or behind it
      have hlater : Offered later := by
        obtain ⟨frame, hframe, hvalid⟩ := hoffer
        rcases List.mem_append.mp hframe with hframe | hframe
        · exact hrenewed earlier hello later party partnerSlot after (by rw [hsplit]; simp) hhello
            ⟨frame, hframe, hvalid⟩ hslot
        · rcases List.mem_cons.mp hframe with hsame | hframe
          · obtain rfl := Deed.command.inj hsame
            have htype := hvalid.1
            rw [hhello] at htype
            exact absurd htype (by decide)
          · exact ⟨frame, hframe, hvalid⟩
      rw [← List.singleton_append, ← List.append_assoc]
      exact OfferedSinceHello.of_offered hlater hno

namespace Sample

/-- An offer of the first slot, and then a HELLO of the same transaction. -/
def offerFrame : ParsedFrame := ⟨.setOfferMon, .nil, 1, 0 :: List.replicate 100 7⟩

def nextGreeting : ParsedFrame := ⟨.hello, .nil, 2, []⟩

/-- The HELLO comes upon the offer, and the partner selects without a new one. -/
def staleSelection : List Deed :=
  [.command offerFrame, .command nextGreeting,
   .link (.select ⟨List.replicate 600 0, List.length_replicate⟩ 0)]

/-- **The offer of before the HELLO is put up after it.** The handler of the HELLO resets the codec, and
leaves the offer and its flag as they were. -/
theorem stale_offer_put_up :
    ¬ ∀ before party partnerSlot after,
      staleSelection = before ++ .link (.select party partnerSlot) :: after →
      PutsUp party partnerSlot (actAll Lib.sha256 before TradeBridge.fresh) → OfferedSinceHello before := by
  intro hfresh
  have hready : (actAll Lib.sha256 [.command offerFrame, .command nextGreeting]
      TradeBridge.fresh).2.offerReady = true := by
    decide +kernel
  have hsince := hfresh [.command offerFrame, .command nextGreeting] _ 0 [] rfl
    ((putsUp_iff _ 0 _).mpr ⟨hready, by decide⟩)
  obtain ⟨frame, hframe, -⟩ := @OfferedSinceHello.behind [.command offerFrame] [] nextGreeting hsince rfl
  cases hframe

end Sample

end TradeBroker.Firmware
