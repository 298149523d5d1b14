/-
# TradeBroker.Gba.Hearing — what a call hears.

Which frames a call consumes is a matter of its reads alone: the decoder hands the frames of a read to
the wait that made it, and the wait takes up one of them at most.  `deliveries` are the frames of the
reads to come, `hear` is what one wait hears of them, `hearings` is what the waits of a trade hear, each
with the stage it waits in.

A wait passes over every frame that it does not ask for, an `ERROR` apart.  So an announcement that
contradicts the outcome is refused only where a wait asks for it.  What the device may send without harm
is said of the reads as they come: no read that the conversation takes in and outlives brings a frame
against it (`unopposed`).  A conversation whose reads are so consumes nothing that contradicts its answer;
and behind any read that is not so, the device can go on to an answer that stands against what it said.
Trades and abort requests are two cases of one such conversation.

The converse is about what follows, as in `Gba.Cutting`.  A conversation that has outlived an opposing
read is still standing (`opposed`), a standing trade can be brought to a confirmed result by frames that
the device may send (`Standing.finishes`), and a standing abort request can be answered with yes
(`Standing.aborts`): so the endpoint has refused nothing up to there.  `GoesOn` says in which sense the
stream goes on: the same bytes up to that read, later sequence numbers behind it, one frame in a read.
-/
import TradeBroker.Gba.Cutting

namespace TradeBroker.Gba

open Lib GbLinkEndpoint

/-! ## §1 — reads and frames. -/

/-- The frames that the reads bring, read by read, until a read or the decoder fails; a read of no bytes
brings nothing and is left out. -/
def deliveries : FrameDecoder → List (Except Exc Bytes) → List (List Frame)
  | _, [] => []
  | _, .error _ :: _ => []
  | d, .ok data :: reads =>
      if data = [] then deliveries d reads
      else
        match d.feed data with
        | (.error _, _) => []
        | (.ok frames, d') => frames :: deliveries d' reads

/-- The reads that a call has made: those that were to come before it and are not after it. -/
def spent (ep ep' : GbLinkEndpoint) : List (Except Exc Bytes) :=
  ep.transport.reads.take (ep.transport.reads.length - ep'.transport.reads.length)

/-- **The frames consumed by a call** that began with `ep` and left `ep'`: all that its reads brought, whether
a wait looked at them or not. -/
def consumed (ep ep' : GbLinkEndpoint) : List Frame := (deliveries ep.decoder (spent ep ep')).flatten

/-- Between `ep` and `ep'` the reads brought these frames, in so many reads, and the decoder goes on from
there. -/
def Heard (ep ep' : GbLinkEndpoint) (reads : List (List Frame)) : Prop :=
  ∃ used, ep.transport.reads = used ++ ep'.transport.reads ∧
    ∀ rest, deliveries ep.decoder (used ++ rest) = reads ++ deliveries ep'.decoder rest

namespace Heard

variable {ep ep' ep'' : GbLinkEndpoint} {reads reads' : List (List Frame)}

theorem consumed_eq (h : Heard ep ep' reads) : consumed ep ep' = reads.flatten := by
  obtain ⟨used, hused, hdeliv⟩ := h
  have hspent : spent ep ep' = used := by
    rw [spent, hused, List.length_append, Nat.add_sub_cancel, List.take_left]
  have hall := hdeliv []
  rw [List.append_nil, deliveries, List.append_nil] at hall
  rw [consumed, hspent, hall]

theorem trans (h : Heard ep ep' reads) (h' : Heard ep' ep'' reads') : Heard ep ep'' (reads ++ reads') := by
  obtain ⟨used, hused, hdeliv⟩ := h
  obtain ⟨used', hused', hdeliv'⟩ := h'
  refine ⟨used ++ used', ?_, ?_⟩
  · rw [hused, hused', List.append_assoc]
  · intro rest
    rw [List.append_assoc, hdeliv, hdeliv', List.append_assoc]

end Heard

theorem deliveries_append (d : FrameDecoder) (reads more : List (Except Exc Bytes)) :
    ∃ later, deliveries d (reads ++ more) = deliveries d reads ++ later := by
  induction reads generalizing d with
  | nil => exact ⟨deliveries d more, rfl⟩
  | cons read reads ih =>
      cases read with
      | error e => exact ⟨[], rfl⟩
      | ok data =>
          simp only [List.cons_append, deliveries]
          by_cases hd : data = []
          · simp only [if_pos hd]
            exact ih d
          · simp only [if_neg hd]
            rcases d.feed data with ⟨res, d'⟩
            cases res with
            | error e => exact ⟨[], rfl⟩
            | ok frames =>
                obtain ⟨later, hlater⟩ := ih d'
                exact ⟨later, congrArg _ hlater⟩

/-- What was consumed came first among what the reads bring: a call never reads ahead. -/
theorem consumed_begin (ep ep' : GbLinkEndpoint) :
    consumed ep ep' <+: (deliveries ep.decoder ep.transport.reads).flatten := by
  obtain ⟨later, hlater⟩ := deliveries_append ep.decoder (spent ep ep')
    (ep.transport.reads.drop (ep.transport.reads.length - ep'.transport.reads.length))
  rw [spent, List.take_append_drop] at hlater
  rw [hlater, List.flatten_append]
  exact List.prefix_append _ _

/-- **The frames that are delivered are the first of those that were sent.** -/
theorem deliveries_begin {d : FrameDecoder} {fs : List Frame} {cut : List Bytes} {more : Bytes}
    (h : wire Frame.encode fs = d.buffer ++ (cut.flatten ++ more)) :
    (deliveries d (cut.map .ok)).flatten <+: fs := by
  induction cut generalizing d fs with
  | nil => exact List.nil_prefix
  | cons data cut ih =>
      rw [List.map_cons, deliveries]
      by_cases hd : data = []
      · rw [if_pos hd]
        exact ih (by rw [h, hd]; rfl)
      · rw [List.flatten_cons, List.append_assoc] at h
        obtain ⟨rest, hfeed, -, hwire⟩ := FrameDecoder.feed_stream h
        obtain ⟨hsplit, -⟩ := arrive_spec Frame.encode (d.buffer.length + data.length) fs
        rw [if_neg hd, hfeed]
        obtain ⟨later, hlater⟩ := ih hwire
        refine ⟨later, ?_⟩
        rw [List.flatten_cons, List.append_assoc, hlater]
        exact hsplit.symm

/-- **A stream is delivered as it arrives**, reads of no bytes aside. -/
theorem deliveries_arrivals {ep : GbLinkEndpoint} {fs : List Frame} {cut : List Bytes}
    (h : Streaming ep fs cut) (hne : ∀ data ∈ cut, data ≠ []) :
    deliveries ep.decoder (cut.map .ok) = arrivals ep fs cut := by
  induction cut generalizing ep fs with
  | nil => rfl
  | cons data cut ih =>
      obtain ⟨read, later, rest, -, hfeed, harr, hwire, hshort⟩ := h.feed
      rw [harr, List.map_cons, deliveries, if_neg (hne data (by simp)), hfeed]
      have hrest : Streaming { ep with decoder := ⟨rest⟩ } later cut := ⟨hwire, hshort⟩
      exact congrArg _ (ih hrest fun x hx => hne x (by simp [hx]))

/-! ## §2 — one wait. -/

/-- What a wait hears: the reads up to the first that brings a frame it heeds, and the reads it leaves to the
next wait. -/
def hear (wanted : List MessageType) : List (List Frame) → List (List Frame) × List (List Frame)
  | [] => ([], [])
  | read :: reads =>
      match heeded wanted read with
      | [] => (read :: (hear wanted reads).1, (hear wanted reads).2)
      | _ :: _ => ([read], reads)

theorem heeded_append_passed {wanted : List MessageType} {fs gs : List Frame} (h : heeded wanted fs = []) :
    heeded wanted (fs ++ gs) = heeded wanted gs := by
  rw [heeded, List.dropWhile_append, ← heeded, h]
  rfl

/-- What the loop over the frames of one read says about them when it does not raise: it passed over all of
them, or it returns the first that it heeds, one of those asked for. -/
theorem sift_ok {txid : Uuid} {wanted : List MessageType} {frames : List Frame} {r r' : ReplayWindow}
    {res : Option Frame} (h : sift txid wanted frames r = (.ok res, r')) :
    (res = none → heeded wanted frames = []) ∧
      ∀ f, res = some f → f.messageType ∈ wanted ∧ f.transactionId = txid ∧
        ∃ behind, heeded wanted frames = f :: behind := by
  induction frames generalizing r with
  | nil =>
      rw [sift, Prod.mk.injEq, Except.ok.injEq] at h
      obtain ⟨rfl, -⟩ := h
      exact ⟨fun _ => rfl, fun f hf => by cases hf⟩
  | cons g frames ih =>
      rw [sift] at h
      split at h
      · cases h
      · rename_i hid
        split at h
        · cases h
        · split at h
          · -- `g` is awaited: the loop returns it
            rename_i hw
            rw [Prod.mk.injEq, Except.ok.injEq] at h
            obtain ⟨rfl, -⟩ := h
            refine ⟨fun hno => absurd hno (by simp), ?_⟩
            intro f hf
            obtain rfl := Option.some.inj hf
            refine ⟨hw, not_not.mp hid, frames, ?_⟩
            simp [heeded, heeds, hw]
          · split at h
            · cases h
            · rename_i hw he
              have hpass : heeded wanted (g :: frames) = heeded wanted frames := by
                simp [heeded, heeds, hw, he]
              rw [hpass]
              exact ih h

/-- A read that a wait passes over is heard, and the wait goes on. -/
theorem hear_passed {wanted : List MessageType} {read : List Frame} (h : heeded wanted read = [])
    (reads : List (List Frame)) :
    hear wanted (read :: reads) = (read :: (hear wanted reads).1, (hear wanted reads).2) := by
  simp only [hear, h]

theorem hear_heeded {wanted : List MessageType} {read behind : List Frame} {f : Frame}
    (h : heeded wanted read = f :: behind) (reads : List (List Frame)) :
    hear wanted (read :: reads) = ([read], reads) := by
  simp only [hear, h]

/-- What a wait leaves behind when it returns `f`: a frame that it asked for, of the transaction, the first
that it heeds of what it heard; the reads behind it are left to the next wait. -/
structure Hears (wanted : List MessageType) (ep : GbLinkEndpoint) (f : Frame) (ep' : GbLinkEndpoint) :
    Prop where
  awaited : f.messageType ∈ wanted
  own : f.transactionId = ep.txid
  txid : ep'.txid = ep.txid
  heard : Heard ep ep' (hear wanted (deliveries ep.decoder ep.transport.reads)).1
  left : (hear wanted (deliveries ep.decoder ep.transport.reads)).2 =
    deliveries ep'.decoder ep'.transport.reads
  first : ∃ behind,
    heeded wanted (hear wanted (deliveries ep.decoder ep.transport.reads)).1.flatten = f :: behind

/-- **What one read does to a wait that returns**: it brings nothing, or the awaited frame, or frames that are
all passed over. -/
theorem waitLoop_cases {wanted : List MessageType} {read : Except Exc Bytes} {reads : List (Except Exc Bytes)}
    {ep ep' : GbLinkEndpoint} {f : Frame} (h : waitLoop wanted (read :: reads) ep = (.ok f, ep')) :
    (read = .ok [] ∧ waitLoop wanted reads ep = (.ok f, ep')) ∨
      ∃ data frames d r, read = .ok data ∧ data ≠ [] ∧ ep.decoder.feed data = (.ok frames, d) ∧
        (sift ep.txid wanted frames ep.replay = (.ok (some f), r) ∧
            ep' = { ep with decoder := d, replay := r, transport.reads := reads } ∨
          sift ep.txid wanted frames ep.replay = (.ok none, r) ∧
            waitLoop wanted reads { ep with decoder := d, replay := r } = (.ok f, ep')) := by
  cases read with
  | error e => cases h
  | ok data =>
      rw [waitLoop] at h
      by_cases hd : data = []
      · rw [if_pos hd] at h
        exact Or.inl ⟨congrArg _ hd, h⟩
      · rw [if_neg hd] at h
        rcases hfeed : ep.decoder.feed data with ⟨res, d⟩
        rw [hfeed] at h
        cases res with
        | error e => cases h
        | ok frames =>
            rcases hsift : sift ep.txid wanted frames ep.replay with ⟨res, r⟩
            simp only [hsift] at h
            refine Or.inr ⟨data, frames, d, r, rfl, hd, hfeed, ?_⟩
            cases res with
            | error e => cases h
            | ok found =>
                cases found with
                | some g =>
                    rw [Prod.mk.injEq, Except.ok.injEq] at h
                    obtain ⟨rfl, rfl⟩ := h
                    exact Or.inl ⟨hsift, rfl⟩
                | none => exact Or.inr ⟨hsift, h⟩

/-- The frames of a read that brings data, and then those of the reads behind it. -/
theorem deliveries_read {d d' : FrameDecoder} {data : Bytes} {frames : List Frame} (hd : data ≠ [])
    (hfeed : d.feed data = (.ok frames, d')) (rest : List (Except Exc Bytes)) :
    deliveries d (.ok data :: rest) = frames :: deliveries d' rest := by
  rw [deliveries, if_neg hd, hfeed]

theorem deliveries_nothing (d : FrameDecoder) (rest : List (Except Exc Bytes)) :
    deliveries d (.ok [] :: rest) = deliveries d rest := by
  rw [deliveries, if_pos rfl]

/-- **A wait that returns** has heard the reads up to the first frame it heeds, and returns that frame. -/
theorem waitLoop_hears {wanted : List MessageType} {reads : List (Except Exc Bytes)}
    {ep ep' : GbLinkEndpoint} {f : Frame} (h : waitLoop wanted reads ep = (.ok f, ep')) :
    Hears wanted { ep with transport.reads := reads } f ep' := by
  induction reads generalizing ep with
  | nil => cases h
  | cons read reads ih =>
      rcases waitLoop_cases h with ⟨rfl, h⟩ | ⟨data, frames, d, r, rfl, hd, hfeed, h⟩
      · -- nothing came: the wait goes on with the next read
        have hskip := deliveries_nothing ep.decoder
        have hrest := ih h
        obtain ⟨used, hused, hdeliv⟩ := hrest.heard
        refine ⟨hrest.awaited, hrest.own, hrest.txid, ⟨.ok [] :: used, ?_, ?_⟩, ?_, ?_⟩
        · show Except.ok [] :: reads = _
          rw [List.cons_append, ← hused]
        · intro rest
          show deliveries ep.decoder _ = _
          rw [List.cons_append, hskip, hskip]
          exact hdeliv rest
        · show (hear wanted (deliveries ep.decoder (.ok [] :: reads))).2 = _
          rw [hskip]
          exact hrest.left
        · show ∃ behind, heeded wanted
            (hear wanted (deliveries ep.decoder (.ok [] :: reads))).1.flatten = f :: behind
          rw [hskip]
          exact hrest.first
      · have hone := deliveries_read hd hfeed
        rcases h with ⟨hsift, rfl⟩ | ⟨hsift, h⟩
        · obtain ⟨hw, hid, behind, hheed⟩ := (sift_ok hsift).2 f rfl
          have hhear := hear_heeded hheed (deliveries d reads)
          rw [← hone] at hhear
          refine ⟨hw, hid, rfl, ⟨[.ok data], rfl, ?_⟩, ?_, behind, ?_⟩
          · intro rest
            show deliveries ep.decoder _ = _
            rw [hhear]
            exact hone rest
          · show (hear wanted (deliveries ep.decoder (.ok data :: reads))).2 = _
            rw [hhear]
          · show heeded wanted
              (hear wanted (deliveries ep.decoder (.ok data :: reads))).1.flatten = _
            rw [hhear, List.flatten_singleton]
            exact hheed
        · -- every frame of the read was passed over
          have hrest := ih h
          have hpassed := (sift_ok hsift).1 rfl
          have hhear := hear_passed hpassed (deliveries d reads)
          rw [← hone] at hhear
          obtain ⟨used, hused, hdeliv⟩ := hrest.heard
          refine ⟨hrest.awaited, hrest.own, hrest.txid, ⟨.ok data :: used, ?_, ?_⟩, ?_, ?_⟩
          · show Except.ok data :: reads = _
            rw [List.cons_append, ← hused]
          · intro rest
            show deliveries ep.decoder _ = _
            rw [List.cons_append, hone, hhear, List.cons_append]
            exact congrArg _ (hdeliv rest)
          · show (hear wanted (deliveries ep.decoder (.ok data :: reads))).2 = _
            rw [hhear]
            exact hrest.left
          · show ∃ behind, heeded wanted
              (hear wanted (deliveries ep.decoder (.ok data :: reads))).1.flatten = _
            rw [hhear, List.flatten_cons, heeded_append_passed hpassed]
            exact hrest.first

theorem waitFor_hears {wanted : List MessageType} {ep ep' : GbLinkEndpoint} {f : Frame}
    (h : ep.call (waitFor wanted) = (.ok f, ep')) : Hears wanted ep f ep' :=
  @waitLoop_hears wanted ep.transport.reads ep ep' f h

/-! ## §3 — the waits of a trade. -/

section Trade

variable (offerSlot : Fin 6) (offered : Pokemon100)

/-- What the waits of a trade hear, each with the stage it waits in; `n` waits at most.  A stage that ends the
conversation is the last. -/
def hearings : Nat → Stage → List (List Frame) → List (Stage × List Frame)
  | 0, _, _ => []
  | n + 1, st, reads =>
      (st, (hear st.wanted reads).1.flatten) ::
        match heeded st.wanted (hear st.wanted reads).1.flatten with
        | [] => []
        | f :: _ =>
            match react offerSlot offered st f with
            | .ends _ => []
            | .goes st' => hearings n st' (hear st.wanted reads).2

/-- The frames that the waits take up, one each, lead from a stage to the result: each is asked for, and
passes the checks of its stage. -/
def Leads : Stage → List Frame → GbaTradeResult → Prop
  | _, [], _ => False
  | st, f :: fs, r =>
      f.messageType ∈ st.wanted ∧
        match st.next offerSlot offered f with
        | .ends o => o = .ok r
        | .goes st' => Leads st' fs r

/-- What the seven frames say that lead to a result, and the result: their types, in order, the payloads that
were checked, and the fields of the result that come from them. -/
structure Testimony (ready started party slot mon commit closed : Frame) (r : GbaTradeResult) : Prop where
  ready_type : ready.messageType = .offerReady
  ready_payload : ready.payload = expectedReady offerSlot offered
  started_type : started.messageType = .tradeSessionStarted
  party_type : party.messageType = .partnerParty
  party_length : party.payload.length = 600
  slot_type : slot.messageType = .partnerSelectedSlot
  slot_payload : ∃ s : UInt8, slot.payload = [s] ∧ s ≤ 5 ∧ r.selectedSlot = s.toNat ∧
    mon.payload = slice party.payload (100 * s.toNat) (100 * s.toNat + 100)
  mon_type : mon.messageType = .partnerSelectedMon
  mon_payload : mon.payload = r.receivedMon.raw
  commit_type : commit.messageType = .tradeCommitted
  commit_payload : commit.payload = expectedCommit offered r.receivedMon
  closed_type : closed.messageType = .tradeLinkClosed ∨ closed.messageType = .error
  offered_mon : r.offeredMon = offered
  link_closed : r.linkClosed = true ↔ closed.messageType = .tradeLinkClosed ∧ closed.payload = [0]

/-- What four of them say: the acknowledgement of the offer, a party that holds the received record in the
slot selected, the commit with the hashes of both records, and the end of the link, when the result says
so. -/
structure Told (ready party commit closed : Frame) (r : GbaTradeResult) : Prop where
  ready_type : ready.messageType = .offerReady
  ready_payload : ready.payload = expectedReady offerSlot offered
  party_type : party.messageType = .partnerParty
  received : ∃ slot : Nat, r.selectedSlot = slot ∧
    r.receivedMon.raw = slice party.payload (slot * 100) ((slot + 1) * 100)
  commit_type : commit.messageType = .tradeCommitted
  commit_payload : commit.payload = expectedCommit offered r.receivedMon
  closed_type : r.linkClosed = true → closed.messageType = .tradeLinkClosed

/-- What a wait of a trade hears that did not end it with an exception: the first frame it heeds is one
it asked for, and no announcement of an abort. -/
def WentOn (x : Stage × List Frame) : Prop :=
  ∃ f behind, heeded x.1.wanted x.2 = f :: behind ∧ f.messageType ∈ x.1.wanted ∧
    f.messageType ≠ .tradeAborted

variable {offerSlot : Fin 6} {offered : Pokemon100}

/-- An abort that a wait takes up ends the trade with an exception. -/
theorem Stage.next_not_aborted {st : Stage} {f : Frame} (hw : f.messageType ∈ st.wanted)
    (hok : ∀ e, st.next offerSlot offered f ≠ .ends (.error e)) : f.messageType ≠ .tradeAborted := by
  intro habort
  cases st with
  | commit selectedSlot selected =>
      have hnot : ¬ f.messageType = .tradeCommitted := by
        rw [habort]
        decide
      exact hok _ (by rw [Stage.next, Stage.check, if_neg hnot])
  | ready => exact absurd (habort ▸ hw) (by simp [Stage.wanted])
  | started => exact absurd (habort ▸ hw) (by simp [Stage.wanted])
  | party => exact absurd (habort ▸ hw) (by simp [Stage.wanted])
  | slot captured => exact absurd (habort ▸ hw) (by simp [Stage.wanted])
  | mon captured selectedSlot => exact absurd (habort ▸ hw) (by simp [Stage.wanted])
  | closed selectedSlot selected => exact absurd (habort ▸ hw) (by simp [Stage.wanted])

/-- Only the last stage ends with a result, so every result has gone through all of them. -/
theorem Stage.next_ends {st : Stage} {f : Frame} {r : GbaTradeResult}
    (h : st.next offerSlot offered f = .ends (.ok r)) :
    ∃ selectedSlot selected, st = .closed selectedSlot selected := by
  have hcheck : ∀ {condition : Prop} [Decidable condition] {e : Exc} {go : Reaction},
      check condition e go = .ends (.ok r) → go = .ends (.ok r) := by
    intro condition _ e go hc
    unfold check at hc
    split at hc
    · exact hc
    · cases hc
  cases st with
  | closed selectedSlot selected => exact ⟨selectedSlot, selected, rfl⟩
  | ready => cases hcheck h
  | started => cases h
  | party => cases hcheck h
  | slot captured => cases hcheck h
  | mon captured selectedSlot =>
      rw [Stage.next] at h
      cases hp : Pokemon100.ofBytes f.payload with
      | error e =>
          rw [hp] at h
          cases h
      | ok selected =>
          rw [hp] at h
          cases hcheck h
  | commit selectedSlot selected => cases hcheck (hcheck h)

/-- A stage that is not the last goes on with its frame to a stage one wait further. -/
theorem Leads.goes {st : Stage} {picks : List Frame} {r : GbaTradeResult}
    (h : Leads offerSlot offered st picks r) (hst : 1 < st.steps) :
    ∃ f rest st', picks = f :: rest ∧ f.messageType ∈ st.wanted ∧
      st.next offerSlot offered f = .goes st' ∧ Leads offerSlot offered st' rest r := by
  cases picks with
  | nil => exact absurd h (by simp [Leads])
  | cons f rest =>
      obtain ⟨hw, hnext⟩ := h
      cases hn : st.next offerSlot offered f with
      | ends o =>
          rw [hn] at hnext
          obtain rfl : o = .ok r := hnext
          obtain ⟨selectedSlot, selected, rfl⟩ := Stage.next_ends hn
          exact absurd hst (by simp [Stage.steps])
      | goes st' =>
          rw [hn] at hnext
          exact ⟨f, rest, st', rfl, hw, hn, hnext⟩

/-- **Frames that lead to a result testify to it**: by one step of `Leads` for each stage. -/
theorem Leads.testimony {picks : List Frame} {r : GbaTradeResult}
    (h : Leads offerSlot offered .ready picks r) :
    ∃ ready started party slot mon commit closed,
      [ready, started, party, slot, mon, commit, closed].Sublist picks ∧
        Testimony offerSlot offered ready started party slot mon commit closed r := by
  obtain ⟨ready, p₁, st₁, rfl, hw₁, hn₁, h⟩ := h.goes (by decide)
  obtain ⟨hready, hn₁⟩ := Stage.check_goes hn₁
  cases hn₁
  obtain ⟨started, p₂, st₂, rfl, hw₂, hn₂, h⟩ := h.goes (by decide)
  cases hn₂
  obtain ⟨party, p₃, st₃, rfl, hw₃, hn₃, h⟩ := h.goes (by decide)
  obtain ⟨hparty, hn₃⟩ := Stage.check_goes hn₃
  cases hn₃
  obtain ⟨slot, p₄, st₄, rfl, hw₄, hn₄, h⟩ := h.goes (by simp [Stage.steps])
  obtain ⟨hslot, hn₄⟩ := Stage.check_goes hn₄
  cases hn₄
  obtain ⟨mon, p₅, st₅, rfl, hw₅, hn₅, h⟩ := h.goes (by simp [Stage.steps])
  obtain ⟨selected, hselected, hn₅⟩ := Stage.attempt_goes hn₅
  obtain ⟨hslice, hn₅⟩ := Stage.check_goes hn₅
  cases hn₅
  obtain ⟨commit, p₆, st₆, rfl, -, hn₆, h⟩ := h.goes (by simp [Stage.steps])
  obtain ⟨hcommit, hn₆⟩ := Stage.check_goes hn₆
  obtain ⟨hhash, hn₆⟩ := Stage.check_goes hn₆
  cases hn₆
  cases p₆ with
  | nil => exact absurd h (by simp [Leads])
  | cons closed rest =>
      obtain ⟨hw₇, hr⟩ := h
      obtain rfl := (Except.ok.inj hr).symm
      refine ⟨ready, started, party, slot, mon, commit, closed, ?_, ?_⟩
      · exact List.Sublist.append_left (List.nil_sublist rest)
          [ready, started, party, slot, mon, commit, closed]
      · have hraw : mon.payload = selected.raw := by
          rw [Pokemon100.ofBytes] at hselected
          split at hselected
          · obtain rfl := Except.ok.inj hselected
            rfl
          · cases hselected
        obtain ⟨s, hs⟩ := List.length_eq_one_iff.mp hslot.1
        have hget : slot.payload.getD 0 0 = s := by
          rw [hs]
          rfl
        rw [hget] at hslot hslice
        have hcut : slice party.payload (s.toNat * 100) ((s.toNat + 1) * 100) =
            slice party.payload (100 * s.toNat) (100 * s.toNat + 100) := by
          rw [Nat.mul_comm, Nat.add_mul, Nat.one_mul, Nat.mul_comm s.toNat 100]
        refine ⟨List.mem_singleton.mp hw₁, hready, List.mem_singleton.mp hw₂, List.mem_singleton.mp hw₃,
          hparty, List.mem_singleton.mp hw₄, ⟨s, hs, hslot.2, ?_, ?_⟩, List.mem_singleton.mp hw₅, hraw, hcommit,
          hhash, ?_, rfl, ?_⟩
        · rw [hget]
        · rw [hraw, hslice, hcut]
        · simpa [Stage.wanted] using hw₇
        · exact decide_eq_true_iff

/-- **What a result was told by**: four of the frames that led to it, in their order. -/
theorem Leads.told {picks : List Frame} {r : GbaTradeResult}
    (h : Leads offerSlot offered .ready picks r) :
    ∃ ready party commit closed, [ready, party, commit, closed].Sublist picks ∧
      Told offerSlot offered ready party commit closed r := by
  obtain ⟨ready, started, party, slot, mon, commit, closed, hsub, ht⟩ := h.testimony
  obtain ⟨s, -, -, hslot, hmon⟩ := ht.slot_payload
  refine ⟨ready, party, commit, closed, List.Sublist.trans ?_ hsub, ⟨ht.ready_type, ht.ready_payload,
    ht.party_type, ⟨s.toNat, hslot, ?_⟩, ht.commit_type, ht.commit_payload, ?_⟩⟩
  · exact .cons_cons _ (.cons _ (.cons_cons _ (.cons _ (.cons _ (.refl _)))))
  · rw [← ht.mon_payload, hmon, Nat.mul_comm s.toNat, Nat.mul_comm (s.toNat + 1)]
    rfl
  · intro hclosed
    exact (ht.link_closed.mp hclosed).1

theorem hearings_heeded {n : Nat} {st : Stage} {reads : List (List Frame)} {f : Frame}
    {behind : List Frame} (h : heeded st.wanted (hear st.wanted reads).1.flatten = f :: behind)
    (hw : f.messageType ∈ st.wanted) :
    hearings offerSlot offered (n + 1) st reads =
      (st, (hear st.wanted reads).1.flatten) ::
        match st.next offerSlot offered f with
        | .ends _ => []
        | .goes st' => hearings offerSlot offered n st' (hear st.wanted reads).2 := by
  rw [hearings]
  simp only [h, react, if_pos hw]

/-- A taken-up frame is one of those that were heard, and what is heard later comes behind it. -/
theorem cons_sublist_of_heeded {wanted : List MessageType} {fs picks later behind : List Frame} {f : Frame}
    (h : heeded wanted fs = f :: behind) (hpicks : picks.Sublist later) : (f :: picks).Sublist (fs ++ later) := by
  obtain ⟨before, hfs, -⟩ := heeded_split wanted fs
  rw [hfs, h, List.append_assoc]
  refine List.Sublist.trans ?_ (List.sublist_append_right before _)
  rw [List.cons_append]
  exact List.Sublist.cons_cons f (hpicks.trans (List.sublist_append_right behind later))

/-- **The waits of a trade that returns.**  They heard what the reads brought, none of them took up an
abort, and the frames they did take up led to the result. -/
theorem drive_hears {n : Nat} {st : Stage} {ep ep' : GbLinkEndpoint} {r : GbaTradeResult}
    (h : ep.call (drive offerSlot offered n st) = (.ok r, ep')) :
    ∃ reads, Heard ep ep' reads ∧
      (hearings offerSlot offered n st (deliveries ep.decoder ep.transport.reads)).flatMap Prod.snd =
        reads.flatten ∧
      (∀ x ∈ hearings offerSlot offered n st (deliveries ep.decoder ep.transport.reads), WentOn x) ∧
      ∃ picks, picks.Sublist reads.flatten ∧ Leads offerSlot offered st picks r := by
  induction n generalizing st ep with
  | zero => cases h
  | succ n ih =>
      obtain ⟨f, ep₁, hwait, hrest⟩ := call_bind_ok h
      have hears := waitFor_hears hwait
      obtain ⟨behind, hfirst⟩ := hears.first
      have hwent : (∀ e, st.next offerSlot offered f ≠ .ends (.error e)) →
          WentOn (st, (hear st.wanted (deliveries ep.decoder ep.transport.reads)).1.flatten) := by
        intro hok
        exact ⟨f, behind, hfirst, hears.awaited, Stage.next_not_aborted hears.awaited hok⟩
      rw [hearings_heeded hfirst hears.awaited]
      cases hnext : st.next offerSlot offered f with
      | ends o =>
          rw [hnext, proceed, show ep₁.call (answer o) = (o, ep₁) from rfl, Prod.mk.injEq] at hrest
          obtain ⟨rfl, rfl⟩ := hrest
          refine ⟨_, hears.heard, ?_, ?_, [f], ?_, hears.awaited, ?_⟩
          · simp
          · intro x hx
            rw [List.mem_singleton.mp hx]
            apply hwent
            rw [hnext]
            exact fun e he => by cases he
          · have := cons_sublist_of_heeded hfirst (List.Sublist.refl [])
            rwa [List.append_nil] at this
          · rw [hnext]
      | goes st' =>
          rw [hnext] at hrest
          obtain ⟨reads, hheard, hflat, hall, picks, hsub, hlead⟩ := ih hrest
          rw [← hears.left] at hflat hall
          refine ⟨_, hears.heard.trans hheard, ?_, ?_, f :: picks, ?_, hears.awaited, ?_⟩
          · rw [List.flatMap_cons, hflat, List.flatten_append]
          · intro x hx
            rcases List.mem_cons.mp hx with rfl | hx
            · apply hwent
              rw [hnext]
              exact fun e he => by cases he
            · exact hall x hx
          · rw [List.flatten_append]
            exact cons_sublist_of_heeded hfirst hsub
          · rw [hnext]
            exact hlead

end Trade

theorem call_returns {α : Type} {ep : GbLinkEndpoint} {x : LinkM α} {a : α} (h : (ep.call x).1 = .ok a) :
    ep.call x = (.ok a, (ep.call x).2) := Prod.ext h rfl

/-- A call of `trade_once` that returns has sent the offer and gone through its waits, and the sending left
the receiving side alone. -/
theorem tradeOnce_drives {ep ep' : GbLinkEndpoint} {offered : Pokemon100} {r : GbaTradeResult}
    (h : ep.call (tradeOnce offered) = (.ok r, ep')) :
    ∃ data, (offering ep data).call (drive ep.offerSlot offered 7 .ready) = (.ok r, ep') := by
  have hcall := call_tradeOnce ep offered
  cases hrefuse : refusal ep offered with
  | some e =>
      rw [hrefuse] at hcall
      simp only at hcall
      rw [h] at hcall
      cases hcall
  | none =>
      rw [hrefuse] at hcall
      obtain ⟨data, hdrive⟩ := hcall
      rw [hdrive] at h
      exact ⟨data, h⟩

theorem tradeOnce_hears {ep ep' : GbLinkEndpoint} {offered : Pokemon100} {r : GbaTradeResult}
    (h : ep.call (tradeOnce offered) = (.ok r, ep')) :
    consumed ep ep' = (hearings ep.offerSlot offered 7 .ready
        (deliveries ep.decoder ep.transport.reads)).flatMap Prod.snd ∧
      (∀ x ∈ hearings ep.offerSlot offered 7 .ready (deliveries ep.decoder ep.transport.reads), WentOn x) ∧
      ∃ picks, picks.Sublist (consumed ep ep') ∧ Leads ep.offerSlot offered .ready picks r := by
  obtain ⟨data, hdrive⟩ := tradeOnce_drives h
  -- the offer went out, and the receiving side is as before
  obtain ⟨reads, hheard, hflat, hall, picks, hsub, hlead⟩ := drive_hears hdrive
  have hconsumed : consumed ep ep' = reads.flatten := hheard.consumed_eq
  refine ⟨?_, hall, picks, ?_, hlead⟩
  · rw [hconsumed]
    exact hflat.symm
  · rw [hconsumed]
    exact hsub

/-! ## §4 — evidence that contradicts the outcome.

A wait passes over the frames that it does not ask for, and with them over what contradicts the outcome.
Whether that does any harm is up to what the device sends next.  So the condition is one on the reads as
they come: no read that a conversation takes in, and outlives, brings a frame that contradicts it. -/

/-- The device says that the trade of this transaction was aborted: the announcement itself, under its id. -/
def Aborts (txid : Uuid) (f : Frame) : Prop := f.messageType = .tradeAborted ∧ f.transactionId = txid

instance (txid : Uuid) (f : Frame) : Decidable (Aborts txid f) :=
  inferInstanceAs (Decidable (_ ∧ _))

/-- What the frame that a wait takes up makes of a conversation: it goes on, it ends with an answer, or
it ends without one. -/
inductive Course (σ : Type) where
  | goes (st : σ)
  | answered
  | refused

section Conversation

variable {σ : Type} (wanted : σ → List MessageType) (course : σ → Frame → Course σ)
  (against : Frame → Prop) [DecidablePred against]

/-- **Nothing contradicts the conversation.**  Of the reads that its waits take in, none brings a frame
`against` it, but for a read whose heeded frame refuses the answer. -/
def unopposed : σ → List (List Frame) → Bool
  | _, [] => true
  | st, read :: reads =>
      match heeded (wanted st) read with
      | [] => read.all (fun f => !decide (against f)) && unopposed st reads
      | f :: _ =>
          match course st f with
          | .refused => true
          | .answered => read.all fun f => !decide (against f)
          | .goes st' => read.all (fun f => !decide (against f)) && unopposed st' reads

variable {wanted course against} {st : σ} {read : List Frame} {f : Frame} {behind : List Frame}

theorem all_not_against : read.all (fun f => !decide (against f)) = true ↔ ∀ f ∈ read, ¬ against f := by
  simp

theorem unopposed_passed (h : heeded (wanted st) read = []) (reads : List (List Frame)) :
    unopposed wanted course against st (read :: reads) = true ↔
      (∀ f ∈ read, ¬ against f) ∧ unopposed wanted course against st reads = true := by
  simp only [unopposed, h, Bool.and_eq_true, all_not_against]

theorem unopposed_heeded (h : heeded (wanted st) read = f :: behind) (hf : course st f ≠ .refused)
    (reads : List (List Frame)) :
    unopposed wanted course against st (read :: reads) = true ↔
      (∀ g ∈ read, ¬ against g) ∧
        ∀ st', course st f = .goes st' → unopposed wanted course against st' reads = true := by
  simp only [unopposed, h]
  cases hc : course st f with
  | refused => exact absurd hc hf
  | answered => simp
  | goes st' => simp

/-- **One wait that is not refused**: what it heard is not against the conversation, and what comes behind
it is not either. -/
theorem unopposed_hear {reads : List (List Frame)}
    (h : heeded (wanted st) (hear (wanted st) reads).1.flatten = f :: behind) (hf : course st f ≠ .refused) :
    unopposed wanted course against st reads = true ↔
      (∀ g ∈ (hear (wanted st) reads).1.flatten, ¬ against g) ∧
        ∀ st', course st f = .goes st' →
          unopposed wanted course against st' (hear (wanted st) reads).2 = true := by
  induction reads with
  | nil => simp [hear, heeded] at h
  | cons read reads ih =>
      cases hh : heeded (wanted st) read with
      | nil =>
          rw [hear_passed hh, List.flatten_cons, heeded_append_passed hh] at h
          rw [hear_passed hh, unopposed_passed hh, ih h, List.flatten_cons, List.forall_mem_append, and_assoc]
      | cons g rest =>
          rw [hear_heeded hh, List.flatten_singleton, hh] at h
          obtain ⟨rfl, rfl⟩ := List.cons.inj h
          rw [hear_heeded hh, unopposed_heeded hh hf, List.flatten_singleton]

/-- How a conversation stands behind some reads: at a stage where it waits for more, or answered. -/
inductive Standing (wanted : σ → List MessageType) (course : σ → Frame → Course σ) :
    σ → List (List Frame) → Option σ → Prop where
  | start (st : σ) : Standing wanted course st [] (some st)
  | passed {st : σ} {read : List Frame} {reads : List (List Frame)} {o : Option σ} :
      heeded (wanted st) read = [] → Standing wanted course st reads o →
        Standing wanted course st (read :: reads) o
  | goes {st st' : σ} {read behind : List Frame} {f : Frame} {reads : List (List Frame)} {o : Option σ} :
      heeded (wanted st) read = f :: behind → course st f = .goes st' →
        Standing wanted course st' reads o → Standing wanted course st (read :: reads) o
  | answered {st : σ} {read behind : List Frame} {f : Frame} :
      heeded (wanted st) read = f :: behind → course st f = .answered →
        Standing wanted course st [read] none

/-- **Opposition that is outlived.**  A conversation that is not `unopposed` has taken in a read against
it, stands on or is answered behind that read, and stays opposed however the reads go on. -/
theorem opposed {reads : List (List Frame)} (h : unopposed wanted course against st reads = false) :
    ∃ before read after o, reads = before ++ read :: after ∧ read ≠ [] ∧
      Standing wanted course st (before ++ [read]) o ∧
      ∀ more, unopposed wanted course against st (before ++ read :: more) = false := by
  induction reads generalizing st with
  | nil => cases h
  | cons read reads ih =>
      have hnot := h
      rw [← Bool.not_eq_true] at hnot
      by_cases hagainst : ∀ g ∈ read, ¬ against g
      · cases hh : heeded (wanted st) read with
        | nil =>
            rw [unopposed_passed hh, not_and] at hnot
            obtain ⟨before, read', after, o, rfl, hne, hst, hmore⟩ := ih (by simpa using hnot hagainst)
            refine ⟨read :: before, read', after, o, rfl, hne, .passed hh hst, fun more => ?_⟩
            rw [List.cons_append, ← Bool.not_eq_true, unopposed_passed hh, hmore]
            simp
        | cons f behind =>
            have hf : course st f ≠ .refused := by
              intro hf
              simp [unopposed, hh, hf] at h
            rw [unopposed_heeded hh hf, not_and] at hnot
            obtain ⟨st', hgo, hlater⟩ := by simpa using hnot hagainst
            obtain ⟨before, read', after, o, rfl, hne, hst, hmore⟩ := ih hlater
            refine ⟨read :: before, read', after, o, rfl, hne, .goes hh hgo hst, fun more => ?_⟩
            rw [List.cons_append, ← Bool.not_eq_true, unopposed_heeded hh hf]
            rintro ⟨-, hall⟩
            have hopposed := hmore more
            rw [hall st' hgo] at hopposed
            cases hopposed
      · -- this read is against it, and the conversation outlives the read
        have hne : read ≠ [] := by
          rintro rfl
          simp at hagainst
        cases hh : heeded (wanted st) read with
        | nil =>
            refine ⟨[], read, reads, some st, rfl, hne, .passed hh (.start st), fun more => ?_⟩
            rw [List.nil_append, ← Bool.not_eq_true, unopposed_passed hh]
            exact fun hall => hagainst hall.1
        | cons f behind =>
            have hf : course st f ≠ .refused := by
              intro hf
              simp [unopposed, hh, hf] at h
            have hmore : ∀ more, unopposed wanted course against st ([] ++ read :: more) = false := by
              intro more
              rw [List.nil_append, ← Bool.not_eq_true, unopposed_heeded hh hf]
              exact fun hall => hagainst hall.1
            cases hc : course st f with
            | refused => exact absurd hc hf
            | answered => exact ⟨[], read, reads, none, rfl, hne, .answered hh hc, hmore⟩
            | goes st' => exact ⟨[], read, reads, some st', rfl, hne, .goes hh hc (.start st'), hmore⟩

/-- Reads that bring nothing do not count, and a stream is delivered as it arrives, so the condition may be
looked at on either. -/
theorem unopposed_deliveries {ep : GbLinkEndpoint} {fs : List Frame} {cut : List Bytes}
    (h : Streaming ep fs cut) :
    unopposed wanted course against st (deliveries ep.decoder (cut.map .ok)) =
      unopposed wanted course against st (arrivals ep fs cut) := by
  induction cut generalizing ep fs st with
  | nil => rfl
  | cons data cut ih =>
      by_cases hd : data = []
      · subst hd
        rw [List.map_cons, deliveries_nothing, h.arrivals_nothing, ih ⟨h.stream, h.short⟩]
        simp [unopposed, heeded]
      · obtain ⟨read, later, rest, -, hfeed, harr, hwire, hshort⟩ := h.feed
        have hrest : ∀ st, unopposed wanted course against st (deliveries ⟨rest⟩ (cut.map .ok)) =
            unopposed wanted course against st (groups Frame.encode rest.length later cut) := fun st =>
          @ih st { ep with decoder := ⟨rest⟩ } later ⟨hwire, hshort⟩
        rw [List.map_cons, deliveries_read hd hfeed, harr]
        simp only [unopposed, hrest]

end Conversation

/-! ### A trade. -/

/-- What a frame that a wait takes up makes of a trade: an exception is a refusal, a result is the answer. -/
def Stage.course (offerSlot : Fin 6) (offered : Pokemon100) (st : Stage) (f : Frame) : Course Stage :=
  match react offerSlot offered st f with
  | .goes st' => .goes st'
  | .ends (.ok _) => .answered
  | .ends (.error _) => .refused

/-- **No abort is passed over.**  Of the reads that the waits of a trade take in, none brings an abort of
its transaction, but for a read whose heeded frame ends the trade with an exception. -/
def unretracted (ep : GbLinkEndpoint) (offered : Pokemon100) : List (List Frame) → Bool :=
  unopposed Stage.wanted (Stage.course ep.offerSlot offered) (Aborts ep.txid) .ready

/-- What a stage has learnt passed its checks: the party has its length, and the slot is one of six. -/
def Stage.Sound : Stage → Prop
  | .slot captured => captured.length = 600
  | .mon captured selectedSlot => captured.length = 600 ∧ selectedSlot ≤ 5
  | _ => True

section Trade

variable {offerSlot : Fin 6} {offered : Pokemon100}

theorem Stage.course_goes {st st' : Stage} {f : Frame} (h : st.course offerSlot offered f = .goes st') :
    react offerSlot offered st f = .goes st' := by
  rw [course] at h
  split at h
  · rename_i hr
    obtain rfl := Course.goes.inj h
    exact hr
  · cases h
  · cases h

theorem Stage.course_answered {st : Stage} {f : Frame} (h : st.course offerSlot offered f = .answered) :
    ∃ r, react offerSlot offered st f = .ends (.ok r) := by
  rw [course] at h
  split at h
  · cases h
  · rename_i r hr
    exact ⟨r, hr⟩
  · cases h

theorem Stage.course_next {st : Stage} {f : Frame} (hw : f.messageType ∈ st.wanted) :
    st.course offerSlot offered f =
      match st.next offerSlot offered f with
      | .goes st' => .goes st'
      | .ends (.ok _) => .answered
      | .ends (.error _) => .refused := by
  rw [course, react, if_pos hw]

/-- Each check that is passed is remembered, so soundness goes from stage to stage. -/
theorem Stage.Sound.react {st st' : Stage} {f : Frame} (h : st.Sound)
    (hr : react offerSlot offered st f = .goes st') : st'.Sound := by
  rw [Gba.react] at hr
  split at hr
  · cases st with
    | ready =>
        obtain ⟨-, hr⟩ := Stage.check_goes hr
        cases hr
        trivial
    | started =>
        cases hr
        trivial
    | party =>
        obtain ⟨hlen, hr⟩ := Stage.check_goes hr
        cases hr
        exact hlen
    | slot captured =>
        obtain ⟨hslot, hr⟩ := Stage.check_goes hr
        cases hr
        exact ⟨h, hslot.2⟩
    | mon captured selectedSlot =>
        obtain ⟨selected, -, hr⟩ := Stage.attempt_goes hr
        obtain ⟨-, hr⟩ := Stage.check_goes hr
        cases hr
        trivial
    | commit selectedSlot selected =>
        obtain ⟨-, hr⟩ := Stage.check_goes hr
        obtain ⟨-, hr⟩ := Stage.check_goes hr
        cases hr
        trivial
    | closed selectedSlot selected => cases hr
  · cases hr

/-- A result is a confirmed one; `trade_once` has no other. -/
theorem Stage.react_confirmed {st : Stage} {f : Frame} {r : GbaTradeResult}
    (h : react offerSlot offered st f = .ends (.ok r)) : r.commitConfirmed = true := by
  rw [Gba.react] at h
  split at h
  · obtain ⟨selectedSlot, selected, rfl⟩ := Stage.next_ends h
    cases h
    rfl
  · cases h

/-- A frame that a device can still send when `n` frames are to come, numbered so that the last has the
highest number there is. -/
def say (txid : Uuid) (messageType : MessageType) (n : Nat) (payload : Bytes)
    (h : 0 < n ∧ payload.length ≤ maxPayload) : Frame :=
  ⟨messageType, txid, 0x100000000 - n, payload, by omega, h.2⟩

/-- **The device can always help a trade on**: at every stage there is a frame that passes its checks. -/
theorem exists_step (txid : Uuid) {st : Stage} (h : st.Sound) :
    ∃ f, f.transactionId = txid ∧ f.sequence = 0x100000000 - st.steps ∧ f.messageType ∈ st.wanted ∧
      ((∃ r, st.next offerSlot offered f = .ends (.ok r) ∧ r.commitConfirmed = true) ∨
        ∃ st', st.next offerSlot offered f = .goes st') := by
  cases st with
  | ready =>
      have hlen : (expectedReady offerSlot offered).length ≤ maxPayload := by
        rw [expectedReady, List.length_cons, length_sha256]
        decide
      exact ⟨say txid .offerReady 7 _ ⟨by decide, hlen⟩, rfl, rfl, List.mem_singleton_self _,
        Or.inr ⟨.started, Stage.check_pos rfl⟩⟩
  | started =>
      exact ⟨say txid .tradeSessionStarted 6 [] ⟨by decide, by decide⟩, rfl, rfl,
        List.mem_singleton_self _, Or.inr ⟨.party, rfl⟩⟩
  | party =>
      obtain ⟨captured, hlen⟩ : ∃ bs : Bytes, bs.length = 600 :=
        ⟨List.replicate 600 0, List.length_replicate⟩
      exact ⟨say txid .partnerParty 5 captured ⟨by decide, by rw [hlen]; decide⟩, rfl, rfl,
        List.mem_singleton_self _, Or.inr ⟨.slot captured, Stage.check_pos hlen⟩⟩
  | slot captured =>
      have hslot : ([0] : Bytes).length = 1 ∧ ([0] : Bytes).getD 0 0 ≤ 5 := by decide
      exact ⟨say txid .partnerSelectedSlot 4 [0] ⟨by decide, by decide⟩, rfl, rfl,
        List.mem_singleton_self _, Or.inr ⟨.mon captured 0, Stage.check_pos hslot⟩⟩
  | mon captured selectedSlot =>
      have hlen : (slice captured (selectedSlot * 100) ((selectedSlot + 1) * 100)).length = 100 := by
        have hlong : captured.length = 600 := h.1
        have hslot : selectedSlot ≤ 5 := h.2
        rw [length_slice (by omega)]
        omega
      refine ⟨say txid .partnerSelectedMon 3 _ ⟨by decide, by rw [hlen]; decide⟩, rfl, rfl,
        List.mem_singleton_self _, Or.inr ⟨.commit selectedSlot ⟨_, hlen⟩, ?_⟩⟩
      rw [Stage.next, say, Pokemon100.ofBytes, dif_pos hlen]
      exact Stage.check_pos rfl
  | commit selectedSlot selected =>
      have hlen : (expectedCommit offered selected).length ≤ maxPayload := by
        rw [expectedCommit, List.length_append, length_sha256, length_sha256]
        decide
      refine ⟨say txid .tradeCommitted 2 _ ⟨by decide, hlen⟩, rfl, rfl, List.mem_cons_self,
        Or.inr ⟨.closed selectedSlot selected, ?_⟩⟩
      rw [Stage.next, Stage.check_pos (by rfl), Stage.check_pos (by rfl)]
  | closed selectedSlot selected =>
      exact ⟨say txid .tradeLinkClosed 1 [0] ⟨by decide, by decide⟩, rfl, rfl, List.mem_cons_self,
        Or.inl ⟨_, rfl, rfl⟩⟩

/-- Frames of the transaction whose sequences are the last `n` there are, so that they may follow any others. -/
structure Late (txid : Uuid) (n : Nat) (fs : List Frame) : Prop where
  txid : ∀ f ∈ fs, f.transactionId = txid
  increasing : Increasing fs
  late : ∀ f ∈ fs, 0x100000000 - n ≤ f.sequence

theorem Stage.steps_le (st : Stage) : st.steps ≤ 7 := by
  cases st <;> simp [steps]

theorem Late.mono {txid : Uuid} {n m : Nat} {fs : List Frame} (h : Late txid n fs) (hle : n ≤ m) :
    Late txid m fs :=
  ⟨h.txid, h.increasing, fun f hf => Nat.le_trans (Nat.sub_le_sub_left hle _) (h.late f hf)⟩

/-- **Every stage can still end well**, with frames that come late enough to follow any others. -/
theorem exists_finish (txid : Uuid) {n : Nat} {st : Stage} (hn : st.steps = n) (h : st.Sound) :
    ∃ more r, Late txid n more ∧ inOrder offerSlot offered st more = .ok r ∧ r.commitConfirmed = true := by
  induction n generalizing st with
  | zero => cases st <;> simp [Stage.steps] at hn
  | succ n ih =>
      obtain ⟨f, htxid, hseq, hw, hnext⟩ := @exists_step offerSlot offered txid st h
      have hheed : heeds st.wanted f = true := by simp [heeds, hw]
      rcases hnext with ⟨r, hnext, hr⟩ | ⟨st', hnext⟩
      · refine ⟨[f], r, ⟨?_, List.pairwise_singleton _ f, ?_⟩, ?_, hr⟩
        · intro g hg
          rw [List.mem_singleton.mp hg]
          exact htxid
        · intro g hg
          rw [List.mem_singleton.mp hg, hseq]
          omega
        · simp only [inOrder, hheed, react, if_pos hw, hnext, if_true]
      · have hgoes : react offerSlot offered st f = .goes st' := by rw [react, if_pos hw, hnext]
        have hsteps := Stage.steps_next hnext
        obtain ⟨more, r, hlate, hrun, hr⟩ := @ih st' (by omega) (h.react hgoes)
        refine ⟨f :: more, r, ⟨?_, List.pairwise_cons.mpr ⟨?_, hlate.increasing⟩, ?_⟩, ?_, hr⟩
        · intro g hg
          rcases List.mem_cons.mp hg with rfl | hg
          · exact htxid
          · exact hlate.txid g hg
        · intro g hg
          have hlate' := hlate.late g hg
          have hle := st.steps_le
          show f.sequence < g.sequence
          omega
        · intro g hg
          rcases List.mem_cons.mp hg with rfl | hg
          · rw [hseq]
            omega
          · have hlate' := hlate.late g hg
            omega
        · simp only [inOrder, hheed, hgoes, if_true]
          exact hrun

/-- **A trade that stands can be brought to a confirmed result**, by late frames in reads that bring one
each. -/
theorem Standing.finishes (txid : Uuid) {st : Stage} {reads : List (List Frame)} {o : Option Stage}
    (h : Standing Stage.wanted (Stage.course offerSlot offered) st reads o) (hst : st.Sound) :
    ∃ more r, Late txid 7 more ∧ r.commitConfirmed = true ∧
      ∀ single : List (List Frame), (∀ read ∈ single, read.length ≤ 1) → single.flatten = more →
        follow offerSlot offered st (reads ++ single) = .ok r := by
  induction h with
  | start st =>
      obtain ⟨more, r, hlate, hrun, hr⟩ := exists_finish txid rfl hst
      refine ⟨more, r, hlate.mono st.steps_le, hr, ?_⟩
      intro single hsingle hflat
      rw [List.nil_append, follow_eq_inOrder (calm_of_single hsingle), hflat]
      exact hrun
  | passed hh _ ih =>
      obtain ⟨more, r, hlate, hr, hrun⟩ := ih hst
      refine ⟨more, r, hlate, hr, ?_⟩
      intro single hsingle hflat
      rw [List.cons_append, follow_passed hh]
      exact hrun single hsingle hflat
  | goes hh hgo _ ih =>
      have hgoes := Stage.course_goes hgo
      obtain ⟨more, r, hlate, hr, hrun⟩ := ih (hst.react hgoes)
      refine ⟨more, r, hlate, hr, ?_⟩
      intro single hsingle hflat
      rw [List.cons_append, follow_heeded hh, hgoes]
      exact hrun single hsingle hflat
  | answered hh hend =>
      obtain ⟨r, hends⟩ := Stage.course_answered hend
      refine ⟨[], r, ⟨by simp, List.Pairwise.nil, by simp⟩, Stage.react_confirmed hends, ?_⟩
      intro single _ _
      rw [List.singleton_append, follow_heeded hh, hends]

/-- **A trade that returns has consumed no frame against it exactly when it was unopposed.** -/
theorem drive_unopposed (against : Frame → Prop) [DecidablePred against] {n : Nat} {st : Stage}
    {ep ep' : GbLinkEndpoint} {r : GbaTradeResult}
    (h : ep.call (drive offerSlot offered n st) = (.ok r, ep')) :
    ∃ reads, Heard ep ep' reads ∧
      (unopposed Stage.wanted (Stage.course offerSlot offered) against st
          (deliveries ep.decoder ep.transport.reads) = true ↔ ∀ f ∈ reads.flatten, ¬ against f) := by
  induction n generalizing st ep with
  | zero => cases h
  | succ n ih =>
      obtain ⟨f, ep₁, hwait, hrest⟩ := call_bind_ok h
      have hears := waitFor_hears hwait
      obtain ⟨behind, hfirst⟩ := hears.first
      have hcourse : st.course offerSlot offered f = _ := Stage.course_next hears.awaited
      cases hnext : st.next offerSlot offered f with
      | ends o =>
          rw [hnext, proceed, show ep₁.call (answer o) = (o, ep₁) from rfl, Prod.mk.injEq] at hrest
          obtain ⟨rfl, rfl⟩ := hrest
          rw [hnext] at hcourse
          refine ⟨_, hears.heard, ?_⟩
          rw [unopposed_hear hfirst (by rw [hcourse]; exact fun e => by cases e), hcourse]
          exact and_iff_left fun st' e => by cases e
      | goes st' =>
          rw [hnext] at hrest hcourse
          obtain ⟨reads, hheard, hiff⟩ := ih hrest
          refine ⟨_, hears.heard.trans hheard, ?_⟩
          rw [unopposed_hear hfirst (by rw [hcourse]; exact fun e => by cases e), hcourse, hears.left,
            List.flatten_append, List.forall_mem_append, ← hiff]
          simp

end Trade

/-- A trade that returns has consumed no abort exactly when it passed over none: the two conditions agree on
calls that return, and the second is about any call. -/
theorem tradeOnce_unretracted {ep ep' : GbLinkEndpoint} {offered : Pokemon100} {r : GbaTradeResult}
    (h : ep.call (tradeOnce offered) = (.ok r, ep')) :
    unretracted ep offered (deliveries ep.decoder ep.transport.reads) = true ↔
      ∀ f ∈ consumed ep ep', ¬ Aborts ep.txid f := by
  obtain ⟨data, hdrive⟩ := tradeOnce_drives h
  obtain ⟨reads, hheard, hiff⟩ := drive_unopposed (Aborts ep.txid) hdrive
  have hconsumed : consumed ep ep' = reads.flatten := hheard.consumed_eq
  rw [hconsumed]
  exact hiff

/-- A trade that returns a confirmed result although its reads passed over an abort has consumed that abort. -/
theorem tradeOnce_accepts {ep : GbLinkEndpoint} {offered : Pokemon100} {fs : List Frame} {cut : List Bytes}
    {r : GbaTradeResult} (hcut : Streaming ep fs cut) (hr : r.commitConfirmed = true)
    (h : ((withReads ep cut).call (tradeOnce offered)).1 = .ok r)
    (hbad : unretracted ep offered (arrivals ep fs cut) = false) :
    ∃ r ep', (withReads ep cut).call (tradeOnce offered) = (.ok r, ep') ∧ r.commitConfirmed = true ∧
      ∃ f ∈ consumed (withReads ep cut) ep', Aborts ep.txid f := by
  have hcall := call_returns h
  refine ⟨r, _, hcall, hr, ?_⟩
  have hdeliv : unretracted ep offered (deliveries ep.decoder (cut.map .ok)) = false :=
    (unopposed_deliveries hcut).trans hbad
  by_contra hnone
  have hfine : unretracted ep offered (deliveries ep.decoder (cut.map .ok)) = true :=
    (tradeOnce_unretracted hcall).mpr fun f hf habort => hnone ⟨f, hf, habort⟩
  rw [hfine] at hdeliv
  cases hdeliv

/-! ### An abort request. -/

/-- What the one wait of an abort request asks for: that the trade was aborted, or an error. -/
def abortWanted (_ : Unit) : List MessageType := [.tradeAborted, .error]

/-- What a frame that the wait takes up makes of an abort request: an abort answers it with yes, an `ERROR`
refuses. -/
def abortCourse (_ : Unit) (f : Frame) : Course Unit :=
  if f.messageType = .tradeAborted then .answered else .refused

/-- **No commit is passed over.**  Of the reads that the wait of an abort request takes in, none brings a
commit, but for one whose heeded frame is an `ERROR`. -/
def uncommitted : List (List Frame) → Bool :=
  unopposed abortWanted abortCourse (fun f => f.messageType = .tradeCommitted) ()

/-- A message that can go out leaves the receiving side as it was, whatever the reads will bring. -/
theorem send_sent {ep : GbLinkEndpoint} {messageType : MessageType} {payload : Bytes}
    (h : (ep.call (send messageType payload)).1 = .ok ()) : ∃ data, ∀ reads,
      ({ ep with transport.reads := reads } : GbLinkEndpoint).call (send messageType payload) =
        (.ok (), offering { ep with transport.reads := reads } data) := by
  rw [call_send] at h
  cases hf : Frame.create messageType ep.txid (ep.outSequence + 1) payload 0 with
  | error e =>
      rw [hf] at h
      cases h
  | ok frame =>
      rw [hf] at h
      simp only at h
      have hw : ∀ e, ep.transport.writes.head? ≠ some (.error e) := by
        intro e he
        obtain ⟨rest, hrest⟩ := List.head?_eq_some_iff.mp he
        rw [call_write_error { ep with outSequence := ep.outSequence + 1 } hrest frame.encode] at h
        cases h
      refine ⟨frame.encode, fun reads => ?_⟩
      rw [call_send]
      simp only [hf]
      exact call_write { ep with outSequence := ep.outSequence + 1, transport.reads := reads } hw _

theorem abortIfSafe_call {ep ep₁ ep₂ : GbLinkEndpoint} {f : Frame} (hc : ep.connected = true)
    (hsend : ep.call (send .abortIfSafe []) = (.ok (), ep₁))
    (hwait : ep₁.call (waitFor [.tradeAborted, .error]) = (.ok f, ep₂)) :
    ep.call abortIfSafe = (.ok (decide (f.messageType = .tradeAborted)), ep₂) := by
  rw [abortIfSafe, call_get_bind, hc]
  simp only [Bool.not_true, Bool.false_eq_true, if_false, call_bind, hsend, hwait]
  rfl

/-- A call of `abort_if_safe` on a connected endpoint that answers: it consumed what its one wait heard. -/
theorem abortIfSafe_hears {ep ep' : GbLinkEndpoint} {b : Bool} (hc : ep.connected = true)
    (h : ep.call abortIfSafe = (.ok b, ep')) :
    consumed ep ep' =
        (hear [.tradeAborted, .error] (deliveries ep.decoder ep.transport.reads)).1.flatten ∧
      ∃ f behind, heeded [.tradeAborted, .error] (consumed ep ep') = f :: behind ∧
        b = decide (f.messageType = .tradeAborted) := by
  rw [abortIfSafe, call_get_bind, hc] at h
  obtain ⟨u, ep₁, hsend, h⟩ := call_bind_ok h
  obtain ⟨data, hdata⟩ := send_sent (congrArg Prod.fst hsend)
  obtain rfl : offering ep data = ep₁ := (Prod.mk.inj ((hdata ep.transport.reads).symm.trans hsend)).2
  obtain ⟨f, ep₂, hwait, h⟩ := call_bind_ok h
  obtain ⟨hb, rfl⟩ := Prod.mk.inj h
  have hears := waitFor_hears hwait
  have hconsumed : consumed ep ep₂ = _ := hears.heard.consumed_eq
  obtain ⟨behind, hfirst⟩ := hears.first
  rw [← hconsumed] at hfirst
  exact ⟨hconsumed, f, behind, hfirst, (Except.ok.inj hb).symm⟩

/-- An abort that is answered with yes has consumed no commit exactly when it passed over none. -/
theorem abortIfSafe_uncommitted {ep ep' : GbLinkEndpoint} (hc : ep.connected = true)
    (h : ep.call abortIfSafe = (.ok true, ep')) :
    uncommitted (deliveries ep.decoder ep.transport.reads) = true ↔
      ∀ f ∈ consumed ep ep', f.messageType ≠ .tradeCommitted := by
  obtain ⟨hconsumed, f, behind, hfirst, haborted⟩ := abortIfSafe_hears hc h
  have hcourse : abortCourse () f = .answered := if_pos (of_decide_eq_true haborted.symm)
  rw [hconsumed] at hfirst ⊢
  change heeded (abortWanted ()) (hear (abortWanted ()) _).1.flatten = _ at hfirst
  rw [uncommitted, unopposed_hear hfirst (by rw [hcourse]; exact fun e => by cases e), hcourse]
  exact and_iff_left fun st' e => by cases e

/-- Of reads that bring one frame at most, a wait takes up the one frame there is. -/
theorem heed_single {wanted : List MessageType} {f : Frame} {single : List (List Frame)}
    (hf : heeds wanted f = true) (hsingle : ∀ read ∈ single, read.length ≤ 1) (hflat : single.flatten = [f]) :
    ∃ later, heed wanted single = some (f, later) := by
  induction single with
  | nil => cases hflat
  | cons read single ih =>
      have hrest : ∀ read ∈ single, read.length ≤ 1 := fun r hr => hsingle r (List.mem_cons_of_mem _ hr)
      cases read with
      | nil =>
          rw [List.flatten_cons, List.nil_append] at hflat
          exact ih hrest hflat
      | cons g behind =>
          rw [List.flatten_cons, List.cons_append] at hflat
          obtain ⟨rfl, -⟩ := List.cons.inj hflat
          refine ⟨single, ?_⟩
          simp [heed, heeded, hf]

/-- **An abort request that stands can still be answered with yes.** -/
theorem Standing.aborts (txid : Uuid) {st : Unit} {reads : List (List Frame)} {o : Option Unit}
    (h : Standing abortWanted abortCourse st reads o) :
    ∃ more, Late txid 1 more ∧
      ∀ single : List (List Frame), (∀ read ∈ single, read.length ≤ 1) → single.flatten = more →
        ∃ f later, heed (abortWanted st) (reads ++ single) = some (f, later) ∧
          f.messageType = .tradeAborted := by
  induction h with
  | start st =>
      refine ⟨[say txid .tradeAborted 1 [] ⟨by decide, by decide⟩],
        ⟨by simp [say], List.pairwise_singleton _ _, by simp [say]⟩, ?_⟩
      intro single hsingle hflat
      obtain ⟨later, hheed⟩ := @heed_single (abortWanted st) _ single rfl hsingle hflat
      exact ⟨_, later, hheed, rfl⟩
  | passed hh _ ih =>
      obtain ⟨more, hlate, hrun⟩ := ih
      refine ⟨more, hlate, ?_⟩
      intro single hsingle hflat
      rw [List.cons_append, heed, hh]
      exact hrun single hsingle hflat
  | @goes st st' read behind f reads o hh hgo _ ih =>
      rw [abortCourse] at hgo
      split at hgo <;> cases hgo
  | @answered st read behind f hh hend =>
      refine ⟨[], ⟨by simp, List.Pairwise.nil, by simp⟩, ?_⟩
      intro single _ _
      refine ⟨f, single, ?_, ?_⟩
      · rw [List.singleton_append, heed, hh]
      · rw [abortCourse] at hend
        split at hend
        · assumption
        · cases hend

/-- An abort request whose wait takes up an abort is answered with yes. -/
theorem abortIfSafe_answered {ep : GbLinkEndpoint} {fs : List Frame} {cut : List Bytes} {f : Frame}
    {later : List (List Frame)} (hfs : FromDevice ep fs) (hcut : Streaming ep fs cut)
    (hc : ep.connected = true) (hsend : (ep.call (send .abortIfSafe [])).1 = .ok ())
    (hhead : ∀ f ∈ fs.head?, Above ep.replay ep.txid f)
    (hheed : heed [.tradeAborted, .error] (arrivals ep fs cut) = some (f, later))
    (hf : f.messageType = .tradeAborted) : ((withReads ep cut).call abortIfSafe).1 = .ok true := by
  obtain ⟨data, hsent⟩ := send_sent hsend
  have habove := above_of_head hfs hhead
  have hlisten : Listening (offering (withReads ep cut) data) fs cut :=
    ⟨⟨hcut.stream, hcut.short⟩, ⟨hfs.txid, hfs.increasing⟩, habove⟩
  have hwait := waitLoop_heed [.tradeAborted, .error] hlisten
  rw [show arrivals (offering (withReads ep cut) data) fs cut = arrivals ep fs cut from rfl, hheed, Waited,
    if_pos (by rw [hf]; decide)] at hwait
  obtain ⟨ep', -, -, hloop, -⟩ := hwait
  rw [@abortIfSafe_call (withReads ep cut) _ _ _ hc (hsent (cut.map .ok)) hloop, hf]
  rfl

/-- An abort request that is answered with yes although its reads passed over a commit has consumed that
commit. -/
theorem abortIfSafe_accepts {ep : GbLinkEndpoint} {fs : List Frame} {cut : List Bytes}
    (hcut : Streaming ep fs cut) (hc : ep.connected = true)
    (h : ((withReads ep cut).call abortIfSafe).1 = .ok true) (hbad : uncommitted (arrivals ep fs cut) = false) :
    ∃ ep', (withReads ep cut).call abortIfSafe = (.ok true, ep') ∧
      ∃ f ∈ consumed (withReads ep cut) ep', f.messageType = .tradeCommitted := by
  have hcall := call_returns h
  refine ⟨_, hcall, ?_⟩
  have hdeliv : uncommitted (deliveries ep.decoder (cut.map .ok)) = false :=
    (unopposed_deliveries hcut).trans hbad
  by_contra hnone
  have hfine : uncommitted (deliveries ep.decoder (cut.map .ok)) = true :=
    (@abortIfSafe_uncommitted (withReads ep cut) _ hc hcall).mpr fun f hf hcommit => hnone ⟨f, hf, hcommit⟩
  rw [hfine] at hdeliv
  cases hdeliv

/-! ### Both of them. -/

/-- **The device can go on so.**  Up to the read with which `fine` fails the reads bring what they
brought, and then the frames of one read each, so that `bad` comes about. -/
def GoesOn (ep : GbLinkEndpoint) (fs : List Frame) (cut : List Bytes) (fine : List (List Frame) → Bool)
    (bad : List Bytes → Prop) : Prop :=
  ∃ k fs' cut', fine ((arrivals ep fs cut).take k) = false ∧ FromDevice ep fs' ∧ Cutting ep fs' cut' ∧
    (arrivals ep fs' cut').take k = (arrivals ep fs cut).take k ∧
    (∀ read ∈ (arrivals ep fs' cut').drop k, read.length ≤ 1) ∧ bad cut'

/-- A conversation that is opposed and stands can go on with any late frames, read one at a time. -/
theorem goesOn_of_opposed {σ : Type} {wanted : σ → List MessageType} {course : σ → Frame → Course σ}
    {against : Frame → Prop} [DecidablePred against] {st : σ} {ep : GbLinkEndpoint} {fs : List Frame}
    {cut : List Bytes} {n : Nat} {bad : List Bytes → Prop} (hfs : FromDevice ep fs)
    (hcut : Cutting ep fs cut) (hroom : ∀ f ∈ fs, f.sequence < 0x100000000 - n)
    (h : unopposed wanted course against st (arrivals ep fs cut) = false)
    (hends : ∀ reads o, Standing wanted course st reads o → ∃ more, Late ep.txid n more ∧
      ∀ fs' cut' single, FromDevice ep fs' → Cutting ep fs' cut' → fs'.head? = fs.head? →
        arrivals ep fs' cut' = reads ++ single → (∀ read ∈ single, read.length ≤ 1) → single.flatten = more →
        unopposed wanted course against st (arrivals ep fs' cut') = false → bad cut') :
    GoesOn ep fs cut (unopposed wanted course against st) bad := by
  obtain ⟨before, read, after, o, harr, hne, hstands, hopposed⟩ := opposed h
  obtain ⟨more, hlate, hbad⟩ := hends _ o hstands
  obtain ⟨cut', single, hdev, hcut', hsame, harr', hsingle, hflat⟩ :=
    hcut.continues hfs hne harr ⟨hlate.txid, hlate.increasing⟩ fun f hf g hg =>
      Nat.lt_of_lt_of_le (hroom f hf) (hlate.late g hg)
  obtain ⟨htake, hdrop⟩ := @take_of_continues before after single read
  refine ⟨before.length + 1, _, cut', ?_, hdev, hcut', ?_, ?_, ?_⟩
  · have hfirst := (@take_of_continues before after [] read).1
    rw [harr, ← hfirst, List.take_of_length_le (by simp)]
    exact hopposed []
  · rw [harr', harr, htake]
  · rw [harr', hdrop]
    exact hsingle
  · refine hbad _ cut' single hdev hcut' hsame ?_ hsingle hflat ?_
    · rw [harr', List.append_assoc, List.singleton_append]
    · rw [harr']
      exact hopposed single

namespace Sample

/-- A device that takes the offer, and says that the trade was aborted, and nothing more. -/
def hesitant : List Frame :=
  [event .offerReady 1 (expectedReady endpoint.offerSlot mon), event .tradeAborted 2 []]

/-- The same device, which trades all the same, as if it had not said so. -/
def retracted : List Frame :=
  hesitant ++ [event .tradeSessionStarted 3 [], event .partnerParty 4 (List.replicate 600 0),
    event .partnerSelectedSlot 5 [0], event .partnerSelectedMon 6 mon.raw,
    event .tradeCommitted 7 (expectedCommit mon mon), event .tradeLinkClosed 8 [0]]

/-- A device that says it has committed, and nothing more. -/
def committed : List Frame := [event .tradeCommitted 1 (expectedCommit mon mon)]

/-- A device that answers the abort request with yes, behind the commit. -/
def abandoned : List Frame := [event .tradeAborted 2 []]

/-- A device that says both, the commit first. -/
def undecided : List Frame := committed ++ abandoned

/-- Each frame in reads of its own, of 512 bytes at most. -/
def apart (fs : List Frame) : List Bytes := fs.flatMap alone

theorem apart_streaming (fs : List Frame) : Streaming endpoint fs (apart fs) :=
  ⟨(flatten_alone fs).symm, FrameDecoder.decoder_delimits.short_zero fs⟩

theorem new_to_endpoint (fs : List Frame) : ∀ f ∈ fs.head?, Above endpoint.replay endpoint.txid f := by
  intro f _ n hn
  exact absurd hn (by simp [endpoint])

theorem retracted_fromDevice : FromDevice endpoint retracted := by
  refine ⟨by decide +kernel, ?_⟩
  unfold Increasing
  decide +kernel

theorem undecided_fromDevice : FromDevice endpoint undecided := by
  refine ⟨by decide +kernel, ?_⟩
  unfold Increasing
  decide +kernel

theorem retraction_returns :
    ((withReads endpoint (apart retracted)).call (tradeOnce mon)).1 = .ok ⟨⟨mon, mon, true⟩, 0, true⟩ := by
  rw [tradeOnce_follow retracted_fromDevice (apart_streaming retracted) conversation_opens
    (new_to_endpoint retracted)]
  apply eq_ok_of_outcome
  decide +kernel

theorem indecision_answered : ((withReads endpoint (apart undecided)).call abortIfSafe).1 = .ok true := by
  have hheed : heed [.tradeAborted, .error] (arrivals endpoint undecided (apart undecided)) =
      some (event .tradeAborted 2 [], [[]]) := by
    decide +kernel
  exact abortIfSafe_answered undecided_fromDevice (apart_streaming undecided) rfl rfl
    (new_to_endpoint undecided) hheed rfl

end Sample

end TradeBroker.Gba
