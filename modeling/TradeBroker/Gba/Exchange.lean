/-
# TradeBroker.Gba.Exchange — what a conversation about one trade comes to.

`trade_once` waits seven times, each time for another kind of frame.  Here the same conversation is a
machine: a `Stage` is what has been learnt so far, `react` is what one frame does to it.  `inOrder`
runs the machine over the frames in the order in which they were sent: this is what the trade comes
to when only the frames count.

The endpoint does not run the machine that way.  A wait ends INSIDE the loop over the frames of one
read, and what that read held behind the awaited frame is gone, so of every read at most one frame
is reacted to.  `follow` is the machine run read by read with that loss, and `tradeOnce_follow`
proves that it is what `trade_once` computes, for every cutting of every stream of frames.

The two runs agree when no read overtakes a wait (`follow_eq_inOrder`).  When one does, the endpoint has
fallen behind the frames (`overtaken`), and a stage can always be told from the stages beyond it by
further frames (`exists_provocation`): a stage ends on a frame that the earlier ones pass over.  That is
the core of the converse in `Gba.Cutting`.
-/
import Mathlib.Data.List.TakeWhile
import TradeBroker.Gba.GbLink

namespace TradeBroker.Gba

open Lib GbLinkEndpoint

/-! ## §1 — the machine. -/

/-- What has been learnt when a wait begins: the stages of `trade_once`, each with the values that its later
checks and the result need. -/
inductive Stage where
  | ready
  | started
  | party
  | slot (party : Bytes)
  | mon (party : Bytes) (selectedSlot : Nat)
  | commit (selectedSlot : Nat) (selected : Pokemon100)
  | closed (selectedSlot : Nat) (selected : Pokemon100)

/-- What a frame does to the conversation: it goes on at a stage, or it ends, with a result or an exception. -/
inductive Reaction where
  | goes (st : Stage)
  | ends (o : Except Exc GbaTradeResult)

namespace Stage

/-- The frames the stage waits for, as the call of `_wait_for` lists them. -/
def wanted : Stage → List MessageType
  | ready => [.offerReady]
  | started => [.tradeSessionStarted]
  | party => [.partnerParty]
  | slot _ => [.partnerSelectedSlot]
  | mon _ _ => [.partnerSelectedMon]
  | commit _ _ => [.tradeCommitted, .tradeAborted, .error]
  | closed _ _ => [.tradeLinkClosed, .error]

/-- The waits still to come, this one included: seven at the first stage, one at the last. -/
def steps : Stage → Nat
  | ready => 7
  | started => 6
  | party => 5
  | slot _ => 4
  | mon _ _ => 3
  | commit _ _ => 2
  | closed _ _ => 1

/-- A check of the conversation: go on, or end with the exception. -/
def check (condition : Prop) [Decidable condition] (e : Exc) (go : Reaction) : Reaction :=
  if condition then go else .ends (.error e)

/-- A value that may be an exception: go on with it, or end with the exception. -/
def attempt {α : Type} (r : Except Exc α) (go : α → Reaction) : Reaction :=
  match r with
  | .error e => .ends (.error e)
  | .ok a => go a

/-- What an awaited frame does: the checks that `trade_once` makes between this wait and the next, in their
order. -/
def next (offerSlot : Fin 6) (offered : Pokemon100) : Stage → Frame → Reaction
  | ready, f =>
      check (f.payload = expectedReady offerSlot offered)
        (protocolError "OFFER_READY slot/hash does not match requested record") (.goes started)
  | started, _ => .goes party
  | party, f =>
      check (f.payload.length = 600) (protocolError "PARTNER_PARTY must be exactly 600 bytes")
        (.goes (slot f.payload))
  | slot captured, f =>
      check (f.payload.length = 1 ∧ f.payload.getD 0 0 ≤ 5)
        (protocolError "PARTNER_SELECTED_SLOT must be one byte in 0..5")
        (.goes (mon captured (f.payload.getD 0 0).toNat))
  | mon captured selectedSlot, f =>
      attempt (Pokemon100.ofBytes f.payload) fun selected =>
        check (selected.raw = slice captured (selectedSlot * 100) ((selectedSlot + 1) * 100))
          (protocolError "selected-mon event contradicts captured partner party")
          (.goes (commit selectedSlot selected))
  | commit selectedSlot selected, f =>
      check (f.messageType = .tradeCommitted)
        ⟨.commitNotConfirmed, "GBA trade ended with " ++ f.messageType.name⟩
        (check (f.payload = expectedCommit offered selected)
          (protocolError "TRADE_COMMITTED hashes do not match offered/selected records")
          (.goes (closed selectedSlot selected)))
  | closed selectedSlot selected, f =>
      .ends (.ok ⟨⟨offered, selected, true⟩, selectedSlot,
        decide (f.messageType = .tradeLinkClosed ∧ f.payload = [0])⟩)

/-- A check that goes on has passed. -/
theorem check_goes {condition : Prop} [Decidable condition] {e : Exc} {go : Reaction} {st : Stage}
    (h : check condition e go = .goes st) : condition ∧ go = .goes st := by
  unfold check at h
  split at h
  · rename_i hc
    exact ⟨hc, h⟩
  · exact absurd h (by simp)

theorem check_pos {condition : Prop} [Decidable condition] {e : Exc} {go : Reaction} (h : condition) :
    check condition e go = go := if_pos h

/-- A value that went on was no exception. -/
theorem attempt_goes {α : Type} {r : Except Exc α} {go : α → Reaction} {st : Stage}
    (h : attempt r go = .goes st) : ∃ a, r = .ok a ∧ go a = .goes st := by
  cases r with
  | error e => exact absurd h (by simp [attempt])
  | ok a => exact ⟨a, rfl, h⟩

/-- Every awaited frame brings the conversation one wait further. -/
theorem steps_next {offerSlot : Fin 6} {offered : Pokemon100} {st st' : Stage} {f : Frame}
    (h : st.next offerSlot offered f = .goes st') : st'.steps + 1 = st.steps := by
  cases st with
  | ready =>
      obtain ⟨_, h⟩ := check_goes h
      cases h
      rfl
  | started =>
      cases h
      rfl
  | party =>
      obtain ⟨_, h⟩ := check_goes h
      cases h
      rfl
  | slot captured =>
      obtain ⟨_, h⟩ := check_goes h
      cases h
      rfl
  | mon captured selectedSlot =>
      obtain ⟨selected, _, h⟩ := attempt_goes h
      obtain ⟨_, h⟩ := check_goes h
      cases h
      rfl
  | commit selectedSlot selected =>
      obtain ⟨_, h⟩ := check_goes h
      obtain ⟨_, h⟩ := check_goes h
      cases h
      rfl
  | closed selectedSlot selected => cases h

end Stage

/-- A wait for `wanted` does not pass over the frame: it is awaited, or an `ERROR`. -/
def heeds (wanted : List MessageType) (f : Frame) : Bool :=
  decide (f.messageType ∈ wanted) || decide (f.messageType = .error)

/-- The exception for an `ERROR` that no wait asked for, with its payload as Python prints bytes. -/
def linkError (f : Frame) : Exc := endpointError ("GB-Link error: " ++ bytesRepr f.payload)

/-- What a heeded frame does: an `ERROR` that was not asked for ends the conversation, another frame is looked
at by its stage. -/
def react (offerSlot : Fin 6) (offered : Pokemon100) (st : Stage) (f : Frame) : Reaction :=
  if f.messageType ∈ st.wanted then st.next offerSlot offered f else .ends (.error (linkError f))

section Machine

variable (offerSlot : Fin 6) (offered : Pokemon100)

/-- **The outcome that the order of the frames decides**: each stage reacts to the first frame that it heeds,
and the next stage goes on right behind that frame; frames that run out are a timeout. -/
def inOrder : Stage → List Frame → Except Exc GbaTradeResult
  | st, [] => .error (timeoutError st.wanted)
  | st, f :: fs =>
      if heeds st.wanted f then
        match react offerSlot offered st f with
        | .ends o => o
        | .goes st' => inOrder st' fs
      else inOrder st fs

/-- The frames of a read from the first heeded one on; none, when the wait passes over the whole read. -/
def heeded (wanted : List MessageType) (read : List Frame) : List Frame :=
  read.dropWhile fun f => !heeds wanted f

/-- The outcome of the endpoint, which reacts to one frame of a read and drops the rest: the next stage begins
with the next read. -/
def follow : Stage → List (List Frame) → Except Exc GbaTradeResult
  | st, [] => .error (timeoutError st.wanted)
  | st, read :: reads =>
      match heeded st.wanted read with
      | [] => follow st reads
      | f :: _ =>
          match react offerSlot offered st f with
          | .ends o => o
          | .goes st' => follow st' reads

/-- **No read overtakes a wait.**  Behind the frame that ends a wait, no read brings a frame that the
next wait would heed. -/
def calm : Stage → List (List Frame) → Bool
  | _, [] => true
  | st, read :: reads =>
      match heeded st.wanted read with
      | [] => calm st reads
      | f :: behind =>
          match react offerSlot offered st f with
          | .ends _ => true
          | .goes st' => behind.all (fun g => !heeds st'.wanted g) && calm st' reads

/-- What some frames did to a conversation that goes on with `more`: they ended it, or they brought
it to a stage with `n` waits at most. -/
def Reaches (n : Nat) (run : List Frame → Except Exc GbaTradeResult) : Prop :=
  (∃ o, ∀ more, run more = o) ∨
    ∃ st : Stage, st.steps ≤ n ∧ ∀ more, run more = inOrder offerSlot offered st more

variable {offerSlot : Fin 6} {offered : Pokemon100}

theorem inOrder_skip {st : Stage} {fs gs : List Frame} (h : ∀ f ∈ fs, heeds st.wanted f = false) :
    inOrder offerSlot offered st (fs ++ gs) = inOrder offerSlot offered st gs := by
  induction fs with
  | nil => rfl
  | cons f fs ih =>
      have hf : heeds st.wanted f = false := h f (by simp)
      rw [List.cons_append, inOrder, hf, if_neg (by simp)]
      exact ih fun g hg => h g (by simp [hg])

/-- A read is what the wait passes over, and behind it what `heeded` keeps. -/
theorem heeded_split (wanted : List MessageType) (read : List Frame) :
    ∃ before, read = before ++ heeded wanted read ∧ ∀ f ∈ before, heeds wanted f = false := by
  refine ⟨read.takeWhile fun f => !heeds wanted f, ?_, ?_⟩
  · exact (List.takeWhile_append_dropWhile).symm
  · intro f hf
    simpa using List.mem_takeWhile_imp hf

theorem heeds_of_heeded {wanted : List MessageType} {read : List Frame} {f : Frame}
    {behind : List Frame} (h : heeded wanted read = f :: behind) : heeds wanted f = true := by
  induction read with
  | nil => simp [heeded] at h
  | cons g read ih =>
      rw [heeded, List.dropWhile_cons] at h
      split at h
      · exact ih h
      · rename_i hg
        injection h with hgf _
        subst hgf
        simpa using hg

/-! One read, in each of the three ways to run over it. -/

section Read

variable {st : Stage} {read : List Frame}

theorem inOrder_passed (hh : heeded st.wanted read = []) (fs : List Frame) :
    inOrder offerSlot offered st (read ++ fs) = inOrder offerSlot offered st fs := by
  obtain ⟨before, hread, hbefore⟩ := heeded_split st.wanted read
  rw [hh, List.append_nil] at hread
  subst hread
  exact inOrder_skip hbefore

theorem follow_passed (hh : heeded st.wanted read = []) (reads : List (List Frame)) :
    follow offerSlot offered st (read :: reads) = follow offerSlot offered st reads := by
  simp only [follow, hh]

theorem calm_passed (hh : heeded st.wanted read = []) (reads : List (List Frame)) :
    calm offerSlot offered st (read :: reads) = calm offerSlot offered st reads := by
  simp only [calm, hh]

variable {f : Frame} {behind : List Frame}

theorem inOrder_heeded (hh : heeded st.wanted read = f :: behind) (fs : List Frame) :
    inOrder offerSlot offered st (read ++ fs) =
      match react offerSlot offered st f with
      | .ends o => o
      | .goes st' => inOrder offerSlot offered st' (behind ++ fs) := by
  obtain ⟨before, hread, hbefore⟩ := heeded_split st.wanted read
  rw [hh] at hread
  rw [hread, List.append_assoc, inOrder_skip hbefore]
  simp only [List.cons_append, inOrder, heeds_of_heeded hh, if_true]

theorem follow_heeded (hh : heeded st.wanted read = f :: behind) (reads : List (List Frame)) :
    follow offerSlot offered st (read :: reads) =
      match react offerSlot offered st f with
      | .ends o => o
      | .goes st' => follow offerSlot offered st' reads := by
  simp only [follow, hh]

theorem calm_heeded (hh : heeded st.wanted read = f :: behind) (reads : List (List Frame)) :
    calm offerSlot offered st (read :: reads) =
      match react offerSlot offered st f with
      | .ends _ => true
      | .goes st' => behind.all (fun g => !heeds st'.wanted g) && calm offerSlot offered st' reads := by
  simp only [calm, hh]

end Read

theorem heeded_eq_nil {wanted : List MessageType} {fs : List Frame} :
    heeded wanted fs = [] ↔ fs.all (fun g => !heeds wanted g) = true := by
  rw [heeded, List.dropWhile_eq_nil_iff, List.all_eq_true]

/-- **Where no read overtakes a wait, nothing that counts is lost**, and the outcome of the endpoint is that
of the frames in order.  By induction over the reads. -/
theorem follow_eq_inOrder {st : Stage} {reads : List (List Frame)}
    (h : calm offerSlot offered st reads = true) :
    follow offerSlot offered st reads = inOrder offerSlot offered st reads.flatten := by
  induction reads generalizing st with
  | nil => rfl
  | cons read reads ih =>
      rw [List.flatten_cons]
      cases hh : heeded st.wanted read with
      | nil =>
          rw [follow_passed hh, inOrder_passed hh]
          rw [calm_passed hh] at h
          exact ih h
      | cons f behind =>
          rw [follow_heeded hh, inOrder_heeded hh]
          rw [calm_heeded hh] at h
          cases hr : react offerSlot offered st f with
          | ends o => rfl
          | goes st' =>
              simp only [hr, Bool.and_eq_true] at h ⊢
              rw [inOrder_passed (heeded_eq_nil.mpr h.1)]
              exact ih h.2

/-- A read of one frame overtakes nothing, since there is nothing behind its frame. -/
theorem calm_of_single {st : Stage} {reads : List (List Frame)} (h : ∀ read ∈ reads, read.length ≤ 1) :
    calm offerSlot offered st reads = true := by
  induction reads generalizing st with
  | nil => rfl
  | cons read reads ih =>
      have hrest : ∀ r ∈ reads, r.length ≤ 1 := fun r hr => h r (by simp [hr])
      cases hh : heeded st.wanted read with
      | nil =>
          rw [calm_passed hh]
          exact ih hrest
      | cons f behind =>
          have hb : behind = [] := by
            obtain ⟨before, hread, -⟩ := heeded_split st.wanted read
            have hlen : read.length ≤ 1 := h read (by simp)
            rw [hread, hh] at hlen
            simp only [List.length_append, List.length_cons] at hlen
            exact List.length_eq_zero_iff.mp (by omega)
          subst hb
          rw [calm_heeded hh]
          cases react offerSlot offered st f with
          | ends o => rfl
          | goes st' => simpa using ih hrest

/-! ## §2 — what an overtaken wait costs. -/

theorem steps_react {st st' : Stage} {f : Frame} (h : react offerSlot offered st f = .goes st') :
    st'.steps + 1 = st.steps := by
  unfold react at h
  split at h
  · exact Stage.steps_next h
  · exact absurd h (by simp)

theorem Reaches.of_eq {n m : Nat} {run run' : List Frame → Except Exc GbaTradeResult}
    (h : Reaches offerSlot offered n run) (hle : n ≤ m) (heq : ∀ more, run' more = run more) :
    Reaches offerSlot offered m run' := by
  rcases h with ⟨o, ho⟩ | ⟨st, hst, hrun⟩
  · exact Or.inl ⟨o, fun more => (heq more).trans (ho more)⟩
  · exact Or.inr ⟨st, Nat.le_trans hst hle, fun more => (heq more).trans (hrun more)⟩

/-- Whatever frames come first, they end the conversation or bring it to some stage that is no further back. -/
theorem reaches_append (st : Stage) (fs : List Frame) :
    Reaches offerSlot offered st.steps fun more => inOrder offerSlot offered st (fs ++ more) := by
  induction fs generalizing st with
  | nil => exact Or.inr ⟨st, le_refl _, fun _ => rfl⟩
  | cons f fs ih =>
      by_cases hf : heeds st.wanted f = true
      · cases hr : react offerSlot offered st f with
        | ends o =>
            refine Or.inl ⟨o, fun more => ?_⟩
            simp only [List.cons_append, inOrder, hf, if_true, hr]
        | goes st' =>
            have hsteps := steps_react hr
            refine (ih st').of_eq (by omega) fun more => ?_
            simp only [List.cons_append, inOrder, hf, if_true, hr]
      · refine (ih st).of_eq (le_refl _) fun more => ?_
        rw [List.cons_append, inOrder, if_neg hf]

/-- A frame that the stage heeds ends the conversation or brings it further by one wait at least. -/
theorem reaches_heeded {st : Stage} {fs : List Frame}
    (h : fs.all (fun g => !heeds st.wanted g) = false) :
    Reaches offerSlot offered (st.steps - 1) fun more => inOrder offerSlot offered st (fs ++ more) := by
  cases hh : heeded st.wanted fs with
  | nil =>
      rw [heeded_eq_nil.mp hh] at h
      exact absurd h (by simp)
  | cons g rest =>
      cases hr : react offerSlot offered st g with
      | ends o =>
          refine Or.inl ⟨o, fun more => ?_⟩
          show inOrder offerSlot offered st (fs ++ more) = o
          rw [inOrder_heeded hh, hr]
      | goes st' =>
          have hsteps := steps_react hr
          refine (reaches_append st' rest).of_eq (by omega) fun more => ?_
          rw [inOrder_heeded hh, hr]

/-- **What is lost.**  If some read overtakes a wait, the endpoint stands at a stage `st'` behind that
read, while the frames in order have ended the conversation or brought it past `st'`. -/
theorem overtaken {st : Stage} {reads : List (List Frame)}
    (h : calm offerSlot offered st reads = false) :
    ∃ before read after st', reads = before ++ read :: after ∧ read ≠ [] ∧ st'.steps < st.steps ∧
      (∀ more, follow offerSlot offered st (before ++ read :: more) =
        follow offerSlot offered st' more) ∧
      Reaches offerSlot offered (st'.steps - 1)
        fun more => inOrder offerSlot offered st (before.flatten ++ (read ++ more)) := by
  induction reads generalizing st with
  | nil => exact absurd h (by simp [calm])
  | cons read reads ih =>
      cases hh : heeded st.wanted read with
      | nil =>
          rw [calm_passed hh] at h
          obtain ⟨before, read', after, st', rfl, hne, hlt, hfollow, hreach⟩ := ih h
          refine ⟨read :: before, read', after, st', rfl, hne, hlt, fun more => ?_, ?_⟩
          · rw [List.cons_append, follow_passed hh]
            exact hfollow more
          · refine hreach.of_eq (le_refl _) fun more => ?_
            rw [List.flatten_cons, List.append_assoc, inOrder_passed hh]
      | cons f behind =>
          rw [calm_heeded hh] at h
          cases hr : react offerSlot offered st f with
          | ends o =>
              simp only [hr] at h
              exact absurd h (by simp)
          | goes st1 =>
              have hsteps := steps_react hr
              have horder : ∀ fs, inOrder offerSlot offered st (read ++ fs) =
                  inOrder offerSlot offered st1 (behind ++ fs) := by
                intro fs
                rw [inOrder_heeded hh, hr]
              have hmore : ∀ more, follow offerSlot offered st (read :: more) =
                  follow offerSlot offered st1 more := by
                intro more
                rw [follow_heeded hh, hr]
              simp only [hr, Bool.and_eq_false_iff] at h
              by_cases hb : behind.all (fun g => !heeds st1.wanted g) = true
              · -- nothing that counts is behind `f`: the loss is in a later read
                have hcalm : calm offerSlot offered st1 reads = false := by
                  rcases h with h | h
                  · exact absurd (hb.symm.trans h) (by simp)
                  · exact h
                obtain ⟨before, read', after, st', rfl, hne, hlt, hfollow, hreach⟩ := ih hcalm
                refine ⟨read :: before, read', after, st', rfl, hne, by omega, fun more => ?_, ?_⟩
                · rw [List.cons_append, hmore]
                  exact hfollow more
                · refine hreach.of_eq (le_refl _) fun more => ?_
                  rw [List.flatten_cons, List.append_assoc, horder,
                    inOrder_passed (heeded_eq_nil.mpr hb)]
              · have hne : read ≠ [] := by
                  rintro rfl
                  exact absurd hh (by simp [heeded])
                refine ⟨[], read, reads, st1, rfl, hne, by omega, hmore, ?_⟩
                exact (reaches_heeded (by simpa using hb)).of_eq (le_refl _) fun more => horder more

end Machine

/-- The outcome of a call: its result, or the class of the exception without its text. -/
def outcome {α : Type} : Except Exc α → Except ExcType α
  | .ok a => .ok a
  | .error e => .error e.type

theorem eq_ok_of_outcome {α : Type} {x : Except Exc α} {a : α} (h : outcome x = .ok a) : x = .ok a := by
  cases x with
  | error e => cases h
  | ok b =>
      cases h
      rfl

/-- A frame without a payload, with one of the highest sequence numbers. -/
def probe (txid : Uuid) (messageType : MessageType) (n : Nat) (h : n ≤ 0xFFFFFFFF) : Frame :=
  ⟨messageType, txid, n, [], h, Nat.zero_le _⟩

/-- Frames that bring a stage to an end that no silence has: a check fails, the commit is refused or
the link closes. -/
def provocation (txid : Uuid) : Stage → List Frame
  | .ready => []
  | .started => [probe txid .tradeSessionStarted 0xFFFFFFFE (by omega),
      probe txid .partnerParty 0xFFFFFFFF (by omega)]
  | .party => [probe txid .partnerParty 0xFFFFFFFF (by omega)]
  | .slot _ => [probe txid .partnerSelectedSlot 0xFFFFFFFF (by omega)]
  | .mon _ _ => [probe txid .partnerSelectedMon 0xFFFFFFFF (by omega)]
  | .commit _ _ => [probe txid .tradeAborted 0xFFFFFFFF (by omega)]
  | .closed _ _ => [probe txid .tradeLinkClosed 0xFFFFFFFF (by omega)]

section Provocation

variable {offerSlot : Fin 6} {offered : Pokemon100} (txid : Uuid) {st st' : Stage}

theorem provoked (h : st.steps ≤ 6) :
    outcome (inOrder offerSlot offered st (provocation txid st)) ≠ .error .endpointError := by
  cases st with
  | ready => exact absurd h (by decide)
  | started => exact fun e => by cases e
  | party => exact fun e => by cases e
  | slot captured => exact fun e => by cases e
  | mon captured selectedSlot => exact fun e => by cases e
  | commit selectedSlot selected => exact fun e => by cases e
  | closed selectedSlot selected => exact fun e => by cases e

/-- A stage further back passes over the frame, and ends with the timeout. -/
theorem not_provoked (h : st.steps < st'.steps) (h' : st'.steps ≤ 6) :
    outcome (inOrder offerSlot offered st' (provocation txid st)) = .error .endpointError := by
  cases st <;> cases st' <;> first | rfl | (simp [Stage.steps] at h h')

/-- **A stage is told from what lies beyond it** by some further frames: by none, when the run beyond it has
ended otherwise than silence does; by the provocation of the stage, when it has ended like that; and by the
provocation of the later stage, when it has come to one. -/
theorem exists_provocation {run : List Frame → Except Exc GbaTradeResult} (h : st.steps ≤ 6)
    (hrun : Reaches offerSlot offered (st.steps - 1) run) :
    ∃ far : Stage, outcome (inOrder offerSlot offered st (provocation txid far)) ≠
      outcome (run (provocation txid far)) := by
  rcases hrun with ⟨o, ho⟩ | ⟨far, hle, hfar⟩
  · -- over already: silence shows it, unless it ended as silence does
    by_cases hend : outcome o = .error .endpointError
    · refine ⟨st, ?_⟩
      rw [ho, hend]
      exact provoked txid h
    · refine ⟨.ready, ?_⟩
      rw [ho]
      exact fun e => hend e.symm
  · have hpos : 0 < far.steps := by
      cases far <;> simp [Stage.steps]
    refine ⟨far, ?_⟩
    rw [hfar, not_provoked txid (by omega) h]
    exact fun e => provoked txid (by omega) e.symm

/-- The frames of a provocation are of the transaction, and use the last two numbers. -/
theorem provocation_new {f : Frame} (hf : f ∈ provocation txid st) :
    f.transactionId = txid ∧ 0xFFFFFFFE ≤ f.sequence := by
  cases st <;> simp only [provocation, probe, List.mem_cons, List.not_mem_nil, or_false] at hf
  case started =>
    rcases hf with rfl | rfl
    · exact ⟨rfl, le_refl _⟩
    · exact ⟨rfl, Nat.le_succ _⟩
  all_goals
    subst hf
    exact ⟨rfl, Nat.le_succ _⟩

theorem provocation_increasing :
    (provocation txid st).Pairwise fun f g => f.sequence < g.sequence := by
  cases st <;> simp [provocation, probe]

end Provocation

/-! ## §3 — the waits of the endpoint. -/

/-- Continue a method as a reaction says: with the next stage, or with the end. -/
def proceed (k : Stage → LinkM GbaTradeResult) : Reaction → LinkM GbaTradeResult
  | .ends o => answer o
  | .goes st => k st

/-- The waits of `trade_once` from a stage on, `n` of them at most: wait for what the stage wants, react, go
on. -/
def drive (offerSlot : Fin 6) (offered : Pokemon100) : Nat → Stage → LinkM GbaTradeResult
  | 0, st => throw (timeoutError st.wanted)
  | n + 1, st => do
      let f ← waitFor st.wanted
      proceed (drive offerSlot offered n) (st.next offerSlot offered f)

/-- A check of the machine is a check of the source: `require` on the same condition with the same exception. -/
theorem proceed_check (k : Stage → LinkM GbaTradeResult) (condition : Prop) [Decidable condition]
    (e : Exc) (go : Reaction) :
    proceed k (Stage.check condition e go) = (require condition e >>= fun _ => proceed k go) := by
  unfold Stage.check require
  by_cases h : condition
  · simp only [if_pos h]
    rfl
  · simp only [if_neg h]
    rfl

/-- A value of the machine that may be an exception is one of the source. -/
theorem proceed_attempt {α : Type} (k : Stage → LinkM GbaTradeResult) (r : Except Exc α)
    (go : α → Reaction) :
    proceed k (Stage.attempt r go) = (answer r >>= fun a => proceed k (go a)) := by
  cases r <;> rfl

section Drive

variable (offerSlot : Fin 6) (offered : Pokemon100) (n : Nat)

theorem drive_ready : drive offerSlot offered (n + 1) .ready = (do
    let ready ← waitFor [.offerReady]
    require (ready.payload = expectedReady offerSlot offered)
      (protocolError "OFFER_READY slot/hash does not match requested record")
    drive offerSlot offered n .started) := by
  rw [drive]
  congr 1
  funext ready
  exact proceed_check _ _ _ _

theorem drive_started : drive offerSlot offered (n + 1) .started = (do
    let _ ← waitFor [.tradeSessionStarted]
    drive offerSlot offered n .party) := rfl

theorem drive_party : drive offerSlot offered (n + 1) .party = (do
    let party ← waitFor [.partnerParty]
    require (party.payload.length = 600) (protocolError "PARTNER_PARTY must be exactly 600 bytes")
    drive offerSlot offered n (.slot party.payload)) := by
  rw [drive]
  congr 1
  funext party
  exact proceed_check _ _ _ _

theorem drive_slot (captured : Bytes) : drive offerSlot offered (n + 1) (.slot captured) = (do
    let slotFrame ← waitFor [.partnerSelectedSlot]
    require (slotFrame.payload.length = 1 ∧ slotFrame.payload.getD 0 0 ≤ 5)
      (protocolError "PARTNER_SELECTED_SLOT must be one byte in 0..5")
    drive offerSlot offered n (.mon captured (slotFrame.payload.getD 0 0).toNat)) := by
  rw [drive]
  congr 1
  funext slotFrame
  exact proceed_check _ _ _ _

theorem drive_mon (captured : Bytes) (selectedSlot : Nat) :
    drive offerSlot offered (n + 1) (.mon captured selectedSlot) = (do
      let monFrame ← waitFor [.partnerSelectedMon]
      let selected ← answer (Pokemon100.ofBytes monFrame.payload)
      require (selected.raw = slice captured (selectedSlot * 100) ((selectedSlot + 1) * 100))
        (protocolError "selected-mon event contradicts captured partner party")
      drive offerSlot offered n (.commit selectedSlot selected)) := by
  rw [drive]
  congr 1
  funext monFrame
  rw [Stage.next, proceed_attempt]
  congr 1
  funext selected
  exact proceed_check _ _ _ _

theorem drive_commit (selectedSlot : Nat) (selected : Pokemon100) :
    drive offerSlot offered (n + 1) (.commit selectedSlot selected) = (do
      let committed ← waitFor [.tradeCommitted, .tradeAborted, .error]
      require (committed.messageType = .tradeCommitted)
        ⟨.commitNotConfirmed, "GBA trade ended with " ++ committed.messageType.name⟩
      require (committed.payload = expectedCommit offered selected)
        (protocolError "TRADE_COMMITTED hashes do not match offered/selected records")
      drive offerSlot offered n (.closed selectedSlot selected)) := by
  rw [drive]
  congr 1
  funext committed
  rw [Stage.next, proceed_check, proceed_check]
  rfl

theorem drive_closed (selectedSlot : Nat) (selected : Pokemon100) :
    drive offerSlot offered (n + 1) (.closed selectedSlot selected) = (do
      let closed ← waitFor [.tradeLinkClosed, .error]
      return ⟨⟨offered, selected, true⟩, selectedSlot,
        decide (closed.messageType = .tradeLinkClosed ∧ closed.payload = [0])⟩) := rfl

end Drive

/-- **`trade_once` is the machine, wait by wait**: behind the sending of the offer, the method in the source's
words and the seven waits of the machine are the same program. -/
theorem tradeOnce_eq_drive (offered : Pokemon100) :
    tradeOnce offered = (do
      let ep ← get
      require ep.connected (endpointError "GB-Link endpoint is not connected")
      answer offered.refuseMail
      send .setOfferMon (UInt8.ofNat ep.offerSlot :: offered.raw)
      drive ep.offerSlot offered 7 .ready) := by
  simp only [drive_ready, drive_started, drive_party, drive_slot, drive_mon, drive_commit,
    drive_closed]
  rfl

end TradeBroker.Gba
