/-
# TradeBroker.Broker.Invariant — what holds at every crash point of a transaction.

`Inv a0 P w` is the invariant of one invocation of `execute(P)` that found no journal: either nothing
has left the process yet (`Blank`), or a journal is durable and it is a booked record, possibly
closed for recovery, whose progress is backed by the trades made so far and by the artifacts on disk.
Between an irreversible trade and the write that records it there is a gap; `Position` carries what
is in that gap explicitly, as at most one PENDING trade, which is the requested one.

`Running` and `Stopped` are the two assertions of the walk through the `try` body: on the main line
memory and disk agree and nothing has failed; after a raise, memory may be one step ahead of the
disk, and then an I/O call has failed.

Two accounts of a failure are kept side by side.  `Refusal` and `Cause` say what made the body raise, in
terms of the trades; `Balanced` and `WhenWritten` say what the trace had in it whenever a journal was
written.  A statement about the exit status or about a lost trade needs both, and each of them is
preserved on its own.

The trace is only ever extended, and every field of `Position`, `Running` and `Stopped` is a fact about
disk, trace and locals at one moment.  That is what makes the frame lemmas at the end of each section
short.
-/
import TradeBroker.Broker.Escrow

namespace TradeBroker

open Lib

/-! ## §1 — projections of the trace. -/

namespace Event

def trade? : Event → Option Trade
  | .trade t => some t
  | _ => none

/-- The exception an endpoint or a hook raised into the `try` body; a `close` is not part of it, since the
`finally` clause comes later. -/
def raised? : Event → Option Exc
  | .connect _ (.error e) => some e
  | .waitForTradeMenu (.error e) => some e
  | .trade ⟨_, _, _, .raised e, _⟩ => some e
  | .faultHook _ (.error e) => some e
  | _ => none

/-- The exception of any endpoint or hook call, `close` included. -/
def failure? : Event → Option Exc
  | .close _ (.error e) => some e
  | ev => ev.raised?

/-- The state of a journal text that was installed. -/
def stateWritten? : Event → Option JournalState
  | .installed (.journal (.json (.obj fields))) =>
      match Json.member fields "state" with
      | some (.str s) => JournalState.ofValue s
      | _ => none
  | _ => none

/-- `connect`, `wait_for_trade_menu` or `trade_once`. -/
def isEndpointCall : Event → Bool
  | .connect _ _ => true
  | .waitForTradeMenu _ => true
  | .trade _ => true
  | _ => false

/-- The event concerns the file system only. -/
def isFile : Event → Bool
  | .installed _ => true
  | .ioError => true
  | _ => false

end Event

def trades (tr : List Event) : List Trade := tr.filterMap Event.trade?

def raised (tr : List Event) : List Exc := tr.filterMap Event.raised?

def statesWritten (tr : List Event) : List JournalState := tr.filterMap Event.stateWritten?

@[simp] theorem trades_append (tr tr' : List Event) : trades (tr ++ tr') = trades tr ++ trades tr' :=
  List.filterMap_append

@[simp] theorem raised_append (tr tr' : List Event) : raised (tr ++ tr') = raised tr ++ raised tr' :=
  List.filterMap_append

@[simp] theorem statesWritten_append (tr tr' : List Event) :
    statesWritten (tr ++ tr') = statesWritten tr ++ statesWritten tr' := List.filterMap_append

@[simp] theorem trades_replicate_ioError (n : Nat) : trades (List.replicate n .ioError) = [] := by
  simp [trades, Event.trade?]

@[simp] theorem raised_replicate_ioError (n : Nat) : raised (List.replicate n .ioError) = [] := by
  simp [raised, Event.raised?]

@[simp] theorem trades_faults (w : World) (n : Nat) : trades (w.faults n).trace = trades w.trace := by
  simp [World.faults]

@[simp] theorem raised_faults (w : World) (n : Nat) : raised (w.faults n).trace = raised w.trace := by
  simp [World.faults]

theorem ioError_mem_faults (w : World) {n : Nat} (h : 0 < n) : .ioError ∈ (w.faults n).trace := by
  have hm : Event.ioError ∈ List.replicate n Event.ioError := List.mem_replicate.mpr ⟨by omega, rfl⟩
  exact List.mem_append_right _ hm

theorem stateWritten?_document (r : JournalRecord) :
    Event.stateWritten? (.installed (.journal (.json r.document))) = some r.state := by
  show JournalState.ofValue r.state.value = some r.state
  exact JournalState.ofValue_value r.state

/-! ### the moments at which a journal is installed -/

/-- `Q` was true of the trace whenever a journal was installed, that is, of every beginning of the trace that
ends in front of such a write. -/
def WhenWritten (Q : List Event → Prop) (tr : List Event) : Prop :=
  ∀ pre text, pre ++ [.installed (.journal text)] <+: tr → Q pre

namespace WhenWritten

variable {Q Q' : List Event → Prop} {tr tr' : List Event}

theorem nil : WhenWritten Q [] := by
  intro pre text h
  exact absurd (List.prefix_nil.mp h) (by simp)

theorem imp (h : WhenWritten Q tr) (hQ : ∀ pre, Q pre → Q' pre) : WhenWritten Q' tr :=
  fun pre text hp => hQ pre (h pre text hp)

/-- Events that install no journal leave it alone. -/
theorem append (h : WhenWritten Q tr) (hev : ∀ text, .installed (.journal text) ∉ tr') :
    WhenWritten Q (tr ++ tr') := by
  intro pre text hp
  -- Where the installation is behind `tr`, it is one of the new events.
  rcases List.prefix_or_prefix_of_prefix hp (List.prefix_append tr tr') with hin | ⟨evs, hevs⟩
  · exact h pre text hin
  · rw [← hevs, List.prefix_append_right_inj] at hp
    rcases evs.eq_nil_or_concat with rfl | ⟨init, ev, rfl⟩
    · exact h pre text ⟨[], by rw [← hevs, List.append_nil, List.append_nil]⟩
    · rw [List.concat_eq_append, ← List.append_assoc] at hevs
      obtain ⟨-, hlast⟩ := List.append_inj' hevs rfl
      have hmem : Event.installed (.journal text) ∈ tr' := by
        refine hp.subset ?_
        rw [List.concat_eq_append, hlast]
        simp
      exact absurd hmem (hev text)

/-- One more journal. -/
theorem install (h : WhenWritten Q tr) (hQ : Q tr) (text : JournalText) :
    WhenWritten Q (tr ++ [.installed (.journal text)]) := by
  intro pre text' hp
  rcases List.prefix_concat_iff.mp hp with heq | hp
  · obtain ⟨rfl, -⟩ := List.append_inj' heq rfl
    exact hQ
  · exact h pre text' hp

/-- The last journal of a trace, read back. -/
theorem last {text : JournalText} (h : WhenWritten Q (tr ++ .installed (.journal text) :: tr')) : Q tr :=
  h tr text ⟨tr', by simp⟩

end WhenWritten

/-! ## §2 — the position of a transaction. -/

/-- One saved record. -/
def stock (tx : PyStr) (f : ArtifactPath → Option Bytes) (kv : PyStr × Pokemon100) :
    ArtifactPath → Option Bytes :=
  Function.update f ⟨tx, kv.1, kv.2.sha256⟩ (some kv.2.raw)

/-- The artifact files of transaction `tx` at progress `g`, over what the directory had before; files of other
transactions are left alone. -/
def shelf (a0 : ArtifactPath → Option Bytes) (tx : PyStr) (P : Pokemon100) (g : Progress) :
    ArtifactPath → Option Bytes :=
  (g.records P).foldl (stock tx) a0

section Shelf

variable {tx label : PyStr} {P : Pokemon100}

theorem foldl_stock_other (l : List (PyStr × Pokemon100)) (f : ArtifactPath → Option Bytes)
    (h : label ∉ l.map Prod.fst) (sha : PyStr) :
    l.foldl (stock tx) f ⟨tx, label, sha⟩ = f ⟨tx, label, sha⟩ := by
  induction l generalizing f with
  | nil => rfl
  | cons kv l ih =>
      rw [List.map_cons, List.mem_cons, not_or] at h
      rw [List.foldl_cons, ih _ h.2]
      refine Function.update_of_ne ?_ _ _
      intro hc
      exact h.1 (congrArg ArtifactPath.label hc)

theorem foldl_stock_mem (l : List (PyStr × Pokemon100)) (f : ArtifactPath → Option Bytes)
    {m : Pokemon100} (hn : (l.map Prod.fst).Nodup) (h : (label, m) ∈ l) :
    l.foldl (stock tx) f ⟨tx, label, m.sha256⟩ = some m.raw := by
  induction l generalizing f with
  | nil => exact absurd h (by simp)
  | cons kv l ih =>
      rw [List.map_cons, List.nodup_cons] at hn
      rw [List.foldl_cons]
      rcases List.mem_cons.mp h with rfl | h
      · rw [foldl_stock_other l _ hn.1]
        exact Function.update_self _ _ _
      · exact ih _ hn.2 h

/-- Each label is used once, so a saved record stays where it was saved. -/
theorem shelf_get {a0 : ArtifactPath → Option Bytes} {m : Pokemon100} {g : Progress}
    (h : (label, m) ∈ g.records P) : shelf a0 tx P g ⟨tx, label, m.sha256⟩ = some m.raw := by
  refine foldl_stock_mem (g.records P) a0 ?_ h
  cases g <;> simp only [Progress.records, List.map_cons, List.map_nil] <;> decide

end Shelf

/-- A record `r` at progress `g`, the trades that were made, the one of them that is still pending, and the
artifacts, which may be ahead of `g` by the record of the pending trade.  The pending trade is the
requested one. -/
structure Position (a0 : ArtifactPath → Option Bytes) (P : Pokemon100) (g : Progress)
    (pend : List Trade) (ga : Progress) (r : JournalRecord) (w : World) : Prop where
  booked : Booked P g r
  accounts : ∃ ts, trades w.trace = ts ++ pend ∧ Accounts P g ts
  pending : pend = [] ∨ ∃ t, pend = [t] ∧ Requested P g t ∧
    (g.request P).map Request.state = some r.state
  shelf_eq : w.disk.artifacts = shelf a0 r.transactionId P ga
  shelved : ga = g ∨ ∃ t, pend = [t] ∧ g.settle P t.outcome = some ga

/-- Nothing has left the process: no journal, and no call but file-system calls.  The artifact of the
placeholder may be there already. -/
structure Blank (a0 : ArtifactPath → Option Bytes) (P : Pokemon100) (w : World) : Prop where
  journal : w.disk.journal = none
  artifacts : w.disk.artifacts = a0 ∨ ∃ tx, w.disk.artifacts = shelf a0 tx P .start
  local_ : ∀ e ∈ w.trace, e.isFile = true

/-- The durable journal is the record `r`, or `r` closed for recovery. -/
def JournalIs (r : JournalRecord) (text : Option JournalText) : Prop :=
  text = some (.json r.document) ∨
    (r.state ≠ .complete ∧ ∃ now error, text = some (.json (r.recovered now error).document))

/-- A journal is durable, and the trades and the artifacts agree with it, in the sense of some position. -/
def Open (a0 : ArtifactPath → Option Bytes) (P : Pokemon100) (w : World) : Prop :=
  ∃ g pend ga r, Position a0 P g pend ga r w ∧ JournalIs r w.disk.journal

/-- **The crash invariant** of an invocation that found no journal. -/
def Inv (a0 : ArtifactPath → Option Bytes) (P : Pokemon100) (w : World) : Prop :=
  Blank a0 P w ∨ Open a0 P w

section Frame

variable {a0 : ArtifactPath → Option Bytes} {P : Pokemon100} {g ga : Progress}
  {pend : List Trade} {r : JournalRecord} {w v : World}

/-- A position only looks at the artifacts and at the trades, so whatever leaves these alone keeps it. -/
theorem Position.frame (h : Position a0 P g pend ga r w)
    (ha : v.disk.artifacts = w.disk.artifacts) (ht : trades v.trace = trades w.trace) :
    Position a0 P g pend ga r v where
  booked := h.booked
  accounts := by
    rw [ht]
    exact h.accounts
  pending := h.pending
  shelf_eq := ha.trans h.shelf_eq
  shelved := h.shelved

theorem Position.faults (h : Position a0 P g pend ga r w) (n : Nat) :
    Position a0 P g pend ga r (w.faults n) :=
  h.frame rfl (trades_faults w n)

theorem Position.log (h : Position a0 P g pend ga r w) {ev : Event} (hev : ev.trade? = none) :
    Position a0 P g pend ga r (w.log ev) := by
  refine h.frame rfl ?_
  simp [trades, hev]

theorem Position.installJournal (h : Position a0 P g pend ga r w) (text : JournalText) :
    Position a0 P g pend ga r (w.install (.journal text)) := by
  refine h.frame rfl ?_
  simp [trades, Event.trade?]

theorem Blank.faults (h : Blank a0 P w) (n : Nat) : Blank a0 P (w.faults n) where
  journal := h.journal
  artifacts := h.artifacts
  local_ := by
    intro e he
    rcases List.mem_append.mp he with he | he
    · exact h.local_ e he
    · rw [List.eq_of_mem_replicate he]
      rfl

theorem Open.faults (h : Open a0 P w) (n : Nat) : Open a0 P (w.faults n) := by
  obtain ⟨g, pend, ga, r, h, hj⟩ := h
  exact ⟨g, pend, ga, r, h.faults n, hj⟩

theorem Open.log (h : Open a0 P w) {ev : Event} (hev : ev.trade? = none) :
    Open a0 P (w.log ev) := by
  obtain ⟨g, pend, ga, r, h, hj⟩ := h
  exact ⟨g, pend, ga, r, h.log hev, hj⟩

end Frame

/-! ## §3 — the assertions of the walk. -/

/-- The hooks between a `trade_once` and the write of what it returned. -/
def Boundary.beforePersist : Boundary → Bool
  | .afterSwitch1EndpointBeforePersist => true
  | .afterGbaEndpointBeforePersist => true
  | .afterSwitch2EndpointBeforePersist => true
  | _ => false

/-- The hook between this trade and the write of what it brought raised.  Nothing is called between
`trade_once` and that hook, so the two stand side by side in the trace. -/
def HookRaised (t : Trade) (tr : List Event) : Prop :=
  ∃ b e, b.beforePersist = true ∧ [Event.trade t, .faultHook b (.error e)] <:+: tr

/-- Nothing is wrong so far: no file-system call has failed, no call has raised, and the trades that
were made are accounted for. -/
structure Balanced (P : Pokemon100) (tr : List Event) : Prop where
  noFault : .ioError ∉ tr
  noRaise : raised tr = []
  accounts : ∃ g, Accounts P g (trades tr)

/-- A check of the coordinator raised `e`: it refused the result of the pending trade, or it found that the
placeholder came back changed.  Both are exceptions of the coordinator itself, and their texts encode. -/
structure Refusal (P : Pokemon100) (g : Progress) (pend : List Trade) (e : Exc) : Prop where
  isException : e.isException = true
  encodable : e.encodable = true
  reason : (e.isRecoveryRequired = false ∧ ∃ t, pend = [t] ∧ g.settle P t.outcome = none) ∨
    (e.isRecoveryRequired = true ∧ pend = [])

/-- A result that does not settle its trade. -/
theorem Refusal.ofUnsettled {P : Pokemon100} {g : Progress} {t : Trade} {e : Exc} (he : e.Ordinary)
    (henc : e.encodable = true) (hset : g.settle P t.outcome = none) : Refusal P g [t] e :=
  ⟨he.isException, henc, Or.inl ⟨he.unreported, t, rfl, hset⟩⟩

/-- What made the body raise `e`, the trades `pend` being pending: a write that failed, a call that raised `e`
itself, or a check that refused what a trade brought. -/
inductive Cause (P : Pokemon100) (g : Progress) (pend : List Trade) (e : Exc) (tr : List Event) :
    Prop
  | write : .ioError ∈ tr → e.Ordinary → Cause P g pend e tr
  | call : .ioError ∉ tr → e ∈ raised tr → (∀ t ∈ pend, t.outcome = .raised e ∨ HookRaised t tr) →
      Cause P g pend e tr
  | check : .ioError ∉ tr → raised tr = [] → Refusal P g pend e → Cause P g pend e tr

/-- The body raised `e` with these calls behind it: the settled trades, the pending one, and what
made it raise. -/
def Blamed (P : Pokemon100) (e : Exc) (tr : List Event) : Prop :=
  ∃ g pend ts, trades tr = ts ++ pend ∧ Accounts P g ts ∧ (∀ t ∈ pend, Requested P g t) ∧
    Cause P g pend e tr

theorem Blamed.cause {P : Pokemon100} {e : Exc} {tr : List Event} (h : Blamed P e tr) :
    e ∈ raised tr ∨ (e.isException = true ∧ (e.encodable = true ∨ .ioError ∈ tr)) := by
  obtain ⟨_, _, _, _, _, _, hcause⟩ := h
  cases hcause with
  | write hio he => exact Or.inr ⟨he.isException, Or.inr hio⟩
  | call _ he _ => exact Or.inl he
  | check _ _ href => exact Or.inr ⟨href.isException, Or.inl href.encodable⟩

/-- The durable journal is the document of a booked record, so of a transaction that is open or finished and
has not been closed for recovery. -/
def Filled (P : Pokemon100) (w : World) : Prop :=
  ∃ g r, Booked P g r ∧ w.disk.journal = some (.json r.document)

/-- Why a pending trade was not recorded: its outcome does not settle it, or the hook in front of the write of
this very trade raised.  There is no third reason while file-system calls succeed. -/
def Unsettled (P : Pokemon100) (g : Progress) (t : Trade) (tr : List Event) : Prop :=
  g.settle P t.outcome = none ∨ HookRaised t tr

/-- The main line of the `try` body: memory and disk agree, no call has failed, and what the trades brought is
where the position says. -/
structure Running (a0 : ArtifactPath → Option Bytes) (P : Pokemon100) (g : Progress)
    (pend : List Trade) (ga : Progress) (l : Locals) (w : World) : Prop where
  position : Position a0 P g pend ga l.record w
  journal : w.disk.journal = some (.json l.record.document)
  reached : statesWritten w.trace = l.record.history.map HistoryEntry.state
  noFault : .ioError ∉ w.trace
  noRaise : raised w.trace = []
  written : WhenWritten (Balanced P) w.trace

/-- The `try` body raised `e`: memory may be one step ahead of the disk, and then a file-system call has
failed. -/
structure Stopped (a0 : ArtifactPath → Option Bytes) (P : Pokemon100) (e : Exc) (l : Locals)
    (w : World) : Prop where
  isOpen : Open a0 P w
  position : ∃ g pend ga, Position a0 P g pend ga l.record w ∧
    (.ioError ∉ w.trace → ga = g → ∀ t ∈ pend, Unsettled P g t w.trace)
  same : ∀ e' ∈ raised w.trace, e' = e
  blamed : Blamed P e w.trace
  written : WhenWritten (Balanced P) w.trace
  filled : Filled P w
  synced : .ioError ∉ w.trace → w.disk.journal = some (.json l.record.document) ∧
    statesWritten w.trace = l.record.history.map HistoryEntry.state ∧ l.record.state ≠ .complete

section Walk

variable {a0 : ArtifactPath → Option Bytes} {P : Pokemon100} {g ga : Progress}
  {pend : List Trade} {l : Locals} {w : World}

theorem Running.isOpen (h : Running a0 P g pend ga l w) : Open a0 P w :=
  ⟨g, pend, ga, l.record, h.position, Or.inl h.journal⟩

/-- A call that succeeded and moved nothing. -/
theorem Running.log (h : Running a0 P g pend ga l w) {ev : Event} (ht : ev.trade? = none)
    (hr : ev.raised? = none) (hf : ev.isFile = false) : Running a0 P g pend ga l (w.log ev) where
  position := h.position.log ht
  journal := h.journal
  reached := by
    have hs : ev.stateWritten? = none := by
      cases ev <;> first | rfl | simp [Event.isFile] at hf
    rw [World.log_trace, statesWritten_append, h.reached]
    simp [statesWritten, hs]
  noFault := by
    intro hm
    rcases List.mem_append.mp hm with hm | hm
    · exact h.noFault hm
    · rw [← List.mem_singleton.mp hm] at hf
      exact absurd hf (by simp [Event.isFile])
  noRaise := by
    rw [World.log_trace, raised_append, h.noRaise]
    simp [raised, hr]
  written := by
    refine h.written.append ?_
    intro text hm
    rw [← List.mem_singleton.mp hm] at hf
    exact absurd hf (by simp [Event.isFile])

/-- With nothing pending every trade is settled. -/
theorem Position.settled {r : JournalRecord} (h : Position a0 P g [] ga r w) :
    ∃ g', Accounts P g' (trades w.trace) := by
  obtain ⟨ts, hts, hacc⟩ := h.accounts
  refine ⟨g, ?_⟩
  rw [hts, List.append_nil]
  exact hacc

theorem Position.blamed {e : Exc} (h : Position a0 P g pend ga l.record w)
    (hc : Cause P g pend e w.trace) : Blamed P e w.trace := by
  obtain ⟨ts, hts, hacc⟩ := h.accounts
  refine ⟨g, pend, ts, hts, hacc, ?_, hc⟩
  intro t ht
  rcases h.pending with rfl | ⟨t', rfl, hreq, _⟩
  · exact absurd ht (by simp)
  · obtain rfl : t = t' := by simpa using ht
    exact hreq

theorem Running.filled (h : Running a0 P g pend ga l w) : Filled P w :=
  ⟨g, l.record, h.position.booked, h.journal⟩

/-- A check raises `e`, at a point where memory and disk agree. -/
theorem Running.stop (h : Running a0 P g pend ga l w) {e : Exc} (hs : l.record.state ≠ .complete)
    (href : Refusal P g pend e) : Stopped a0 P e l w where
  isOpen := h.isOpen
  position := by
    refine ⟨g, pend, ga, h.position, fun _ _ t ht => Or.inl ?_⟩
    rcases href.reason with ⟨_, t', rfl, hset⟩ | ⟨_, rfl⟩
    · obtain rfl : t = t' := by simpa using ht
      exact hset
    · exact absurd ht (by simp)
  same := by simp [h.noRaise]
  blamed := h.position.blamed (.check h.noFault h.noRaise href)
  written := h.written
  filled := h.filled
  synced := fun _ => ⟨h.journal, h.reached, hs⟩

/-- A call raised `e` into the body. -/
theorem Running.raise (h : Running a0 P g pend ga l w) {ev : Event} {e : Exc}
    (hs : l.record.state ≠ .complete) (ht : ev.trade? = none) (hr : ev.raised? = some e)
    (hp : ∀ t ∈ pend, HookRaised t (w.log ev).trace) : Stopped a0 P e l (w.log ev) where
  isOpen := h.isOpen.log ht
  position := ⟨g, pend, ga, h.position.log ht, fun _ _ t htp => Or.inr (hp t htp)⟩
  same := by
    intro e' he'
    rw [World.log_trace, raised_append, h.noRaise] at he'
    simpa [raised, hr] using he'
  blamed := by
    refine (h.position.log ht).blamed (.call ?_ ?_ fun t htp => Or.inr (hp t htp))
    · intro hm
      rcases List.mem_append.mp hm with hm | hm
      · exact h.noFault hm
      · rw [← List.mem_singleton.mp hm] at hr
        exact absurd hr (by simp [Event.raised?])
    · rw [World.log_trace, raised_append]
      simp [raised, hr]
  written := by
    refine h.written.append ?_
    intro text hm
    rw [← List.mem_singleton.mp hm] at hr
    exact absurd hr (by simp [Event.raised?])
  filled := h.filled
  synced := by
    intro _
    have hw : ev.stateWritten? = none := by
      cases ev <;> first | rfl | simp [Event.raised?] at hr
    refine ⟨h.journal, ?_, hs⟩
    rw [World.log_trace, statesWritten_append, h.reached]
    simp [statesWritten, hw]

end Walk

end TradeBroker
