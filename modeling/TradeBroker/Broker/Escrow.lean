/-
# TradeBroker.Broker.Escrow — what the transaction is FOR, and the books that keep it.

The broker is an escrow between two consoles that cannot trade with each other.  It owns a
placeholder `P` and makes three trades: it gives `P` to the Switch and receives `B`, gives `B` to the
GBA and receives `A`, gives `A` to the Switch and expects `P` back.  A `Progress` is how far that
went, with the records it produced; `request` is the one trade that is next, `settle` the conditions
under which its outcome counts.

`Booked P g r` says that the journal record `r` is a true entry of the books at progress `g`: its
state lies in the span of `g`, its hashes, locations and slot are those of `g`, its history is the
chain up to its state.  The invariant of the whole broker is that what is durable is a booked
record, or a booked record that was closed with `RECOVERY_REQUIRED`.

`Accounts P g ts` says that the trades `ts` are exactly the ones that lead to `g`, each requested in
turn, each made while the journal said so, each with an outcome that settles it.

This is the abstract model, and it is small on purpose: three requests, three settlements, no files, no
exceptions and no retries.  Everything above it is said in its terms.  `Broker.Invariant` ties the books
to the disk at every crash point, `Broker.Walk` the `try` body to the requests, `Broker.Lifecycle` the
outcome to the last progress.

A `Progress` carries the records it has, so an exchange that has `A` without `B` cannot be written down.
-/
import TradeBroker.Broker.Transaction

namespace TradeBroker

open Lib

/-! ## §1 — progress of an exchange. -/

/-- How far the exchange went, with the records received so far; each stage keeps what the stages before it
brought. -/
inductive Progress where
  | start
  | gotB (b : Pokemon100)
  | gotA (b a : Pokemon100) (slot : Int)
  | gotP (b a : Pokemon100) (slot : Int) (returned : Pokemon100)
  deriving DecidableEq

/-- The next trade: the console, the record to give, and the state the journal must be in. -/
structure Request where
  console : Console
  offered : Pokemon100
  state : JournalState
  deriving DecidableEq

namespace Progress

def b? : Progress → Option Pokemon100
  | .start => none
  | .gotB b => some b
  | .gotA b _ _ => some b
  | .gotP b _ _ _ => some b

def a? : Progress → Option Pokemon100
  | .gotA _ a _ => some a
  | .gotP _ a _ _ => some a
  | _ => none

def slot? : Progress → Option Int
  | .gotA _ _ slot => some slot
  | .gotP _ _ slot _ => some slot
  | _ => none

/-- The journal states of a progress: what the journal may say while the exchange stands there. -/
def states : Progress → List JournalState
  | .start => [.idle, .switchStage1Started]
  | .gotB _ => [.switchBCaptured, .placeholderOnSwitch, .gbaStageStarted]
  | .gotA _ _ _ => [.gbaACaptured, .bCommittedToGba, .switchStage2Started]
  | .gotP _ _ _ _ => [.aCommittedToSwitch, .complete]

def request (placeholder : Pokemon100) : Progress → Option Request
  | .start => some ⟨.switch, placeholder, .switchStage1Started⟩
  | .gotB b => some ⟨.gba, b, .gbaStageStarted⟩
  | .gotA _ a _ => some ⟨.switch, a, .switchStage2Started⟩
  | .gotP _ _ _ _ => none

/-- The progress that the outcome of the requested trade leads to, if it settles the trade: the right record
was offered, the commit is confirmed, and the slot and the link are in order. -/
def settle (placeholder : Pokemon100) : Progress → TradeOutcome → Option Progress
  | .start, .switchResult r =>
      if r.offeredMon = placeholder ∧ r.commitConfirmed = true ∧ r.receivedMon.holdsMail = false then
        some (.gotB r.receivedMon)
      else none
  | .gotB b, .gbaResult r =>
      if r.offeredMon = b ∧ r.commitConfirmed = true ∧ (0 ≤ r.selectedSlot ∧ r.selectedSlot ≤ 5) ∧
          r.linkClosed = true ∧ r.receivedMon.holdsMail = false then
        some (.gotA b r.receivedMon r.selectedSlot)
      else none
  | .gotA b a slot, .switchResult r =>
      if r.offeredMon = a ∧ r.commitConfirmed = true then some (.gotP b a slot r.receivedMon)
      else none
  | _, _ => none

/-- The hashes of the journal at a progress, with nothing for a record that is not there yet. -/
def hashes (placeholder : Pokemon100) (g : Progress) : Dict (Option PyStr) :=
  .ofList [("A", g.a?.map Pokemon100.sha256), ("B", g.b?.map Pokemon100.sha256),
    ("P", some placeholder.sha256)]

/-- The artifacts of a progress, in the order in which they are saved: the placeholder first, and at the end
the placeholder as it came back. -/
def records (placeholder : Pokemon100) : Progress → List (PyStr × Pokemon100)
  | .start => [("P", placeholder)]
  | .gotB b => [("P", placeholder), ("B", b)]
  | .gotA b a _ => [("P", placeholder), ("B", b), ("A", a)]
  | .gotP b a _ returned => [("P", placeholder), ("B", b), ("A", a), ("P_RETURNED", returned)]

end Progress

namespace JournalState

/-- The place of a state in the chain, recovery aside. -/
def rank : JournalState → Nat
  | .idle => 0
  | .switchStage1Started => 1
  | .switchBCaptured => 2
  | .placeholderOnSwitch => 3
  | .gbaStageStarted => 4
  | .gbaACaptured => 5
  | .bCommittedToGba => 6
  | .switchStage2Started => 7
  | .aCommittedToSwitch => 8
  | .complete => 9
  | .recoveryRequired => 10

/-- The chain up to a state. -/
def upTo (s : JournalState) : List JournalState := chain.take (s.rank + 1)

theorem rank_next {s s' : JournalState} (h : s.next = some s') : s'.rank = s.rank + 1 := by
  cases s <;> simp only [next, Option.some.injEq, reduceCtorEq] at h <;> subst h <;> rfl

theorem upTo_next {s s' : JournalState} (h : s.next = some s') : s'.upTo = s.upTo ++ [s'] := by
  cases s <;> simp only [next, Option.some.injEq, reduceCtorEq] at h <;> subst h <;> rfl

/-- Where the broker believes `A`, `B` and `P` to be in each state of the chain.  It is a table of the source,
read off its updates. -/
def locations : JournalState → Dict PyStr
  | .idle | .switchStage1Started =>
      .ofList [("A", "gba (unobserved)"), ("B", "switch (unobserved)"), ("P", "broker")]
  | .switchBCaptured | .placeholderOnSwitch | .gbaStageStarted =>
      .ofList [("A", "gba (unobserved)"), ("B", "broker"), ("P", "switch")]
  | .gbaACaptured | .bCommittedToGba | .switchStage2Started =>
      .ofList [("A", "broker"), ("B", "gba"), ("P", "switch")]
  | .aCommittedToSwitch =>
      .ofList [("A", "switch"), ("B", "gba"), ("P", "broker (unverified candidate)")]
  | .complete | .recoveryRequired => .ofList [("A", "switch"), ("B", "gba"), ("P", "broker")]

end JournalState

theorem Progress.mem_chain {g : Progress} {s : JournalState} (h : s ∈ g.states) :
    s ∈ JournalState.chain := by
  cases g <;> simp only [Progress.states, List.mem_cons, List.not_mem_nil, or_false] at h <;>
    simp only [JournalState.chain, List.mem_cons] <;> tauto

/-! ## §2 — texts of a record. -/

/-- Every text of the record is accepted by the UTF-8 encoder. -/
structure JournalRecord.Texts (r : JournalRecord) : Prop where
  transactionId : encodable r.transactionId = true
  createdAt : encodable r.createdAt = true
  updatedAt : encodable r.updatedAt = true
  pokemon : (JournalRecord.rawPokemon r.pokemon).encodable = true
  locations : (JournalRecord.rawLocations r.locations).encodable = true
  lastError : ∀ e, r.lastError = some e → encodable e = true
  history : ∀ e ∈ r.history, encodable e.at_ = true ∧ encodable e.note = true

theorem encodableAll_history (es : List HistoryEntry) :
    Json.encodableAll ((es.map fun e : HistoryEntry =>
        (⟨.int e.sequence, .str e.state.value, .str e.at_, .str e.note⟩ : RawEntry)).map
          RawEntry.asJson) = true ↔
      ∀ e ∈ es, encodable e.at_ = true ∧ encodable e.note = true := by
  induction es with
  | nil => simp [Json.encodableAll]
  | cons e es ih =>
      rw [List.map_cons, List.map_cons, Json.encodableAll, Bool.and_eq_true, ih,
        List.forall_mem_cons]
      simp [RawEntry.asJson, Json.encodable, Json.encodableFields]

/-- **The document encodes exactly when its texts do**: numbers and names add nothing that the encoder could
refuse. -/
theorem JournalRecord.encodable_document_iff (r : JournalRecord) :
    (Json.obj r.raw.asJsonDict).encodable = true ↔ r.Texts := by
  have hhist := encodableAll_history r.history
  have herr : r.raw.lastError.encodable = true ↔ ∀ e, r.lastError = some e → encodable e = true := by
    cases hl : r.lastError with
    | none => simp only [JournalRecord.raw, hl, Json.encodable, reduceCtorEq, false_imp_iff,
        implies_true]
    | some e => simp only [JournalRecord.raw, hl, Json.encodable, Option.some.injEq,
        forall_eq']
  have hslot : r.raw.selectedGbaSlot.encodable = true := by
    cases hs : r.selectedGbaSlot <;> simp only [JournalRecord.raw, hs, Json.encodable]
  simp only [RawRecord.asJsonDict, Json.encodable, Json.encodableFields, encodable_lit,
    JournalState.encodable_value, hslot, Bool.true_and, Bool.and_true, Bool.and_eq_true, herr]
  simp only [JournalRecord.raw, Json.encodable, true_and, hhist]
  constructor
  · rintro ⟨h1, h2, h3, h4, h5, h6, h7⟩
    exact ⟨h1, h2, h3, h4, h5, h6, h7⟩
  · rintro ⟨h1, h2, h3, h4, h5, h6, h7⟩
    exact ⟨h1, h2, h3, h4, h5, h6, h7⟩

theorem JournalRecord.Texts.encodable_document {r : JournalRecord} (h : r.Texts) :
    (Json.obj r.raw.asJsonDict).encodable = true := r.encodable_document_iff.mpr h

/-- An update with encodable texts leaves a record with encodable texts. -/
theorem JournalRecord.Texts.advance {r : JournalRecord} (h : r.Texts) {s : JournalState}
    {now : PyStr} {u : Update} (hnow : encodable now = true) (hnote : encodable u.note = true)
    (herr : ∀ e, u.error = some e → encodable e = true)
    (hp : (rawPokemon (r.advance s now u).pokemon).encodable = true)
    (hl : (rawLocations (r.advance s now u).locations).encodable = true) :
    (r.advance s now u).Texts := by
  refine ⟨h.transactionId, h.createdAt, hnow, hp, hl, herr, ?_⟩
  intro e he
  have he' : e ∈ r.history ++ [⟨r.sequence + 1, s, now, u.note⟩] := he
  rw [List.mem_append, List.mem_singleton] at he'
  rcases he' with he' | rfl
  · exact h.history e he'
  · exact ⟨hnow, hnote⟩

theorem encodable_hashes (P : Pokemon100) (g : Progress) :
    (JournalRecord.rawPokemon (g.hashes P)).encodable = true := by
  have hentries : (g.hashes P).entries = [(lit "A", g.a?.map Pokemon100.sha256),
      (lit "B", g.b?.map Pokemon100.sha256), (lit "P", some P.sha256)] := rfl
  simp only [JournalRecord.rawPokemon, hentries, List.map_cons, List.map_nil, Json.encodable,
    Json.encodableFields, encodable_lit, Pokemon100.encodable_sha256]
  cases g.a? <;> cases g.b? <;> simp [Json.encodable]

theorem encodable_locations (s : JournalState) :
    (JournalRecord.rawLocations s.locations).encodable = true := by
  cases s <;> rfl

/-! ## §3 — booked records. -/

/-- The record `r` is a true entry of the books at progress `g`: hashes, locations, slot, history and state
all say `g` and nothing else. -/
structure Booked (P : Pokemon100) (g : Progress) (r : JournalRecord) : Prop where
  span : r.state ∈ g.states
  schema : r.schemaVersion = 1
  uuid : uuidParses r.transactionId = true
  sequence : r.sequence = r.state.rank
  pokemon : r.pokemon = g.hashes P
  locations : r.locations = r.state.locations
  slot : r.selectedGbaSlot = g.slot?
  lastError : r.lastError = none
  history : r.history.map HistoryEntry.state = r.state.upTo
  texts : r.Texts
  /-- `COMPLETE` is only ever booked with the placeholder back. -/
  returned : r.state = .complete → ∃ b a slot, g = .gotP b a slot P

namespace Booked

variable {P : Pokemon100} {g : Progress} {r : JournalRecord}

theorem ne_recoveryRequired (h : Booked P g r) : r.state ≠ .recoveryRequired := by
  intro hs
  have := h.span
  rw [hs] at this
  cases g <;> simp [Progress.states] at this

theorem terminal_iff (h : Booked P g r) : r.state.terminal = true ↔ r.state = .complete := by
  have := h.ne_recoveryRequired
  cases hs : r.state <;> simp_all [JournalState.terminal]

/-- The record that `create` writes is booked, with nothing traded yet. -/
theorem fresh (u : Uuid) {now : PyStr} (hnow : encodable now = true) (P : Pokemon100) :
    Booked P .start (JournalRecord.fresh u.str now P) where
  span := by simp [JournalRecord.fresh, Progress.states]
  schema := rfl
  uuid := u.uuidParses_str
  sequence := rfl
  pokemon := rfl
  locations := rfl
  slot := rfl
  lastError := rfl
  history := rfl
  texts :=
    { transactionId := u.encodable_str
      createdAt := hnow
      updatedAt := hnow
      pokemon := encodable_hashes P .start
      locations := encodable_locations .idle
      lastError := by simp [JournalRecord.fresh]
      history := by simp [JournalRecord.fresh, hnow] }
  returned := by simp [JournalRecord.fresh]

/-- **One step along the chain** keeps the books true, when the update writes what the new progress and the
new state call for.  This is the one place where an update is compared with the tables. -/
theorem advance (h : Booked P g r) {g' : Progress} {s : JournalState} {now : PyStr} {u : Update}
    (hnext : r.state.next = some s) (hspan : s ∈ g'.states) (hnow : encodable now = true)
    (hnote : encodable u.note = true) (herr : u.error = none)
    (hp : (r.advance s now u).pokemon = g'.hashes P)
    (hl : (r.advance s now u).locations = s.locations)
    (hslot : (r.advance s now u).selectedGbaSlot = g'.slot?)
    (hret : s = .complete → ∃ b a slot, g' = .gotP b a slot P) :
    Booked P g' (r.advance s now u) where
  span := hspan
  schema := h.schema
  uuid := h.uuid
  sequence := by
    rw [JournalRecord.advance_sequence, JournalRecord.advance_state, h.sequence,
      JournalState.rank_next hnext]
    simp
  pokemon := hp
  locations := hl
  slot := hslot
  lastError := herr
  history := by
    show (r.history ++ [_]).map HistoryEntry.state = s.upTo
    rw [List.map_append, h.history, JournalState.upTo_next hnext]
    rfl
  texts := by
    refine h.texts.advance hnow hnote ?_ ?_ ?_
    · intro e he
      rw [herr] at he
      exact absurd he (by simp)
    · rw [hp]
      exact encodable_hashes P g'
    · rw [hl]
      exact encodable_locations s
  returned := hret

/-- A step inside one progress, with no update of hashes, locations or slot. -/
theorem advance_note (h : Booked P g r) {s : JournalState} {now : PyStr} {note : PyStr}
    (hnext : r.state.next = some s) (hspan : s ∈ g.states) (hnow : encodable now = true)
    (hnote : encodable note = true) (hl : r.state.locations = s.locations) (hs : s ≠ .complete) :
    Booked P g (r.advance s now { note := note }) :=
  h.advance hnext hspan hnow hnote rfl h.pokemon (h.locations.trans hl) h.slot
    (fun hc => absurd hc hs)

end Booked

/-! ## §4 — records closed for recovery. -/

/-- A booked record after `_mark_recovery`. -/
def JournalRecord.recovered (r : JournalRecord) (now error : PyStr) : JournalRecord :=
  r.advance .recoveryRequired now
    { note := "transaction stopped because endpoint outcome may be unsafe or incomplete"
      error := some error }

theorem Booked.recovered_texts {P : Pokemon100} {g : Progress} {r : JournalRecord}
    (h : Booked P g r) {now : PyStr} (error : PyStr) (hnow : encodable now = true)
    (herr : encodable error = true) : (r.recovered now error).Texts := by
  refine h.texts.advance hnow (encodable_lit _) ?_ h.texts.pokemon h.texts.locations
  intro e he
  obtain rfl : error = e := by simpa using he
  exact herr

/-- Booked records are loaded back as they were written: their fields have the types that `load` asks for. -/
theorem Booked.loadable {P : Pokemon100} {g : Progress} {r : JournalRecord} (h : Booked P g r) :
    r.raw.Loadable where
  uuid := h.uuid
  schema := by
    show Json.int r.schemaVersion = .int 1
    rw [h.schema]
  sequence := ⟨r.state.rank, by omega, by rw [← h.sequence]; rfl⟩

theorem Booked.recovered_loadable {P : Pokemon100} {g : Progress} {r : JournalRecord}
    (h : Booked P g r) (now error : PyStr) : (r.recovered now error).raw.Loadable where
  uuid := h.uuid
  schema := h.loadable.schema
  sequence := ⟨r.state.rank + 1, by omega, by rw [← h.sequence]; rfl⟩

/-- The hash under a label of a `pokemon` member. -/
def hashIn : Json → PyStr → Option PyStr
  | .obj fields, label =>
      match Json.member fields label with
      | some (.str h) => some h
      | _ => none
  | _, _ => none

/-- The hash that a loaded record has under a label. -/
def RawRecord.hash? (r : RawRecord) (label : PyStr) : Option PyStr := hashIn r.pokemon label

namespace Booked

variable {P : Pokemon100} {g : Progress} {r : JournalRecord}

theorem hash_P (h : Booked P g r) : r.raw.hash? "P" = some P.sha256 := by
  show hashIn (JournalRecord.rawPokemon r.pokemon) "P" = _
  rw [h.pokemon]
  rfl

theorem hash_B (h : Booked P g r) : r.raw.hash? "B" = g.b?.map Pokemon100.sha256 := by
  show hashIn (JournalRecord.rawPokemon r.pokemon) "B" = _
  rw [h.pokemon]
  cases g <;> rfl

theorem hash_A (h : Booked P g r) : r.raw.hash? "A" = g.a?.map Pokemon100.sha256 := by
  show hashIn (JournalRecord.rawPokemon r.pokemon) "A" = _
  rw [h.pokemon]
  cases g <;> rfl

end Booked

/-! ## §5 — accounts. -/

/-- The trade `t` was the requested one, and the journal said so when it was made: a booked record in the
state of the request was durable at that moment. -/
def Requested (P : Pokemon100) (g : Progress) (t : Trade) : Prop :=
  ∃ q r, g.request P = some q ∧ t.console = q.console ∧ t.offered = q.offered ∧
    Booked P g r ∧ r.state = q.state ∧ t.durable = some (.json r.document)

/-- The trades that lead to a progress: one more settled trade for each stage, and no other trade in between. -/
inductive Accounts (P : Pokemon100) : Progress → List Trade → Prop
  | start : Accounts P .start []
  | settle {g g' : Progress} {ts : List Trade} {t : Trade} :
      Accounts P g ts → Requested P g t → g.settle P t.outcome = some g' →
      Accounts P g' (ts ++ [t])

section Inversion

variable {P : Pokemon100} {g : Progress} {o : TradeOutcome} {ts : List Trade}

theorem settle_ne_start : g.settle P o ≠ some .start := by
  cases g <;> cases o <;> simp [Progress.settle]

/-- The outcome that brings `B`: a confirmed trade of `P` for a record without mail. -/
theorem settle_gotB {b : Pokemon100} (h : g.settle P o = some (.gotB b)) :
    g = .start ∧ ∃ r, o = .switchResult r ∧ r.offeredMon = P ∧ r.commitConfirmed = true ∧
      r.receivedMon.holdsMail = false ∧ r.receivedMon = b := by
  cases g <;> cases o <;> simp only [Progress.settle, reduceCtorEq] at h
  · split at h
    · rename_i r hr
      simp only [Option.some.injEq, Progress.gotB.injEq] at h
      exact ⟨rfl, r, rfl, hr.1, hr.2.1, hr.2.2, h⟩
    · exact absurd h (by simp)
  · split at h <;> simp at h
  · split at h <;> simp at h

/-- The outcome that brings `A`: a confirmed trade of `B`, with a slot of the party. -/
theorem settle_gotA {b a : Pokemon100} {slot : Int} (h : g.settle P o = some (.gotA b a slot)) :
    g = .gotB b ∧ ∃ r, o = .gbaResult r ∧ r.offeredMon = b ∧ r.commitConfirmed = true ∧
      (0 ≤ r.selectedSlot ∧ r.selectedSlot ≤ 5) ∧ r.linkClosed = true ∧
      r.receivedMon.holdsMail = false ∧ r.receivedMon = a ∧ r.selectedSlot = slot := by
  cases g <;> cases o <;> simp only [Progress.settle, reduceCtorEq] at h
  · split at h <;> simp at h
  · split at h
    · rename_i r hr
      simp only [Option.some.injEq, Progress.gotA.injEq] at h
      obtain ⟨rfl, rfl, rfl⟩ := h
      exact ⟨rfl, r, rfl, hr.1, hr.2.1, hr.2.2.1, hr.2.2.2.1, hr.2.2.2.2, rfl, rfl⟩
    · exact absurd h (by simp)
  · split at h <;> simp at h

/-- The outcome of the return trade: a confirmed trade of `A` that brings `P` back. -/
theorem settle_gotP {b a returned : Pokemon100} {slot : Int}
    (h : g.settle P o = some (.gotP b a slot returned)) :
    g = .gotA b a slot ∧ ∃ r, o = .switchResult r ∧ r.offeredMon = a ∧ r.commitConfirmed = true ∧
      r.receivedMon = returned := by
  cases g <;> cases o <;> simp only [Progress.settle, reduceCtorEq] at h
  · split at h <;> simp at h
  · split at h <;> simp at h
  · split at h
    · rename_i r hr
      simp only [Option.some.injEq, Progress.gotP.injEq] at h
      obtain ⟨rfl, rfl, rfl, rfl⟩ := h
      exact ⟨rfl, r, rfl, hr.1, hr.2, rfl⟩
    · exact absurd h (by simp)

theorem Accounts.of_start (h : Accounts P .start ts) : ts = [] := by
  cases h with
  | start => rfl
  | settle _ _ hset => exact absurd hset settle_ne_start

theorem Accounts.of_gotB {b : Pokemon100} (h : Accounts P (.gotB b) ts) :
    ∃ t r, ts = [t] ∧ Requested P .start t ∧ t.outcome = .switchResult r ∧ r.offeredMon = P ∧
      r.commitConfirmed = true ∧ r.receivedMon.holdsMail = false ∧ r.receivedMon = b := by
  cases h with
  | @settle g _ ts t hacc hreq hset =>
      obtain ⟨rfl, r, ho, hr⟩ := settle_gotB hset
      obtain rfl := hacc.of_start
      exact ⟨t, r, rfl, hreq, ho, hr⟩

theorem Accounts.of_gotA {b a : Pokemon100} {slot : Int} (h : Accounts P (.gotA b a slot) ts) :
    ∃ ts' t r, ts = ts' ++ [t] ∧ Accounts P (.gotB b) ts' ∧ Requested P (.gotB b) t ∧
      t.outcome = .gbaResult r ∧ r.offeredMon = b ∧ r.commitConfirmed = true ∧
      (0 ≤ r.selectedSlot ∧ r.selectedSlot ≤ 5) ∧ r.linkClosed = true ∧
      r.receivedMon.holdsMail = false ∧ r.receivedMon = a ∧ r.selectedSlot = slot := by
  cases h with
  | @settle g _ ts t hacc hreq hset =>
      obtain ⟨rfl, r, ho, hr⟩ := settle_gotA hset
      exact ⟨ts, t, r, rfl, hacc, hreq, ho, hr⟩

theorem Accounts.of_gotP {b a returned : Pokemon100} {slot : Int}
    (h : Accounts P (.gotP b a slot returned) ts) :
    ∃ ts' t r, ts = ts' ++ [t] ∧ Accounts P (.gotA b a slot) ts' ∧
      Requested P (.gotA b a slot) t ∧ t.outcome = .switchResult r ∧ r.offeredMon = a ∧
      r.commitConfirmed = true ∧ r.receivedMon = returned := by
  cases h with
  | @settle g _ ts t hacc hreq hset =>
      obtain ⟨rfl, r, ho, hr⟩ := settle_gotP hset
      exact ⟨ts, t, r, rfl, hacc, hreq, ho, hr⟩

/-- The slot of an exchange that has `A` is one of the six of a party. -/
theorem Accounts.slot_range {slot : Int} (h : Accounts P g ts) (hs : g.slot? = some slot) :
    0 ≤ slot ∧ slot ≤ 5 := by
  have gotA : ∀ {b a : Pokemon100} {ts : List Trade}, Accounts P (.gotA b a slot) ts →
      0 ≤ slot ∧ slot ≤ 5 := by
    intro b a ts h
    obtain ⟨_, _, r, _, _, _, _, _, _, hr, _, _, _, rfl⟩ := h.of_gotA
    exact hr
  cases g with
  | start => exact absurd hs (by simp [Progress.slot?])
  | gotB b => exact absurd hs (by simp [Progress.slot?])
  | gotA b a n =>
      obtain rfl : n = slot := by simpa [Progress.slot?] using hs
      exact gotA h
  | gotP b a n returned =>
      obtain rfl : n = slot := by simpa [Progress.slot?] using hs
      obtain ⟨ts', _, _, _, h', _⟩ := h.of_gotP
      exact gotA h'

end Inversion

end TradeBroker
