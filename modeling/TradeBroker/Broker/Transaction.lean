/-
# TradeBroker.Broker.Transaction — `TradeCoordinator.execute`.

`broker/transaction.py` as one program.  The body of the `try` is a `Coordinator` program: it owns
the locals that the `except` and `finally` clauses read after a raise, the record object and the two
`*_connected` flags.  The body is cut at its three trades (`switchStage1`, `gbaStage`,
`switchStage2`); each part keeps the order of the source line by line.

`except Exception` runs `_mark_recovery` on the record object as it is THEN, mutations of a failed
`transition` included; a `BaseException` skips it.  The `finally` clause closes what was connected
and swallows every `Exception` of a close.

The texts are those of the source, since they reach the journal: the notes of the transitions, the
locations, and the messages of the checks.  A hash stands in some of them, and it is computed.

Nothing is said here about what holds of the program.  The walk is in `Broker.Walk`, the abstraction in
`Broker.Escrow`, and the four other readings of one and the same program (its endpoint calls, its file
calls, its power losses, what it tells the adapter) in modules of their own.
-/
import TradeBroker.Journal.Store

namespace TradeBroker

open Lib

structure TransactionOutcome where
  transactionId : PyStr
  gbaMon : Pokemon100
  switchMon : Pokemon100
  brokerMon : Pokemon100
  deriving DecidableEq

/-- The locals of `execute` that outlive the `try` body: the `except` clause reads the record, the `finally`
clause the two flags. -/
structure Locals where
  record : JournalRecord
  gbaConnected : Bool
  switchConnected : Bool

/-- The body of the `try`: a program with these locals, which keep their value when it raises. -/
abbrev Coordinator (α : Type) : Type := Method Op Ret Exc Locals α

namespace TradeCoordinator

/-! ## §1 — validation of endpoint results. -/

/-- `_validate_result`: the offered record is compared before the commit, so a wrong record is reported as
such. -/
def validateResult (result : TradeResult) (expectedOffer : Pokemon100) (endpoint : String) :
    Except Exc Unit :=
  if result.offeredMon ≠ expectedOffer then
    .error ⟨.endpointError, lit endpoint ++ " reported a different offered record: expected " ++
      expectedOffer.sha256 ++ ", got " ++ result.offeredMon.sha256⟩
  else if result.commitConfirmed = false then
    .error ⟨.commitNotConfirmed, lit endpoint ++ " did not confirm irreversible commit"⟩
  else .ok ()

/-- `_validate_gba_result`: the same two checks, then the slot, then the link. -/
def validateGbaResult (result : GbaTradeResult) (expectedOffer : Pokemon100) : Except Exc Unit :=
  match validateResult result.toTradeResult expectedOffer "physical GBA" with
  | .error e => .error e
  | .ok () =>
      if ¬ (0 ≤ result.selectedSlot ∧ result.selectedSlot ≤ 5) then
        .error ⟨.endpointError, "invalid selected GBA slot " ++ lit (toString result.selectedSlot)⟩
      else if result.linkClosed = false then
        .error ⟨.commitNotConfirmed, "GBA trade committed but wired link did not close successfully"⟩
      else .ok ()

/-- `if returned != placeholder: raise PlaceholderMismatch(...)`. -/
def validateReturned (returned placeholder : Pokemon100) : Except Exc Unit :=
  if returned ≠ placeholder then
    .error ⟨.placeholderMismatch, "returned placeholder mismatch: expected " ++
      placeholder.sha256 ++ ", received " ++ returned.sha256⟩
  else .ok ()

/-! ## §2 — the `try` body. -/

variable (journal : JournalStore)

/-- `record = self.journal.transition(record, state, ...)`. -/
def transition (state : JournalState) (u : Update) : Coordinator Unit :=
  Method.onLocals fun l => do
    let ended ← journal.transition l.record state u
    pure (ended.1, { l with record := ended.2 })

/-- `self.fault_hook(boundary, record)`: it sees the record object and may raise, and nothing else. -/
def hook (boundary : Boundary) : Coordinator Unit :=
  Method.onLocals fun l => (Method.lift (faultHook boundary l.record)).run l

/-- `self.journal.save_artifact(record, label, mon)`, in front of the transition that names it. -/
def saveArtifact (label : PyStr) (mon : Pokemon100) : Coordinator Unit :=
  Method.onLocals fun l => (Method.lift (journal.saveArtifact l.record label mon)).run l

/-- From the first transition to the capture of `B`; the hook and the checks stand between the trade and the
first write. -/
def switchStage1 (placeholder : Pokemon100) : Coordinator Pokemon100 := do
  transition journal .switchStage1Started { note := "starting Switch trade B for placeholder P" }
  hook .beforeSwitchStage1
  waitForTradeMenu
  let first ← switchTradeOnce placeholder
  hook .afterSwitch1EndpointBeforePersist
  ofExcept (validateResult first placeholder "Switch stage 1")
  ofExcept first.receivedMon.refuseMail
  saveArtifact journal "B" first.receivedMon
  transition journal .switchBCaptured
    { note := "Switch commit confirmed; B captured and P transferred"
      pokemon := some (.ofList [("B", some first.receivedMon.sha256)])
      locations := some (.ofList [("B", "broker"), ("P", "switch")]) }
  transition journal .placeholderOnSwitch { note := "durably recorded placeholder on Switch" }
  hook .afterPlaceholderOnSwitch
  pure first.receivedMon

/-- From `GBA_STAGE_STARTED` to the capture of `A`, which is offered nowhere before it is on file. -/
def gbaStage (bMon : Pokemon100) : Coordinator Pokemon100 := do
  transition journal .gbaStageStarted { note := "starting physical GBA trade A for B" }
  hook .beforeGbaTrade
  let gbaResult ← gbaTradeOnce bMon
  hook .afterGbaEndpointBeforePersist
  ofExcept (validateGbaResult gbaResult bMon)
  ofExcept gbaResult.receivedMon.refuseMail
  saveArtifact journal "A" gbaResult.receivedMon
  transition journal .gbaACaptured
    { note := "GBA commit confirmed; selected A captured and B transferred"
      pokemon := some (.ofList [("A", some gbaResult.receivedMon.sha256)])
      locations := some (.ofList [("A", "broker"), ("B", "gba")])
      selectedGbaSlot := some gbaResult.selectedSlot }
  transition journal .bCommittedToGba { note := "durably recorded B ownership on GBA" }
  hook .afterBCommittedToGba
  pure gbaResult.receivedMon

/-- From `SWITCH_STAGE2_STARTED` to `COMPLETE`; the returned placeholder is saved before it is compared. -/
def switchStage2 (placeholder bMon aMon : Pokemon100) : Coordinator TransactionOutcome := do
  transition journal .switchStage2Started { note := "starting Switch return trade P for A" }
  hook .beforeSwitchStage2
  waitForTradeMenu
  let second ← switchTradeOnce aMon
  hook .afterSwitch2EndpointBeforePersist
  ofExcept (validateResult second aMon "Switch stage 2")
  saveArtifact journal "P_RETURNED" second.receivedMon
  transition journal .aCommittedToSwitch
    { note := "Switch return commit confirmed; A transferred and candidate P captured"
      locations := some (.ofList
        [("A", "switch"), ("P", "broker (unverified candidate)"), ("B", "gba")]) }
  hook .beforePlaceholderValidation
  ofExcept (validateReturned second.receivedMon placeholder)
  transition journal .complete
    { note := "placeholder recovered byte-for-byte; A/B/P exchange complete"
      locations := some (.ofList [("P", "broker")]) }
  let l ← get
  pure ⟨l.record.transactionId, bMon, aMon, second.receivedMon⟩

/-- The whole `try` body. -/
def body (placeholder : Pokemon100) : Coordinator TransactionOutcome := do
  connect .switch
  modify fun l => { l with switchConnected := true }
  connect .gba
  modify fun l => { l with gbaConnected := true }
  let bMon ← switchStage1 journal placeholder
  let aMon ← gbaStage journal bMon
  switchStage2 journal placeholder bMon aMon

/-! ## §3 — `except`, `finally` and `execute`. -/

/-- `_mark_recovery(record, exc)`: a terminal record is left alone, and what the transition raises is logged
and swallowed. -/
def markRecovery (record : JournalRecord) (exc : Exc) : Broker Unit :=
  if record.state.terminal then pure ()
  else ExceptT.mk do
    let ended ← journal.transition record .recoveryRequired
      { note := "transaction stopped because endpoint outcome may be unsafe or incomplete"
        error := some exc.describe }
    match ended.1 with
    | .ok () => pure (.ok ())
    | .error e => pure (if e.isException then .ok () else .error e)

/-- `except Exception as exc: self._mark_recovery(record, exc); raise`. -/
def handle (record : JournalRecord) : Except Exc TransactionOutcome → Broker TransactionOutcome
  | .ok outcome => pure outcome
  | .error exc =>
      if exc.isException then do
        markRecovery journal record exc
        throw exc
      else throw exc

/-- `if connected: try: close() except Exception: LOG.exception(...)`; only a `BaseException` gets out of it. -/
def closeIf (connected : Bool) (console : Console) : Broker Unit :=
  if connected then do
    let closed ← Act.attempt (close console)
    match closed with
    | .ok () => pure ()
    | .error e => if e.isException then pure () else throw e
  else pure ()

/-- `TradeCoordinator.execute(placeholder)`: the mail check and the guard, `create`, the body, and then the
two clauses. -/
def execute (placeholder : Pokemon100) : Broker TransactionOutcome := do
  ofExcept placeholder.refuseMail
  journal.requireNewTransaction
  let record ← journal.create placeholder
  let ended ← ExceptT.lift ((body journal placeholder).run.run ⟨record, false, false⟩)
  let answer ← Act.attempt (handle journal ended.2.record ended.1)
  closeIf ended.2.gbaConnected .gba
  closeIf ended.2.switchConnected .switch
  ofExcept answer

end TradeCoordinator

end TradeBroker
