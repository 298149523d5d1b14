/-
# TradeBroker.Broker.Outage — sessions of the coordinator, and the power.

`Lives` is what a machine may go through: sessions of `execute`, each stopped at any call, and power losses.
A power loss may take the directory of the journal too, since `_atomic_bytes` makes it and never syncs the
directory above; then the journal is gone with it, the machine knows of no transaction, and the trades are
counted anew.  What is said below of trades and journals is said as long as that directory is found again.

* `journal_never_torn`: a journal that is found is the document of one record, loads into it, and accounts for
  the trades that were made since the directory of the journal was there.
* `trades_at_most_once`: none of these trades is ever repeated.
* `announced_before_trade`: nothing is traded before a power loss that leaves the directory of the journal can
  no longer hide that it was going to be.
* `complete_survives`: an outcome that was returned is on the platter.
* `evidence_survives_iff`: the artifacts come back exactly with the directory of their transaction.
* `artifacts_can_vanish`: and nothing ever syncs the directory that holds that one, so that the first power loss
  may take the artifacts and leave the journal.

The invariant behind all of it is `Dependable` (`Broker.PowerLoss`), which a session keeps call by call
and a power loss keeps because it is a statement about every file that the name of the journal MAY lead
to.  `Lives.dependable` is the one induction over the life of a machine; each result above reads off what
it needs.
-/
import TradeBroker.Broker.PowerLoss
import TradeBroker.Broker.Script

namespace TradeBroker

open Lib

-- Programs are compared by running them: keep the bytes of a record out of that.
attribute [local irreducible] Pokemon100.heldItem

/-! ## §1 — a drive that works. -/

namespace Drive

/-- The error of a call that cannot be served, such as the read of a file that is not there. -/
def notServed : Exc := ⟨.osError, "Input/output error"⟩

/-- One answer of a drive on which every call succeeds, with the endpoints of a script; it is used for runs
over concrete volumes only. -/
def answer (s : Script) (floatRepr : Float → PyStr) (limit : Nat) (d : Drive) : (op : Op) → Ret op × Drive
  | .pathExists => (.ok (d.volume.entry .journal).isSome, d)
  | .readText =>
      match d.volume.read .journal with
      | some content => (readContent limit content, d)
      | none => (.error notServed, d)
  | .file .mkdir t => (.ok (), d.withVolume (makeDirs d.volume t.path.up.reverse))
  | .file .createTemp t =>
      if d.volume.entry (.temp t.parent d.volume.next) = none then
        (.ok (), ⟨d.volume.create (.temp t.parent d.volume.next) [], some (.temp t.parent d.volume.next), d.asked⟩)
      else (.error notServed, d)
  | .file .writeTemp t =>
      match d.temp, t.payload floatRepr with
      | some n, some content => (.ok (), d.withVolume (d.volume.write n content))
      | _, _ => (.error notServed, d)
  | .file .fsyncTemp _ =>
      match d.temp with
      | some n => (.ok (), d.withVolume (d.volume.sync n))
      | none => (.error notServed, d)
  | .replace t =>
      match d.temp with
      | some n =>
          if (d.volume.entry n).isSome then (.ok (), ⟨d.volume.rename n t.path, none, d.asked⟩)
          else (.error notServed, d)
      | none => (.error notServed, d)
  | .file .unlinkTemp _ =>
      match d.temp with
      | some n => (.ok (), d.withVolume (d.volume.unlink n))
      | none => (.error notServed, d)
  | .file .openDir _ => (.ok (), d)
  | .file .closeDir _ => (.ok (), d)
  | .file .fsyncDir t => (.ok (), d.withVolume (d.volume.syncDir FileName.up (.dir t.parent)))
  | .now => (Script.now, d)
  | .uuid4 => (Script.txid, d)
  | .connect console => (s.connect console, d)
  | .waitForTradeMenu => (s.waitForTradeMenu, d)
  | .switchTrade offered => ((s.switchTrade d.asked.length offered).1, d.ask .switch offered)
  | .gbaTrade offered => ((s.gbaTrade offered).1, d.ask .gba offered)
  | .close console => (s.close console, d)
  | .faultHook b _ => (s.faultHook b, d)

theorem answer_step (s : Script) (floatRepr : Float → PyStr) (limit : Nat) (d : Drive) (op : Op) :
    DriveStep floatRepr limit d op (d.answer s floatRepr limit op).1 (d.answer s floatRepr limit op).2 := by
  have hrefused : ∀ {α : Type}, Refused (Except.error notServed : Except Exc α) := ⟨notServed, rfl, rfl⟩
  cases op with
  | pathExists => exact ⟨rfl, Or.inl rfl⟩
  | readText =>
      simp only [answer]
      cases hread : d.volume.read .journal with
      | none => exact ⟨rfl, Or.inr hrefused⟩
      | some content => exact ⟨rfl, Or.inl ⟨content, hread, rfl⟩⟩
  | replace t =>
      simp only [answer]
      split
      · rename_i n hn
        split
        · rename_i he
          exact Or.inl ⟨n, rfl, hn, he, rfl⟩
        · exact Or.inr ⟨hrefused, rfl⟩
      · exact Or.inr ⟨hrefused, rfl⟩
  | now => exact ⟨encodable_lit _, rfl⟩
  | uuid4 =>
      refine ⟨?_, rfl⟩
      show Script.txid.isV4 = true
      decide
  | connect c => rfl
  | waitForTradeMenu => rfl
  | switchTrade offered => rfl
  | gbaTrade offered => rfl
  | close c => rfl
  | faultHook b r => rfl
  | file c t =>
      cases c with
      | mkdir => exact ⟨_, List.prefix_rfl, rfl, Or.inl ⟨rfl, rfl⟩⟩
      | createTemp =>
          simp only [answer]
          split
          · rename_i hnone
            exact Or.inl ⟨_, rfl, hnone, rfl⟩
          · exact Or.inr ⟨hrefused, rfl⟩
      | writeTemp =>
          simp only [answer]
          cases hn : d.temp with
          | none => exact Or.inr ⟨hrefused, rfl⟩
          | some n =>
              cases hc : t.payload floatRepr with
              | none => exact Or.inr ⟨hrefused, rfl⟩
              | some content => exact Or.inl ⟨n, content, hn, rfl, Or.inl ⟨rfl, hc⟩⟩
      | fsyncTemp =>
          simp only [answer]
          cases hn : d.temp with
          | none => exact Or.inr ⟨hrefused, rfl⟩
          | some n => exact Or.inl ⟨n, hn, rfl, Or.inl rfl⟩
      | unlinkTemp =>
          simp only [answer]
          cases hn : d.temp with
          | none => exact Or.inr ⟨hrefused, rfl⟩
          | some n => exact Or.inl ⟨n, rfl, hn, rfl⟩
      | openDir => exact ⟨rfl, Or.inl rfl⟩
      | closeDir => exact ⟨rfl, Or.inl rfl⟩
      | fsyncDir => exact Or.inl ⟨rfl, rfl⟩

end Drive

/-- A volume on which there is the directory of the journal, and nothing else. -/
def newVolume : Volume FileName Bytes where
  entry := fun n => if n = .dir .home then some 0 else none
  maybe := fun n => if n = .dir .home then [some 0] else [none]
  content := fun _ => []
  synced := fun _ => true
  next := 1
  entry_mem := by
    intro n
    split <;> exact List.mem_singleton_self _
  maybe_lt := by
    intro n i hi
    split at hi
    · cases List.mem_singleton.mp hi
      exact Nat.zero_lt_one
    · cases List.mem_singleton.mp hi

/-- A transaction in which everything goes well, on a new volume. -/
def driveRun : Except Exc TransactionOutcome × Drive :=
  Prog.run (fun d => d.answer (Script.exchange (sampleMon 2) (sampleMon 1) (sampleMon 0)) (fun _ => []) 3)
    (TradeCoordinator.execute sampleStore (sampleMon 0)).run ⟨newVolume, none, []⟩

theorem driveRun_finish :
    Prog.Finish (DriveStep (fun _ => []) 3) (TradeCoordinator.execute sampleStore (sampleMon 0)).run
      ⟨newVolume, none, []⟩ driveRun.1 driveRun.2 :=
  Prog.run_finish (Drive.answer_step _ _ _) _ _

theorem driveRun_eval :
    driveRun.1.isOk = true ∧ (driveRun.2.volume.entry .journal).isSome = true ∧
      (driveRun.2.volume.entry (.dir .home)).isSome = true ∧ driveRun.2.asked ≠ [] ∧
      driveRun.2.asked.all (fun a => (a.volume.entry (.dir .home)).isSome) = true := by
  decide +kernel

/-! ## §2 — sessions, and the power. -/

/-- What becomes of a drive, from a volume `v₀` on: sessions of the coordinator, each stopped anywhere, and — where
`losses` — power losses between them.  The trades are counted as long as the directory of the journal is found
again; without it the machine begins anew. -/
inductive Lives (floatRepr : Float → PyStr) (limit : Nat) (journal : JournalStore) (losses : Prop)
    (v₀ : Volume FileName Bytes) : Drive → Prop
  | start : Lives floatRepr limit journal losses v₀ ⟨v₀, none, []⟩
  | session {d d' : Drive} {P : Pokemon100} {q : Prog Op Ret (Except Exc TransactionOutcome)} :
      Lives floatRepr limit journal losses v₀ d →
      Prog.Reach (DriveStep floatRepr limit) (TradeCoordinator.execute journal P).run ⟨d.volume, none, d.asked⟩ q d' →
      Lives floatRepr limit journal losses v₀ d'
  | powerLoss {d : Drive} {v' : Volume FileName Bytes} : losses → Lives floatRepr limit journal losses v₀ d →
      d.volume.PowerLoss FileName.up v' →
      Lives floatRepr limit journal losses v₀
        ⟨v', none, if (v'.entry (.dir .home)).isSome then d.asked else []⟩

section Lives

variable {floatRepr : Float → PyStr} {limit : Nat} {journal : JournalStore} {losses ev : Prop}
  {v₀ v v' : Volume FileName Bytes} {d : Drive}

/-- No name leads to a journal, and nothing was traded, so there is nothing to account for. -/
theorem Dependable.start (h : v.maybe .journal = [none]) : Dependable floatRepr ev ⟨v, none, []⟩ where
  journal := by
    intro i hi
    rw [h] at hi
    cases List.mem_singleton.mp hi
  blank := fun _ => rfl
  asked := by
    rintro _ ⟨⟩

/-- A restart forgets the name of a temporary file; the file itself may stay, and nobody opens it again. -/
theorem Dependable.restart (h : Dependable floatRepr ev d) : Dependable floatRepr ev ⟨d.volume, none, d.asked⟩ :=
  h.calm none (.refl _)

/-- The power fails, and the directory of the journal is found again. -/
theorem Dependable.powerLoss (h : Dependable floatRepr ev d) (hl : d.volume.PowerLoss FileName.up v')
    (hhome : (v'.entry (.dir .home)).isSome = true) : Dependable floatRepr False ⟨v', none, d.asked⟩ where
  journal := by
    refine hl.whole (whole_mono h.journal fun c hc => ?_)
    obtain ⟨r, hr, hbytes, htells, -⟩ := hc
    exact ⟨r, hr, hbytes, htells, False.elim⟩
  blank := by
    intro hnone
    rw [hl.settled, List.mem_singleton] at hnone
    exact h.blank (hnone ▸ hl.mem_maybe rfl hhome)
  asked := h.asked

/-- **Every drive is dependable**, and as long as no power was lost, all evidence is there.  The induction is
over what the machine has been through. -/
theorem Lives.dependable (hlimit : 3 ≤ limit) (h₀ : v₀.maybe .journal = [none])
    (h : Lives floatRepr limit journal losses v₀ d) : Dependable floatRepr (¬ losses) d := by
  induction h with
  | start => exact .start h₀
  | session _ hr ih => exact ((TradeCoordinator.execute_power_sat journal hlimit ih.restart _).reach hr).inv
  | @powerLoss d v' hlosses _ hl ih =>
      have hev : (¬ losses) = False := by simp [hlosses]
      rw [hev]
      by_cases hhome : (v'.entry (.dir .home)).isSome = true
      · rw [if_pos hhome]
        exact ih.powerLoss hl hhome
      · rw [if_neg hhome]
        have hgone : v'.entry .journal = none := by
          apply Option.not_isSome_iff_eq_none.mp
          intro hfound
          refine hhome (hl.up_isSome ?_ hfound (List.mem_cons_self ..))
          intro e he f hf
          obtain rfl := List.mem_singleton.mp he
          cases hf
        refine .start ?_
        rw [hl.settled, hgone]

/-- What a proper record looks like to a reader of its file. -/
theorem JournalRecord.Proper.loadContent {r : JournalRecord} (h : r.Proper) (hlimit : 3 ≤ limit) :
    journal.loadContent limit (r.journalBytes floatRepr) = .ok r.raw := by
  rw [h.made.loadContent h.encodable floatRepr hlimit journal, JournalRecord.reread_eq h.places]

/-- What is confirmed is found again, with the directory of the journal. -/
theorem Confirmed.found {r : JournalRecord} (h : Confirmed floatRepr r v) (hl : v.PowerLoss FileName.up v')
    (hhome : (v'.entry (.dir .home)).isSome = true) : v'.read .journal = some (r.journalBytes floatRepr) := by
  obtain ⟨content, hread, rfl⟩ := hl.solid h rfl hhome
  exact hread

theorem newVolume_lives : Lives floatRepr limit journal True newVolume ⟨newVolume, none, []⟩ := .start

/-- The transaction on the new volume is a session. -/
theorem driveRun_lives : Lives (fun _ => []) 3 sampleStore losses newVolume driveRun.2 :=
  .session .start driveRun_finish

/-- The power may fail so that every name is found again. -/
theorem exists_powerLoss_kept (v : Volume FileName Bytes) :
    ∃ v', v.PowerLoss FileName.up v' ∧ v'.entry (.dir .home) = v.entry (.dir .home) ∧
      ((v.entry (.dir .home)).isSome = true → v'.entry .journal = v.entry .journal) := by
  obtain ⟨v', hl, hentry⟩ := Volume.exists_powerLoss FileName.up v v.entry_mem
  refine ⟨v', hl, hentry _, fun hhome => ?_⟩
  exact (hentry .journal).trans (if_pos (by simp [FileName.up, FileName.above, hhome]))

/-- **The journal is never torn.**  Whatever the machine has been through — sessions stopped at any call, power
losses at any of these points — a journal that is there is the whole document of one record, loads into it, and
accounts for the trades that were asked for, counted as long as the directory of the journal is found again: a
power loss that takes it takes the journal too, and what is asked for behind it belongs to another journal. -/
theorem journal_never_torn (hlimit : 3 ≤ limit) (h₀ : v₀.maybe .journal = [none])
    (h : Lives floatRepr limit journal losses v₀ d) {content : Bytes}
    (hread : d.volume.read .journal = some content) :
    ∃ r : JournalRecord, content = r.journalBytes floatRepr ∧ journal.loadContent limit content = .ok r.raw ∧
      r.Tells d.asked := by
  obtain ⟨r, hr, rfl, htells, -⟩ := (h.dependable hlimit h₀).journal.read hread
  exact ⟨r, rfl, hr.loadContent hlimit, htells⟩

/-- The journal of a complete transaction. -/
theorem journal_never_torn_complete :
    ∃ (content : Bytes) (r : JournalRecord), driveRun.2.volume.read .journal = some content ∧
      content = r.journalBytes (fun _ => []) ∧ sampleStore.loadContent 3 content = .ok r.raw ∧
      r.Tells driveRun.2.asked := by
  obtain ⟨i, hi⟩ := Option.isSome_iff_exists.mp driveRun_eval.2.1
  have hread : driveRun.2.volume.read .journal = some (driveRun.2.volume.content i) := congrArg _ hi
  have hlives : Lives (fun _ => []) 3 sampleStore True newVolume driveRun.2 := driveRun_lives
  obtain ⟨r, hbytes, hload, htells⟩ := journal_never_torn (Nat.le_refl 3) rfl hlives hread
  exact ⟨_, r, hread, hbytes, hload, htells⟩

/-- **No trade is made twice.**  Over all sessions and all power losses that leave the directory of the journal, the
trades that are asked for are the three of one transaction, in their order, as far as it came. -/
theorem trades_at_most_once (hlimit : 3 ≤ limit) (h₀ : v₀.maybe .journal = [none])
    (h : Lives floatRepr limit journal losses v₀ d) : d.asked.map Asked.console <+: [.switch, .gba, .switch] := by
  have hdep := h.dependable hlimit h₀
  cases hi : d.volume.entry .journal with
  | none =>
      rw [hdep.blank (hi ▸ d.volume.entry_mem .journal)]
      exact List.nil_prefix
  | some i =>
      obtain ⟨-, r, -, -, htells, -⟩ := hdep.journal i (hi ▸ d.volume.entry_mem .journal)
      rw [htells.consoles]
      exact (List.take_prefix _ legs).map Prod.fst

/-- All three trades of a complete transaction. -/
theorem trades_at_most_once_complete : driveRun.2.asked.map Asked.console <+: [.switch, .gba, .switch] := by
  have hlives : Lives (fun _ => []) 3 sampleStore True newVolume driveRun.2 := driveRun_lives
  exact trades_at_most_once (Nat.le_refl 3) rfl hlives

/-- **Nothing is traded unannounced.**  When a trade is asked for, a loss of power that leaves the directory of
the journal can no longer hide it: the journal that is found behind it says which trade had begun, and names the
record that was offered.  (The directory itself is made by `_atomic_bytes` and not synced; a power loss that
takes it takes the announcement as well.) -/
theorem announced_before_trade (hlimit : 3 ≤ limit) (h₀ : v₀.maybe .journal = [none])
    (h : Lives floatRepr limit journal losses v₀ d) {a : Asked} (ha : a ∈ d.asked)
    (hl : a.volume.PowerLoss FileName.up v') (hhome : (v'.entry (.dir .home)).isSome = true) :
    ∃ r : JournalRecord, v'.read .journal = some (r.journalBytes floatRepr) ∧
      journal.loadContent limit (r.journalBytes floatRepr) = .ok r.raw ∧ r.Announces a.console a.offered := by
  obtain ⟨r, hproper, hconfirmed, hannounces⟩ := (h.dependable hlimit h₀).asked a ha
  exact ⟨r, hconfirmed.found hl hhome, hproper.loadContent hlimit, hannounces⟩

/-- The trades of a complete transaction. -/
theorem announced_before_trade_first :
    ∃ a ∈ driveRun.2.asked, ∃ (v' : Volume FileName Bytes) (r : JournalRecord),
      a.volume.PowerLoss FileName.up v' ∧ v'.read .journal = some (r.journalBytes fun _ => []) ∧
      r.Announces a.console a.offered := by
  obtain ⟨-, -, -, hasked, hhome⟩ := driveRun_eval
  obtain ⟨a, ha⟩ := List.exists_mem_of_ne_nil _ hasked
  have hhome : (a.volume.entry (.dir .home)).isSome = true := List.all_eq_true.mp hhome a ha
  have hlives : Lives (fun _ => []) 3 sampleStore True newVolume driveRun.2 := driveRun_lives
  obtain ⟨v', hl, hdir, -⟩ := exists_powerLoss_kept a.volume
  obtain ⟨r, hread, -, hannounces⟩ := announced_before_trade (Nat.le_refl 3) rfl hlives ha hl (hdir ▸ hhome)
  exact ⟨a, ha, v', r, hl, hread, hannounces⟩

/-- **What was returned stays.**  Behind a power loss after the return the journal says `COMPLETE`. -/
theorem complete_survives (hlimit : 3 ≤ limit) (h₀ : v₀.maybe .journal = [none])
    (h : Lives floatRepr limit journal losses v₀ d) {P : Pokemon100} {outcome : TransactionOutcome} {d' : Drive}
    (hr : Prog.Finish (DriveStep floatRepr limit) (TradeCoordinator.execute journal P).run ⟨d.volume, none, d.asked⟩
      (.ok outcome) d') (hl : d'.volume.PowerLoss FileName.up v') (hhome : (v'.entry (.dir .home)).isSome = true) :
    ∃ r : JournalRecord, v'.read .journal = some (r.journalBytes floatRepr) ∧
      journal.loadContent limit (r.journalBytes floatRepr) = .ok r.raw ∧ r.state = .complete ∧
      r.transactionId = outcome.transactionId := by
  obtain ⟨-, r, hproper, hconfirmed, hstate, htxid⟩ :=
    (TradeCoordinator.execute_power_sat journal hlimit (h.dependable hlimit h₀).restart P).finish hr
  exact ⟨r, hconfirmed.found hl hhome, hproper.loadContent hlimit, hstate, htxid⟩

/-- The outcome of a complete transaction. -/
theorem complete_survives_return :
    ∃ (outcome : TransactionOutcome) (v' : Volume FileName Bytes) (r : JournalRecord),
      driveRun.1 = .ok outcome ∧ driveRun.2.volume.PowerLoss FileName.up v' ∧
      v'.read .journal = some (r.journalBytes fun _ => []) ∧ r.state = .complete ∧
      r.transactionId = outcome.transactionId := by
  obtain ⟨hok, -, hhome, -⟩ := driveRun_eval
  have hfinish := driveRun_finish
  cases houtcome : driveRun.1 with
  | error e =>
      rw [houtcome] at hok
      cases hok
  | ok outcome =>
      rw [houtcome] at hfinish
      obtain ⟨v', hl, hdir, -⟩ := exists_powerLoss_kept driveRun.2.volume
      obtain ⟨r, hread, -, hstate, htxid⟩ := complete_survives (Nat.le_refl 3) rfl newVolume_lives hfinish
        hl (hdir ▸ hhome)
      exact ⟨outcome, v', r, rfl, hl, hread, hstate, htxid⟩

/-- **All the evidence, or none.**  When the power fails for the first time and the journal comes back, every hash
in it has its artifact exactly when the directory of the transaction comes back too. -/
theorem evidence_survives_iff (hlimit : 3 ≤ limit) (h₀ : v₀.maybe .journal = [none])
    (h : Lives floatRepr limit journal False v₀ d) (hl : d.volume.PowerLoss FileName.up v') {content : Bytes}
    (hread : v'.read .journal = some content) :
    ∃ r : JournalRecord, journal.loadContent limit content = .ok r.raw ∧
      ∀ label hash, r.pokemon.get? label = some (some hash) →
        ((∃ bytes, v'.read (.artifact ⟨r.transactionId, label, hash⟩) = some bytes ∧ HasHash hash bytes) ↔
          (v'.entry (.dir (.transaction r.transactionId))).isSome = true) := by
  obtain ⟨r, hproper, rfl, -, hvouched⟩ := (hl.whole (h.dependable hlimit h₀).journal).read hread
  refine ⟨r, hproper.loadContent hlimit, ?_⟩
  intro label hash hget
  constructor
  · rintro ⟨bytes, hbytes, -⟩
    obtain ⟨i, hi, -⟩ := Option.map_eq_some_iff.mp hbytes
    refine hl.up_isSome ?_ (Option.isSome_of_eq_some hi) (List.mem_cons_self ..)
    -- the directories above a directory above the artifact are above the artifact
    intro e he f hf
    rcases List.mem_cons.mp he with rfl | he
    · exact List.mem_cons_of_mem _ hf
    · rcases List.mem_cons.mp he with rfl | he
      · exact List.mem_cons_of_mem _ (List.mem_cons_of_mem _ hf)
      · obtain rfl := List.mem_singleton.mp he
        cases hf
  · intro hdir
    exact hl.solid (hvouched not_false label hash hget) rfl hdir

/-- The evidence of a complete transaction. -/
theorem evidence_survives_iff_complete :
    ∃ (v' : Volume FileName Bytes) (content : Bytes) (r : JournalRecord),
      driveRun.2.volume.PowerLoss FileName.up v' ∧ v'.read .journal = some content ∧
      sampleStore.loadContent 3 content = .ok r.raw ∧
      ∀ label hash, r.pokemon.get? label = some (some hash) →
        ((∃ bytes, v'.read (.artifact ⟨r.transactionId, label, hash⟩) = some bytes ∧ HasHash hash bytes) ↔
          (v'.entry (.dir (.transaction r.transactionId))).isSome = true) := by
  obtain ⟨-, hjournal, hhome, -⟩ := driveRun_eval
  obtain ⟨v', hl, -, hkept⟩ := exists_powerLoss_kept driveRun.2.volume
  obtain ⟨i, hi⟩ := Option.isSome_iff_exists.mp hjournal
  have hread : v'.read .journal = some (v'.content i) := by
    rw [Volume.read, hkept hhome, hi, Option.map_some]
  obtain ⟨r, hload, hevidence⟩ := evidence_survives_iff (Nat.le_refl 3) rfl driveRun_lives hl hread
  exact ⟨v', _, r, hl, hread, hload, hevidence⟩

end Lives

/-! ## §3 — what is never synced. -/

/-- The directory of the journal is there, and those of the transactions may all be gone behind a power loss:
no call has settled one of them. -/
structure Floating (d : Drive) : Prop where
  temp : ∀ n, d.temp = some n → ∃ e k, n = .temp e k
  home : (d.volume.entry (.dir .home)).isSome = true
  transactions : ∀ txid, none ∈ d.volume.maybe (.dir (.transaction txid))

section Floating

variable {floatRepr : Float → PyStr} {limit : Nat} {d d' : Drive}

theorem Floating.makeDirs (h : Floating d) (dirs : List FileName) :
    Floating (d.withVolume (makeDirs d.volume dirs)) := by
  induction dirs generalizing d with
  | nil => exact h
  | cons e dirs ih =>
      exact ih (d := d.withVolume (d.volume.mkdir e []))
        ⟨h.temp, Volume.entry_mkdir_isSome [] h.home,
          fun txid => Volume.maybe_subset_mkdir [] (h.transactions txid)⟩

/-- An operation on other names than those of the directories. -/
theorem Floating.of_keeps (h : Floating d) (htemp : ∀ n, d'.temp = some n → ∃ e k, n = .temp e k)
    (hhome : Volume.Keeps (.dir .home) d.volume d'.volume)
    (hmaybe : ∀ txid, d.volume.maybe (.dir (.transaction txid)) ⊆ d'.volume.maybe (.dir (.transaction txid))) :
    Floating d' :=
  ⟨htemp, hhome.entry ▸ h.home, fun txid => hmaybe txid (h.transactions txid)⟩

/-- **No call settles the directory of a transaction**: the only directories that are synced are that of the
journal and those of the transactions, and it is a name in neither. -/
theorem Floating.step (h : Floating d) {op : Op} {r : Ret op} (hs : DriveStep floatRepr limit d op r d') :
    Floating d' := by
  cases op with
  | pathExists => exact hs.1 ▸ h
  | readText => exact hs.1 ▸ h
  | now => exact hs.2 ▸ h
  | uuid4 => exact hs.2 ▸ h
  | connect c =>
      obtain rfl : d' = d := hs
      exact h
  | waitForTradeMenu =>
      obtain rfl : d' = d := hs
      exact h
  | close c =>
      obtain rfl : d' = d := hs
      exact h
  | faultHook b r =>
      obtain rfl : d' = d := hs
      exact h
  | switchTrade offered =>
      obtain rfl : d' = d.ask .switch offered := hs
      exact ⟨h.temp, h.home, h.transactions⟩
  | gbaTrade offered =>
      obtain rfl : d' = d.ask .gba offered := hs
      exact ⟨h.temp, h.home, h.transactions⟩
  | replace t =>
      rcases hs with ⟨n, -, hn, -, rfl⟩ | ⟨-, rfl⟩
      · obtain ⟨e, k, rfl⟩ := h.temp n hn
        refine h.of_keeps (by rintro _ ⟨⟩) (Volume.keeps_rename (by simp) ?_) fun _ => Volume.maybe_subset_rename
        cases t <;> simp [Write.path]
      · exact h
  | file c t =>
      cases c with
      | mkdir =>
          obtain ⟨dirs, -, rfl, -⟩ := hs
          exact h.makeDirs dirs
      | createTemp =>
          rcases hs with ⟨k, -, -, rfl⟩ | ⟨-, rfl⟩
          · refine h.of_keeps ?_ (Volume.keeps_create [] (by simp)) fun _ => Volume.maybe_subset_create []
            rintro _ ⟨⟩
            exact ⟨_, _, rfl⟩
          · exact h
      | writeTemp =>
          rcases hs with ⟨n, content, -, rfl, -⟩ | ⟨-, rfl⟩
          · refine ⟨h.temp, ?_, fun txid => ?_⟩
            · rw [Drive.withVolume_volume, Volume.entry_write]
              exact h.home
            · rw [Drive.withVolume_volume, Volume.maybe_write]
              exact h.transactions txid
          · exact h
      | fsyncTemp =>
          rcases hs with ⟨n, -, rfl, -⟩ | ⟨-, rfl⟩
          · refine h.of_keeps h.temp Volume.keeps_sync fun txid => ?_
            rw [Drive.withVolume_volume, Volume.maybe_sync]
            exact fun _ ho => ho
          · exact h
      | unlinkTemp =>
          rcases hs with ⟨n, -, hn, rfl⟩ | ⟨-, rfl⟩
          · obtain ⟨e, k, rfl⟩ := h.temp n hn
            exact h.of_keeps h.temp (Volume.keeps_unlink (by simp)) fun _ => Volume.maybe_subset_unlink
          · exact h
      | openDir => exact hs.1 ▸ h
      | closeDir => exact hs.1 ▸ h
      | fsyncDir =>
          rcases hs with ⟨-, rfl⟩ | ⟨-, rfl⟩
          · refine h.of_keeps h.temp Volume.keeps_syncDir fun txid => Volume.maybe_subset_syncDir ?_
            cases t <;> simp [FileName.up, FileName.above, Write.parent]
          · exact h

theorem Lives.floating {journal : JournalStore} {v₀ : Volume FileName Bytes}
    (h₀ : Floating ⟨v₀, none, []⟩) (h : Lives floatRepr limit journal False v₀ d) : Floating d := by
  induction h with
  | start => exact h₀
  | session _ hr ih =>
      exact hr.inv (fun _ _ _ _ hs hi => hi.step hs) ⟨by rintro _ ⟨⟩, ih.home, ih.transactions⟩
  | powerLoss hlosses => exact hlosses.elim

/-- **The artifacts can vanish behind the journal.**  A machine begins with the directory of the journal in place,
without a journal, and with no directory of a transaction that is sure to come back.  Until the power fails for
the first time, at every moment of every session, also when `execute` has returned, there is a power loss that
leaves the journal as it is and takes every artifact: `_atomic_bytes` syncs the directory of the file, and
`save_artifact` has just made that directory. -/
theorem artifacts_can_vanish {journal : JournalStore} (hlimit : 3 ≤ limit) {v₀ : Volume FileName Bytes}
    (h₀ : v₀.maybe .journal = [none]) (hhome : (v₀.entry (.dir .home)).isSome = true)
    (hdirs : ∀ txid, none ∈ v₀.maybe (.dir (.transaction txid)))
    (h : Lives floatRepr limit journal False v₀ d) :
    ∃ v', d.volume.PowerLoss FileName.up v' ∧ v'.read .journal = d.volume.read .journal ∧
      ∀ p, v'.read (.artifact p) = none := by
  have hd : Floating d := h.floating ⟨by rintro _ ⟨⟩, hhome, hdirs⟩
  let pick : FileName → Option Nat := fun n =>
    match n with
    | .dir (.transaction _) => none
    | n => d.volume.entry n
  have hpick : ∀ n, pick n ∈ d.volume.maybe n := by
    intro n
    match n with
    | .dir (.transaction txid) => exact hd.transactions txid
    | .dir .home => exact d.volume.entry_mem _
    | .dir .artifacts => exact d.volume.entry_mem _
    | .journal => exact d.volume.entry_mem _
    | .artifact _ => exact d.volume.entry_mem _
    | .temp _ _ => exact d.volume.entry_mem _
  obtain ⟨v', hl, hentry⟩ := Volume.exists_powerLoss FileName.up d.volume hpick
  refine ⟨v', hl, ?_, ?_⟩
  · have hsame : v'.entry .journal = d.volume.entry .journal :=
      (hentry .journal).trans (if_pos (by simp [FileName.up, FileName.above, pick, hd.home]))
    unfold Volume.read
    rw [hsame]
    cases hi : d.volume.entry .journal with
    | none => rfl
    | some i =>
        have hsynced := ((h.dependable hlimit h₀).journal i (hi ▸ d.volume.entry_mem .journal)).1
        exact congrArg some (hl.content i hsynced)
  · intro p
    have hgone : v'.entry (.artifact p) = none :=
      (hentry (.artifact p)).trans (if_neg (by simp [FileName.up, FileName.above, pick]))
    rw [Volume.read, hgone, Option.map_none]

/-- The artifacts of a complete transaction. -/
theorem artifacts_can_vanish_complete :
    ∃ v', driveRun.2.volume.PowerLoss FileName.up v' ∧
      v'.read .journal = driveRun.2.volume.read .journal ∧ ∀ p, v'.read (.artifact p) = none :=
  artifacts_can_vanish (Nat.le_refl 3) rfl rfl (fun _ => List.mem_singleton_self _) driveRun_lives

end Floating

end TradeBroker
