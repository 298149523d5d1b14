/-
# TradeBroker.Journal.Reload — what a restart reads, and what it leaves.

A journal file outlives the process that wrote it.  `Reachable` are the files there can be, with the record
that a caller holds beside them: any calls of `create`, `transition` and `require_new_transaction`, each of
which may raise, may see any file-system call fail, or may be stopped in the middle.  Whatever happened, the
file is the document of ONE record that `create` and `transition` made (`Reachable.onFile`), and such a
document loads into that record, field by field.

`require_new_transaction` then always raises `RecoveryRequired`.  It leaves a terminal journal alone and closes
any other one with one more history entry (`requireNewTransaction_shelved_sat`); what it leaves is terminal,
so however often it runs again, also when it is stopped, nothing changes any more
(`restart_keeps_evidence`).

`Made` is what makes the file trustworthy: a record has it because `create` and accepted transitions are
the only way to get one, and it is preserved by the restart as well.  Nothing is assumed about who writes
the file, and a file that was edited by hand is not `Reachable`; such files are the subject of
`Journal.Content`.

The disk here replaces files at once.  `Journal.Bytes` adds the bytes of the file, and `Journal.Drive`
with the modules above it a file system that can lose power.
-/
import TradeBroker.Journal.History
import TradeBroker.Broker.Restart
import TradeBroker.Broker.Walk

namespace TradeBroker

open Lib

/-! ## §1 — the records there are. -/

/-- What `create` makes, and what `transition` makes of it: the records of the program, whatever updates its
callers chose. -/
inductive JournalRecord.Made : JournalRecord → Prop
  | created (txid : Uuid) (now : PyStr) (P : Pokemon100) : Made (JournalRecord.fresh txid.str now P)
  | advanced {record : JournalRecord} {s : JournalState} {u : Update} (now : PyStr) :
      Made record → record.check s u = .ok () → Made (record.advance s now u)

namespace JournalRecord

/-- The identity and the schema are those of `create`, and the sequence counts up from 0, so the four checks
of the loader pass. -/
theorem Made.loadable {record : JournalRecord} (h : record.Made) : record.raw.Loadable := by
  have hfields : uuidParses record.transactionId = true ∧ record.schemaVersion = 1 ∧ 0 ≤ record.sequence := by
    induction h with
    | created txid now P => exact ⟨Uuid.uuidParses_str txid, rfl, Int.le_refl 0⟩
    | @advanced record s u now _ _ ih =>
        obtain ⟨hid, hschema, hseq⟩ := ih
        exact ⟨hid, hschema, Int.le_trans hseq (by simp)⟩
  obtain ⟨hid, hschema, hseq⟩ := hfields
  refine ⟨hid, ?_, record.sequence, hseq, rfl⟩
  show Json.int record.schemaVersion = .int 1
  rw [hschema]

/-- **The round trip** of a record, field by field, through the document that `_write` serialises. -/
theorem Made.load {record : JournalRecord} (h : record.Made) (journal : JournalStore) :
    JournalText.load journal (.json record.document) = .ok record.raw :=
  RawRecord.fromJsonDict_asJsonDict h.loadable

theorem rawPokemon_injective : Function.Injective rawPokemon := by
  intro d d' h
  have hentries : d.entries = d'.entries := by
    refine List.map_injective_iff.mpr ?_ (Json.obj.inj h)
    rintro ⟨k, _ | hash⟩ ⟨k', _ | hash'⟩ heq <;> simp_all
  cases d
  cases d'
  simp_all

theorem rawLocations_injective : Function.Injective rawLocations := by
  intro d d' h
  have hvalue : Function.Injective fun kv : PyStr × PyStr => (kv.1, Json.str kv.2) := by
    rintro ⟨k, place⟩ ⟨k', place'⟩ heq
    simp_all
  have hentries := hvalue.list_map (Json.obj.inj h)
  cases d
  cases d'
  simp_all

/-- The file determines the record: two records that read the same are the same. -/
theorem raw_injective : Function.Injective raw := by
  intro r r' h
  have hvalue : Function.Injective fun e : HistoryEntry =>
      (⟨.int e.sequence, .str e.state.value, .str e.at_, .str e.note⟩ : RawEntry) := by
    rintro ⟨n, s, a, t⟩ ⟨n', s', a', t'⟩ heq
    simp only [RawEntry.mk.injEq, Json.int.injEq, Json.str.injEq] at heq
    obtain ⟨rfl, hs, rfl, rfl⟩ := heq
    rw [JournalState.value_injective hs]
  cases r
  cases r'
  simp only [raw, RawRecord.mk.injEq, Json.int.injEq, Json.str.injEq] at h
  obtain ⟨rfl, rfl, rfl, rfl, rfl, rfl, hpokemon, hlocations, hslot, herror, hhistory⟩ := h
  obtain rfl := rawPokemon_injective hpokemon
  obtain rfl := rawLocations_injective hlocations
  obtain rfl := hvalue.list_map hhistory
  congr 1
  · split at hslot <;> split at hslot <;> simp_all
  · split at herror <;> split at herror <;> simp_all

/-- What `require_new_transaction` asks `transition` for. -/
def restartUpdate (record : JournalRecord) : Update where
  note := "incomplete transaction detected on process start"
  error := some ("restart detected while journal was " ++ record.state.value)

/-- The record as `require_new_transaction` closes it. -/
def restarted (record : JournalRecord) (now : PyStr) : JournalRecord :=
  record.advance .recoveryRequired now record.restartUpdate

/-- Closing the loaded record is closing the record that was written, although the one is a `RawRecord` and
the other is not. -/
theorem raw_restarted (record : JournalRecord) (now : PyStr) :
    (record.restarted now).raw = record.raw.restarted now := by
  have hhistory : (record.restarted now).raw.history = (record.raw.restarted now).history := by
    show (record.history ++ [_]).map _ = _
    rw [List.map_append]
    rfl
  let closed (history : List RawEntry) : RawRecord :=
    { record.raw with
      sequence := .int (record.sequence + 1)
      state := .recoveryRequired
      updatedAt := .str now
      lastError := .str ("restart detected while journal was " ++ record.state.value)
      history := history }
  exact congrArg closed hhistory

/-- An open record may be closed. -/
theorem check_restart {record : JournalRecord} (h : record.state.terminal = false) :
    record.check .recoveryRequired record.restartUpdate = .ok () :=
  check_eq_ok (Or.inl rfl) h rfl rfl

/-- The update of a restart holds texts of the program only. -/
theorem restartUpdate_encodable (record : JournalRecord) : record.restartUpdate.Encodable where
  note := encodable_lit _
  pokemon := by
    intro d hd
    cases hd
  locations := by
    intro d hd
    cases hd
  error := by
    intro e he
    obtain rfl := Option.some.inj he
    rw [encodable_append, encodable_lit, JournalState.encodable_value]
    rfl

theorem encodable_restarted {record : JournalRecord} (h : record.document.encodable = true) {now : PyStr}
    (hnow : encodable now = true) : (record.restarted now).document.encodable = true :=
  (encodable_advance hnow).trans
    (encodes_of_encodable (record.encodable_document_iff.mp h) record.restartUpdate_encodable)

end JournalRecord

/-! ## §2 — the files there are. -/

/-- The journal file, if there is one, is the document of a record that was made, and its texts encode. -/
def Shelved (d : Disk) : Prop :=
  ∀ text, d.journal = some text →
    ∃ record : JournalRecord, record.Made ∧ record.document.encodable = true ∧ text = .json record.document

theorem shelved_install {record : JournalRecord} (h : record.Made) (henc : record.document.encodable = true)
    (d : Disk) : Shelved (d.install (.journal (.json record.document))) := by
  intro text htext
  exact ⟨record, h, henc, (Option.some.inj htext).symm⟩

namespace JournalStore

variable (self : JournalStore) {w : World}

/-- A record that was made is written whole, or not at all, wherever the write is stopped. -/
theorem write_shelved_sat (hw : Shelved w.disk) {record : JournalRecord} (h : record.Made) :
    Act.Sat Step (fun w => Shelved w.disk) (self.write record.raw) w (fun _ _ => True) (fun _ _ => True) := by
  by_cases henc : record.document.encodable = true
  · exact (self.write_sat (fun _ => hw) fun _ => shelved_install h henc w.disk).mono (fun _ hv => hv)
      (fun _ _ _ _ => trivial) fun _ _ _ _ => trivial
  · unfold write
    rw [if_neg (show ¬ (Json.obj record.raw.asJsonDict).encodable = true from henc)]
    exact Act.Sat.throw hw trivial

theorem load_shelved_sat (hw : Shelved w.disk) :
    Act.Sat Step (fun w => Shelved w.disk) self.load w
      (fun raw v => v = w ∧ ∃ text, w.disk.journal = some text ∧ text.load self = .ok raw)
      (fun _ _ => True) :=
  (self.load_sat hw hw).mono (fun _ hv => hv) (fun _ _ _ hv => hv) fun _ _ _ _ => trivial

theorem create_shelved_sat (hw : Shelved w.disk) (P : Pokemon100) :
    Act.Sat Step (fun w => Shelved w.disk) (self.create P) w (fun record _ => record.Made)
      (fun _ _ => True) := by
  unfold create
  refine Act.Sat.bind ((pathExists_sat hw hw).mono (fun _ hv => hv) (fun _ _ _ hv => hv)
    fun _ _ _ _ => trivial) ?_
  rintro present v _ ⟨-, rfl⟩
  cases present with
  | true =>
      refine Act.Sat.bind (self.load_shelved_sat hw) ?_
      intro old v hv _
      exact Act.Sat.throw hv trivial
  | false =>
      refine Act.Sat.bind (clock_sat hw) ?_
      rintro now v _ ⟨-, rfl⟩
      refine Act.Sat.bind (uuid4_sat hw) ?_
      rintro txid v _ rfl
      have hmade := JournalRecord.Made.created txid now P
      refine Act.Sat.bind ((self.saveArtifact_sat (by decide) (fun _ => hw) fun _ => hw).mono
        (fun _ hv => hv) (fun _ _ _ _ => trivial) fun _ _ _ _ => trivial) (R := fun _ _ => True) ?_
      intro _ v hv _
      refine Act.Sat.bind (self.write_shelved_sat hv hmade) ?_
      intro _ v hv _
      exact Act.Sat.pure hv hmade

theorem transition_shelved_sat (hw : Shelved w.disk) {record : JournalRecord} (h : record.Made)
    (s : JournalState) (u : Update) :
    Prog.Sat Step (fun w => Shelved w.disk) (fun ended _ => ended.2.Made) (self.transition record s u) w := by
  unfold transition
  cases hc : record.check s u with
  | error e => exact ⟨hw, h⟩
  | ok a =>
      have hmade : ∀ now, (record.advance s now u).Made := fun now => h.advanced now hc
      refine ⟨hw, ?_⟩
      rintro now v ⟨-, rfl⟩
      refine Prog.Sat.bind (self.write_shelved_sat hw (hmade now)) ?_
      intro written v hv _
      exact ⟨hv, hmade now⟩

/-- What `require_new_transaction` does to the world `w` in which the file is that of `record`. -/
def Reshelved (record : JournalRecord) (w v : World) : Prop :=
  (record.state.terminal = true ∧ v = w) ∨
    (record.state.terminal = false ∧ ∃ now, v = w.install (.journal (.json (record.restarted now).document)))

/-- **The restart guard on a file of the program**: when no file-system call fails it raises
`RecoveryRequired`, after it has closed an open journal. -/
theorem requireNewTransaction_shelved_sat {record : JournalRecord} (h : record.Made)
    (henc : record.document.encodable = true) (hj : w.disk.journal = some (.json record.document)) :
    Act.Sat Step (fun w => Shelved w.disk) self.requireNewTransaction w (fun _ _ => False)
      (fun e v => .ioError ∈ v.trace ∨
        ((∃ message, e = ⟨.recoveryRequired, message⟩) ∧ Reshelved record w v)) := by
  have hw : Shelved w.disk := by
    intro text htext
    exact ⟨record, h, henc, Option.some.inj (htext.symm.trans hj)⟩
  have hfault : .ioError ∈ (w.faults 1).trace := ioError_mem_faults w (by omega)
  unfold requireNewTransaction
  refine Act.Sat.bind ((pathExists_sat hw hw).mono (fun _ hv => hv) (fun _ _ _ hv => hv) ?_) ?_
  · rintro e v _ ⟨-, rfl⟩
    exact Or.inl hfault
  rintro present v _ ⟨rfl, rfl⟩
  rw [hj]
  refine Act.Sat.bind ((self.load_sat hw hw).mono (fun _ hv => hv) (fun _ _ _ hv => hv) ?_) ?_
  · -- the file loads, so only the read can have raised
    rintro e v _ (⟨-, rfl⟩ | ⟨rfl, text, htext, hload⟩)
    · exact Or.inl hfault
    · obtain rfl := Option.some.inj (htext.symm.trans hj)
      rw [h.load] at hload
      cases hload
  rintro raw v _ ⟨rfl, text, htext, hload⟩
  obtain rfl := Option.some.inj (htext.symm.trans hj)
  obtain rfl := Except.ok.inj ((h.load self).symm.trans hload)
  have hmark : Act.Sat Step (fun w => Shelved w.disk) (self.markRestart record.raw) v
      (fun _ v' => Reshelved record v v') (fun _ v' => .ioError ∈ v'.trace) := by
    unfold markRestart
    by_cases hterm : record.state.terminal = true
    · rw [if_pos (show record.raw.state.terminal = true from hterm)]
      exact Act.Sat.pure hw (Or.inl ⟨hterm, rfl⟩)
    · have hopen : record.state.terminal = false := by simpa using hterm
      rw [if_neg (show ¬ record.raw.state.terminal = true from hterm)]
      refine Act.Sat.bind (clock_sat hw) ?_
      rintro now v _ ⟨hnow, rfl⟩
      have hmade : (record.restarted now).Made := h.advanced now (JournalRecord.check_restart hopen)
      have hfit := JournalRecord.encodable_restarted henc hnow
      show Act.Sat Step _ (self.write (record.raw.restarted now)) _ _ _
      rw [← record.raw_restarted now]
      refine (self.write_sat (fun _ => hw) fun _ => shelved_install hmade hfit v.disk).mono
        (fun _ hv => hv) ?_ ?_
      · rintro _ _ _ ⟨-, rfl⟩
        exact Or.inr ⟨hopen, now, rfl⟩
      · rintro e v' _ (⟨-, hunfit, -⟩ | ⟨-, n, hn, rfl | rfl⟩)
        · exact absurd (hfit.symm.trans hunfit) (by simp)
        · exact ioError_mem_faults _ hn
        · exact ioError_mem_faults _ hn
  refine Act.Sat.bind (hmark.mono (fun _ hv => hv) (fun _ _ _ hv => hv) fun _ _ _ hv => Or.inl hv) ?_
  intro _ v' hv' hshelved
  refine Act.Sat.bind ((self.load_sat hv' hv').mono (fun _ hv => hv) (fun _ _ _ hv => hv) ?_) ?_
  · -- what was written loads again
    rintro e u _ (⟨-, rfl⟩ | ⟨rfl, text, htext, hload⟩)
    · exact Or.inl (ioError_mem_faults _ (by omega))
    · obtain ⟨again, hagain, -, rfl⟩ := hv' text htext
      rw [hagain.load] at hload
      cases hload
  rintro again u hu ⟨rfl, -⟩
  exact Act.Sat.throw hu (Or.inr ⟨⟨_, rfl⟩, hshelved⟩)

/-- The guard leaves a file of the program behind, wherever it is stopped. -/
theorem requireNewTransaction_keeps_sat (hw : Shelved w.disk) :
    Act.Sat Step (fun w => Shelved w.disk) self.requireNewTransaction w (fun _ _ => True)
      (fun _ _ => True) := by
  cases hj : w.disk.journal with
  | none =>
      exact (TradeCoordinator.requireNewTransaction_sat self hj fun _ => hw).mono (fun _ hv => hv)
        (fun _ _ _ _ => trivial) fun _ _ _ _ => trivial
  | some text =>
      obtain ⟨record, hmade, henc, rfl⟩ := hw text hj
      exact (self.requireNewTransaction_shelved_sat hmade henc hj).mono (fun _ hv => hv)
        (fun _ _ _ hno => hno.elim) fun _ _ _ _ => trivial

end JournalStore

/-! ## §3 — any calls, stopped anywhere. -/

/-- The record that a caller holds, if there is one, and the disk.  A process begins without a record; a call
that is stopped, or that raises out of `create`, leaves none. -/
inductive Reachable (journal : JournalStore) : Option JournalRecord → Disk → Prop
  | empty {d : Disk} : d.journal = none → Reachable journal none d
  | created {held : Option JournalRecord} {d : Disk} {P : Pokemon100} {record : JournalRecord} {v : World} :
      Reachable journal held d → Prog.Finish Step (journal.create P).run ⟨d, []⟩ (.ok record) v →
      Reachable journal (some record) v.disk
  | createStopped {held : Option JournalRecord} {d : Disk} {P : Pokemon100}
      {q : Prog Op Ret (Except Exc JournalRecord)} {v : World} :
      Reachable journal held d → Prog.Reach Step (journal.create P).run ⟨d, []⟩ q v →
      Reachable journal none v.disk
  | transitioned {record record' : JournalRecord} {d : Disk} {s : JournalState} {u : Update}
      {answer : Except Exc Unit} {v : World} :
      Reachable journal (some record) d →
      Prog.Finish Step (journal.transition record s u) ⟨d, []⟩ (answer, record') v →
      Reachable journal (some record') v.disk
  | transitionStopped {record : JournalRecord} {d : Disk} {s : JournalState} {u : Update}
      {q : Prog Op Ret (Except Exc Unit × JournalRecord)} {v : World} :
      Reachable journal (some record) d →
      Prog.Reach Step (journal.transition record s u) ⟨d, []⟩ q v → Reachable journal none v.disk
  | guarded {held : Option JournalRecord} {d : Disk} {q : Prog Op Ret (Except Exc Unit)} {v : World} :
      Reachable journal held d → Prog.Reach Step journal.requireNewTransaction.run ⟨d, []⟩ q v →
      Reachable journal none v.disk

/-- **What is on file** was made, and so was the record that the caller holds. -/
theorem Reachable.onFile {journal : JournalStore} {held : Option JournalRecord} {d : Disk}
    (h : Reachable journal held d) : Shelved d ∧ ∀ record, held = some record → record.Made := by
  have hnone : ∀ record : JournalRecord, none = some record → record.Made := by
    intro record hrecord
    cases hrecord
  induction h with
  | empty hd =>
      refine ⟨?_, hnone⟩
      intro text htext
      cases hd.symm.trans htext
  | @created held d P record v _ hf ih =>
      obtain ⟨hshelved, hmade⟩ := Act.Sat.finish (journal.create_shelved_sat (w := ⟨d, []⟩) ih.1 P) hf
      refine ⟨hshelved, ?_⟩
      rintro _ ⟨⟩
      exact hmade
  | @createStopped held d P q v _ hr ih =>
      exact ⟨((journal.create_shelved_sat (w := ⟨d, []⟩) ih.1 P).reach hr).inv, hnone⟩
  | @transitioned record record' d s u answer v _ hf ih =>
      have hsat := journal.transition_shelved_sat (w := ⟨d, []⟩) ih.1 (ih.2 record rfl) s u
      obtain ⟨hshelved, hmade⟩ := hsat.finish hf
      refine ⟨hshelved, ?_⟩
      rintro _ ⟨⟩
      exact hmade
  | @transitionStopped record d s u q v _ hr ih =>
      have hsat := journal.transition_shelved_sat (w := ⟨d, []⟩) ih.1 (ih.2 record rfl) s u
      exact ⟨(hsat.reach hr).inv, hnone⟩
  | @guarded held d q v _ hr ih =>
      exact ⟨((journal.requireNewTransaction_keeps_sat (w := ⟨d, []⟩) ih.1).reach hr).inv, hnone⟩

/-! ## §4 — the restart. -/

/-- `require_new_transaction` took the disk from `d` to `d'`: it ran to its end, or was stopped, and any of
its file-system calls may have failed. -/
def Restarts (journal : JournalStore) (d d' : Disk) : Prop :=
  ∃ q v, Prog.Reach Step journal.requireNewTransaction.run ⟨d, []⟩ q v ∧ v.disk = d'

/-- `r'` is `r`, closed for recovery: one more entry, and every piece of evidence as it was. -/
structure ClosedFrom (r r' : JournalRecord) : Prop where
  state : r'.state = .recoveryRequired
  sequence : r'.sequence = r.sequence + 1
  history : ∃ entry, r'.history = r.history ++ [entry]
  transactionId : r'.transactionId = r.transactionId
  createdAt : r'.createdAt = r.createdAt
  hashes : r'.pokemon = r.pokemon
  locations : r'.locations = r.locations
  selectedGbaSlot : r'.selectedGbaSlot = r.selectedGbaSlot
  schemaVersion : r'.schemaVersion = r.schemaVersion

theorem closedFrom_restarted (r : JournalRecord) (now : PyStr) : ClosedFrom r (r.restarted now) :=
  ⟨rfl, rfl, ⟨_, rfl⟩, rfl, rfl, rfl, rfl, rfl, rfl⟩

/-- The disk `d` on which the file of `r` has been replaced by that of `r` closed for recovery. -/
def ClosedOn (r : JournalRecord) (d d' : Disk) : Prop :=
  ∃ r', r'.Made ∧ ClosedFrom r r' ∧ d' = d.install (.journal (.json r'.document))

section Restarts

variable {journal : JournalStore} {r : JournalRecord} {d d' : Disk}

/-- One restart, whatever goes wrong in it, leaves the file alone or closes it; there is nothing in between. -/
theorem Restarts.cases (h : Restarts journal d d') (hmade : r.Made)
    (hd : d.journal = some (.json r.document)) :
    d' = d ∨ (r.state.terminal = false ∧ ClosedOn r d d') := by
  obtain ⟨q, v, hr, rfl⟩ := h
  have hkept := ((journal.requireNewTransaction_blocked_sat hd).reach hr).inv
  have heq : ∀ {d₂ : Disk}, v.disk.journal = d₂.journal → v.disk.artifacts = d₂.artifacts → v.disk = d₂ := by
    rintro ⟨j, a⟩ rfl rfl
    rfl
  rcases hkept.journal with hj | ⟨raw, now, hload, hopen, hj⟩
  · exact Or.inl (heq (hj.trans hd.symm) hkept.artifacts)
  · obtain rfl := Except.ok.inj ((hmade.load journal).symm.trans hload)
    have hclosed := hmade.advanced now (JournalRecord.check_restart hopen)
    refine Or.inr ⟨hopen, _, hclosed, closedFrom_restarted r now, heq ?_ hkept.artifacts⟩
    rw [hj, ← r.raw_restarted now]
    rfl

/-- A terminal journal stays as it is, however often the guard runs over it. -/
theorem restarts_of_terminal (h : Relation.ReflTransGen (Restarts journal) d d') (hmade : r.Made)
    (hd : d.journal = some (.json r.document)) (hterm : r.state.terminal = true) : d' = d := by
  induction h with
  | refl => rfl
  | tail _ hstep ih =>
      subst ih
      rcases hstep.cases hmade hd with heq | ⟨hopen, -⟩
      · exact heq
      · cases hterm.symm.trans hopen

/-- Any number of restarts leaves the file alone or closes it, once.  The induction is on the restarts, and a
closed file is terminal for the next one. -/
theorem restarts_cases (h : Relation.ReflTransGen (Restarts journal) d d') (hmade : r.Made)
    (hd : d.journal = some (.json r.document)) :
    d' = d ∨ (r.state.terminal = false ∧ ClosedOn r d d') := by
  induction h with
  | refl => exact Or.inl rfl
  | tail _ hstep ih =>
      rcases ih with rfl | ⟨hopen, r', hmade', hclosed, rfl⟩
      · exact hstep.cases hmade hd
      · -- closed already: the next one changes nothing
        have hterm : r'.state.terminal = true := by
          rw [hclosed.state]
          rfl
        rw [restarts_of_terminal (.single hstep) hmade' rfl hterm]
        exact Or.inr ⟨hopen, r', hmade', hclosed, rfl⟩

end Restarts

/-- **A restart keeps the evidence.**  Whatever file the calls have left, it is the document of one record,
and loads into that record.  Any number of restarts, however they go, leaves that file or the one of the
record closed for recovery.  One in which no file-system call fails raises `RecoveryRequired`; it writes
nothing when the record is terminal and closes the record otherwise, and no later one changes anything. -/
theorem restart_keeps_evidence {journal : JournalStore} {held : Option JournalRecord} {d : Disk}
    (h : Reachable journal held d) {text : JournalText} (hd : d.journal = some text) :
    ∃ r : JournalRecord, text = .json r.document ∧ text.load journal = .ok r.raw ∧
      (∀ d', Relation.ReflTransGen (Restarts journal) d d' →
        d' = d ∨ (r.state.terminal = false ∧ ClosedOn r d d')) ∧
      ∀ answer v, Prog.Finish Step journal.requireNewTransaction.run ⟨d, []⟩ answer v → .ioError ∉ v.trace →
        (∃ message, answer = .error ⟨.recoveryRequired, message⟩) ∧
        (r.state.terminal = true → v.disk = d ∧ ∀ target, .installed target ∉ v.trace) ∧
        (r.state.terminal = false → ClosedOn r d v.disk) ∧
        ∀ d', Relation.ReflTransGen (Restarts journal) v.disk d' → d' = v.disk := by
  obtain ⟨hshelved, -⟩ := h.onFile
  obtain ⟨r, hmade, henc, rfl⟩ := hshelved text hd
  refine ⟨r, rfl, hmade.load journal, fun d' hd' => restarts_cases hd' hmade hd, ?_⟩
  intro answer v hf hio
  have hsat := journal.requireNewTransaction_shelved_sat (w := ⟨d, []⟩) hmade henc hd
  have hends := (Act.Sat.finish hsat hf).2
  cases answer with
  | ok u => exact hends.elim
  | error e =>
      obtain ⟨⟨message, rfl⟩, hdone⟩ := hends.resolve_left hio
      refine ⟨⟨message, rfl⟩, ?_⟩
      rcases hdone with ⟨hterm, rfl⟩ | ⟨hopen, now, rfl⟩
      · refine ⟨fun _ => ⟨rfl, by simp⟩, fun hno => absurd (hterm.symm.trans hno) (by decide), ?_⟩
        intro d' hd'
        exact restarts_of_terminal hd' hmade hd hterm
      · have hclosed := hmade.advanced now (JournalRecord.check_restart hopen)
        refine ⟨fun hno => absurd (hopen.symm.trans hno) (by decide), fun _ => ?_, ?_⟩
        · exact ⟨_, hclosed, closedFrom_restarted r now, rfl⟩
        · intro d' hd'
          exact restarts_of_terminal hd' hclosed rfl rfl

/-! ## §5 — the restart of a session that was killed in its GBA stage. -/

/-- What `execute` records up to the GBA trade: its first four transitions. -/
def stagePlan : List (JournalState × Update) :=
  [(.switchStage1Started, { note := "starting Switch trade B for placeholder P" }),
   (.switchBCaptured,
    { note := "Switch commit confirmed; B captured and P transferred"
      pokemon := some (.ofList [("B", some (sampleMon 2).sha256)])
      locations := some (.ofList [("B", "broker"), ("P", "switch")]) }),
   (.placeholderOnSwitch, { note := "durably recorded placeholder on Switch" }),
   (.gbaStageStarted, { note := "starting physical GBA trade A for B" })]

/-- What it records behind the GBA trade, in which the player selected the third slot. -/
def captureA : JournalState × Update :=
  (.gbaACaptured,
    { note := "GBA commit confirmed; selected A captured and B transferred"
      pokemon := some (.ofList [("A", some (sampleMon 1).sha256)])
      locations := some (.ofList [("A", "broker"), ("B", "gba")])
      selectedGbaSlot := some 2 })

/-- One call of `transition` in the scripted world. -/
def advancedRun (p : JournalRecord × Disk) (call : JournalState × Update) :
    (Except Exc Unit × JournalRecord) × World :=
  Prog.run (Script.exchange (sampleMon 2) (sampleMon 1) (sampleMon 0)).answer
    (sampleStore.transition p.1 call.1 call.2) ⟨p.2, []⟩

/-- The record and the disk behind the call. -/
def advanced (p : JournalRecord × Disk) (call : JournalState × Update) : JournalRecord × Disk :=
  ((advancedRun p call).1.2, (advancedRun p call).2.disk)

/-- The record and the disk of the session before and behind the last of these calls. -/
def staged : JournalRecord × Disk := stagePlan.foldl advanced (sampleRecord, createdRun.2.disk)

def captured : JournalRecord × Disk := advanced staged captureA

theorem advancedRun_finish (p : JournalRecord × Disk) (call : JournalState × Update) :
    Prog.Finish Step (sampleStore.transition p.1 call.1 call.2) ⟨p.2, []⟩ (advancedRun p call).1
      (advancedRun p call).2 :=
  Prog.run_finish (Script.answer_step _) _ _

/-- A call leads from a file there can be to a file there can be. -/
theorem reachable_advanced (p : JournalRecord × Disk) (call : JournalState × Update)
    (h : Reachable sampleStore (some p.1) p.2) :
    Reachable sampleStore (some (advanced p call).1) (advanced p call).2 :=
  h.transitioned (advancedRun_finish p call)

/-- So do any number of calls. -/
theorem reachable_foldl_advanced (plan : List (JournalState × Update)) {record : JournalRecord} {d : Disk}
    (h : Reachable sampleStore (some record) d) :
    Reachable sampleStore (some (plan.foldl advanced (record, d)).1) (plan.foldl advanced (record, d)).2 := by
  induction plan generalizing record d with
  | nil => exact h
  | cons call plan ih => exact ih (reachable_advanced (record, d) call h)

/-- A call that returns leaves the file of the record it leaves. -/
theorem advanced_onFile {p : JournalRecord × Disk} {call : JournalState × Update}
    (hcheck : p.1.check call.1 call.2 = .ok ()) (hok : (advancedRun p call).1.1 = .ok ()) :
    (advanced p call).2.journal = some (.json (advanced p call).1.document) := by
  obtain ⟨now, -, hrecord, ⟨-, -, -, hfile⟩ | ⟨⟨e, hraised⟩, -⟩⟩ :=
    transition_finish hcheck (advancedRun_finish p call)
  · show (advancedRun p call).2.disk.journal = some (.json (advancedRun p call).1.2.document)
    rw [hrecord]
    exact hfile
  · cases hok.symm.trans hraised

theorem captured_reachable : Reachable sampleStore (some captured.1) captured.2 := by
  have hcreate : Prog.Finish Step (sampleStore.create (sampleMon 0)).run ⟨emptyDisk, []⟩ createdRun.1
      createdRun.2 := Prog.run_finish (Script.answer_step _) _ _
  rw [createdRun_eval.1] at hcreate
  have hcreated : Reachable sampleStore (some sampleRecord) createdRun.2.disk := .created (.empty rfl) hcreate
  unfold captured
  refine reachable_advanced staged captureA ?_
  unfold staged
  exact reachable_foldl_advanced stagePlan hcreated

/-- The restart behind it, in the scripted world. -/
def restartRun : Except Exc Unit × World :=
  Prog.run (Script.exchange (sampleMon 2) (sampleMon 1) (sampleMon 0)).answer
    sampleStore.requireNewTransaction.run ⟨captured.2, []⟩

theorem captured_eval :
    staged.1.check captureA.1 captureA.2 = .ok () ∧ (advancedRun staged captureA).1.1 = .ok () ∧
      captured.1.state = .gbaACaptured ∧ captured.1.history.length = 6 ∧
      captured.1.pokemon.get? "A" = some (some (sampleMon 1).sha256) ∧
      captured.1.pokemon.get? "B" = some (some (sampleMon 2).sha256) ∧
      captured.1.selectedGbaSlot = some 2 ∧ restartRun.2.trace.all Event.tame = true := by
  decide +kernel

theorem captured_onFile : captured.2.journal = some (.json captured.1.document) :=
  advanced_onFile captured_eval.1 captured_eval.2.1

/-- **A restart behind the GBA trade**: the journal with both hashes and the slot in it is closed, and they
are all still there. -/
theorem restart_keeps_evidence_captured :
    ∃ r' : JournalRecord, captured.2.journal = some (.json captured.1.document) ∧
      captured.1.state = .gbaACaptured ∧ captured.1.history.length = 6 ∧
      captured.1.pokemon.get? "A" = some (some (sampleMon 1).sha256) ∧
      captured.1.pokemon.get? "B" = some (some (sampleMon 2).sha256) ∧
      captured.1.selectedGbaSlot = some 2 ∧ ClosedFrom captured.1 r' ∧
      restartRun.2.disk.journal = some (.json r'.document) := by
  obtain ⟨-, -, hstate, hlength, hA, hB, hslot, htame⟩ := captured_eval
  have hrestart : Prog.Finish Step sampleStore.requireNewTransaction.run ⟨captured.2, []⟩
      restartRun.1 restartRun.2 := Prog.run_finish (Script.answer_step _) _ _
  obtain ⟨r, hfile, hload, -, hall⟩ := restart_keeps_evidence captured_reachable captured_onFile
  -- Both records load from this one file.
  have hmade := captured_reachable.onFile.2 _ rfl
  obtain rfl : captured.1 = r :=
    JournalRecord.raw_injective (Except.ok.inj ((hmade.load sampleStore).symm.trans hload))
  obtain ⟨-, -, hopen, -⟩ := hall _ _ hrestart (tame_of_all htame).1
  obtain ⟨r', -, hclosed, hdisk⟩ := hopen (by rw [hstate]; rfl)
  refine ⟨r', captured_onFile, hstate, hlength, hA, hB, hslot, hclosed, ?_⟩
  rw [hdisk]
  rfl

end TradeBroker
