/-
# TradeBroker.Broker.Refinement — a drive behaves like a disk whose writes are atomic.

Everything about `execute` is proved against `Effects.Step`, where a file is replaced in one step and reads back as
the document that was handed over.  On a `Drive` it takes a temporary file, a rename and bytes to do that.  Here the
two are put together: as long as the power does not fail, what a session does on a drive it could have done on the
disk that the drive shows, call by call, and the drive goes on showing it.

* `Mirrors` is what a volume shows: bytes of a record where the disk has its document, the artifacts as they are.
* `Mimics.step` follows one call.  The two worlds answer it differently only in what a text is read for.
* `session_refines`: one session, whatever the machine has been through before it.
* `lives_refine`: all sessions between two power losses are a history of the disk.

The instance of `Lib.Refinement` needs two things.  The program must be entitled to what it asks for,
which is `execute_entitled` of `Broker.Staging`; and it must not see the one difference between the
worlds, a text on the drive being bytes whose members are sorted, which is `execute_blind`.

What was proved on the atomic disk is then true of the drive.  `evidence_on_drive` is one such result
carried down: the evidence of an operator, in bytes.
-/
import TradeBroker.Broker.Staging
import TradeBroker.Broker.Outage
import TradeBroker.Broker.Evidence

namespace TradeBroker

open Lib

-- Programs are compared by running them: keep the bytes of a record out of that.
attribute [local irreducible] Pokemon100.heldItem

/-! ## §1 — what a volume shows. -/

/-- The file of a record of the program, and the record's document: the two sides of what is shown. -/
def FileOf (floatRepr : Float → PyStr) (content : Bytes) (text : JournalText) : Prop :=
  ∃ r : JournalRecord, r.Proper ∧ content = r.journalBytes floatRepr ∧ text = .json r.document

/-- The volume shows this disk to those who look: a journal or none, and under each artifact name the same
bytes or none. -/
structure Mirrors (floatRepr : Float → PyStr) (v : Volume FileName Bytes) (disk : Disk) : Prop where
  journal : Option.Rel (FileOf floatRepr) (v.read .journal) disk.journal
  artifacts : ∀ p, v.read (.artifact p) = disk.artifacts p

/-- Both worlds tell of the same trade, asked for behind the same journal: the console, the record that was
offered, and what was durable. -/
structure SameTrade (floatRepr : Float → PyStr) (a : Asked) (t : Trade) : Prop where
  console : a.console = t.console
  offered : a.offered = t.offered
  durable : Option.Rel (FileOf floatRepr) (a.volume.read .journal) t.durable

/-- The temporary file is as the process knows it. -/
def Stage.Holds (floatRepr : Float → PyStr) (d : Drive) : Stage → Prop
  | .closed => True
  | .opened => ∃ n, JournalStore.Open d.volume d.asked n d
  | .filled t => ∃ n, JournalStore.Open d.volume d.asked n d ∧ d.volume.read n = t.payload floatRepr

/-- The drive behaves like the world, with the trades in `past` made in sessions before; the world knows only
of this session. -/
structure Mimics (floatRepr : Float → PyStr) (past : List Asked) (g : Stage) (d : Drive) (w : World) : Prop where
  mirrors : Mirrors floatRepr d.volume w.disk
  trades : ∃ new, d.asked = past ++ new ∧ List.Forall₂ (SameTrade floatRepr) new (trades w.trace)
  stage : g.Holds floatRepr d

section Keeping

variable {floatRepr : Float → PyStr} {v v' : Volume FileName Bytes} {disk : Disk} {d d' : Drive} {w w' : World}
  {g g' : Stage} {t : Write} {n : FileName} {past : List Asked}

/-- The journal that is read is the file of the record whose document is on the disk. -/
theorem Mirrors.read_journal (h : Mirrors floatRepr v disk) {content : Bytes} (hread : v.read .journal = some content) :
    ∃ r : JournalRecord, r.Proper ∧ content = r.journalBytes floatRepr ∧ disk.journal = some (.json r.document) := by
  have hjournal := h.journal
  rw [hread] at hjournal
  revert hjournal
  generalize disk.journal = text
  rintro ⟨r, hr, rfl, rfl⟩
  exact ⟨r, hr, rfl, rfl⟩

theorem Mirrors.calm (h : Mirrors floatRepr v disk) (hc : Calm v v') : Mirrors floatRepr v' disk where
  journal := (hc .journal rfl).read ▸ h.journal
  artifacts := fun p => (hc (.artifact p) rfl).read.trans (h.artifacts p)

/-- **What is moved into place is what the disk installs**, when the temporary file holds the payload. -/
theorem Mirrors.install (h : Mirrors floatRepr v disk) (ht : t.Fits) (hn : n.lasting = false)
    (hread : v.read n = t.payload floatRepr) : Mirrors floatRepr (v.rename n t.path) (disk.install t) := by
  have hne : ∀ {m : FileName}, m.lasting = true → m ≠ n := by
    rintro m hm rfl
    cases hn.symm.trans hm
  have hothers : ∀ m : FileName, m.lasting = true → m ≠ t.path → (v.rename n t.path).read m = v.read m :=
    fun m hm hmt => (Volume.keeps_rename (hne hm) hmt).read
  have htarget : (v.rename n t.path).read t.path = t.payload floatRepr :=
    (Volume.read_rename (hne (lasting_path t)).symm).trans hread
  cases t with
  | journal text =>
      obtain ⟨r, hr, rfl⟩ := ht
      refine ⟨?_, fun p => (hothers _ rfl (by simp [Write.path])).trans (h.artifacts p)⟩
      have hjournal : (v.rename n .journal).read .journal = some (r.journalBytes floatRepr) := htarget
      show Option.Rel _ ((v.rename n .journal).read .journal) (some (JournalText.json r.document))
      rw [hjournal]
      exact .some ⟨r, hr, rfl, rfl⟩
  | artifact path bytes =>
      refine ⟨hothers .journal rfl (by simp [Write.path]) ▸ h.journal, ?_⟩
      intro p
      show (v.rename n (.artifact path)).read (.artifact p) = Function.update disk.artifacts path (some bytes) p
      by_cases hp : p = path
      · subst hp
        rw [Function.update_self]
        exact htarget
      · rw [Function.update_of_ne hp]
        exact (hothers _ rfl (by simpa [Write.path] using hp)).trans (h.artifacts p)

/-- What happened to the other files until now is of no account. -/
theorem JournalStore.Open.rebase {asked : List Asked} (h : Open v asked n d) : Open d.volume d.asked n d :=
  ⟨h.temp, h.lasting, h.own, .refl _, rfl⟩

theorem JournalStore.Open.of_keeps (h : Open d.volume d.asked n d) (hk : ∀ m, Volume.Keeps m d.volume v') :
    Open v' d.asked n (d.withVolume v') where
  temp := h.temp
  lasting := h.lasting
  own := by
    obtain ⟨i, hi, hown⟩ := h.own
    exact ⟨i, (hk n).entry.trans hi, fun m hm hmem => hown m hm ((hk m).maybe _ hmem)⟩
  calm := .refl _
  asked := rfl

namespace Stage

theorem Holds.exists_open (h : g.Holds floatRepr d) (hg : g ≠ .closed) :
    ∃ n, JournalStore.Open d.volume d.asked n d := by
  cases g with
  | closed => exact absurd rfl hg
  | opened => exact h
  | filled t =>
      obtain ⟨n, hopen, -⟩ := h
      exact ⟨n, hopen⟩

theorem Holds.of_keeps (h : g.Holds floatRepr d) (hk : ∀ m, Volume.Keeps m d.volume v') :
    g.Holds floatRepr (d.withVolume v') := by
  cases g with
  | closed => trivial
  | opened =>
      obtain ⟨n, hopen⟩ := h
      exact ⟨n, hopen.of_keeps hk⟩
  | filled t =>
      obtain ⟨n, hopen, hread⟩ := h
      exact ⟨n, hopen.of_keeps hk, (hk n).read.trans hread⟩

end Stage

namespace Mimics

/-- Where the other files and the trades are as they were, the drive goes on behaving like the world. -/
theorem keep (h : Mimics floatRepr past g d w) (ha : d'.asked = d.asked) (hc : Calm d.volume d'.volume)
    (hd : w'.disk = w.disk) (ht : TradeBroker.trades w'.trace = TradeBroker.trades w.trace)
    (hg : g'.Holds floatRepr d') : Mimics floatRepr past g' d' w' where
  mirrors := hd ▸ h.mirrors.calm hc
  trades := by
    rw [ha, ht]
    exact h.trades
  stage := hg

/-- Nothing but an entry of the trace. -/
theorem log (h : Mimics floatRepr past g d w) {ev : Event} (hev : ev.trade? = none) :
    Mimics floatRepr past g d (w.log ev) := by
  refine h.keep rfl (.refl _) rfl ?_ h.stage
  simp [TradeBroker.trades, hev]

/-- A trade is asked for, in both worlds. -/
theorem ask (h : Mimics floatRepr past g d w) (console : Console) (offered : Pokemon100) (outcome : TradeOutcome) :
    Mimics floatRepr past g (d.ask console offered)
      (w.log (.trade ⟨console, offered, w.disk.journal, outcome, false⟩)) where
  mirrors := h.mirrors
  trades := by
    obtain ⟨new, hasked, hnew⟩ := h.trades
    refine ⟨new ++ [⟨console, offered, d.volume⟩], ?_, ?_⟩
    · show d.asked ++ _ = _
      rw [hasked, List.append_assoc]
    · rw [World.log_trace, trades_append]
      exact List.rel_append hnew (.cons ⟨rfl, rfl, h.mirrors.journal⟩ .nil)
  stage := by
    have hopen : ∀ {n}, JournalStore.Open d.volume d.asked n d →
        JournalStore.Open d.volume (d.ask console offered).asked n (d.ask console offered) :=
      fun ho => ⟨ho.temp, ho.lasting, ho.own, .refl _, rfl⟩
    have hstage := h.stage
    cases g with
    | closed => trivial
    | opened =>
        obtain ⟨n, ho⟩ := hstage
        exact ⟨n, hopen ho⟩
    | filled t =>
        obtain ⟨n, ho, hread⟩ := hstage
        exact ⟨n, hopen ho, hread⟩

end Mimics

end Keeping

/-! ## §2 — one call. -/

namespace Mimics

variable {floatRepr : Float → PyStr} {limit : Nat} {journal : JournalStore} {d d' : Drive} {w : World} {g : Stage}
  {past : List Asked}

/-- The world can do what the drive did, and the program does not see the difference in the answer. -/
def Followed (floatRepr : Float → PyStr) (journal : JournalStore) (past : List Asked) (g : Stage) (w : World) (op : Op)
    (answer : Ret op) (d' : Drive) : Prop :=
  ∃ answer' w', Step w op answer' w' ∧ journal.SameToLoad op answer answer' ∧
    Mimics floatRepr past (g.note op answer) d' w'

/-- The world gives the answer of the drive. -/
theorem followed {op : Op} {answer : Ret op} {w' : World} (hs : Step w op answer w')
    (h : Mimics floatRepr past (g.note op answer) d' w') : Followed floatRepr journal past g w op answer d' :=
  ⟨answer, w', hs, .refl _ op answer, h⟩

/-- A call on files that leaves the target alone, answered or refused. -/
theorem file_followed (h : Mimics floatRepr past g d w) {c : FileCall} {t : Write} {answer : Except Exc Unit}
    (hanswer : answer = .ok () ∨ Refused answer) (ha : d'.asked = d.asked) (hc : Calm d.volume d'.volume)
    (hg : (g.note (.file c t) answer).Holds floatRepr d') :
    Followed floatRepr journal past g w (.file c t) answer d' := by
  rcases hanswer with rfl | ⟨e, he, rfl⟩
  · exact followed (Or.inl ⟨rfl, rfl⟩) (h.keep ha hc rfl rfl hg)
  · refine followed (Or.inr ⟨e, he, rfl, rfl⟩) (h.keep ha hc rfl ?_ hg)
    simp [TradeBroker.trades, Event.trade?]

/-- The temporary file is made, written, synced and removed, the target is not. -/
theorem fileCall_followed (h : Mimics floatRepr past g d w) {c : FileCall} {t : Write} {answer : Except Exc Unit}
    (hs : DriveStep floatRepr limit d (.file c t) answer d') (hentitled : Entitled g (.file c t) answer) :
    Followed floatRepr journal past g w (.file c t) answer d' := by
  cases c with
  | mkdir =>
      obtain ⟨dirs, hdirs, rfl, hanswer⟩ := hs
      refine h.file_followed (hanswer.imp And.left id) rfl ?_ trivial
      exact calm_makeDirs (fun e he => not_lasting_up _ e (List.mem_reverse.mp (hdirs.subset he))) _
  | createTemp =>
      rcases hs with ⟨k, rfl, -, rfl⟩ | ⟨hrefused, rfl⟩
      · have hcalm : Calm d.volume (d.volume.create (.temp t.parent k) []) := fun n hn =>
          Volume.keeps_create [] fun he => by
            subst he
            cases hn
        exact h.file_followed (Or.inl rfl) rfl hcalm ⟨_, rfl, rfl, Volume.own_create [], .refl _, rfl⟩
      · obtain ⟨e, he, rfl⟩ := hrefused
        exact h.file_followed (Or.inr ⟨e, he, rfl⟩) rfl (.refl _) trivial
  | writeTemp =>
      obtain ⟨n, hopen⟩ := h.stage.exists_open hentitled
      rcases hs with ⟨m, content, hm, rfl, hanswer⟩ | ⟨⟨e, he, rfl⟩, rfl⟩
      · obtain rfl := Option.some.inj (hm.symm.trans hopen.temp)
        have hwritten := hopen.write content
        refine h.file_followed (hanswer.imp And.left id) rfl hwritten.calm ?_
        rcases hanswer with ⟨rfl, hpayload⟩ | ⟨e, -, rfl⟩
        · exact ⟨m, hwritten.rebase, (Volume.read_write content hopen.own).trans hpayload.symm⟩
        · exact ⟨m, hwritten.rebase⟩
      · exact h.file_followed (Or.inr ⟨e, he, rfl⟩) rfl (.refl _) ⟨n, hopen⟩
  | fsyncTemp =>
      rcases hs with ⟨m, -, rfl, hanswer⟩ | ⟨hrefused, rfl⟩
      · exact h.file_followed hanswer rfl (fun _ _ => Volume.keeps_sync) (h.stage.of_keeps fun _ => Volume.keeps_sync)
      · exact h.file_followed (Or.inr hrefused) rfl (.refl _) h.stage
  | unlinkTemp =>
      obtain ⟨n, hopen⟩ := h.stage.exists_open hentitled
      rcases hs with ⟨m, rfl, hm, rfl⟩ | ⟨hrefused, rfl⟩
      · obtain rfl := Option.some.inj (hm.symm.trans hopen.temp)
        refine h.file_followed (Or.inl rfl) rfl ?_ trivial
        refine fun n hn => Volume.keeps_unlink fun he => ?_
        cases hopen.lasting.symm.trans (he ▸ hn)
      · exact h.file_followed (Or.inr hrefused) rfl (.refl _) trivial
  | openDir =>
      obtain ⟨rfl, hanswer⟩ := hs
      exact h.file_followed hanswer rfl (.refl _) h.stage
  | closeDir =>
      obtain ⟨rfl, hanswer⟩ := hs
      exact h.file_followed hanswer rfl (.refl _) h.stage
  | fsyncDir =>
      rcases hs with ⟨rfl, rfl⟩ | ⟨hrefused, rfl⟩
      · exact h.file_followed (Or.inl rfl) rfl (fun _ _ => Volume.keeps_syncDir)
          (h.stage.of_keeps fun _ => Volume.keeps_syncDir)
      · exact h.file_followed (Or.inr hrefused) rfl (.refl _) h.stage

/-- **A rename installs the payload that its caller means**, since the program has filled the file that it
moves. -/
theorem replace_followed (h : Mimics floatRepr past g d w) {t : Write} {answer : Except Exc Unit}
    (hs : DriveStep floatRepr limit d (.replace t) answer d') (hentitled : Entitled g (.replace t) answer) :
    Followed floatRepr journal past g w (.replace t) answer d' := by
  obtain ⟨rfl, hfits⟩ := hentitled
  obtain ⟨n, hopen, hread⟩ := h.stage
  rcases hs with ⟨m, rfl, hm, -, rfl⟩ | ⟨⟨e, he, rfl⟩, rfl⟩
  · obtain rfl := Option.some.inj (hm.symm.trans hopen.temp)
    refine followed (Or.inl ⟨rfl, rfl⟩) ⟨h.mirrors.install hfits hopen.lasting hread, ?_, trivial⟩
    have htrades : TradeBroker.trades (w.install t).trace = TradeBroker.trades w.trace := by
      simp [TradeBroker.trades, Event.trade?]
    rw [htrades]
    exact h.trades
  · exact followed (Or.inr ⟨e, he, rfl, rfl⟩) (h.log rfl)

/-- A text that is read loads into the record that was written, on the drive by way of its bytes. -/
theorem readText_followed (hlimit : 3 ≤ limit) (h : Mimics floatRepr past g d w) {answer : Except Exc JournalText}
    (hs : DriveStep floatRepr limit d .readText answer d') :
    Readable g .readText answer ∧ Followed floatRepr journal past g w .readText answer d' := by
  obtain ⟨rfl, ⟨content, hread, rfl⟩ | ⟨e, he, rfl⟩⟩ := hs
  · obtain ⟨r, hr, rfl, htext⟩ := h.mirrors.read_journal hread
    rw [JournalStore.readContent_journalBytes hlimit hr]
    refine ⟨⟨r, hr, rfl⟩, .ok (.json r.document), w, Or.inl ⟨_, htext, rfl, rfl⟩, ?_, h⟩
    exact (journal.load_sorted_document hr).trans (hr.made.load journal).symm
  · exact ⟨trivial, followed (Or.inr ⟨e, he, rfl, rfl⟩) (h.log rfl)⟩

/-- **One call**: what the drive does in a call that the program is entitled to, the world can do. -/
theorem step (hlimit : 3 ≤ limit) (h : Mimics floatRepr past g d w) {op : Op} {answer : Ret op}
    (hs : DriveStep floatRepr limit d op answer d') :
    Readable g op answer ∧ (Entitled g op answer → Followed floatRepr journal past g w op answer d') := by
  cases op with
  | pathExists =>
      obtain ⟨rfl, rfl | ⟨e, he, rfl⟩⟩ := hs
      · refine ⟨trivial, fun _ => followed (Or.inl ⟨?_, rfl⟩) h⟩
        have hthere : (d'.volume.read .journal).isSome = w.disk.journal.isSome := by
          have hjournal := h.mirrors.journal
          revert hjournal
          generalize d'.volume.read .journal = content, w.disk.journal = text
          rintro (_ | _) <;> rfl
        rw [← hthere, Volume.read, Option.isSome_map]
      · exact ⟨trivial, fun _ => followed (Or.inr ⟨e, he, rfl, rfl⟩) (h.log rfl)⟩
  | readText =>
      obtain ⟨hreadable, hfollowed⟩ := h.readText_followed hlimit hs
      exact ⟨hreadable, fun _ => hfollowed⟩
  | file c t => exact ⟨trivial, h.fileCall_followed hs⟩
  | replace t => exact ⟨trivial, h.replace_followed hs⟩
  | now =>
      obtain ⟨hnow, rfl⟩ := hs
      exact ⟨trivial, fun _ => followed ⟨hnow, rfl⟩ h⟩
  | uuid4 =>
      obtain ⟨hv4, rfl⟩ := hs
      exact ⟨trivial, fun _ => followed ⟨hv4, rfl⟩ h⟩
  | connect console =>
      obtain rfl := hs
      exact ⟨trivial, fun _ => followed rfl (h.log rfl)⟩
  | waitForTradeMenu =>
      obtain rfl := hs
      exact ⟨trivial, fun _ => followed rfl (h.log rfl)⟩
  | switchTrade offered =>
      obtain rfl := hs
      exact ⟨trivial, fun _ => followed ⟨false, rfl⟩ (h.ask .switch offered _)⟩
  | gbaTrade offered =>
      obtain rfl := hs
      exact ⟨trivial, fun _ => followed ⟨false, rfl⟩ (h.ask .gba offered _)⟩
  | close console =>
      obtain rfl := hs
      exact ⟨trivial, fun _ => followed rfl (h.log rfl)⟩
  | faultHook boundary record =>
      obtain rfl := hs
      exact ⟨trivial, fun _ => followed rfl (h.log rfl)⟩

end Mimics

/-! ## §3 — a session, and all of them. -/

section Sessions

variable {floatRepr : Float → PyStr} {limit : Nat} {journal : JournalStore} {losses ev : Prop}
  {v₀ : Volume FileName Bytes} {disk disk₀ : Disk} {d d' : Drive} {P : Pokemon100}
  {q : Prog Op Ret (Except Exc TransactionOutcome)}

/-- **A session, from any drive that shows a disk.** -/
theorem execute_refines (hlimit : 3 ≤ limit) (h : Mirrors floatRepr d.volume disk)
    (hr : Prog.Reach (DriveStep floatRepr limit) (TradeCoordinator.execute journal P).run
      ⟨d.volume, none, d.asked⟩ q d') :
    ∃ w', Prog.Reach Step (TradeCoordinator.execute journal P).run ⟨disk, []⟩ q w' ∧
      Mirrors floatRepr d'.volume w'.disk ∧
      ∃ new, d'.asked = d.asked ++ new ∧ List.Forall₂ (SameTrade floatRepr) new (trades w'.trace) := by
  have hstart : Mimics floatRepr d.asked .closed ⟨d.volume, none, d.asked⟩ ⟨disk, []⟩ :=
    ⟨h, ⟨[], (List.append_nil _).symm, .nil⟩, trivial⟩
  have hstep : ∀ g v w op r v', Mimics floatRepr d.asked g v w → DriveStep floatRepr limit v op r v' →
      Readable g op r ∧ (Entitled g op r → Mimics.Followed floatRepr journal d.asked g w op r v') :=
    fun _ _ _ _ _ _ hm hs => hm.step hlimit hs
  obtain ⟨g, w', hreach, hmimics⟩ := Guarantees.refines hstep (TradeCoordinator.execute_entitled journal P)
    (TradeCoordinator.execute_blind journal P) hstart hr
  exact ⟨w', hreach, hmimics.mirrors, hmimics.trades⟩

/-- A dependable drive shows a disk, so there is always one to start from. -/
theorem Dependable.exists_mirrors (h : Dependable floatRepr ev d) : ∃ disk, Mirrors floatRepr d.volume disk := by
  cases hread : d.volume.read .journal with
  | none => exact ⟨⟨none, fun p => d.volume.read (.artifact p)⟩, hread ▸ .none, fun _ => rfl⟩
  | some content =>
      obtain ⟨r, hr, hbytes, -, -⟩ := h.journal.read hread
      exact ⟨⟨some (.json r.document), fun p => d.volume.read (.artifact p)⟩, hread ▸ .some ⟨r, hr, hbytes, rfl⟩,
        fun _ => rfl⟩

/-- **A session refines a session on an atomic disk.**  Whatever the machine has been through, the drive shows a
disk.  And from every disk that it shows, what a session does on the drive can happen on that disk: call by call, with
the same answers of the endpoints, to the same rest program, so with the same result; with the same trades, each asked
for behind the same journal; and the drive shows the disk that is left. -/
theorem session_refines (hlimit : 3 ≤ limit) (h₀ : v₀.maybe .journal = [none])
    (h : Lives floatRepr limit journal losses v₀ d)
    (hr : Prog.Reach (DriveStep floatRepr limit) (TradeCoordinator.execute journal P).run
      ⟨d.volume, none, d.asked⟩ q d') :
    (∃ disk, Mirrors floatRepr d.volume disk) ∧ ∀ disk, Mirrors floatRepr d.volume disk →
      ∃ w', Prog.Reach Step (TradeCoordinator.execute journal P).run ⟨disk, []⟩ q w' ∧
        Mirrors floatRepr d'.volume w'.disk ∧
        ∃ new, d'.asked = d.asked ++ new ∧ List.Forall₂ (SameTrade floatRepr) new (trades w'.trace) :=
  ⟨(h.dependable hlimit h₀).exists_mirrors, fun _ hm => execute_refines hlimit hm hr⟩

/-- A new volume shows the empty disk. -/
theorem newVolume_mirrors : Mirrors floatRepr newVolume emptyDisk := ⟨.none, fun _ => rfl⟩

/-- A whole transaction on a new volume is one on the empty disk, with the same result. -/
theorem session_refines_new :
    ∃ w', Prog.Finish Step (TradeCoordinator.execute sampleStore (sampleMon 0)).run ⟨emptyDisk, []⟩ driveRun.1 w' ∧
      Mirrors (fun _ => []) driveRun.2.volume w'.disk ∧ (trades w'.trace).length = driveRun.2.asked.length := by
  have hlives : Lives (fun _ => []) 3 sampleStore True newVolume ⟨newVolume, none, []⟩ := .start
  obtain ⟨-, hrefines⟩ := session_refines (Nat.le_refl 3) rfl hlives driveRun_finish
  obtain ⟨w', hreach, hmirrors, new, hasked, htrades⟩ := hrefines emptyDisk newVolume_mirrors
  refine ⟨w', hreach, hmirrors, ?_⟩
  rw [hasked, List.nil_append]
  exact htrades.length_eq.symm

/-- One history behind another. -/
theorem Sessions.append {disk₁ disk₂ : Disk} {hist hist' : List Invocation} (h : Sessions journal disk hist disk₁)
    (h' : Sessions journal disk₁ hist' disk₂) : Sessions journal disk (hist ++ hist') disk₂ := by
  induction h with
  | nil d => exact h'
  | cons hr _ ih => exact .cons hr (ih h')

/-- **All sessions refine a history on an atomic disk**, as long as the power does not fail. -/
theorem lives_refine (hlimit : 3 ≤ limit) (h₀ : Mirrors floatRepr v₀ disk₀)
    (h : Lives floatRepr limit journal False v₀ d) :
    ∃ hist disk, Sessions journal disk₀ hist disk ∧ Mirrors floatRepr d.volume disk ∧
      List.Forall₂ (SameTrade floatRepr) d.asked (hist.flatMap fun i => trades i.trace) := by
  induction h with
  | start => exact ⟨[], disk₀, .nil disk₀, h₀, .nil⟩
  | @session d d' P q _ hr ih =>
      obtain ⟨hist, disk, hsessions, hmirrors, htrades⟩ := ih
      obtain ⟨w', hreach, hmirrors', new, hasked, hnew⟩ := execute_refines hlimit hmirrors hr
      refine ⟨hist ++ [⟨P, w'.trace⟩], w'.disk, hsessions.append (.cons hreach (.nil _)), hmirrors', ?_⟩
      rw [hasked, List.flatMap_append]
      exact List.rel_append htrades (by simpa using hnew)
  | powerLoss hlosses => exact hlosses.elim

/-- The transaction on the new volume. -/
theorem lives_refine_new :
    ∃ hist disk, Sessions sampleStore emptyDisk hist disk ∧ Mirrors (fun _ => []) driveRun.2.volume disk ∧
      List.Forall₂ (SameTrade fun _ => []) driveRun.2.asked (hist.flatMap fun i => trades i.trace) := by
  have hlives : Lives (fun _ => []) 3 sampleStore False newVolume driveRun.2 := driveRun_lives
  exact lives_refine (Nat.le_refl 3) newVolume_mirrors hlives

/-- A disk that a drive shows has been filed, if the first one was. -/
theorem Lives.filed (hlimit : 3 ≤ limit) (h₀ : Mirrors floatRepr v₀ disk₀) (hfiled : Filed disk₀)
    (h : Lives floatRepr limit journal False v₀ d) : ∃ disk, Mirrors floatRepr d.volume disk ∧ Filed disk := by
  induction h with
  | start => exact ⟨disk₀, h₀, hfiled⟩
  | session _ hr ih =>
      obtain ⟨disk, hmirrors, hfiled⟩ := ih
      obtain ⟨w', hreach, hmirrors', -⟩ := execute_refines hlimit hmirrors hr
      exact ⟨w'.disk, hmirrors', execute_keeps_filed hfiled hreach⟩
  | powerLoss hlosses => exact hlosses.elim

/-- **The evidence, in bytes.**  At every point of every session, until the power fails for the first time, the journal
that is there loads, and it is backed by the artifacts that are there. -/
theorem evidence_on_drive (hlimit : 3 ≤ limit) (h₀ : Mirrors floatRepr v₀ disk₀) (hnone : disk₀.journal = none)
    (h : Lives floatRepr limit journal False v₀ d) {content : Bytes} (hread : d.volume.read .journal = some content) :
    ∃ raw, journal.loadContent limit content = .ok raw ∧ Backed raw fun p => d.volume.read (.artifact p) := by
  have hempty : Filed disk₀ := fun text ht => by cases hnone.symm.trans ht
  obtain ⟨disk, hmirrors, hfiled⟩ := h.filed hlimit h₀ hempty
  obtain ⟨r, hr, rfl, htext⟩ := hmirrors.read_journal hread
  obtain ⟨raw, hload, hbacked⟩ := hfiled.evidence _ htext
  obtain rfl := Except.ok.inj (hload.symm.trans (hr.made.load journal))
  refine ⟨_, hr.loadContent hlimit, ?_⟩
  rw [funext hmirrors.artifacts]
  exact hbacked

/-- The journal of a complete transaction, and its artifacts. -/
theorem evidence_on_drive_complete :
    ∃ (content : Bytes) (raw : RawRecord), driveRun.2.volume.read .journal = some content ∧
      sampleStore.loadContent 3 content = .ok raw ∧ Backed raw fun p => driveRun.2.volume.read (.artifact p) := by
  obtain ⟨i, hi⟩ := Option.isSome_iff_exists.mp driveRun_eval.2.1
  have hread : driveRun.2.volume.read .journal = some (driveRun.2.volume.content i) := congrArg _ hi
  have hlives : Lives (fun _ => []) 3 sampleStore False newVolume driveRun.2 := driveRun_lives
  obtain ⟨raw, hload, hbacked⟩ := evidence_on_drive (Nat.le_refl 3) newVolume_mirrors rfl hlives hread
  exact ⟨_, raw, hread, hload, hbacked⟩

end Sessions

end TradeBroker
