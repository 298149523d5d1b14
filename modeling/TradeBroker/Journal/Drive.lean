/-
# TradeBroker.Journal.Drive — the journal on a disk with caches.

`Effects.Step` takes `os.replace` to be atomic and durable.  Here the same programs run on a `Volume`: what
is written is in a cache until it is synced, names and files on their own terms, and every call of
`_atomic_bytes` does to the volume what POSIX promises of it and no more.  `DriveStep` is that semantics; its
disk is bytes, so a journal is read back by `json.loads`.

* The TREE is the directory of the journal, `artifacts/` in it, and one directory for each transaction in that.
* A call that raises may have done part of its work: some of the directories made, some of the bytes written.
* A rename is atomic for those who look; whether it outlives a power loss is up to the directory's sync.
* An endpoint and a fault hook answer anything, and do not touch the volume.  `asked` keeps, for every trade
  that was asked for, the volume as it was at that moment.

`atomicBytes_drive_sat` is the one specification of an atomic write down here: nothing but its target changes,
the target is whole at every point, and on return it is on the platter.

A journal that is lost with its directory is a real possibility, since `mkdir` is not followed by a sync
of the parent.  The model keeps it: a fresh directory may be gone behind a power loss, with everything in
it.  The modules above state what they say of a journal that is found again, or assume that its directory
was there.

`Broker.PowerLoss` carries the specification through whole sessions, `Broker.Outage` through sessions,
power losses and restarts, and `Broker.Refinement` shows that without a power loss this drive is the
atomic disk.
-/
import TradeBroker.Lib.Storage
import TradeBroker.Journal.Bytes

namespace TradeBroker

open Lib

/-! ## §1 — the tree. -/

/-- The directories of the journal: its own, `artifacts/` in it, and one for each transaction in that. -/
inductive Directory where
  /-- `self.path.parent`, with everything above it. -/
  | home
  | artifacts
  | transaction (txid : PyStr)
  deriving DecidableEq

/-- What has a name: the directories, the journal, the artifacts, and the temporary files. -/
inductive FileName where
  | dir (d : Directory)
  | journal
  | artifact (path : ArtifactPath)
  /-- A temporary file; the number stands for the random part of its name. -/
  | temp (d : Directory) (k : Nat)
  deriving DecidableEq

namespace FileName

/-- The directories above a directory, nearest first. -/
def above : Directory → List FileName
  | .home => []
  | .artifacts => [.dir .home]
  | .transaction _ => [.dir .artifacts, .dir .home]

/-- The directories above a name, nearest first. -/
def up : FileName → List FileName
  | .dir d => above d
  | .journal => .dir .home :: above .home
  | .artifact p => .dir (.transaction p.transactionId) :: above (.transaction p.transactionId)
  | .temp d _ => .dir d :: above d

end FileName

/-- `path.parent` of a write. -/
def Write.parent : Write → Directory
  | .journal _ => .home
  | .artifact p _ => .transaction p.transactionId

/-- The path of a write. -/
def Write.path : Write → FileName
  | .journal _ => .journal
  | .artifact p _ => .artifact p

/-- The payload of `_atomic_bytes`; a journal is only ever written as a document, so a text that is no JSON is
not something the program writes. -/
def Write.payload (floatRepr : Float → PyStr) : Write → Option Bytes
  | .journal (.json doc) => some (dumpBytes floatRepr doc)
  | .journal _ => none
  | .artifact _ bytes => some bytes

/-! ## §2 — the calls. -/

/-- A trade that was asked for, and the volume at that moment: what a power loss right then would have left is
decided by it. -/
structure Asked where
  console : Console
  offered : Pokemon100
  volume : Volume FileName Bytes

/-- The volume, the name of the temporary file of the write in progress, and the trades so far. -/
structure Drive where
  volume : Volume FileName Bytes
  temp : Option FileName
  asked : List Asked

namespace Drive

def withVolume (d : Drive) (v : Volume FileName Bytes) : Drive := { d with volume := v }

@[simp] theorem withVolume_volume (d : Drive) (v : Volume FileName Bytes) : (d.withVolume v).volume = v := rfl

@[simp] theorem withVolume_temp (d : Drive) (v : Volume FileName Bytes) : (d.withVolume v).temp = d.temp := rfl

@[simp] theorem withVolume_asked (d : Drive) (v : Volume FileName Bytes) : (d.withVolume v).asked = d.asked := rfl

/-- A trade is asked for. -/
def ask (d : Drive) (console : Console) (offered : Pokemon100) : Drive :=
  { d with asked := d.asked ++ [⟨console, offered, d.volume⟩] }

end Drive

/-- `mkdir(parents=True, exist_ok=True)`, from the top down; what is there already stays. -/
def makeDirs (v : Volume FileName Bytes) (dirs : List FileName) : Volume FileName Bytes :=
  dirs.foldl (fun v d => v.mkdir d []) v

/-- The call raised an `OSError`. -/
def Refused {α : Type} (answer : Except Exc α) : Prop := ∃ e : Exc, e.isOSError = true ∧ answer = .error e

/-- `json.loads(path.read_text(encoding="utf-8"))` up to the clauses of `load`. -/
def readContent (limit : Nat) (content : Bytes) : Except Exc JournalText :=
  match fileText content with
  | none => .ok .notUtf8
  | some text =>
      match loads limit text with
      | .ok doc => .ok (.json doc)
      | .error .jsonDecodeError => .ok .notJson
      | .error .valueError =>
          .error ⟨.foreign "ValueError" true, "Exceeds the limit (4300 digits) for integer string conversion"⟩
      | .error .recursionError =>
          .error ⟨.foreign "RecursionError" true, "maximum recursion depth exceeded"⟩

/-- What an operation may answer on a drive, and what it leaves.  Every file call may also raise, with its
work done, half done or not begun. -/
def DriveStep (floatRepr : Float → PyStr) (limit : Nat) (d : Drive) : (op : Op) → Ret op → Drive → Prop
  | .pathExists, answer, d' =>
      d' = d ∧ (answer = .ok (d.volume.entry .journal).isSome ∨ Refused answer)
  | .readText, answer, d' =>
      d' = d ∧ ((∃ content, d.volume.read .journal = some content ∧ answer = readContent limit content) ∨
        Refused answer)
  | .file .mkdir t, answer, d' =>
      ∃ dirs, dirs <+: t.path.up.reverse ∧ d' = d.withVolume (makeDirs d.volume dirs) ∧
        ((answer = .ok () ∧ dirs = t.path.up.reverse) ∨ Refused answer)
  | .file .createTemp t, answer, d' =>
      (∃ k, answer = .ok () ∧ d.volume.entry (.temp t.parent k) = none ∧
        d' = ⟨d.volume.create (.temp t.parent k) [], some (.temp t.parent k), d.asked⟩) ∨
        (Refused answer ∧ d' = d)
  | .file .writeTemp t, answer, d' =>
      (∃ n content, d.temp = some n ∧ d' = d.withVolume (d.volume.write n content) ∧
        ((answer = .ok () ∧ t.payload floatRepr = some content) ∨ Refused answer)) ∨
        (Refused answer ∧ d' = d)
  | .file .fsyncTemp _, answer, d' =>
      (∃ n, d.temp = some n ∧ d' = d.withVolume (d.volume.sync n) ∧ (answer = .ok () ∨ Refused answer)) ∨
        (Refused answer ∧ d' = d)
  | .replace t, answer, d' =>
      (∃ n, answer = .ok () ∧ d.temp = some n ∧ (d.volume.entry n).isSome = true ∧
        d' = ⟨d.volume.rename n t.path, none, d.asked⟩) ∨ (Refused answer ∧ d' = d)
  | .file .unlinkTemp _, answer, d' =>
      (∃ n, answer = .ok () ∧ d.temp = some n ∧ d' = d.withVolume (d.volume.unlink n)) ∨ (Refused answer ∧ d' = d)
  | .file .openDir _, answer, d' => d' = d ∧ (answer = .ok () ∨ Refused answer)
  | .file .closeDir _, answer, d' => d' = d ∧ (answer = .ok () ∨ Refused answer)
  | .file .fsyncDir t, answer, d' =>
      (answer = .ok () ∧ d' = d.withVolume (d.volume.syncDir FileName.up (.dir t.parent))) ∨
        (Refused answer ∧ d' = d)
  | .now, answer, d' => encodable answer = true ∧ d' = d
  | .uuid4, answer, d' => answer.isV4 = true ∧ d' = d
  | .switchTrade offered, _, d' => d' = d.ask .switch offered
  | .gbaTrade offered, _, d' => d' = d.ask .gba offered
  | _, _, d' => d' = d

/-! ## §3 — what a call leaves alone. -/

/-- The name outlives the write that made it. -/
def FileName.lasting : FileName → Bool
  | .journal => true
  | .artifact _ => true
  | _ => false

/-- From `v` to `v'` nothing happened to the journal and to the artifacts; temporary files and directories may
have come and gone. -/
def Calm (v v' : Volume FileName Bytes) : Prop := ∀ n, n.lasting = true → Volume.Keeps n v v'

/-- From `v` to `v'` the file `n` was replaced by one that holds `c`, durably, and nothing else happened to
the journal and to the artifacts.  The name itself may still be waiting for its directory. -/
structure Placed (n : FileName) (c : Bytes) (v v' : Volume FileName Bytes) : Prop where
  others : ∀ m, m.lasting = true → m ≠ n → Volume.Keeps m v v'
  durable : v'.Durable n c
  maybe : ∀ o ∈ v'.maybe n, (∃ i, o = some i ∧ v'.synced i = true ∧ v'.content i = c) ∨
    (o ∈ v.maybe n ∧ ∀ i, o = some i → v'.content i = v.content i ∧ (v.synced i = true → v'.synced i = true))

section Frame

variable {u v v' : Volume FileName Bytes} {n : FileName} {c : Bytes} {P : Bytes → Prop}

theorem Calm.refl (v : Volume FileName Bytes) : Calm v v := fun n _ => .refl n v

theorem Calm.trans (h : Calm u v) (h' : Calm v v') : Calm u v' := fun n hn => (h n hn).trans (h' n hn)

theorem Placed.whole (h : Placed n c v v') (hP : P c) (hw : v.Whole n P) : v'.Whole n P := by
  intro i hi
  rcases h.maybe _ hi with ⟨j, hj, hsynced, hc⟩ | ⟨hmem, hkept⟩
  · obtain rfl := Option.some.inj hj
    exact ⟨hsynced, hc ▸ hP⟩
  · obtain ⟨hsynced, hPi⟩ := hw i hmem
    obtain ⟨hc, hs⟩ := hkept i rfl
    exact ⟨hs hsynced, hc ▸ hPi⟩

theorem Placed.solid (h : Placed n c v v') (hP : P c) (hs : v.Solid n P) : v'.Solid n P := by
  intro o ho
  rcases h.maybe o ho with ⟨i, rfl, hsynced, hc⟩ | ⟨hmem, hkept⟩
  · exact ⟨i, rfl, hsynced, hc ▸ hP⟩
  · obtain ⟨i, rfl, hsynced, hPi⟩ := hs o hmem
    obtain ⟨hc, hsync⟩ := hkept i rfl
    exact ⟨i, rfl, hsync hsynced, hc ▸ hPi⟩

/-- The directory has been synced behind it: the name is on the platter with the new content. -/
theorem Placed.solid_of_synced (h : Placed n c v v') (hP : P c) (hm : v'.maybe n = [v'.entry n]) : v'.Solid n P := by
  obtain ⟨i, hi, hsynced, hc⟩ := h.durable
  intro o ho
  rw [hm, List.mem_singleton] at ho
  exact ⟨i, ho.trans hi, hsynced, hc ▸ hP⟩

theorem Placed.of_calm (h : Calm u v) (hn : n.lasting = true) (h' : Placed n c v v') : Placed n c u v' where
  others := fun m hm hne => (h m hm).trans (h'.others m hm hne)
  durable := h'.durable
  maybe := by
    intro o ho
    rcases h'.maybe o ho with hnew | ⟨hmem, hkept⟩
    · exact Or.inl hnew
    · refine Or.inr ⟨(h n hn).maybe o hmem, ?_⟩
      rintro i rfl
      obtain ⟨hc, hs⟩ := hkept i rfl
      exact ⟨hc.trans ((h n hn).content i hmem), fun hi => hs ((h n hn).synced i hmem hi)⟩

theorem Placed.calm (h : Placed n c u v) (hn : n.lasting = true) (h' : Calm v v') : Placed n c u v' where
  others := fun m hm hne => (h.others m hm hne).trans (h' m hm)
  durable := by
    obtain ⟨i, hi, hsynced, hc⟩ := h.durable
    have hentry := (h' n hn).entry.trans hi
    have hmem : some i ∈ v'.maybe n := hentry ▸ v'.entry_mem n
    exact ⟨i, hentry, (h' n hn).synced i hmem hsynced, ((h' n hn).content i hmem).trans hc⟩
  maybe := by
    intro o ho
    rcases h.maybe o ((h' n hn).maybe o ho) with ⟨i, rfl, hsynced, hc⟩ | ⟨hmem, hkept⟩
    · exact Or.inl ⟨i, rfl, (h' n hn).synced i ho hsynced, ((h' n hn).content i ho).trans hc⟩
    · refine Or.inr ⟨hmem, ?_⟩
      rintro i rfl
      obtain ⟨hc, hs⟩ := hkept i rfl
      exact ⟨((h' n hn).content i ho).trans hc, fun hi => (h' n hn).synced i ho (hs hi)⟩

/-- A durable file is moved onto a lasting name: this is where `fsync` before `rename` pays. -/
theorem placed_rename {tmp : FileName} (htmp : tmp.lasting = false) (hn : n.lasting = true)
    (hd : v.Durable tmp c) : Placed n c v (v.rename tmp n) := by
  have hne : ∀ {m : FileName}, m.lasting = true → m ≠ tmp := by
    rintro m hm rfl
    cases htmp.symm.trans hm
  refine ⟨fun m hm hmn => Volume.keeps_rename (hne hm) hmn, Volume.durable_rename (hne hn).symm hd, ?_⟩
  intro o ho
  rw [Volume.maybe_rename (hne hn).symm] at ho
  rcases List.mem_cons.mp ho with rfl | ho
  · obtain ⟨i, hi, hsynced, hc⟩ := hd
    exact Or.inl ⟨i, hi, hsynced, hc⟩
  · exact Or.inr ⟨ho, fun i _ => ⟨rfl, fun hs => hs⟩⟩

theorem calm_makeDirs {dirs : List FileName} (hdirs : ∀ d ∈ dirs, d.lasting = false)
    (v : Volume FileName Bytes) : Calm v (makeDirs v dirs) := by
  induction dirs generalizing v with
  | nil => exact .refl v
  | cons d dirs ih =>
      have hd : Calm v (v.mkdir d []) := by
        intro n hn
        refine Volume.keeps_mkdir [] ?_
        rintro rfl
        cases (hdirs _ (List.mem_cons_self ..)).symm.trans hn
      exact hd.trans (ih (fun e he => hdirs e (List.mem_cons_of_mem d he)) _)

theorem lasting_path (t : Write) : t.path.lasting = true := by
  cases t <;> rfl

theorem not_lasting_up (n : FileName) : ∀ d ∈ n.up, d.lasting = false := by
  have habove : ∀ d : Directory, ∀ e ∈ FileName.above d, e.lasting = false := by
    intro d e he
    cases d <;> simp [FileName.above] at he
    · subst he
      rfl
    · rcases he with rfl | rfl <;> rfl
  intro d hd
  cases n with
  | dir e => exact habove e d hd
  | journal =>
      rcases List.mem_cons.mp hd with rfl | hd
      · rfl
      · exact habove _ d hd
  | artifact p =>
      rcases List.mem_cons.mp hd with rfl | hd
      · rfl
      · exact habove _ d hd
  | temp e k =>
      rcases List.mem_cons.mp hd with rfl | hd
      · rfl
      · exact habove _ d hd

theorem head_up_path (t : Write) : t.path.up.head? = some (.dir t.parent) := by
  cases t <;> rfl

end Frame

/-! ## §4 — an atomic write. -/

namespace JournalStore

variable {floatRepr : Float → PyStr} {limit : Nat} {I : Drive → Prop} {t : Write} {c : Bytes} {d : Drive}
  {v : Volume FileName Bytes} {asked : List Asked}

/-- A write is in progress: its temporary file is its own, and nothing has happened to the other files since
the volume was `v`. -/
structure Open (v : Volume FileName Bytes) (asked : List Asked) (tmp : FileName) (d : Drive) : Prop where
  temp : d.temp = some tmp
  lasting : tmp.lasting = false
  own : d.volume.Own tmp
  calm : Calm v d.volume
  asked : d.asked = asked

theorem Open.write {tmp : FileName} (h : Open v asked tmp d) (content : Bytes) :
    Open v asked tmp (d.withVolume (d.volume.write tmp content)) where
  temp := h.temp
  lasting := h.lasting
  own := Volume.own_write content h.own
  calm := h.calm.trans fun n hn => Volume.keeps_write h.own fun he => by
    cases (he ▸ h.lasting).symm.trans hn
  asked := h.asked

theorem Open.sync {tmp : FileName} (h : Open v asked tmp d) :
    Open v asked tmp (d.withVolume (d.volume.sync tmp)) where
  temp := h.temp
  lasting := h.lasting
  own := Volume.own_sync h.own
  calm := h.calm.trans fun _ _ => Volume.keeps_sync
  asked := h.asked

/-- The payload is written and synced before the rename, so the target is replaced by all of it or by none of
it. -/
theorem stageAndReplace_drive_sat {tmp : FileName} (hc : t.payload floatRepr = some c) (h : Open v asked tmp d)
    (hcalm : ∀ v' o, Calm v v' → I ⟨v', o, asked⟩) (hplaced : ∀ v' o, Placed t.path c v v' → I ⟨v', o, asked⟩) :
    Act.Sat (DriveStep floatRepr limit) I (stageAndReplace t) d
      (fun _ d' => d'.asked = asked ∧ Placed t.path c v d'.volume)
      (fun e d' => e.isOSError = true ∧ Open v asked tmp d') := by
  have hI : ∀ {d' : Drive}, Open v asked tmp d' → I d' := by
    rintro ⟨v', o, _⟩ ho
    obtain rfl := ho.asked
    exact hcalm v' o ho.calm
  unfold stageAndReplace
  refine Act.Sat.bind (R := fun _ d' => Open v asked tmp d' ∧ d'.volume.read tmp = some c) ?_ ?_
  · refine ⟨hI h, ?_⟩
    rintro answer d' (⟨n, content, hn, rfl, hanswer⟩ | ⟨⟨e, he, rfl⟩, rfl⟩)
    · obtain rfl := Option.some.inj (hn.symm.trans h.temp)
      have ho := h.write content
      refine ⟨hI ho, ?_⟩
      rcases hanswer with ⟨rfl, hpay⟩ | ⟨e, he, rfl⟩
      · obtain rfl := Option.some.inj (hpay.symm.trans hc)
        exact ⟨ho, Volume.read_write content h.own⟩
      · exact ⟨he, ho⟩
    · exact ⟨hI h, he, h⟩
  rintro _ d1 _ ⟨h1, hread⟩
  refine Act.Sat.bind (R := fun _ d' => Open v asked tmp d' ∧ d'.volume.Durable tmp c) ?_ ?_
  · refine ⟨hI h1, ?_⟩
    rintro answer d' (⟨n, hn, rfl, hanswer⟩ | ⟨⟨e, he, rfl⟩, rfl⟩)
    · obtain rfl := Option.some.inj (hn.symm.trans h1.temp)
      refine ⟨hI h1.sync, ?_⟩
      rcases hanswer with rfl | ⟨e, he, rfl⟩
      · exact ⟨h1.sync, Volume.durable_sync hread⟩
      · exact ⟨he, h1.sync⟩
    · exact ⟨hI h1, he, h1⟩
  rintro _ d2 _ ⟨h2, hdurable⟩
  refine ⟨hI h2, ?_⟩
  rintro answer d' (⟨n, rfl, hn, -, rfl⟩ | ⟨⟨e, he, rfl⟩, rfl⟩)
  · obtain rfl := Option.some.inj (hn.symm.trans h2.temp)
    have hp := Placed.of_calm h2.calm (lasting_path t) (placed_rename h2.lasting (lasting_path t) hdurable)
    obtain rfl := h2.asked
    exact ⟨hplaced _ _ hp, rfl, hp⟩
  · exact ⟨hI h2, he, h2⟩

/-- Removing a temporary file changes nothing that lasts. -/
theorem unlinkAndRaise_drive_sat {tmp : FileName} {failure : Exc} (hf : failure.isException = true)
    (h : Open v asked tmp d) (hcalm : ∀ v' o, Calm v v' → I ⟨v', o, asked⟩) :
    Act.Sat (DriveStep floatRepr limit) I (unlinkAndRaise t failure) d (fun _ _ => False)
      (fun e d' => e.isException = true ∧ d'.asked = asked ∧ Calm v d'.volume) := by
  obtain rfl := h.asked
  unfold unlinkAndRaise
  have hunlink : Act.Sat (DriveStep floatRepr limit) I (fileCall .unlinkTemp t) d
      (fun _ d' => d'.asked = d.asked ∧ Calm v d'.volume)
      (fun e d' => e.isOSError = true ∧ d'.asked = d.asked ∧ Calm v d'.volume) := by
    refine ⟨hcalm _ _ h.calm, ?_⟩
    rintro answer d' (⟨n, rfl, hn, rfl⟩ | ⟨⟨e, he, rfl⟩, rfl⟩)
    · obtain rfl := Option.some.inj (hn.symm.trans h.temp)
      have hcalm' : Calm v (d.volume.unlink n) := h.calm.trans fun m hm => Volume.keeps_unlink fun hmn => by
        cases h.lasting.symm.trans (hmn ▸ hm)
      exact ⟨hcalm _ _ hcalm', rfl, hcalm'⟩
    · exact ⟨hcalm _ _ h.calm, he, rfl, h.calm⟩
  refine Act.Sat.bind (Act.Sat.attempt hunlink) ?_
  rintro r d' hI hr
  cases r with
  | ok u => exact ⟨hI, hf, hr⟩
  | error e =>
      obtain ⟨he, hrest⟩ := hr
      show Act.Sat (DriveStep floatRepr limit) I (if e.type = .fileNotFoundError then throw failure else throw e) _ _ _
      split
      · exact ⟨hI, hf, hrest⟩
      · exact ⟨hI, (Exc.ordinary_of_isOSError he).isException, hrest⟩

/-- The directory of the target is synced, or the target is in place all the same. -/
theorem syncDirectory_drive_sat (hd : Placed t.path c v d.volume)
    (hplaced : ∀ v' o, Placed t.path c v v' → I ⟨v', o, d.asked⟩) :
    Act.Sat (DriveStep floatRepr limit) I (syncDirectory t) d
      (fun _ d' => d'.asked = d.asked ∧ Placed t.path c v d'.volume ∧
        d'.volume.maybe t.path = [d'.volume.entry t.path])
      (fun e d' => e.isOSError = true ∧ d'.asked = d.asked ∧ Placed t.path c v d'.volume) := by
  unfold syncDirectory
  refine Act.Sat.bind (R := fun _ d' => d' = d) ?_ ?_
  · refine ⟨hplaced _ _ hd, ?_⟩
    rintro answer d' ⟨rfl, rfl | ⟨e, he, rfl⟩⟩
    · exact ⟨hplaced _ _ hd, rfl⟩
    · exact ⟨hplaced _ _ hd, he, rfl, hd⟩
  rintro _ d' _ rfl
  have hsync : Act.Sat (DriveStep floatRepr limit) I (fileCall .fsyncDir t) d'
      (fun _ d₁ => d₁.asked = d'.asked ∧ Placed t.path c v d₁.volume ∧
        d₁.volume.maybe t.path = [d₁.volume.entry t.path])
      (fun e d₁ => e.isOSError = true ∧ d₁ = d') := by
    refine ⟨hplaced _ _ hd, ?_⟩
    rintro answer d₁ (⟨rfl, rfl⟩ | ⟨⟨e, he, rfl⟩, rfl⟩)
    · have hcalm : Calm d'.volume (d'.volume.syncDir FileName.up (.dir t.parent)) := fun _ _ => Volume.keeps_syncDir
      have hp := hd.calm (lasting_path t) hcalm
      exact ⟨hplaced _ _ hp, rfl, hp, Volume.maybe_syncDir (head_up_path t)⟩
    · exact ⟨hplaced _ _ hd, he, rfl⟩
  refine Act.Sat.bind (Act.Sat.attempt hsync) ?_
  intro r d₁ hI hr
  -- The close in the inner `finally` runs in both cases, and its own error wins.
  cases r with
  | ok u =>
      obtain ⟨hasked, hp, hmaybe⟩ := hr
      refine Act.Sat.bind (R := fun _ d₂ => d₂ = d₁) ?_ ?_
      · refine ⟨hI, ?_⟩
        rintro answer d₂ ⟨rfl, rfl | ⟨e, he, rfl⟩⟩
        · exact ⟨hI, rfl⟩
        · exact ⟨hI, he, hasked, hp⟩
      · rintro _ _ _ rfl
        exact ⟨hI, hasked, hp, hmaybe⟩
  | error e =>
      obtain ⟨he, rfl⟩ := hr
      refine Act.Sat.bind (R := fun _ d₂ => d₂ = d₁) ?_ ?_
      · refine ⟨hI, ?_⟩
        rintro answer d₂ ⟨rfl, rfl | ⟨e', he', rfl⟩⟩
        · exact ⟨hI, rfl⟩
        · exact ⟨hI, he', rfl, hd⟩
      · rintro _ _ _ rfl
        exact ⟨hI, he, rfl, hd⟩

/-- **An atomic write, on a drive.**  Nothing but its target changes, and the target is what it was or the
whole payload, at every point.  On return a power loss cannot undo it. -/
theorem atomicBytes_drive_sat (self : JournalStore) (hc : t.payload floatRepr = some c)
    (hcalm : ∀ v' o, Calm d.volume v' → I ⟨v', o, d.asked⟩)
    (hplaced : ∀ v' o, Placed t.path c d.volume v' → I ⟨v', o, d.asked⟩) :
    Act.Sat (DriveStep floatRepr limit) I (self.atomicBytes t) d
      (fun _ d' => d'.asked = d.asked ∧ Placed t.path c d.volume d'.volume ∧
        d'.volume.maybe t.path = [d'.volume.entry t.path])
      (fun e d' => e.isException = true ∧ d'.asked = d.asked ∧
        (Calm d.volume d'.volume ∨ Placed t.path c d.volume d'.volume)) := by
  unfold atomicBytes
  refine Act.Sat.bind (R := fun _ d' => d'.asked = d.asked ∧ Calm d.volume d'.volume) ?_ ?_
  · refine ⟨hcalm _ _ (.refl _), ?_⟩
    rintro answer d' ⟨dirs, hdirs, rfl, hanswer⟩
    have hmake : Calm d.volume (makeDirs d.volume dirs) :=
      calm_makeDirs (fun e he => not_lasting_up t.path e (List.mem_reverse.mp (hdirs.subset he))) _
    refine ⟨hcalm _ _ hmake, ?_⟩
    rcases hanswer with ⟨rfl, -⟩ | ⟨e, he, rfl⟩
    · exact ⟨rfl, hmake⟩
    · exact ⟨(Exc.ordinary_of_isOSError he).isException, rfl, Or.inl hmake⟩
  rintro _ ⟨v1, o1, _⟩ _ ⟨rfl, hcalm1⟩
  have hcreate : Act.Sat (DriveStep floatRepr limit) I (fileCall .createTemp t) ⟨v1, o1, d.asked⟩
      (fun _ d' => ∃ tmp, Open d.volume d.asked tmp d')
      (fun e d' => e.isOSError = true ∧ d'.asked = d.asked ∧ Calm d.volume d'.volume) := by
    refine ⟨hcalm _ _ hcalm1, ?_⟩
    rintro answer d' (⟨k, rfl, -, rfl⟩ | ⟨⟨e, he, rfl⟩, rfl⟩)
    · have hmade : Calm d.volume (v1.create (.temp t.parent k) []) := hcalm1.trans fun n hn =>
        Volume.keeps_create [] fun he => by
          subst he
          cases hn
      exact ⟨hcalm _ _ hmade, _, rfl, rfl, Volume.own_create [], hmade, rfl⟩
    · exact ⟨hcalm _ _ hcalm1, he, rfl, hcalm1⟩
  refine Act.Sat.bind (Act.Sat.attempt hcreate) ?_
  rintro r d2 hI2 hr
  cases r with
  | error e =>
      obtain ⟨he, hasked, hcalm2⟩ := hr
      exact ⟨hI2, (wrapOSError_ordinary he).isException, hasked, Or.inl hcalm2⟩
  | ok u =>
      obtain ⟨tmp, hopen⟩ := hr
      refine Act.Sat.bind (Act.Sat.attempt (stageAndReplace_drive_sat hc hopen hcalm hplaced)) ?_
      rintro r d3 hI3 hr
      cases r with
      | error e =>
          -- The target is untouched; `finally` removes the temporary file.
          obtain ⟨he, hopen3⟩ := hr
          refine (unlinkAndRaise_drive_sat (wrapOSError_ordinary he).isException hopen3 hcalm).mono (fun _ hv => hv)
            (fun _ _ _ hno => hno.elim) ?_
          rintro e' d' _ ⟨he', hasked, hcalm'⟩
          exact ⟨he', hasked, Or.inl hcalm'⟩
      | ok u =>
          -- Past the commit point only the directory sync can still raise.
          obtain ⟨hasked, hp⟩ := hr
          have hsync : Act.Sat (DriveStep floatRepr limit) I (syncDirectory t) _ _ _ :=
            syncDirectory_drive_sat hp (by rw [hasked]; exact hplaced)
          refine Act.Sat.bind (Act.Sat.attempt hsync) ?_
          rintro r d4 hI4 hr
          cases r with
          | error e =>
              obtain ⟨he, hasked', hp'⟩ := hr
              exact ⟨hI4, (wrapOSError_ordinary he).isException, hasked'.trans hasked, Or.inr hp'⟩
          | ok u =>
              obtain ⟨hasked', hp', hmaybe⟩ := hr
              exact ⟨hI4, hasked'.trans hasked, hp', hmaybe⟩

end JournalStore

end TradeBroker
