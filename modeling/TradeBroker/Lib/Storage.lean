/-
# TradeBroker.Lib.Storage — files behind write caches.

A volume answers from its caches and keeps what has reached the platter.  Two things become durable on their
own terms: what a NAME leads to, when its directory is synced, and what an INODE holds, when the inode is.
Until then a power loss may leave any inode that the name has led to since the last sync of its directory, each
name on its own, and any bytes at all in an inode that was not synced.  A name is only found again when every
directory above it is.

`Whole v n P` is what a writer wants of a name that may or may not be there: whatever a power loss leaves of
it is absent or satisfies `P`.  `Solid v n P` says that it is there.  Both are facts about one name, so an
operation on another name keeps them (`Keeps`), and both survive the loss (`Whole.powerLoss`,
`Solid.powerLoss`).

Nothing here names a program: nodes and contents are any types, the tree is given by the directories above
each node.

The power loss is as bad as the interface allows and no worse.  It does not invent inodes: what a name
leads to behind it, the name has led to since its directory was last synced, or nothing.  It does not
respect any order of two names, and an inode that was not synced may hold bytes that were never written.
`exists_powerLoss` says that every such choice can really happen, so a theorem about all power losses is
not about too few of them.

The operations come with their effect on `maybe`, `held` and the platter as simp lemmas, and `Keeps`
collects what an operation leaves alone about a name.  `Journal.Drive` is the instance with the journal's
directory tree.
-/
import Mathlib.Data.List.Basic
import Mathlib.Logic.Function.Basic
import Mathlib.Tactic.Common

namespace TradeBroker.Lib

/-- A file system of one writer.  `entry` is what a name leads to now, `maybe` what it may lead to behind a
power loss; directories are nodes with an inode of their own. -/
structure Volume (Node Content : Type) where
  entry : Node → Option Nat
  maybe : Node → List (Option Nat)
  content : Nat → Content
  synced : Nat → Bool
  next : Nat
  entry_mem : ∀ n, entry n ∈ maybe n
  maybe_lt : ∀ n i, some i ∈ maybe n → i < next

namespace Volume

variable {Node Content : Type}

/-! ## §1 — operations. -/

/-- The content behind a name, as the program sees it: from the cache. -/
def read (v : Volume Node Content) (n : Node) : Option Content := (v.entry n).map v.content

section Operations

variable [DecidableEq Node]

/-- The name leads to `o` from now on; the platter does not know yet, so behind a power loss it may still lead
to where it led before. -/
def link (v : Volume Node Content) (n : Node) (o : Option Nat) (ho : ∀ i, o = some i → i < v.next) :
    Volume Node Content where
  entry := Function.update v.entry n o
  maybe := Function.update v.maybe n (o :: v.maybe n)
  content := v.content
  synced := v.synced
  next := v.next
  entry_mem := by
    intro m
    by_cases hm : m = n
    · subst hm
      simp
    · simpa [hm] using v.entry_mem m
  maybe_lt := by
    intro m i hi
    by_cases hm : m = n
    · subst hm
      rw [Function.update_self] at hi
      rcases List.mem_cons.mp hi with hi | hi
      · exact ho i hi.symm
      · exact v.maybe_lt m i hi
    · rw [Function.update_of_ne hm] at hi
      exact v.maybe_lt m i hi

/-- A fresh inode with this content, that no name leads to yet. -/
def allocate (v : Volume Node Content) (c : Content) : Volume Node Content where
  entry := v.entry
  maybe := v.maybe
  content := Function.update v.content v.next c
  synced := Function.update v.synced v.next false
  next := v.next + 1
  entry_mem := v.entry_mem
  maybe_lt := fun n i hi => Nat.lt_succ_of_lt (v.maybe_lt n i hi)

/-- `open(n, O_CREAT | O_EXCL)`: a new inode behind a name that led nowhere, both of them in the cache only. -/
def create (v : Volume Node Content) (n : Node) (c : Content) : Volume Node Content :=
  (v.allocate c).link n (some v.next) fun _ hi => Option.some.inj hi ▸ Nat.lt_succ_self v.next

/-- The file behind the name now holds `c`, in the cache; the platter has what was synced last. -/
def write (v : Volume Node Content) (n : Node) (c : Content) : Volume Node Content :=
  match v.entry n with
  | none => v
  | some i => { v with content := Function.update v.content i c, synced := Function.update v.synced i false }

/-- `fsync` of the file behind the name: the inode is on the platter, its name need not be. -/
def sync (v : Volume Node Content) (n : Node) : Volume Node Content :=
  match v.entry n with
  | none => v
  | some i => { v with synced := Function.update v.synced i true }

/-- `unlink(n)`: the name leads nowhere now, and may still be found after a power loss. -/
def unlink (v : Volume Node Content) (n : Node) : Volume Node Content := v.link n none fun _ h => by cases h

/-- `rename(a, b)`: the target leads to the file that was moved, at once for the program, and at some time or
never for the platter. -/
def rename (v : Volume Node Content) (a b : Node) : Volume Node Content :=
  (v.link b (v.entry a) fun i hi => v.maybe_lt a i (hi ▸ v.entry_mem a)).unlink a

/-- `mkdir(n, exist_ok=True)`: nothing happens where the name is there. -/
def mkdir (v : Volume Node Content) (n : Node) (c : Content) : Volume Node Content :=
  match v.entry n with
  | none => v.create n c
  | some _ => v

/-- `fsync` of the directory `d`: the names in it are on the platter as they are, and nothing older can come
back. -/
def syncDir (up : Node → List Node) (v : Volume Node Content) (d : Node) : Volume Node Content where
  entry := v.entry
  maybe := fun n => if (up n).head? = some d then [v.entry n] else v.maybe n
  content := v.content
  synced := v.synced
  next := v.next
  entry_mem := by
    intro n
    split
    · exact List.mem_singleton_self _
    · exact v.entry_mem n
  maybe_lt := by
    intro n i hi
    split at hi
    · rw [List.mem_singleton] at hi
      exact v.maybe_lt n i (hi ▸ v.entry_mem n)
    · exact v.maybe_lt n i hi

end Operations

/-! ## §2 — the power fails. -/

/-- `v'` is what a restart may find.  Every name is decided for itself, and a name in a directory that is lost
is lost. -/
structure PowerLoss (up : Node → List Node) (v v' : Volume Node Content) : Prop where
  entry : ∃ pick : Node → Option Nat, (∀ n, pick n ∈ v.maybe n) ∧
    ∀ n, v'.entry n = if (up n).all (fun d => (pick d).isSome) then pick n else none
  settled : ∀ n, v'.maybe n = [v'.entry n]
  content : ∀ i, v.synced i = true → v'.content i = v.content i
  synced : ∀ i, v'.synced i = true

/-- Whatever a power loss leaves of the name satisfies `P`: the name is gone, or the file behind it is on the
platter and is of that kind. -/
def Whole (v : Volume Node Content) (n : Node) (P : Content → Prop) : Prop :=
  ∀ i, some i ∈ v.maybe n → v.synced i = true ∧ P (v.content i)

/-- A power loss leaves the name, with a content that satisfies `P`, as long as it leaves the directories
above it, which are not this name's to keep. -/
def Solid (v : Volume Node Content) (n : Node) (P : Content → Prop) : Prop :=
  ∀ o ∈ v.maybe n, ∃ i, o = some i ∧ v.synced i = true ∧ P (v.content i)

variable {up : Node → List Node} {v v' : Volume Node Content} {n : Node} {P : Content → Prop}

theorem Solid.whole (h : Solid v n P) : Whole v n P := by
  intro i hi
  obtain ⟨j, hj, hsynced, hP⟩ := h _ hi
  obtain rfl := Option.some.inj hj
  exact ⟨hsynced, hP⟩

theorem Whole.read (h : Whole v n P) {c : Content} (hc : v.read n = some c) : P c := by
  obtain ⟨i, hi, rfl⟩ := Option.map_eq_some_iff.mp hc
  exact (h i (hi ▸ v.entry_mem n)).2

namespace PowerLoss

/-- What a name leads to behind the loss, it may have led to before. -/
theorem entry_mem (h : PowerLoss up v v') {i : Nat} (hi : v'.entry n = some i) : some i ∈ v.maybe n := by
  obtain ⟨pick, hpick, hentry⟩ := h.entry
  rw [hentry] at hi
  split at hi
  · exact hi ▸ hpick n
  · cases hi

/-- **A name that is whole stays whole**, through any number of power losses. -/
theorem whole (h : PowerLoss up v v') (hw : Whole v n P) : Whole v' n P := by
  intro i hi
  rw [h.settled, List.mem_singleton] at hi
  obtain ⟨hsynced, hP⟩ := hw i (h.entry_mem hi.symm)
  exact ⟨h.synced i, h.content i hsynced ▸ hP⟩

/-- Where a name is found again, the directories above it are. -/
theorem up_isSome (h : PowerLoss up v v') (hup : ∀ d ∈ up n, ∀ e ∈ up d, e ∈ up n)
    (hn : (v'.entry n).isSome = true) {d : Node} (hd : d ∈ up n) : (v'.entry d).isSome = true := by
  obtain ⟨pick, -, hentry⟩ := h.entry
  rw [hentry] at hn
  split at hn
  · rename_i hall
    have hpick := List.all_eq_true.mp hall
    rw [hentry, if_pos (List.all_eq_true.mpr fun e he => hpick e (hup d hd e he))]
    exact hpick d hd
  · cases hn

/-- Where the parent `d` of a name is found again, the name leads to where it may have led before. -/
theorem mem_maybe (h : PowerLoss up v v') {d : Node} (hup : up n = d :: up d)
    (hd : (v'.entry d).isSome = true) : v'.entry n ∈ v.maybe n := by
  obtain ⟨pick, hpick, hentry⟩ := h.entry
  have hall : (up n).all (fun e => (pick e).isSome) = true := by
    rw [hentry] at hd
    split at hd
    · rename_i habove
      rw [hup, List.all_cons, habove, hd]
      rfl
    · cases hd
  rw [hentry, if_pos hall]
  exact hpick n

/-- **A solid name is found again with its directory**, and the file behind it is of the kind that was asked
for. -/
theorem solid (h : PowerLoss up v v') (hs : Solid v n P) {d : Node} (hup : up n = d :: up d)
    (hd : (v'.entry d).isSome = true) : ∃ c, v'.read n = some c ∧ P c := by
  obtain ⟨i, hi, hsynced, hP⟩ := hs _ (h.mem_maybe hup hd)
  refine ⟨v.content i, ?_, hP⟩
  rw [Volume.read, hi, Option.map_some, h.content i hsynced]

end PowerLoss

/-- Every choice of what the names lead to is a power loss. -/
theorem exists_powerLoss (up : Node → List Node) (v : Volume Node Content) {pick : Node → Option Nat}
    (hpick : ∀ n, pick n ∈ v.maybe n) :
    ∃ v', PowerLoss up v v' ∧
      ∀ n, v'.entry n = if (up n).all (fun d => (pick d).isSome) then pick n else none := by
  let found : Node → Option Nat := fun n => if (up n).all (fun d => (pick d).isSome) then pick n else none
  have hlt : ∀ n i, some i ∈ [found n] → i < v.next := by
    intro n i hi
    rw [List.mem_singleton] at hi
    dsimp only [found] at hi
    split at hi
    · exact v.maybe_lt n i (hi ▸ hpick n)
    · cases hi
  let v' : Volume Node Content :=
    ⟨found, fun n => [found n], v.content, fun _ => true, v.next, fun n => List.mem_singleton_self _, hlt⟩
  exact ⟨v', ⟨⟨pick, hpick, fun _ => rfl⟩, fun _ => rfl, fun _ _ => rfl, fun _ => rfl⟩, fun _ => rfl⟩

/-! ## §3 — what an operation leaves alone. -/

/-- From `v` to `v'` nothing happened to the name `n`, but that more of it may have become durable; so what
was solid or whole still is. -/
structure Keeps (n : Node) (v v' : Volume Node Content) : Prop where
  entry : v'.entry n = v.entry n
  maybe : ∀ o ∈ v'.maybe n, o ∈ v.maybe n
  content : ∀ i, some i ∈ v'.maybe n → v'.content i = v.content i
  synced : ∀ i, some i ∈ v'.maybe n → v.synced i = true → v'.synced i = true

theorem Keeps.refl (n : Node) (v : Volume Node Content) : Keeps n v v :=
  ⟨rfl, fun _ h => h, fun _ _ => rfl, fun _ _ h => h⟩

theorem Keeps.trans {u : Volume Node Content} (h : Keeps n u v) (h' : Keeps n v v') : Keeps n u v' where
  entry := h'.entry.trans h.entry
  maybe := fun o ho => h.maybe o (h'.maybe o ho)
  content := fun i hi => (h'.content i hi).trans (h.content i (h'.maybe _ hi))
  synced := fun i hi hs => h'.synced i hi (h.synced i (h'.maybe _ hi) hs)

theorem Keeps.whole (h : Keeps n v v') (hw : Whole v n P) : Whole v' n P := by
  intro i hi
  obtain ⟨hsynced, hP⟩ := hw i (h.maybe _ hi)
  exact ⟨h.synced i hi hsynced, h.content i hi ▸ hP⟩

theorem Keeps.solid (h : Keeps n v v') (hs : Solid v n P) : Solid v' n P := by
  intro o ho
  obtain ⟨i, rfl, hsynced, hP⟩ := hs o (h.maybe o ho)
  exact ⟨i, rfl, h.synced i ho hsynced, h.content i ho ▸ hP⟩

theorem Keeps.read (h : Keeps n v v') : v'.read n = v.read n := by
  unfold Volume.read
  rw [h.entry]
  cases hi : v.entry n with
  | none => rfl
  | some i => exact congrArg some (h.content i (h.entry.trans hi ▸ v'.entry_mem n))

/-- The name leads to an inode of its own, so what is written to other names does not touch its file. -/
def Own (v : Volume Node Content) (n : Node) : Prop :=
  ∃ i, v.entry n = some i ∧ ∀ m, m ≠ n → some i ∉ v.maybe m

/-- The file behind the name is on the platter with the content `c`; whether the name is, too, is not said. -/
def Durable (v : Volume Node Content) (n : Node) (c : Content) : Prop :=
  ∃ i, v.entry n = some i ∧ v.synced i = true ∧ v.content i = c

variable {m : Node}

theorem keeps_allocate (c : Content) : Keeps n v (v.allocate c) where
  entry := rfl
  maybe := fun _ h => h
  content := fun i hi => Function.update_of_ne (Nat.ne_of_lt (v.maybe_lt n i hi)) ..
  synced := fun i hi hs => (Function.update_of_ne (Nat.ne_of_lt (v.maybe_lt n i hi)) ..).trans hs

theorem keeps_write {c : Content} (hm : Own v m) (h : n ≠ m) : Keeps n v (v.write m c) := by
  obtain ⟨i, hi, hown⟩ := hm
  have hne : ∀ j, some j ∈ v.maybe n → j ≠ i := by
    rintro j hj rfl
    exact hown n h hj
  unfold write
  rw [hi]
  exact ⟨rfl, fun _ ho => ho, fun j hj => Function.update_of_ne (hne j hj) ..,
    fun j hj hs => (Function.update_of_ne (hne j hj) ..).trans hs⟩

theorem keeps_sync : Keeps n v (v.sync m) := by
  unfold sync
  split
  · exact .refl n v
  · refine ⟨rfl, fun _ ho => ho, fun _ _ => rfl, fun j _ hs => ?_⟩
    dsimp only
    rw [Function.update_apply]
    split
    · rfl
    · exact hs

theorem own_write (c : Content) (h : Own v m) : Own (v.write m c) m := by
  obtain ⟨i, hi, hown⟩ := h
  unfold write
  rw [hi]
  exact ⟨i, hi, hown⟩

theorem own_sync (h : Own v m) : Own (v.sync m) m := by
  obtain ⟨i, hi, hown⟩ := h
  unfold sync
  rw [hi]
  exact ⟨i, hi, hown⟩

theorem read_write (c : Content) (h : Own v m) : (v.write m c).read m = some c := by
  obtain ⟨i, hi, -⟩ := h
  unfold write
  rw [hi]
  show (v.entry m).map (Function.update v.content i c) = some c
  rw [hi, Option.map_some, Function.update_self]

theorem durable_sync {c : Content} (h : v.read m = some c) : Durable (v.sync m) m c := by
  obtain ⟨i, hi, hc⟩ := Option.map_eq_some_iff.mp h
  unfold sync
  rw [hi]
  exact ⟨i, hi, Function.update_self .., hc⟩

theorem entry_write (c : Content) : (v.write m c).entry = v.entry := by
  unfold write
  split <;> rfl

theorem maybe_write (c : Content) : (v.write m c).maybe = v.maybe := by
  unfold write
  split <;> rfl

theorem maybe_sync : (v.sync m).maybe = v.maybe := by
  unfold sync
  split <;> rfl

variable [DecidableEq Node]

theorem keeps_link {o : Option Nat} (ho : ∀ i, o = some i → i < v.next) (h : n ≠ m) : Keeps n v (v.link m o ho) where
  entry := Function.update_of_ne h ..
  maybe := by
    intro x hx
    simpa [link, h] using hx
  content := fun _ _ => rfl
  synced := fun _ _ hs => hs

theorem keeps_create (c : Content) (h : n ≠ m) : Keeps n v (v.create m c) :=
  (keeps_allocate c).trans (keeps_link _ h)

theorem keeps_mkdir (c : Content) (h : n ≠ m) : Keeps n v (v.mkdir m c) := by
  unfold mkdir
  split
  · exact keeps_create c h
  · exact .refl n v

theorem keeps_unlink (h : n ≠ m) : Keeps n v (v.unlink m) := keeps_link _ h

theorem keeps_rename {a b : Node} (ha : n ≠ a) (hb : n ≠ b) : Keeps n v (v.rename a b) :=
  (keeps_link _ hb).trans (keeps_unlink ha)

theorem keeps_syncDir {d : Node} : Keeps n v (v.syncDir up d) where
  entry := rfl
  maybe := by
    intro o ho
    simp only [syncDir] at ho
    split at ho
    · rw [List.mem_singleton.mp ho]
      exact v.entry_mem n
    · exact ho
  content := fun _ _ => rfl
  synced := fun _ _ hs => hs

/-! ### what is still possible -/

theorem maybe_subset_link {o : Option Nat} (ho : ∀ i, o = some i → i < v.next) :
    v.maybe n ⊆ (v.link m o ho).maybe n := by
  intro x hx
  by_cases h : n = m
  · subst h
    simp [link, hx]
  · simpa [link, h] using hx

theorem maybe_subset_create (c : Content) : v.maybe n ⊆ (v.create m c).maybe n :=
  maybe_subset_link (v := v.allocate c) _

theorem maybe_subset_mkdir (c : Content) : v.maybe n ⊆ (v.mkdir m c).maybe n := by
  unfold mkdir
  split
  · exact maybe_subset_create c
  · exact fun _ h => h

theorem maybe_subset_unlink : v.maybe n ⊆ (v.unlink m).maybe n :=
  maybe_subset_link (o := none) fun _ h => by cases h

theorem maybe_subset_rename {a b : Node} : v.maybe n ⊆ (v.rename a b).maybe n := by
  intro o ho
  have hlink : o ∈ (v.link b (v.entry a) fun i hi => v.maybe_lt a i (hi ▸ v.entry_mem a)).maybe n :=
    maybe_subset_link _ ho
  exact maybe_subset_unlink hlink

/-- Only the directory of a name settles it: other syncs leave all that it may lead to. -/
theorem maybe_subset_syncDir {d : Node} (hd : (up n).head? ≠ some d) : v.maybe n ⊆ (v.syncDir up d).maybe n := by
  intro o ho
  simpa [syncDir, hd] using ho

/-- `mkdir` leaves what is there, of any name. -/
theorem entry_mkdir_isSome (c : Content) (h : (v.entry n).isSome = true) :
    ((v.mkdir m c).entry n).isSome = true := by
  by_cases hnm : n = m
  · subst hnm
    obtain ⟨i, hi⟩ := Option.isSome_iff_exists.mp h
    unfold mkdir
    rw [hi]
    exact h
  · rw [(keeps_mkdir c hnm).entry]
    exact h

/-! ## §4 — write a file aside, sync it, move it into place. -/

theorem own_create (c : Content) : Own (v.create m c) m := by
  refine ⟨v.next, Function.update_self .., ?_⟩
  intro n hn hmem
  have hmem : some v.next ∈ v.maybe n := (keeps_create c hn).maybe _ hmem
  exact absurd (v.maybe_lt n _ hmem) (Nat.lt_irrefl _)

/-- The one thing a rename adds to the names is that its target may lead to the file that was moved. -/
theorem maybe_rename {a b : Node} (hab : a ≠ b) : (v.rename a b).maybe b = v.entry a :: v.maybe b := by
  have hb : b ≠ a := hab.symm
  simp [rename, unlink, link, hb]

theorem entry_rename {a b : Node} (hab : a ≠ b) : (v.rename a b).entry b = v.entry a := by
  have hb : b ≠ a := hab.symm
  simp [rename, unlink, link, hb]

theorem read_rename {a b : Node} (hab : a ≠ b) : (v.rename a b).read b = v.read a := by
  unfold Volume.read
  rw [entry_rename hab]
  rfl

theorem durable_rename {a b : Node} {c : Content} (hab : a ≠ b) (hd : Durable v a c) :
    Durable (v.rename a b) b c := by
  obtain ⟨i, hi, hsynced, hc⟩ := hd
  exact ⟨i, (entry_rename hab).trans hi, hsynced, hc⟩

/-- **The directory is synced**: the name is its file and nothing else.  This is the one operation that
narrows the choice. -/
theorem maybe_syncDir {d : Node} (hd : (up n).head? = some d) : (v.syncDir up d).maybe n = [v.entry n] := if_pos hd

end Volume

end TradeBroker.Lib
