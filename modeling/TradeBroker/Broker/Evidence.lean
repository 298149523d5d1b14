/-
# TradeBroker.Broker.Evidence — the journal never names a record that is not on disk.

Recovery is manual, so what the operator finds after a crash must be enough: a journal that loads,
and for every hash in it a 100-byte file with that hash.  The order of the writes is what makes it
so: an artifact is installed before the journal that names it, and neither is ever removed.

The invariant is about the disk alone (`Filed`), so it composes over restarts: it holds at every
crash point of every invocation, on whatever disk the invocations before it left, starting from one
without a journal.

The theorem speaks of an operator, so it is stated on what an operator has: `Evidence` loads the journal
and compares it with the artifact files, and mentions neither progress nor trades.  The proof goes through
`Filed`, which the disk keeps from one invocation to the next, also across one that was blocked by the
journal of another.

The digests are those of the real SHA-256.  That two records could share one is not excluded and not
needed: a file that is there has the hash that the journal names.
-/
import TradeBroker.Broker.Safety

namespace TradeBroker

open Lib

-- Programs are compared by running them: keep the bytes of a record out of that.
attribute [local irreducible] Pokemon100.heldItem

/-! ## §1 — what a journal is backed by. -/

/-- The history of a loaded record contains a state. -/
def RawRecord.Mentions (raw : RawRecord) (s : JournalState) : Prop :=
  ∃ e ∈ raw.history, e.state = .str s.value

/-- The file of label `label` with hash `h` exists and has 100 bytes whose digest is `h`, so it is a record
that can be traded back. -/
def OnFile (artifacts : ArtifactPath → Option Bytes) (tx label h : PyStr) : Prop :=
  ∃ bytes, artifacts ⟨tx, label, h⟩ = some bytes ∧ bytes.length = 100 ∧ hex (sha256 bytes) = h

/-- What the journal and the artifacts must say together: the placeholder is there from the start, `B` and `A`
from the state that names them on. -/
structure Backed (raw : RawRecord) (artifacts : ArtifactPath → Option Bytes) : Prop where
  /-- The `pokemon` member has the three labels, each with a hash or `null`. -/
  labels : ∃ hA hB hP : Option PyStr,
    raw.pokemon = JournalRecord.rawPokemon (.ofList [("A", hA), ("B", hB), ("P", hP)])
  files : ∀ label ∈ [lit "A", lit "B", lit "P"], ∀ h, raw.hash? label = some h →
    OnFile artifacts raw.transactionId label h
  hashP : (raw.hash? "P").isSome = true
  hashB : (raw.hash? "B").isSome = true ↔ raw.Mentions .switchBCaptured
  hashA : (raw.hash? "A").isSome = true ↔ raw.Mentions .gbaACaptured
  slot : (∃ n : Int, 0 ≤ n ∧ n ≤ 5 ∧ raw.selectedGbaSlot = .int n) ↔ raw.Mentions .gbaACaptured
  noSlot : ¬ raw.Mentions .gbaACaptured → raw.selectedGbaSlot = .null

/-- The evidence an operator finds: a journal that is there loads, and it is backed by the files it names. -/
def Evidence (journal : JournalStore) (d : Disk) : Prop :=
  ∀ text, d.journal = some text → ∃ raw, text.load journal = .ok raw ∧ Backed raw d.artifacts

/-- The invariant of the disk: the journal is a document that the broker wrote, and it is backed; a disk
without a journal has nothing to back. -/
def Filed (d : Disk) : Prop :=
  ∀ text, d.journal = some text →
    ∃ raw : RawRecord, raw.Loadable ∧ text = .json (.obj raw.asJsonDict) ∧ Backed raw d.artifacts

theorem Filed.evidence {journal : JournalStore} {d : Disk} (h : Filed d) : Evidence journal d := by
  intro text ht
  obtain ⟨raw, hload, rfl, hbacked⟩ := h text ht
  exact ⟨raw, RawRecord.fromJsonDict_asJsonDict hload, hbacked⟩

/-! ## §2 — booked records are backed. -/

/-- Reading a hash off a `pokemon` member with the three labels. -/
theorem onFile_of_shelf {a0 : ArtifactPath → Option Bytes} {tx label : PyStr} {P m : Pokemon100}
    {g : Progress} (h : (label, m) ∈ g.records P) : OnFile (shelf a0 tx P g) tx label m.sha256 :=
  ⟨m.raw, shelf_get h, m.size_eq, rfl⟩

theorem mem_records_of_b? {P b : Pokemon100} {g : Progress} (h : g.b? = some b) :
    (lit "B", b) ∈ g.records P := by
  cases g <;> simp only [Progress.b?, Option.some.injEq, reduceCtorEq] at h <;> subst h <;>
    simp [Progress.records]

theorem mem_records_of_a? {P a : Pokemon100} {g : Progress} (h : g.a? = some a) :
    (lit "A", a) ∈ g.records P := by
  cases g <;> simp only [Progress.a?, Option.some.injEq, reduceCtorEq] at h <;> subst h <;>
    simp [Progress.records]

theorem mem_records_P (P : Pokemon100) (g : Progress) : (lit "P", P) ∈ g.records P := by
  cases g <;> simp [Progress.records]

/-- Settling a trade keeps what is on the shelf. -/
theorem mem_records_settle {P : Pokemon100} {g g' : Progress} {t : Trade}
    (h : g.settle P t.outcome = some g') {lm : PyStr × Pokemon100} (hm : lm ∈ g.records P) :
    lm ∈ g'.records P := by
  obtain ⟨m, hc⟩ := committed_of_settle h
  obtain ⟨_, label, hrec⟩ := settle_records h hc
  rw [hrec]
  exact List.mem_append_left _ hm

/-- The records of the progress are on file, also when the shelf is one trade ahead of the journal. -/
theorem Position.onFile {a0 : ArtifactPath → Option Bytes} {P m : Pokemon100} {g ga : Progress}
    {pend : List Trade} {r : JournalRecord} {w : World} (h : Position a0 P g pend ga r w)
    {label : PyStr} (hm : (label, m) ∈ g.records P) :
    OnFile w.disk.artifacts r.transactionId label m.sha256 := by
  rw [h.shelf_eq]
  rcases h.shelved with rfl | ⟨t, _, hset⟩
  · exact onFile_of_shelf hm
  · exact onFile_of_shelf (mem_records_settle hset hm)

/-- The states of the chain that a progress has behind it. -/
theorem mem_upTo_iff {g : Progress} {s : JournalState} (h : s ∈ g.states) :
    (.switchBCaptured ∈ s.upTo ↔ g.b?.isSome = true) ∧
      (.gbaACaptured ∈ s.upTo ↔ g.a?.isSome = true) := by
  cases g <;> simp only [Progress.states, List.mem_cons, List.not_mem_nil, or_false] at h
  · rcases h with rfl | rfl <;> exact ⟨by decide, by decide⟩
  · rcases h with rfl | rfl | rfl <;>
      simp [JournalState.upTo, JournalState.chain, JournalState.rank, Progress.b?, Progress.a?]
  · rcases h with rfl | rfl | rfl <;>
      simp [JournalState.upTo, JournalState.chain, JournalState.rank, Progress.b?, Progress.a?]
  · rcases h with rfl | rfl <;>
      simp [JournalState.upTo, JournalState.chain, JournalState.rank, Progress.b?, Progress.a?]

/-- The history of a document, in terms of the record it was written from. -/
theorem mentions_raw {r : JournalRecord} {s : JournalState} :
    r.raw.Mentions s ↔ s ∈ r.history.map HistoryEntry.state := by
  constructor
  · intro h
    obtain ⟨e, he, hs⟩ := h
    obtain ⟨entry, hentry, rfl⟩ := List.mem_map.mp he
    have hs : Json.str entry.state.value = Json.str s.value := hs
    injection hs with hs
    exact List.mem_map.mpr ⟨entry, hentry, JournalState.value_injective hs⟩
  · intro h
    obtain ⟨entry, hentry, rfl⟩ := List.mem_map.mp h
    exact ⟨_, List.mem_map.mpr ⟨entry, hentry, rfl⟩, rfl⟩

theorem Position.backed {a0 : ArtifactPath → Option Bytes} {P : Pokemon100} {g ga : Progress}
    {pend : List Trade} {r : JournalRecord} {w : World} (h : Position a0 P g pend ga r w) :
    Backed r.raw w.disk.artifacts := by
  obtain ⟨ts, _, hacc⟩ := h.accounts
  have hb := h.booked
  obtain ⟨hB, hA⟩ := mem_upTo_iff hb.span
  have hslot : g.slot?.isSome = g.a?.isSome := by cases g <;> rfl
  have hraw : r.raw.selectedGbaSlot = (g.slot?.map Json.int).getD .null := by
    cases hs : g.slot? <;> simp only [JournalRecord.raw, hb.slot, hs] <;> rfl
  refine ⟨⟨g.a?.map Pokemon100.sha256, g.b?.map Pokemon100.sha256, some P.sha256, ?_⟩, ?_, ?_, ?_,
    ?_, ?_, ?_⟩
  · show JournalRecord.rawPokemon r.pokemon = _
    rw [hb.pokemon]
    rfl
  · intro label hlabel hash hhash
    simp only [List.mem_cons, List.not_mem_nil, or_false] at hlabel
    rcases hlabel with rfl | rfl | rfl
    · rw [hb.hash_A] at hhash
      obtain ⟨a, ha, rfl⟩ := Option.map_eq_some_iff.mp hhash
      exact h.onFile (mem_records_of_a? ha)
    · rw [hb.hash_B] at hhash
      obtain ⟨b, hb', rfl⟩ := Option.map_eq_some_iff.mp hhash
      exact h.onFile (mem_records_of_b? hb')
    · rw [hb.hash_P] at hhash
      obtain rfl := Option.some.inj hhash
      exact h.onFile (mem_records_P P g)
  · rw [hb.hash_P]
    rfl
  · rw [hb.hash_B, mentions_raw, hb.history, hB, Option.isSome_map]
  · rw [hb.hash_A, mentions_raw, hb.history, hA, Option.isSome_map]
  · rw [mentions_raw, hb.history, hA, ← hslot, hraw]
    cases hs : g.slot? with
    | none => simp
    | some slot =>
        have := hacc.slot_range hs
        simp only [Option.isSome_some, iff_true]
        exact ⟨slot, this.1, this.2, rfl⟩
  · intro hn
    rw [mentions_raw, hb.history, hA, ← hslot] at hn
    rw [hraw]
    cases hs : g.slot? with
    | none => rfl
    | some slot => simp [hs] at hn

/-! ## §3 — closing a journal keeps its backing. -/

/-- A recovery entry mentions no other state. -/
theorem mentions_append {raw raw' : RawRecord} {e : RawEntry} {s : JournalState}
    (hh : raw'.history = raw.history ++ [e])
    (he : e.state = .str JournalState.recoveryRequired.value) (hs : s ≠ .recoveryRequired) :
    raw'.Mentions s ↔ raw.Mentions s := by
  unfold RawRecord.Mentions
  rw [hh]
  constructor
  · intro h
    obtain ⟨e', he', hs'⟩ := h
    rcases List.mem_append.mp he' with he' | he'
    · exact ⟨e', he', hs'⟩
    · obtain rfl : e' = e := by simpa using he'
      rw [he] at hs'
      injection hs' with hs'
      exact absurd (JournalState.value_injective hs').symm hs
  · intro h
    obtain ⟨e', he', hs'⟩ := h
    exact ⟨e', List.mem_append_left _ he', hs'⟩

/-- A record that differs by a recovery entry has the same backing, since closing names no new hash. -/
theorem Backed.close {raw raw' : RawRecord} {artifacts : ArtifactPath → Option Bytes} {e : RawEntry}
    (h : Backed raw artifacts) (hid : raw'.transactionId = raw.transactionId)
    (hp : raw'.pokemon = raw.pokemon) (hslot : raw'.selectedGbaSlot = raw.selectedGbaSlot)
    (hh : raw'.history = raw.history ++ [e])
    (he : e.state = .str JournalState.recoveryRequired.value) : Backed raw' artifacts := by
  have hash : ∀ label, raw'.hash? label = raw.hash? label := by
    intro label
    unfold RawRecord.hash?
    rw [hp]
  have hB := mentions_append hh he (s := .switchBCaptured) (by decide)
  have hA := mentions_append hh he (s := .gbaACaptured) (by decide)
  refine ⟨?_, ?_, ?_, ?_, ?_, ?_, ?_⟩
  · rw [hp]
    exact h.labels
  · intro label hlabel hh' hhash
    rw [hash] at hhash
    rw [hid]
    exact h.files label hlabel hh' hhash
  · rw [hash]
    exact h.hashP
  · rw [hash, hB]
    exact h.hashB
  · rw [hash, hA]
    exact h.hashA
  · rw [hslot, hA]
    exact h.slot
  · rw [hslot, hA]
    exact h.noSlot

/-! ## §4 — every crash point of every history. -/

/-- A fresh transaction files what it writes. -/
theorem Inv.filed {a0 : ArtifactPath → Option Bytes} {P : Pokemon100} {w : World}
    (h : Inv a0 P w) : Filed w.disk := by
  intro text ht
  rcases h with hblank | ⟨g, pend, ga, r, hpos, hjournal⟩
  · rw [hblank.journal] at ht
    exact absurd ht (by simp)
  · have hbacked := hpos.backed
    rcases hjournal with hj | ⟨_, now, error, hj⟩
    · obtain rfl := Option.some.inj (ht.symm.trans hj)
      exact ⟨r.raw, hpos.booked.loadable, rfl, hbacked⟩
    · obtain rfl := Option.some.inj (ht.symm.trans hj)
      refine ⟨(r.recovered now error).raw, hpos.booked.recovered_loadable now error, rfl, ?_⟩
      refine hbacked.close rfl rfl rfl ?_ rfl (e := ⟨.int (r.sequence + 1),
        .str JournalState.recoveryRequired.value, .str now,
        .str "transaction stopped because endpoint outcome may be unsafe or incomplete"⟩)
      show (r.history ++ [_]).map _ = _
      rw [List.map_append]
      rfl

theorem RawRecord.restarted_loadable {raw : RawRecord} (h : raw.Loadable) (now : PyStr) :
    (raw.restarted now).Loadable := by
  obtain ⟨n, hn, hseq⟩ := h.sequence
  refine ⟨h.uuid, h.schema, n + 1, by omega, ?_⟩
  simp only [RawRecord.restarted, RawRecord.recover, hseq]

/-- A blocked invocation leaves the files as they were, and the journal as it was or closed. -/
theorem Kept.filed {journal : JournalStore} {d : Disk} {text : JournalText} {w : World}
    (h : Kept journal d text w) (hd : d.journal = some text) (hfiled : Filed d) : Filed w.disk := by
  obtain ⟨raw, hload, htext, hbacked⟩ := hfiled text hd
  subst htext
  intro text' ht'
  rcases h.journal with hj | ⟨raw', now, hload', _, hj⟩
  · obtain rfl := Option.some.inj (ht'.symm.trans hj)
    rw [h.artifacts]
    exact ⟨raw, hload, rfl, hbacked⟩
  · obtain rfl := Option.some.inj (ht'.symm.trans hj)
    have hsame : RawRecord.fromJsonDict raw.asJsonDict = .ok raw' := hload'
    rw [RawRecord.fromJsonDict_asJsonDict hload] at hsame
    obtain rfl := Except.ok.inj hsame
    rw [h.artifacts]
    exact ⟨raw.restarted now, RawRecord.restarted_loadable hload now, rfl,
      hbacked.close rfl rfl rfl rfl rfl⟩

/-- One invocation, stopped anywhere, keeps the disk filed, whatever it found there. -/
theorem execute_keeps_filed {journal : JournalStore} {d : Disk} (hd : Filed d) {P : Pokemon100}
    {q : Prog Op Ret (Except Exc TransactionOutcome)} {v : World}
    (hr : Prog.Reach Step (TradeCoordinator.execute journal P).run ⟨d, []⟩ q v) :
    Filed v.disk := by
  cases hj : d.journal with
  | none => exact (Act.Sat.reach (TradeCoordinator.execute_sat journal d hj P) hr).inv.filed
  | some text =>
      exact (Act.Sat.reach (TradeCoordinator.execute_blocked_sat journal hj P) hr).inv.filed hj hd

theorem Sessions.filed {journal : JournalStore} {d d' : Disk} {hist : List Invocation}
    (h : Sessions journal d hist d') (hd : Filed d) : Filed d' := by
  induction h with
  | nil d => exact hd
  | cons hr _ ih => exact ih (execute_keeps_filed hd hr)

/-- **Recovery evidence.**  After any history of invocations that began without a journal, at every
point of every further run, a journal that exists loads and is backed by its artifacts. -/
theorem evidence_at_every_point {journal : JournalStore} {d d' : Disk} {hist : List Invocation}
    (hs : Sessions journal d hist d') (hd : d.journal = none) {P : Pokemon100}
    {q : Prog Op Ret (Except Exc TransactionOutcome)} {v : World}
    (hr : Prog.Reach Step (TradeCoordinator.execute journal P).run ⟨d', []⟩ q v) :
    Evidence journal v.disk := by
  have hfiled : Filed d := by
    intro text ht
    rw [hd] at ht
    exact absurd ht (by simp)
  exact (execute_keeps_filed (hs.filed hfiled) hr).evidence

/-- A completed transaction, then a second invocation on its journal. -/
theorem evidence_at_every_point_secondRun :
    Evidence sampleStore secondRun.2.disk ∧ ∃ text, secondRun.2.disk.journal = some text := by
  have hfirst : Sessions sampleStore emptyDisk [⟨sampleMon 0, goodRun.2.trace⟩] goodRun.2.disk :=
    .cons goodRun_finish (.nil _)
  obtain ⟨_, _, _, _, _, _, hj, _⟩ := Act.Sat.finish
    (TradeCoordinator.execute_sat sampleStore emptyDisk rfl (sampleMon 0))
    (goodRun_eval.1 ▸ goodRun_finish)
  have hkept := (Act.Sat.finish
    (TradeCoordinator.execute_blocked_sat sampleStore hj (sampleMon 3)) secondRun_finish).1
  refine ⟨evidence_at_every_point hfirst rfl secondRun_finish, ?_⟩
  rcases hkept.journal with hj | ⟨_, _, _, _, hj⟩
  · exact ⟨_, hj⟩
  · exact ⟨_, hj⟩

end TradeBroker
