/-
# TradeBroker.Journal.History — what holds of a record over its whole life.

A record is made by `create` and then handed to `transition` again and again, with whatever states,
labels, hashes, locations and slots the callers choose.  `Lifetime` is such a life on a file system
that works: the calls that were made, and the record and the disk they ended with.

The record itself is always in order (`Lifetime.wellKept`): it is numbered without a gap, its history is
a prefix of the chain that `RECOVERY_REQUIRED` may close, it is closed for good by a terminal state,
its three labels stay and so does every hash that was written once.

That a call which raises leaves record and file alone is another matter.  The checks run before
anything is touched, but the text of the update is only encoded by `_write`, after the mutation: a
location or a note with a lone surrogate raises there, and the caller's record is already the new one.
`history_kept_iff` says that this is the only way to break the rule.

The life is that of the record object, so the calls are chained by the object and not by the file: a call
that raises after the mutation is followed by calls on the mutated record.  What the calls ask for is
unrestricted, and a file system that fails is excluded, because a failed write breaks the rule in its own
way (`Journal.Atomicity`).

`Kept` is the invariant of one record, `Traced` the shape of its history; `Kept.advance` and
`Traced.advance` are their step lemmas, and `Lifetime.wellKept` is the induction over the life.
-/
import TradeBroker.Journal.Atomicity

namespace TradeBroker

open Lib

/-! ## §1 — the record between two calls. -/

namespace JournalRecord

/-- The states of the history, oldest first. -/
def trail (record : JournalRecord) : List JournalState := record.history.map HistoryEntry.state

/-- A record that is in order: numbered without a gap, with its three labels, a slot in range and a history
that ends in its state. -/
structure Kept (record : JournalRecord) : Prop where
  sequence : record.sequence = (record.history.length : Int) - 1
  numbered : ∀ (i : Nat) (entry : HistoryEntry), record.history[i]? = some entry →
    entry.sequence = (i : Int)
  current : record.trail.getLast? = some record.state
  chained : ∃ states, states ≠ [] ∧ states <+: JournalState.chain ∧
    (record.trail = states ∨ record.trail = states ++ [.recoveryRequired])
  labels : record.pokemon.keys = [lit "A", lit "B", lit "P"]
  slot : ∀ slot, record.selectedGbaSlot = some slot → 0 ≤ slot ∧ slot ≤ 5

/-- The history, from the state: the chain up to it, or the chain up to an open state that was then closed for
recovery. -/
def Traced (record : JournalRecord) : Prop :=
  (record.state ≠ .recoveryRequired ∧ record.trail = record.state.upTo) ∨
    (record.state = .recoveryRequired ∧
      ∃ s : JournalState, s.terminal = false ∧ record.trail = s.upTo ++ [.recoveryRequired])

theorem trail_advance (record : JournalRecord) (s : JournalState) (now : PyStr) (u : Update) :
    (record.advance s now u).trail = record.trail ++ [s] := by
  show (record.history ++ [_]).map HistoryEntry.state = _
  rw [List.map_append]
  rfl

theorem upTo_ne_nil (s : JournalState) : s.upTo ≠ [] := by
  cases s <;> simp [JournalState.upTo, JournalState.chain]

theorem Traced.chained {record : JournalRecord} (h : record.Traced) :
    ∃ states, states ≠ [] ∧ states <+: JournalState.chain ∧
      (record.trail = states ∨ record.trail = states ++ [.recoveryRequired]) := by
  rcases h with ⟨_, htrail⟩ | ⟨_, s, _, htrail⟩
  · exact ⟨_, upTo_ne_nil _, List.take_prefix _ _, Or.inl htrail⟩
  · exact ⟨_, upTo_ne_nil _, List.take_prefix _ _, Or.inr htrail⟩

/-- Nothing follows a terminal state, so an accepted state extends the chain or closes it. -/
theorem Traced.advance {record : JournalRecord} {s : JournalState} {u : Update}
    (h : record.Traced) (hc : record.check s u = .ok ()) (now : PyStr) :
    (record.advance s now u).Traced := by
  obtain ⟨hopen, hnext⟩ := check_ok hc
  have hstate : record.state ≠ .recoveryRequired := by
    intro hrec
    rw [hrec] at hopen
    exact absurd hopen (by decide)
  have htrail : record.trail = record.state.upTo := by
    rcases h with ⟨_, htrail⟩ | ⟨hrec, _⟩
    · exact htrail
    · exact absurd hrec hstate
  rcases hnext with rfl | hnext
  · refine Or.inr ⟨rfl, record.state, hopen, ?_⟩
    rw [trail_advance, htrail]
  · refine Or.inl ⟨?_, ?_⟩
    · show s ≠ .recoveryRequired
      rintro rfl
      revert hnext
      cases record.state <;> simp [JournalState.next]
    · rw [trail_advance, htrail]
      exact (JournalState.upTo_next hnext).symm

/-! ## §2 — what the checks promise. -/

/-- Every label of an accepted update is known, and its hash is new or the one on record; this is all that the
loop checks. -/
theorem checkHashes_ok {known : Dict (Option PyStr)} {entries : List (PyStr × Option PyStr)}
    (h : checkHashes known entries = .ok ()) :
    ∀ kv ∈ entries, ∃ previous, known.get? kv.1 = some previous ∧
      (previous = none ∨ kv.2 = previous) := by
  induction entries with
  | nil => simp
  | cons e rest ih =>
      obtain ⟨key, value⟩ := e
      unfold checkHashes at h
      cases hget : known.get? key with
      | none => simp [hget] at h
      | some previous =>
          simp only [hget] at h
          split at h
          · exact absurd h (by simp)
          · rename_i hsame
            intro kv hkv
            rcases List.mem_cons.mp hkv with rfl | hkv
            · refine ⟨previous, hget, ?_⟩
              cases previous with
              | none => exact Or.inl rfl
              | some hash => exact Or.inr (by simpa using hsame)
            · exact ih h kv hkv

theorem checkSlot_ok {slot : Int} (h : checkSlot (some slot) = .ok ()) : 0 ≤ slot ∧ slot ≤ 5 := by
  by_contra hout
  rw [checkSlot, if_neg hout] at h
  exact absurd h (by simp)

/-- The two checks on the data of an accepted update. -/
theorem check_data {record : JournalRecord} {s : JournalState} {u : Update}
    (h : record.check s u = .ok ()) :
    checkHashes record.pokemon ((u.pokemon.map Dict.entries).getD []) = .ok () ∧
      checkSlot u.selectedGbaSlot = .ok () := by
  obtain ⟨hopen, hnext⟩ := check_ok h
  have hgraph : ¬ (s ≠ .recoveryRequired ∧ record.state.next ≠ some s) := by tauto
  unfold check at h
  simp only [hgraph, if_false, hopen, Bool.false_eq_true] at h
  change (checkHashes record.pokemon ((u.pokemon.map Dict.entries).getD []) >>= fun _ =>
    checkSlot u.selectedGbaSlot) = .ok () at h
  cases hh : checkHashes record.pokemon ((u.pokemon.map Dict.entries).getD []) with
  | error e => simp [hh, bind, Except.bind] at h
  | ok a =>
      rw [hh] at h
      exact ⟨rfl, h⟩

/-- The hashes after an accepted update, label by label. -/
theorem get?_advance_pokemon (record : JournalRecord) (s : JournalState) (now : PyStr) (u : Update)
    (k : PyStr) :
    (record.advance s now u).pokemon.get? k =
      (u.pokemon.bind (Dict.get? · k)).or (record.pokemon.get? k) := by
  simp only [advance]
  cases u.pokemon with
  | none => rfl
  | some d => exact Dict.get?_update _ _ _

theorem get?_advance_locations (record : JournalRecord) (s : JournalState) (now : PyStr)
    (u : Update) (k : PyStr) :
    (record.advance s now u).locations.get? k =
      (u.locations.bind (Dict.get? · k)).or (record.locations.get? k) := by
  simp only [advance]
  cases u.locations with
  | none => rfl
  | some d => exact Dict.get?_update _ _ _

/-- A hash that is on record stays: an accepted update either leaves its label alone or names the same hash. -/
theorem hash_advance {record : JournalRecord} {s : JournalState} {u : Update}
    (hc : record.check s u = .ok ()) (now : PyStr) {k hash : PyStr}
    (h : record.pokemon.get? k = some (some hash)) :
    (record.advance s now u).pokemon.get? k = some (some hash) := by
  rw [get?_advance_pokemon, h]
  cases hu : u.pokemon.bind (Dict.get? · k) with
  | none => rfl
  | some value =>
      obtain ⟨d, hd, hk⟩ := Option.bind_eq_some_iff.mp hu
      have hchecked := (check_data hc).1
      rw [hd] at hchecked
      obtain ⟨previous, hprev, hsame⟩ := checkHashes_ok hchecked _ (Dict.get?_eq_some.mp hk)
      rw [h] at hprev
      obtain rfl := Option.some.inj hprev
      rcases hsame with hnone | hsame
      · exact absurd hnone (by simp)
      · simp only [Option.some_or, Option.some.injEq]
        exact hsame

theorem labels_advance {record : JournalRecord} {s : JournalState} {u : Update}
    (hc : record.check s u = .ok ()) (now : PyStr) :
    (record.advance s now u).pokemon.keys = record.pokemon.keys := by
  have hchecked := (check_data hc).1
  simp only [advance]
  cases hu : u.pokemon with
  | none => rfl
  | some d =>
      rw [hu] at hchecked
      refine Dict.keys_update_of_subset ?_
      intro k hk
      obtain ⟨kv, hkv, rfl⟩ := List.mem_map.mp hk
      obtain ⟨previous, hprev, _⟩ := checkHashes_ok hchecked kv hkv
      exact List.mem_map.mpr ⟨_, Dict.get?_eq_some.mp hprev, rfl⟩

/-- **One accepted call.** It leaves a record in order in order, whatever the update says besides. -/
theorem Kept.advance {record : JournalRecord} {s : JournalState} {u : Update} (h : record.Kept)
    (ht : record.Traced) (hc : record.check s u = .ok ()) (now : PyStr) :
    (record.advance s now u).Kept where
  sequence := by
    have hlen : (record.advance s now u).history.length = record.history.length + 1 := by
      simp [JournalRecord.advance]
    rw [hlen, advance_sequence, h.sequence]
    omega
  numbered := by
    intro i entry hi
    have hi : (record.history ++ [⟨record.sequence + 1, s, now, u.note⟩])[i]? = some entry := hi
    rcases Nat.lt_trichotomy i record.history.length with hlt | heq | hgt
    · rw [List.getElem?_append_left hlt] at hi
      exact h.numbered i entry hi
    · subst heq
      simp only [List.getElem?_concat_length, Option.some.injEq] at hi
      subst hi
      show record.sequence + 1 = _
      rw [h.sequence]
      omega
    · rw [List.getElem?_eq_none (by simp; omega)] at hi
      exact absurd hi (by simp)
  current := by
    rw [trail_advance, List.getLast?_concat]
    rfl
  chained := (ht.advance hc now).chained
  labels := (labels_advance hc now).trans h.labels
  slot := by
    intro slot hslot
    have hchecked := (check_data hc).2
    simp only [JournalRecord.advance] at hslot
    cases hu : u.selectedGbaSlot with
    | none =>
        rw [hu] at hslot
        exact h.slot slot hslot
    | some given =>
        rw [hu] at hslot hchecked
        obtain rfl := Option.some.inj hslot
        exact checkSlot_ok hchecked

/-- The record of `create` is in order. -/
theorem fresh_kept (txid now : PyStr) (P : Pokemon100) : (fresh txid now P).Kept where
  sequence := rfl
  numbered := by
    intro i entry hi
    match i with
    | 0 =>
        obtain rfl := Option.some.inj hi
        rfl
    | i + 1 => exact absurd hi (by simp [fresh])
  current := rfl
  chained := ⟨[.idle], by simp, by decide, Or.inl rfl⟩
  labels := rfl
  slot := by
    intro slot hslot
    exact absurd hslot (by simp [fresh])

theorem fresh_traced (txid now : PyStr) (P : Pokemon100) : (fresh txid now P).Traced :=
  Or.inl ⟨by simp [fresh], rfl⟩

end JournalRecord

/-! ## §3 — the texts of a record. -/

theorem encodableFields_dict {V : Type} (f : V → Json) (d : Dict V) :
    Json.encodableFields (d.entries.map fun kv => (kv.1, f kv.2)) = true ↔
      ∀ k v, d.get? k = some v → encodable k = true ∧ (f v).encodable = true := by
  have hentries : ∀ entries : List (PyStr × V),
      Json.encodableFields (entries.map fun kv => (kv.1, f kv.2)) = true ↔
        ∀ kv ∈ entries, encodable kv.1 = true ∧ (f kv.2).encodable = true := by
    intro entries
    induction entries with
    | nil => simp [Json.encodableFields]
    | cons e rest ih =>
        simp only [List.map_cons, Json.encodableFields, Bool.and_eq_true, ih, List.forall_mem_cons,
          and_assoc]
  rw [hentries]
  constructor
  · intro h k v hk
    exact h _ (Dict.get?_eq_some.mp hk)
  · intro h kv hkv
    exact h kv.1 kv.2 (Dict.get?_eq_some.mpr hkv)

theorem rawPokemon_encodable (d : Dict (Option PyStr)) :
    (JournalRecord.rawPokemon d).encodable = true ↔
      ∀ k hash, d.get? k = some hash → encodable k = true ∧ hash.all encodable = true := by
  have hfields := encodableFields_dict (fun hash : Option PyStr => hash.elim .null Json.str) d
  have hraw : JournalRecord.rawPokemon d =
      .obj (d.entries.map fun kv => (kv.1, kv.2.elim .null Json.str)) := by
    refine congrArg Json.obj (List.map_congr_left ?_)
    rintro ⟨k, hash⟩ _
    cases hash <;> rfl
  rw [hraw]
  refine Iff.trans hfields (forall₃_congr ?_)
  intro k hash _
  cases hash <;> rfl

theorem rawLocations_encodable (d : Dict PyStr) :
    (JournalRecord.rawLocations d).encodable = true ↔
      ∀ k place, d.get? k = some place → encodable k = true ∧ encodable place = true :=
  encodableFields_dict Json.str d

/-- Every text of the arguments of a call survives `.encode("utf-8")`: the note, the hashes, the locations
with their labels, and the error. -/
structure Update.Encodable (u : Update) : Prop where
  note : encodable u.note = true
  pokemon : ∀ d, u.pokemon = some d → ∀ k hash, d.get? k = some hash →
    encodable k = true ∧ hash.all encodable = true
  locations : ∀ d, u.locations = some d → ∀ k place, d.get? k = some place →
    encodable k = true ∧ encodable place = true
  error : ∀ e, u.error = some e → encodable e = true

/-- Texts that were fit to be written stay so under arguments that are. -/
theorem encodes_of_encodable {record : JournalRecord} {s : JournalState} {u : Update}
    (hr : record.Texts) (hu : u.Encodable) : Encodes record s u = true := by
  refine (JournalRecord.encodable_document_iff _).mpr (hr.advance rfl hu.note hu.error ?_ ?_)
  · rw [rawPokemon_encodable]
    intro k hash hk
    rw [JournalRecord.get?_advance_pokemon, Option.or_eq_some_iff] at hk
    rcases hk with hk | ⟨_, hk⟩
    · obtain ⟨d, hd, hk⟩ := Option.bind_eq_some_iff.mp hk
      exact hu.pokemon d hd k hash hk
    · exact (rawPokemon_encodable _).mp hr.pokemon k hash hk
  · rw [rawLocations_encodable]
    intro k place hk
    rw [JournalRecord.get?_advance_locations, Option.or_eq_some_iff] at hk
    rcases hk with hk | ⟨_, hk⟩
    · obtain ⟨d, hd, hk⟩ := Option.bind_eq_some_iff.mp hk
      exact hu.locations d hd k place hk
    · exact (rawLocations_encodable _).mp hr.locations k place hk

/-- Every argument ends up in the document, so one that does not encode spoils it. -/
theorem encodable_of_encodes {record : JournalRecord} {s : JournalState} {u : Update}
    (h : Encodes record s u = true) : u.Encodable := by
  have h : (record.advance s [] u).Texts := (JournalRecord.encodable_document_iff _).mp h
  refine ⟨?_, ?_, ?_, h.lastError⟩
  · exact (h.history ⟨record.sequence + 1, s, [], u.note⟩ (List.mem_append_right _ (by simp))).2
  · intro d hd k hash hk
    refine (rawPokemon_encodable _).mp h.pokemon k hash ?_
    rw [JournalRecord.get?_advance_pokemon, hd, Option.bind_some, hk, Option.some_or]
  · intro d hd k place hk
    refine (rawLocations_encodable _).mp h.locations k place ?_
    rw [JournalRecord.get?_advance_locations, hd, Option.bind_some, hk, Option.some_or]

/-! ## §4 — the life of a record. -/

/-- One call of `transition`: the caller's record and the disk before it, the arguments, the answer, and
record and disk afterwards.  Nothing here says that the answer is the right one; `Lifetime` does. -/
structure TransitionCall where
  record : JournalRecord
  disk : Disk
  newState : JournalState
  update : Update
  answer : Except Exc Unit
  record' : JournalRecord
  disk' : Disk

namespace TransitionCall

/-- The call raised, for whatever reason and at whatever step. -/
def Rejected (c : TransitionCall) : Prop := ∃ e, c.answer = .error e

/-- The arguments pass the checks that `transition` makes before it touches anything. -/
def Checked (c : TransitionCall) : Prop := c.record.check c.newState c.update = .ok ()

end TransitionCall

/-- The calls made on a record since `create` returned it, with no I/O failure, and the record and
the disk now. -/
inductive Lifetime (journal : JournalStore) : List TransitionCall → JournalRecord → Disk → Prop
  | created {P : Pokemon100} {d : Disk} {record : JournalRecord} {v : World} :
      Prog.Finish Step (journal.create P).run ⟨d, []⟩ (.ok record) v → .ioError ∉ v.trace →
      Lifetime journal [] record v.disk
  | called {calls : List TransitionCall} {c : TransitionCall} {trace : List Event} :
      Lifetime journal calls c.record c.disk →
      Prog.Finish Step (journal.transition c.record c.newState c.update) ⟨c.disk, []⟩
        (c.answer, c.record') ⟨c.disk', trace⟩ →
      .ioError ∉ trace → Lifetime journal (calls ++ [c]) c.record' c.disk'

/-- The next call of a life, from the run of `transition` that it is. -/
theorem Lifetime.extend {journal : JournalStore} {calls : List TransitionCall}
    {record : JournalRecord} {d : Disk} {s : JournalState} {u : Update}
    {ended : Except Exc Unit × JournalRecord} {v : World} (h : Lifetime journal calls record d)
    (hf : Prog.Finish Step (journal.transition record s u) ⟨d, []⟩ ended v)
    (hio : .ioError ∉ v.trace) :
    Lifetime journal (calls ++ [⟨record, d, s, u, ended.1, ended.2, v.disk⟩]) ended.2 v.disk :=
  .called (c := ⟨record, d, s, u, ended.1, ended.2, v.disk⟩) h hf hio

/-- `create` returns a fresh record, and only after it has written it, so the texts of that record encode. -/
theorem create_returns {journal : JournalStore} {P : Pokemon100} {w v : World}
    {record : JournalRecord} (hf : Prog.Finish Step (journal.create P).run w (.ok record) v) :
    ∃ txid now, record = JournalRecord.fresh txid now P ∧ record.Texts := by
  have hsat : Act.Sat Step (fun _ => True) (journal.create P) w (fun record _ =>
      ∃ txid now, record = JournalRecord.fresh txid now P ∧ record.document.encodable = true)
      (fun _ _ => True) := by
    have hquiet {α : Type} (x : Broker α) (w : World) :
        Act.Sat Step (fun _ => True) x w (fun _ _ => True) (fun _ _ => True) :=
      Act.Avoids.sat (J := fun _ => True) (Act.avoids_none x) (fun _ _ _ _ _ _ _ => trivial)
        (fun _ _ => trivial) trivial
    unfold JournalStore.create
    refine Act.Sat.bind (hquiet _ _) ?_
    intro present v _ _
    cases present with
    | true =>
        -- A journal is there: `create` raises, whatever it loads.
        refine Act.Sat.bind (hquiet _ _) ?_
        intro old v _ _
        exact Act.Sat.throw trivial trivial
    | false =>
        refine Act.Sat.bind (hquiet _ _) ?_
        intro now v _ _
        refine Act.Sat.bind (hquiet _ _) ?_
        intro txid v _ _
        refine Act.Sat.bind (hquiet _ _) ?_
        intro _ v _ _
        refine Act.Sat.bind ((JournalStore.write_sat journal (fun _ => trivial)
          (fun _ => trivial)).mono (fun _ h => h) (fun _ _ _ h => h) (fun _ _ _ _ => trivial)) ?_
        intro _ v _ hwritten
        exact Act.Sat.pure trivial ⟨Uuid.str txid, now, rfl, hwritten.1⟩
  obtain ⟨_, txid, now, hrecord, henc⟩ := Act.Sat.finish hsat hf
  exact ⟨txid, now, hrecord, record.encodable_document_iff.mp henc⟩

/-- **What one call does**, on a file system that works.  Refused by the checks, it does nothing;
otherwise the record is the new one, and it returns exactly when its texts encode. -/
theorem call_cases {journal : JournalStore} {c : TransitionCall} {trace : List Event}
    (hf : Prog.Finish Step (journal.transition c.record c.newState c.update) ⟨c.disk, []⟩
      (c.answer, c.record') ⟨c.disk', trace⟩) (hio : .ioError ∉ trace) :
    (¬ c.Checked ∧ c.Rejected ∧ c.record' = c.record ∧ c.disk' = c.disk) ∨
      (c.Checked ∧ (∃ now, encodable now = true ∧
          c.record' = c.record.advance c.newState now c.update) ∧
        (c.Rejected ↔ Encodes c.record c.newState c.update = false)) := by
  cases hc : c.record.check c.newState c.update with
  | error e =>
      refine Or.inl ⟨by simp [TransitionCall.Checked, hc], ?_⟩
      unfold JournalStore.transition at hf
      rw [hc] at hf
      generalize hans : (c.answer, c.record') = ended at hf
      generalize hend : (⟨c.disk', trace⟩ : World) = v at hf
      cases hf with
      | refl =>
          obtain ⟨hans, hrec⟩ := Prod.mk.inj hans
          exact ⟨⟨e, hans⟩, hrec, congrArg World.disk hend⟩
  | ok a =>
      refine Or.inr ⟨hc, ?_⟩
      obtain ⟨now, hnow, hrec, hend⟩ := transition_finish hc hf
      refine ⟨⟨now, hnow, hrec⟩, ?_⟩
      rcases hend with ⟨hans, henc, _, _⟩ | ⟨hraised, hbad⟩
      · constructor
        · rintro ⟨e, he⟩
          rw [hans] at he
          exact absurd he (by simp)
        · intro hnot
          rw [henc] at hnot
          exact absurd hnot (by simp)
      · exact ⟨fun _ => hbad.resolve_right hio, fun _ => hraised⟩

/-- **What one call keeps**, accepted or not. -/
theorem call_keeps {journal : JournalStore} {c : TransitionCall} {trace : List Event}
    (hf : Prog.Finish Step (journal.transition c.record c.newState c.update) ⟨c.disk, []⟩
      (c.answer, c.record') ⟨c.disk', trace⟩) (hio : .ioError ∉ trace)
    (hk : c.record.Kept) (ht : c.record.Traced) :
    c.record'.Kept ∧ c.record'.Traced ∧
      (c.record.state.terminal = true → c.Rejected ∧ c.record' = c.record) ∧
      (∀ k hash, c.record.pokemon.get? k = some (some hash) →
        c.record'.pokemon.get? k = some (some hash)) := by
  rcases call_cases hf hio with ⟨_, hrej, hrec, _⟩ | ⟨hc, ⟨now, _, hrec⟩, _⟩
  · rw [hrec]
    exact ⟨hk, ht, fun _ => ⟨hrej, rfl⟩, fun _ _ h => h⟩
  · rw [hrec]
    refine ⟨hk.advance ht hc now, ht.advance hc now, ?_, ?_⟩
    · intro hterminal
      rw [(JournalRecord.check_ok hc).1] at hterminal
      exact absurd hterminal (by simp)
    · intro k hash h
      exact JournalRecord.hash_advance hc now h

/-! ## §5 — the rules a life keeps. -/

/-- The record is in order before and after every call, a terminal state is final, and a hash that was written
once stays for good. -/
structure WellKept (calls : List TransitionCall) (record : JournalRecord) : Prop where
  kept : record.Kept ∧ ∀ c ∈ calls, c.record.Kept ∧ c.record'.Kept
  closed : ∀ c ∈ calls, c.record.state.terminal = true → c.Rejected ∧ c.record' = c.record
  hashes : ∀ c ∈ calls, ∀ k hash, c.record.pokemon.get? k = some (some hash) →
    c.record'.pokemon.get? k = some (some hash) ∧ record.pokemon.get? k = some (some hash)

/-- All that callers may rely on: besides, a call that raises leaves record and file alone, so that it can be
tried again. -/
structure HistoryKept (calls : List TransitionCall) (record : JournalRecord) : Prop
    extends WellKept calls record where
  rejected : ∀ c ∈ calls, c.Rejected → c.record' = c.record ∧ c.disk'.journal = c.disk.journal

/-- **The record is always in order**, whatever the callers ask for. -/
theorem Lifetime.wellKept {journal : JournalStore} {calls : List TransitionCall}
    {record : JournalRecord} {d : Disk} (h : Lifetime journal calls record d) :
    WellKept calls record ∧ record.Traced := by
  induction h with
  | created hf _ =>
      obtain ⟨txid, now, rfl, _⟩ := create_returns hf
      refine ⟨⟨⟨JournalRecord.fresh_kept _ _ _, ?_⟩, ?_, ?_⟩, JournalRecord.fresh_traced _ _ _⟩
      · simp
      · simp
      · simp
  | @called calls c trace _ hf hio ih =>
      obtain ⟨ho, ht⟩ := ih
      obtain ⟨hk', ht', hclosed, hhash⟩ := call_keeps hf hio ho.kept.1 ht
      refine ⟨⟨⟨hk', ?_⟩, ?_, ?_⟩, ht'⟩
      · rw [List.forall_mem_append, List.forall_mem_singleton]
        exact ⟨ho.kept.2, ho.kept.1, hk'⟩
      · rw [List.forall_mem_append, List.forall_mem_singleton]
        exact ⟨ho.closed, hclosed⟩
      · rw [List.forall_mem_append, List.forall_mem_singleton]
        refine ⟨?_, fun k hash h => ⟨hhash k hash h, hhash k hash h⟩⟩
        -- The hash of an older call is still there, and this call keeps it.
        intro c' hc' k hash h
        obtain ⟨hafter, hnow⟩ := ho.hashes c' hc' k hash h
        exact ⟨hafter, hhash k hash hnow⟩

/-- While every call that passes the checks has texts that encode, so has the record; then a call
raises only when the checks refuse it. -/
theorem Lifetime.refused {journal : JournalStore} {calls : List TransitionCall}
    {record : JournalRecord} {d : Disk} (h : Lifetime journal calls record d)
    (hu : ∀ c ∈ calls, c.Checked → c.update.Encodable) :
    record.Texts ∧
      ∀ c ∈ calls, c.Rejected → c.record' = c.record ∧ c.disk'.journal = c.disk.journal := by
  induction h with
  | created hf _ =>
      obtain ⟨_, _, _, henc⟩ := create_returns hf
      exact ⟨henc, by simp⟩
  | @called calls c trace _ hf hio ih =>
      obtain ⟨henc, hrej⟩ := ih fun c' hc' => hu c' (List.mem_append_left _ hc')
      have hlast : c.record'.Texts ∧
          (c.Rejected → c.record' = c.record ∧ c.disk'.journal = c.disk.journal) := by
        rcases call_cases hf hio with ⟨_, _, hrec, hdisk⟩ | ⟨hc, ⟨now, hnow, hrec⟩, hiff⟩
        · rw [hrec, hdisk]
          exact ⟨henc, fun _ => ⟨rfl, rfl⟩⟩
        · have hfit : Encodes c.record c.newState c.update = true :=
            encodes_of_encodable henc (hu c (by simp) hc)
          refine ⟨?_, ?_⟩
          · rw [hrec, ← JournalRecord.encodable_document_iff]
            exact (encodable_advance hnow).trans hfit
          · intro hraised
            rw [hiff.mp hraised] at hfit
            exact absurd hfit (by simp)
      refine ⟨hlast.1, ?_⟩
      rw [List.forall_mem_append, List.forall_mem_singleton]
      exact ⟨hrej, hlast.2⟩

/-- Each call of a life was made on a file system that works. -/
theorem Lifetime.call {journal : JournalStore} {calls : List TransitionCall}
    {record : JournalRecord} {d : Disk} (h : Lifetime journal calls record d) :
    ∀ c ∈ calls, ∃ trace, .ioError ∉ trace ∧
      Prog.Finish Step (journal.transition c.record c.newState c.update) ⟨c.disk, []⟩
        (c.answer, c.record') ⟨c.disk', trace⟩ := by
  induction h with
  | created _ _ => simp
  | @called calls c trace _ hf hio ih =>
      rw [List.forall_mem_append, List.forall_mem_singleton]
      exact ⟨ih, trace, hio, hf⟩

/-- **The history of a record.**  For every life of a record, with any calls on a file system that
works: all the rules are kept exactly when every call that passes the checks has arguments whose
texts encode. -/
theorem history_kept_iff {journal : JournalStore} {calls : List TransitionCall}
    {record : JournalRecord} {d : Disk} (h : Lifetime journal calls record d) :
    HistoryKept calls record ↔ ∀ c ∈ calls, c.Checked → c.update.Encodable := by
  constructor
  · intro hkept c hmem hc
    obtain ⟨trace, hio, hf⟩ := h.call c hmem
    rcases call_cases hf hio with ⟨hnot, _⟩ | ⟨_, ⟨now, _, hrec⟩, hiff⟩
    · exact absurd hc hnot
    · by_contra hu
      have hraised : c.Rejected := by
        rw [hiff, Bool.eq_false_iff]
        intro henc
        exact hu (encodable_of_encodes henc)
      -- The record moved on although the call raised.
      have hsame := (hkept.rejected c hmem hraised).1
      rw [hrec] at hsame
      exact advance_ne _ _ _ _ hsame
  · intro hu
    exact { h.wellKept.1 with rejected := (h.refused hu).2 }

/-! ## §6 — a raise that leaves the record changed. -/

/-- `create` in the scripted world. -/
def createdRun : Except Exc JournalRecord × World :=
  Prog.run (Script.exchange (sampleMon 2) (sampleMon 1) (sampleMon 0)).answer
    (sampleStore.create (sampleMon 0)).run ⟨emptyDisk, []⟩

theorem createdRun_eval :
    createdRun.1 = .ok sampleRecord ∧ createdRun.2.trace.all Event.tame = true := by
  decide +kernel

theorem created_lifetime : Lifetime sampleStore [] sampleRecord createdRun.2.disk := by
  have hf : Prog.Finish Step (sampleStore.create (sampleMon 0)).run ⟨emptyDisk, []⟩ createdRun.1
      createdRun.2 := Prog.run_finish (Script.answer_step _) _ _
  rw [createdRun_eval.1] at hf
  exact .created hf (tame_of_all createdRun_eval.2).1

/-- The first call on the new record, in the scripted world. -/
def playedRun (u : Update) : (Except Exc Unit × JournalRecord) × World :=
  Prog.run (Script.exchange (sampleMon 2) (sampleMon 1) (sampleMon 0)).answer
    (sampleStore.transition sampleRecord .switchStage1Started u) ⟨createdRun.2.disk, []⟩

def playedCall (u : Update) : TransitionCall :=
  ⟨sampleRecord, createdRun.2.disk, .switchStage1Started, u, (playedRun u).1.1, (playedRun u).1.2,
    (playedRun u).2.disk⟩

theorem played_lifetime (u : Update) (h : (playedRun u).2.trace.all Event.tame = true) :
    Lifetime sampleStore [playedCall u] (playedCall u).record' (playedCall u).disk' := by
  have hf : Prog.Finish Step (sampleStore.transition sampleRecord .switchStage1Started u)
      ⟨createdRun.2.disk, []⟩ (playedRun u).1 (playedRun u).2 :=
    Prog.run_finish (Script.answer_step _) _ _
  exact created_lifetime.extend hf (tame_of_all h).1

/-- The location of `B` is a lone surrogate: text that came out of `surrogateescape`. -/
def surrogateUpdate : Update :=
  { note := "start", locations := some (.ofList [("B", [⟨0xD800, by decide⟩])]) }

/-- **A raise that changes the record.**  The update passes every check, the record is advanced,
and only then the text turns out not to encode: `transition` raises and the file is the old one. -/
theorem surrogate_breaks_history :
    Lifetime sampleStore [playedCall surrogateUpdate] (playedCall surrogateUpdate).record'
        (playedCall surrogateUpdate).disk' ∧
      (playedCall surrogateUpdate).Rejected ∧
      (playedCall surrogateUpdate).record'.sequence = 1 ∧
      (playedCall surrogateUpdate).record.sequence = 0 ∧
      ¬ HistoryKept [playedCall surrogateUpdate] (playedCall surrogateUpdate).record' := by
  obtain ⟨htame, hanswer, hafter⟩ : (playedRun surrogateUpdate).2.trace.all Event.tame = true ∧
      (playedCall surrogateUpdate).answer = .error ⟨.unicodeEncodeError, "surrogates not allowed"⟩ ∧
      (playedCall surrogateUpdate).record'.sequence = 1 := by
    decide +kernel
  have hbefore : (playedCall surrogateUpdate).record.sequence = 0 := rfl
  refine ⟨played_lifetime _ htame, ⟨_, hanswer⟩, hafter, hbefore, ?_⟩
  intro hkept
  have hsame := (hkept.rejected _ (by simp) ⟨_, hanswer⟩).1
  rw [hsame, hbefore] at hafter
  exact absurd hafter (by decide)

/-- The rules are kept by a life whose one call moves `B`. -/
theorem history_kept_iff_moved :
    HistoryKept [playedCall { note := "start", locations := some (.ofList [("B", "broker")]) }]
      (playedCall { note := "start", locations := some (.ofList [("B", "broker")]) }).record' := by
  refine (history_kept_iff (played_lifetime _ (by decide +kernel))).mpr ?_
  intro c hc _
  obtain rfl := List.mem_singleton.mp hc
  refine ⟨encodable_lit _, by simp [playedCall], ?_, by simp [playedCall]⟩
  intro d hd k place hk
  obtain rfl := Option.some.inj hd
  have hk := Dict.get?_eq_some.mp hk
  obtain ⟨rfl, rfl⟩ := Prod.mk.inj (List.mem_singleton.mp hk)
  exact ⟨encodable_lit _, encodable_lit _⟩

end TradeBroker
