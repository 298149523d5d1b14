/-
# TradeBroker.Journal.Content — `JournalStore.load` on arbitrary bytes.

`loadContent` is `load` once the file's bytes have been read: strict UTF-8 with universal newlines,
`json.loads`, the two `except` clauses, `from_json_dict`.  The `JournalText` that the other modules keep on the
disk is what these bytes amount to (`loadContent_eq`).

A corrupt journal is meant to come back as a `JournalError`.  The clauses of `load` name `OSError` and
`JSONDecodeError`, those of `from_json_dict` name `KeyError`, `TypeError` and `ValueError`, and four things get
past them: the `UnicodeDecodeError` of a file that is not UTF-8, the plain `ValueError` of an integer literal
that is too long, the `RecursionError` of a document that nests too deeply, and the `AttributeError` of
`UUID(5)`.  `loadContent_reported_iff` says that there is no fifth.  Nesting is charged to `json.loads` alone:
that the message about a bad state prints a value which `json.loads` could only just read is not counted.

The proof separates shape from values.  `Shaped` says which names a file has, and is decided before any
value is looked at; `validate` are the four checks on the values, in the order of the source.  Of these
only the first can let something through that is no `JournalError`, because `UUID` calls a method of its
argument before it looks at what the argument is.

The limit on nesting is a parameter, as it is for `Lib.JsonText`, and the theorem holds for each value of
it.
-/
import TradeBroker.Lib.Utf8
import TradeBroker.Lib.JsonText
import TradeBroker.Broker.Restart

namespace TradeBroker

open Lib

/-! ## §1 — the bytes. -/

/-- What the bytes of the journal amount to; `none` where `json.loads` gives up on its own limits, which is a
failure of the reader and not of the text. -/
def JournalText.ofContent (limit : Nat) (content : Bytes) : Option JournalText :=
  match fileText content with
  | none => some .notUtf8
  | some text =>
      match loads limit text with
      | .ok doc => some (.json doc)
      | .error .jsonDecodeError => some .notJson
      | .error _ => none

namespace JournalStore

/-- `load()` on a file with these bytes, with the class of what is raised as the source leaves it. -/
def loadContent (self : JournalStore) (limit : Nat) (content : Bytes) : Except Exc RawRecord :=
  match fileText content with
  | none => .error ⟨.unicodeDecodeError, "invalid start byte"⟩
  | some text =>
      match loads limit text with
      | .error .jsonDecodeError =>
          .error ⟨.journalError, "cannot read journal " ++ self.path ++ ": not JSON"⟩
      | .error .valueError =>
          .error ⟨.foreign "ValueError" true,
            "Exceeds the limit (4300 digits) for integer string conversion"⟩
      | .error .recursionError =>
          .error ⟨.foreign "RecursionError" true, "maximum recursion depth exceeded"⟩
      | .ok (.obj data) => RawRecord.fromJsonDict data
      | .ok _ => .error ⟨.journalError, "journal root must be an object"⟩

theorem loadContent_eq {self : JournalStore} {limit : Nat} {content : Bytes} {text : JournalText}
    (h : JournalText.ofContent limit content = some text) :
    self.loadContent limit content = text.load self := by
  unfold JournalText.ofContent at h
  unfold loadContent
  cases ht : fileText content with
  | none =>
      rw [ht] at h
      cases h
      rfl
  | some t =>
      simp only [ht] at h ⊢
      cases hl : loads limit t with
      | ok doc =>
          rw [hl] at h
          cases h
          cases doc <;> rfl
      | error e =>
          rw [hl] at h
          cases e with
          | jsonDecodeError =>
              cases h
              rfl
          | valueError => cases h
          | recursionError => cases h

/-- The program `load` on a disk whose journal has these bytes: it answers what `loadContent` does, or a read
fails.  So what is proved about bytes is proved about the program. -/
theorem load_content_sat (self : JournalStore) {I : World → Prop} {w : World} {limit : Nat} {content : Bytes}
    {text : JournalText} (h : JournalText.ofContent limit content = some text) (hw : w.disk.journal = some text)
    (h0 : I w) (h1 : I (w.faults 1)) :
    Act.Sat Step I self.load w (fun raw v => v = w ∧ self.loadContent limit content = .ok raw)
      (fun e v => v = w.faults 1 ∨ (v = w ∧ self.loadContent limit content = .error e)) := by
  refine (self.load_sat h0 h1).mono (fun _ hv => hv) ?_ ?_
  · rintro raw v _ ⟨rfl, t, ht, hl⟩
    obtain rfl : t = text := Option.some.inj (ht.symm.trans hw)
    exact ⟨rfl, (loadContent_eq h).trans hl⟩
  · rintro e v _ (⟨-, rfl⟩ | ⟨rfl, t, ht, hl⟩)
    · exact Or.inl rfl
    · obtain rfl : t = text := Option.some.inj (ht.symm.trans hw)
      exact Or.inr ⟨rfl, (loadContent_eq h).trans hl⟩

end JournalStore

/-! ## §2 — what a caller may count on. -/

/-- Python's `v == 1`. -/
def isOne : Json → Prop
  | .int n => n = 1
  | .bool b => b = true
  | .real x => (x == 1.0) = true
  | _ => False

/-- A number that is not negative; a boolean is one. -/
def notNegative : Json → Prop
  | .int n => 0 ≤ n
  | .bool _ => True
  | .real x => ¬ x < 0.0
  | _ => False

/-- A record with a UUID, a known state, schema 1 and a sequence from 0 up, or a `JournalError`.  The state is
a `JournalState` by its type, so it needs no clause. -/
def Reported : Except Exc RawRecord → Prop
  | .ok r => uuidParses r.transactionId = true ∧ isOne r.schemaVersion ∧ notNegative r.sequence
  | .error e => e.type = .journalError

/-- Whatever the step raises is a `JournalError`. -/
def JournalOnly {α : Type} (x : Except Exc α) : Prop := ∀ e, x = .error e → e.type = .journalError

theorem JournalOnly.ok {α : Type} (a : α) : JournalOnly (.ok a) := by
  intro e h
  cases h

theorem JournalOnly.error {α : Type} {e : Exc} (h : e.type = .journalError) :
    JournalOnly (.error e : Except Exc α) := by
  intro e' h'
  cases h'
  exact h

/-- A step that raises only `JournalError`s, and what follows it. -/
theorem Reported.bind {α : Type} {x : Except Exc α} {k : α → Except Exc RawRecord} (hx : JournalOnly x)
    (hk : ∀ a, x = .ok a → Reported (k a)) : Reported (x >>= k) := by
  cases x with
  | error e => exact hx e rfl
  | ok a => exact hk a rfl

namespace RawRecord

theorem readState_journalOnly (v : Json) : JournalOnly (readState v) := by
  unfold readState
  split
  · split
    · exact .ok _
    · exact .error rfl
  · exact .error rfl

theorem checkSchema_journalOnly (v : Json) : JournalOnly (checkSchema v) := by
  unfold checkSchema
  split
  · exact .ok ()
  · exact .ok ()
  · split
    · exact .ok ()
    · exact .error rfl
  · exact .error rfl

theorem isOne_of_checkSchema {v : Json} (h : checkSchema v = .ok ()) : isOne v := by
  unfold checkSchema at h
  split at h
  · exact rfl
  · exact rfl
  · split at h
    · assumption
    · cases h
  · cases h

theorem checkSequence_journalOnly (v : Json) : JournalOnly (checkSequence v) := by
  unfold checkSequence
  split
  · split
    · exact .error rfl
    · exact .ok ()
  · exact .ok ()
  · split
    · exact .error rfl
    · exact .ok ()
  · exact .error rfl

theorem notNegative_of_checkSequence {v : Json} (h : checkSequence v = .ok ()) : notNegative v := by
  unfold checkSequence at h
  split at h
  · split at h
    · cases h
    · rename_i hn
      exact Int.not_lt.mp hn
  · trivial
  · split at h
    · cases h
    · assumption
  · cases h

/-- The four validations of `from_json_dict`, on the values of the members and in the order of the source: id,
state, schema, sequence. -/
def validate (id state schema sequence : Json) (build : PyStr → JournalState → RawRecord) :
    Except Exc RawRecord := do
  let transactionId ← readTransactionId id
  let state ← readState state
  checkSchema schema
  checkSequence sequence
  pure (build transactionId state)

/-- The value that `UUID` gets either has a `replace` or is `None`; with any other value its constructor fails
in a way that nobody expects. -/
def isTextOrNull : Json → Prop
  | .str _ => True
  | .null => True
  | _ => False

/-- **The validations** report exactly the ids that are a string or null. -/
theorem validate_reported_iff {id state schema sequence : Json} {build : PyStr → JournalState → RawRecord}
    (hid : ∀ t s, (build t s).transactionId = t) (hschema : ∀ t s, (build t s).schemaVersion = schema)
    (hsequence : ∀ t s, (build t s).sequence = sequence) :
    Reported (validate id state schema sequence build) ↔ isTextOrNull id := by
  have rest : ∀ t, uuidParses t = true → Reported (do
      let state ← readState state
      checkSchema schema
      checkSequence sequence
      pure (build t state)) := by
    intro t ht
    refine .bind (readState_journalOnly state) fun s _ => ?_
    refine .bind (checkSchema_journalOnly schema) fun _ h1 => ?_
    refine .bind (checkSequence_journalOnly sequence) fun _ h2 => ?_
    refine ⟨?_, ?_, ?_⟩
    · rw [hid]
      exact ht
    · rw [hschema]
      exact isOne_of_checkSchema h1
    · rw [hsequence]
      exact notNegative_of_checkSequence h2
  cases id with
  | str t =>
      refine iff_of_true ?_ trivial
      by_cases ht : uuidParses t = true
      · have hread : readTransactionId (.str t) = .ok t := if_pos ht
        rw [validate, hread]
        exact rest t ht
      · have hread : readTransactionId (.str t) = .error (invalid "badly formed hexadecimal UUID string") :=
          if_neg ht
        rw [validate, hread]
        rfl
  | null => exact iff_of_true rfl trivial
  | _ => exact iff_of_false (fun h => ExcType.noConfusion h) (fun h => h)

/-! ## §3 — the shape of a record. -/

theorem member_eq_some {data : List (PyStr × Json)} (h : (data.map Prod.fst).Nodup) {name : PyStr} {v : Json} :
    Json.member data name = some v ↔ (name, v) ∈ data :=
  Dict.get?_eq_some (d := ⟨data, h⟩)

theorem member_eq_none {data : List (PyStr × Json)} {name : PyStr} :
    Json.member data name = none ↔ name ∉ data.map Prod.fst := by
  simp only [Json.member, Option.map_eq_none_iff, List.find?_eq_none, decide_eq_true_eq, List.mem_map,
    not_exists, not_and]

def entryNames : List PyStr := ["sequence", "state", "at", "note"]

/-- The arguments of `HistoryEntry(**entry)`: the four names. -/
def EntryShaped : Json → Prop
  | .obj fields => (∀ f ∈ fields, f.1 ∈ entryNames) ∧ ∀ name ∈ entryNames, name ∈ fields.map Prod.fst
  | _ => False

/-- What the list comprehension over `data.get("history", [])` can go through. -/
def HistoryShaped : Json → Prop
  | .arr items => ∀ e ∈ items, EntryShaped e
  | .str s => s = []
  | .obj fields => fields = []
  | _ => False

/-- The fields without a default. -/
def requiredNames : List PyStr :=
  ["schema_version", "transaction_id", "state", "sequence", "created_at", "updated_at", "pokemon",
   "locations"]

/-- The arguments of the two constructors: no name missing, none in surplus, in the record and in every entry
of its history. -/
structure Shaped (data : List (PyStr × Json)) : Prop where
  history : ∀ v, (lit "history", v) ∈ data → HistoryShaped v
  known : ∀ f ∈ data, f.1 ∈ fieldNames
  required : ∀ name ∈ requiredNames, name ∈ data.map Prod.fst

theorem ofJson_isSome {v : Json} : (RawEntry.ofJson v).isSome = true ↔ EntryShaped v := by
  cases v with
  | obj fields =>
      have present : ∀ name, (Json.member fields name).isSome = true ↔ name ∈ fields.map Prod.fst := by
        intro name
        rw [Option.isSome_iff_ne_none, ne_eq, member_eq_none, not_not]
      have known : (fields.all fun f =>
          decide (f.1 ∈ [lit "sequence", lit "state", lit "at", lit "note"])) = true ↔
            ∀ f ∈ fields, f.1 ∈ entryNames := by
        simp only [List.all_eq_true, decide_eq_true_eq]
        rfl
      by_cases hall : ∀ f ∈ fields, f.1 ∈ entryNames
      · have hnames : EntryShaped (.obj fields) ↔ (Json.member fields "sequence").isSome = true ∧
            (Json.member fields "state").isSome = true ∧ (Json.member fields "at").isSome = true ∧
              (Json.member fields "note").isSome = true := by
          refine (and_iff_right hall).trans ?_
          simp [entryNames, present, -List.mem_map]
        rw [hnames, RawEntry.ofJson, if_pos (known.mpr hall)]
        cases Json.member fields "sequence" <;> cases Json.member fields "state" <;>
          cases Json.member fields "at" <;> cases Json.member fields "note" <;> simp
      · rw [RawEntry.ofJson, if_neg fun h => hall (known.mp h)]
        exact iff_of_false (by simp) fun h => hall h.1
  | _ => exact iff_of_false (by simp [RawEntry.ofJson]) (fun h => h)

theorem mapM_ofJson_isSome {items : List Json} :
    (items.mapM RawEntry.ofJson).isSome = true ↔ ∀ e ∈ items, EntryShaped e := by
  induction items with
  | nil => simp
  | cons e es ih =>
      rw [List.mapM_cons, List.forall_mem_cons, ← ih, ← ofJson_isSome]
      cases RawEntry.ofJson e <;> cases es.mapM RawEntry.ofJson <;> simp

theorem readHistory_journalOnly (data : List (PyStr × Json)) : JournalOnly (readHistory data) := by
  unfold readHistory
  split
  · exact .ok []
  · split
    · exact .ok _
    · exact .error rfl
  · exact .ok []
  · exact .ok []
  · exact .error rfl

theorem readHistory_ok_iff {data : List (PyStr × Json)} (hd : (data.map Prod.fst).Nodup) :
    (∃ history, readHistory data = .ok history) ↔ ∀ v, (lit "history", v) ∈ data → HistoryShaped v := by
  simp only [← member_eq_some hd]
  unfold readHistory
  cases hm : Json.member data (lit "history") with
  | none => simp
  | some v =>
      have only : (∀ v', some v = some v' → HistoryShaped v') ↔ HistoryShaped v := by simp
      rw [only]
      cases v with
      | arr items =>
          rw [HistoryShaped, ← mapM_ofJson_isSome]
          cases hmap : items.mapM RawEntry.ofJson <;> simp [hmap]
      | str s => cases s <;> simp [HistoryShaped]
      | obj fields => cases fields <;> simp [HistoryShaped]
      | _ => simp [HistoryShaped]

/-- One required argument of the record's constructor. -/
def argument (data : List (PyStr × Json)) (name : PyStr) : Except Exc Json :=
  match Json.member data name with
  | some v => .ok v
  | none => .error (invalid "missing required argument")

/-- No argument in surplus. -/
def checkNames (data : List (PyStr × Json)) : Except Exc Unit :=
  if data.all fun f => decide (f.1 ∈ fieldNames) then pure ()
  else throw (invalid "unexpected keyword argument")

theorem argument_journalOnly (data : List (PyStr × Json)) (name : PyStr) :
    JournalOnly (argument data name) := by
  unfold argument
  split
  · exact .ok _
  · exact .error rfl

theorem argument_ok_iff {data : List (PyStr × Json)} {name : PyStr} {v : Json} :
    argument data name = .ok v ↔ Json.member data name = some v := by
  unfold argument
  cases Json.member data name <;> simp

theorem checkNames_journalOnly (data : List (PyStr × Json)) : JournalOnly (checkNames data) := by
  unfold checkNames
  split
  · exact .ok ()
  · exact .error rfl

theorem checkNames_ok_iff {data : List (PyStr × Json)} :
    checkNames data = .ok () ↔ ∀ f ∈ data, f.1 ∈ fieldNames := by
  have known : (data.all fun f => decide (f.1 ∈ fieldNames)) = true ↔ ∀ f ∈ data, f.1 ∈ fieldNames := by
    simp only [List.all_eq_true, decide_eq_true_eq]
  unfold checkNames
  by_cases h : (data.all fun f => decide (f.1 ∈ fieldNames)) = true
  · exact iff_of_true (if_pos h) (known.mp h)
  · rw [if_neg h]
    exact iff_of_false (fun he => by cases he) fun h' => h (known.mpr h')

/-- The constructor calls, then the validations. -/
theorem fromJsonDict_eq (data : List (PyStr × Json)) :
    fromJsonDict data = (do
      let history ← readHistory data
      checkNames data
      let schemaVersion ← argument data "schema_version"
      let transactionId ← argument data "transaction_id"
      let state ← argument data "state"
      let sequence ← argument data "sequence"
      let createdAt ← argument data "created_at"
      let updatedAt ← argument data "updated_at"
      let pokemon ← argument data "pokemon"
      let locations ← argument data "locations"
      validate transactionId state schemaVersion sequence fun t s =>
        ⟨schemaVersion, t, s, sequence, createdAt, updatedAt, pokemon, locations,
          (Json.member data "selected_gba_slot").getD .null, (Json.member data "last_error").getD .null,
          history⟩) := by
  unfold fromJsonDict
  cases readHistory data with
  | error e => rfl
  | ok history =>
      by_cases h : (data.all fun f => decide (f.1 ∈ fieldNames)) = true
      · have hnames : checkNames data = .ok () := if_pos h
        simp only [hnames, bind, Except.bind, if_pos h]
        rfl
      · have hnames : checkNames data = .error (invalid "unexpected keyword argument") := if_neg h
        simp only [hnames, bind, Except.bind, if_neg h]
        rfl

/-- What `UUID` trips over in a record whose arguments are all there. -/
theorem fromJsonDict_reported_iff {data : List (PyStr × Json)} (hd : (data.map Prod.fst).Nodup) :
    Reported (fromJsonDict data) ↔
      (Shaped data → ∀ id, (lit "transaction_id", id) ∈ data → isTextOrNull id) := by
  have present : ∀ {name : PyStr} {v : Json}, Json.member data name = some v → name ∈ data.map Prod.fst := by
    intro name v hv
    by_contra hn
    rw [member_eq_none.mpr hn] at hv
    cases hv
  rw [fromJsonDict_eq]
  constructor
  · intro h hs id hid
    obtain ⟨history, hhistory⟩ := (readHistory_ok_iff hd).mpr hs.history
    have hnames := checkNames_ok_iff.mpr hs.known
    have value : ∀ name ∈ requiredNames, ∃ v, argument data name = .ok v := by
      intro name hname
      obtain ⟨⟨_, v⟩, hv, rfl⟩ := List.mem_map.mp (hs.required name hname)
      exact ⟨v, argument_ok_iff.mpr ((member_eq_some hd).mpr hv)⟩
    have hidArg : argument data "transaction_id" = .ok id := argument_ok_iff.mpr ((member_eq_some hd).mpr hid)
    obtain ⟨schemaVersion, h1⟩ := value "schema_version" (by simp [requiredNames])
    obtain ⟨state, h2⟩ := value "state" (by simp [requiredNames])
    obtain ⟨sequence, h3⟩ := value "sequence" (by simp [requiredNames])
    obtain ⟨createdAt, h4⟩ := value "created_at" (by simp [requiredNames])
    obtain ⟨updatedAt, h5⟩ := value "updated_at" (by simp [requiredNames])
    obtain ⟨pokemon, h6⟩ := value "pokemon" (by simp [requiredNames])
    obtain ⟨locations, h7⟩ := value "locations" (by simp [requiredNames])
    simp only [hhistory, hnames, hidArg, h1, h2, h3, h4, h5, h6, h7, bind, Except.bind] at h
    refine (validate_reported_iff ?_ ?_ ?_).mp h
    all_goals exact fun _ _ => rfl
  · intro h
    refine .bind (readHistory_journalOnly data) fun history hhistory => ?_
    refine .bind (checkNames_journalOnly data) fun _ hnames => ?_
    refine .bind (argument_journalOnly data _) fun schemaVersion h1 => ?_
    refine .bind (argument_journalOnly data _) fun transactionId h2 => ?_
    refine .bind (argument_journalOnly data _) fun state h3 => ?_
    refine .bind (argument_journalOnly data _) fun sequence h4 => ?_
    refine .bind (argument_journalOnly data _) fun createdAt h5 => ?_
    refine .bind (argument_journalOnly data _) fun updatedAt h6 => ?_
    refine .bind (argument_journalOnly data _) fun pokemon h7 => ?_
    refine .bind (argument_journalOnly data _) fun locations h8 => ?_
    rw [argument_ok_iff] at h1 h2 h3 h4 h5 h6 h7 h8
    -- Every constructor argument was there, so the record has the shape.
    have hs : Shaped data := by
      refine ⟨(readHistory_ok_iff hd).mp ⟨history, hhistory⟩, checkNames_ok_iff.mp hnames, ?_⟩
      intro name hname
      simp only [requiredNames, List.mem_cons, List.not_mem_nil, or_false] at hname
      rcases hname with rfl | rfl | rfl | rfl | rfl | rfl | rfl | rfl
      · exact present h1
      · exact present h2
      · exact present h3
      · exact present h4
      · exact present h5
      · exact present h6
      · exact present h7
      · exact present h8
    refine (validate_reported_iff ?_ ?_ ?_).mpr (h hs transactionId ((member_eq_some hd).mp h2))
    all_goals exact fun _ _ => rfl

end RawRecord

/-! ## §4 — every content. -/

/-- The contents that `load` answers as it means to: the text is UTF-8, `json.loads` stays within its limits,
and no record is complete but for an id that is neither a string nor null. -/
def Answerable (limit : Nat) (content : Bytes) : Prop :=
  ∃ text, encodable text = true ∧ utf8 text = content ∧
    loads limit (newlines false text) ≠ .error .valueError ∧
    loads limit (newlines false text) ≠ .error .recursionError ∧
    ∀ data, loads limit (newlines false text) = .ok (.obj data) → RawRecord.Shaped data →
      ∀ id, (lit "transaction_id", id) ∈ data → RawRecord.isTextOrNull id

/-- **A journal of any bytes.**  `load` returns a valid record or raises `JournalError` exactly on the
answerable contents. -/
theorem JournalStore.loadContent_reported_iff (self : JournalStore) (limit : Nat) (content : Bytes) :
    Reported (self.loadContent limit content) ↔ Answerable limit content := by
  unfold loadContent Answerable
  cases hd : decodeUtf8 content with
  | none =>
      rw [fileText, hd]
      refine iff_of_false (fun h => ExcType.noConfusion h) ?_
      rintro ⟨text, he, hu, _⟩
      rw [utf8_iff.mpr ⟨he, hu⟩] at hd
      cases hd
  | some text =>
      obtain ⟨he, hu⟩ := utf8_iff.mp hd
      -- The text is the only one with these bytes.
      have only : ∀ {P : PyStr → Prop}, (∃ t, encodable t = true ∧ utf8 t = content ∧ P t) ↔ P text := by
        intro P
        constructor
        · rintro ⟨t, he', hu', hP⟩
          have ht := utf8_iff.mpr ⟨he', hu'⟩
          obtain rfl : t = text := Option.some.inj (ht.symm.trans hd)
          exact hP
        · exact fun hP => ⟨text, he, hu, hP⟩
      rw [only, fileText, hd, Option.map_some]
      dsimp only
      cases hl : loads limit (newlines false text) with
      | error e =>
          cases e with
          | jsonDecodeError => exact iff_of_true rfl ⟨by simp, by simp, by simp⟩
          | valueError => exact iff_of_false (fun h => ExcType.noConfusion h) (by simp)
          | recursionError => exact iff_of_false (fun h => ExcType.noConfusion h) (by simp)
      | ok doc =>
          cases doc with
          | obj data =>
              have hnodup : (data.map Prod.fst).Nodup := by
                cases loads_distinct hl with
                | obj h _ => exact h
              rw [RawRecord.fromJsonDict_reported_iff hnodup]
              simp
          | _ => exact iff_of_true rfl ⟨by simp, by simp, by simp⟩

/-- The exception has the class `t`. -/
def raises (t : ExcType) : Except Exc RawRecord → Bool
  | .ok _ => false
  | .error e => decide (e.type = t)

theorem not_reported_of_raises {t : ExcType} {r : Except Exc RawRecord} (h : raises t r = true)
    (ht : t ≠ .journalError) : ¬ Reported r := by
  cases r with
  | ok raw => cases h
  | error e =>
      intro he
      exact ht ((of_decide_eq_true h).symm.trans he)

/-- A complete record whose `transaction_id` is the number 5: every name is there, and JSON is perfectly
valid. -/
def numberedJournal : Bytes :=
  utf8 (lit ("\x7b\"schema_version\":1,\"transaction_id\":5,\"state\":\"IDLE\",\"sequence\":0," ++
    "\"created_at\":\"\",\"updated_at\":\"\",\"pokemon\":\x7b\x7d,\"locations\":\x7b\x7d\x7d"))

/-- One byte that starts no character escapes as a `UnicodeDecodeError`, and a number for an id as an
`AttributeError`. -/
theorem corrupt_journal_escapes :
    (raises .unicodeDecodeError (sampleStore.loadContent 1000 [0xFF]) = true ∧
      raises .attributeError (sampleStore.loadContent 1000 numberedJournal) = true) ∧
    ¬ Reported (sampleStore.loadContent 1000 [0xFF]) ∧ ¬ Reported (sampleStore.loadContent 1000 numberedJournal) := by
  have h1 : raises .unicodeDecodeError (sampleStore.loadContent 1000 [0xFF]) = true := rfl
  have h2 : raises .attributeError (sampleStore.loadContent 1000 numberedJournal) = true := by decide +kernel
  exact ⟨⟨h1, h2⟩, not_reported_of_raises h1 (by decide), not_reported_of_raises h2 (by decide)⟩

end TradeBroker
