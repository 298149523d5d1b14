/-
# TradeBroker.Journal.Record — the journal record, its transition rule and its JSON form.

`broker/journal.py`, the parts that touch no file: the state graph (`NEXT_STATE`,
`TERMINAL_STATES`), `JournalRecord`, the validation and the in-place mutation of
`JournalStore.transition`, and the two directions of the JSON form.

A record that the program built is a `JournalRecord`: its fields have their declared types.  A
record that came from `from_json_dict` is a `RawRecord`: the dataclass constructor checks the field
NAMES and the four validations check the transaction id, the state, the schema version and the sign
of the sequence; every other field holds whatever JSON value the file had.  `JournalRecord.raw`
embeds the first into the second, and `fromJsonDict_asJsonDict` is the round trip.

The transition rule is a function and a verdict.  `check` says whether `transition` goes on, and is the
whole of its validation, in the order of the source; `advance` is what it then does to the record object,
with the time as an argument.  That the object is changed in place and written afterwards is the business
of `Journal.Store`.

The raw record is not an idealisation.  A journal that was edited by hand can hold a list where a text
belongs, a fraction for a sequence, or a history of any length; the source looks at four fields and hands
the rest on, and so does `fromJsonDict`.
-/
import TradeBroker.Domain

namespace TradeBroker

open Lib

/-! ## §1 — the state graph. -/

inductive JournalState where
  | idle
  | switchStage1Started
  | switchBCaptured
  | placeholderOnSwitch
  | gbaStageStarted
  | gbaACaptured
  | bCommittedToGba
  | switchStage2Started
  | aCommittedToSwitch
  | complete
  | recoveryRequired
  deriving DecidableEq

namespace JournalState

def value : JournalState → PyStr
  | .idle => "IDLE"
  | .switchStage1Started => "SWITCH_STAGE1_STARTED"
  | .switchBCaptured => "SWITCH_B_CAPTURED"
  | .placeholderOnSwitch => "PLACEHOLDER_ON_SWITCH"
  | .gbaStageStarted => "GBA_STAGE_STARTED"
  | .gbaACaptured => "GBA_A_CAPTURED"
  | .bCommittedToGba => "B_COMMITTED_TO_GBA"
  | .switchStage2Started => "SWITCH_STAGE2_STARTED"
  | .aCommittedToSwitch => "A_COMMITTED_TO_SWITCH"
  | .complete => "COMPLETE"
  | .recoveryRequired => "RECOVERY_REQUIRED"

def all : List JournalState :=
  [.idle, .switchStage1Started, .switchBCaptured, .placeholderOnSwitch, .gbaStageStarted,
   .gbaACaptured, .bCommittedToGba, .switchStage2Started, .aCommittedToSwitch, .complete,
   .recoveryRequired]

/-- `JournalState(text)`: the state of that name, or the `ValueError` of the enumeration, which is `none`
here. -/
def ofValue (text : PyStr) : Option JournalState := all.find? (·.value = text)

theorem ofValue_value (s : JournalState) : ofValue s.value = some s := by
  cases s <;> decide

theorem value_injective : Function.Injective value := by
  intro s s' h
  have hs := ofValue_value s
  rw [h, ofValue_value] at hs
  exact (Option.some.inj hs).symm

@[simp] theorem encodable_value (s : JournalState) : encodable s.value = true := by
  cases s <;> exact encodable_lit _

/-- `TERMINAL_STATES`: a journal in one of these is never moved again. -/
def terminal : JournalState → Bool
  | .complete => true
  | .recoveryRequired => true
  | _ => false

/-- `NEXT_STATE.get(state)`: the one way forward, beside the way into recovery that every open state has. -/
def next : JournalState → Option JournalState
  | .idle => some .switchStage1Started
  | .switchStage1Started => some .switchBCaptured
  | .switchBCaptured => some .placeholderOnSwitch
  | .placeholderOnSwitch => some .gbaStageStarted
  | .gbaStageStarted => some .gbaACaptured
  | .gbaACaptured => some .bCommittedToGba
  | .bCommittedToGba => some .switchStage2Started
  | .switchStage2Started => some .aCommittedToSwitch
  | .aCommittedToSwitch => some .complete
  | .complete => none
  | .recoveryRequired => none

/-- The `NEXT_STATE` chain from `IDLE`, in the order in which a session that succeeds goes through it. -/
def chain : List JournalState :=
  [.idle, .switchStage1Started, .switchBCaptured, .placeholderOnSwitch, .gbaStageStarted,
   .gbaACaptured, .bCommittedToGba, .switchStage2Started, .aCommittedToSwitch, .complete]

end JournalState

/-! ## §2 — the record. -/

structure HistoryEntry where
  sequence : Int
  state : JournalState
  at_ : PyStr
  note : PyStr
  deriving DecidableEq

structure JournalRecord where
  schemaVersion : Int
  transactionId : PyStr
  state : JournalState
  sequence : Int
  createdAt : PyStr
  updatedAt : PyStr
  pokemon : Dict (Option PyStr)
  locations : Dict PyStr
  selectedGbaSlot : Option Int := none
  lastError : Option PyStr := none
  history : List HistoryEntry := []
  deriving DecidableEq

/-- The keyword arguments of `transition` besides the new state; what is `none` was not given, and leaves its
field alone. -/
structure Update where
  note : PyStr
  pokemon : Option (Dict (Option PyStr)) := none
  locations : Option (Dict PyStr) := none
  selectedGbaSlot : Option Int := none
  error : Option PyStr := none

namespace JournalRecord

/-- The record that `create` builds: nothing is known of `A` and `B`, the placeholder is with the broker, and
the history has its first entry. -/
def fresh (txid now : PyStr) (placeholder : Pokemon100) : JournalRecord where
  schemaVersion := 1
  transactionId := txid
  state := .idle
  sequence := 0
  createdAt := now
  updatedAt := now
  pokemon := .ofList [("A", none), ("B", none), ("P", some placeholder.sha256)]
  locations := .ofList [("A", "gba (unobserved)"), ("B", "switch (unobserved)"), ("P", "broker")]
  history := [⟨0, .idle, now, "transaction created"⟩]

/-- The validation loop over `pokemon.items()`: an unknown label is refused, and so is another hash for a
label that has one. -/
def checkHashes (known : Dict (Option PyStr)) : List (PyStr × Option PyStr) → Except Exc Unit
  | [] => .ok ()
  | (key, value) :: rest =>
      match known.get? key with
      | none => .error ⟨.journalError, "unknown Pokémon label " ++ key⟩
      | some previous =>
          if previous.isSome && decide (value ≠ previous) then
            .error ⟨.journalError, "hash for " ++ key ++ " is immutable"⟩
          else checkHashes known rest

/-- `selected_gba_slot is not None and not 0 <= selected_gba_slot <= 5`. -/
def checkSlot : Option Int → Except Exc Unit
  | none => .ok ()
  | some slot =>
      if 0 ≤ slot ∧ slot ≤ 5 then .ok ()
      else .error ⟨.journalError, "GBA selected slot must be 0..5"⟩

/-- Everything `transition` checks before it touches the record, in the order of the source, so that the first
thing wrong is the one that is reported. -/
def check (record : JournalRecord) (newState : JournalState) (u : Update) : Except Exc Unit := do
  let current := record.state
  if newState ≠ .recoveryRequired ∧ current.next ≠ some newState then
    throw ⟨.invalidTransition, "cannot transition " ++ current.value ++ " -> " ++ newState.value⟩
  if current.terminal then
    throw ⟨.invalidTransition, "terminal journal state " ++ current.value ++ " cannot transition"⟩
  checkHashes record.pokemon ((u.pokemon.map Dict.entries).getD [])
  checkSlot u.selectedGbaSlot

/-- The in-place mutation of `transition`, at time `now`: sequence and history go up together, and
`last_error` is replaced even by nothing. -/
def advance (record : JournalRecord) (newState : JournalState) (now : PyStr) (u : Update) :
    JournalRecord :=
  { record with
    sequence := record.sequence + 1
    state := newState
    updatedAt := now
    pokemon := match u.pokemon with
      | some d => record.pokemon.update d
      | none => record.pokemon
    locations := match u.locations with
      | some d => record.locations.update d
      | none => record.locations
    selectedGbaSlot := match u.selectedGbaSlot with
      | some slot => some slot
      | none => record.selectedGbaSlot
    lastError := u.error
    history := record.history ++ [⟨record.sequence + 1, newState, now, u.note⟩] }

@[simp] theorem advance_sequence (record : JournalRecord) (s : JournalState) (now : PyStr)
    (u : Update) : (record.advance s now u).sequence = record.sequence + 1 := rfl

@[simp] theorem advance_state (record : JournalRecord) (s : JournalState) (now : PyStr)
    (u : Update) : (record.advance s now u).state = s := rfl

/-- An accepted update leaves a non-terminal state, along the chain or into recovery. -/
theorem check_ok {record : JournalRecord} {s : JournalState} {u : Update}
    (h : record.check s u = .ok ()) :
    record.state.terminal = false ∧ (s = .recoveryRequired ∨ record.state.next = some s) := by
  unfold check at h
  by_cases h1 : s ≠ .recoveryRequired ∧ record.state.next ≠ some s
  · simp [h1, throw, throwThe, MonadExceptOf.throw, bind, Except.bind] at h
  · by_cases h2 : record.state.terminal = true
    · simp [h1, h2, throw, throwThe, MonadExceptOf.throw, bind, Except.bind] at h
    · refine ⟨by simpa using h2, ?_⟩
      by_contra hc
      rw [not_or] at hc
      exact h1 hc

end JournalRecord

/-! ## §3 — the JSON form. -/

/-- A history entry as `HistoryEntry(**entry)` builds it: the four names, any values. -/
structure RawEntry where
  sequence : Json
  state : Json
  at_ : Json
  note : Json

/-- A record as `from_json_dict` builds it: the transaction id and the state have passed their
check, the unchecked fields hold the JSON value of the file. -/
structure RawRecord where
  schemaVersion : Json
  transactionId : PyStr
  state : JournalState
  sequence : Json
  createdAt : Json
  updatedAt : Json
  pokemon : Json
  locations : Json
  selectedGbaSlot : Json
  lastError : Json
  history : List RawEntry

/-- `asdict(entry)`. -/
def RawEntry.asJson (entry : RawEntry) : Json :=
  .obj [("sequence", entry.sequence), ("state", entry.state), ("at", entry.at_),
    ("note", entry.note)]

/-- `HistoryEntry(**entry)`; `none` is the `TypeError` for a non-mapping, a missing name or a surplus one.
The values are not looked at. -/
def RawEntry.ofJson : Json → Option RawEntry
  | .obj fields =>
      if fields.all fun f => decide (f.1 ∈ [lit "sequence", lit "state", lit "at", lit "note"]) then do
        let sequence ← Json.member fields "sequence"
        let state ← Json.member fields "state"
        let at_ ← Json.member fields "at"
        let note ← Json.member fields "note"
        pure ⟨sequence, state, at_, note⟩
      else none
  | _ => none

/-- `record.as_json_dict()`. -/
def RawRecord.asJsonDict (r : RawRecord) : List (PyStr × Json) :=
  [("schema_version", r.schemaVersion), ("transaction_id", .str r.transactionId),
   ("state", .str r.state.value), ("sequence", r.sequence), ("created_at", r.createdAt),
   ("updated_at", r.updatedAt), ("pokemon", r.pokemon), ("locations", r.locations),
   ("selected_gba_slot", r.selectedGbaSlot), ("last_error", r.lastError),
   ("history", .arr (r.history.map RawEntry.asJson))]

namespace RawRecord

def fieldNames : List PyStr :=
  ["schema_version", "transaction_id", "state", "sequence", "created_at", "updated_at", "pokemon",
   "locations", "selected_gba_slot", "last_error", "history"]

/-- The `JournalError` that wraps a `KeyError`, `TypeError` or `ValueError`; the interpreter's own
wording of the cause is abbreviated. -/
def invalid (cause : String) : Exc := ⟨.journalError, "invalid transaction journal: " ++ lit cause⟩

/-- `[HistoryEntry(**entry) for entry in data.get("history", [])]`.  An empty string and an empty
object are empty iterables; the items of a non-empty one are not mappings. -/
def readHistory (data : List (PyStr × Json)) : Except Exc (List RawEntry) :=
  match Json.member data "history" with
  | none => .ok []
  | some (.arr items) =>
      match items.mapM RawEntry.ofJson with
      | some entries => .ok entries
      | none => .error (invalid "bad history entry")
  | some (.str []) => .ok []
  | some (.obj []) => .ok []
  | some _ => .error (invalid "history is not a list of objects")

/-- `UUID(record.transaction_id)`.  `None` is a `TypeError`; any other value that is not a string
has no `replace`, and the `AttributeError` is not one of the wrapped classes. -/
def readTransactionId : Json → Except Exc PyStr
  | .str s => if uuidParses s then .ok s else .error (invalid "badly formed hexadecimal UUID string")
  | .null => .error (invalid "no UUID given")
  | _ => .error ⟨.attributeError, "object has no attribute 'replace'"⟩

/-- `record.state_enum`. -/
def readState : Json → Except Exc JournalState
  | .str s =>
      match JournalState.ofValue s with
      | some state => .ok state
      | none => .error (invalid "not a valid JournalState")
  | _ => .error (invalid "not a valid JournalState")

/-- `record.schema_version != 1`, with Python's equality of `1`, `True` and `1.0`. -/
def checkSchema : Json → Except Exc Unit
  | .int 1 => .ok ()
  | .bool true => .ok ()
  | .real x => if x == 1.0 then .ok () else .error ⟨.journalError, "unsupported journal schema"⟩
  | _ => .error ⟨.journalError, "unsupported journal schema"⟩

/-- `record.sequence < 0`; a value that does not compare with an integer is a `TypeError`. -/
def checkSequence : Json → Except Exc Unit
  | .int n => if n < 0 then .error ⟨.journalError, "negative journal sequence"⟩ else .ok ()
  | .bool _ => .ok ()
  | .real x => if x < 0.0 then .error ⟨.journalError, "negative journal sequence"⟩ else .ok ()
  | _ => .error (invalid "sequence does not compare with an integer")

/-- `JournalRecord.from_json_dict(data)`: the history first, then the names of the fields, then the four
checks in their order. -/
def fromJsonDict (data : List (PyStr × Json)) : Except Exc RawRecord := do
  let history ← readHistory data
  let field (name : PyStr) : Except Exc Json :=
    match Json.member data name with
    | some v => .ok v
    | none => .error (invalid "missing required argument")
  if data.all fun f => decide (f.1 ∈ fieldNames) then pure ()
  else throw (invalid "unexpected keyword argument")
  let schemaVersion ← field "schema_version"
  let transactionId ← field "transaction_id"
  let state ← field "state"
  let sequence ← field "sequence"
  let createdAt ← field "created_at"
  let updatedAt ← field "updated_at"
  let pokemon ← field "pokemon"
  let locations ← field "locations"
  let selectedGbaSlot := (Json.member data "selected_gba_slot").getD .null
  let lastError := (Json.member data "last_error").getD .null
  let transactionId ← readTransactionId transactionId
  let state ← readState state
  checkSchema schemaVersion
  checkSequence sequence
  pure ⟨schemaVersion, transactionId, state, sequence, createdAt, updatedAt, pokemon, locations,
    selectedGbaSlot, lastError, history⟩

/-- What a record has when the program wrote it, and what a file must have to be read back unchanged. -/
structure Loadable (r : RawRecord) : Prop where
  uuid : uuidParses r.transactionId = true
  schema : r.schemaVersion = .int 1
  sequence : ∃ n : Int, 0 ≤ n ∧ r.sequence = .int n

theorem ofJson_asJson (entry : RawEntry) : RawEntry.ofJson entry.asJson = some entry := rfl

theorem mapM_ofJson (entries : List RawEntry) :
    (entries.map RawEntry.asJson).mapM RawEntry.ofJson = some entries := by
  induction entries with
  | nil => rfl
  | cons e es ih =>
      rw [List.map_cons, List.mapM_cons, ofJson_asJson, ih]
      rfl

theorem readHistory_asJsonDict (r : RawRecord) : readHistory r.asJsonDict = .ok r.history := by
  have hm : Json.member r.asJsonDict "history" = some (.arr (r.history.map RawEntry.asJson)) := rfl
  simp only [readHistory, hm, mapM_ofJson]

/-- Every member of a written document is there, so what is left of the reader are its four checks. -/
theorem fromJsonDict_asJsonDict_eq (r : RawRecord) :
    fromJsonDict r.asJsonDict = (do
      let transactionId ← readTransactionId (.str r.transactionId)
      let state ← readState (.str r.state.value)
      checkSchema r.schemaVersion
      checkSequence r.sequence
      pure { r with transactionId := transactionId, state := state }) := by
  unfold fromJsonDict
  rw [readHistory_asJsonDict]
  rfl

/-- **The round trip**: a loadable record is read back unchanged. -/
theorem fromJsonDict_asJsonDict {r : RawRecord} (h : r.Loadable) :
    fromJsonDict r.asJsonDict = .ok r := by
  obtain ⟨n, hn, hseq⟩ := h.sequence
  have hid : readTransactionId (.str r.transactionId) = .ok r.transactionId := by
    rw [readTransactionId, if_pos h.uuid]
  have hstate : readState (.str r.state.value) = .ok r.state := by
    rw [readState, JournalState.ofValue_value]
  have hschema : checkSchema r.schemaVersion = .ok () := by
    rw [h.schema]
    rfl
  have hsequence : checkSequence r.sequence = .ok () := by
    rw [hseq, checkSequence, if_neg (by omega)]
  rw [fromJsonDict_asJsonDict_eq, hid, hstate, hschema, hsequence]
  rfl

/-- Whatever a written document loads into, it loads into the state that was written. -/
theorem state_of_fromJsonDict {r raw : RawRecord} (h : fromJsonDict r.asJsonDict = .ok raw) :
    raw.state = r.state := by
  have hstate : readState (.str r.state.value) = .ok r.state := by
    rw [readState, JournalState.ofValue_value]
  rw [fromJsonDict_asJsonDict_eq, hstate] at h
  cases h1 : readTransactionId (.str r.transactionId) with
  | error e => simp [h1, bind, Except.bind] at h
  | ok t =>
      cases h2 : checkSchema r.schemaVersion with
      | error e => simp [h1, h2, bind, Except.bind] at h
      | ok u =>
          cases h3 : checkSequence r.sequence with
          | error e => simp [h1, h2, h3, bind, Except.bind] at h
          | ok u' =>
              rw [h1, h2, h3] at h
              have h : Except.ok _ = Except.ok raw := h
              injection h with h
              rw [← h]

end RawRecord

namespace JournalRecord

def rawPokemon (d : Dict (Option PyStr)) : Json :=
  .obj (d.entries.map fun kv => (kv.1, match kv.2 with
    | some h => .str h
    | none => .null))

def rawLocations (d : Dict PyStr) : Json := .obj (d.entries.map fun kv => (kv.1, .str kv.2))

/-- A record the program built, as the record its JSON form loads into. -/
def raw (r : JournalRecord) : RawRecord where
  schemaVersion := .int r.schemaVersion
  transactionId := r.transactionId
  state := r.state
  sequence := .int r.sequence
  createdAt := .str r.createdAt
  updatedAt := .str r.updatedAt
  pokemon := rawPokemon r.pokemon
  locations := rawLocations r.locations
  selectedGbaSlot := match r.selectedGbaSlot with
    | some slot => .int slot
    | none => .null
  lastError := match r.lastError with
    | some e => .str e
    | none => .null
  history := r.history.map fun e => ⟨.int e.sequence, .str e.state.value, .str e.at_, .str e.note⟩

/-- The document that `_write` serialises: the members in the order of the dataclass, which the writer sorts. -/
def document (r : JournalRecord) : Json := .obj r.raw.asJsonDict

end JournalRecord

end TradeBroker
