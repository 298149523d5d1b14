/-
# TradeBroker.Journal.Bytes — the journal file, byte by byte.

`_write` hands `_atomic_bytes` the text of `json.dumps(record.as_json_dict(), indent=2, sort_keys=True,
ensure_ascii=False)`, one new line, in UTF-8.  The other modules keep the document instead of these bytes;
here the bytes are read back.

`loadContent_journalBytes`: what `load` makes of the bytes of a record that the program made is that record.
The one thing that a file does not keep is the order of the locations: a caller may name them in any order,
and they come back sorted.  The three labels of the hashes are in that order anyway.

Three facts about a record make this go through, and each is a lemma of its own.  Its document is plain in
the sense of `Lib.JsonDump`: three levels deep, no float, small integers, no repeated names
(`Made.plain`).  Its members are found by name, so the order in which the writer puts them does not matter
(`fromJsonDict_perm`).  And what sorting changes inside the members is the order of the locations alone
(`sortedLocations`).

The nesting limit of the reader appears as `3 ≤ limit`: a record needs no more, and every interpreter has
more.  How a float prints is a parameter that plays no part, since a record of the program has none.
-/
import TradeBroker.Lib.JsonDump
import TradeBroker.Journal.Content
import TradeBroker.Journal.Reload

namespace TradeBroker

open Lib

/-! ## §1 — the records that fit. -/

namespace JournalRecord

/-- A record that was made is in order, whatever calls made it. -/
theorem Made.kept {record : JournalRecord} (h : record.Made) : record.Kept ∧ record.Traced := by
  induction h with
  | created txid now P => exact ⟨fresh_kept txid.str now P, fresh_traced txid.str now P⟩
  | advanced now _ hc ih => exact ⟨ih.1.advance ih.2 hc now, ih.2.advance hc now⟩

/-- The chain is finite, and so is a history: ten states and at most one more that closes it. -/
theorem Made.length_history {record : JournalRecord} (h : record.Made) : record.history.length ≤ 11 := by
  obtain ⟨states, -, hprefix, htrail⟩ := h.kept.1.chained
  have hstates : states.length ≤ 10 := hprefix.length_le
  have hlen : record.history.length = record.trail.length := (List.length_map _).symm
  rcases htrail with htrail | htrail
  · rw [hlen, htrail]
    omega
  · rw [hlen, htrail, List.length_append]
    exact Nat.succ_le_succ hstates

/-- A number of a record has few digits, so it is read back as an integer. -/
theorem plain_int (n : Nat) {i : Int} (h : i.natAbs < 100) : (Json.int i).Plain n := by
  refine .int n ?_
  have hdigits : ∀ m, m < 100 → (JsonDump.decimal m).length ≤ JsonText.maxStrDigits := by
    intro m hm
    unfold JsonDump.decimal
    split
    · decide
    · rw [List.length_map, List.length_reverse]
      have htwo : (Nat.digits 10 m).length ≤ 2 := (Nat.digits_length_le_iff (by decide) _).mpr hm
      exact htwo.trans (by decide)
  exact hdigits _ h

theorem plain_rawPokemon (d : Dict (Option PyStr)) : (rawPokemon d).Plain 2 := by
  refine .obj ?_ ?_
  · rw [List.map_map]
    exact d.nodup
  · intro f hf
    obtain ⟨⟨k, v⟩, _, rfl⟩ := List.mem_map.mp hf
    cases v with
    | none => exact .null 1
    | some h => exact .str 1 h

theorem plain_rawLocations (d : Dict PyStr) : (rawLocations d).Plain 2 := by
  refine .obj ?_ ?_
  · rw [List.map_map]
    exact d.nodup
  · intro f hf
    obtain ⟨⟨k, v⟩, _, rfl⟩ := List.mem_map.mp hf
    exact .str 1 v

theorem asJson_names : ([lit "sequence", lit "state", lit "at", lit "note"] : List PyStr).Nodup := by
  decide

/-- **The document of a record** is three levels deep, and what it holds can be written and read: the object,
the list of its history, and the entries of that list. -/
theorem Made.plain {record : JournalRecord} (h : record.Made) : record.document.Plain 3 := by
  obtain ⟨hkept, -⟩ := h.kept
  have hlen := h.length_history
  have hseq := hkept.sequence
  have hhistory : ∀ e ∈ record.history, e.sequence.natAbs < 100 := by
    intro e he
    obtain ⟨i, hi, rfl⟩ := List.getElem_of_mem he
    have := hkept.numbered i _ (List.getElem?_eq_getElem hi)
    omega
  obtain ⟨-, hschema, -⟩ := h.loadable
  have hone : record.schemaVersion = 1 := Json.int.inj hschema
  refine .obj ?_ ?_
  · show RawRecord.fieldNames.Nodup
    decide
  · intro f hf
    simp only [raw, RawRecord.asJsonDict, List.mem_cons, List.not_mem_nil, or_false] at hf
    rcases hf with rfl | rfl | rfl | rfl | rfl | rfl | rfl | rfl | rfl | rfl | rfl
    · exact plain_int 2 (by rw [hone]; decide)
    · exact .str 2 _
    · exact .str 2 _
    · exact plain_int 2 (by omega)
    · exact .str 2 _
    · exact .str 2 _
    · exact plain_rawPokemon _
    · exact plain_rawLocations _
    · cases hslot : record.selectedGbaSlot with
      | none => exact .null 2
      | some slot =>
          have hrange := hkept.slot slot hslot
          exact plain_int 2 (by omega)
    · cases record.lastError with
      | none => exact .null 2
      | some e => exact .str 2 e
    · refine .arr fun v hv => ?_
      simp only [List.map_map, List.mem_map, Function.comp_apply] at hv
      obtain ⟨e, he, rfl⟩ := hv
      refine .obj asJson_names fun f hf => ?_
      simp only [List.mem_cons, List.not_mem_nil, or_false] at hf
      rcases hf with rfl | rfl | rfl | rfl
      · exact plain_int 0 (hhistory e he)
      · exact .str 0 _
      · exact .str 0 _
      · exact .str 0 _

end JournalRecord

/-! ## §2 — the order of the members. -/

namespace RawRecord

variable {data data' : List (PyStr × Json)}

theorem member_perm (hperm : data.Perm data') (hnodup : (data.map Prod.fst).Nodup) (name : PyStr) :
    Json.member data name = Json.member data' name := by
  have hnodup' : (data'.map Prod.fst).Nodup := (hperm.map Prod.fst).nodup_iff.mp hnodup
  refine Option.ext fun v => ?_
  rw [member_eq_some hnodup, member_eq_some hnodup', hperm.mem_iff]

/-- A dictionary is read by its names, not by its order; no name may occur twice, which a parsed object
guarantees. -/
theorem fromJsonDict_perm (hperm : data.Perm data') (hnodup : (data.map Prod.fst).Nodup) :
    fromJsonDict data = fromJsonDict data' := by
  have hmember := member_perm hperm hnodup
  have hhistory : readHistory data = readHistory data' := by simp only [readHistory, hmember]
  have hnames : checkNames data = checkNames data' := by simp only [checkNames, hperm.all_eq]
  have hargument : ∀ name, argument data name = argument data' name := by
    intro name
    simp only [argument, hmember]
  simp only [fromJsonDict_eq, hhistory, hnames, hargument, hmember]

end RawRecord

namespace JournalRecord

/-- The locations in the order in which they are written. -/
def sortedLocations (d : Dict PyStr) : Dict PyStr where
  entries := d.entries.insertionSort fun f g => textLe f.1 g.1 = true
  nodup := ((List.perm_insertionSort _ d.entries).map Prod.fst).nodup_iff.mpr d.nodup

/-- Sorting the locations moves no Pokémon: every label has the location it had. -/
theorem get?_sortedLocations (d : Dict PyStr) (k : PyStr) : (sortedLocations d).get? k = d.get? k := by
  refine Option.ext fun v => ?_
  rw [Dict.get?_eq_some, Dict.get?_eq_some]
  exact (List.perm_insertionSort _ d.entries).mem_iff

theorem sorted_rawLocations (d : Dict PyStr) : (rawLocations d).sorted = rawLocations (sortedLocations d) := by
  have hfields : Json.sortedFields (d.entries.map fun kv => (kv.1, Json.str kv.2)) =
      d.entries.map fun kv => (kv.1, Json.str kv.2) := by
    rw [sortedFields_eq, List.map_map]
    rfl
  have hsort := List.map_insertionSort (fun f g : PyStr × PyStr => textLe f.1 g.1 = true)
    (fun f g : PyStr × Json => textLe f.1 g.1 = true) (fun kv => (kv.1, Json.str kv.2)) d.entries
    fun _ _ _ _ => Iff.rfl
  rw [rawLocations, Json.sorted, hfields, sortMembers, ← hsort]
  rfl

/-- A dictionary with the three labels, value by value. -/
theorem entries_of_keys {V : Type} {d : Dict V} (h : d.keys = [lit "A", lit "B", lit "P"]) :
    ∃ a b p, d.entries = [(lit "A", a), (lit "B", b), (lit "P", p)] := by
  unfold Dict.keys at h
  match hentries : d.entries, h with
  | [(_, a), (_, b), (_, p)], h =>
      simp only [List.map_cons, List.map_nil, List.cons.injEq] at h
      obtain ⟨rfl, rfl, rfl, -⟩ := h
      exact ⟨a, b, p, rfl⟩

/-- The three labels are in order, so sorting them changes nothing. -/
theorem sortedLocations_eq {d : Dict PyStr} (h : d.keys = [lit "A", lit "B", lit "P"]) : sortedLocations d = d := by
  obtain ⟨a, b, p, hentries⟩ := entries_of_keys h
  refine Dict.ext_entries ?_
  show d.entries.insertionSort _ = _
  rw [hentries]
  rfl

theorem sorted_rawPokemon {d : Dict (Option PyStr)} (h : d.keys = [lit "A", lit "B", lit "P"]) :
    (rawPokemon d).sorted = rawPokemon d := by
  obtain ⟨a, b, p, hentries⟩ := entries_of_keys h
  rw [rawPokemon, hentries]
  cases a <;> cases b <;> cases p <;> rfl

/-- The record as its file gives it back: every field as it was, and the locations sorted by label. -/
def reread (r : JournalRecord) : RawRecord := { r.raw with locations := rawLocations (sortedLocations r.locations) }

theorem reread_eq {r : JournalRecord} (h : r.locations.keys = [lit "A", lit "B", lit "P"]) : r.reread = r.raw := by
  rw [reread, sortedLocations_eq h]
  rfl

theorem ofJson_sorted (e : HistoryEntry) :
    RawEntry.ofJson (RawEntry.asJson ⟨.int e.sequence, .str e.state.value, .str e.at_, .str e.note⟩).sorted =
      some ⟨.int e.sequence, .str e.state.value, .str e.at_, .str e.note⟩ := rfl

theorem mapM_ofJson_sorted (history : List HistoryEntry) :
    (Json.sortedItems ((history.map fun e => (⟨.int e.sequence, .str e.state.value, .str e.at_, .str e.note⟩ :
        RawEntry)).map RawEntry.asJson)).mapM RawEntry.ofJson =
      some (history.map fun e => ⟨.int e.sequence, .str e.state.value, .str e.at_, .str e.note⟩) := by
  induction history with
  | nil => rfl
  | cons e es ih =>
      rw [List.map_cons, List.map_cons, Json.sortedItems, List.mapM_cons, ofJson_sorted, ih]
      rfl

/-- The dictionary of a record, for any value of its history. -/
def dictWith (r : RawRecord) (history : Json) : List (PyStr × Json) :=
  [("schema_version", r.schemaVersion), ("transaction_id", .str r.transactionId),
   ("state", .str r.state.value), ("sequence", r.sequence), ("created_at", r.createdAt),
   ("updated_at", r.updatedAt), ("pokemon", r.pokemon), ("locations", r.locations),
   ("selected_gba_slot", r.selectedGbaSlot), ("last_error", r.lastError), ("history", history)]

theorem fromJsonDict_history {r : RawRecord} {a b : Json}
    (h : RawRecord.readHistory (dictWith r a) = RawRecord.readHistory (dictWith r b)) :
    RawRecord.fromJsonDict (dictWith r a) = RawRecord.fromJsonDict (dictWith r b) := by
  rw [RawRecord.fromJsonDict_eq, RawRecord.fromJsonDict_eq, h]
  rfl

theorem Made.loadable_reread {record : JournalRecord} (h : record.Made) : record.reread.Loadable :=
  ⟨h.loadable.uuid, h.loadable.schema, h.loadable.sequence⟩

/-- **Sorting the members** of a written document: it still loads into the record, up to the order of the
locations. -/
theorem Made.load_sorted {record : JournalRecord} (h : record.Made) :
    ∃ data, record.document.sorted = .obj data ∧ RawRecord.fromJsonDict data = .ok record.reread := by
  refine ⟨_, rfl, ?_⟩
  have hnodup : (record.raw.asJsonDict.map Prod.fst).Nodup := by
    show RawRecord.fieldNames.Nodup
    decide
  have hnames := (sorted_names_perm record.raw.asJsonDict).nodup_iff.mpr hnodup
  -- value by value: only the locations and the entries of the history are reordered
  have hvalues : (record.raw.asJsonDict.map fun f => (f.1, f.2.sorted)) =
      dictWith record.reread (.arr (Json.sortedItems (record.raw.history.map RawEntry.asJson))) := by
    have hpokemon : record.raw.pokemon.sorted = record.raw.pokemon := sorted_rawPokemon h.kept.1.labels
    have hlocations : record.raw.locations.sorted = record.reread.locations := sorted_rawLocations record.locations
    have hslot : record.raw.selectedGbaSlot.sorted = record.raw.selectedGbaSlot := by
      unfold raw
      cases record.selectedGbaSlot <;> rfl
    have herror : record.raw.lastError.sorted = record.raw.lastError := by
      unfold raw
      cases record.lastError <;> rfl
    simp only [RawRecord.asJsonDict, List.map_cons, List.map_nil, hpokemon, hlocations, hslot, herror]
    rfl
  have hhistory : RawRecord.readHistory
      (dictWith record.reread (.arr (Json.sortedItems (record.raw.history.map RawEntry.asJson)))) =
        .ok record.raw.history := by
    have hm : Json.member (dictWith record.reread
        (.arr (Json.sortedItems (record.raw.history.map RawEntry.asJson)))) "history" =
          some (.arr (Json.sortedItems (record.raw.history.map RawEntry.asJson))) := rfl
    have hall : (Json.sortedItems (record.raw.history.map RawEntry.asJson)).mapM RawEntry.ofJson =
        some record.raw.history := mapM_ofJson_sorted record.history
    simp only [RawRecord.readHistory, hm, hall]
  rw [RawRecord.fromJsonDict_perm (sorted_fields_perm record.raw.asJsonDict) hnames, hvalues,
    fromJsonDict_history (b := .arr (record.reread.history.map RawEntry.asJson))
      (hhistory.trans (RawRecord.readHistory_asJsonDict record.reread).symm)]
  exact RawRecord.fromJsonDict_asJsonDict h.loadable_reread

/-- The bytes that `_write` hands to `_atomic_bytes`: the dump of the record, in UTF-8. -/
def journalBytes (floatRepr : Float → PyStr) (r : JournalRecord) : Bytes := dumpBytes floatRepr r.document

/-- What the bytes amount to, for a reader that allows three open containers. -/
theorem Made.ofContent {record : JournalRecord} (h : record.Made) (henc : record.document.encodable = true)
    (floatRepr : Float → PyStr) {limit : Nat} (hlimit : 3 ≤ limit) :
    JournalText.ofContent limit (record.journalBytes floatRepr) = some (.json record.document.sorted) := by
  have hplain : record.document.Plain limit := h.plain.mono hlimit
  rw [JournalText.ofContent, journalBytes, fileText_dumpBytes floatRepr hplain henc]
  simp only [loads_dumps floatRepr hplain]

/-- **The bytes of a record load into the record**: decoded, parsed and checked as any other file would be. -/
theorem Made.loadContent {record : JournalRecord} (h : record.Made) (henc : record.document.encodable = true)
    (floatRepr : Float → PyStr) {limit : Nat} (hlimit : 3 ≤ limit) (self : JournalStore) :
    self.loadContent limit (record.journalBytes floatRepr) = .ok record.reread := by
  obtain ⟨data, hdata, hload⟩ := h.load_sorted
  rw [JournalStore.loadContent_eq (h.ofContent henc floatRepr hlimit), hdata]
  exact hload

end JournalRecord

/-! ## §3 — every file there can be. -/

/-- **The journal survives its file.**  Whatever calls of the store led to the file, and wherever they were
stopped, its bytes are UTF-8 without a `\r`, `json.loads` takes them, and `load` returns the record that was
written, with its locations sorted by label. -/
theorem journal_bytes_load {journal : JournalStore} {held : Option JournalRecord} {d : Disk}
    (h : Reachable journal held d) {text : JournalText} (hd : d.journal = some text) (floatRepr : Float → PyStr)
    {limit : Nat} (hlimit : 3 ≤ limit) :
    ∃ r : JournalRecord, text = .json r.document ∧
      fileText (r.journalBytes floatRepr) = some (dumps floatRepr r.document ++ "\n") ∧
      journal.loadContent limit (r.journalBytes floatRepr) =
        .ok { r.raw with locations := JournalRecord.rawLocations (JournalRecord.sortedLocations r.locations) } ∧
      ∀ label, (JournalRecord.sortedLocations r.locations).get? label = r.locations.get? label := by
  obtain ⟨r, hmade, henc, rfl⟩ := h.onFile.1 text hd
  exact ⟨r, rfl, fileText_dumpBytes floatRepr hmade.plain henc, hmade.loadContent henc floatRepr hlimit journal,
    JournalRecord.get?_sortedLocations r.locations⟩

/-- The file of a session that has captured `A` and `B`. -/
theorem journal_bytes_load_captured :
    ∃ r : JournalRecord, captured.2.journal = some (.json r.document) ∧
      sampleStore.loadContent 3 (r.journalBytes fun _ => []) =
        .ok { r.raw with locations := JournalRecord.rawLocations (JournalRecord.sortedLocations r.locations) } := by
  obtain ⟨r, hfile, -, hload, -⟩ :=
    journal_bytes_load captured_reachable captured_onFile (fun _ => []) (Nat.le_refl 3)
  exact ⟨r, captured_onFile.trans (congrArg some hfile), hload⟩

end TradeBroker
