/-
# TradeBroker.Broker.PowerLoss — what holds on the platter while a transaction runs.

`execute` on a drive with caches (`Journal.Drive`), stopped anywhere.  `Dependable` is the invariant: every file
that the name of the journal may lead to behind a power loss is the whole document of a record that the program
made; its state says how many trades were asked for, and it names what was offered in each; every trade was asked
for when the journal that announces it was on the platter; and as long as the power has not failed (`ev`), every
hash of every such record is vouched for by an artifact.

One specification for each function of the store and of the coordinator, up to `execute_power_sat`.  What follows
from it is in `Broker.Outage`.

The invariant has to hold of files that nobody may ever see again, since any of them can be the one that a
power loss brings back.  That is why it speaks of `maybe` and not of `entry`, and why a write has to
establish it for the new file before the rename and for the old one until the directory is synced.

Two assertions say where the program stands.  `InHand` is what the caller of the store holds between two
writes, `Ready` what it holds in front of a trade: the journal on the platter announces the trade that
comes next.
-/
import TradeBroker.Journal.Drive
import TradeBroker.Broker.Transaction

namespace TradeBroker

open Lib

-- Programs are compared by running them: keep the bytes of a record out of that.
attribute [local irreducible] Pokemon100.heldItem

/-! ## §1 — the invariant. -/

/-- A record of the program that its file gives back as it is: made, encodable, with its three labels in
order. -/
structure JournalRecord.Proper (r : JournalRecord) : Prop where
  made : r.Made
  places : r.locations.keys = [lit "A", lit "B", lit "P"]
  encodable : r.document.encodable = true

/-- An update that moves the three Pokémon leaves no other location behind. -/
theorem JournalRecord.places_advance {r : JournalRecord} {s : JournalState} {u : Update}
    (hr : r.locations.keys = [lit "A", lit "B", lit "P"]) (now : PyStr)
    (hu : ∀ e, u.locations = some e → ∀ k ∈ e.keys, k ∈ [lit "A", lit "B", lit "P"]) :
    (r.advance s now u).locations.keys = [lit "A", lit "B", lit "P"] := by
  simp only [JournalRecord.advance]
  cases he : u.locations with
  | none => exact hr
  | some e => exact (Dict.keys_update_of_subset (by rw [hr]; exact hu e he)).trans hr

/-- A 100-byte record with this hash, so one that could be traded back: what a hash in the journal stands for. -/
def HasHash (h : PyStr) (bytes : Bytes) : Prop := bytes.length = 100 ∧ hex (sha256 bytes) = h

/-- Every hash of the record belongs to an artifact that is on the platter, name and content, as long as its
directory is. -/
def Vouched (v : Volume FileName Bytes) (r : JournalRecord) : Prop :=
  ∀ label h, r.pokemon.get? label = some (some h) → v.Solid (.artifact ⟨r.transactionId, label, h⟩) (HasHash h)

/-- The trades of a transaction, in order, with the label of what is offered in each. -/
def legs : List (Console × PyStr) := [(.switch, "P"), (.gba, "B"), (.switch, "A")]

/-- How many trades were asked for at least, and at most, when the journal is in this state; the two differ
where a trade is announced. -/
def JournalState.begun : JournalState → Nat × Nat
  | .idle => (0, 0)
  | .switchStage1Started => (0, 1)
  | .switchBCaptured | .placeholderOnSwitch => (1, 1)
  | .gbaStageStarted => (1, 2)
  | .gbaACaptured | .bCommittedToGba => (2, 2)
  | .switchStage2Started => (2, 3)
  | .aCommittedToSwitch | .complete => (3, 3)
  | .recoveryRequired => (0, 3)

def JournalState.Admits (s : JournalState) (n : Nat) : Prop := s.begun.1 ≤ n ∧ n ≤ s.begun.2

instance (s : JournalState) (n : Nat) : Decidable (s.Admits n) := inferInstanceAs (Decidable (_ ∧ _))

/-- The record accounts for the trades: its state for their number, its hashes for what was offered in each of
them. -/
structure JournalRecord.Tells (r : JournalRecord) (asked : List Asked) : Prop where
  admits : r.state.Admits asked.length
  trades : List.Forall₂ (fun a leg => a.console = leg.1 ∧ r.pokemon.get? leg.2 = some (some a.offered.sha256)) asked
    (legs.take asked.length)

section Invariant

variable (floatRepr : Float → PyStr) (ev : Prop)

/-- The bytes are a proper record that accounts for the trades; where `ev`, one that is vouched for. -/
def OnRecord (d : Drive) (content : Bytes) : Prop :=
  ∃ r : JournalRecord, r.Proper ∧ content = r.journalBytes floatRepr ∧ r.Tells d.asked ∧ (ev → Vouched d.volume r)

/-- The journal is on the platter, and it is this record, whichever file its name may lead to. -/
def Confirmed (r : JournalRecord) (v : Volume FileName Bytes) : Prop :=
  v.Solid .journal fun content => content = r.journalBytes floatRepr

/-- The record says which trade is about to be asked for, and names what is offered by its hash. -/
def JournalRecord.Announces (r : JournalRecord) (console : Console) (offered : Pokemon100) : Prop :=
  (console = .switch ∧ r.state = .switchStage1Started ∧ r.pokemon.get? "P" = some (some offered.sha256)) ∨
    (console = .gba ∧ r.state = .gbaStageStarted ∧ r.pokemon.get? "B" = some (some offered.sha256)) ∨
    (console = .switch ∧ r.state = .switchStage2Started ∧ r.pokemon.get? "A" = some (some offered.sha256))

def Announced (a : Asked) : Prop :=
  ∃ r : JournalRecord, r.Proper ∧ Confirmed floatRepr r a.volume ∧ r.Announces a.console a.offered

structure Dependable (d : Drive) : Prop where
  journal : d.volume.Whole .journal (OnRecord floatRepr ev d)
  /-- Where there may be no journal, there was no trade. -/
  blank : none ∈ d.volume.maybe .journal → d.asked = []
  asked : ∀ a ∈ d.asked, Announced floatRepr a

end Invariant

/-! ## §2 — what keeps it. -/

section Keeping

variable {floatRepr : Float → PyStr} {ev : Prop} {v v' : Volume FileName Bytes} {d : Drive} {r : JournalRecord}

theorem Vouched.of_keeps (h : Vouched v r) (hk : ∀ p, Volume.Keeps (.artifact p) v v') : Vouched v' r :=
  fun label hash hget => (hk _).solid (h label hash hget)

theorem Vouched.calm (h : Vouched v r) (hc : Calm v v') : Vouched v' r := h.of_keeps fun p => hc (.artifact p) rfl

/-- An artifact that has the hash in its name vouches for what it vouched for. -/
theorem Vouched.placed (h : Vouched v r) {p : ArtifactPath} {c : Bytes} (hp : Placed (.artifact p) c v v')
    (hc : HasHash p.sha256 c) : Vouched v' r := by
  intro label hash hget
  by_cases hsame : (⟨r.transactionId, label, hash⟩ : ArtifactPath) = p
  · subst hsame
    exact hp.solid hc (h label hash hget)
  · refine (hp.others _ rfl ?_).solid (h label hash hget)
    intro he
    injection he with he
    exact hsame he

theorem OnRecord.mono {content : Bytes} {d' : Drive} (h : OnRecord floatRepr ev d content) (ha : d'.asked = d.asked)
    (hv : ∀ r, Vouched d.volume r → Vouched d'.volume r) : OnRecord floatRepr ev d' content := by
  obtain ⟨r, hproper, hbytes, htells, hvouched⟩ := h
  exact ⟨r, hproper, hbytes, ha ▸ htells, fun he => hv r (hvouched he)⟩

theorem whole_mono {P Q : Bytes → Prop} (h : v.Whole .journal P) (hPQ : ∀ c, P c → Q c) : v.Whole .journal Q := by
  intro i hi
  obtain ⟨hs, hP⟩ := h i hi
  exact ⟨hs, hPQ _ hP⟩

theorem Dependable.calm (h : Dependable floatRepr ev d) (o : Option FileName) (hc : Calm d.volume v') :
    Dependable floatRepr ev ⟨v', o, d.asked⟩ where
  journal := (hc .journal rfl).whole (whole_mono h.journal fun _ hr => hr.mono rfl fun _ hv => hv.calm hc)
  blank := fun hnone => h.blank ((hc .journal rfl).maybe _ hnone)
  asked := h.asked

theorem Dependable.artifact (h : Dependable floatRepr ev d) (o : Option FileName) {p : ArtifactPath} {c : Bytes}
    (hp : Placed (.artifact p) c d.volume v') (hc : HasHash p.sha256 c) :
    Dependable floatRepr ev ⟨v', o, d.asked⟩ where
  journal := (hp.others .journal rfl (by simp)).whole
    (whole_mono h.journal fun _ hr => hr.mono rfl fun _ hv => hv.placed hp hc)
  blank := fun hnone => h.blank ((hp.others .journal rfl (by simp)).maybe _ hnone)
  asked := h.asked

/-- A write of the journal leaves the artifacts alone, on the platter and in the caches. -/
theorem keeps_of_placed {c : Bytes} (hp : Placed .journal c v v') (p : ArtifactPath) :
    Volume.Keeps (.artifact p) v v' := hp.others _ rfl (by simp)

theorem Dependable.write (h : Dependable floatRepr ev d) (o : Option FileName) (hr : r.Proper) (htells : r.Tells d.asked)
    (hvouched : ev → Vouched d.volume r) (hp : Placed .journal (r.journalBytes floatRepr) d.volume v') :
    Dependable floatRepr ev ⟨v', o, d.asked⟩ where
  journal := hp.whole ⟨r, hr, rfl, htells, fun he => (hvouched he).of_keeps (keeps_of_placed hp)⟩
    (whole_mono h.journal fun _ hc => hc.mono rfl fun _ hv => hv.of_keeps (keeps_of_placed hp))
  blank := by
    intro hnone
    rcases hp.maybe none hnone with ⟨i, hi, -⟩ | ⟨hmem, -⟩
    · cases hi
    · exact h.blank hmem
  asked := h.asked

/-- One more trade, announced by the record: it still accounts for the trades when that one has been asked
for. -/
theorem JournalRecord.Tells.ask {asked : List Asked} (h : r.Tells asked) {console : Console} {offered : Pokemon100}
    (ha : r.Announces console offered) (hroom : asked.length < r.state.begun.2) (v : Volume FileName Bytes) :
    r.Tells (asked ++ [⟨console, offered, v⟩]) := by
  have hlength : (asked ++ [(⟨console, offered, v⟩ : Asked)]).length = asked.length + 1 := List.length_append
  refine ⟨?_, ?_⟩
  · rw [hlength]
    exact ⟨Nat.le_succ_of_le h.admits.1, hroom⟩
  · rw [hlength]
    have hleast := h.admits.1
    have htrades := h.trades
    -- the state says which leg it is
    rcases ha with ⟨rfl, hstate, hname⟩ | ⟨rfl, hstate, hname⟩ | ⟨rfl, hstate, hname⟩
    · rw [hstate] at hroom
      have hn : asked.length = 0 := Nat.lt_one_iff.mp hroom
      rw [hn] at htrades ⊢
      exact List.rel_append htrades (.cons ⟨rfl, hname⟩ .nil)
    · rw [hstate] at hroom hleast
      have hn : asked.length = 1 := Nat.le_antisymm (Nat.le_of_lt_succ hroom) hleast
      rw [hn] at htrades ⊢
      exact List.rel_append htrades (.cons ⟨rfl, hname⟩ .nil)
    · rw [hstate] at hroom hleast
      have hn : asked.length = 2 := Nat.le_antisymm (Nat.le_of_lt_succ hroom) hleast
      rw [hn] at htrades ⊢
      exact List.rel_append htrades (.cons ⟨rfl, hname⟩ .nil)

theorem JournalRecord.Tells.consoles {asked : List Asked} (h : r.Tells asked) :
    asked.map Asked.console = (legs.take asked.length).map Prod.fst := by
  refine List.forall₂_eq_eq_eq ▸ ?_
  rw [List.forall₂_map_left_iff, List.forall₂_map_right_iff]
  exact h.trades.imp fun _ _ ha => ha.1

/-- There are three trades at most, and `RECOVERY_REQUIRED` admits any number of them. -/
theorem JournalRecord.Tells.recovery {asked : List Asked} (h : r.Tells asked) :
    JournalState.recoveryRequired.Admits asked.length := by
  have hlength := h.trades.length_eq
  rw [List.length_take] at hlength
  exact ⟨Nat.zero_le _, hlength.le.trans (Nat.min_le_right _ _)⟩

/-- A record that is moved on accounts for the trades, if its new state does. -/
theorem JournalRecord.Tells.advance {asked : List Asked} (h : r.Tells asked) {s : JournalState} {u : Update}
    (hc : r.check s u = .ok ()) (now : PyStr) (hs : s.Admits asked.length) : (r.advance s now u).Tells asked where
  admits := hs
  trades := h.trades.imp fun _ _ ha => ⟨ha.1, JournalRecord.hash_advance hc now ha.2⟩

/-- A trade that the journal on the platter announces keeps everything dependable. -/
theorem Dependable.ask (h : Dependable floatRepr ev d) {console : Console} {offered : Pokemon100} (hr : r.Proper)
    (hc : Confirmed floatRepr r d.volume) (ha : r.Announces console offered)
    (htells : r.Tells (d.ask console offered).asked) (hvouched : ev → Vouched d.volume r) :
    Dependable floatRepr ev (d.ask console offered) where
  journal := whole_mono hc.whole fun _ hbytes => ⟨r, hr, hbytes, htells, hvouched⟩
  blank := by
    intro hnone
    obtain ⟨i, hi, -⟩ := hc none hnone
    cases hi
  asked := by
    intro a hmem
    rcases List.mem_append.mp hmem with hmem | hmem
    · exact h.asked a hmem
    · obtain rfl := List.mem_singleton.mp hmem
      exact ⟨r, hr, hc, ha⟩

end Keeping

/-! ## §3 — the journal store. -/

namespace JournalStore

variable (self : JournalStore) {floatRepr : Float → PyStr} {limit : Nat} {ev : Prop} {d : Drive}
  {r : JournalRecord}

/-- What a write of the journal leaves alone: the trades, and every artifact, of which no more can happen than
that it becomes durable. -/
structure Elsewhere (d d' : Drive) : Prop where
  asked : d'.asked = d.asked
  artifacts : ∀ p, Volume.Keeps (.artifact p) d.volume d'.volume

theorem Elsewhere.refl (d : Drive) : Elsewhere d d := ⟨rfl, fun _ => .refl _ _⟩

/-- The write of a record that the program made: before, between and behind its calls the drive is dependable. -/
theorem write_power_sat (h : Dependable floatRepr ev d) (hmade : r.Made)
    (hplaces : r.locations.keys = [lit "A", lit "B", lit "P"]) (htells : r.Tells d.asked)
    (hvouched : ev → Vouched d.volume r) :
    Act.Sat (DriveStep floatRepr limit) (Dependable floatRepr ev) (self.write r.raw) d
      (fun _ d' => Elsewhere d d' ∧ r.Proper ∧ Confirmed floatRepr r d'.volume)
      (fun e d' => e.isException = true ∧ Elsewhere d d') := by
  unfold write
  by_cases henc : r.document.encodable = true
  · have hr : r.Proper := ⟨hmade, hplaces, henc⟩
    rw [if_pos (show (Json.obj r.raw.asJsonDict).encodable = true from henc)]
    refine (atomicBytes_drive_sat self (t := .journal (.json r.document)) rfl (fun v' o hv' => h.calm o hv')
      (fun v' o hv' => h.write o hr htells hvouched hv')).mono (fun _ hd => hd) ?_ ?_
    · rintro _ d' _ ⟨hasked, hp, hm⟩
      exact ⟨⟨hasked, keeps_of_placed hp⟩, hr, hp.solid_of_synced rfl hm⟩
    · rintro e d' _ ⟨he, hasked, hc | hp⟩
      · exact ⟨he, hasked, fun p => hc (.artifact p) rfl⟩
      · exact ⟨he, hasked, keeps_of_placed hp⟩
  · rw [if_neg (show ¬ (Json.obj r.raw.asJsonDict).encodable = true from henc)]
    exact Act.Sat.throw h ⟨rfl, .refl d⟩

/-- What a saved artifact vouches for, by the name under which it was saved. -/
structure Saved (path : ArtifactPath) (d d' : Drive) : Prop where
  asked : d'.asked = d.asked
  vouched : ∀ r, Vouched d.volume r → Vouched d'.volume r
  solid : d'.volume.Solid (.artifact path) (HasHash path.sha256)

theorem saveArtifact_power_sat (h : Dependable floatRepr ev d) {label : PyStr} (hl : label ∈ artifactLabels)
    (mon : Pokemon100) :
    Act.Sat (DriveStep floatRepr limit) (Dependable floatRepr ev) (self.saveArtifact r label mon) d
      (fun _ d' => Saved (artifactOf r label mon) d d')
      (fun _ d' => d'.asked = d.asked ∧ ∀ r, Vouched d.volume r → Vouched d'.volume r) := by
  have hhash : HasHash (artifactOf r label mon).sha256 mon.raw := ⟨mon.size_eq, rfl⟩
  show Act.Sat _ _ (if label ∈ artifactLabels then _ else _) _ _ _
  rw [if_pos hl]
  refine Act.Sat.bind (R := fun _ d' => d'.asked = d.asked ∧ Calm d.volume d'.volume) ?_ ?_
  · refine ⟨h, ?_⟩
    rintro answer d' ⟨dirs, hdirs, rfl, hanswer⟩
    have hcalm : Calm d.volume (makeDirs d.volume dirs) :=
      calm_makeDirs (fun e he => not_lasting_up _ e (List.mem_reverse.mp (hdirs.subset he))) _
    refine ⟨h.calm _ hcalm, ?_⟩
    rcases hanswer with ⟨rfl, -⟩ | ⟨e, -, rfl⟩
    · exact ⟨rfl, hcalm⟩
    · exact ⟨rfl, fun r hr => hr.calm hcalm⟩
  rintro _ d1 h1 ⟨hasked, hcalm⟩
  refine (atomicBytes_drive_sat self (t := .artifact (artifactOf r label mon) mon.raw) rfl
    (fun v' o hv' => h1.calm o hv') (fun v' o hv' => h1.artifact o hv' hhash)).mono (fun _ hd => hd) ?_ ?_
  · rintro _ d' _ ⟨hasked', hp, hm⟩
    exact ⟨hasked'.trans hasked, fun r hr => (hr.calm hcalm).placed hp hhash, hp.solid_of_synced hhash hm⟩
  · rintro e d' _ ⟨-, hasked', hc | hp⟩
    · exact ⟨hasked'.trans hasked, fun r hr => (hr.calm hcalm).calm hc⟩
    · exact ⟨hasked'.trans hasked, fun r hr => (hr.calm hcalm).placed hp hhash⟩

/-- What the file of such a record is read as: its document, the keys in order. -/
theorem readContent_journalBytes (hlimit : 3 ≤ limit) (hr : r.Proper) :
    readContent limit (r.journalBytes floatRepr) = .ok (.json r.document.sorted) := by
  have hplain := hr.made.plain.mono hlimit
  rw [readContent, JournalRecord.journalBytes, fileText_dumpBytes floatRepr hplain hr.encodable]
  simp only [loads_dumps floatRepr hplain]

/-- And what `load` makes of it: the record, for the order of keys does not count. -/
theorem load_sorted_document (hr : r.Proper) : JournalText.load self (.json r.document.sorted) = .ok r.raw := by
  obtain ⟨data, hdata, hload⟩ := hr.made.load_sorted
  rw [hdata, ← JournalRecord.reread_eq hr.places]
  exact hload

/-- **Reading a journal back**: it is a record that the program made, and it accounts for the trades. -/
theorem load_power_sat (hlimit : 3 ≤ limit) (h : Dependable floatRepr ev d) :
    Act.Sat (DriveStep floatRepr limit) (Dependable floatRepr ev) self.load d
      (fun raw d' => d' = d ∧ ∃ r : JournalRecord, r.Proper ∧ raw = r.raw ∧ r.Tells d.asked ∧
        (ev → Vouched d.volume r))
      (fun _ _ => True) := by
  unfold load
  have hread : Act.Sat (DriveStep floatRepr limit) (Dependable floatRepr ev) readText d
      (fun text d' => d' = d ∧ ∃ r : JournalRecord, r.Proper ∧ text = .json r.document.sorted ∧ r.Tells d.asked ∧
        (ev → Vouched d.volume r)) (fun _ _ => True) := by
    refine ⟨h, ?_⟩
    rintro answer d' ⟨rfl, ⟨content, hcontent, rfl⟩ | ⟨e, -, rfl⟩⟩
    · obtain ⟨r, hr, rfl, htells, hvouched⟩ := h.journal.read hcontent
      rw [readContent_journalBytes hlimit hr]
      exact ⟨h, rfl, r, hr, rfl, htells, hvouched⟩
    · exact ⟨h, trivial⟩
  refine Act.Sat.bind (Act.Sat.attempt hread) ?_
  rintro text d' hd' htext
  cases text with
  | ok text =>
      obtain ⟨rfl, r, hr, rfl, htells, hvouched⟩ := htext
      show Act.Sat _ _ (ofExcept (JournalText.load self (.json r.document.sorted))) _ _ _
      rw [self.load_sorted_document hr]
      exact Act.Sat.ofExcept hd' ⟨rfl, r, hr, rfl, htells, hvouched⟩
  | error e =>
      show Act.Sat _ _ (if e.isOSError then _ else _ : Broker RawRecord) _ _ _
      split
      · exact Act.Sat.throw hd' trivial
      · exact Act.Sat.throw hd' trivial

theorem pathExists_power_sat (h : Dependable floatRepr ev d) :
    Act.Sat (DriveStep floatRepr limit) (Dependable floatRepr ev) pathExists d
      (fun present d' => present = (d.volume.entry .journal).isSome ∧ d' = d) (fun _ _ => True) := by
  refine ⟨h, ?_⟩
  rintro answer d' ⟨rfl, rfl | ⟨e, -, rfl⟩⟩
  · exact ⟨h, rfl, rfl⟩
  · exact ⟨h, trivial⟩

theorem clock_power_sat (h : Dependable floatRepr ev d) {E : Exc → Drive → Prop} :
    Act.Sat (DriveStep floatRepr limit) (Dependable floatRepr ev) clock d (fun _ d' => d' = d) E := by
  refine ⟨h, ?_⟩
  rintro r d' ⟨-, rfl⟩
  exact ⟨h, rfl⟩

theorem uuid4_power_sat (h : Dependable floatRepr ev d) {E : Exc → Drive → Prop} :
    Act.Sat (DriveStep floatRepr limit) (Dependable floatRepr ev) uuid4 d (fun _ d' => d' = d) E := by
  refine ⟨h, ?_⟩
  rintro r d' ⟨-, rfl⟩
  exact ⟨h, rfl⟩

/-- The guard lets a transaction begin only where there is no journal, whatever a power loss has left behind. -/
theorem requireNewTransaction_power_sat (hlimit : 3 ≤ limit) (h : Dependable floatRepr ev d) :
    Act.Sat (DriveStep floatRepr limit) (Dependable floatRepr ev) self.requireNewTransaction d
      (fun _ d' => d' = d) (fun _ _ => True) := by
  unfold requireNewTransaction
  refine Act.Sat.bind (pathExists_power_sat h) ?_
  rintro present d1 _ ⟨-, rfl⟩
  cases present with
  | false => exact Act.Sat.pure h rfl
  | true =>
      refine Act.Sat.bind (self.load_power_sat hlimit h) ?_
      rintro _ d2 _ ⟨rfl, r, hr, rfl, htells, hvouched⟩
      have hmark : Act.Sat (DriveStep floatRepr limit) (Dependable floatRepr ev) (self.markRestart r.raw) d2
          (fun _ _ => True) (fun _ _ => True) := by
        unfold markRestart
        by_cases hterm : r.state.terminal = true
        · rw [if_pos (show r.raw.state.terminal = true from hterm)]
          exact Act.Sat.pure h trivial
        · rw [if_neg (show ¬ r.raw.state.terminal = true from hterm)]
          refine Act.Sat.bind (clock_power_sat h) ?_
          rintro now _ _ rfl
          have hc := JournalRecord.check_restart (by simpa using hterm : r.state.terminal = false)
          have hmade : (r.restarted now).Made := hr.made.advanced now hc
          have htells' : (r.restarted now).Tells _ := htells.advance hc now htells.recovery
          show Act.Sat _ _ (self.write (r.raw.restarted now)) _ _ _
          rw [← r.raw_restarted now]
          exact (self.write_power_sat h hmade hr.places htells' hvouched).mono (fun _ hd => hd)
            (fun _ _ _ _ => trivial) fun _ _ _ _ => trivial
      refine Act.Sat.bind hmark ?_
      intro _ d3 h3 _
      refine Act.Sat.bind (self.load_power_sat hlimit h3) ?_
      rintro _ _ _ ⟨rfl, -⟩
      exact Act.Sat.throw h3 trivial

/-- What the caller of the store holds between two writes: a proper record that accounts for the trades, and
the artifacts of its hashes. -/
structure InHand (ev : Prop) (r : JournalRecord) (d : Drive) : Prop where
  made : r.Made
  places : r.locations.keys = [lit "A", lit "B", lit "P"]
  tells : r.Tells d.asked
  vouched : ev → Vouched d.volume r

theorem InHand.of_keeps {d' : Drive} (h : InHand ev r d) (hk : Elsewhere d d') : InHand ev r d' :=
  ⟨h.made, h.places, hk.asked ▸ h.tells, fun he => (h.vouched he).of_keeps hk.artifacts⟩

theorem create_power_sat (hlimit : 3 ≤ limit) (h : Dependable floatRepr ev d) (P : Pokemon100) :
    Act.Sat (DriveStep floatRepr limit) (Dependable floatRepr ev) (self.create P) d
      (fun r d' => InHand ev r d' ∧ d'.asked = [] ∧ r.pokemon.get? "P" = some (some P.sha256)) (fun _ _ => True) := by
  unfold create
  refine Act.Sat.bind (pathExists_power_sat h) ?_
  rintro present d1 _ ⟨hpresent, rfl⟩
  cases present with
  | true =>
      refine Act.Sat.bind (self.load_power_sat hlimit h) ?_
      rintro _ _ _ ⟨rfl, -⟩
      exact Act.Sat.throw h trivial
  | false =>
      have hnone : d1.volume.entry .journal = none := Option.isSome_eq_false_iff.mp hpresent.symm |> Option.isNone_iff_eq_none.mp
      have hblank : d1.asked = [] := h.blank (hnone ▸ d1.volume.entry_mem .journal)
      refine Act.Sat.bind (clock_power_sat h) ?_
      rintro now _ _ rfl
      refine Act.Sat.bind (uuid4_power_sat h) ?_
      rintro txid d2 _ rfl
      refine Act.Sat.bind ((self.saveArtifact_power_sat h (by decide) P).mono (fun _ hd => hd)
        (fun _ _ _ hd => hd) fun _ _ _ _ => trivial) ?_
      rintro _ d3 h3 hsaved
      -- The one hash of a new record is that of the placeholder.
      have hvouched : ev → Vouched d3.volume (JournalRecord.fresh txid.str now P) := by
        intro _ label hash hget
        rw [Dict.get?_eq_some] at hget
        simp only [JournalRecord.fresh, Dict.ofList, List.foldl_cons, List.foldl_nil] at hget
        have hcases : (label, some hash) ∈ [(lit "A", none), (lit "B", none), (lit "P", some P.sha256)] := hget
        simp only [List.mem_cons, Prod.mk.injEq, reduceCtorEq, and_false, List.not_mem_nil, or_false, false_or,
          Option.some.injEq] at hcases
        obtain ⟨rfl, rfl⟩ := hcases
        exact hsaved.solid
      have hmade := JournalRecord.Made.created txid now P
      have hasked : d3.asked = [] := hsaved.asked.trans hblank
      have htells : (JournalRecord.fresh txid.str now P).Tells d3.asked := by
        rw [hasked]
        exact ⟨⟨Nat.le_refl 0, Nat.le_refl 0⟩, .nil⟩
      refine Act.Sat.bind ((self.write_power_sat h3 hmade rfl htells hvouched).mono (fun _ hd => hd)
        (fun _ _ _ hd => hd) fun _ _ _ _ => trivial) ?_
      rintro _ d4 h4 ⟨hsame, -, -⟩
      exact Act.Sat.pure h4 ⟨InHand.of_keeps ⟨hmade, rfl, htells, hvouched⟩ hsame, hsame.asked.trans hasked, rfl⟩

/-- An accepted transition to a state that accounts for the trades, with new hashes that artifacts vouch for. -/
theorem transition_power_sat (h : Dependable floatRepr ev d) (hr : InHand ev r d) (s : JournalState) {u : Update}
    (hs : s.Admits d.asked.length)
    (hplaces : ∀ e, u.locations = some e → ∀ k ∈ e.keys, k ∈ [lit "A", lit "B", lit "P"])
    (hhashes : ∀ e, u.pokemon = some e → ∀ label hash, e.get? label = some (some hash) →
      d.volume.Solid (.artifact ⟨r.transactionId, label, hash⟩) (HasHash hash)) :
    Prog.Sat (DriveStep floatRepr limit) (Dependable floatRepr ev)
      (fun ended d' => InHand ev ended.2 d' ∧ (ended.1 = .ok () → d'.asked = d.asked ∧ ∃ now,
        ended.2 = r.advance s now u ∧ r.check s u = .ok () ∧ ended.2.Proper ∧ Confirmed floatRepr ended.2 d'.volume))
      (self.transition r s u) d := by
  unfold transition
  cases hc : r.check s u with
  | error e => exact ⟨h, hr, fun hno => by cases hno⟩
  | ok a =>
      refine ⟨h, ?_⟩
      rintro (now : PyStr) d1 ⟨-, rfl⟩
      have hmade : (r.advance s now u).Made := hr.made.advanced now hc
      have hkeys := JournalRecord.places_advance hr.places (s := s) now hplaces
      have hvouched : ev → Vouched d1.volume (r.advance s now u) := by
        intro he label hash hget
        rw [JournalRecord.get?_advance_pokemon] at hget
        cases hu : u.pokemon.bind (Dict.get? · label) with
        | none =>
            rw [hu, Option.none_or] at hget
            exact hr.vouched he label hash hget
        | some value =>
            rw [hu, Option.some_or] at hget
            obtain ⟨e, he', hk⟩ := Option.bind_eq_some_iff.mp hu
            exact hhashes e he' label hash (hk.trans hget)
      have htells : (r.advance s now u).Tells d1.asked := hr.tells.advance hc now hs
      refine Prog.Sat.bind (self.write_power_sat h hmade hkeys htells hvouched) ?_
      rintro written d2 h2 hend
      cases written with
      | ok u' =>
          obtain ⟨hsame, hproper, hconfirmed⟩ := hend
          exact ⟨h2, InHand.of_keeps ⟨hmade, hkeys, htells, hvouched⟩ hsame,
            fun _ => ⟨hsame.asked, now, rfl, rfl, hproper, hconfirmed⟩⟩
      | error e =>
          obtain ⟨-, hsame⟩ := hend
          exact ⟨h2, InHand.of_keeps ⟨hmade, hkeys, htells, hvouched⟩ hsame, fun hno => by cases hno⟩

end JournalStore

/-! ## §4 — the coordinator. -/

namespace TradeCoordinator

open JournalStore (InHand)

variable (journal : JournalStore) {floatRepr : Float → PyStr} {limit : Nat} {ev : Prop} {P b a mon : Pokemon100}
  {l : Locals} {d : Drive}

/-- The record names the hash of this Pokémon under the label. -/
def Names (r : JournalRecord) (label : PyStr) (mon : Pokemon100) : Prop :=
  r.pokemon.get? label = some (some mon.sha256)

/-- The journal on the platter announces the trade that comes next, and the caller holds what it announces. -/
structure Ready (floatRepr : Float → PyStr) (ev : Prop) (console : Console) (mon : Pokemon100) (l : Locals)
    (d : Drive) : Prop where
  held : InHand ev l.record d
  proper : l.record.Proper
  confirmed : Confirmed floatRepr l.record d.volume
  announces : l.record.Announces console mon
  room : d.asked.length < l.record.state.begun.2

/-- A Broker program that leaves the drive alone, inside the body. -/
theorem lifted_still {α : Type} {x : Broker α} {R : α → Prop} (hl : InHand ev l.record d)
    (hx : Act.Sat (DriveStep floatRepr limit) (Dependable floatRepr ev) x d (fun v d' => R v ∧ d' = d)
      fun _ d' => d' = d) :
    Method.Sat (DriveStep floatRepr limit) (Dependable floatRepr ev) (Method.lift x) l d
      (fun v l' d' => R v ∧ l' = l ∧ d' = d) fun _ l' d' => InHand ev l'.record d' := by
  refine Method.Sat.lift (hx.mono (fun _ hd => hd) (fun _ _ _ hv => ⟨hv.1, rfl, hv.2⟩) ?_)
  rintro _ _ _ rfl
  exact hl

theorem connect_power_sat (h : Dependable floatRepr ev d) (console : Console) :
    Act.Sat (DriveStep floatRepr limit) (Dependable floatRepr ev) (connect console) d (fun _ d' => True ∧ d' = d)
      fun _ d' => d' = d := by
  refine ⟨h, ?_⟩
  rintro answer d' rfl
  cases answer with
  | ok u => exact ⟨h, trivial, rfl⟩
  | error e => exact ⟨h, rfl⟩

theorem waitForTradeMenu_power_sat (h : Dependable floatRepr ev d) :
    Act.Sat (DriveStep floatRepr limit) (Dependable floatRepr ev) waitForTradeMenu d (fun _ d' => True ∧ d' = d)
      fun _ d' => d' = d := by
  refine ⟨h, ?_⟩
  rintro answer d' rfl
  cases answer with
  | ok u => exact ⟨h, trivial, rfl⟩
  | error e => exact ⟨h, rfl⟩

theorem faultHook_power_sat (h : Dependable floatRepr ev d) (b : Boundary) (r : JournalRecord) :
    Act.Sat (DriveStep floatRepr limit) (Dependable floatRepr ev) (faultHook b r) d (fun _ d' => True ∧ d' = d)
      fun _ d' => d' = d := by
  refine ⟨h, ?_⟩
  rintro answer d' rfl
  cases answer with
  | ok u => exact ⟨h, trivial, rfl⟩
  | error e => exact ⟨h, rfl⟩

theorem ofExcept_power_sat {α : Type} (h : Dependable floatRepr ev d) (x : Except Exc α) :
    Act.Sat (DriveStep floatRepr limit) (Dependable floatRepr ev) (ofExcept x) d (fun v d' => x = .ok v ∧ d' = d)
      fun _ d' => d' = d := by
  refine Act.Sat.ofExcept h ?_
  cases x with
  | ok v => exact ⟨rfl, rfl⟩
  | error e => exact rfl

theorem Ready.tells {console : Console} (h : Ready floatRepr ev console mon l d) :
    l.record.Tells (d.ask console mon).asked := h.held.tells.ask h.announces h.room d.volume

/-- **A trade is only asked for when it has been announced**, on the platter and not in a cache. -/
theorem Ready.sound {console : Console} (h : Ready floatRepr ev console mon l d) (hd : Dependable floatRepr ev d) :
    Dependable floatRepr ev (d.ask console mon) := hd.ask h.proper h.confirmed h.announces h.tells h.held.vouched

theorem Ready.held_ask {console : Console} (h : Ready floatRepr ev console mon l d) :
    InHand ev l.record (d.ask console mon) := ⟨h.held.made, h.held.places, h.tells, h.held.vouched⟩

theorem switchTradeOnce_power_sat (h : Dependable floatRepr ev d) (hr : Ready floatRepr ev .switch mon l d) :
    Method.Sat (DriveStep floatRepr limit) (Dependable floatRepr ev) (Method.lift (switchTradeOnce mon)) l d
      (fun _ l' d' => l' = l ∧ InHand ev l.record d' ∧ d'.asked.length = d.asked.length + 1)
      fun _ l' d' => InHand ev l'.record d' := by
  refine Method.Sat.lift ⟨h, ?_⟩
  rintro answer d' rfl
  cases answer with
  | ok v => exact ⟨hr.sound h, rfl, hr.held_ask, List.length_append⟩
  | error e => exact ⟨hr.sound h, hr.held_ask⟩

theorem gbaTradeOnce_power_sat (h : Dependable floatRepr ev d) (hr : Ready floatRepr ev .gba mon l d) :
    Method.Sat (DriveStep floatRepr limit) (Dependable floatRepr ev) (Method.lift (gbaTradeOnce mon)) l d
      (fun _ l' d' => l' = l ∧ InHand ev l.record d' ∧ d'.asked.length = d.asked.length + 1)
      fun _ l' d' => InHand ev l'.record d' := by
  refine Method.Sat.lift ⟨h, ?_⟩
  rintro answer d' rfl
  cases answer with
  | ok v => exact ⟨hr.sound h, rfl, hr.held_ask, List.length_append⟩
  | error e => exact ⟨hr.sound h, hr.held_ask⟩

theorem saveArtifact_body_sat (h : Dependable floatRepr ev d) (hl : InHand ev l.record d) {label : PyStr}
    (hlabel : label ∈ JournalStore.artifactLabels) :
    Method.Sat (DriveStep floatRepr limit) (Dependable floatRepr ev) (saveArtifact journal label mon) l d
      (fun _ l' d' => l' = l ∧ InHand ev l.record d' ∧ d'.asked = d.asked ∧
        d'.volume.Solid (.artifact ⟨l.record.transactionId, label, mon.sha256⟩) (HasHash mon.sha256))
      fun _ l' d' => InHand ev l'.record d' := by
  refine Method.Sat.lift ((journal.saveArtifact_power_sat h hlabel mon).mono (fun _ hd => hd) ?_ ?_)
  · intro _ d' _ hsaved
    have htells : l.record.Tells d'.asked := hsaved.asked ▸ hl.tells
    exact ⟨rfl, ⟨hl.made, hl.places, htells, fun he => hsaved.vouched _ (hl.vouched he)⟩, hsaved.asked, hsaved.solid⟩
  · rintro _ d' _ ⟨hasked, hvouched⟩
    exact ⟨hl.made, hl.places, hasked ▸ hl.tells, fun he => hvouched _ (hl.vouched he)⟩

/-- The record is the one before, moved on to `s`, and the journal on the platter is this record. -/
structure Moved (floatRepr : Float → PyStr) (ev : Prop) (s : JournalState) (u : Update) (l l' : Locals)
    (d d' : Drive) : Prop where
  held : InHand ev l'.record d'
  asked : d'.asked = d.asked
  proper : l'.record.Proper
  confirmed : Confirmed floatRepr l'.record d'.volume
  advanced : ∃ now, l'.record = l.record.advance s now u
  checked : l.record.check s u = .ok ()

theorem transition_body_sat (h : Dependable floatRepr ev d) (hl : InHand ev l.record d) (s : JournalState) {u : Update}
    (hs : s.Admits d.asked.length)
    (hplaces : ∀ e, u.locations = some e → ∀ k ∈ e.keys, k ∈ [lit "A", lit "B", lit "P"])
    (hhashes : ∀ e, u.pokemon = some e → ∀ label hash, e.get? label = some (some hash) →
      d.volume.Solid (.artifact ⟨l.record.transactionId, label, hash⟩) (HasHash hash)) :
    Method.Sat (DriveStep floatRepr limit) (Dependable floatRepr ev) (transition journal s u) l d
      (fun _ l' d' => Moved floatRepr ev s u l l' d d') fun _ l' d' => InHand ev l'.record d' := by
  refine Prog.Sat.bind (journal.transition_power_sat h hl s hs hplaces hhashes) ?_
  rintro ⟨written, r'⟩ d' hd' ⟨hheld, hend⟩
  refine ⟨hd', ?_⟩
  cases written with
  | ok v =>
      obtain ⟨hasked, now, hrecord, hc, hproper, hconfirmed⟩ := hend rfl
      exact ⟨hheld, hasked, hproper, hconfirmed, ⟨now, hrecord⟩, hc⟩
  | error e => exact hheld

/-- A transition with a note only, which brings no hash and no location. -/
theorem note_body_sat (h : Dependable floatRepr ev d) (hl : InHand ev l.record d) (s : JournalState) (note : PyStr)
    (hs : s.Admits d.asked.length) :
    Method.Sat (DriveStep floatRepr limit) (Dependable floatRepr ev) (transition journal s { note := note }) l d
      (fun _ l' d' => Moved floatRepr ev s { note := note } l l' d d') fun _ l' d' => InHand ev l'.record d' :=
  transition_body_sat journal h hl s hs (fun e he => by cases he) fun e he => by cases he

namespace Moved

variable {s : JournalState} {u : Update} {l' : Locals} {d' : Drive}

theorem state (h : Moved floatRepr ev s u l l' d d') : l'.record.state = s := by
  obtain ⟨now, hrecord⟩ := h.advanced
  rw [hrecord]
  rfl

/-- What the record named, it names still: no transition forgets a hash. -/
theorem names (h : Moved floatRepr ev s u l l' d d') {label : PyStr} (hn : Names l.record label mon) :
    Names l'.record label mon := by
  obtain ⟨now, hrecord⟩ := h.advanced
  rw [hrecord]
  exact JournalRecord.hash_advance h.checked now hn

/-- It names what the transition brought. -/
theorem names_new (h : Moved floatRepr ev s u l l' d d') {label : PyStr} {e : Dict (Option PyStr)}
    (hu : u.pokemon = some e) (he : e.get? label = some (some mon.sha256)) : Names l'.record label mon := by
  obtain ⟨now, hrecord⟩ := h.advanced
  rw [hrecord, Names, JournalRecord.get?_advance_pokemon, hu, Option.bind_some, he, Option.some_or]

theorem ready (h : Moved floatRepr ev s u l l' d d') {console : Console}
    (ha : l'.record.Announces console mon) (hroom : d.asked.length < s.begun.2) :
    Ready floatRepr ev console mon l' d' :=
  ⟨h.held, h.proper, h.confirmed, ha, by rw [h.asked, h.state]; exact hroom⟩

end Moved

/-- A dictionary with one hash: whatever is looked up and found is that one. -/
theorem get?_single {label k hash : PyStr} {value : Option PyStr}
    (h : (Dict.ofList [(label, value)]).get? k = some (some hash)) : k = label ∧ value = some hash := by
  rw [Dict.get?_eq_some] at h
  have h : (k, some hash) ∈ [(label, value)] := h
  simpa [eq_comm] using h

theorem switchStage1_power_sat (h : Dependable floatRepr ev d) (hl : InHand ev l.record d) (hn : d.asked.length = 0)
    (hP : Names l.record "P" P) :
    Method.Sat (DriveStep floatRepr limit) (Dependable floatRepr ev) (switchStage1 journal P) l d
      (fun b l' d' => InHand ev l'.record d' ∧ d'.asked.length = 1 ∧ Names l'.record "B" b)
      fun _ l' d' => InHand ev l'.record d' := by
  unfold switchStage1
  refine Method.Sat.bind (note_body_sat journal h hl _ _ (hn ▸ by decide)) ?_
  intro _ l1 d1 h1 hm1
  have hready := hm1.ready (Or.inl ⟨rfl, hm1.state, hm1.names hP⟩) (hn ▸ by decide)
  have hn1 : d1.asked.length = 0 := hm1.asked ▸ hn
  refine Method.Sat.bind (lifted_still hm1.held (faultHook_power_sat h1 _ _)) ?_
  rintro _ _ _ _ ⟨-, rfl, rfl⟩
  refine Method.Sat.bind (lifted_still hm1.held (waitForTradeMenu_power_sat h1)) ?_
  rintro _ _ _ _ ⟨-, rfl, rfl⟩
  refine Method.Sat.bind (switchTradeOnce_power_sat h1 hready) ?_
  rintro first _ d2 h2 ⟨rfl, hl2, hn2⟩
  rw [hn1] at hn2
  refine Method.Sat.bind (lifted_still hl2 (faultHook_power_sat h2 _ _)) ?_
  rintro _ _ _ _ ⟨-, rfl, rfl⟩
  refine Method.Sat.bind (lifted_still hl2 (ofExcept_power_sat h2 _)) ?_
  rintro _ _ _ _ ⟨-, rfl, rfl⟩
  refine Method.Sat.bind (lifted_still hl2 (ofExcept_power_sat h2 _)) ?_
  rintro _ _ _ _ ⟨-, rfl, rfl⟩
  refine Method.Sat.bind (saveArtifact_body_sat journal h2 hl2 (by decide)) ?_
  rintro _ _ d3 h3 ⟨rfl, hl3, ha3, hsolid⟩
  rw [← ha3] at hn2
  refine Method.Sat.bind (transition_body_sat journal h3 hl3 .switchBCaptured (hn2 ▸ by decide) ?_ ?_) ?_
  · rintro _ ⟨⟩
    decide
  · rintro _ ⟨⟩ label hash hget
    obtain ⟨rfl, hhash⟩ := get?_single hget
    obtain rfl := Option.some.inj hhash
    exact hsolid
  intro _ l4 d4 h4 hm4
  have hB : Names l4.record "B" first.receivedMon := hm4.names_new rfl rfl
  rw [← hm4.asked] at hn2
  refine Method.Sat.bind (note_body_sat journal h4 hm4.held _ _ (hn2 ▸ by decide)) ?_
  intro _ l5 d5 h5 hm5
  refine Method.Sat.bind (lifted_still hm5.held (faultHook_power_sat h5 _ _)) ?_
  rintro _ _ _ _ ⟨-, rfl, rfl⟩
  exact Method.Sat.pure h5 ⟨hm5.held, hm5.asked ▸ hn2, hm5.names hB⟩

theorem gbaStage_power_sat (h : Dependable floatRepr ev d) (hl : InHand ev l.record d) (hn : d.asked.length = 1)
    (hB : Names l.record "B" b) :
    Method.Sat (DriveStep floatRepr limit) (Dependable floatRepr ev) (gbaStage journal b) l d
      (fun a l' d' => InHand ev l'.record d' ∧ d'.asked.length = 2 ∧ Names l'.record "A" a)
      fun _ l' d' => InHand ev l'.record d' := by
  unfold gbaStage
  refine Method.Sat.bind (note_body_sat journal h hl _ _ (hn ▸ by decide)) ?_
  intro _ l1 d1 h1 hm1
  have hready := hm1.ready (Or.inr (Or.inl ⟨rfl, hm1.state, hm1.names hB⟩)) (hn ▸ by decide)
  have hn1 : d1.asked.length = 1 := hm1.asked ▸ hn
  refine Method.Sat.bind (lifted_still hm1.held (faultHook_power_sat h1 _ _)) ?_
  rintro _ _ _ _ ⟨-, rfl, rfl⟩
  refine Method.Sat.bind (gbaTradeOnce_power_sat h1 hready) ?_
  rintro result _ d2 h2 ⟨rfl, hl2, hn2⟩
  rw [hn1] at hn2
  refine Method.Sat.bind (lifted_still hl2 (faultHook_power_sat h2 _ _)) ?_
  rintro _ _ _ _ ⟨-, rfl, rfl⟩
  refine Method.Sat.bind (lifted_still hl2 (ofExcept_power_sat h2 _)) ?_
  rintro _ _ _ _ ⟨-, rfl, rfl⟩
  refine Method.Sat.bind (lifted_still hl2 (ofExcept_power_sat h2 _)) ?_
  rintro _ _ _ _ ⟨-, rfl, rfl⟩
  refine Method.Sat.bind (saveArtifact_body_sat journal h2 hl2 (by decide)) ?_
  rintro _ _ d3 h3 ⟨rfl, hl3, ha3, hsolid⟩
  rw [← ha3] at hn2
  refine Method.Sat.bind (transition_body_sat journal h3 hl3 .gbaACaptured (hn2 ▸ by decide) ?_ ?_) ?_
  · rintro _ ⟨⟩
    decide
  · rintro _ ⟨⟩ label hash hget
    obtain ⟨rfl, hhash⟩ := get?_single hget
    obtain rfl := Option.some.inj hhash
    exact hsolid
  intro _ l4 d4 h4 hm4
  have hA : Names l4.record "A" result.receivedMon := hm4.names_new rfl rfl
  rw [← hm4.asked] at hn2
  refine Method.Sat.bind (note_body_sat journal h4 hm4.held _ _ (hn2 ▸ by decide)) ?_
  intro _ l5 d5 h5 hm5
  refine Method.Sat.bind (lifted_still hm5.held (faultHook_power_sat h5 _ _)) ?_
  rintro _ _ _ _ ⟨-, rfl, rfl⟩
  exact Method.Sat.pure h5 ⟨hm5.held, hm5.asked ▸ hn2, hm5.names hA⟩

/-- The journal on the platter says that the exchange is complete, and names the transaction that was
returned. -/
def Concluded (floatRepr : Float → PyStr) (outcome : TransactionOutcome) (d : Drive) : Prop :=
  ∃ r : JournalRecord, r.Proper ∧ Confirmed floatRepr r d.volume ∧ r.state = .complete ∧
    r.transactionId = outcome.transactionId

theorem switchStage2_power_sat (h : Dependable floatRepr ev d) (hl : InHand ev l.record d) (hn : d.asked.length = 2)
    (hA : Names l.record "A" a) :
    Method.Sat (DriveStep floatRepr limit) (Dependable floatRepr ev) (switchStage2 journal P b a) l d
      (fun outcome _ d' => Concluded floatRepr outcome d') fun _ l' d' => InHand ev l'.record d' := by
  unfold switchStage2
  refine Method.Sat.bind (note_body_sat journal h hl _ _ (hn ▸ by decide)) ?_
  intro _ l1 d1 h1 hm1
  have hready := hm1.ready (Or.inr (Or.inr ⟨rfl, hm1.state, hm1.names hA⟩)) (hn ▸ by decide)
  have hn1 : d1.asked.length = 2 := hm1.asked ▸ hn
  refine Method.Sat.bind (lifted_still hm1.held (faultHook_power_sat h1 _ _)) ?_
  rintro _ _ _ _ ⟨-, rfl, rfl⟩
  refine Method.Sat.bind (lifted_still hm1.held (waitForTradeMenu_power_sat h1)) ?_
  rintro _ _ _ _ ⟨-, rfl, rfl⟩
  refine Method.Sat.bind (switchTradeOnce_power_sat h1 hready) ?_
  rintro second _ d2 h2 ⟨rfl, hl2, hn2⟩
  rw [hn1] at hn2
  refine Method.Sat.bind (lifted_still hl2 (faultHook_power_sat h2 _ _)) ?_
  rintro _ _ _ _ ⟨-, rfl, rfl⟩
  refine Method.Sat.bind (lifted_still hl2 (ofExcept_power_sat h2 _)) ?_
  rintro _ _ _ _ ⟨-, rfl, rfl⟩
  refine Method.Sat.bind (saveArtifact_body_sat journal h2 hl2 (by decide)) ?_
  rintro _ _ d3 h3 ⟨rfl, hl3, ha3, -⟩
  rw [← ha3] at hn2
  refine Method.Sat.bind (transition_body_sat journal h3 hl3 .aCommittedToSwitch (hn2 ▸ by decide) ?_ ?_) ?_
  · rintro _ ⟨⟩
    decide
  · rintro _ ⟨⟩
  intro _ l4 d4 h4 hm4
  rw [← hm4.asked] at hn2
  refine Method.Sat.bind (lifted_still hm4.held (faultHook_power_sat h4 _ _)) ?_
  rintro _ _ _ _ ⟨-, rfl, rfl⟩
  refine Method.Sat.bind (lifted_still hm4.held (ofExcept_power_sat h4 _)) ?_
  rintro _ _ _ _ ⟨-, rfl, rfl⟩
  refine Method.Sat.bind (transition_body_sat journal h4 hm4.held .complete (hn2 ▸ by decide) ?_ ?_) ?_
  · rintro _ ⟨⟩
    decide
  · rintro _ ⟨⟩
  intro _ l5 d5 h5 hm5
  exact ⟨h5, l5.record, hm5.proper, hm5.confirmed, hm5.state, rfl⟩

theorem body_power_sat (h : Dependable floatRepr ev d) (hl : InHand ev l.record d) (hn : d.asked = [])
    (hP : Names l.record "P" P) :
    Method.Sat (DriveStep floatRepr limit) (Dependable floatRepr ev) (body journal P) l d
      (fun outcome _ d' => Concluded floatRepr outcome d') fun _ l' d' => InHand ev l'.record d' := by
  unfold body
  refine Method.Sat.bind (lifted_still hl (connect_power_sat h .switch)) ?_
  rintro _ _ d0 _ ⟨-, rfl, rfl⟩
  refine Method.Sat.bind (R := fun _ l' d' => (InHand ev l'.record d' ∧ Names l'.record "P" P) ∧ d' = d0)
    (Method.Sat.assign h ⟨⟨hl, hP⟩, rfl⟩) ?_
  rintro _ l1 _ _ ⟨⟨hl1, hP1⟩, rfl⟩
  refine Method.Sat.bind (lifted_still hl1 (connect_power_sat h .gba)) ?_
  rintro _ _ d1 _ ⟨-, rfl, rfl⟩
  refine Method.Sat.bind (R := fun _ l' d' => (InHand ev l'.record d' ∧ Names l'.record "P" P) ∧ d' = d1)
    (Method.Sat.assign h ⟨⟨hl1, hP1⟩, rfl⟩) ?_
  rintro _ l2 _ _ ⟨⟨hl2, hP2⟩, rfl⟩
  refine Method.Sat.bind (switchStage1_power_sat journal h hl2 (congrArg List.length hn) hP2) ?_
  rintro b l3 d3 h3 ⟨hl3, hn3, hB⟩
  refine Method.Sat.bind (gbaStage_power_sat journal h3 hl3 hn3 hB) ?_
  rintro a l4 d4 h4 ⟨hl4, hn4, hA⟩
  exact switchStage2_power_sat journal h4 hl4 hn4 hA

/-- The record of a failure goes into the journal, or does not: nothing else happens, and both are accounted
for. -/
theorem markRecovery_power_sat (h : Dependable floatRepr ev d) {r : JournalRecord} (hr : InHand ev r d) (exc : Exc) :
    Act.Sat (DriveStep floatRepr limit) (Dependable floatRepr ev) (markRecovery journal r exc) d (fun _ _ => True)
      fun _ _ => True := by
  unfold markRecovery
  by_cases hterm : r.state.terminal = true
  · rw [if_pos hterm]
    exact Act.Sat.pure h trivial
  · rw [if_neg hterm]
    refine Prog.Sat.bind (journal.transition_power_sat h hr .recoveryRequired hr.tells.recovery (fun e he => by cases he)
      fun e he => by cases he) ?_
    rintro ⟨written, r'⟩ d' hd' -
    cases written with
    | ok u => exact ⟨hd', trivial⟩
    | error e =>
        refine ⟨hd', ?_⟩
        cases e.isException <;> exact trivial

/-- The close of a console, its error swallowed or not. -/
theorem closeIf_power_sat (h : Dependable floatRepr ev d) (connected : Bool) (console : Console) :
    Act.Sat (DriveStep floatRepr limit) (Dependable floatRepr ev) (closeIf connected console) d (fun _ d' => d' = d)
      fun _ _ => True := by
  cases connected with
  | false => exact Act.Sat.pure h rfl
  | true =>
      have hclose : Act.Sat (DriveStep floatRepr limit) (Dependable floatRepr ev) (close console) d
          (fun _ d' => d' = d) fun _ d' => d' = d := by
        refine ⟨h, ?_⟩
        rintro answer d' rfl
        cases answer with
        | ok u => exact ⟨h, rfl⟩
        | error e => exact ⟨h, rfl⟩
      refine Act.Sat.bind (Act.Sat.attempt hclose) ?_
      rintro closed d' hd' hsame
      cases closed with
      | ok u => exact Act.Sat.pure hd' hsame
      | error e =>
          show Act.Sat _ _ (if e.isException then _ else _ : Broker Unit) _ _ _
          split
          · exact Act.Sat.pure hd' hsame
          · exact Act.Sat.throw hd' trivial

/-- **A whole run**: it is sound at every point, and what it returns is on the platter. -/
theorem execute_power_sat (hlimit : 3 ≤ limit) (h : Dependable floatRepr ev d) (P : Pokemon100) :
    Act.Sat (DriveStep floatRepr limit) (Dependable floatRepr ev) (execute journal P) d
      (fun outcome d' => Concluded floatRepr outcome d') fun _ _ => True := by
  unfold execute
  refine Act.Sat.bind ((ofExcept_power_sat h P.refuseMail).mono (fun _ hd => hd) (fun _ _ _ hv => hv)
    fun _ _ _ _ => trivial) ?_
  rintro _ _ _ ⟨-, rfl⟩
  refine Act.Sat.bind (journal.requireNewTransaction_power_sat hlimit h) ?_
  rintro _ _ _ rfl
  refine Act.Sat.bind (journal.create_power_sat hlimit h P) ?_
  rintro record d1 h1 ⟨hheld, hn, hP⟩
  refine Act.Sat.bind (R := fun ended d' => MEnds (fun outcome _ d' => Concluded floatRepr outcome d')
    (fun _ l' d' => InHand ev l'.record d') ended d') ?_ ?_
  · refine Prog.Sat.bind (body_power_sat journal (l := ⟨record, false, false⟩) h1 hheld hn hP) ?_
    intro ended d' hd' hended
    exact ⟨hd', hended⟩
  rintro ⟨ended, l⟩ d2 h2 hended
  -- The `except` clause.
  have hhandle : Act.Sat (DriveStep floatRepr limit) (Dependable floatRepr ev) (handle journal l.record ended) d2
      (fun outcome d' => Concluded floatRepr outcome d') fun _ _ => True := by
    cases ended with
    | ok outcome => exact Act.Sat.pure h2 hended
    | error exc =>
        show Act.Sat _ _ (if exc.isException then _ else _ : Broker TransactionOutcome) _ _ _
        split
        · refine Act.Sat.bind (markRecovery_power_sat journal h2 hended exc) ?_
          intro _ d' hd' _
          exact Act.Sat.throw hd' trivial
        · exact Act.Sat.throw h2 trivial
  refine Act.Sat.bind (Act.Sat.attempt hhandle) ?_
  intro answer d3 h3 hanswer
  refine Act.Sat.bind (closeIf_power_sat h3 l.gbaConnected .gba) ?_
  rintro _ _ _ rfl
  refine Act.Sat.bind (closeIf_power_sat h3 l.switchConnected .switch) ?_
  rintro _ _ _ rfl
  exact Act.Sat.ofExcept h3 hanswer

end TradeCoordinator

end TradeBroker
