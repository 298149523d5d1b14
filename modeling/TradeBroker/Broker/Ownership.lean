/-
# TradeBroker.Broker.Ownership — the locations map against the real owners.

Each console holds one record that it may trade, the broker holds `P`.  A trade with a console either
swaps what the two hold or it does not, and what really happened is in the trace even when the
program cannot see it (`Trade.swapped`).  An HONEST endpoint may raise before or after the swap,
report an unconfirmed commit without swapping, or swap and report the records truthfully.

The journal lags behind the world by at most one trade, the one that the state announces: in every
other state of the chain the map is the truth, at every crash point.

The owners are a function of the trades (`ownersAfter`), so the statement compares two things that can
both be computed from a trace: what the journal on disk says, and what the swaps have made of the initial
owners.  The parties are three and the records are three, and a swap exchanges exactly two of them, which
is why nothing can be in two places.

Locations are texts with remarks in brackets.  `readLocation` takes the first word, and that is the only
place where a text of the journal is interpreted.
-/
import TradeBroker.Broker.Safety

namespace TradeBroker

open Lib

/-! ## §1 — owners. -/

inductive Party where
  | gba
  | switch
  | broker
  deriving DecidableEq

/-- The three records, by the role they have in the exchange. -/
inductive Label where
  | A
  | B
  | P
  deriving DecidableEq

def Label.name : Label → PyStr
  | .A => "A"
  | .B => "B"
  | .P => "P"

def Console.party : Console → Party
  | .gba => .gba
  | .switch => .switch

/-- Who holds what: the party of each of the three records.  Two records may have one party only if the trades
say so, which settled trades never do. -/
abbrev Owners : Type := Label → Party

namespace Owners

/-- Before the first trade: each record is where it belongs. -/
def initial : Owners
  | .A => .gba
  | .B => .switch
  | .P => .broker

/-- The broker and a console exchange what they hold, and the other console is not concerned. -/
def swap (o : Owners) (console : Console) : Owners := fun l =>
  if o l = .broker then console.party
  else if o l = console.party then .broker
  else o l

/-- What a party holds, of the three records. -/
def held (o : Owners) (party : Party) : Option Label :=
  [Label.A, Label.B, Label.P].find? fun l => decide (o l = party)

/-- The owners after one trade, whatever the program saw of it: a swap that was followed by an exception is a
swap. -/
def after (o : Owners) (t : Trade) : Owners := if t.swapped then o.swap t.console else o

end Owners

/-- The real owners after a list of trades, each of which swaps two records. -/
def ownersAfter (ts : List Trade) : Owners := ts.foldl Owners.after .initial

/-! ## §2 — honest endpoints. -/

/-- A result as an honest endpoint reports it: it names the records that really changed hands, and confirms
only what was swapped. -/
def TradeResult.honest (content : Label → Pokemon100) (o : Owners) (t : Trade) (r : TradeResult) :
    Bool :=
  if r.commitConfirmed then
    t.swapped && decide (r.offeredMon = t.offered) &&
      decide ((o.held t.console.party).map content = some r.receivedMon)
  else !t.swapped

def Trade.honest (content : Label → Pokemon100) (o : Owners) (t : Trade) : Bool :=
  match t.outcome with
  | .raised _ => true
  | .switchResult r => r.honest content o t
  | .gbaResult r => r.toTradeResult.honest content o t

def honest (content : Label → Pokemon100) : Owners → List Trade → Bool
  | _, [] => true
  | o, t :: ts => t.honest content o && honest content (o.after t) ts

theorem honest_append (content : Label → Pokemon100) (o : Owners) (ts ts' : List Trade) :
    honest content o (ts ++ ts') =
      (honest content o ts && honest content (ts.foldl Owners.after o) ts') := by
  induction ts generalizing o with
  | nil => simp [honest]
  | cons t ts ih => simp only [List.cons_append, honest, ih, List.foldl_cons, Bool.and_assoc]

theorem TradeResult.honest_confirmed {content : Label → Pokemon100} {o : Owners} {t : Trade}
    {r : TradeResult} (h : r.honest content o t = true) (hc : r.commitConfirmed = true) :
    t.swapped = true ∧ (o.held t.console.party).map content = some r.receivedMon := by
  unfold TradeResult.honest at h
  rw [if_pos hc] at h
  simp only [Bool.and_eq_true, decide_eq_true_eq] at h
  exact ⟨h.1.1, h.2⟩

/-! ## §3 — owners of a progress. -/

/-- Who holds what when the exchange stands at a progress and no trade is pending. -/
def Progress.owners : Progress → Owners
  | .start => Owners.initial
  | .gotB _ => fun
      | .A => .gba
      | .B => .broker
      | .P => .switch
  | .gotA _ _ _ => fun
      | .A => .broker
      | .B => .gba
      | .P => .switch
  | .gotP _ _ _ _ => fun
      | .A => .switch
      | .B => .gba
      | .P => .broker

/-- The records that were received are the ones the labels stand for. -/
def Named (content : Label → Pokemon100) (g : Progress) : Prop :=
  (∀ b, g.b? = some b → b = content .B) ∧ ∀ a, g.a? = some a → a = content .A

/-- **Settled trades really happened**: with honest endpoints they lead to the owners of the progress, and the
labels name the right records.  The induction is on the trades. -/
theorem Accounts.owners {P : Pokemon100} {g : Progress} {ts : List Trade} (h : Accounts P g ts)
    {content : Label → Pokemon100} (hh : honest content .initial ts = true) :
    ownersAfter ts = g.owners ∧ Named content g := by
  induction h with
  | start => exact ⟨rfl, by simp [Progress.b?], by simp [Progress.a?]⟩
  | @settle g g' ts t _ hreq hset ih =>
      rw [honest_append, Bool.and_eq_true] at hh
      obtain ⟨howners, hnamed⟩ := ih hh.1
      have ht : t.honest content g.owners = true := by
        have := hh.2
        simp only [honest, Bool.and_true] at this
        rw [← howners]
        exact this
      have hafter : ownersAfter (ts ++ [t]) = g.owners.after t := by
        unfold ownersAfter at howners ⊢
        rw [List.foldl_append, howners]
        rfl
      rw [hafter]
      unfold Trade.honest at ht
      cases g' with
      | start => exact absurd hset settle_ne_start
      | gotB b =>
          obtain ⟨rfl, r, ho, _, hc, _, rfl⟩ := settle_gotB hset
          obtain ⟨hconsole, _⟩ := hreq.call rfl
          rw [ho] at ht
          obtain ⟨hsw, hrec⟩ := TradeResult.honest_confirmed ht hc
          rw [hconsole] at hrec
          refine ⟨?_, ?_, by simp [Progress.a?]⟩
          · unfold Owners.after
            rw [if_pos hsw, hconsole]
            funext l
            cases l <;> rfl
          · intro b hb
            obtain rfl := Option.some.inj hb
            exact (Option.some.inj hrec).symm
      | gotA b a slot =>
          obtain ⟨rfl, r, ho, _, hc, _, _, _, rfl, _⟩ := settle_gotA hset
          obtain ⟨hconsole, _⟩ := hreq.call rfl
          rw [ho] at ht
          obtain ⟨hsw, hrec⟩ := TradeResult.honest_confirmed ht hc
          rw [hconsole] at hrec
          refine ⟨?_, hnamed.1, ?_⟩
          · unfold Owners.after
            rw [if_pos hsw, hconsole]
            funext l
            cases l <;> rfl
          · intro a ha
            obtain rfl := Option.some.inj ha
            exact (Option.some.inj hrec).symm
      | gotP b a slot returned =>
          obtain ⟨rfl, r, ho, _, hc, _⟩ := settle_gotP hset
          obtain ⟨hconsole, _⟩ := hreq.call rfl
          rw [ho] at ht
          obtain ⟨hsw, _⟩ := TradeResult.honest_confirmed ht hc
          refine ⟨?_, hnamed⟩
          unfold Owners.after
          rw [if_pos hsw, hconsole]
          funext l
          cases l <;> rfl

/-! ## §4 — reading the journal. -/

/-- The first word of a location: `gba (unobserved)` reads as `gba`. -/
def readLocation (text : PyStr) : Option Party :=
  let word := text.takeWhile fun c => decide (c ≠ codePoint ' ')
  if word = lit "gba" then some .gba
  else if word = lit "switch" then some .switch
  else if word = lit "broker" then some .broker
  else none

/-- Where a `locations` member puts a record, if it names a party. -/
def locationIn : Json → Label → Option Party
  | .obj fields, l =>
      match Json.member fields l.name with
      | some (.str text) => readLocation text
      | _ => none
  | _, _ => none

/-- The recorded owners: the map names all three records, and each of them where its owner says. -/
def Records (raw : RawRecord) (o : Owners) : Prop := ∀ l, locationIn raw.locations l = some (o l)

/-- The console whose trade a state announces; in these states, and in no others, the map may lag behind. -/
def JournalState.announces : JournalState → Option Console
  | .switchStage1Started => some .switch
  | .gbaStageStarted => some .gba
  | .switchStage2Started => some .switch
  | _ => none

/-- The last state of the chain that the record has been in, which for a journal in recovery is the state in
which it was closed. -/
def LastInChain (raw : RawRecord) (s : JournalState) : Prop :=
  raw.state = s ∨ (raw.state = .recoveryRequired ∧
    raw.history.map RawEntry.state =
      (s.upTo ++ [JournalState.recoveryRequired]).map (fun s => .str s.value))

theorem locations_owners {g : Progress} {s : JournalState} (h : s ∈ g.states) (l : Label) :
    locationIn (JournalRecord.rawLocations s.locations) l = some (g.owners l) := by
  cases g <;> simp only [Progress.states, List.mem_cons, List.not_mem_nil, or_false] at h
  · rcases h with rfl | rfl <;> cases l <;> rfl
  · rcases h with rfl | rfl | rfl <;> cases l <;> rfl
  · rcases h with rfl | rfl | rfl <;> cases l <;> rfl
  · rcases h with rfl | rfl <;> cases l <;> rfl

/-- The state of the requested trade announces its console. -/
theorem request_announces {P : Pokemon100} {g : Progress} {q : Request}
    (h : g.request P = some q) : q.state.announces = some q.console := by
  cases g <;> simp only [Progress.request, Option.some.injEq, reduceCtorEq] at h <;> subst h <;> rfl

/-- What a position says about the owners: the record's map, and the real owners, which are one announced
trade ahead of it at most. -/
theorem Position.owners {a0 : ArtifactPath → Option Bytes} {P : Pokemon100} {g ga : Progress}
    {pend : List Trade} {r : JournalRecord} {w : World} (h : Position a0 P g pend ga r w)
    {content : Label → Pokemon100} (hh : honest content .initial (trades w.trace) = true) :
    Named content g ∧ (ownersAfter (trades w.trace) = g.owners ∨
      ∃ console, r.state.announces = some console ∧
        ownersAfter (trades w.trace) = g.owners.swap console) := by
  obtain ⟨ts, hts, hacc⟩ := h.accounts
  rw [hts, honest_append, Bool.and_eq_true] at hh
  obtain ⟨howners, hnamed⟩ := hacc.owners hh.1
  refine ⟨hnamed, ?_⟩
  rw [hts]
  rcases h.pending with rfl | ⟨t, rfl, hreq, hstate⟩
  · rw [List.append_nil]
    exact Or.inl howners
  · have hafter : ownersAfter (ts ++ [t]) = g.owners.after t := by
      unfold ownersAfter at howners ⊢
      rw [List.foldl_append, howners]
      rfl
    rw [hafter]
    unfold Owners.after
    cases hsw : t.swapped with
    | false => exact Or.inl rfl
    | true =>
        obtain ⟨q, _, hq, hc, _⟩ := hreq
        refine Or.inr ⟨t.console, ?_, rfl⟩
        rw [hq] at hstate
        rw [← Option.some.inj hstate, hc]
        exact request_announces hq

/-- The hashes of a booked record are those of the real records. -/
theorem Named.hashes {content : Label → Pokemon100} {g : Progress} (h : Named content g)
    {r : JournalRecord} (hb : Booked (content .P) g r) (l : Label) {hash : PyStr}
    (hl : r.raw.hash? l.name = some hash) : hash = (content l).sha256 := by
  cases l with
  | P => exact (Option.some.inj (hb.hash_P.symm.trans hl)).symm
  | B =>
      have hl : g.b?.map Pokemon100.sha256 = some hash := hb.hash_B.symm.trans hl
      obtain ⟨b, hb, rfl⟩ := Option.map_eq_some_iff.mp hl
      rw [h.1 b hb]
  | A =>
      have hl : g.a?.map Pokemon100.sha256 = some hash := hb.hash_A.symm.trans hl
      obtain ⟨a, ha, rfl⟩ := Option.map_eq_some_iff.mp hl
      rw [h.2 a ha]

/-- The states that announce no trade. -/
def JournalState.settledStates : List JournalState :=
  [.idle, .switchBCaptured, .placeholderOnSwitch, .gbaACaptured, .bCommittedToGba,
   .aCommittedToSwitch, .complete]

/-- What the durable record `raw` says about the owners `real`, and what it leaves open while a trade is under
way. -/
structure TellsTheTruth (content : Label → Pokemon100) (raw : RawRecord) (real : Owners) : Prop where
  settled : raw.state ∈ JournalState.settledStates → Records raw real
  ambiguous : raw.state ∈ [JournalState.switchStage1Started, .gbaStageStarted,
      .switchStage2Started, .recoveryRequired] →
    ∃ s recorded, LastInChain raw s ∧ Records raw recorded ∧
      (real = recorded ∨ ∃ console, s.announces = some console ∧ real = recorded.swap console)
  named : ∀ (l : Label) hash, raw.hash? l.name = some hash → hash = (content l).sha256

/-- **Ownership truth**, at every crash point of every run against honest endpoints. -/
theorem locations_tell_the_truth (journal : JournalStore) {d : Disk} (hd : d.journal = none)
    {content : Label → Pokemon100} {q : Prog Op Ret (Except Exc TransactionOutcome)} {v : World}
    (hr : Prog.Reach Step (TradeCoordinator.execute journal (content .P)).run ⟨d, []⟩ q v)
    (hh : honest content .initial (trades v.trace) = true) {text : JournalText} {raw : RawRecord}
    (hj : v.disk.journal = some text) (hl : text.load journal = .ok raw) :
    TellsTheTruth content raw (ownersAfter (trades v.trace)) := by
  have hinv := (Act.Sat.reach (TradeCoordinator.execute_sat journal d hd (content .P)) hr).inv
  rcases hinv with hblank | ⟨g, pend, ga, r, hpos, hjournal⟩
  · rw [hblank.journal] at hj
    exact absurd hj (by simp)
  obtain ⟨hnamed, hreal⟩ := hpos.owners hh
  have hrecords : Records r.raw g.owners := by
    intro l
    show locationIn (JournalRecord.rawLocations r.locations) l = _
    rw [hpos.booked.locations]
    exact locations_owners hpos.booked.span l
  rcases hjournal with hjournal | ⟨_, now, error, hjournal⟩
  · obtain rfl := Option.some.inj (hj.symm.trans hjournal)
    obtain rfl := Except.ok.inj ((load_document journal hpos.booked).symm.trans hl)
    refine ⟨?_, fun _ => ⟨r.state, g.owners, Or.inl rfl, hrecords, hreal⟩,
      fun l hash => hnamed.hashes hpos.booked l⟩
    intro hs
    -- No trade is announced, so none is pending.
    have hnone : r.state.announces = none := by
      have hs : r.state ∈ JournalState.settledStates := hs
      simp only [JournalState.settledStates, List.mem_cons, List.not_mem_nil, or_false] at hs
      rcases hs with hs | hs | hs | hs | hs | hs | hs <;> rw [hs] <;> rfl
    rcases hreal with hreal | ⟨console, hc, _⟩
    · rw [hreal]
      exact hrecords
    · rw [hnone] at hc
      exact absurd hc (by simp)
  · obtain rfl := Option.some.inj (hj.symm.trans hjournal)
    obtain rfl := Except.ok.inj ((load_recovered journal hpos.booked now error).symm.trans hl)
    refine ⟨?_, fun _ => ⟨r.state, g.owners, Or.inr ⟨rfl, ?_⟩, hrecords, hreal⟩,
      fun l hash => hnamed.hashes hpos.booked l⟩
    · intro hs
      exact absurd hs (show JournalState.recoveryRequired ∉ JournalState.settledStates by decide)
    · exact recovered_history hpos.booked now error

/-- The cast of `goodRun`. -/
def sampleContent : Label → Pokemon100
  | .A => sampleMon 1
  | .B => sampleMon 2
  | .P => sampleMon 0

theorem locations_tell_the_truth_goodRun :
    ∃ text raw, goodRun.2.disk.journal = some text ∧ text.load sampleStore = .ok raw ∧
      TellsTheTruth sampleContent raw (ownersAfter (trades goodRun.2.trace)) := by
  have hh : honest sampleContent .initial (trades goodRun.2.trace) = true := by
    obtain ⟨_, _, _, htrades⟩ := goodRun_trades
    rw [htrades]
    rfl
  obtain ⟨_, b, a, slot, r, hpos, hj, _⟩ := Act.Sat.finish
    (TradeCoordinator.execute_sat sampleStore emptyDisk rfl (sampleMon 0))
    (goodRun_eval.1 ▸ goodRun_finish)
  have hload := load_document sampleStore hpos.booked
  have hrun : Prog.Reach Step (TradeCoordinator.execute sampleStore (sampleContent .P)).run
      ⟨emptyDisk, []⟩ (.done goodRun.1) goodRun.2 := goodRun_finish
  exact ⟨_, _, hj, hload, locations_tell_the_truth sampleStore rfl hrun hh hj hload⟩

end TradeBroker
