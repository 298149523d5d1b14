/-
# TradeBroker.Firmware.Commit — what a commit report describes.

`committed` hashes what the fields of the bridge hold at that moment.  A report is about the trade that was
selected when these are still the offer and the record of the latest successful `select`, and when that
`select` belongs to the session that commits.  The bridge checks neither: a `SET_OFFER_MON` behind the
`select` replaces the offer, and `sessionStarted` leaves the fields of the session before.

`standing` follows the offer through the commands alone, so the condition is one on the deeds of the run.

The theorem is an `iff` over runs.  Its left side is about reports, its right side about deeds: between
the latest successful `select` and every `committed` nothing has put another record on offer, and there is
such a `select` in the session.  `actAll_offer` and `actAll_selected` follow the two fields through a run,
and what a report says is then a matter of comparing two deeds.
-/
import TradeBroker.Firmware.Session

namespace TradeBroker.Firmware

open Lib
open Gba (maxPayload)

variable (sha256 : Bytes → Bytes)

/-! ## §1 — what a deed sends. -/

/-- The frames that a deed hands to the transport, whether the transport takes them or not: what is on the
list behind it and was not before. -/
def sentBy (d : Deed) (s : TradeBridge) : List ParsedFrame :=
  (d.act sha256 s).2.link.frames.drop s.2.link.frames.length

/-- A frame, or nothing when the payload is too long. -/
theorem TradeBridge.codecSend_appends (type : Message) (payload : Bytes) (s : TradeBridge) :
    ∃ fs, (codecSend type payload s).2.link.frames = s.2.link.frames ++ fs ∧
      (∀ f ∈ fs, f.type = type ∧ f.payload = payload) ∧ (payload.length ≤ maxPayload → fs ≠ []) := by
  rcases codecSend_frames type payload s with h | ⟨-, h⟩
  · refine ⟨[], ?_, ?_, ?_⟩
    · rw [h, List.append_nil]
    · intro f hf
      cases hf
    · intro hle
      have htypes : (codecSend type payload s).2.link.frames.map ParsedFrame.type =
          s.2.link.frames.map ParsedFrame.type ++ [type] := codecSend_types s hle
      have hlen := congrArg List.length htypes
      rw [h, List.length_append, List.length_singleton] at hlen
      omega
  · refine ⟨_, h, ?_, ?_⟩
    · intro f hf
      rw [List.mem_singleton.mp hf]
      exact ⟨rfl, rfl⟩
    · intro _
      exact List.cons_ne_nil _ _

/-- One message that is sent, and nothing else: a frame on the list is that one. -/
theorem sent_once {type : Message} {payload : Bytes} {s t : TradeBridge} {f : ParsedFrame}
    (hframes : t.2.link.frames = s.2.link.frames)
    (hf : f ∈ (TradeBridge.codecSend type payload t).2.link.frames.drop s.2.link.frames.length) :
    f.type = type ∧ f.payload = payload := by
  obtain ⟨fs, hsent, hall, -⟩ := TradeBridge.codecSend_appends type payload t
  rw [hsent, hframes, List.drop_left] at hf
  exact hall f hf

/-- **Only `committed` reports a commit**, and it reports the fields as they are, whoever wrote them last. -/
theorem sent_commit {d : Deed} {s : TradeBridge} {f : ParsedFrame} (hf : f ∈ sentBy sha256 d s)
    (htype : f.type = .tradeCommitted) :
    d = .link .committed ∧ f.payload = sha256 s.2.offer ++ sha256 s.2.selected := by
  have hother : ∀ {type : Message} {payload : Bytes} {t : TradeBridge},
      f ∈ (TradeBridge.codecSend type payload t).2.link.frames.drop s.2.link.frames.length →
      t.2.link.frames = s.2.link.frames → type ≠ .tradeCommitted → False := by
    intro type payload t hin hframes hne
    exact hne ((sent_once hframes hin).1.symm.trans htype)
  cases d with
  | command frame =>
      exfalso
      have hin : f ∈ (TradeBridge.handle sha256 frame s).2.link.frames.drop s.2.link.frames.length := hf
      rcases TradeBridge.handle_cases sha256 frame with
        ⟨-, h⟩ | ⟨-, -, h⟩ | ⟨-, -, type, payload, htypes, h⟩
      · rw [h] at hin
        exact hother hin rfl (by decide)
      · rw [h] at hin
        exact hother hin rfl (by decide)
      · rw [h] at hin
        refine hother hin rfl ?_
        rcases htypes with rfl | rfl
        · decide
        · decide
  | link e =>
      cases e with
      | committed => exact ⟨rfl, (sent_once rfl hf).2⟩
      | sessionStarted => exact (hother hf rfl (by decide)).elim
      | partnerPartyReady party => exact (hother hf rfl (by decide)).elim
      | linkClosed => exact (hother hf rfl (by decide)).elim
      | select party partnerSlot =>
          exfalso
          have hin : f ∈ (s.select party partnerSlot).2.2.link.frames.drop s.2.link.frames.length := hf
          by_cases h : s.2.offerReady = false ∨ 5 < partnerSlot
          · rw [TradeBridge.select_refused party h] at hin
            exact hother hin rfl (by decide)
          · -- two messages, the slot and the record
            rw [TradeBridge.select_taken party h] at hin
            obtain ⟨fs, hfs, hslot, -⟩ := TradeBridge.codecSend_appends .partnerSelectedSlot [partnerSlot]
              (TradeBridge.chosen party partnerSlot s)
            obtain ⟨gs, hgs, hmon, -⟩ := TradeBridge.codecSend_appends .partnerSelectedMon
              (TradeBridge.chosen party partnerSlot s).2.selected
              (TradeBridge.codecSend .partnerSelectedSlot [partnerSlot]
                (TradeBridge.chosen party partnerSlot s))
            rw [hgs, hfs, List.append_assoc] at hin
            have hframes : (TradeBridge.chosen party partnerSlot s).2.link.frames = s.2.link.frames := rfl
            rw [hframes, List.drop_left] at hin
            rcases List.mem_append.mp hin with hin | hin
            · rw [(hslot f hin).1] at htype
              exact absurd htype (by decide)
            · rw [(hmon f hin).1] at htype
              exact absurd htype (by decide)

/-- `committed` does report, with digests of 32 bytes. -/
theorem committed_sends (hdigest : ∀ bs, (sha256 bs).length = 32) (s : TradeBridge) :
    ∃ f ∈ sentBy sha256 (.link .committed) s, f.type = .tradeCommitted := by
  obtain ⟨fs, hsent, hall, hne⟩ :=
    TradeBridge.codecSend_appends .tradeCommitted (sha256 s.2.offer ++ sha256 s.2.selected) s
  have hlen : (sha256 s.2.offer ++ sha256 s.2.selected).length ≤ maxPayload := by
    rw [List.length_append, hdigest, hdigest]
    decide
  obtain ⟨f, rest, rfl⟩ := List.exists_cons_of_ne_nil (hne hlen)
  refine ⟨f, ?_, (hall f List.mem_cons_self).1⟩
  show f ∈ (TradeBridge.codecSend .tradeCommitted (sha256 s.2.offer ++ sha256 s.2.selected) s).2.link.frames.drop
    s.2.link.frames.length
  rw [hsent, List.drop_left]
  exact List.mem_cons_self

/-! ## §2 — the offer and the selection along a run. -/

instance (frame : ParsedFrame) : Decidable (TradeBridge.ValidOffer frame) :=
  inferInstanceAs (Decidable (_ ∧ _ ∧ _))

/-- The record on offer behind some deeds, when `o` was on offer before: the record of the last valid
`SET_OFFER_MON` among them. -/
def standing : List Deed → Bytes → Bytes
  | [], o => o
  | .command frame :: deeds, o =>
      if TradeBridge.ValidOffer frame then standing deeds (frame.payload.drop 1) else standing deeds o
  | .link _ :: deeds, o => standing deeds o

/-- The record that `select` captures: the hundred bytes at the partner's slot. -/
def captured (party : Party) (partnerSlot : UInt8) : Bytes :=
  slice party.bytes (partnerSlot.toNat * 100) ((partnerSlot.toNat + 1) * 100)

/-- What a deed does to the offer: a valid `SET_OFFER_MON` replaces it, and nothing else does. -/
theorem Deed.act_offer (d : Deed) (s : TradeBridge) : (d.act sha256 s).2.offer = standing [d] s.2.offer := by
  cases d with
  | command frame =>
      show (TradeBridge.handle sha256 frame s).2.offer = _
      rw [standing]
      rcases TradeBridge.handle_cases sha256 frame with
        ⟨hhello, h⟩ | ⟨-, hvalid, h⟩ | ⟨-, hvalid, type, payload, -, h⟩
      · have hnot : ¬ TradeBridge.ValidOffer frame := by
          rintro ⟨htype, -⟩
          rw [hhello] at htype
          exact absurd htype (by decide)
        rw [if_neg hnot, h]
        rfl
      · rw [if_pos hvalid, h]
        rfl
      · rw [if_neg hvalid, h]
        rfl
  | link e =>
      cases e with
      | select party partnerSlot =>
          show (s.select party partnerSlot).2.2.offer = _
          by_cases h : s.2.offerReady = false ∨ 5 < partnerSlot
          · rw [TradeBridge.select_refused party h]
            rfl
          · rw [TradeBridge.select_taken party h]
            rfl
      | sessionStarted => rfl
      | partnerPartyReady party => rfl
      | committed => rfl
      | linkClosed => rfl

theorem standing_cons (d : Deed) (deeds : List Deed) (o : Bytes) :
    standing (d :: deeds) o = standing deeds (standing [d] o) := by
  cases d with
  | link e => rfl
  | command frame =>
      rw [standing, standing]
      split
      · rfl
      · rfl

/-- **The offer is a matter of the commands**: no link event touches it. -/
theorem actAll_offer (deeds : List Deed) (s : TradeBridge) :
    (actAll sha256 deeds s).2.offer = standing deeds s.2.offer := by
  induction deeds generalizing s with
  | nil => rfl
  | cons d deeds ih =>
      show (actAll sha256 deeds (d.act sha256 s)).2.offer = _
      rw [ih, Deed.act_offer, ← standing_cons]

/-- What a deed does to the selection: a `select` that succeeds replaces it. -/
theorem Deed.act_selected (d : Deed) (s : TradeBridge) :
    (∃ party partnerSlot, d = .link (.select party partnerSlot) ∧ PutsUp party partnerSlot s ∧
        (d.act sha256 s).2.selected = captured party partnerSlot) ∨
      (∀ party partnerSlot, d = .link (.select party partnerSlot) → ¬ PutsUp party partnerSlot s) ∧
        (d.act sha256 s).2.selected = s.2.selected := by
  cases d with
  | command frame =>
      refine Or.inr ⟨?_, ?_⟩
      · intro party partnerSlot h
        cases h
      · show (TradeBridge.handle sha256 frame s).2.selected = _
        rcases TradeBridge.handle_cases sha256 frame with ⟨-, h⟩ | ⟨-, -, h⟩ | ⟨-, -, type, payload, -, h⟩
        · rw [h]
          rfl
        · rw [h]
          rfl
        · rw [h]
          rfl
  | link e =>
      cases e with
      | select party partnerSlot =>
          by_cases h : s.2.offerReady = false ∨ 5 < partnerSlot
          · refine Or.inr ⟨?_, ?_⟩
            · intro party' partnerSlot' hsame hup
              cases hsame
              obtain ⟨hready, hslot⟩ := (putsUp_iff party partnerSlot s).mp hup
              rcases h with h | h
              · rw [hready] at h
                cases h
              · exact absurd h (UInt8.not_lt.mpr hslot)
            · show (s.select party partnerSlot).2.2.selected = _
              rw [TradeBridge.select_refused party h]
              rfl
          · refine Or.inl ⟨party, partnerSlot, rfl, ?_, ?_⟩
            · rw [not_or, Bool.not_eq_false, UInt8.not_lt] at h
              exact (putsUp_iff party partnerSlot s).mpr h
            · show (s.select party partnerSlot).2.2.selected = _
              rw [TradeBridge.select_taken party h]
              rfl
      | sessionStarted =>
          refine Or.inr ⟨?_, rfl⟩
          intro _ _ h
          cases h
      | partnerPartyReady party =>
          refine Or.inr ⟨?_, rfl⟩
          intro _ _ h
          cases h
      | committed =>
          refine Or.inr ⟨?_, rfl⟩
          intro _ _ h
          cases h
      | linkClosed =>
          refine Or.inr ⟨?_, rfl⟩
          intro _ _ h
          cases h

/-- Without a successful `select` the selection stays what it was, through commands and link events. -/
theorem actAll_selected {deeds : List Deed} {s : TradeBridge}
    (h : ∀ before party partnerSlot after, deeds = before ++ .link (.select party partnerSlot) :: after →
      ¬ PutsUp party partnerSlot (actAll sha256 before s)) :
    (actAll sha256 deeds s).2.selected = s.2.selected := by
  induction deeds generalizing s with
  | nil => rfl
  | cons d deeds ih =>
      show (actAll sha256 deeds (d.act sha256 s)).2.selected = _
      have hrest : (actAll sha256 deeds (d.act sha256 s)).2.selected = (d.act sha256 s).2.selected := by
        apply ih
        intro before party partnerSlot after hsplit
        exact h (d :: before) party partnerSlot after (by rw [hsplit, List.cons_append])
      rcases d.act_selected sha256 s with ⟨party, partnerSlot, rfl, hup, -⟩ | ⟨-, hsame⟩
      · exact absurd hup (h [] party partnerSlot deeds rfl)
      · rw [hrest, hsame]

/-- `party` and `partnerSlot` are those of the latest successful `select` since the last `sessionStarted`, and
`earlier` are the deeds before it; `since` are those behind it. -/
structure LatestSelect (deeds earlier : List Deed) (party : Party) (partnerSlot : UInt8) (since : List Deed) :
    Prop where
  split : deeds = earlier ++ .link (.select party partnerSlot) :: since
  succeeds : PutsUp party partnerSlot (actAll sha256 earlier TradeBridge.fresh)
  session : ∀ d ∈ since, d ≠ .link .sessionStarted
  latest : ∀ before party' partnerSlot' after, since = before ++ .link (.select party' partnerSlot') :: after →
    ¬ PutsUp party' partnerSlot'
      (actAll sha256 (earlier ++ .link (.select party partnerSlot) :: before) TradeBridge.fresh)

/-- What the fields hold behind the latest successful `select`: the offer that stands, and its record. -/
theorem LatestSelect.fields {deeds earlier since : List Deed} {party : Party} {partnerSlot : UInt8}
    (h : LatestSelect sha256 deeds earlier party partnerSlot since) :
    (actAll sha256 deeds TradeBridge.fresh).2.offer =
        standing since (actAll sha256 earlier TradeBridge.fresh).2.offer ∧
      (actAll sha256 deeds TradeBridge.fresh).2.selected = captured party partnerSlot := by
  have hsplit : ∀ more : List Deed,
      actAll sha256 (earlier ++ .link (.select party partnerSlot) :: more) TradeBridge.fresh =
        actAll sha256 more ((Deed.link (.select party partnerSlot)).act sha256
          (actAll sha256 earlier TradeBridge.fresh)) := by
    intro more
    rw [actAll, List.foldl_append]
    rfl
  rw [h.split, hsplit]
  constructor
  · rw [actAll_offer, Deed.act_offer]
    rfl
  · have hkept := actAll_selected sha256 (s := (Deed.link (.select party partnerSlot)).act sha256
        (actAll sha256 earlier TradeBridge.fresh)) (by
      intro before party' partnerSlot' after hsince
      rw [← hsplit]
      exact h.latest before party' partnerSlot' after hsince)
    rw [hkept]
    rcases (Deed.link (.select party partnerSlot)).act_selected sha256
      (actAll sha256 earlier TradeBridge.fresh) with ⟨party', partnerSlot', hsame, -, hselected⟩ | ⟨hno, -⟩
    · cases hsame
      exact hselected
    · exact absurd h.succeeds (hno party partnerSlot rfl)

/-! ## §3 — every report of a run. -/

/-- **When a commit report describes the trade that was selected.**  In a run of handled commands and link
events, every `TRADE_COMMITTED` comes behind a successful `select` of its session and holds the digests of the
offer in place at the latest one and of the record captured by it, exactly when every `committed` comes behind
such a `select` and the commands handled in between leave a record of the same digest on offer. -/
theorem commits_describe_selection_iff (hdigest : ∀ bs, (sha256 bs).length = 32) (deeds : List Deed) :
    (∀ before d after, deeds = before ++ d :: after →
      ∀ f ∈ sentBy sha256 d (actAll sha256 before TradeBridge.fresh), f.type = .tradeCommitted →
        ∃ earlier party partnerSlot since, LatestSelect sha256 before earlier party partnerSlot since ∧
          f.payload = sha256 (actAll sha256 earlier TradeBridge.fresh).2.offer ++
            sha256 (captured party partnerSlot)) ↔
      ∀ before after, deeds = before ++ .link .committed :: after →
        ∃ earlier party partnerSlot since, LatestSelect sha256 before earlier party partnerSlot since ∧
          sha256 (standing since (standing earlier TradeBridge.fresh.2.offer)) =
            sha256 (standing earlier TradeBridge.fresh.2.offer) := by
  constructor
  · intro hdescribes before after hsplit
    obtain ⟨f, hf, htype⟩ := committed_sends sha256 hdigest (actAll sha256 before TradeBridge.fresh)
    obtain ⟨earlier, party, partnerSlot, since, hlatest, hpayload⟩ :=
      hdescribes before _ after hsplit f hf htype
    refine ⟨earlier, party, partnerSlot, since, hlatest, ?_⟩
    obtain ⟨hoffer, hselected⟩ := hlatest.fields
    rw [(sent_commit sha256 hf htype).2, hoffer, hselected, actAll_offer] at hpayload
    exact List.append_cancel_right hpayload
  · intro hcond before d after hsplit f hf htype
    obtain ⟨rfl, hpayload⟩ := sent_commit sha256 hf htype
    obtain ⟨earlier, party, partnerSlot, since, hlatest, hsame⟩ := hcond before after hsplit
    refine ⟨earlier, party, partnerSlot, since, hlatest, ?_⟩
    obtain ⟨hoffer, hselected⟩ := hlatest.fields
    rw [hpayload, hoffer, hselected, actAll_offer, hsame]

namespace Sample

theorem length_emptyParty : (List.replicate 600 (0 : UInt8)).length = 600 := List.length_replicate

def emptyParty : Party := ⟨List.replicate 600 0, length_emptyParty⟩

/-- Another record for the offer, with the next sequence number. -/
def otherOffer : ParsedFrame := ⟨.setOfferMon, .nil, 2, 0 :: List.replicate 100 8⟩

/-- An offer, a session and a selection, which is all that a commit needs. -/
def selection : List Deed := [.command offerFrame, .link .sessionStarted, .link (.select emptyParty 0)]

theorem selection_putsUp : PutsUp emptyParty 0
    (actAll Lib.sha256 [.command offerFrame, .link .sessionStarted] TradeBridge.fresh) := by
  rw [putsUp_iff]
  have hready : (actAll Lib.sha256 [.command offerFrame, .link .sessionStarted]
      TradeBridge.fresh).2.offerReady = true := by
    decide +kernel
  exact ⟨hready, by decide⟩

/-- **A report of another record**: the offer is replaced between the selection and the commit.  And a report
without any selection. -/
theorem commit_reports_replaced_offer :
    (∃ f ∈ sentBy Lib.sha256 (.link .committed)
        (actAll Lib.sha256 (selection ++ [.command otherOffer]) TradeBridge.fresh),
      f.type = .tradeCommitted ∧
        ¬ ∃ earlier party partnerSlot since,
          LatestSelect Lib.sha256 (selection ++ [.command otherOffer]) earlier party partnerSlot since ∧
            f.payload = Lib.sha256 (actAll Lib.sha256 earlier TradeBridge.fresh).2.offer ++
              Lib.sha256 (captured party partnerSlot)) ∧
      ∃ f ∈ sentBy Lib.sha256 (.link .committed) (actAll Lib.sha256 [] TradeBridge.fresh),
        f.type = .tradeCommitted ∧ ∀ earlier party partnerSlot since,
          ¬ LatestSelect Lib.sha256 [] earlier party partnerSlot since := by
  constructor
  · obtain ⟨f, hf, htype⟩ := committed_sends Lib.sha256 length_sha256
      (actAll Lib.sha256 (selection ++ [.command otherOffer]) TradeBridge.fresh)
    refine ⟨f, hf, htype, ?_⟩
    rintro ⟨earlier, party, partnerSlot, since, hlatest, hpayload⟩
    obtain ⟨hoffer, hselected⟩ := hlatest.fields
    rw [(sent_commit Lib.sha256 hf htype).2, hoffer, hselected, actAll_offer] at hpayload
    have hsame := List.append_cancel_right hpayload
    -- the only selection is the third deed
    obtain ⟨rfl, rfl⟩ : earlier = [.command offerFrame, .link .sessionStarted] ∧
        since = [.command otherOffer] := by
      have hsplit := hlatest.split
      rcases earlier with _ | ⟨a, _ | ⟨b, _ | ⟨c, _ | ⟨d, rest⟩⟩⟩⟩
      · simp [selection] at hsplit
      · simp [selection] at hsplit
      · simp only [selection, List.cons_append, List.nil_append, List.cons.injEq] at hsplit
        obtain ⟨rfl, rfl, -, hsince⟩ := hsplit
        exact ⟨rfl, hsince.symm⟩
      · simp [selection] at hsplit
      · simp [selection] at hsplit
    exact absurd hsame (by decide +kernel)
  · obtain ⟨f, hf, htype⟩ := committed_sends Lib.sha256 length_sha256
      (actAll Lib.sha256 [] TradeBridge.fresh)
    refine ⟨f, hf, htype, ?_⟩
    intro earlier party partnerSlot since hlatest
    exact absurd hlatest.split.symm (by simp)

theorem commits_describe_selection_steady :
    (∀ bs, (Lib.sha256 bs).length = 32) ∧
      ∀ before d after, selection ++ [.link .committed] = before ++ d :: after →
        ∀ f ∈ sentBy Lib.sha256 d (actAll Lib.sha256 before TradeBridge.fresh), f.type = .tradeCommitted →
          ∃ earlier party partnerSlot since, LatestSelect Lib.sha256 before earlier party partnerSlot since ∧
            f.payload = Lib.sha256 (actAll Lib.sha256 earlier TradeBridge.fresh).2.offer ++
              Lib.sha256 (captured party partnerSlot) := by
  refine ⟨length_sha256, ?_⟩
  refine (commits_describe_selection_iff Lib.sha256 length_sha256 (selection ++ [.link .committed])).mpr ?_
  intro before after hsplit
  obtain rfl : before = selection := by
    rcases before with _ | ⟨a, _ | ⟨b, _ | ⟨c, _ | ⟨d, rest⟩⟩⟩⟩
    · simp [selection] at hsplit
    · simp [selection] at hsplit
    · simp [selection] at hsplit
    · simp only [selection, List.cons_append, List.nil_append, List.cons.injEq] at hsplit
      obtain ⟨rfl, rfl, rfl, -⟩ := hsplit
      rfl
    · simp [selection] at hsplit
  refine ⟨[.command offerFrame, .link .sessionStarted], emptyParty, 0, [], ⟨rfl, selection_putsUp, ?_, ?_⟩, rfl⟩
  · intro d hd
    cases hd
  · intro before' party' partnerSlot' after' hnil
    exact absurd hnil.symm (by simp)

end Sample

end TradeBroker.Firmware
