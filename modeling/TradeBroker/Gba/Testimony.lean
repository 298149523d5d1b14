/-
# TradeBroker.Gba.Testimony — what a result of the endpoint rests on.

Any bytes in any reads: when `trade_once` returns, seven frames have been heard that say what the result says,
in order, of the endpoint's transaction, each newer than the one before and than all that was accepted
earlier.  That holds whatever the device or a third party sent.

Whether ALL frames that the call consumed are of that kind is another matter.  A wait examines the frames of a
read up to the one it returns; those behind it are dropped with the list that held them, and nobody asks
whose they are or whether they are new (`examined`, `dropped`).

So the statement about all of them is an equivalence (`evidence_sound_iff`): what the loop examined was
checked one by one against the id and the window, so the consumed frames are in order exactly when those
behind the end of each wait are.  The sample at the end has a frame of another transaction in the read
that brings the acknowledgement of the offer; the trade is confirmed, and the stranger has been consumed
on the way.
-/
import TradeBroker.Gba.Hearing

namespace TradeBroker.Gba

open Lib GbLinkEndpoint

/-! ## §1 — the replay window. -/

namespace ReplayWindow

/-- An accepted frame is newer than the last one of its transaction, and becomes the last one. -/
theorem accept_ok {r r' : ReplayWindow} {f : Frame} (h : r.accept f = (.ok (), r')) :
    Above r f.transactionId f ∧ r' = ⟨Function.update r.last f.transactionId (some f.sequence)⟩ := by
  rw [accept] at h
  cases hlast : r.last f.transactionId with
  | none =>
      rw [hlast] at h
      refine ⟨?_, (Prod.mk.inj h).2.symm⟩
      intro n hn
      rw [hlast] at hn
      cases hn
  | some previous =>
      rw [hlast] at h
      simp only at h
      split at h
      · cases h
      · rename_i hnew
        refine ⟨?_, (Prod.mk.inj h).2.symm⟩
        intro n hn
        rw [hlast] at hn
        obtain rfl := Option.some.inj hn
        omega

theorem acceptAll_append {fs gs : List Frame} {r r' : ReplayWindow} (h : acceptAll fs r = (.ok (), r')) :
    acceptAll (fs ++ gs) r = acceptAll gs r' := by
  induction fs generalizing r with
  | nil =>
      obtain rfl := (Prod.mk.inj h).2
      rfl
  | cons f fs ih =>
      rw [List.cons_append, acceptAll]
      rw [acceptAll] at h
      rcases hf : r.accept f with ⟨res, r₁⟩
      rw [hf] at h
      cases res with
      | error e => cases h
      | ok => exact ih h

/-- **Frames of one transaction that are all accepted** are newer than the window, and increase. -/
theorem acceptAll_ok {txid : Uuid} {fs : List Frame} {r r' : ReplayWindow}
    (hown : ∀ f ∈ fs, f.transactionId = txid) (h : acceptAll fs r = (.ok (), r')) :
    Increasing fs ∧ ∀ f ∈ fs, Above r txid f := by
  induction fs generalizing r with
  | nil => exact ⟨List.Pairwise.nil, fun f hf => by cases hf⟩
  | cons f fs ih =>
      rw [acceptAll] at h
      rcases hf : r.accept f with ⟨res, r₁⟩
      rw [hf] at h
      cases res with
      | error e => cases h
      | ok =>
          obtain ⟨habove, rfl⟩ := accept_ok hf
          obtain ⟨hinc, hrest⟩ := ih (fun g hg => hown g (List.mem_cons_of_mem _ hg)) h
          have hid := hown f List.mem_cons_self
          rw [hid] at habove hrest
          -- what is above the window with `f` in it is above `f`
          have hnext : ∀ g ∈ fs, f.sequence < g.sequence := by
            intro g hg
            exact hrest g hg f.sequence (Function.update_self ..)
          refine ⟨List.pairwise_cons.mpr ⟨hnext, hinc⟩, ?_⟩
          intro g hg
          rcases List.mem_cons.mp hg with rfl | hg
          · exact habove
          · intro n hn
            exact lt_trans (habove n hn) (hnext g hg)

end ReplayWindow

/-! ## §2 — examined and dropped. -/

/-- The frames that a wait looks at: up to the first that it heeds, that one included. -/
def examined (wanted : List MessageType) (frames : List Frame) : List Frame :=
  frames.takeWhile (fun f => !heeds wanted f) ++ (heeded wanted frames).take 1

/-- The frames behind that one, which go with the list that held them. -/
def dropped (wanted : List MessageType) (frames : List Frame) : List Frame := (heeded wanted frames).drop 1

theorem examined_append_dropped (wanted : List MessageType) (frames : List Frame) :
    examined wanted frames ++ dropped wanted frames = frames := by
  rw [examined, dropped, List.append_assoc, List.take_append_drop, heeded, List.takeWhile_append_dropWhile]

/-- A wait that passes over everything has examined everything. -/
theorem examined_passed {wanted : List MessageType} {fs : List Frame} (h : heeded wanted fs = []) :
    examined wanted fs = fs := by
  have hall := examined_append_dropped wanted fs
  rwa [dropped, h, List.drop_nil, List.append_nil] at hall

/-- Frames that are passed over come first, and the wait goes on behind them. -/
theorem examined_append {wanted : List MessageType} {fs : List Frame} (h : heeded wanted fs = [])
    (gs : List Frame) : examined wanted (fs ++ gs) = fs ++ examined wanted gs := by
  have hsplit := examined_append_dropped wanted (fs ++ gs)
  have hdropped : dropped wanted (fs ++ gs) = dropped wanted gs := by
    rw [dropped, heeded_append_passed h, dropped]
  nth_rewrite 3 [← examined_append_dropped wanted gs] at hsplit
  rw [hdropped, ← List.append_assoc] at hsplit
  exact List.append_cancel_right hsplit

/-- **The loop over one read** lets through the frames it examines, and no others. -/
theorem sift_examines {txid : Uuid} {wanted : List MessageType} {frames : List Frame} {r r' : ReplayWindow}
    {res : Option Frame} (h : sift txid wanted frames r = (.ok res, r')) :
    (∀ f ∈ examined wanted frames, f.transactionId = txid) ∧
      ReplayWindow.acceptAll (examined wanted frames) r = (.ok (), r') := by
  induction frames generalizing r with
  | nil =>
      rw [sift] at h
      refine ⟨?_, ?_⟩
      · intro f hf
        cases hf
      · rw [(Prod.mk.inj h).2.symm]
        rfl
  | cons g frames ih =>
      rw [sift] at h
      split at h
      · cases h
      · rename_i hid
        rw [not_not] at hid
        rcases hacc : r.accept g with ⟨acc, r₁⟩
        rw [hacc] at h
        cases acc with
        | error e => cases h
        | ok =>
            simp only at h
            by_cases hw : g.messageType ∈ wanted
            · -- `g` is returned
              rw [if_pos hw] at h
              obtain rfl := (Prod.mk.inj h).2
              have hex : examined wanted (g :: frames) = [g] := by
                simp [examined, heeded, heeds, hw]
              rw [hex]
              refine ⟨?_, ?_⟩
              · intro f hf
                rw [List.mem_singleton.mp hf]
                exact hid
              · rw [ReplayWindow.acceptAll, hacc]
                rfl
            · rw [if_neg hw] at h
              by_cases he : g.messageType = .error
              · rw [if_pos he] at h
                cases h
              · rw [if_neg he] at h
                have hpass : heeded wanted [g] = [] := by
                  simp [heeded, heeds, hw, he]
                have hex : examined wanted (g :: frames) = g :: examined wanted frames :=
                  examined_append hpass frames
                obtain ⟨hown, hall⟩ := ih h
                rw [hex]
                refine ⟨?_, ?_⟩
                · intro f hf
                  rcases List.mem_cons.mp hf with rfl | hf
                  · exact hid
                  · exact hown f hf
                · rw [ReplayWindow.acceptAll, hacc]
                  exact hall

/-- What a wait examines is of the transaction, and the window accepts it, frame by frame. -/
theorem waitLoop_examines {wanted : List MessageType} {reads : List (Except Exc Bytes)}
    {ep ep' : GbLinkEndpoint} {f : Frame} (h : waitLoop wanted reads ep = (.ok f, ep')) :
    (∀ g ∈ examined wanted (hear wanted (deliveries ep.decoder reads)).1.flatten, g.transactionId = ep.txid) ∧
      ReplayWindow.acceptAll (examined wanted (hear wanted (deliveries ep.decoder reads)).1.flatten) ep.replay =
        (.ok (), ep'.replay) := by
  induction reads generalizing ep with
  | nil => cases h
  | cons read reads ih =>
      rcases waitLoop_cases h with ⟨rfl, h⟩ | ⟨data, frames, d, r, rfl, hd, hfeed, h⟩
      · rw [deliveries_nothing]
        exact ih h
      · rw [deliveries_read hd hfeed]
        rcases h with ⟨hsift, rfl⟩ | ⟨hsift, h⟩
        · obtain ⟨-, -, behind, hheed⟩ := (sift_ok hsift).2 f rfl
          rw [hear_heeded hheed, List.flatten_singleton]
          exact sift_examines hsift
        · -- a read that is passed over is examined as a whole
          have hpassed := (sift_ok hsift).1 rfl
          obtain ⟨hown, hacc⟩ := sift_examines hsift
          obtain ⟨hown', hacc'⟩ := ih h
          rw [examined_passed hpassed] at hown hacc
          rw [hear_passed hpassed, List.flatten_cons, examined_append hpassed]
          refine ⟨?_, ?_⟩
          · intro g hg
            rcases List.mem_append.mp hg with hg | hg
            · exact hown g hg
            · exact hown' g hg
          · rw [ReplayWindow.acceptAll_append hacc]
            exact hacc'

/-! ## §3 — the seven frames. -/

section Trade

variable {offerSlot : Fin 6} {offered : Pokemon100}

/-- What a wait of a trade examines, of what it hears. -/
def examinedIn (x : Stage × List Frame) : List Frame := examined x.1.wanted x.2

/-- What is dropped behind the frame that ends a wait of a trade. -/
def droppedIn (x : Stage × List Frame) : List Frame := dropped x.1.wanted x.2

/-- **The waits of a trade that returns** have examined frames of the transaction only, the window has
accepted all of them, and the result comes from seven of them. -/
theorem drive_examines {n : Nat} {st : Stage} {ep ep' : GbLinkEndpoint} {r : GbaTradeResult}
    (h : ep.call (drive offerSlot offered n st) = (.ok r, ep')) :
    let heard := hearings offerSlot offered n st (deliveries ep.decoder ep.transport.reads)
    (∀ f ∈ heard.flatMap examinedIn, f.transactionId = ep.txid) ∧
      ReplayWindow.acceptAll (heard.flatMap examinedIn) ep.replay = (.ok (), ep'.replay) ∧
      ∃ picks, picks.Sublist (heard.flatMap examinedIn) ∧ Leads offerSlot offered st picks r := by
  induction n generalizing st ep with
  | zero => cases h
  | succ n ih =>
      obtain ⟨f, ep₁, hwait, hrest⟩ := call_bind_ok h
      have hears := waitFor_hears hwait
      obtain ⟨behind, hfirst⟩ := hears.first
      obtain ⟨hown, hacc⟩ := @waitLoop_examines st.wanted ep.transport.reads ep ep₁ f hwait
      -- the frame that ends the wait is the last one examined
      have hlast : [f].Sublist
          (examinedIn (st, (hear st.wanted (deliveries ep.decoder ep.transport.reads)).1.flatten)) := by
        rw [examinedIn, examined, hfirst]
        exact List.sublist_append_right _ [f]
      rw [hearings_heeded hfirst hears.awaited]
      cases hnext : st.next offerSlot offered f with
      | ends o =>
          rw [hnext, proceed, show ep₁.call (answer o) = (o, ep₁) from rfl, Prod.mk.injEq] at hrest
          obtain ⟨rfl, rfl⟩ := hrest
          simp only [List.flatMap_cons, List.flatMap_nil, List.append_nil]
          refine ⟨hown, hacc, [f], hlast, hears.awaited, ?_⟩
          rw [hnext]
      | goes st' =>
          rw [hnext] at hrest
          obtain ⟨hown', hacc', picks, hsub, hlead⟩ := ih hrest
          rw [← hears.left] at hown' hacc' hsub
          simp only [List.flatMap_cons]
          refine ⟨?_, ?_, f :: picks, ?_, hears.awaited, ?_⟩
          · intro g hg
            rcases List.mem_append.mp hg with hg | hg
            · exact hown g hg
            · rw [hown' g hg, hears.txid]
          · exact (ReplayWindow.acceptAll_append hacc).trans hacc'
          · exact hlast.append hsub
          · rw [hnext]
            exact hlead

theorem tradeOnce_examines {ep ep' : GbLinkEndpoint} {r : GbaTradeResult}
    (h : ep.call (tradeOnce offered) = (.ok r, ep')) :
    let heard := hearings ep.offerSlot offered 7 .ready (deliveries ep.decoder ep.transport.reads)
    (∀ f ∈ heard.flatMap examinedIn, f.transactionId = ep.txid) ∧
      ReplayWindow.acceptAll (heard.flatMap examinedIn) ep.replay = (.ok (), ep'.replay) ∧
      ∃ picks, picks.Sublist (heard.flatMap examinedIn) ∧ Leads ep.offerSlot offered .ready picks r := by
  obtain ⟨data, hdrive⟩ := tradeOnce_drives h
  have hexamines := drive_examines hdrive
  exact hexamines

end Trade

theorem examined_sublist (hs : List (Stage × List Frame)) :
    (hs.flatMap examinedIn).Sublist (hs.flatMap Prod.snd) := by
  induction hs with
  | nil => exact List.Sublist.slnil
  | cons x hs ih =>
      have hone : (examinedIn x).Sublist x.2 := by
        have hleft := List.sublist_append_left (examined x.1.wanted x.2) (dropped x.1.wanted x.2)
        rwa [examined_append_dropped] at hleft
      exact hone.append ih

/-! ## §4 — every frame on the way. -/

/-- Frames of the transaction, newer than the window, each newer than the one before. -/
def Orderly (r : ReplayWindow) (txid : Uuid) (fs : List Frame) : Prop :=
  (∀ f ∈ fs, f.transactionId = txid ∧ Above r txid f) ∧ Increasing fs

/-- **The frames that are dropped are in order.**  Behind the frame that ends a wait, the rest of the read is
of the transaction, its sequences go on from that frame's, and those of later reads go on from them. -/
def DroppedInOrder (txid : Uuid) : List (Stage × List Frame) → Prop
  | [] => True
  | x :: later =>
      (∀ g ∈ droppedIn x, g.transactionId = txid) ∧ Increasing (heeded x.1.wanted x.2) ∧
        (∀ g ∈ droppedIn x, ∀ y ∈ later, ∀ f ∈ y.2, g.sequence < f.sequence) ∧ DroppedInOrder txid later

/-- A wait that went on has examined something, and its last frame is the one it took up. -/
theorem WentOn.examinedIn {x : Stage × List Frame} (h : WentOn x) :
    ∃ before f, examinedIn x = before ++ [f] ∧ heeded x.1.wanted x.2 = f :: droppedIn x ∧
      x.2 = before ++ (f :: droppedIn x) := by
  obtain ⟨f, behind, hfirst, -, -⟩ := h
  have hdropped : droppedIn x = behind := by
    rw [droppedIn, dropped, hfirst]
    rfl
  refine ⟨x.2.takeWhile (fun g => !heeds x.1.wanted g), f, ?_, ?_, ?_⟩
  · rw [Gba.examinedIn, examined, hfirst]
    rfl
  · rw [hfirst, hdropped]
  · rw [hdropped, ← hfirst, heeded, List.takeWhile_append_dropWhile]

/-- Increasing frames with more of them in between, behind one frame of theirs: the order holds across the
seams. -/
theorem increasing_append {before behind later : List Frame} {f : Frame} (hfirst : Increasing (before ++ [f]))
    (hbehind : Increasing (f :: behind)) (hlater : Increasing later)
    (hnext : ∀ g ∈ later, f.sequence < g.sequence)
    (hover : ∀ g ∈ behind, ∀ h ∈ later, g.sequence < h.sequence) :
    Increasing (before ++ (f :: behind) ++ later) := by
  obtain ⟨hbefore, -, hend⟩ := List.pairwise_append.mp hfirst
  have hlast : ∀ g ∈ before, g.sequence < f.sequence := fun g hg => hend g hg f List.mem_cons_self
  have hgo : ∀ g ∈ behind, f.sequence < g.sequence := (List.pairwise_cons.mp hbehind).1
  refine List.pairwise_append.mpr ⟨List.pairwise_append.mpr ⟨hbefore, hbehind, ?_⟩, hlater, ?_⟩
  · intro a ha b hb
    rcases List.mem_cons.mp hb with rfl | hb
    · exact hlast a ha
    · exact lt_trans (hlast a ha) (hgo b hb)
  · intro a ha b hb
    rcases List.mem_append.mp ha with ha | ha
    · exact lt_trans (hlast a ha) (hnext b hb)
    · rcases List.mem_cons.mp ha with rfl | ha
      · exact hnext b hb
      · exact hover a ha b hb

/-- What is examined first is heard first, so a bound on the examined frames is one on all. -/
theorem heard_after {hs : List (Stage × List Frame)} (hwent : ∀ x ∈ hs, WentOn x) {n : Nat}
    (hinc : Increasing (hs.flatMap Prod.snd)) (hn : ∀ f ∈ hs.flatMap examinedIn, n < f.sequence) :
    ∀ f ∈ hs.flatMap Prod.snd, n < f.sequence := by
  cases hs with
  | nil =>
      intro f hf
      cases hf
  | cons x hs =>
      obtain ⟨before, f, hexam, -, hx⟩ := (hwent x List.mem_cons_self).examinedIn
      -- the first frame heard is examined, and the others are newer than it
      obtain ⟨g, rest, hhead, hg⟩ : ∃ g rest, x.2 = g :: rest ∧ g ∈ examinedIn x := by
        cases before with
        | nil => exact ⟨f, droppedIn x, hx, by rw [hexam]; exact List.mem_cons_self⟩
        | cons g before =>
            refine ⟨g, before ++ (f :: droppedIn x), hx, ?_⟩
            rw [hexam]
            exact List.mem_cons_self
      have hfirst : n < g.sequence := hn g (List.mem_flatMap.mpr ⟨x, List.mem_cons_self, hg⟩)
      rw [List.flatMap_cons, hhead, List.cons_append] at hinc ⊢
      intro a ha
      rcases List.mem_cons.mp ha with rfl | ha
      · exact hfirst
      · exact lt_trans hfirst ((List.pairwise_cons.mp hinc).1 a ha)

/-- **All that is heard is in order exactly when the dropped frames are.** By induction over the waits: each
ends on an examined frame, and what is dropped stands behind it. -/
theorem increasing_heard_iff {txid : Uuid} {hs : List (Stage × List Frame)} (hwent : ∀ x ∈ hs, WentOn x)
    (hown : ∀ f ∈ hs.flatMap examinedIn, f.transactionId = txid) (hinc : Increasing (hs.flatMap examinedIn)) :
    ((∀ f ∈ hs.flatMap Prod.snd, f.transactionId = txid) ∧ Increasing (hs.flatMap Prod.snd)) ↔
      DroppedInOrder txid hs := by
  induction hs with
  | nil =>
      refine ⟨fun _ => trivial, fun _ => ⟨?_, List.Pairwise.nil⟩⟩
      intro f hf
      cases hf
  | cons x later ih =>
      obtain ⟨before, f, hexam, hheed, hx⟩ := (hwent x List.mem_cons_self).examinedIn
      have hlater : ∀ y ∈ later, WentOn y := fun y hy => hwent y (List.mem_cons_of_mem _ hy)
      rw [List.flatMap_cons] at hown hinc
      obtain ⟨hfirst, hrest, hcross⟩ := List.pairwise_append.mp hinc
      have hiff := ih hlater (fun g hg => hown g (List.mem_append_right _ hg)) hrest
      rw [List.flatMap_cons, DroppedInOrder, ← hiff]
      constructor
      · rintro ⟨hall, hinc⟩
        obtain ⟨hone, hmore, hover⟩ := List.pairwise_append.mp hinc
        have hmem : ∀ g ∈ droppedIn x, g ∈ x.2 := by
          intro g hg
          rw [hx]
          exact List.mem_append_right _ (List.mem_cons_of_mem _ hg)
        refine ⟨fun g hg => hall g (List.mem_append_left _ (hmem g hg)), ?_, ?_,
          fun g hg => hall g (List.mem_append_right _ hg), hmore⟩
        · rw [hx] at hone
          rw [hheed]
          exact (List.pairwise_append.mp hone).2.1
        · intro g hg y hy a ha
          exact hover g (hmem g hg) a (List.mem_flatMap.mpr ⟨y, hy, ha⟩)
      · rintro ⟨hdropped, hheeded, hover, hall, hmore⟩
        rw [hexam] at hfirst hown hcross
        rw [hheed] at hheeded
        refine ⟨?_, ?_⟩
        · intro g hg
          rcases List.mem_append.mp hg with hg | hg
          · rw [hx] at hg
            rcases List.mem_append.mp hg with hg | hg
            · exact hown g (List.mem_append_left _ (List.mem_append_left _ hg))
            · rcases List.mem_cons.mp hg with rfl | hg
              · exact hown _ (List.mem_append_left _ (List.mem_append_right _ List.mem_cons_self))
              · exact hdropped g hg
          · exact hall g hg
        · rw [hx]
          refine increasing_append hfirst hheeded hmore ?_ ?_
          · apply heard_after hlater hmore
            intro g hg
            exact hcross f (List.mem_append_right _ List.mem_cons_self) g hg
          · intro g hg a ha
            obtain ⟨y, hy, ha⟩ := List.mem_flatMap.mp ha
            exact hover g hg y hy a ha

/-- **What a result of the endpoint rests on.**  Whatever the reads brought, the result is that of seven frames
among those consumed, all of the transaction, each newer than the one before and than what was accepted
earlier.  Of ALL frames consumed the same holds exactly when the frames that a read brings behind the one that
ends a wait are in order too. -/
theorem evidence_sound_iff {ep ep' : GbLinkEndpoint} {offered : Pokemon100} {r : GbaTradeResult}
    (h : ep.call (tradeOnce offered) = (.ok r, ep')) :
    (∃ ready started party slot mon commit closed,
      [ready, started, party, slot, mon, commit, closed].Sublist (consumed ep ep') ∧
      Orderly ep.replay ep.txid [ready, started, party, slot, mon, commit, closed] ∧
      Testimony ep.offerSlot offered ready started party slot mon commit closed r) ∧
    (Orderly ep.replay ep.txid (consumed ep ep') ↔
      DroppedInOrder ep.txid (hearings ep.offerSlot offered 7 .ready
        (deliveries ep.decoder ep.transport.reads))) := by
  obtain ⟨hconsumed, hwent, -⟩ := tradeOnce_hears h
  obtain ⟨hown, hacc, picks, hsub, hlead⟩ := tradeOnce_examines h
  obtain ⟨hinc, habove⟩ := ReplayWindow.acceptAll_ok hown hacc
  have hexamined : ((hearings ep.offerSlot offered 7 .ready
      (deliveries ep.decoder ep.transport.reads)).flatMap examinedIn).Sublist (consumed ep ep') := by
    rw [hconsumed]
    exact examined_sublist _
  refine ⟨?_, ?_⟩
  · obtain ⟨ready, started, party, slot, mon, commit, closed, hseven, htestimony⟩ := hlead.testimony
    refine ⟨ready, started, party, slot, mon, commit, closed, (hseven.trans hsub).trans hexamined,
      ⟨?_, hinc.sublist (hseven.trans hsub)⟩, htestimony⟩
    intro f hf
    have hmem := (hseven.trans hsub).subset hf
    exact ⟨hown f hmem, habove f hmem⟩
  · rw [← increasing_heard_iff hwent hown hinc, ← hconsumed]
    constructor
    · rintro ⟨hall, hincreasing⟩
      exact ⟨fun f hf => (hall f hf).1, hincreasing⟩
    · rintro ⟨hall, hincreasing⟩
      refine ⟨fun f hf => ⟨hall f hf, ?_⟩, hincreasing⟩
      intro n hn
      rw [hconsumed] at hf hincreasing
      exact heard_after hwent hincreasing (fun g hg => habove g hg n hn) f hf

/-! ## §5 — a stranger behind the awaited frame. -/

/-- What one wait takes from the frames that the reads bring: the frame it returns, the window and the reads
left. -/
def taken (txid : Uuid) (wanted : List MessageType) :
    ReplayWindow → List (List Frame) → Option (Frame × ReplayWindow × List (List Frame))
  | _, [] => none
  | r, read :: reads =>
      match sift txid wanted read r with
      | (.ok (some f), r) => some (f, r, reads)
      | (.ok none, r) => taken txid wanted r reads
      | (.error _, _) => none

/-- The result that the reads lead to, if they do. -/
def resultOf (offerSlot : Fin 6) (offered : Pokemon100) (txid : Uuid) :
    Nat → Stage → ReplayWindow → List (List Frame) → Option GbaTradeResult
  | 0, _, _, _ => none
  | n + 1, st, r, reads =>
      match taken txid st.wanted r reads with
      | none => none
      | some (f, r, reads) =>
          match st.next offerSlot offered f with
          | .ends o => o.toOption
          | .goes st' => resultOf offerSlot offered txid n st' r reads

theorem waitLoop_taken {wanted : List MessageType} {reads : List (Except Exc Bytes)} {ep : GbLinkEndpoint}
    {f : Frame} {r : ReplayWindow} {left : List (List Frame)}
    (h : taken ep.txid wanted ep.replay (deliveries ep.decoder reads) = some (f, r, left)) :
    ∃ ep', waitLoop wanted reads ep = (.ok f, ep') ∧ ep'.replay = r ∧ ep'.txid = ep.txid ∧
      deliveries ep'.decoder ep'.transport.reads = left := by
  induction reads generalizing ep with
  | nil => cases h
  | cons read reads ih =>
      cases read with
      | error e => cases h
      | ok data =>
          rw [waitLoop]
          by_cases hd : data = []
          · rw [hd, deliveries_nothing] at h
            rw [if_pos hd]
            exact ih h
          · rw [if_neg hd]
            rcases hfeed : ep.decoder.feed data with ⟨res, d⟩
            cases res with
            | error e =>
                rw [deliveries, if_neg hd, hfeed] at h
                cases h
            | ok frames =>
                rw [deliveries_read hd hfeed, taken] at h
                rcases hsift : sift ep.txid wanted frames ep.replay with ⟨found, r₁⟩
                rw [hsift] at h
                simp only [hsift]
                cases found with
                | error e => cases h
                | ok found =>
                    cases found with
                    | some g =>
                        obtain ⟨rfl, rfl, rfl⟩ : g = f ∧ r₁ = r ∧ deliveries d reads = left := by
                          simpa using h
                        exact ⟨_, rfl, rfl, rfl, rfl⟩
                    | none =>
                        have hrest : taken ({ ep with decoder := d, replay := r₁ } : GbLinkEndpoint).txid
                            wanted r₁ (deliveries d reads) = some (f, r, left) := h
                        exact ih hrest

/-- **A trade whose reads lead to a result returns it**: for runs on fixed reads, the frames are enough. -/
theorem drive_resultOf {offerSlot : Fin 6} {offered : Pokemon100} {n : Nat} {st : Stage} {ep : GbLinkEndpoint}
    {r : GbaTradeResult} (h : resultOf offerSlot offered ep.txid n st ep.replay
      (deliveries ep.decoder ep.transport.reads) = some r) :
    ∃ ep', ep.call (drive offerSlot offered n st) = (.ok r, ep') := by
  induction n generalizing st ep with
  | zero => cases h
  | succ n ih =>
      rw [resultOf] at h
      cases htaken : taken ep.txid st.wanted ep.replay (deliveries ep.decoder ep.transport.reads) with
      | none =>
          rw [htaken] at h
          cases h
      | some found =>
          obtain ⟨f, r₁, left⟩ := found
          rw [htaken] at h
          obtain ⟨ep₁, hwait, rfl, htxid, rfl⟩ := waitLoop_taken htaken
          have hcall : ep.call (waitFor st.wanted) = (.ok f, ep₁) := hwait
          rw [drive, call_bind, hcall]
          simp only at h ⊢
          cases hnext : st.next offerSlot offered f with
          | ends o =>
              rw [hnext] at h
              cases o with
              | error e => cases h
              | ok r' =>
                  obtain rfl := Option.some.inj h
                  exact ⟨ep₁, rfl⟩
          | goes st' =>
              rw [hnext, ← htxid] at h
              exact ih h

namespace Sample

/-- A frame of another transaction than the endpoint's. -/
def stranger : Frame := .trimmed .hello .nil 9 []

/-- The sample conversation, with the stranger behind the acknowledgement of the offer. -/
def intruded : List Frame := conversation.take 1 ++ [stranger] ++ conversation.drop 1

/-- The two of them in one read, which is of 512 bytes at most, the others in reads of their own. -/
def intrusion : List Bytes :=
  [wire Frame.encode (intruded.take 2)] ++
    ((intruded.drop 2).flatMap alone).filter fun data => !data.isEmpty

theorem intrusion_streaming : Streaming endpoint intruded intrusion := by
  refine ⟨?_, FrameDecoder.decoder_delimits.short_zero intruded⟩
  show wire Frame.encode intruded = intrusion.flatten
  rw [intrusion, List.flatten_append, List.flatten_singleton, List.flatten_filter_not_isEmpty, flatten_alone,
    ← wire_append, List.take_append_drop]

theorem intrusion_deliveries :
    deliveries endpoint.decoder (intrusion.map .ok) = arrivals endpoint intruded intrusion := by
  apply deliveries_arrivals intrusion_streaming
  intro data hdata
  rcases List.mem_append.mp hdata with hdata | hdata
  · rw [List.mem_singleton.mp hdata]
    intro hnil
    exact Frame.encode_ne_nil _ (List.append_eq_nil_iff.mp hnil).1
  · simpa using (List.mem_filter.mp hdata).2

theorem intrusion_returns :
    ((withReads endpoint intrusion).call (tradeOnce mon)).1 = .ok ⟨⟨mon, mon, true⟩, 0, true⟩ := by
  have hcall := call_tradeOnce (withReads endpoint intrusion) mon
  rw [refusal_withReads, conversation_opens] at hcall
  obtain ⟨data, hdrive⟩ := hcall
  have hresult : resultOf endpoint.offerSlot mon (offering (withReads endpoint intrusion) data).txid 7 .ready
      (offering (withReads endpoint intrusion) data).replay
      (deliveries (offering (withReads endpoint intrusion) data).decoder
        (offering (withReads endpoint intrusion) data).transport.reads) =
          some ⟨⟨mon, mon, true⟩, 0, true⟩ := by
    show resultOf endpoint.offerSlot mon endpoint.txid 7 .ready endpoint.replay
      (deliveries endpoint.decoder (intrusion.map .ok)) = _
    rw [intrusion_deliveries]
    decide +kernel
  obtain ⟨ep', hrun⟩ := drive_resultOf hresult
  rw [hdrive]
  exact congrArg Prod.fst hrun

theorem intrusion_consumed :
    consumed (withReads endpoint intrusion) ((withReads endpoint intrusion).call (tradeOnce mon)).2 =
      (hearings endpoint.offerSlot mon 7 .ready (arrivals endpoint intruded intrusion)).flatMap Prod.snd := by
  have hconsumed := (tradeOnce_hears (call_returns intrusion_returns)).1
  rw [hconsumed, ← intrusion_deliveries]
  rfl

/-- **A foreign frame is consumed on the way to a result**: it arrives in the read that brings `OFFER_READY`,
behind it. -/
theorem stranger_consumed :
    (∀ data ∈ intrusion, data.length ≤ 512) ∧
      ((withReads endpoint intrusion).call (tradeOnce mon)).1 = .ok ⟨⟨mon, mon, true⟩, 0, true⟩ ∧
      stranger ∈ consumed (withReads endpoint intrusion)
        ((withReads endpoint intrusion).call (tradeOnce mon)).2 ∧
      stranger.transactionId ≠ endpoint.txid := by
  refine ⟨by decide +kernel, intrusion_returns, ?_, by decide⟩
  rw [intrusion_consumed]
  decide +kernel

/-- There the dropped frames are not in order, and the seven frames that testify to the result are. -/
theorem evidence_sound_iff_intruded :
    (∃ ready started party slot mon' commit closed,
      [ready, started, party, slot, mon', commit, closed].Sublist (consumed (withReads endpoint intrusion)
        ((withReads endpoint intrusion).call (tradeOnce mon)).2) ∧
      Orderly endpoint.replay endpoint.txid [ready, started, party, slot, mon', commit, closed] ∧
      Testimony endpoint.offerSlot mon ready started party slot mon' commit closed
        ⟨⟨mon, mon, true⟩, 0, true⟩) ∧
    ¬ DroppedInOrder endpoint.txid (hearings endpoint.offerSlot mon 7 .ready
      (deliveries endpoint.decoder (intrusion.map .ok))) := by
  have hsound := evidence_sound_iff (call_returns intrusion_returns)
  refine ⟨hsound.1, ?_⟩
  intro hdropped
  have hall := (hsound.2.mpr hdropped).1 stranger (by
    rw [intrusion_consumed]
    decide +kernel)
  exact absurd hall.1 (by decide)

end Sample

end TradeBroker.Gba
