/-
# TradeBroker.Lib.Confluence — what a scanner does with bytes that are not of its format.

`Lib.Scan` says what a scanner finds in a stream of its own messages.  This file is about ANY bytes.

`Settled turn enc quiet p` lists what a turn over the buffer `p` may be.  It waits, and then the bytes it
keeps stand for `p` whatever comes later; or it is settled, and bytes that come later change nothing about
it.  Nothing is made up: what is taken for a message is the encoding of that message, behind `quiet` bytes,
and everything else that leaves the buffer leaves it from the front.

When every turn is settled in this sense, scanning in two parts is scanning once (`scan_append`), and the
messages found are cut out of the stream, in order and without overlap (`scan_segments`).  When every turn
that goes on takes bytes off the buffer, the loop ends (`Advances.scanWithin`).  A caller may go on after a
failure, and then a failure costs nothing that stands behind it (`glean_append`).

The three results are what a receiver relies on and what a test can only sample.  The Python decoder of
the broker and the C++ parser of the adapter are both instances: `Gba.Decoding` shows that the turns of
the first are settled, `Firmware.Parsing` those of the second, and `Imitates` then compares the two
scanners turn by turn.  An outer transport that carries one stream inside another (`Gba.Outer`) is a third
instance.

`glean` is the reader who does not stop at an error.  It is used where a run calls a decoder again after
it has raised: what such a reader finds does not depend on where the errors fell.
-/
import TradeBroker.Lib.Scan

namespace TradeBroker.Lib

variable {χ ε : Type}

/-- What a turn over `p` may be.  Each case says what the turn takes off the buffer, and that bytes which come
later change nothing about it; only a turn that waits is free to be another one then. -/
inductive Settled (turn : Bytes → Turn χ ε) (enc : χ → Bytes) (quiet : Bytes → Prop) (p : Bytes) : Prop
  | wait {kept : Bytes} : turn p = .wait kept → kept <:+ p →
      (∀ q, turn (kept ++ q) = turn (p ++ q)) → Settled turn enc quiet p
  | skip {rest : Bytes} : rest <:+ p → rest.length < p.length →
      (∀ q, turn (p ++ q) = .skip (rest ++ q)) → Settled turn enc quiet p
  | emit {noise rest : Bytes} {x : χ} : quiet noise → enc x ≠ [] → p = noise ++ (enc x ++ rest) →
      (∀ q, turn (p ++ q) = .emit x (rest ++ q)) → Settled turn enc quiet p
  | fail {e : ε} {rest : Bytes} : rest <:+ p → (∀ q, turn (p ++ q) = .fail e (rest ++ q)) →
      Settled turn enc quiet p

variable {turn : Bytes → Turn χ ε} {enc : χ → Bytes} {quiet : Bytes → Prop}

/-- A fact about all later bytes, with none of them: the empty continuation is one of the continuations. -/
theorem turn_now {p rest : Bytes} {f : Bytes → Turn χ ε} (h : ∀ q, turn (p ++ q) = f (rest ++ q)) :
    turn p = f rest := by
  have hnil := h []
  rwa [List.append_nil, List.append_nil] at hnil

/-! ## Bytes that arrive later -/

/-- With enough turns the loop comes to its own end, so the number of turns that the loop is given does not
show in its result. -/
theorem scan_enough (h : ∀ p, Settled turn enc quiet p) {n m : Nat} {buf : Bytes}
    (hn : buf.length < n) (hm : buf.length < m) : scan turn n buf = scan turn m buf := by
  induction n generalizing m buf with
  | zero => omega
  | succ n ih =>
      obtain ⟨m, rfl⟩ : ∃ k, m = k + 1 := ⟨m - 1, by omega⟩
      rw [scan, scan]
      cases h buf with
      | wait hturn => simp only [hturn]
      | skip _ hlt hturn =>
          simp only [turn_now hturn]
          exact ih (by omega) (by omega)
      | @emit noise rest x _ hne hbuf hturn =>
          have hpos := List.length_pos_of_ne_nil hne
          have hlen := congrArg List.length hbuf
          simp only [List.length_append] at hlen
          have hrest : scan turn n rest = scan turn m rest := ih (by omega) (by omega)
          simp only [turn_now hturn, hrest]
      | fail _ hturn => simp only [turn_now hturn]

/-- **Scanning in two parts is scanning once**: either the first part already fails, or what it keeps goes
on with the second part. -/
theorem scan_append (h : ∀ p, Settled turn enc quiet p) {n m k : Nat} {p q : Bytes}
    (hn : p.length < n) (hm : ((scan turn n p).rest ++ q).length < m) (hk : (p ++ q).length < k) :
    scan turn k (p ++ q) =
      match (scan turn n p).failure with
      | some e => ⟨(scan turn n p).found, some e, (scan turn n p).rest ++ q⟩
      | none =>
          { scan turn m ((scan turn n p).rest ++ q) with
            found := (scan turn n p).found ++ (scan turn m ((scan turn n p).rest ++ q)).found } := by
  induction n generalizing k p with
  | zero => omega
  | succ n ih =>
      obtain ⟨k, rfl⟩ : ∃ j, k = j + 1 := ⟨k - 1, by omega⟩
      have hlen : (p ++ q).length = p.length + q.length := List.length_append
      cases h p with
      | @wait kept hturn hsuffix hlater =>
          -- what is kept stands for `p`, so both loops make the same first turn
          have hscan : scan turn (n + 1) p = ⟨[], none, kept⟩ := by
            rw [scan, hturn]
          rw [hscan] at hm ⊢
          have hle := hsuffix.length_le
          obtain ⟨m, rfl⟩ : ∃ j, m = j + 1 := ⟨m - 1, by omega⟩
          have hsame : scan turn (k + 1) (p ++ q) = scan turn (k + 1) (kept ++ q) := by
            rw [scan, scan, hlater q]
          have henough : scan turn (k + 1) (kept ++ q) = scan turn (m + 1) (kept ++ q) := by
            apply scan_enough h _ hm
            show (kept ++ q).length < k + 1
            rw [List.length_append]
            omega
          rw [hsame, henough]
          rfl
      | @skip rest _ hlt hturn =>
          have hscan : scan turn (n + 1) p = scan turn n rest := by
            rw [scan, turn_now hturn]
          have hstep : scan turn (k + 1) (p ++ q) = scan turn k (rest ++ q) := by
            rw [scan, hturn q]
          rw [hscan] at hm ⊢
          rw [hstep]
          apply ih (by omega) hm
          rw [List.length_append]
          omega
      | @emit noise rest x _ hne hp hturn =>
          have hscan : scan turn (n + 1) p =
              { scan turn n rest with found := x :: (scan turn n rest).found } := by
            rw [scan, turn_now hturn]
          have hstep : scan turn (k + 1) (p ++ q) =
              { scan turn k (rest ++ q) with found := x :: (scan turn k (rest ++ q)).found } := by
            rw [scan, hturn q]
          have hpos := List.length_pos_of_ne_nil hne
          have hplen := congrArg List.length hp
          simp only [List.length_append] at hplen
          rw [hscan] at hm ⊢
          have hrest := ih (k := k) (p := rest) (by omega) hm (by rw [List.length_append]; omega)
          rw [hstep, hrest]
          cases (scan turn n rest).failure with
          | some e => rfl
          | none => rfl
      | @fail e rest _ hturn =>
          have hscan : scan turn (n + 1) p = ⟨[], some e, rest⟩ := by
            rw [scan, turn_now hturn]
          rw [hscan, scan, hturn q]

/-! ## Segments of the stream -/

/-- More bytes in front are noise in front. -/
theorem noisy_behind (enc : χ → Bytes) (front : Bytes) (items : List (Bytes × χ)) (dropped rest : Bytes) :
    ∃ items' dropped', front ++ noisy enc items (dropped ++ rest) = noisy enc items' (dropped' ++ rest) ∧
      items'.map Prod.snd = items.map Prod.snd := by
  cases items with
  | nil => exact ⟨[], front ++ dropped, (List.append_assoc _ _ _).symm, rfl⟩
  | cons item items =>
      refine ⟨(front ++ item.1, item.2) :: items, dropped, ?_, rfl⟩
      simp only [noisy, List.append_assoc]

/-- **What the loop finds is cut out of the buffer**, message by message and in order, and what it keeps is
the end of it.  Between two messages, and in front of the first one, there may be bytes that it dropped. -/
theorem scan_segments (h : ∀ p, Settled turn enc quiet p) (n : Nat) (buf : Bytes) :
    ∃ items dropped, buf = noisy enc items (dropped ++ (scan turn n buf).rest) ∧
      items.map Prod.snd = (scan turn n buf).found := by
  induction n generalizing buf with
  | zero => exact ⟨[], [], rfl, rfl⟩
  | succ n ih =>
      rw [scan]
      cases h buf with
      | @wait kept hturn hsuffix _ =>
          obtain ⟨dropped, hdropped⟩ := hsuffix
          rw [hturn]
          exact ⟨[], dropped, hdropped.symm, rfl⟩
      | @skip rest hsuffix _ hturn =>
          obtain ⟨front, hfront⟩ := hsuffix
          obtain ⟨items, dropped, hrest, hfound⟩ := ih rest
          rw [turn_now hturn]
          obtain ⟨items', dropped', hbuf, hitems⟩ :=
            noisy_behind enc front items dropped (scan turn n rest).rest
          rw [← hrest, hfront] at hbuf
          exact ⟨items', dropped', hbuf, hitems.trans hfound⟩
      | @emit noise rest x _ _ hbuf hturn =>
          obtain ⟨items, dropped, hrest, hfound⟩ := ih rest
          rw [turn_now hturn]
          refine ⟨(noise, x) :: items, dropped, ?_, ?_⟩
          · rw [hbuf]
            nth_rewrite 1 [hrest]
            rfl
          · simp only [List.map_cons, hfound]
      | @fail e rest hsuffix hturn =>
          obtain ⟨dropped, hdropped⟩ := hsuffix
          rw [turn_now hturn]
          exact ⟨[], dropped, hdropped.symm, rfl⟩

theorem noisy_last (enc : χ → Bytes) (items : List (Bytes × χ)) (last more : Bytes) :
    noisy enc items (last ++ more) = noisy enc items last ++ more := by
  induction items with
  | nil => rfl
  | cons item items ih => simp only [noisy, ih, List.append_assoc]

/-- The messages of one stream and of another one behind it. -/
theorem noisy_append (enc : χ → Bytes) (items more : List (Bytes × χ)) (mid last : Bytes) :
    ∃ items' last', noisy enc items (mid ++ noisy enc more last) = noisy enc items' last' ∧
      items'.map Prod.snd = items.map Prod.snd ++ more.map Prod.snd := by
  induction items with
  | nil =>
      obtain ⟨items', dropped, hall, hitems⟩ := noisy_behind enc mid more last []
      rw [List.append_nil, List.append_nil] at hall
      exact ⟨items', dropped, hall, hitems⟩
  | cons item items ih =>
      obtain ⟨items', last', hnoisy, hsnd⟩ := ih
      refine ⟨item :: items', last', ?_, ?_⟩
      · simp only [noisy, hnoisy]
      · simp only [List.map_cons, hsnd, List.cons_append]

/-- Messages that are passed over are noise: a reader who wants some of the messages only sees the others as
bytes between them. -/
theorem noisy_sublist (enc : χ → Bytes) {items : List (Bytes × χ)} {xs : List χ}
    (h : xs.Sublist (items.map Prod.snd)) (last : Bytes) :
    ∃ items' last', noisy enc items last = noisy enc items' last' ∧ items'.map Prod.snd = xs := by
  induction items generalizing xs with
  | nil => exact ⟨[], last, rfl, (List.sublist_nil.mp h).symm⟩
  | cons item items ih =>
      rw [List.map_cons] at h
      cases h with
      | cons _ h =>
          obtain ⟨items', last', hnoisy, hsnd⟩ := ih h
          obtain ⟨all, dropped, hall, hsame⟩ := noisy_behind enc (item.1 ++ enc item.2) items' last' []
          refine ⟨all, dropped ++ [], ?_, hsame.trans hsnd⟩
          rw [← hall, List.append_nil, ← hnoisy, noisy, List.append_assoc]
      | cons_cons _ h =>
          obtain ⟨items', last', hnoisy, hsnd⟩ := ih h
          refine ⟨item :: items', last', ?_, ?_⟩
          · simp only [noisy, hnoisy]
          · rw [List.map_cons, hsnd]

/-! ## Messages in front of a failure -/

/-- Messages at the front are taken off one by one, and the loop goes on behind them. -/
theorem scan_messages (hemit : ∀ noise x tail, quiet noise → turn (noise ++ (enc x ++ tail)) = .emit x tail)
    (n : Nat) {items : List (Bytes × χ)} (hquiet : ∀ item ∈ items, quiet item.1) (last : Bytes) :
    scan turn (n + items.length) (noisy enc items last) =
      { scan turn n last with found := items.map Prod.snd ++ (scan turn n last).found } := by
  induction items with
  | nil => rfl
  | cons item items ih =>
      have hrest := ih fun other hother => hquiet other (List.mem_cons_of_mem _ hother)
      have hturn := hemit item.1 item.2 (noisy enc items last) (hquiet item List.mem_cons_self)
      rw [List.length_cons, ← Nat.add_assoc, scan, noisy, hturn]
      simp only [hrest, List.map_cons, List.cons_append]

/-- **Where a loop that fails stands**: behind the messages it found, at bytes that fail at once.  The scanner
must not skip, or the bytes skipped could hold a failure of their own. -/
theorem scan_failed (h : ∀ p, Settled turn enc quiet p) (hskip : ∀ p rest, turn p ≠ .skip rest) {n : Nat}
    {buf : Bytes} {e : ε} (hfail : (scan turn n buf).failure = some e) :
    ∃ items last rest, buf = noisy enc items last ∧ (∀ item ∈ items, quiet item.1) ∧
      items.map Prod.snd = (scan turn n buf).found ∧ turn last = .fail e rest := by
  induction n generalizing buf with
  | zero => cases hfail
  | succ n ih =>
      rw [scan] at hfail ⊢
      cases h buf with
      | wait hturn =>
          rw [hturn] at hfail
          cases hfail
      | skip _ _ hturn => exact absurd (turn_now hturn) (hskip _ _)
      | @emit noise rest x hnoise _ hbuf hturn =>
          rw [turn_now hturn] at hfail ⊢
          obtain ⟨items, last, left, hrest, hquiet, hfound, hlast⟩ := ih hfail
          refine ⟨(noise, x) :: items, last, left, ?_, ?_, ?_, hlast⟩
          · rw [hbuf, hrest]
            rfl
          · intro item hitem
            rcases List.mem_cons.mp hitem with rfl | hitem
            · exact hnoise
            · exact hquiet item hitem
          · simp only [List.map_cons, hfound]
      | @fail e' rest _ hturn =>
          rw [turn_now hturn] at hfail
          have he : e' = e := Option.some.inj hfail
          rw [turn_now hturn]
          refine ⟨[], buf, rest, rfl, ?_, rfl, ?_⟩
          · intro item hitem
            cases hitem
          · rw [turn_now hturn, he]

/-! ## Two scanners -/

section Imitates

variable {ψ δ : Type} {turn' : Bytes → Turn ψ δ} {enc' : ψ → Bytes} {quiet' : Bytes → Prop}

/-- To the scanner the bytes `p` and `q` are the same: whatever comes behind them, it finds the same messages
and keeps the same rest. -/
def Alike (turn' : Bytes → Turn ψ δ) (p q : Bytes) : Prop :=
  ∀ n m, p.length < n → q.length < m → scan turn' n p = scan turn' m q

theorem Alike.trans {p q r : Bytes} (h : Alike turn' p q) (h' : Alike turn' q r) : Alike turn' p r :=
  fun n m hn hm => (h n (q.length + 1) hn (Nat.lt_succ_self _)).trans (h' _ m (Nat.lt_succ_self _) hm)

section Settled

variable (hs : ∀ p, Settled turn' enc' quiet' p)

include hs

theorem Alike.refl (p : Bytes) : Alike turn' p p := fun _ _ hn hm => scan_enough hs hn hm

theorem Alike.skip {p rest : Bytes} (h : turn' p = .skip rest) (hlt : rest.length < p.length) :
    Alike turn' p rest := by
  intro n m hn hm
  obtain ⟨n, rfl⟩ : ∃ k, n = k + 1 := ⟨n - 1, by omega⟩
  rw [scan, h]
  exact scan_enough hs (by omega) hm

end Settled

/-- The second scanner finds what the first one does, as `dec` has it, and goes through what the first one
drops without finding anything.  Bytes that the first one gives up while it waits do not matter to the
second; where the first one fails, nothing is asked of the second. -/
structure Imitates (turn : Bytes → Turn χ ε) (turn' : Bytes → Turn ψ δ) (dec : χ → ψ) : Prop where
  wait : ∀ {p kept}, turn p = .wait kept → Alike turn' p kept
  skip : ∀ {p rest}, turn p = .skip rest → Alike turn' p rest
  emit : ∀ {p x rest}, turn p = .emit x rest →
    ∃ mid, Alike turn' p mid ∧ turn' mid = .emit (dec x) rest ∧ rest.length < mid.length

/-- **Where the first scanner does not fail**, the second one finds the same, and then whatever there is in the
bytes that the first one still holds back. -/
theorem Imitates.scan {dec : χ → ψ} (h : Imitates turn turn' dec) (hs : ∀ p, Settled turn' enc' quiet' p)
    {n m k : Nat} {buf : Bytes} (hfail : (Lib.scan turn n buf).failure = none) (hm : buf.length < m)
    (hk : (Lib.scan turn n buf).rest.length < k) :
    Lib.scan turn' m buf = { Lib.scan turn' k (Lib.scan turn n buf).rest with
      found := (Lib.scan turn n buf).found.map dec ++ (Lib.scan turn' k (Lib.scan turn n buf).rest).found } := by
  induction n generalizing m buf with
  | zero => exact scan_enough hs hm hk
  | succ n ih =>
      cases hturn : turn buf with
      | wait kept =>
          have hscan : Lib.scan turn (n + 1) buf = ⟨[], none, kept⟩ := by rw [Lib.scan, hturn]
          rw [hscan] at hk ⊢
          exact h.wait hturn m k hm hk
      | skip rest =>
          have hscan : Lib.scan turn (n + 1) buf = Lib.scan turn n rest := by rw [Lib.scan, hturn]
          rw [hscan] at hfail hk ⊢
          rw [h.skip hturn m (rest.length + 1) hm (Nat.lt_succ_self _)]
          exact ih hfail (Nat.lt_succ_self _) hk
      | emit x rest =>
          have hscan : Lib.scan turn (n + 1) buf =
              { Lib.scan turn n rest with found := x :: (Lib.scan turn n rest).found } := by rw [Lib.scan, hturn]
          rw [hscan] at hfail hk ⊢
          obtain ⟨mid, halike, hmid, hlt⟩ := h.emit hturn
          rw [halike m (mid.length + 1) hm (Nat.lt_succ_self _), Lib.scan, hmid]
          simp only [ih hfail hlt hk, List.map_cons, List.cons_append]
      | fail e rest =>
          rw [Lib.scan, hturn] at hfail
          cases hfail

end Imitates

/-! ## Going on behind a failure -/

/-- The scanner of a caller who goes on after every failure. -/
def undeterred (turn : Bytes → Turn χ ε) (p : Bytes) : Turn χ Empty :=
  match turn p with
  | .wait rest => .wait rest
  | .skip rest => .skip rest
  | .emit x rest => .emit x rest
  | .fail _ rest => .skip rest

/-- All that such a caller finds in the bytes, and what is kept of them in the end.  It cannot fail any more,
which its type says. -/
def glean (turn : Bytes → Turn χ ε) (buf : Bytes) : Scanned χ Empty :=
  scan (undeterred turn) (buf.length + 1) buf

section Undeterred

variable (hs : ∀ p, Settled turn enc quiet p)
  (hfail : ∀ p e rest, turn p = .fail e rest → rest.length < p.length)

include hs hfail

theorem undeterred_settled (p : Bytes) : Settled (undeterred turn) enc quiet p := by
  cases hs p with
  | wait hturn hsuffix hlater =>
      refine .wait ?_ hsuffix fun q => ?_
      · rw [undeterred, hturn]
      · rw [undeterred, undeterred, hlater q]
  | skip hsuffix hlt hturn =>
      refine .skip hsuffix hlt fun q => ?_
      rw [undeterred, hturn q]
  | emit hquiet hne hbuf hturn =>
      refine .emit hquiet hne hbuf fun q => ?_
      rw [undeterred, hturn q]
  | fail hsuffix hturn =>
      refine .skip hsuffix (hfail _ _ _ (turn_now hturn)) fun q => ?_
      rw [undeterred, hturn q]

/-- **A loop that may have failed loses nothing**: going on from the bytes it kept, with more behind them, finds
what one scan of everything finds. -/
theorem glean_append (n : Nat) (p q : Bytes) :
    glean turn (p ++ q) = { glean turn ((scan turn n p).rest ++ q) with
      found := (scan turn n p).found ++ (glean turn ((scan turn n p).rest ++ q)).found } := by
  have hund := undeterred_settled hs hfail
  induction n generalizing p with
  | zero => rfl
  | succ n ih =>
      rw [scan]
      cases hs p with
      | @wait kept hturn hsuffix hlater =>
          rw [hturn]
          have hle := hsuffix.length_le
          have hsame : scan (undeterred turn) ((p ++ q).length + 1) (p ++ q) =
              scan (undeterred turn) ((p ++ q).length + 1) (kept ++ q) := by
            rw [scan, scan, undeterred, undeterred, hlater q]
          have henough : scan (undeterred turn) ((p ++ q).length + 1) (kept ++ q) = glean turn (kept ++ q) := by
            apply scan_enough hund _ (Nat.lt_succ_self _)
            simp only [List.length_append]
            omega
          exact hsame.trans henough
      | @skip rest _ hlt hturn =>
          have hstep : glean turn (p ++ q) = glean turn (rest ++ q) := by
            refine Alike.skip hund ?_ ?_ _ _ (Nat.lt_succ_self _) (Nat.lt_succ_self _)
            · rw [undeterred, hturn q]
            · simp only [List.length_append]
              omega
          rw [turn_now hturn, hstep]
          exact ih rest
      | @emit noise rest x _ hne hbuf hturn =>
          have hpos := List.length_pos_of_ne_nil hne
          have hlen := congrArg List.length hbuf
          simp only [List.length_append] at hlen
          have hund' : undeterred turn (p ++ q) = .emit x (rest ++ q) := by
            rw [undeterred, hturn q]
          have henough : scan (undeterred turn) (p ++ q).length (rest ++ q) = glean turn (rest ++ q) := by
            apply scan_enough hund _ (Nat.lt_succ_self _)
            simp only [List.length_append]
            omega
          have hstep : glean turn (p ++ q) =
              { glean turn (rest ++ q) with found := x :: (glean turn (rest ++ q)).found } := by
            rw [glean, scan, hund']
            simp only [henough]
          rw [turn_now hturn, hstep, ih rest]
          rfl
      | @fail e rest _ hturn =>
          have hlt := hfail _ _ _ (turn_now hturn)
          rw [turn_now hturn]
          refine Alike.skip hund ?_ ?_ _ _ (Nat.lt_succ_self _) (Nat.lt_succ_self _)
          · rw [undeterred, hturn q]
          · simp only [List.length_append]
            omega

/-- A loop that did not fail has left nothing behind. -/
theorem glean_kept {n : Nat} {p : Bytes} (hn : p.length < n) (hnone : (scan turn n p).failure = none) :
    (glean turn (scan turn n p).rest).found = [] := by
  have hund := undeterred_settled hs hfail
  induction n generalizing p with
  | zero => omega
  | succ n ih =>
      rw [scan] at hnone ⊢
      cases hs p with
      | @wait kept hturn _ hlater =>
          have hagain := hlater []
          rw [List.append_nil, List.append_nil, hturn] at hagain
          have hwait : undeterred turn kept = .wait kept := by
            rw [undeterred, hagain]
          rw [hturn, glean, scan, hwait]
      | skip _ hlt hturn =>
          rw [turn_now hturn] at hnone ⊢
          exact ih (by omega) hnone
      | emit _ hne hbuf hturn =>
          have hpos := List.length_pos_of_ne_nil hne
          have hlen := congrArg List.length hbuf
          simp only [List.length_append] at hlen
          rw [turn_now hturn] at hnone ⊢
          exact ih (by omega) hnone
      | fail _ hturn =>
          rw [turn_now hturn] at hnone
          cases hnone

end Undeterred

/-! ## The loop ends -/

/-- The loop, with `none` for a loop that `n` turns did not bring to an end.  A `while True` of the source is
this loop for an unknown `n`. -/
def scanWithin (turn : Bytes → Turn χ ε) : Nat → Bytes → Option (Scanned χ ε)
  | 0, _ => none
  | n + 1, buf =>
      match turn buf with
      | .wait rest => some ⟨[], none, rest⟩
      | .skip rest => scanWithin turn n rest
      | .emit x rest => (scanWithin turn n rest).map fun s => { s with found := x :: s.found }
      | .fail e rest => some ⟨[], some e, rest⟩

/-- Every turn that goes on takes bytes off the buffer, one that fails takes at least `k`, and one that waits
leaves a buffer of a kind. -/
structure Advances (turn : Bytes → Turn χ ε) (k : Nat) (kept : Bytes → Prop) (raised : ε → Prop) : Prop where
  wait : ∀ {p rest}, turn p = .wait rest → kept rest
  skip : ∀ {p rest}, turn p = .skip rest → rest.length < p.length
  emit : ∀ {p x rest}, turn p = .emit x rest → rest.length < p.length
  fail : ∀ {p e rest}, turn p = .fail e rest → raised e ∧ rest.length + k ≤ p.length

/-- How a loop over `buf` may end: at a turn that waits, with a rest of the kind that waits, or at a failure,
with at least `k` bytes gone. -/
def Scanned.Ended (k : Nat) (kept : Bytes → Prop) (raised : ε → Prop) (buf : Bytes) (s : Scanned χ ε) :
    Prop :=
  (s.failure = none ∧ kept s.rest) ∨ ∃ e, s.failure = some e ∧ raised e ∧ s.rest.length + k ≤ buf.length

theorem Scanned.Ended.longer {k : Nat} {kept : Bytes → Prop} {raised : ε → Prop} {buf longer : Bytes}
    {s : Scanned χ ε} (h : s.Ended k kept raised buf) (hlen : buf.length ≤ longer.length) :
    s.Ended k kept raised longer := by
  rcases h with h | ⟨e, he, hr, hk⟩
  · exact Or.inl h
  · exact Or.inr ⟨e, he, hr, by omega⟩

/-- **The loop ends**, within one turn more than there are bytes, since each turn but the last one takes at
least one byte off the buffer. -/
theorem Advances.scanWithin {k : Nat} {kept : Bytes → Prop} {raised : ε → Prop}
    (h : Advances turn k kept raised) {n : Nat} {buf : Bytes} (hn : buf.length < n) :
    Lib.scanWithin turn n buf = some (scan turn n buf) ∧ (scan turn n buf).Ended k kept raised buf := by
  induction n generalizing buf with
  | zero => exact absurd hn (Nat.not_lt_zero _)
  | succ n ih =>
      rw [Lib.scanWithin, scan]
      cases hturn : turn buf with
      | wait rest => exact ⟨rfl, Or.inl ⟨rfl, h.wait hturn⟩⟩
      | skip rest =>
          have hlt := h.skip hturn
          have hrest := ih (show rest.length < n by omega)
          exact ⟨hrest.1, hrest.2.longer (by omega)⟩
      | emit x rest =>
          have hlt := h.emit hturn
          have hrest := ih (show rest.length < n by omega)
          refine ⟨?_, hrest.2.longer (by omega)⟩
          simp only [hrest.1, Option.map_some]
      | fail e rest => exact ⟨rfl, Or.inr ⟨e, rfl, h.fail hturn⟩⟩

end TradeBroker.Lib
