/-
# TradeBroker.Lib.Scan — a scanner over a byte stream that arrives in pieces.

A scanner keeps the bytes it could not use yet.  One turn of its loop looks at them and waits for
more, discards some, takes a message off the front, or fails; `scan` is the loop.

`Delimits turn enc dec` says that the scanner reads a format whose messages carry their own length: a
whole encoding at the front is taken off, a proper part of one is left alone.  Then what a stream of
messages yields is a matter of lengths only.  `groups` computes it, read by read, without looking at
a byte, and `scan_stream` is the agreement of the loop with that computation.  How the stream is cut
decides into which group a message falls, never which messages there are or their order
(`flatten_groups`).

`Resyncs` adds noise between the messages, and `scan_noisy` says that it makes no difference to what is
found.

The later parts are about cuttings.  `Fits` says that a buffer of bounded size has room for every piece
behind the bytes of the message under way, which is what a receiver with a fixed array needs.
`exists_pieces` stops a stream behind any message and lets it go on differently, cut as it was up to
there, so that a run can be given another ending.  `bytewise` is the cutting into single bytes, in which
no read completes two messages.

`Delimits.resyncs` takes a format from messages back to back to messages with noise between them.  What it
asks for is a start pattern that does not overlap itself, and a turn that keeps enough of what it drops.
`Lib.Bytes` has the pattern lemmas; `Lib.Confluence` says what happens to bytes that are not of the format
at all.
-/
import TradeBroker.Lib.Bytes

namespace TradeBroker.Lib

variable {χ ψ ε : Type}

/-! ## The loop -/

/-- What one turn does with the bytes in hand: it waits for more, goes on without some, takes a message off
the front, or fails and says what is left. -/
inductive Turn (χ ε : Type) where
  | wait (rest : Bytes)
  | skip (rest : Bytes)
  | emit (x : χ) (rest : Bytes)
  | fail (e : ε) (rest : Bytes)

/-- What the loop leaves: the messages found, the failure that ended it, the bytes not used.  What was found
before a failure is found all the same. -/
structure Scanned (χ ε : Type) where
  found : List χ
  failure : Option ε
  rest : Bytes

/-- The loop, at most `n` turns of it.  The source has no bound, and the theorems are about every bound above
the length of the buffer. -/
def scan (turn : Bytes → Turn χ ε) : Nat → Bytes → Scanned χ ε
  | 0, buf => ⟨[], none, buf⟩
  | n + 1, buf =>
      match turn buf with
      | .wait rest => ⟨[], none, rest⟩
      | .skip rest => scan turn n rest
      | .emit x rest =>
          let s := scan turn n rest
          { s with found := x :: s.found }
      | .fail e rest => ⟨[], some e, rest⟩

/-! ## Messages that carry their own length -/

/-- The turn takes a whole encoding off the front, as what `dec` makes of the message, and leaves a proper
part of one alone.  So the format is self-delimiting, and the bytes behind a message do not matter to it. -/
structure Delimits (turn : Bytes → Turn ψ ε) (enc : χ → Bytes) (dec : χ → ψ) : Prop where
  nonempty : ∀ x, enc x ≠ []
  idle : turn [] = .wait []
  emit : ∀ x tail, turn (enc x ++ tail) = .emit (dec x) tail
  wait : ∀ x p q, enc x = p ++ q → q ≠ [] → turn p = .wait p

/-- The stream of some messages. -/
def wire (enc : χ → Bytes) (xs : List χ) : Bytes := xs.flatMap enc

@[simp] theorem wire_nil (enc : χ → Bytes) : wire enc [] = [] := rfl

@[simp] theorem wire_cons (enc : χ → Bytes) (x : χ) (xs : List χ) :
    wire enc (x :: xs) = enc x ++ wire enc xs := rfl

@[simp] theorem wire_append (enc : χ → Bytes) (xs ys : List χ) :
    wire enc (xs ++ ys) = wire enc xs ++ wire enc ys := by
  simp [wire]

/-- Of the messages to come, `n` bytes are here: those complete, the bytes left over and the messages still to
come.  It looks at the lengths of the encodings only. -/
def arrive (enc : χ → Bytes) : Nat → List χ → List χ × Nat × List χ
  | n, [] => ([], n, [])
  | n, x :: xs =>
      if (enc x).length ≤ n then
        let r := arrive enc (n - (enc x).length) xs
        (x :: r.1, r.2)
      else ([], n, x :: xs)

/-- The messages that each piece of the stream completes, when `n` bytes of `xs` are already here; one list
for each piece, empty where the piece completes nothing. -/
def groups (enc : χ → Bytes) : Nat → List χ → List Bytes → List (List χ)
  | _, _, [] => []
  | n, xs, piece :: pieces =>
      let r := arrive enc (n + piece.length) xs
      r.1 :: groups enc r.2.1 r.2.2 pieces

/-- The `n` bytes in hand complete no message, as it is between two reads. -/
def Short (enc : χ → Bytes) (n : Nat) (xs : List χ) : Prop :=
  ∀ x ∈ xs.head?, n < (enc x).length

variable {turn : Bytes → Turn ψ ε} {enc : χ → Bytes} {dec : χ → ψ}

theorem Delimits.short_zero (h : Delimits turn enc dec) (xs : List χ) : Short enc 0 xs := by
  intro x _
  exact List.length_pos_of_ne_nil (h.nonempty x)

/-- Only the first message counts. -/
theorem Short.extend {n : Nat} {xs ys : List χ} (h : Short enc n (xs ++ ys)) (hne : xs ≠ [])
    (zs : List χ) : Short enc n (xs ++ zs) := by
  obtain ⟨x, xs, rfl⟩ := List.exists_cons_of_ne_nil hne
  exact h

/-- What `arrive` splits, and that it stops only at a message that is not complete. -/
theorem arrive_spec (enc : χ → Bytes) (n : Nat) (xs : List χ) :
    xs = (arrive enc n xs).1 ++ (arrive enc n xs).2.2 ∧
      n = (wire enc (arrive enc n xs).1).length + (arrive enc n xs).2.1 ∧
      Short enc (arrive enc n xs).2.1 (arrive enc n xs).2.2 := by
  induction xs generalizing n with
  | nil => simp [arrive, Short]
  | cons x xs ih =>
      simp only [arrive]
      split
      · rename_i hle
        obtain ⟨hxs, hn, hs⟩ := ih (n - (enc x).length)
        refine ⟨?_, ?_, hs⟩
        · rw [List.cons_append, ← hxs]
        · simp only [wire_cons, List.length_append]
          omega
      · rename_i hgt
        refine ⟨rfl, by simp, ?_⟩
        intro y hy
        simp only [List.head?_cons, Option.mem_some_iff] at hy
        subst hy
        show n < (enc x).length
        omega

/-- **The loop finds what the lengths say.**  On the first part `p` of a stream of messages the loop
finds the messages that `p` completes, without failing, and keeps the rest of `p`. -/
theorem scan_stream (h : Delimits turn enc dec) {xs : List χ} {p q : Bytes}
    (hpq : wire enc xs = p ++ q) {n : Nat} (hn : p.length < n) :
    ∃ rest, scan turn n p = ⟨(arrive enc p.length xs).1.map dec, none, rest⟩ ∧
      rest.length = (arrive enc p.length xs).2.1 ∧
      wire enc (arrive enc p.length xs).2.2 = rest ++ q := by
  induction xs generalizing p n with
  | nil =>
      obtain ⟨rfl, rfl⟩ : p = [] ∧ q = [] := by simpa [eq_comm] using hpq
      obtain ⟨n, rfl⟩ : ∃ m, n = m + 1 := ⟨n - 1, by omega⟩
      exact ⟨[], by simp [scan, h.idle, arrive], rfl, rfl⟩
  | cons x xs ih =>
      obtain ⟨n, rfl⟩ : ∃ m, n = m + 1 := ⟨n - 1, by omega⟩
      rw [wire_cons] at hpq
      simp only [arrive]
      split
      · -- `p` holds the whole encoding of `x`
        rename_i hle
        obtain ⟨p', rfl, hp'⟩ : ∃ p', p = enc x ++ p' ∧ wire enc xs = p' ++ q := by
          rcases List.append_eq_append_iff.mp hpq with ⟨a, ha, hb⟩ | ⟨c, hc, hd⟩
          · exact ⟨a, ha, hb⟩
          · have hc0 : c = [] := by
              have := congrArg List.length hc
              simp only [List.length_append] at this
              exact List.length_eq_zero_iff.mp (by omega)
            subst hc0
            exact ⟨[], by simpa using hc.symm, by simpa using hd.symm⟩
        have hpos := List.length_pos_of_ne_nil (h.nonempty x)
        have hlen : (enc x ++ p').length - (enc x).length = p'.length := by simp
        obtain ⟨rest, hscan, hrest, hwire⟩ := ih hp' (n := n)
          (by simp only [List.length_append] at hn; omega)
        rw [hlen]
        refine ⟨rest, ?_, hrest, hwire⟩
        simp only [scan, h.emit, hscan, List.map_cons]
      · -- `p` ends inside the encoding of `x`
        rename_i hgt
        obtain ⟨c, hc, hd⟩ : ∃ c, enc x = p ++ c ∧ q = c ++ wire enc xs := by
          rcases List.append_eq_append_iff.mp hpq with ⟨a, ha, hb⟩ | ⟨c, hc, hd⟩
          · have := congrArg List.length ha
            simp only [List.length_append] at this
            omega
          · exact ⟨c, hc, hd⟩
        have hne : c ≠ [] := by
          rintro rfl
          rw [hc] at hgt
          simp at hgt
        refine ⟨p, by simp [scan, h.wait x p c hc hne], rfl, ?_⟩
        rw [wire_cons, hc, hd, List.append_assoc]

/-- **No message is lost or moved by the cutting**: the groups of all the pieces, one behind the other, are
the messages. -/
theorem flatten_groups {n : Nat} {xs : List χ} {pieces : List Bytes} (hs : Short enc n xs)
    (hlen : (wire enc xs).length = n + pieces.flatten.length) :
    (groups enc n xs pieces).flatten = xs := by
  induction pieces generalizing n xs with
  | nil =>
      cases xs with
      | nil => rfl
      | cons x xs =>
          have := hs x (by simp)
          simp only [wire_cons, List.length_append, List.flatten_nil, List.length_nil] at hlen
          omega
  | cons piece pieces ih =>
      obtain ⟨hxs, hn, hs'⟩ := arrive_spec enc (n + piece.length) xs
      simp only [groups, List.flatten_cons]
      have hlen' : (wire enc (arrive enc (n + piece.length) xs).2.2).length =
          (arrive enc (n + piece.length) xs).2.1 + pieces.flatten.length := by
        have hw := congrArg (fun l => (wire enc l).length) hxs
        simp only [wire_append, List.length_append] at hw
        simp only [List.flatten_cons, List.length_append] at hlen
        omega
      rw [ih hs' hlen']
      exact hxs.symm

/-! ## Noise between the messages -/

/-- The turn finds its way through noise.  `quiet` noise in front of a whole encoding is discarded with
it; of a beginning of such bytes enough is kept that what follows completes the same message. -/
structure Resyncs (turn : Bytes → Turn ψ ε) (enc : χ → Bytes) (dec : χ → ψ)
    (quiet : Bytes → Prop) : Prop where
  nonempty : ∀ x, enc x ≠ []
  emit : ∀ n x tail, quiet n → turn (n ++ (enc x ++ tail)) = .emit (dec x) tail
  wait : ∀ n x p q, quiet n → n ++ enc x = p ++ q → q ≠ [] →
    ∃ n' p', turn p = .wait p' ∧ quiet n' ∧ n' ++ enc x = p' ++ q
  idle : ∀ p q, quiet (p ++ q) → ∃ p', turn p = .wait p' ∧ quiet (p' ++ q)

/-- The stream of some messages, each with the noise in front of it, and the noise at the end.  With no noise
it is `wire`. -/
def noisy (enc : χ → Bytes) : List (Bytes × χ) → Bytes → Bytes
  | [], last => last
  | (n, x) :: items, last => n ++ (enc x ++ noisy enc items last)

/-- Messages without noise between them. -/
theorem noisy_eq_wire (enc : χ → Bytes) (xs : List χ) :
    noisy enc (xs.map fun x => ([], x)) [] = wire enc xs := by
  induction xs with
  | nil => rfl
  | cons x xs ih =>
      rw [List.map_cons, noisy, ih]
      rfl

/-- All noise of the stream is quiet. -/
def Quiet (quiet : Bytes → Prop) (items : List (Bytes × χ)) (last : Bytes) : Prop :=
  (∀ item ∈ items, quiet item.1) ∧ quiet last

/-- **The loop finds the messages behind the noise.**  On the first part `p` of a stream the loop finds
the first messages of it, and keeps bytes that, with the rest of the stream, are again such a stream
of the messages left; none is left when the stream ends with `p`. -/
theorem scan_noisy {quiet : Bytes → Prop} (h : Resyncs turn enc dec quiet)
    {items : List (Bytes × χ)} {last p q : Bytes} (hq : Quiet quiet items last)
    (hpq : noisy enc items last = p ++ q) {n : Nat} (hn : p.length < n) :
    ∃ found left last' rest, items.map Prod.snd = found ++ left.map Prod.snd ∧
      scan turn n p = ⟨found.map dec, none, rest⟩ ∧ Quiet quiet left last' ∧
      noisy enc left last' = rest ++ q ∧ (q = [] → left = []) := by
  induction items generalizing p n with
  | nil =>
      obtain ⟨n, rfl⟩ : ∃ m, n = m + 1 := ⟨n - 1, by omega⟩
      have hlast : last = p ++ q := hpq
      obtain ⟨p', hturn, hquiet⟩ := h.idle p q (hlast ▸ hq.2)
      exact ⟨[], [], p' ++ q, p', rfl, by simp [scan, hturn], ⟨by simp, hquiet⟩, rfl, fun _ => rfl⟩
  | cons item items ih =>
      obtain ⟨noise, x⟩ := item
      obtain ⟨n, rfl⟩ : ∃ m, n = m + 1 := ⟨n - 1, by omega⟩
      have hnoise : quiet noise := hq.1 (noise, x) (by simp)
      have hrest : Quiet quiet items last := ⟨fun i hi => hq.1 i (by simp [hi]), hq.2⟩
      have hsplit : (noise ++ enc x) ++ noisy enc items last = p ++ q := by
        rw [← hpq, noisy, List.append_assoc]
      by_cases hwhole : (noise ++ enc x).length ≤ p.length
      · -- `p` holds the noise and the whole encoding of `x`
        obtain ⟨p', rfl⟩ := starts_with hsplit hwhole
        have hp' : noisy enc items last = p' ++ q := by
          rw [List.append_assoc _ p' q] at hsplit
          exact List.append_cancel_left hsplit
        have hpos := List.length_pos_of_ne_nil (h.nonempty x)
        obtain ⟨found, left, last', rest, hitems, hscan, hquiet, hleft, hend⟩ := ih hrest hp'
          (n := n) (by simp only [List.length_append] at hn; omega)
        refine ⟨x :: found, left, last', rest, by simp [hitems], ?_, hquiet, hleft, hend⟩
        rw [List.append_assoc]
        simp only [scan, h.emit noise x p' hnoise, hscan, List.map_cons]
      · -- `p` ends in the noise or inside the encoding of `x`
        obtain ⟨c, hc⟩ := starts_with hsplit.symm (by omega)
        have hcq : q = c ++ noisy enc items last := by
          rw [hc, List.append_assoc] at hsplit
          exact (List.append_cancel_left hsplit).symm
        have hne : c ≠ [] := by
          rintro rfl
          rw [hc] at hwhole
          simp at hwhole
        obtain ⟨n', p', hturn, hquiet, hkeep⟩ := h.wait noise x p c hnoise hc hne
        refine ⟨[], (n', x) :: items, last, p', by simp, by simp [scan, hturn], ?_, ?_, ?_⟩
        · refine ⟨?_, hrest.2⟩
          intro i hi
          rcases List.mem_cons.mp hi with rfl | hi
          · exact hquiet
          · exact hrest.1 i hi
        · rw [noisy, ← List.append_assoc, hkeep, hcq, List.append_assoc]
        · intro hq0
          rw [hcq] at hq0
          exact absurd (List.append_eq_nil_iff.mp hq0).1 hne

/-! ## Streams that begin alike -/

theorem arrive_append {n carry : Nat} {xs ys : List χ} (hn : n = (wire enc xs).length + carry)
    (hs : Short enc carry ys) : arrive enc n (xs ++ ys) = (xs, carry, ys) := by
  induction xs generalizing n with
  | nil =>
      have hn' : n = carry := by simpa using hn
      subst hn'
      cases ys with
      | nil => rfl
      | cons y ys =>
          have hy : n < (enc y).length := hs y (by simp)
          rw [List.nil_append, arrive, if_neg (by omega)]
  | cons x xs ih =>
      simp only [wire_cons, List.length_append] at hn
      rw [List.cons_append, arrive, if_pos (by omega), ih (by omega)]

/-- The groups are a first part of the messages. -/
theorem groups_flatten_le (enc : χ → Bytes) (n : Nat) (xs : List χ) (pieces : List Bytes) :
    ∃ left, xs = (groups enc n xs pieces).flatten ++ left := by
  induction pieces generalizing n xs with
  | nil => exact ⟨xs, rfl⟩
  | cons piece pieces ih =>
      obtain ⟨hxs, -, -⟩ := arrive_spec enc (n + piece.length) xs
      obtain ⟨left, hleft⟩ := ih (arrive enc (n + piece.length) xs).2.1
        (arrive enc (n + piece.length) xs).2.2
      refine ⟨left, ?_⟩
      rw [groups, List.flatten_cons, List.append_assoc, ← hleft]
      exact hxs

/-- The bytes of a piece, split where the messages it completes end. -/
theorem arrive_bytes {n : Nat} {xs : List χ} {buf piece tail : Bytes} (hlen : buf.length = n)
    (hw : wire enc xs = buf ++ (piece ++ tail)) :
    ∃ kept, buf ++ piece = wire enc (arrive enc (n + piece.length) xs).1 ++ kept ∧
      kept.length = (arrive enc (n + piece.length) xs).2.1 ∧
      wire enc (arrive enc (n + piece.length) xs).2.2 = kept ++ tail := by
  obtain ⟨hxs, hn, -⟩ := arrive_spec enc (n + piece.length) xs
  have hsplit : wire enc (arrive enc (n + piece.length) xs).1 ++
      wire enc (arrive enc (n + piece.length) xs).2.2 = (buf ++ piece) ++ tail := by
    rw [← wire_append, ← hxs, hw, List.append_assoc]
  rcases List.append_eq_append_iff.mp hsplit with ⟨kept, hk, ht⟩ | ⟨c, hc, ht⟩
  · refine ⟨kept, hk, ?_, ht⟩
    have := congrArg List.length hk
    simp only [List.length_append] at this
    omega
  · have hc0 : c = [] := by
      have := congrArg List.length hc
      simp only [List.length_append] at this
      exact List.length_eq_zero_iff.mp (by omega)
    subst hc0
    refine ⟨[], by simpa using hc.symm, ?_, by simpa using ht.symm⟩
    have := congrArg List.length hc
    simp only [List.length_append, List.length_nil] at this
    simp only [List.length_nil]
    omega

/-- A piece that completes messages, cut short behind the last one of them, completes the same ones and leaves
nothing over. -/
theorem exists_cut {n : Nat} {xs : List χ} {buf piece tail : Bytes} (hs : Short enc n xs)
    (hlen : buf.length = n) (hw : wire enc xs = buf ++ (piece ++ tail))
    (hread : (arrive enc (n + piece.length) xs).1 ≠ []) :
    ∃ used kept, piece = used ++ kept ∧
      wire enc (arrive enc (n + piece.length) xs).1 = buf ++ used := by
  obtain ⟨hxs, -, -⟩ := arrive_spec enc (n + piece.length) xs
  obtain ⟨kept, hkept, -, -⟩ := arrive_bytes hlen hw
  generalize (arrive enc (n + piece.length) xs).1 = read at hxs hkept hread ⊢
  -- the piece reaches beyond the end of the bytes in hand
  obtain ⟨x, read, rfl⟩ := List.exists_cons_of_ne_nil hread
  have hx : n < (enc x).length := hs x (by rw [hxs]; simp)
  have hle : (enc x).length ≤ (wire enc (x :: read)).length := by simp
  rcases List.append_eq_append_iff.mp hkept with ⟨used, -, hused⟩ | ⟨c, hc, -⟩
  · refine ⟨used, kept, hused, ?_⟩
    rw [hused, ← List.append_assoc] at hkept
    exact (List.append_cancel_right hkept).symm
  · have hc := congrArg List.length hc
    rw [List.length_append] at hc
    omega

/-- **A stream can be stopped behind any message and go on differently.**  The pieces up to the one
that completes `read`, that one cut short behind its last message, complete the same messages, and
whatever comes after them starts afresh. -/
theorem exists_pieces (hne : ∀ x, enc x ≠ []) {n : Nat} {xs : List χ} {buf : Bytes}
    {pieces : List Bytes} {before after : List (List χ)} {read : List χ} (hread : read ≠ [])
    (hs : Short enc n xs) (hlen : buf.length = n) (hw : wire enc xs = buf ++ pieces.flatten)
    (h : groups enc n xs pieces = before ++ read :: after) :
    ∃ pieces', (∀ p ∈ pieces', ∃ q ∈ pieces, p.length ≤ q.length) ∧
      wire enc (before.flatten ++ read) = buf ++ pieces'.flatten ∧
      ∀ more tail, groups enc n (before.flatten ++ read ++ more) (pieces' ++ tail) =
        before ++ read :: groups enc 0 more tail := by
  induction before generalizing n xs buf pieces with
  | nil =>
      cases pieces with
      | nil => simp [groups] at h
      | cons piece pieces =>
          simp only [groups, List.nil_append, List.cons.injEq] at h
          obtain ⟨rfl, -⟩ := h
          rw [List.flatten_cons] at hw
          obtain ⟨used, kept, hpiece, hwire⟩ := exists_cut hs hlen hw hread
          refine ⟨[used], ?_, by simpa using hwire, ?_⟩
          · intro p hp
            refine ⟨piece, List.mem_cons_self, ?_⟩
            rw [List.mem_singleton.mp hp, hpiece, List.length_append]
            omega
          · intro more tail
            have hzero : Short enc 0 more := fun y _ => List.length_pos_of_ne_nil (hne y)
            generalize (arrive enc (n + piece.length) xs).1 = read at hwire
            have harr : arrive enc (n + used.length) (read ++ more) = (read, 0, more) := by
              refine arrive_append ?_ hzero
              rw [hwire, List.length_append, hlen, Nat.add_zero]
            simp only [List.flatten_nil, List.nil_append, List.singleton_append, groups, harr]
  | cons first before ih =>
      cases pieces with
      | nil => simp [groups] at h
      | cons piece pieces =>
          simp only [groups, List.cons_append, List.cons.injEq] at h
          obtain ⟨hf, hrest⟩ := h
          obtain ⟨hxs, hn, hs'⟩ := arrive_spec enc (n + piece.length) xs
          rw [List.flatten_cons] at hw
          obtain ⟨kept, hkept, hklen, hwleft⟩ := arrive_bytes hlen hw
          obtain ⟨pieces', hsize, hwire, hgroups⟩ := ih hs' hklen hwleft hrest
          rw [hf] at hn hkept
          refine ⟨piece :: pieces', ?_, ?_, ?_⟩
          · intro p hp
            rcases List.mem_cons.mp hp with rfl | hp
            · exact ⟨p, by simp, le_refl _⟩
            · obtain ⟨q, hq, hle⟩ := hsize p hp
              exact ⟨q, by simp [hq], hle⟩
          · rw [List.flatten_cons, List.append_assoc, wire_append, hwire, List.flatten_cons,
              ← List.append_assoc, ← hkept, List.append_assoc]
          · intro more tail
            -- the message under way is the same one as before
            have hshort : Short enc (arrive enc (n + piece.length) xs).2.1
                (before.flatten ++ read ++ more) := by
              obtain ⟨left, hleft⟩ := groups_flatten_le enc
                (arrive enc (n + piece.length) xs).2.1 (arrive enc (n + piece.length) xs).2.2 pieces
              rw [hrest, List.flatten_append, List.flatten_cons, ← List.append_assoc,
                List.append_assoc] at hleft
              rw [hleft] at hs'
              exact hs'.extend (by simp [hread]) more
            have harr : arrive enc (n + piece.length) (first ++ (before.flatten ++ read ++ more)) =
                (first, (arrive enc (n + piece.length) xs).2.1, before.flatten ++ read ++ more) :=
              arrive_append hn hshort
            simp only [List.flatten_cons, List.append_assoc, List.cons_append, groups] at harr ⊢
            rw [harr]
            simp only [← List.append_assoc]
            rw [hgroups]

/-! ## A buffer of bounded size -/

/-- More bytes complete what they complete behind those already here. -/
theorem arrive_add (enc : χ → Bytes) (m k : Nat) (xs : List χ) :
    arrive enc (m + k) xs =
      ((arrive enc m xs).1 ++ (arrive enc ((arrive enc m xs).2.1 + k) (arrive enc m xs).2.2).1,
        (arrive enc ((arrive enc m xs).2.1 + k) (arrive enc m xs).2.2).2) := by
  obtain ⟨hxs, hm, -⟩ := arrive_spec enc m xs
  rcases hr : arrive enc m xs with ⟨done, carry, left⟩
  rw [hr] at hxs hm
  obtain ⟨hleft, hcarry, hs⟩ := arrive_spec enc (carry + k) left
  rcases hr' : arrive enc (carry + k) left with ⟨done', carry', left'⟩
  rw [hr'] at hleft hcarry hs
  simp only at hxs hm hleft hcarry hs
  subst hxs hleft
  rw [← List.append_assoc]
  refine arrive_append ?_ hs
  rw [wire_append, List.length_append]
  omega

theorem arrive_short {n : Nat} {xs : List χ} (h : Short enc n xs) : arrive enc n xs = ([], n, xs) := by
  have harr : arrive enc n ([] ++ xs) = ([], n, xs) := arrive_append (by simp) h
  exact harr

/-- With `n` bytes of `xs` here, every piece finds room behind the bytes of the message under way, so a
receiver that keeps only those never runs out of it. -/
def Fits (enc : χ → Bytes) (room n : Nat) (xs : List χ) (pieces : List Bytes) : Prop :=
  ∀ before piece after, pieces = before ++ piece :: after →
    (arrive enc (n + before.flatten.length) xs).2.1 + piece.length ≤ room

theorem fits_nil (enc : χ → Bytes) (room n : Nat) (xs : List χ) : Fits enc room n xs [] := by
  intro before piece after h
  simp at h

theorem fits_cons {room n : Nat} {xs : List χ} {piece : Bytes} {pieces : List Bytes}
    (hs : Short enc n xs) :
    Fits enc room n xs (piece :: pieces) ↔ n + piece.length ≤ room ∧
      Fits enc room (arrive enc (n + piece.length) xs).2.1 (arrive enc (n + piece.length) xs).2.2
        pieces := by
  constructor
  · intro h
    refine ⟨?_, ?_⟩
    · have := h [] piece pieces rfl
      rwa [List.flatten_nil, List.length_nil, Nat.add_zero, arrive_short hs] at this
    · intro before p after hp
      have := h (piece :: before) p after (by rw [hp]; rfl)
      rw [List.flatten_cons, List.length_append, ← Nat.add_assoc, arrive_add] at this
      exact this
  · rintro ⟨hfirst, hrest⟩ before p after hp
    cases before with
    | nil =>
        obtain ⟨rfl, -⟩ := List.cons.inj hp
        rw [List.flatten_nil, List.length_nil, Nat.add_zero, arrive_short hs]
        exact hfirst
    | cons b before =>
        obtain ⟨rfl, hp'⟩ := List.cons.inj hp
        rw [List.flatten_cons, List.length_append, ← Nat.add_assoc, arrive_add]
        exact hrest before p after hp'

/-- Pieces of at most `size` bytes fit where every message leaves room for one. -/
theorem fits_of_room {room n size : Nat} {xs : List χ} {pieces : List Bytes}
    (hpieces : ∀ piece ∈ pieces, piece.length ≤ size)
    (hroom : ∀ x ∈ xs, (enc x).length + size ≤ room + 1)
    (hlen : (wire enc xs).length = n + pieces.flatten.length) : Fits enc room n xs pieces := by
  intro before piece after hp
  obtain ⟨hxs, hn, hs⟩ := arrive_spec enc (n + before.flatten.length) xs
  have hpiece := hpieces piece (by simp [hp])
  cases hleft : (arrive enc (n + before.flatten.length) xs).2.2 with
  | nil =>
      -- all messages are complete, so the stream is at its end
      have hw := congrArg (fun l => (wire enc l).length) hxs
      simp only [hleft, List.append_nil] at hw
      simp only [hp, List.flatten_append, List.flatten_cons, List.length_append] at hlen
      omega
  | cons x left =>
      have hx := hs x (by rw [hleft]; rfl)
      have := hroom x (by rw [hxs, hleft]; simp)
      omega

/-- Pieces that each lie inside one message fit where every message does. -/
theorem fits_wire {room : Nat} {cut : χ → List Bytes} (hcut : ∀ x, (cut x).flatten = enc x)
    (hpieces : ∀ x, ∀ piece ∈ cut x, piece ≠ []) {xs : List χ}
    (hroom : ∀ x ∈ xs, (enc x).length ≤ room) : Fits enc room 0 xs (xs.flatMap cut) := by
  intro before piece after hp
  induction xs generalizing before with
  | nil => simp at hp
  | cons x xs ih =>
      rw [List.flatMap_cons] at hp
      rcases List.append_eq_append_iff.mp hp with ⟨mid, hb, hm⟩ | ⟨mid, hb, hm⟩
      · -- the piece belongs to a later message
        have hlen : 0 + before.flatten.length = (enc x).length + (0 + mid.flatten.length) := by
          rw [hb, List.flatten_append, List.length_append, hcut]
          omega
        rw [hlen, arrive, if_pos (by omega)]
        have harr : (enc x).length + (0 + mid.flatten.length) - (enc x).length =
            0 + mid.flatten.length := by omega
        rw [harr]
        exact ih (fun y hy => hroom y (by simp [hy])) mid hm
      · cases mid with
        | nil =>
            have hlen : 0 + before.flatten.length = (enc x).length := by
              rw [List.append_nil] at hb
              rw [← hb, hcut, Nat.zero_add]
            rw [hlen, arrive, if_pos (le_refl _), Nat.sub_self]
            exact ih (fun y hy => hroom y (by simp [hy])) [] hm.symm
        | cons first mid =>
            -- the piece belongs to `x`
            obtain ⟨rfl, -⟩ := List.cons.inj hm
            have hwhole : (enc x).length = before.flatten.length + (piece.length + mid.flatten.length) := by
              rw [← hcut, hb]
              simp
            have hpos := List.length_pos_of_ne_nil (hpieces x piece (by rw [hb]; simp))
            rw [arrive, if_neg (by omega)]
            have := hroom x (by simp)
            show 0 + before.flatten.length + piece.length ≤ room
            omega

/-- Byte by byte: the cutting in which every read brings one byte. -/
def bytewise (bs : Bytes) : List Bytes := bs.map fun b => [b]

@[simp] theorem flatten_bytewise (bs : Bytes) : (bytewise bs).flatten = bs := by
  induction bs with
  | nil => rfl
  | cons b bs ih =>
      have : bytewise (b :: bs) = [b] :: bytewise bs := rfl
      rw [this, List.flatten_cons, ih]
      rfl

/-- One byte completes one message at most, since no message is empty. -/
theorem groups_bytewise (hne : ∀ x, enc x ≠ []) {n : Nat} {xs : List χ} {bs : Bytes}
    (hs : Short enc n xs) : ∀ read ∈ groups enc n xs (bytewise bs), read.length ≤ 1 := by
  induction bs generalizing n xs with
  | nil => simp [bytewise, groups]
  | cons b bs ih =>
      obtain ⟨hxs, hn, hs'⟩ := arrive_spec enc (n + 1) xs
      have hone : (arrive enc (n + 1) xs).1.length ≤ 1 := by
        rcases hr : (arrive enc (n + 1) xs).1 with _ | ⟨x, _ | ⟨y, t⟩⟩
        · simp
        · simp
        · rw [hr] at hxs hn
          have hx : n < (enc x).length := hs x (by rw [hxs]; simp)
          have hy := List.length_pos_of_ne_nil (hne y)
          simp only [wire_cons, List.length_append] at hn
          omega
      have hcons : bytewise (b :: bs) = [b] :: bytewise bs := rfl
      intro read hread
      rw [hcons, groups, List.mem_cons] at hread
      rcases hread with rfl | hread
      · exact hone
      · exact ih hs' read hread

/-! ## A pattern in front of every message -/

/-- The pattern does not show before it is whole: a part of what ends with it holds no earlier occurrence. -/
theorem Unbordered.not_infix_part {pat n p c : Bytes} (hu : Unbordered pat) (hn : ¬ pat <:+: n)
    (hc : n ++ pat = p ++ c) (hcne : c ≠ []) : ¬ pat <:+: p := by
  by_cases hin : n.length ≤ p.length
  · obtain ⟨r, rfl⟩ := starts_with hc hin
    rw [List.append_assoc] at hc
    exact hu.not_infix_append hn (List.append_cancel_left hc) hcne
  · obtain ⟨r, hr⟩ := starts_with hc.symm (by omega)
    intro hp
    exact hn (hp.trans ⟨[], r, by rw [List.nil_append, ← hr]⟩)

/-- Where every beginning of the pattern at the end is kept, what is dropped ends with the noise. -/
theorem dropped_le {pat n p c dropped kept : Bytes} (hc : n ++ pat = p ++ c) (hcne : c ≠ [])
    (hcut : p = dropped ++ kept)
    (hlong : ∀ r s, pat = r ++ s → s ≠ [] → r <:+ p → r.length ≤ kept.length) :
    dropped.length ≤ n.length := by
  by_cases hin : n.length ≤ p.length
  · obtain ⟨r, hr⟩ := starts_with hc hin
    rw [hr, List.append_assoc] at hc
    have hrkept := hlong r c (List.append_cancel_left hc) hcne ⟨n, hr.symm⟩
    have hlen := congrArg List.length (hr.symm.trans hcut)
    rw [List.length_append, List.length_append] at hlen
    omega
  · have hlen := congrArg List.length hcut
    rw [List.length_append] at hlen
    omega

/-- **From messages to messages with noise between them.**  Every message starts with `pat`, which does not
overlap itself; noise in front of `pat` makes no difference; and of bytes without `pat` so much is kept that
no beginning of `pat` at their end is lost. -/
theorem Delimits.resyncs {pat : Bytes} (h : Delimits turn enc dec) (hu : Unbordered pat) (hpat : pat ≠ [])
    (hstart : ∀ x, ∃ bs, enc x = pat ++ bs)
    (hnoise : ∀ n bs, ¬ pat <:+: n → turn (n ++ (pat ++ bs)) = turn (pat ++ bs))
    (hkeep : ∀ p, ¬ pat <:+: p → ∃ dropped kept, p = dropped ++ kept ∧ turn p = .wait kept ∧
      ∀ r s, pat = r ++ s → s ≠ [] → r <:+ p → r.length ≤ kept.length) :
    Resyncs turn enc dec fun n => ¬ pat <:+: n where
  nonempty := h.nonempty
  emit := by
    intro n x tail hn
    obtain ⟨bs, hbs⟩ := hstart x
    have hemit := h.emit x tail
    rw [hbs, List.append_assoc] at hemit ⊢
    rw [hnoise _ _ hn, hemit]
  wait := by
    intro n x p q hn hpq hq
    obtain ⟨bs, hbs⟩ := hstart x
    by_cases hfull : (n ++ pat).length ≤ p.length
    · -- the pattern is there: the noise goes, the beginning of the message stays
      have hsplit : (n ++ pat) ++ bs = p ++ q := by
        rw [← hpq, hbs, List.append_assoc]
      obtain ⟨p', rfl⟩ := starts_with hsplit hfull
      rw [List.append_assoc, List.append_assoc] at hpq
      have hpart : enc x = (pat ++ p') ++ q := by
        rw [List.append_assoc]
        exact List.append_cancel_left hpq
      refine ⟨[], pat ++ p', ?_, ?_, hpart⟩
      · rw [List.append_assoc, hnoise _ _ hn]
        exact h.wait x _ q hpart hq
      · rw [List.infix_nil]
        exact hpat
    · -- the buffer ends in the noise or inside the pattern
      obtain ⟨c, hc⟩ : ∃ c, n ++ pat = p ++ c := by
        have hsplit : p ++ q = (n ++ pat) ++ bs := by
          rw [← hpq, hbs, List.append_assoc]
        exact starts_with hsplit (by omega)
      have hcne : c ≠ [] := by
        rintro rfl
        rw [List.append_nil] at hc
        rw [hc] at hfull
        exact hfull (le_refl _)
      obtain ⟨dropped, kept, hcut, hturn, hlong⟩ := hkeep p (hu.not_infix_part hn hc hcne)
      -- what is dropped is noise
      obtain ⟨n', rfl⟩ : ∃ n', n = dropped ++ n' := by
        have hwhole : n ++ enc x = dropped ++ (kept ++ q) := by
          rw [hpq, hcut, List.append_assoc]
        exact starts_with hwhole.symm (dropped_le hc hcne hcut hlong)
      refine ⟨n', kept, hturn, ?_, ?_⟩
      · intro hp
        exact hn (hp.trans ⟨dropped, [], by rw [List.append_nil]⟩)
      · rw [hcut, List.append_assoc, List.append_assoc] at hpq
        exact List.append_cancel_left hpq
  idle := by
    intro p q hn
    obtain ⟨dropped, kept, rfl, hturn, -⟩ := hkeep p fun hp => hn (hp.trans ⟨[], q, rfl⟩)
    refine ⟨kept, hturn, ?_⟩
    intro hp
    exact hn (hp.trans ⟨dropped, [], by rw [List.append_nil, List.append_assoc]⟩)

end TradeBroker.Lib
