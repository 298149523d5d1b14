/-
# TradeBroker.Lib.Bytes — little-endian words inside byte strings.

`leNat` reads a byte string as a little-endian number (`int.from_bytes(_, "little")`, and the `H`
and `I` fields of a `struct` layout that starts with `<`), `leBytes n v` writes the low `n` bytes of
`v`.  Reading back what was written is reduction modulo `256 ^ n` (`leNat_leBytes`), so a value that
fits survives (`leNat_leBytes_of_lt`), and a string of length `n` is determined by its value
(`leBytes_leNat`).  `slice` and `find` are the two ways the program looks into a buffer.

A pattern that does not overlap itself (`Unbordered`) is found behind bytes that do not hold it exactly
where it starts (`Unbordered.find_append`), and not before all of it is there
(`Unbordered.not_infix_append`).

Everything here is about lists of bytes and numbers: nothing names the program.  The records of `Pokemon`
are read and written through `slice` and `leNat`, the frames of both codecs through `find`, `slice` and
`leBytes`, and the checksums of `Lib.Crc` and `Lib.Remainder` read their stored words with the same two
functions.

A slice that reaches past the end is cut short, as it is in Python, so the lemmas about slices say which
bounds they need.  `find` is total on the empty pattern too, but the lemmas about it ask for a pattern
that is not empty, which is what both sync words are.
-/
import Mathlib.Data.List.Basic
import Mathlib.Tactic.Common
import Mathlib.Tactic.Ring

namespace TradeBroker.Lib

abbrev Bytes : Type := List UInt8

/-- `bs[i:j]`, with `0 ≤ i`.  It is shorter than `j - i` where the string ends first, and empty where it ends
before `i`. -/
def slice (bs : Bytes) (i j : Nat) : Bytes := (bs.drop i).take (j - i)

theorem slice_append {a b c : Bytes} {i j : Nat} (hi : a.length = i) (hj : i + b.length = j) :
    slice (a ++ (b ++ c)) i j = b := by
  subst hi
  have hlen : j - a.length = b.length := by omega
  rw [slice, List.drop_left, hlen, List.take_left]

theorem getD_append {a c : Bytes} {x : UInt8} {i : Nat} (hi : a.length = i) :
    (a ++ ([x] ++ c)).getD i 0 = x := by
  subst hi
  simp

theorem length_slice {bs : Bytes} {i j : Nat} (hj : j ≤ bs.length) :
    (slice bs i j).length = j - i := by
  simp only [slice, List.length_take, List.length_drop]
  omega

theorem length_slice_le (bs : Bytes) (i n : Nat) : (slice bs i (i + n)).length ≤ n := by
  simp only [slice, List.length_take]
  omega

/-- A slice does not look at what follows it: bytes that arrive later leave every field that is already
complete as it was. -/
theorem slice_append_left {p : Bytes} {j : Nat} (hj : j ≤ p.length) (q : Bytes) (i : Nat) :
    slice (p ++ q) i j = slice p i j := by
  by_cases hi : i ≤ p.length
  · rw [slice, slice, List.drop_append_of_le_length hi, List.take_append_of_le_length]
    rw [List.length_drop]
    omega
  · have hzero : j - i = 0 := by omega
    rw [slice, slice, hzero, List.take_zero, List.take_zero]

theorem getD_append_left {p : Bytes} {i : Nat} (h : i < p.length) (q : Bytes) :
    (p ++ q).getD i 0 = p.getD i 0 := by
  rw [List.getD_eq_getElem?_getD, List.getD_eq_getElem?_getD, List.getElem?_append_left h]

theorem slice_one {p : Bytes} {i : Nat} (h : i < p.length) : slice p i (i + 1) = [p.getD i 0] := by
  have hone : i + 1 - i = 1 := by omega
  rw [slice, hone, List.drop_eq_getElem_cons h, List.getD_eq_getElem?_getD,
    List.getElem?_eq_getElem h]
  rfl

/-- Neighbouring slices are one slice, so a layout may be read field by field and put together again. -/
theorem slice_slice (bs : Bytes) {i j k : Nat} (hij : i ≤ j) (hjk : j ≤ k) :
    slice bs i j ++ slice bs j k = slice bs i k := by
  have hdrop : bs.drop j = (bs.drop i).drop (j - i) := by
    rw [List.drop_drop]
    congr 1
    omega
  have hk : k - i = (j - i) + (k - j) := by omega
  rw [slice, slice, slice, hdrop, hk, List.take_add]

/-- Pieces of `k` bytes, one behind the other, are the string; the last piece may be short, and pieces behind
the end are empty. -/
theorem flatten_pieces {k n : Nat} {bs : Bytes} (h : bs.length ≤ k * n) :
    ((List.range n).map fun i => (bs.drop (k * i)).take k).flatten = bs := by
  induction n generalizing bs with
  | zero =>
      have hnil : bs = [] := List.length_eq_zero_iff.mp (by omega)
      rw [hnil]
      rfl
  | succ n ih =>
      have hrest := ih (show (bs.drop k).length ≤ k * n by rw [List.length_drop, Nat.sub_le_iff_le_add]; exact h)
      have hmap : (List.range n).map ((fun i => (bs.drop (k * i)).take k) ∘ Nat.succ) =
          (List.range n).map fun i => ((bs.drop k).drop (k * i)).take k := by
        apply List.map_congr_left
        intro i _
        simp only [Function.comp, List.drop_drop]
        rw [Nat.mul_succ, Nat.add_comm]
      rw [List.range_succ_eq_map, List.map_cons, List.flatten_cons, List.map_map, hmap, hrest, Nat.mul_zero,
        List.drop_zero, List.take_append_drop]

/-- A first part of `a ++ b` that is as long as `a` starts with `a`. -/
theorem starts_with {a b p q : Bytes} (h : a ++ b = p ++ q) (hlen : a.length ≤ p.length) :
    ∃ p', p = a ++ p' := by
  rcases List.append_eq_append_iff.mp h with ⟨a', ha, _⟩ | ⟨c, hc, _⟩
  · exact ⟨a', ha⟩
  · have hl := congrArg List.length hc
    rw [List.length_append] at hl
    have hc0 : c = [] := List.length_eq_zero_iff.mp (by omega)
    subst hc0
    exact ⟨[], by simpa using hc.symm⟩

/-- `bs.find(pat)`: where the first occurrence starts, with `none` for the `-1` of Python. -/
def find (pat : Bytes) : Bytes → Option Nat
  | [] => if pat = [] then some 0 else none
  | b :: bs => if pat.isPrefixOf (b :: bs) then some 0 else (find pat bs).map (· + 1)

theorem find_append {pat : Bytes} (h : pat ≠ []) (bs : Bytes) : find pat (pat ++ bs) = some 0 := by
  cases pat with
  | nil => exact absurd rfl h
  | cons b pat => simp [find]

theorem find_eq_none_of_short {pat bs : Bytes} (h : bs.length < pat.length) : find pat bs = none := by
  induction bs with
  | nil =>
      have hne : pat ≠ [] := by
        rintro rfl
        simp at h
      simp [find, hne]
  | cons b bs ih =>
      have hnot : pat.isPrefixOf (b :: bs) = false := by
        rw [Bool.eq_false_iff, ne_eq, List.isPrefixOf_iff_prefix]
        intro hp
        exact absurd hp.length_le (by omega)
      have htail : find pat bs = none := ih (by simp only [List.length_cons] at h; omega)
      simp [find, hnot, htail]

theorem find_eq_none_iff {pat bs : Bytes} : find pat bs = none ↔ ¬ pat <:+: bs := by
  induction bs with
  | nil => simp [find]
  | cons b bs ih =>
      rw [find, List.infix_cons_iff]
      split
      · rename_i hp
        simp [List.isPrefixOf_iff_prefix.mp hp]
      · rename_i hp
        rw [List.isPrefixOf_iff_prefix] at hp
        simp only [Option.map_eq_none_iff, ih, hp, false_or]

/-- The first occurrence: no other one lies in front of it. -/
theorem find_eq_some {pat bs : Bytes} {k : Nat} (hne : pat ≠ []) (h : find pat bs = some k) :
    ∃ noise tail, bs = noise ++ (pat ++ tail) ∧ noise.length = k ∧ ¬ pat <:+: noise := by
  induction bs generalizing k with
  | nil =>
      rw [find, if_neg hne] at h
      cases h
  | cons b bs ih =>
      rw [find] at h
      split at h
      · rename_i hp
        obtain ⟨tail, htail⟩ := List.isPrefixOf_iff_prefix.mp hp
        refine ⟨[], tail, htail.symm, Option.some.inj h, ?_⟩
        rw [List.infix_nil]
        exact hne
      · rename_i hp
        obtain ⟨j, hj, rfl⟩ := Option.map_eq_some_iff.mp h
        obtain ⟨noise, tail, rfl, rfl, hquiet⟩ := ih hj
        refine ⟨b :: noise, tail, rfl, rfl, ?_⟩
        rw [List.infix_cons_iff, not_or]
        refine ⟨?_, hquiet⟩
        rintro ⟨t, ht⟩
        apply hp
        rw [List.isPrefixOf_iff_prefix]
        exact ⟨t ++ (pat ++ tail), by rw [← List.append_assoc, ht]; rfl⟩

/-- Bytes that hold no occurrence need not be looked at again, the last few apart: these may be the beginning
of an occurrence that ends in later bytes, and a scanner that has kept `pat.length - 1` of them misses
nothing. -/
theorem find_append_none {pat dropped kept : Bytes} (h : find pat (dropped ++ kept) = none)
    (hkept : dropped = [] ∨ pat.length ≤ kept.length + 1) (q : Bytes) :
    find pat (dropped ++ kept ++ q) = (find pat (kept ++ q)).map (· + dropped.length) := by
  induction dropped with
  | nil =>
      cases hf : find pat (kept ++ q) with
      | none => simpa using hf
      | some k => simpa using hf
  | cons b dropped ih =>
      rw [List.cons_append, find] at h
      split at h
      · cases h
      · rename_i hp
        have hlen : pat.length ≤ kept.length + 1 := by
          rcases hkept with hnil | hlen
          · cases hnil
          · exact hlen
        have hshort : ¬ pat.isPrefixOf (b :: (dropped ++ kept ++ q)) = true := by
          rw [List.isPrefixOf_iff_prefix] at hp ⊢
          intro hlonger
          apply hp
          refine List.prefix_of_prefix_length_le hlonger ⟨q, rfl⟩ ?_
          simp only [List.length_cons, List.length_append]
          omega
        have hrest := ih (Option.map_eq_none_iff.mp h) (Or.inr hlen)
        show find pat (b :: (dropped ++ kept ++ q)) = _
        rw [find, if_neg hshort, hrest, Option.map_map]
        rfl

/-- No proper end of the pattern is a beginning of it, so two occurrences never overlap.  Both sync words of
the program have this property, and it is decidable. -/
def Unbordered (pat : Bytes) : Prop := ∀ k < pat.length, 0 < k → ¬ pat.drop k <+: pat

instance (pat : Bytes) : Decidable (Unbordered pat) :=
  inferInstanceAs (Decidable (∀ k < pat.length, 0 < k → ¬ pat.drop k <+: pat))

/-- A proper end of the pattern does not begin it. -/
theorem Unbordered.not_prefix {pat a b tail : Bytes} (hu : Unbordered pat) (hab : pat = a ++ b)
    (ha : a ≠ []) (hb : b ≠ []) : ¬ b <+: pat ++ tail := by
  have hla := List.length_pos_of_ne_nil ha
  have hlb := List.length_pos_of_ne_nil hb
  have hlen : pat.length = a.length + b.length := by
    rw [hab, List.length_append]
  intro h
  have hdrop : pat.drop a.length = b := by
    rw [hab, List.drop_left]
  refine hu a.length (by omega) hla ?_
  rw [hdrop]
  exact List.prefix_of_prefix_length_le h (List.prefix_append _ _) (by omega)

/-- **The first occurrence behind bytes that hold none** is the one that was put there: the end of the noise
and the beginning of the pattern cannot make up an earlier one. -/
theorem Unbordered.find_append {pat noise : Bytes} (hu : Unbordered pat) (hne : pat ≠ [])
    (hn : ¬ pat <:+: noise) (tail : Bytes) : find pat (noise ++ (pat ++ tail)) = some noise.length := by
  induction noise with
  | nil => exact Lib.find_append hne tail
  | cons b noise ih =>
      rw [List.infix_cons_iff, not_or] at hn
      have hp : pat.isPrefixOf (b :: noise ++ (pat ++ tail)) = false := by
        rw [Bool.eq_false_iff, ne_eq, List.isPrefixOf_iff_prefix]
        rintro ⟨t, ht⟩
        rcases List.append_eq_append_iff.mp ht with ⟨c, hc, -⟩ | ⟨c, hc, hct⟩
        · exact hn.1 ⟨c, hc.symm⟩
        · by_cases hc0 : c = []
          · subst hc0
            rw [List.append_nil] at hc
            exact hn.1 ⟨[], by rw [hc, List.append_nil]⟩
          · exact hu.not_prefix hc (by simp) hc0 ⟨t, hct.symm⟩
      rw [List.cons_append] at hp ⊢
      simp [find, hp, ih hn.2]

/-- Bytes that hold no occurrence hold none with a proper part of the pattern behind them. -/
theorem Unbordered.not_infix_append {pat noise r s : Bytes} (hu : Unbordered pat)
    (hn : ¬ pat <:+: noise) (hr : pat = r ++ s) (hs : s ≠ []) : ¬ pat <:+: noise ++ r := by
  have hlen : pat.length = r.length + s.length := by
    rw [hr, List.length_append]
  have hpos := List.length_pos_of_ne_nil hs
  intro hin
  rcases List.infix_append_iff_ne_nil.mp hin with h | h | ⟨a, b, ha, hb, hab, -, hbr⟩
  · exact hn h
  · have := h.length_le
    omega
  · -- the occurrence would end inside a second one
    have hbp : b <+: pat ++ [] := by
      rw [List.append_nil, hr]
      exact hbr.trans (List.prefix_append _ _)
    exact hu.not_prefix hab ha hb hbp

/-- The little-endian value of a byte string, of any length: `int.from_bytes(bs, "little")`. -/
def leNat : Bytes → Nat
  | [] => 0
  | b :: bs => b.toNat + 256 * leNat bs

/-- The low `n` bytes of `v`, least significant first.  Higher bits are lost, which is what `struct.pack`
refuses and a C cast does. -/
def leBytes : Nat → Nat → Bytes
  | 0, _ => []
  | n + 1, v => UInt8.ofNat (v % 256) :: leBytes n (v / 256)

@[simp] theorem length_leBytes (n v : Nat) : (leBytes n v).length = n := by
  induction n generalizing v with
  | zero => rfl
  | succ n ih => simp [leBytes, ih]

theorem leNat_leBytes (n v : Nat) : leNat (leBytes n v) = v % 256 ^ n := by
  induction n generalizing v with
  | zero => simp [leBytes, leNat, Nat.mod_one]
  | succ n ih =>
      have hb : (UInt8.ofNat (v % 256)).toNat = v % 256 := by
        simp
      simp only [leBytes, leNat, ih, hb, pow_succ]
      rw [Nat.mul_comm (256 ^ n) 256, Nat.mod_mul]

theorem leNat_leBytes_of_lt {n v : Nat} (h : v < 256 ^ n) : leNat (leBytes n v) = v := by
  rw [leNat_leBytes, Nat.mod_eq_of_lt h]

theorem leBytes_leNat (bs : Bytes) : leBytes bs.length (leNat bs) = bs := by
  induction bs with
  | nil => rfl
  | cons b bs ih =>
      have hb : b.toNat < 256 := b.toNat_lt
      have hmod : (b.toNat + 256 * leNat bs) % 256 = b.toNat := by omega
      have hdiv : (b.toNat + 256 * leNat bs) / 256 = leNat bs := by omega
      simp [leBytes, leNat, hmod, hdiv, ih]

theorem leBytes_slice {p : Bytes} {i n : Nat} (h : i + n ≤ p.length) :
    leBytes n (leNat (slice p i (i + n))) = slice p i (i + n) := by
  have hlen : (slice p i (i + n)).length = n := by
    rw [length_slice h]
    omega
  nth_rewrite 1 [← hlen]
  exact leBytes_leNat _

end TradeBroker.Lib
