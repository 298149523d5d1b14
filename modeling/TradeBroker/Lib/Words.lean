/-
# TradeBroker.Lib.Words — a byte string as words of two and of four bytes.

`pieces k n bs` cuts `n` pieces of `k` bytes off a string, the way a loop `for offset in range(0, len, k)`
visits it.  `xorWords key` masks every little-endian 32-bit word of a string with one key, and `halfwords`
reads the string as little-endian 16-bit numbers.  Masking twice with one key gives the string back
(`xorWords_xorWords`), and a 32-bit mask acts on each 16-bit half by itself (`halfwords_xorWords`): the low
half of the key on the halves at even places, the high half on the others.

This is the arithmetic under the records.  Their encrypted part is masked word by word with the exclusive
or of two 32-bit fields, and its checksum is a sum of halfwords, so a change under the mask is a change of
halfwords at known places.  `Pokemon` uses both facts, and nothing here knows what a record is.
-/
import TradeBroker.Lib.Bytes
import Mathlib.Algebra.BigOperators.Group.List.Basic
import Mathlib.Data.Nat.Bitwise

namespace TradeBroker.Lib

/-! ## §1 — pieces. -/

/-- `[bs[i : i + k] for i in range(0, k * n, k)]`, the way a loop with a step visits a string. -/
def pieces (k n : Nat) (bs : Bytes) : List Bytes :=
  (List.range n).map fun i => slice bs (k * i) (k * i + k)

theorem pieces_append {k n : Nat} {w : Bytes} (hw : w.length = k) (rest : Bytes) :
    pieces k (n + 1) (w ++ rest) = w :: pieces k n rest := by
  have hhead : slice (w ++ rest) (k * 0) (k * 0 + k) = w := by
    rw [Nat.mul_zero, Nat.zero_add, slice, List.drop_zero, Nat.sub_zero, ← hw, List.take_left]
  rw [pieces, List.range_succ_eq_map, List.map_cons, hhead, List.map_map, pieces]
  congr 1
  apply List.map_congr_left
  intro i _
  have hdrop : (w ++ rest).drop (k * (i + 1)) = rest.drop (k * i) := by
    rw [Nat.mul_succ, Nat.add_comm, ← List.drop_drop, ← hw, List.drop_left]
  have hlen : k * (i + 1) + k - k * (i + 1) = k * i + k - k * i := by omega
  simp only [Function.comp, slice]
  rw [Nat.succ_eq_add_one, hdrop, hlen]

/-- A string of whole pieces has a first one, and whole pieces behind it. -/
theorem exists_piece {k n : Nat} {bs : Bytes} (h : bs.length = k * (n + 1)) :
    ∃ w rest, bs = w ++ rest ∧ w.length = k ∧ rest.length = k * n := by
  refine ⟨bs.take k, bs.drop k, (List.take_append_drop k bs).symm, ?_, ?_⟩
  · rw [List.length_take, h, Nat.mul_succ]
    omega
  · rw [List.length_drop, h, Nat.mul_succ]
    omega

/-- Slices are equal when the bytes in them are, whatever stands around them. -/
theorem slice_congr {bs bs' : Bytes} {i j : Nat}
    (h : ∀ n, i ≤ n → n < j → bs[n]? = bs'[n]?) : slice bs i j = slice bs' i j := by
  apply List.ext_getElem?
  intro n
  simp only [slice, List.getElem?_take, List.getElem?_drop]
  split
  · exact h (i + n) (by omega) (by omega)
  · rfl

/-! ## §2 — masking every 32-bit word. -/

/-- Every little-endian 32-bit word xored with `key`; bytes short of a word stay as they are. -/
def xorWords (key : Nat) : Bytes → Bytes
  | a :: b :: c :: d :: rest => leBytes 4 (leNat [a, b, c, d] ^^^ key) ++ xorWords key rest
  | rest => rest

theorem xorWords_append {key : Nat} {w : Bytes} (hw : w.length = 4) (rest : Bytes) :
    xorWords key (w ++ rest) = leBytes 4 (leNat w ^^^ key) ++ xorWords key rest := by
  obtain ⟨a, b, c, d, rfl⟩ := List.length_eq_four.mp hw
  rfl

theorem length_xorWords {key n : Nat} {bs : Bytes} (h : bs.length = 4 * n) :
    (xorWords key bs).length = 4 * n := by
  induction n generalizing bs with
  | zero =>
      rw [List.length_eq_zero_iff.mp h]
      rfl
  | succ n ih =>
      obtain ⟨w, rest, rfl, hw, hrest⟩ := exists_piece h
      rw [xorWords_append hw, List.length_append, length_leBytes, ih hrest]
      omega

/-- The loop over the offsets masks every word, so it is `xorWords`. -/
theorem flatMap_pieces {key n : Nat} {bs : Bytes} (h : bs.length = 4 * n) :
    (pieces 4 n bs).flatMap (fun w => leBytes 4 (leNat w ^^^ key)) = xorWords key bs := by
  induction n generalizing bs with
  | zero =>
      rw [List.length_eq_zero_iff.mp h]
      rfl
  | succ n ih =>
      obtain ⟨w, rest, rfl, hw, hrest⟩ := exists_piece h
      rw [pieces_append hw, List.flatMap_cons, ih hrest, xorWords_append hw]

/-- Masking a word twice gives the word back. -/
theorem leBytes_xor_xor {key : Nat} (hkey : key < 2 ^ 32) {w : Bytes} (hw : w.length = 4) :
    leBytes 4 (leNat (leBytes 4 (leNat w ^^^ key)) ^^^ key) = w := by
  have hback : leBytes 4 (leNat w) = w := by
    rw [← hw]
    exact leBytes_leNat w
  have hlt : leNat w < 2 ^ 32 := by
    have hmod := leNat_leBytes 4 (leNat w)
    rw [hback] at hmod
    rw [hmod]
    exact Nat.mod_lt _ (by decide)
  have hmask : leNat w ^^^ key < 256 ^ 4 := Nat.xor_lt_two_pow hlt hkey
  rw [leNat_leBytes_of_lt hmask, Nat.xor_assoc, Nat.xor_self, Nat.xor_zero, hback]

/-- **Masking is its own inverse**, on whole words and with a key that is one word. -/
theorem xorWords_xorWords {key n : Nat} (hkey : key < 2 ^ 32) {bs : Bytes} (h : bs.length = 4 * n) :
    xorWords key (xorWords key bs) = bs := by
  induction n generalizing bs with
  | zero =>
      rw [List.length_eq_zero_iff.mp h]
      rfl
  | succ n ih =>
      obtain ⟨w, rest, rfl, hw, hrest⟩ := exists_piece h
      rw [xorWords_append hw, xorWords_append (length_leBytes _ _), leBytes_xor_xor hkey hw, ih hrest]

/-! ## §3 — the 16-bit halves. -/

/-- The little-endian 16-bit numbers of a string, which is what the checksum adds up. -/
def halfwords : Bytes → List Nat
  | a :: b :: rest => leNat [a, b] :: halfwords rest
  | _ => []

theorem halfwords_cons {w : Bytes} (hw : w.length = 2) (rest : Bytes) :
    halfwords (w ++ rest) = leNat w :: halfwords rest := by
  obtain ⟨a, b, rfl⟩ := List.length_eq_two.mp hw
  rfl

theorem halfwords_append {n : Nat} {bs : Bytes} (h : bs.length = 2 * n) (rest : Bytes) :
    halfwords (bs ++ rest) = halfwords bs ++ halfwords rest := by
  induction n generalizing bs with
  | zero =>
      rw [List.length_eq_zero_iff.mp h]
      rfl
  | succ n ih =>
      obtain ⟨w, bs', rfl, hw, hlen⟩ := exists_piece h
      rw [List.append_assoc, halfwords_cons hw, ih hlen, halfwords_cons hw, List.cons_append]

theorem length_halfwords {n : Nat} {bs : Bytes} (h : bs.length = 2 * n) :
    (halfwords bs).length = n := by
  induction n generalizing bs with
  | zero =>
      rw [List.length_eq_zero_iff.mp h]
      rfl
  | succ n ih =>
      obtain ⟨w, rest, rfl, hw, hrest⟩ := exists_piece h
      rw [halfwords_cons hw, List.length_cons, ih hrest]

/-- The loop over the offsets reads every half, so it is `halfwords`. -/
theorem map_pieces {n : Nat} {bs : Bytes} (h : bs.length = 2 * n) :
    (pieces 2 n bs).map leNat = halfwords bs := by
  induction n generalizing bs with
  | zero =>
      rw [List.length_eq_zero_iff.mp h]
      rfl
  | succ n ih =>
      obtain ⟨w, rest, rfl, hw, hrest⟩ := exists_piece h
      rw [pieces_append hw, List.map_cons, ih hrest, halfwords_cons hw]

/-- The half of a 32-bit key that meets the half at place `k`: the low one at even places, the high one at odd
ones. -/
def keyHalf (key k : Nat) : Nat := key / 2 ^ (16 * (k % 2)) % 2 ^ 16

/-- A mask acts on the two halves of a word separately, each with its own half of the key. -/
theorem halfwords_masked (key : Nat) (a b c d : UInt8) :
    halfwords (leBytes 4 (leNat [a, b, c, d] ^^^ key)) =
      [leNat [a, b] ^^^ key % 2 ^ 16, leNat [c, d] ^^^ key / 2 ^ 16 % 2 ^ 16] := by
  have hlow : leNat [a, b] < 2 ^ 16 := by
    have ha := a.toNat_lt
    have hb := b.toNat_lt
    simp only [leNat]
    omega
  have hhigh : leNat [c, d] < 2 ^ 16 := by
    have hc := c.toNat_lt
    have hd := d.toNat_lt
    simp only [leNat]
    omega
  have hword : leNat [a, b, c, d] = leNat [a, b] + 2 ^ 16 * leNat [c, d] := by
    simp only [leNat]
    ring
  have hread : ∀ v : Nat, halfwords (leBytes 4 v) = [v % 2 ^ 16, v / 2 ^ 16 % 2 ^ 16] := by
    intro v
    have hbyte : ∀ n : Nat, (UInt8.ofNat (n % 256)).toNat = n % 256 := by
      intro n
      simp
    simp only [leBytes, halfwords, leNat, hbyte, List.cons.injEq, and_true]
    omega
  have hmod : leNat [a, b, c, d] % 2 ^ 16 = leNat [a, b] := by omega
  have hdiv : leNat [a, b, c, d] / 2 ^ 16 = leNat [c, d] := by omega
  rw [hread, Nat.xor_mod_two_pow, Nat.xor_div_two_pow, Nat.xor_mod_two_pow, hmod, hdiv,
    Nat.mod_eq_of_lt hhigh]

/-- **The halves of a masked string**, each masked by its own half of the key, so that masking moves nothing
from one halfword to another. -/
theorem halfwords_xorWords (key : Nat) {n : Nat} {bs : Bytes} (h : bs.length = 4 * n) :
    halfwords (xorWords key bs) = (halfwords bs).mapIdx fun k v => v ^^^ keyHalf key k := by
  induction n generalizing bs with
  | zero =>
      rw [List.length_eq_zero_iff.mp h]
      rfl
  | succ n ih =>
      obtain ⟨w, rest, rfl, hw, hrest⟩ := exists_piece h
      have hshift : (fun k v => v ^^^ keyHalf key (k + 1 + 1)) = fun k v => v ^^^ keyHalf key k := by
        funext k v
        rw [keyHalf, keyHalf, Nat.add_assoc, Nat.add_mod_right]
      have heven : (leBytes 4 (leNat w ^^^ key)).length = 2 * 2 := length_leBytes _ _
      rw [xorWords_append hw, halfwords_append heven, ih hrest]
      obtain ⟨a, b, c, d, rfl⟩ := List.length_eq_four.mp hw
      rw [halfwords_masked]
      simp only [List.cons_append, List.nil_append, halfwords, List.mapIdx_cons, hshift]
      simp [keyHalf]

end TradeBroker.Lib
