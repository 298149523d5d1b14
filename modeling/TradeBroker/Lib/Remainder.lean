/-
# TradeBroker.Lib.Remainder — a shift register as polynomial division over `GF(2)`.

A list of bits is a polynomial over `ZMod 2`, the first bit at the highest power (`bitsPoly`).  A register
of a reflected CRC, read from the end that leaves it, is such a list, and one turn of it is multiplication
by `X` with at most one subtraction of the generator `X ^ w + bitsPoly poly` (`bitsPoly_absorb`).  So what
stands in the register after a whole message is a remainder of the division by the generator, for every
width, every generator and every value the register started with (`bitsPoly_absorbed`).

`feedBits`, the 32-bit register of `Lib.Crc`, is one of these (`regBits_feedBits`), and starting it with
all bits set is complementing the first 32 bits of the dividend (`bitsPoly_complement`).

The module is the abstract side of the checksum.  Polynomials over `ZMod 2` are Mathlib's, division by the
monic generator is `%ₘ`, and the register is only shown to compute it.  What a register starts with and
whether it is complemented at the end are separate facts, since the IEEE checksum does both and a bare
remainder neither.

The firmware's table-free loop and `zlib.crc32` are the same register (`Firmware.Codec`), so the statement
about a remainder is one about both ends of the wire.
-/
import TradeBroker.Lib.Crc
import Mathlib.Algebra.Polynomial.Div
import Mathlib.Algebra.Field.ZMod
import Mathlib.Algebra.CharP.Two
import Mathlib.Tactic.LinearCombination

namespace TradeBroker.Lib

open Polynomial

/-! ## §1 — bits as a polynomial. -/

noncomputable def bitPoly (b : Bool) : (ZMod 2)[X] := if b then 1 else 0

/-- The polynomial of a list of bits, the first one at the highest power.  Zeros in front do not change it,
and so its length is kept beside it where the length matters. -/
noncomputable def bitsPoly : List Bool → (ZMod 2)[X]
  | [] => 0
  | b :: bits => bitPoly b * X ^ bits.length + bitsPoly bits

/-- Adding a polynomial twice is adding nothing. -/
theorem add_twice (p : (ZMod 2)[X]) : p + p = 0 := CharTwo.add_self_eq_zero p

theorem bitPoly_xor (a b : Bool) : bitPoly (a ^^ b) = bitPoly a + bitPoly b := by
  cases a with
  | false => simp [bitPoly]
  | true =>
      cases b with
      | false => simp [bitPoly]
      | true => simp [bitPoly, add_twice]

theorem bitsPoly_append (xs ys : List Bool) :
    bitsPoly (xs ++ ys) = bitsPoly xs * X ^ ys.length + bitsPoly ys := by
  induction xs with
  | nil => simp [bitsPoly]
  | cons b xs ih =>
      rw [List.cons_append, bitsPoly, bitsPoly, ih, List.length_append, pow_add]
      ring

theorem bitsPoly_replicate_false (n : Nat) : bitsPoly (List.replicate n false) = 0 := by
  induction n with
  | zero => rfl
  | succ n ih =>
      rw [List.replicate_succ, bitsPoly, ih]
      simp [bitPoly]

theorem bitsPoly_xor {xs ys : List Bool} (h : xs.length = ys.length) :
    bitsPoly (List.zipWith (· ^^ ·) xs ys) = bitsPoly xs + bitsPoly ys := by
  induction xs generalizing ys with
  | nil =>
      rw [List.length_eq_zero_iff.mp h.symm]
      simp [bitsPoly]
  | cons a xs ih =>
      cases ys with
      | nil => exact absurd h (by simp)
      | cons b ys =>
          have hlen : xs.length = ys.length := by simpa using h
          have hzip : (List.zipWith (· ^^ ·) xs ys).length = ys.length := by
            rw [List.length_zipWith, hlen, Nat.min_self]
          rw [List.zipWith_cons_cons, bitsPoly, bitsPoly, bitsPoly, ih hlen, hzip, hlen, bitPoly_xor]
          ring

theorem degree_bitsPoly (bits : List Bool) : (bitsPoly bits).degree < bits.length := by
  induction bits with
  | nil =>
      rw [bitsPoly, degree_zero]
      exact WithBot.bot_lt_coe _
  | cons b bits ih =>
      have hstep : (bits.length : WithBot Nat) < ((b :: bits).length : WithBot Nat) := by
        rw [List.length_cons]
        exact_mod_cast Nat.lt_succ_self _
      have htop : (bitPoly b * X ^ bits.length).degree ≤ (bits.length : WithBot Nat) := by
        cases b with
        | false => simp [bitPoly]
        | true => simp [bitPoly]
      rw [bitsPoly]
      exact lt_of_le_of_lt (degree_add_le _ _) (max_lt (lt_of_le_of_lt htop hstep) (ih.trans hstep))

/-- The coefficients are the bits, counted from the other end. -/
theorem coeff_bitsPoly {bits : List Bool} {i : Nat} (h : i < bits.length) :
    (bitsPoly bits).coeff (bits.length - 1 - i) = 1 ↔ bits.getD i false = true := by
  induction bits generalizing i with
  | nil => exact absurd h (by simp)
  | cons b bits ih =>
      have hrest : (bitsPoly bits).coeff bits.length = 0 :=
        coeff_eq_zero_of_degree_lt (degree_bitsPoly bits)
      have hb : ∀ n, (bitPoly b * X ^ bits.length).coeff n =
          if b = true ∧ n = bits.length then 1 else 0 := by
        intro n
        cases b with
        | false => simp [bitPoly]
        | true => simp [bitPoly, coeff_X_pow]
      rw [bitsPoly, coeff_add, hb]
      cases i with
      | zero =>
          have htop : (b :: bits).length - 1 - 0 = bits.length := by simp
          rw [htop, hrest]
          cases b with
          | false => simp
          | true => simp
      | succ i =>
          have hi : i < bits.length := by simpa using h
          have hplace : (b :: bits).length - 1 - (i + 1) = bits.length - 1 - i := by
            rw [List.length_cons]
            omega
          have hlow : ¬ (b = true ∧ bits.length - 1 - i = bits.length) := by omega
          rw [hplace, if_neg hlow, zero_add, ih hi, List.getD_cons_succ]

/-! ## §2 — the register. -/

/-- One turn of a register: the first bit leaves, and takes the generator with it when it is set; a zero comes
in at the end. -/
def shiftBits (poly : List Bool) : List Bool → List Bool
  | [] => []
  | true :: bits => List.zipWith (· ^^ ·) (bits ++ [false]) poly
  | false :: bits => bits ++ [false]

/-- One message bit, met by the bit that leaves next: their sum decides whether the generator comes in. -/
def absorb (poly : List Bool) : List Bool → Bool → List Bool
  | [], _ => []
  | r :: bits, b => shiftBits poly ((r ^^ b) :: bits)

/-- The generator whose lower coefficients are `poly`; its leading coefficient is one and is not stored. -/
noncomputable def generator (poly : List Bool) : (ZMod 2)[X] := X ^ poly.length + bitsPoly poly

theorem generator_monic (poly : List Bool) : (generator poly).Monic :=
  monic_X_pow_add (degree_bitsPoly poly)

theorem degree_generator (poly : List Bool) : (generator poly).degree = poly.length := by
  have htop : ((X : (ZMod 2)[X]) ^ poly.length).degree = poly.length := degree_X_pow _
  rw [generator, degree_add_eq_left_of_degree_lt, htop]
  rw [htop]
  exact degree_bitsPoly poly

section Register

variable {poly : List Bool}

theorem length_shiftBits {reg : List Bool} (h : reg.length = poly.length) :
    (shiftBits poly reg).length = poly.length := by
  cases reg with
  | nil => exact h
  | cons b bits =>
      cases b with
      | false => simpa [shiftBits] using h
      | true =>
          have hbits : (bits ++ [false]).length = poly.length := by simpa using h
          rw [shiftBits, List.length_zipWith, hbits, Nat.min_self]

theorem length_absorb {reg : List Bool} (h : reg.length = poly.length) (b : Bool) :
    (absorb poly reg b).length = poly.length := by
  cases reg with
  | nil => exact h
  | cons r bits => exact length_shiftBits h

/-- One turn is multiplication by `X`, less the generator when a bit left that was set. -/
theorem bitsPoly_shiftBits {b : Bool} {bits : List Bool} (h : (b :: bits).length = poly.length) :
    bitsPoly (shiftBits poly (b :: bits)) = X * bitsPoly (b :: bits) + bitPoly b * generator poly := by
  have hmove : bitsPoly (bits ++ [false]) = X * bitsPoly bits := by
    rw [bitsPoly_append]
    simp [bitsPoly, bitPoly, mul_comm]
  have hpow : X * (X : (ZMod 2)[X]) ^ bits.length = X ^ poly.length := by
    rw [← h, List.length_cons, pow_succ, mul_comm]
  have hlen : (bits ++ [false]).length = poly.length := by simpa using h
  cases b with
  | false =>
      rw [shiftBits, hmove]
      simp [bitsPoly, bitPoly]
  | true =>
      -- the bit that leaves is the leading term of the product, and cancels that of the generator
      rw [shiftBits, bitsPoly_xor hlen, hmove, bitsPoly, generator, ← hpow]
      have hone : bitPoly true = 1 := rfl
      rw [hone]
      linear_combination -(add_twice (X * X ^ bits.length))

/-- **One message bit** is multiplication by `X` and addition of the bit at the width of the register, up to a
multiple of the generator. -/
theorem bitsPoly_absorb {reg : List Bool} (hreg : reg.length = poly.length) (hpos : reg ≠ []) (b : Bool) :
    ∃ q, bitsPoly (absorb poly reg b) + generator poly * q =
      X * bitsPoly reg + X ^ poly.length * bitPoly b := by
  cases reg with
  | nil => exact absurd rfl hpos
  | cons r bits =>
      have hpow : X * (X : (ZMod 2)[X]) ^ bits.length = X ^ poly.length := by
        rw [← hreg, List.length_cons, pow_succ, mul_comm]
      refine ⟨bitPoly (r ^^ b), ?_⟩
      have hturn : ((r ^^ b) :: bits).length = poly.length := hreg
      rw [absorb, bitsPoly_shiftBits hturn, bitsPoly, bitsPoly, bitPoly_xor, ← hpow]
      linear_combination add_twice ((bitPoly r + bitPoly b) * generator poly)

/-- What the register is congruent to after a whole message, by induction on the message. -/
theorem absorbed_congr {reg : List Bool} (hreg : reg.length = poly.length) (hpos : reg ≠ [])
    (message : List Bool) :
    (message.foldl (absorb poly) reg).length = poly.length ∧
      ∃ q, bitsPoly (message.foldl (absorb poly) reg) + generator poly * q =
        X ^ message.length * bitsPoly reg + X ^ poly.length * bitsPoly message := by
  -- from the first bit on: the register after it starts the rest of the message
  induction message generalizing reg with
  | nil =>
      refine ⟨hreg, 0, ?_⟩
      simp [bitsPoly]
  | cons b message ih =>
      have hnext := length_absorb hreg b
      have hne : absorb poly reg b ≠ [] := by
        intro hnil
        rw [hnil, ← hreg] at hnext
        exact hpos (List.length_eq_zero_iff.mp hnext.symm)
      obtain ⟨hlen, q, hq⟩ := ih hnext hne
      obtain ⟨q', hq'⟩ := bitsPoly_absorb hreg hpos b
      refine ⟨hlen, q + X ^ message.length * q', ?_⟩
      rw [List.foldl_cons, bitsPoly, List.length_cons, pow_succ]
      linear_combination hq + X ^ message.length * hq'

/-- **The register is the remainder**: it is congruent to the dividend and its degree is below that of the
generator, and only the remainder is both. -/
theorem bitsPoly_absorbed {reg : List Bool} (hreg : reg.length = poly.length) (hpos : reg ≠ [])
    (message : List Bool) :
    (X ^ message.length * bitsPoly reg + X ^ poly.length * bitsPoly message) %ₘ generator poly =
      bitsPoly (message.foldl (absorb poly) reg) := by
  obtain ⟨hlen, q, hq⟩ := absorbed_congr hreg hpos message
  refine (div_modByMonic_unique q _ (generator_monic poly) ⟨hq, ?_⟩).2
  rw [degree_generator, ← hlen]
  exact degree_bitsPoly _

end Register

/-! ## §3 — the 32-bit register. -/

/-- The bits of a register, the one that leaves next first. -/
def regBits (c : UInt32) : List Bool := (List.range 32).map c.toNat.testBit

theorem length_regBits (c : UInt32) : (regBits c).length = 32 := by
  rw [regBits, List.length_map, List.length_range]

theorem getElem?_regBits (c : UInt32) (i : Nat) :
    (regBits c)[i]? = if i < 32 then some (c.toBitVec.getLsbD i) else none := by
  rw [regBits, List.getElem?_map]
  by_cases hi : i < 32
  · rw [List.getElem?_range hi, if_pos hi]
    rfl
  · rw [if_neg hi, List.getElem?_eq_none (by rw [List.length_range]; omega)]
    rfl

theorem ofNat_regBits (c : UInt32) : UInt32.ofNat (bitsNat (regBits c)) = c := by
  apply UInt32.toNat_inj.mp
  rw [regBits, bitsNat_testBit, UInt32.toNat_ofNat', Nat.mod_mod, Nat.mod_eq_of_lt c.toNat_lt]

/-- The lower coefficients of the generator. -/
def crcBits : List Bool := regBits (UInt32.ofBitVec crcPoly)

theorem regBits_cons (c : UInt32) : ∃ bits, regBits c = c.toBitVec.getLsbD 0 :: bits ∧
    ∀ i, bits[i]? = if i + 1 < 32 then some (c.toBitVec.getLsbD (i + 1)) else none := by
  refine ⟨(regBits c).tail, rfl, ?_⟩
  intro i
  rw [List.getElem?_tail, getElem?_regBits]

/-- The register keeps its bits one place on. -/
theorem regBits_crcBit (c : UInt32) : regBits (crcBit c) = shiftBits crcBits (regBits c) := by
  obtain ⟨bits, hbits, htail⟩ := regBits_cons c
  have hshift : ∀ i, (bits ++ [false])[i]? =
      if i < 32 then some ((c.toBitVec >>> 1).getLsbD i) else none := by
    intro i
    have hlen : bits.length = 31 := by
      have := length_regBits c
      rw [hbits] at this
      simpa using this
    by_cases hi : i + 1 < 32
    · rw [List.getElem?_append_left (by omega), htail, if_pos hi, if_pos (by omega),
        BitVec.getLsbD_ushiftRight, Nat.add_comm]
    · rw [List.getElem?_append_right (by omega), hlen]
      by_cases htop : i = 31
      · subst htop
        simp
      · rw [if_neg (by omega), List.getElem?_eq_none (by simp; omega)]
  apply List.ext_getElem?
  intro i
  rw [getElem?_regBits, toBitVec_crcBit, hbits]
  cases hlow : c.toBitVec.getLsbD 0 with
  | false =>
      rw [shiftBits, hshift, if_neg Bool.false_ne_true]
  | true =>
      rw [shiftBits, List.getElem?_zipWith, hshift, crcBits, getElem?_regBits, if_pos rfl]
      by_cases hi : i < 32
      · simp [hi]
      · simp [hi]

/-- One message bit. -/
theorem regBits_feedBit (c : UInt32) (b : Bool) :
    regBits (feedBit c b) = absorb crcBits (regBits c) b := by
  obtain ⟨bits, hbits, htail⟩ := regBits_cons c
  have hmet : regBits (c ^^^ UInt32.ofNat b.toNat) = (c.toBitVec.getLsbD 0 ^^ b) :: bits := by
    apply List.ext_getElem?
    intro i
    rw [getElem?_regBits, UInt32.toBitVec_xor, BitVec.getLsbD_xor]
    cases i with
    | zero => cases b <;> simp
    | succ i =>
        rw [List.getElem?_cons_succ, htail]
        cases b <;> simp
  rw [feedBit, regBits_crcBit, hmet, hbits, absorb]

/-- A whole message. -/
theorem regBits_feedBits (c : UInt32) (bits : List Bool) :
    regBits (feedBits c bits) = bits.foldl (absorb crcBits) (regBits c) := by
  induction bits generalizing c with
  | nil => rfl
  | cons b bits ih =>
      rw [List.foldl_cons, ← regBits_feedBit, ← ih]
      rfl

/-- The IEEE generator. -/
noncomputable def ieee : (ZMod 2)[X] :=
  X ^ 32 + X ^ 26 + X ^ 23 + X ^ 22 + X ^ 16 + X ^ 12 + X ^ 11 + X ^ 10 + X ^ 8 + X ^ 7 + X ^ 5 + X ^ 4 +
    X ^ 2 + X + 1

/-- The constant of the loop is that generator without its leading term, reflected. -/
theorem generator_crcBits : generator crcBits = ieee := by
  have hbits : crcBits = [false, false, false, false, false, true, false, false, true, true, false, false,
      false, false, false, true, false, false, false, true, true, true, false, true, true, false, true, true,
      false, true, true, true] := by
    decide
  rw [generator, hbits]
  simp only [bitsPoly, bitPoly, List.length_cons, List.length_nil, ieee]
  simp
  ring

/-! ## §4 — complements. -/

/-- The first `n` bits complemented, which is what a register that starts with all bits set does to a message. -/
def complementFirst (n : Nat) (bits : List Bool) : List Bool :=
  (bits.take n).map (!·) ++ bits.drop n

theorem bitsPoly_map_not (bits : List Bool) :
    bitsPoly (bits.map (!·)) = bitsPoly bits + bitsPoly (List.replicate bits.length true) := by
  induction bits with
  | nil => simp [bitsPoly]
  | cons b bits ih =>
      have hnot : bitPoly (!b) = bitPoly b + bitPoly true := by
        rw [← bitPoly_xor, Bool.xor_true]
      rw [List.map_cons, bitsPoly, bitsPoly, ih, hnot, List.length_cons, List.replicate_succ, bitsPoly,
        List.length_map, List.length_replicate]
      ring

/-- Complementing the first bits adds ones at the highest powers. -/
theorem bitsPoly_complement {n : Nat} {bits : List Bool} (h : n ≤ bits.length) :
    bitsPoly (complementFirst n bits) =
      bitsPoly bits + X ^ (bits.length - n) * bitsPoly (List.replicate n true) := by
  have htake : (bits.take n).length = n := List.length_take_of_le h
  have hsplit : bitsPoly bits = bitsPoly (bits.take n) * X ^ (bits.length - n) + bitsPoly (bits.drop n) := by
    rw [← List.length_drop, ← bitsPoly_append, List.take_append_drop]
  rw [complementFirst, bitsPoly_append, bitsPoly_map_not, htake, hsplit, List.length_drop]
  ring

/-- The word whose bit `i` is the coefficient of `X ^ (31 - i)`. -/
noncomputable def reflected (r : (ZMod 2)[X]) : UInt32 :=
  UInt32.ofNat (bitsNat ((List.range 32).map fun i => decide (r.coeff (31 - i) = 1)))

theorem reflected_regBits (c : UInt32) : reflected (bitsPoly (regBits c)) = c := by
  have hbits : ((List.range 32).map fun i => decide ((bitsPoly (regBits c)).coeff (31 - i) = 1)) =
      regBits c := by
    rw [regBits]
    apply List.map_congr_left
    intro i hi
    have hi : i < 32 := List.mem_range.mp hi
    have hlen : i < (regBits c).length := by
      rw [length_regBits]
      exact hi
    have hcoeff := coeff_bitsPoly hlen
    rw [length_regBits] at hcoeff
    rw [Bool.eq_iff_iff, decide_eq_true_iff]
    refine hcoeff.trans ?_
    rw [List.getD_eq_getElem?_getD, getElem?_regBits, if_pos hi]
    rfl
  rw [reflected, hbits, ofNat_regBits]

/-- **The register after a message, as a remainder.** Started with all bits set, it holds the reflected
remainder of the message times `X ^ 32` with the first 32 bits complemented.  A message shorter than the
register is covered: the bits complemented are then in part those appended. -/
theorem feedBits_eq_remainder (message : List Bool) :
    feedBits 0xffffffff message =
      reflected (bitsPoly (complementFirst 32 (message ++ List.replicate 32 false)) %ₘ ieee) := by
  have hones : regBits 0xffffffff = List.replicate 32 true := by decide
  have hlen : (message ++ List.replicate 32 false).length - 32 = message.length := by simp
  have hdividend : bitsPoly (complementFirst 32 (message ++ List.replicate 32 false)) =
      X ^ message.length * bitsPoly (regBits 0xffffffff) + X ^ crcBits.length * bitsPoly message := by
    rw [bitsPoly_complement (by simp), hlen, bitsPoly_append, bitsPoly_replicate_false, hones, crcBits,
      length_regBits, List.length_replicate]
    ring
  rw [hdividend, ← generator_crcBits, bitsPoly_absorbed (length_regBits _) (by rw [hones]; simp),
    ← regBits_feedBits, reflected_regBits]

end TradeBroker.Lib
