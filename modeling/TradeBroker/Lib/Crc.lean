/-
# TradeBroker.Lib.Crc — why a CRC-32 sees every burst of 32 bits.

A shift of the register (`crcBit`) is linear in exclusive or and loses nothing: the polynomial has its top bit
set, so the register can be told back from what it became (`crcBit_eq_zero`).  Read bit by bit, lowest bit of
each byte first, up to 32 bits are one exclusive or and as many shifts (`feedBits_eq`).  So an error that lies
in 32 consecutive bits goes into the register as a number that is not zero, and nothing behind it brings the
register back to zero (`feedBits_burst`).

The CRC of a message and the CRC of the message with an error differ by the register of the error alone
(`crc32_xor`), whatever the message is.  Where the CRC is stored behind the message, lowest byte first, errors
in both are one error pattern over the whole (`errors_detected`).

The last part states this for a set of flipped bits: `flipBits flips bs` are the bytes with the bits
numbered in `flips` inverted, where bit `k` is bit `k % 8` of byte `k / 8`, lowest first, as the register
reads them.  A set that lies within 32 consecutive numbers is a burst, and `flips_burst` says that its
register is not zero.

Nothing here knows a frame.  `Gba.Corruption` places the stored CRC of a frame behind the bytes it covers
and gets from `errors_detected` that no burst in a frame is ever accepted as another frame.
-/
import Mathlib.Data.Finset.Basic
import Mathlib.Data.Nat.Bitwise
import TradeBroker.Lib.Digest

namespace TradeBroker.Lib

/-! ## One shift -/

theorem low_bit_iff (c : UInt32) : c &&& 1 = 1 ↔ c.toBitVec.getLsbD 0 = true := by
  rw [← UInt32.toNat_inj, UInt32.toNat_and, BitVec.getLsbD, Nat.testBit_zero]
  show c.toNat &&& 1 = 1 ↔ decide (c.toNat % 2 = 1) = true
  rw [Nat.and_one_is_mod, decide_eq_true_iff]

/-- The polynomial `0xEDB88320`, in the reflected form that the register works in: bit 31 stands for the
constant term. -/
def crcPoly : BitVec 32 := 0xEDB88320#32

theorem toBitVec_crcBit (c : UInt32) :
    (crcBit c).toBitVec =
      if c.toBitVec.getLsbD 0 = true then (c.toBitVec >>> 1) ^^^ crcPoly else c.toBitVec >>> 1 := by
  rw [crcBit]
  by_cases h : c.toBitVec.getLsbD 0 = true
  · rw [if_pos ((low_bit_iff c).mpr h), if_pos h]
    rfl
  · rw [if_neg (fun hlow => h ((low_bit_iff c).mp hlow)), if_neg h]
    rfl

@[simp] theorem crcBit_zero : crcBit 0 = 0 := by decide

/-- The polynomial, taken twice, is gone; this is what makes a shift with a condition linear. -/
theorem xor_xor_same (a b p : BitVec 32) : (a ^^^ p) ^^^ (b ^^^ p) = a ^^^ b := by
  rw [BitVec.xor_comm b p, ← BitVec.xor_assoc, BitVec.xor_assoc a p p, BitVec.xor_self, BitVec.xor_zero]

/-- **A shift is linear**: the register of two inputs together is the two registers together, although each of
them may or may not take the polynomial. -/
theorem crcBit_xor (a b : UInt32) : crcBit (a ^^^ b) = crcBit a ^^^ crcBit b := by
  apply UInt32.toBitVec_inj.mp
  rw [UInt32.toBitVec_xor, toBitVec_crcBit, toBitVec_crcBit, toBitVec_crcBit, UInt32.toBitVec_xor,
    BitVec.getLsbD_xor, BitVec.ushiftRight_xor_distrib]
  cases a.toBitVec.getLsbD 0 with
  | false =>
      cases b.toBitVec.getLsbD 0 with
      | false => rfl
      | true => exact BitVec.xor_assoc _ _ _
  | true =>
      cases b.toBitVec.getLsbD 0 with
      | false =>
          show a.toBitVec >>> 1 ^^^ b.toBitVec >>> 1 ^^^ crcPoly =
            a.toBitVec >>> 1 ^^^ crcPoly ^^^ b.toBitVec >>> 1
          rw [BitVec.xor_assoc, BitVec.xor_comm (b.toBitVec >>> 1), BitVec.xor_assoc]
      | true => exact (xor_xor_same _ _ _).symm

/-- **A shift loses nothing.** The bit that falls off decides whether the polynomial comes in, and the top bit
of the result tells which it was, so only zero becomes zero. -/
theorem crcBit_eq_zero {c : UInt32} (h : crcBit c = 0) : c = 0 := by
  have hbits := congrArg UInt32.toBitVec h
  rw [toBitVec_crcBit] at hbits
  by_cases hlow : c.toBitVec.getLsbD 0 = true
  · -- the top bit of the polynomial stays
    rw [if_pos hlow] at hbits
    have htop := congrArg (fun v => BitVec.getLsbD v 31) hbits
    simp [crcPoly] at htop
  · rw [if_neg hlow] at hbits
    apply UInt32.toBitVec_inj.mp
    apply BitVec.eq_of_getLsbD_eq
    intro i hi
    cases i with
    | zero => simpa using hlow
    | succ i =>
        have hbit := congrArg (fun v => BitVec.getLsbD v i) hbits
        simpa [Nat.add_comm] using hbit

/-- A shift undoes a shift to the left, when no bit falls off. -/
theorem crcBit_double {v : Nat} (h : v < 2 ^ 31) : crcBit (UInt32.ofNat (2 * v)) = UInt32.ofNat v := by
  apply UInt32.toNat_inj.mp
  have hlow : ¬ (UInt32.ofNat (2 * v) &&& 1 = 1) := by
    rw [← UInt32.toNat_inj, UInt32.toNat_and, UInt32.toNat_ofNat']
    show ¬ (2 * v % 2 ^ 32 &&& 1 = 1)
    rw [Nat.and_one_is_mod]
    omega
  rw [crcBit, if_neg hlow, UInt32.toNat_shiftRight, UInt32.toNat_ofNat', UInt32.toNat_ofNat',
    Nat.mod_eq_of_lt (show 2 * v < 2 ^ 32 by omega), Nat.mod_eq_of_lt (show v < 2 ^ 32 by omega)]
  show (2 * v) >>> 1 = v
  rw [Nat.shiftRight_eq_div_pow]
  omega

/-! ## The register, bit by bit -/

/-- One bit, into the low end: it is added to the lowest bit of the register, and then the register shifts. -/
def feedBit (c : UInt32) (b : Bool) : UInt32 := crcBit (c ^^^ UInt32.ofNat b.toNat)

def feedBits (c : UInt32) (bits : List Bool) : UInt32 := bits.foldl feedBit c

/-- The number whose bits are given, lowest first; the bits of a byte string in this order are its
little-endian value. -/
def bitsNat : List Bool → Nat
  | [] => 0
  | b :: bits => b.toNat + 2 * bitsNat bits

theorem bitsNat_lt (bits : List Bool) : bitsNat bits < 2 ^ bits.length := by
  induction bits with
  | nil => decide
  | cons b bits ih =>
      have hb := Bool.toNat_le b
      rw [bitsNat, List.length_cons, Nat.pow_succ]
      omega

theorem bitsNat_eq_zero {bits : List Bool} (h : bitsNat bits = 0) : true ∉ bits := by
  induction bits with
  | nil => exact List.not_mem_nil
  | cons b bits ih =>
      rw [bitsNat] at h
      rw [List.mem_cons, not_or]
      refine ⟨?_, ih (by omega)⟩
      rintro rfl
      rw [Bool.toNat_true] at h
      omega

theorem iterate_crcBit_xor (n : Nat) (a b : UInt32) :
    crcBit^[n] (a ^^^ b) = crcBit^[n] a ^^^ crcBit^[n] b := by
  induction n generalizing a b with
  | zero => rfl
  | succ n ih =>
      rw [Function.iterate_succ_apply, Function.iterate_succ_apply, Function.iterate_succ_apply, crcBit_xor,
        ih]

theorem iterate_crcBit_zero (n : Nat) : crcBit^[n] 0 = 0 :=
  Function.iterate_fixed crcBit_zero n

theorem iterate_crcBit_eq_zero {n : Nat} {c : UInt32} (h : crcBit^[n] c = 0) : c = 0 := by
  induction n generalizing c with
  | zero => exact h
  | succ n ih => exact crcBit_eq_zero (ih h)

/-- The lowest bit of a number and the others. -/
theorem ofNat_cons (b : Bool) (v : Nat) :
    UInt32.ofNat (b.toNat + 2 * v) = UInt32.ofNat b.toNat ^^^ UInt32.ofNat (2 * v) := by
  rw [← UInt32.ofNat_xor]
  cases b with
  | false => rw [Bool.toNat_false, Nat.zero_add, Nat.zero_xor]
  | true => rw [Bool.toNat_true, Nat.xor_comm, Nat.xor_one_of_even (even_two_mul v), Nat.add_comm]

/-- **Up to 32 bits are one exclusive or and as many shifts**, since no bit of the input reaches the low end
before its own turn. -/
theorem feedBits_eq (c : UInt32) {bits : List Bool} (h : bits.length ≤ 32) :
    feedBits c bits = crcBit^[bits.length] (c ^^^ UInt32.ofNat (bitsNat bits)) := by
  induction bits generalizing c with
  | nil =>
      show c = c ^^^ 0
      rw [UInt32.xor_zero]
  | cons b bits ih =>
      have hlen : bits.length + 1 ≤ 32 := h
      have hlt : bitsNat bits < 2 ^ 31 :=
        lt_of_lt_of_le (bitsNat_lt bits) (Nat.pow_le_pow_right (by omega) (by omega))
      rw [feedBits, List.foldl_cons, ← feedBits, ih _ (by omega), List.length_cons,
        Function.iterate_succ_apply, bitsNat, ofNat_cons, ← UInt32.xor_assoc, crcBit_xor, crcBit_double hlt]
      rfl

theorem feedBits_append (c : UInt32) (xs ys : List Bool) :
    feedBits c (xs ++ ys) = feedBits (feedBits c xs) ys := List.foldl_append

/-- Zeros shift the register. -/
theorem feedBits_zeros (c : UInt32) (n : Nat) : feedBits c (List.replicate n false) = crcBit^[n] c := by
  induction n generalizing c with
  | zero => rfl
  | succ n ih =>
      rw [List.replicate_succ, feedBits, List.foldl_cons, ← feedBits, ih, Function.iterate_succ_apply, feedBit]
      congr 2
      exact UInt32.xor_zero

/-- **No burst is cancelled**: at most 32 bits, not all of them zero, between any number of zeros before and
behind, leave a register that is not zero. -/
theorem feedBits_burst {before after : Nat} {burst : List Bool} (hlen : burst.length ≤ 32)
    (hmem : true ∈ burst) :
    feedBits 0 (List.replicate before false ++ (burst ++ List.replicate after false)) ≠ 0 := by
  intro h
  rw [feedBits_append, feedBits_append, feedBits_zeros, feedBits_zeros, iterate_crcBit_zero,
    feedBits_eq 0 hlen] at h
  have hzero := iterate_crcBit_eq_zero (iterate_crcBit_eq_zero h)
  rw [UInt32.zero_xor] at hzero
  have hval := congrArg UInt32.toNat hzero
  have hlt : bitsNat burst < 2 ^ 32 :=
    lt_of_lt_of_le (bitsNat_lt burst) (Nat.pow_le_pow_right (by omega) hlen)
  rw [UInt32.toNat_ofNat', Nat.mod_eq_of_lt hlt] at hval
  exact bitsNat_eq_zero hval hmem

/-! ## Bytes, lowest bit first -/

def byteBits (b : UInt8) : List Bool := (List.range 8).map b.toNat.testBit

def bitsOf (bs : Bytes) : List Bool := bs.flatMap byteBits

theorem length_byteBits (b : UInt8) : (byteBits b).length = 8 := by
  rw [byteBits, List.length_map, List.length_range]

theorem bitsNat_testBit (n v : Nat) : bitsNat ((List.range n).map v.testBit) = v % 2 ^ n := by
  induction n generalizing v with
  | zero =>
      rw [Nat.pow_zero, Nat.mod_one]
      rfl
  | succ n ih =>
      have hshift : (List.range n).map (v.testBit ∘ Nat.succ) = (List.range n).map (v / 2).testBit := by
        apply List.map_congr_left
        intro i _
        exact Nat.testBit_succ v i
      rw [List.range_succ_eq_map, List.map_cons, List.map_map, hshift, bitsNat, ih, Nat.testBit_zero,
        Nat.pow_succ, Nat.mul_comm (2 ^ n) 2, Nat.mod_mul]
      congr 1
      rcases Nat.mod_two_eq_zero_or_one v with h | h
      · rw [h]
        rfl
      · rw [h]
        rfl

theorem bitsNat_byteBits (b : UInt8) : bitsNat (byteBits b) = b.toNat := by
  rw [byteBits, bitsNat_testBit]
  exact Nat.mod_eq_of_lt b.toNat_lt

theorem bitsNat_append (xs ys : List Bool) :
    bitsNat (xs ++ ys) = bitsNat xs + 2 ^ xs.length * bitsNat ys := by
  induction xs with
  | nil => simp [bitsNat]
  | cons b xs ih =>
      rw [List.cons_append, bitsNat, bitsNat, ih, List.length_cons]
      ring

theorem bitsNat_bitsOf (bs : Bytes) : bitsNat (bitsOf bs) = leNat bs := by
  induction bs with
  | nil => rfl
  | cons b bs ih =>
      rw [bitsOf, List.flatMap_cons, bitsNat_append, bitsNat_byteBits, length_byteBits, ← bitsOf, ih]
      rfl

theorem length_bitsOf (bs : Bytes) : (bitsOf bs).length = 8 * bs.length := by
  induction bs with
  | nil => rfl
  | cons b bs ih =>
      rw [bitsOf, List.flatMap_cons, List.length_append, length_byteBits, ← bitsOf, ih, List.length_cons]
      omega

theorem bitsOf_append (xs ys : Bytes) : bitsOf (xs ++ ys) = bitsOf xs ++ bitsOf ys :=
  List.flatMap_append

theorem crcByte_eq_iterate (c : UInt32) (b : UInt8) : crcByte c b = crcBit^[8] (c ^^^ b.toUInt32) := rfl

/-- **A byte is its eight bits.** -/
theorem crcByte_eq_feedBits (c : UInt32) (b : UInt8) : crcByte c b = feedBits c (byteBits b) := by
  rw [feedBits_eq c (by rw [length_byteBits]; decide), length_byteBits, bitsNat_byteBits, crcByte_eq_iterate,
    UInt32.ofNat_uInt8ToNat]

theorem foldl_crcByte (c : UInt32) (bs : Bytes) : bs.foldl crcByte c = feedBits c (bitsOf bs) := by
  induction bs generalizing c with
  | nil => rfl
  | cons b bs ih =>
      rw [List.foldl_cons, ih, crcByte_eq_feedBits, ← feedBits_append]
      rfl

/-! ## A message with errors in it -/

/-- `bs` with the bits of `errors` flipped.  The two strings are of one length wherever it is used. -/
def xorBytes (bs errors : Bytes) : Bytes := List.zipWith (· ^^^ ·) bs errors

theorem crcByte_xor (c d : UInt32) (a b : UInt8) :
    crcByte (c ^^^ d) (a ^^^ b) = crcByte c a ^^^ crcByte d b := by
  rw [crcByte_eq_iterate, crcByte_eq_iterate, crcByte_eq_iterate, ← iterate_crcBit_xor,
    UInt8.toUInt32_xor]
  congr 1
  ac_rfl

theorem foldl_crcByte_xor {bs errors : Bytes} (h : bs.length = errors.length) (c d : UInt32) :
    (xorBytes bs errors).foldl crcByte (c ^^^ d) = bs.foldl crcByte c ^^^ errors.foldl crcByte d := by
  induction bs generalizing errors c d with
  | nil =>
      obtain rfl := List.length_eq_zero_iff.mp h.symm
      rfl
  | cons b bs ih =>
      cases errors with
      | nil => cases h
      | cons x errors =>
          rw [xorBytes, List.zipWith_cons_cons, List.foldl_cons, List.foldl_cons, List.foldl_cons,
            crcByte_xor, ← xorBytes]
          exact ih (Nat.succ.inj h) _ _

/-- **Errors change the CRC by the register of the errors**, whatever the message is: the preset and the
complement of the real CRC cancel. -/
theorem crc32_xor {bs errors : Bytes} (h : bs.length = errors.length) :
    crc32 (xorBytes bs errors) = crc32 bs ^^^ errors.foldl crcByte 0 := by
  have hfold := foldl_crcByte_xor h 0xFFFFFFFF 0
  rw [UInt32.xor_zero] at hfold
  rw [crc32, hfold, crc32, UInt32.not_xor]

/-- The low byte and the others do not meet. -/
theorem xor_low_high {a b : Nat} (ha : a < 256) (hb : b < 256) (m n : Nat) :
    (a + 256 * m) ^^^ (b + 256 * n) = (a ^^^ b) + 256 * (m ^^^ n) := by
  have hmod : ((a + 256 * m) ^^^ (b + 256 * n)) % 2 ^ 8 = a ^^^ b := by
    rw [Nat.xor_mod_two_pow]
    congr 1
    · omega
    · omega
  have hdiv : ((a + 256 * m) ^^^ (b + 256 * n)) / 2 ^ 8 = m ^^^ n := by
    rw [Nat.xor_div_two_pow]
    congr 1
    · omega
    · omega
  rw [← hmod, ← hdiv]
  exact (Nat.mod_add_div _ _).symm

theorem leNat_xor {bs errors : Bytes} (h : bs.length = errors.length) :
    leNat (xorBytes bs errors) = leNat bs ^^^ leNat errors := by
  induction bs generalizing errors with
  | nil =>
      obtain rfl := List.length_eq_zero_iff.mp h.symm
      rfl
  | cons b bs ih =>
      cases errors with
      | nil => cases h
      | cons x errors =>
          have hrest := ih (Nat.succ.inj h)
          rw [xorBytes, List.zipWith_cons_cons, leNat, ← xorBytes, hrest, leNat, leNat, UInt8.toNat_xor,
            xor_low_high b.toNat_lt x.toNat_lt]

/-- **When a stored CRC gives errors away**: whenever the register of all the errors, those in the stored CRC
included, is not zero.  Errors that lie in the stored CRC only are covered as well. -/
theorem errors_detected {body word errors wordErrors : Bytes} (hbody : body.length = errors.length)
    (hword : word.length = 4) (hwordErrors : wordErrors.length = 4)
    (hstored : leNat word = (crc32 body).toNat)
    (hregister : feedBits 0 (bitsOf (errors ++ wordErrors)) ≠ 0) :
    (crc32 (xorBytes body errors)).toNat ≠ leNat (xorBytes word wordErrors) := by
  intro heq
  apply hregister
  have hcancel : (errors.foldl crcByte 0).toNat = leNat wordErrors := by
    rw [crc32_xor hbody, leNat_xor (hword.trans hwordErrors.symm), UInt32.toNat_xor, hstored] at heq
    exact Nat.xor_right_injective heq
  have hlen : (bitsOf wordErrors).length ≤ 32 := by
    rw [length_bitsOf, hwordErrors]
  rw [bitsOf_append, feedBits_append, feedBits_eq _ hlen, ← foldl_crcByte, bitsNat_bitsOf, ← hcancel,
    UInt32.ofNat_toNat, UInt32.xor_self, iterate_crcBit_zero]

/-! ## A set of flipped bits -/

/-- The bits of byte `i` that are flipped: bit `j` of it is bit `8 * i + j` of the string. -/
def flipByte (flips : Finset Nat) (i : Nat) : UInt8 :=
  UInt8.ofNat (bitsNat ((List.range 8).map fun j => decide (8 * i + j ∈ flips)))

/-- `bs` with the bits numbered in `flips` flipped, the lowest bit of each byte first; numbers behind the end
of the string name no bit. -/
def flipBits (flips : Finset Nat) (bs : Bytes) : Bytes := bs.mapIdx fun i b => b ^^^ flipByte flips i

/-- The errors alone, over `n` bytes. -/
def flipErrors (flips : Finset Nat) (n : Nat) : Bytes := (List.range n).map (flipByte flips)

theorem flipBits_eq (flips : Finset Nat) (bs : Bytes) :
    flipBits flips bs = xorBytes bs (flipErrors flips bs.length) := by
  apply List.ext_getElem
  · simp [flipBits, xorBytes, flipErrors]
  · intro i _ _
    simp [flipBits, xorBytes, flipErrors]

theorem length_flipErrors (flips : Finset Nat) (n : Nat) : (flipErrors flips n).length = n := by
  rw [flipErrors, List.length_map, List.length_range]

theorem length_flipBits (flips : Finset Nat) (bs : Bytes) : (flipBits flips bs).length = bs.length :=
  List.length_mapIdx

/-- The bits of a number of `n` bits. -/
theorem testBit_bitsNat (bits : List Bool) :
    (List.range bits.length).map (bitsNat bits).testBit = bits := by
  induction bits with
  | nil => rfl
  | cons b bits ih =>
      have hlow : (b.toNat + 2 * bitsNat bits).testBit 0 = b := by
        rw [Nat.testBit_zero]
        cases b with
        | false =>
            rw [Bool.toNat_false]
            simp
        | true =>
            rw [Bool.toNat_true]
            simp [Nat.add_mod]
      have hhigh : (List.range bits.length).map ((b.toNat + 2 * bitsNat bits).testBit ∘ Nat.succ) = bits := by
        nth_rewrite 3 [← ih]
        apply List.map_congr_left
        intro i _
        have hb := Bool.toNat_le b
        show (b.toNat + 2 * bitsNat bits).testBit (i + 1) = _
        rw [Nat.testBit_succ]
        congr 1
        omega
      rw [List.length_cons, List.range_succ_eq_map, List.map_cons, List.map_map, bitsNat, hlow, hhigh]

theorem byteBits_flipByte (flips : Finset Nat) (i : Nat) :
    byteBits (flipByte flips i) = (List.range 8).map fun j => decide (8 * i + j ∈ flips) := by
  have hlen : ((List.range 8).map fun j => decide (8 * i + j ∈ flips)).length = 8 := by
    rw [List.length_map, List.length_range]
  have hlt := bitsNat_lt ((List.range 8).map fun j => decide (8 * i + j ∈ flips))
  have hbits := testBit_bitsNat ((List.range 8).map fun j => decide (8 * i + j ∈ flips))
  rw [hlen] at hlt hbits
  rw [byteBits, flipByte, UInt8.toNat_ofNat', Nat.mod_eq_of_lt hlt]
  exact hbits

/-- **The bits of the errors are the set**, one after the other, so that what is known about the numbers in
the set is known about the bits the register reads. -/
theorem bitsOf_flipErrors (flips : Finset Nat) (n : Nat) :
    bitsOf (flipErrors flips n) = (List.range (8 * n)).map fun k => decide (k ∈ flips) := by
  induction n with
  | zero => rfl
  | succ n ih =>
      rw [flipErrors, List.range_succ, List.map_append, ← flipErrors, bitsOf_append, ih, Nat.mul_succ,
        List.range_add, List.map_append, List.map_map]
      congr 1
      show byteBits (flipByte flips n) ++ [] = _
      rw [List.append_nil, byteBits_flipByte]
      rfl

/-- Bits outside the set are zeros. -/
theorem map_mem_eq_replicate (flips : Finset Nat) (start n : Nat)
    (h : ∀ k, start ≤ k → k < start + n → k ∉ flips) :
    ((List.range n).map (start + ·)).map (fun k => decide (k ∈ flips)) = List.replicate n false := by
  rw [List.map_map, List.eq_replicate_iff, List.length_map, List.length_range]
  refine ⟨rfl, ?_⟩
  intro b hb
  obtain ⟨i, hi, rfl⟩ := List.mem_map.mp hb
  rw [List.mem_range] at hi
  exact decide_eq_false (h (start + i) (by omega) (by omega))

/-- **Flips within 32 consecutive bits leave a register that is not zero.** The bits before the window and
behind it are zeros, and a window of 32 is what `feedBits_burst` takes. -/
theorem flips_burst {flips : Finset Nat} {start n : Nat} (hne : flips.Nonempty)
    (hin : ∀ k ∈ flips, k < 8 * n) (hwindow : ∀ k ∈ flips, start ≤ k ∧ k < start + 32) :
    feedBits 0 (bitsOf (flipErrors flips n)) ≠ 0 := by
  obtain ⟨k, hk⟩ := hne
  have hkin := hin k hk
  have hkwin := hwindow k hk
  -- the window may reach over the end of the string
  obtain ⟨width, after, hwidth, hsum, hend⟩ : ∃ width after, width ≤ 32 ∧ 8 * n = start + (width + after) ∧
      (after = 0 ∨ width = 32) := by
    by_cases h : start + 32 ≤ 8 * n
    · exact ⟨32, 8 * n - (start + 32), le_refl _, by omega, Or.inr rfl⟩
    · exact ⟨8 * n - start, 0, by omega, by omega, Or.inl rfl⟩
  have hbefore : (List.range start).map (fun k => decide (k ∈ flips)) = List.replicate start false := by
    have hzero := map_mem_eq_replicate flips 0 start (by
      intro i _ hi hmem
      have hfrom := (hwindow i hmem).1
      omega)
    simpa using hzero
  have hafter := map_mem_eq_replicate flips (start + width) after (by
    intro i hi hlt hmem
    have hto := (hwindow i hmem).2
    omega)
  have hsplit : bitsOf (flipErrors flips n) = List.replicate start false ++
      (((List.range width).map (start + ·)).map (fun k => decide (k ∈ flips)) ++
        List.replicate after false) := by
    rw [bitsOf_flipErrors, hsum, List.range_add, List.map_append, hbefore, List.range_add, List.map_append,
      List.map_append, ← hafter, List.map_map, List.map_map, List.map_map, List.map_map]
    simp only [Function.comp_def, Nat.add_assoc]
  rw [hsplit]
  apply feedBits_burst
  · rw [List.length_map, List.length_map, List.length_range]
    exact hwidth
  · rw [List.map_map, List.mem_map]
    refine ⟨k - start, List.mem_range.mpr (by omega), ?_⟩
    have hback : start + (k - start) = k := by omega
    simp only [Function.comp_apply, hback, hk, decide_true]

/-! Bytes that no flip touches. -/

theorem flipByte_eq_zero {flips : Finset Nat} {i : Nat} (h : ∀ k ∈ flips, k / 8 ≠ i) :
    flipByte flips i = 0 := by
  have hnone : ((List.range 8).map fun j => decide (8 * i + j ∈ flips)) = List.replicate 8 false := by
    rw [List.eq_replicate_iff, List.length_map, List.length_range]
    refine ⟨rfl, ?_⟩
    intro b hb
    obtain ⟨j, hj, rfl⟩ := List.mem_map.mp hb
    rw [List.mem_range] at hj
    apply decide_eq_false
    intro hmem
    exact h _ hmem (by omega)
  rw [flipByte, hnone]
  rfl

theorem slice_flipBits {flips : Finset Nat} {i j : Nat} (h : ∀ k ∈ flips, ¬ (i ≤ k / 8 ∧ k / 8 < j))
    (bs : Bytes) : slice (flipBits flips bs) i j = slice bs i j := by
  apply List.ext_getElem?
  intro m
  rw [slice, slice, List.getElem?_take, List.getElem?_take]
  by_cases hm : m < j - i
  · rw [if_pos hm, if_pos hm, List.getElem?_drop, List.getElem?_drop, flipBits, List.getElem?_mapIdx]
    have hzero : flipByte flips (i + m) = 0 := by
      apply flipByte_eq_zero
      intro k hk hki
      exact h k hk (by omega)
    rw [hzero]
    simp only [UInt8.xor_zero, Option.map_id']
  · rw [if_neg hm, if_neg hm]

end TradeBroker.Lib
