/-
# TradeBroker.Pokemon — the encrypted region of a party record (`pokemon.py`).

What the record *is* comes first, in its own terms: `Gen3` has the two ids, four substructures of 12 bytes
and the bytes around them, and `Gen3.record` lays the substructures out in the order the personality
selects (`Substruct.orders`: all permutations of `G`, `A`, `E`, `M`, sorted lexicographically) and masks
every word with the key.  Against it `_decrypted_secure`, `held_item` and `refuse_mail` are exact for every
record: the plain layout, the item of the growth substructure, and a refusal precisely for the Mail items.

The checksum is a sum of 24 halves modulo `2 ^ 16`.  A change inside one half changes one term by less than
the modulus, so it cannot go unseen; an exchange of substructures exchanges terms of the sum and always does.

The converse matters as much: the source has no plain layout to compare with, so what a decryption loop
returns means something only against an independent construction.  `refuseMail_record` gives all of it for
every `Gen3`, and every byte string of 100 bytes has a decryption, a held item and a checksum verdict,
valid or not.

Two things the checksum does not do are part of the statement of `checksumValid_detects`: it does not see
an exchange of substructures, and it says nothing about bytes outside the encrypted region.
-/
import TradeBroker.Domain
import TradeBroker.Lib.Words
import Mathlib.Data.List.Permutation
import Mathlib.Data.List.Sort
import Mathlib.Data.List.FinRange
import Mathlib.Data.Nat.ModEq
import Mathlib.Algebra.BigOperators.Fin

namespace TradeBroker

open Lib

/-! ## §1 — the layout. -/

/-- The substructures of a record, by the letter the order table has for them: growth, attacks, effort values
and the rest. -/
inductive Substruct where
  | G
  | A
  | E
  | M
  deriving DecidableEq

namespace Substruct

def letter : Substruct → Char
  | G => 'G'
  | A => 'A'
  | E => 'E'
  | M => 'M'

/-- `G < A < E < M`, the order of the letters in the table. -/
def rank : Substruct → Nat
  | G => 0
  | A => 1
  | E => 2
  | M => 3

/-- All orders of the four substructures, lexicographically sorted; there are 24 of them, and the personality
selects one. -/
def orders : List (List Substruct) :=
  (List.permutations' [G, A, E, M]).insertionSort fun p q => p.map rank ≤ q.map rank

theorem mem_orders {order : List Substruct} : order ∈ orders ↔ order.Perm [G, A, E, M] := by
  rw [orders, List.mem_insertionSort, List.mem_permutations']

/-- The hand-written table has the sorted orders, row by row, so no row of it is misspelled or out of place. -/
theorem orders_letters :
    orders.map (fun order => order.map letter) = Pokemon100.substructOrders.map String.toList := by
  decide

theorem length_orders : orders.length = 24 := by
  rw [orders, List.length_insertionSort]
  decide

end Substruct

/-- The parts of a party record before they are laid out and masked; the lengths are part of the type. -/
structure Gen3 where
  personality : UInt32
  trainerId : UInt32
  /-- Bytes 8..31: names, markings and the stored checksum. -/
  header : Bytes
  header_size : header.length = 24
  substruct : Substruct → Bytes
  substruct_size : ∀ s, (substruct s).length = 12
  /-- Bytes 80..99: what only a record in the party has. -/
  party : Bytes
  party_size : party.length = 20

namespace Gen3

def key (parts : Gen3) : Nat := parts.personality.toNat ^^^ parts.trainerId.toNat

/-- The `personality % 24`-th permutation. -/
def order (parts : Gen3) : List Substruct := Substruct.orders.getD (parts.personality.toNat % 24) []

/-- The four substructures, one behind the other, in the order of this record. -/
def layout (parts : Gen3) : Bytes := parts.order.flatMap parts.substruct

/-- The bytes of the record: the layout with every word masked, between the bytes around it. -/
def raw (parts : Gen3) : Bytes :=
  leBytes 4 parts.personality.toNat ++ (leBytes 4 parts.trainerId.toNat ++
    (parts.header ++ (xorWords parts.key parts.layout ++ parts.party)))

variable (parts : Gen3)

theorem key_lt : parts.key < 2 ^ 32 :=
  Nat.xor_lt_two_pow parts.personality.toNat_lt parts.trainerId.toNat_lt

theorem order_lt : parts.personality.toNat % 24 < Substruct.orders.length := by
  rw [Substruct.length_orders]
  exact Nat.mod_lt _ (by decide)

theorem order_perm : parts.order.Perm [.G, .A, .E, .M] := by
  rw [← Substruct.mem_orders, order, List.getD_eq_getElem?_getD,
    List.getElem?_eq_getElem parts.order_lt]
  exact List.getElem_mem _

theorem growth_mem_order : Substruct.G ∈ parts.order := by
  rw [parts.order_perm.mem_iff]
  exact List.mem_cons_self

theorem length_flatMap_substruct (order : List Substruct) :
    (order.flatMap parts.substruct).length = 12 * order.length := by
  induction order with
  | nil => rfl
  | cons s order ih =>
      rw [List.flatMap_cons, List.length_append, ih, parts.substruct_size, List.length_cons]
      omega

theorem length_layout : parts.layout.length = 48 := by
  rw [layout, length_flatMap_substruct, parts.order_perm.length_eq]
  rfl

theorem length_masked : (xorWords parts.key parts.layout).length = 48 :=
  length_xorWords (n := 12) parts.length_layout

theorem length_raw : parts.raw.length = 100 := by
  simp only [raw, List.length_append, length_leBytes, parts.header_size, parts.length_masked,
    parts.party_size]

/-- The party record of these parts: every one of them has exactly 100 bytes. -/
def record : Pokemon100 := ⟨parts.raw, parts.length_raw⟩

/-! ## §2 — reading it back. -/

theorem record_personality : parts.record.personality = parts.personality.toNat := by
  have hslice : slice parts.raw 0 4 = leBytes 4 parts.personality.toNat := by
    rw [raw, ← List.nil_append (leBytes 4 parts.personality.toNat ++ _)]
    exact slice_append rfl (by rw [length_leBytes])
  rw [Pokemon100.personality, record, hslice]
  exact leNat_leBytes_of_lt parts.personality.toNat_lt

theorem record_trainerId : parts.record.trainerId = parts.trainerId.toNat := by
  have hslice : slice parts.raw 4 8 = leBytes 4 parts.trainerId.toNat :=
    slice_append (length_leBytes _ _) (by rw [length_leBytes])
  rw [Pokemon100.trainerId, record, hslice]
  exact leNat_leBytes_of_lt parts.trainerId.toNat_lt

theorem slice_secure : slice parts.raw 32 80 = xorWords parts.key parts.layout := by
  have hfront : (leBytes 4 parts.personality.toNat ++
      (leBytes 4 parts.trainerId.toNat ++ parts.header)).length = 32 := by
    simp only [List.length_append, length_leBytes, parts.header_size]
  have hraw : parts.raw = (leBytes 4 parts.personality.toNat ++
      (leBytes 4 parts.trainerId.toNat ++ parts.header)) ++
        (xorWords parts.key parts.layout ++ parts.party) := by
    simp only [raw, List.append_assoc]
  rw [hraw]
  exact slice_append hfront (by rw [parts.length_masked])

end Gen3

namespace Pokemon100

/-- The key of a record. -/
def key (mon : Pokemon100) : Nat := mon.personality ^^^ mon.trainerId

theorem key_lt (mon : Pokemon100) : mon.key < 2 ^ 32 := by
  have hword : ∀ i : Nat, i + 4 ≤ 100 → leNat (slice mon.raw i (i + 4)) < 2 ^ 32 := by
    intro i hi
    have hval := leNat_leBytes 4 (leNat (slice mon.raw i (i + 4)))
    rw [leBytes_slice (by rw [mon.size_eq]; exact hi)] at hval
    rw [hval]
    exact Nat.mod_lt _ (by decide)
  exact Nat.xor_lt_two_pow (hword 0 (by decide)) (hword 4 (by decide))

theorem length_secure (mon : Pokemon100) : (slice mon.raw 32 80).length = 48 :=
  length_slice (by rw [mon.size_eq]; decide)

/-- The decryption loop masks every word of the region with the key, the last one included. -/
theorem decryptedSecure_eq (mon : Pokemon100) :
    mon.decryptedSecure = xorWords mon.key (slice mon.raw 32 80) := by
  rw [← flatMap_pieces (n := 12) mon.length_secure, pieces, List.flatMap_map]
  rfl

theorem length_decryptedSecure (mon : Pokemon100) : mon.decryptedSecure.length = 48 := by
  rw [decryptedSecure_eq]
  exact length_xorWords (n := 12) mon.length_secure

end Pokemon100

namespace Gen3

variable (parts : Gen3)

/-- Decryption gives the plain layout back, whatever the ids and the contents are. -/
theorem record_decryptedSecure : parts.record.decryptedSecure = parts.layout := by
  have hkey : parts.record.key = parts.key := by
    rw [Pokemon100.key, record_personality, record_trainerId, key]
  rw [Pokemon100.decryptedSecure_eq, hkey]
  show xorWords parts.key (slice parts.raw 32 80) = parts.layout
  rw [slice_secure]
  exact xorWords_xorWords (n := 12) parts.key_lt parts.length_layout

/-- The row of the table for this record, letter by letter. -/
theorem order_letters :
    (Pokemon100.substructOrders.getD (parts.personality.toNat % 24) "").toList =
      parts.order.map Substruct.letter := by
  have hrow := congrArg (fun rows => rows[parts.personality.toNat % 24]?) Substruct.orders_letters
  simp only [List.getElem?_map] at hrow
  rw [order, List.getD_eq_getElem?_getD, List.getD_eq_getElem?_getD]
  rw [List.getElem?_eq_getElem parts.order_lt] at hrow ⊢
  obtain ⟨row, hget, hletters⟩ := Option.map_eq_some_iff.mp hrow.symm
  rw [hget]
  exact hletters

theorem idxOf_letter (order : List Substruct) :
    (order.map Substruct.letter).idxOf 'G' = order.idxOf .G := by
  induction order with
  | nil => rfl
  | cons s order ih =>
      rw [List.map_cons, List.idxOf_cons, List.idxOf_cons, ih]
      cases s <;> rfl

/-- Where a substructure stands in a layout. -/
theorem slice_flatMap_substruct {order : List Substruct} {s : Substruct} (hs : s ∈ order) {i j : Nat}
    (hj : j ≤ 12) :
    slice (order.flatMap parts.substruct) (order.idxOf s * 12 + i) (order.idxOf s * 12 + j) =
      slice (parts.substruct s) i j := by
  induction order with
  | nil => exact absurd hs List.not_mem_nil
  | cons t order ih =>
      rw [List.flatMap_cons]
      by_cases hst : t = s
      · subst hst
        rw [List.idxOf_cons_self, Nat.zero_mul, Nat.zero_add, Nat.zero_add]
        exact slice_append_left (by rw [parts.substruct_size]; exact hj) _ _
      · have hmem : s ∈ order := (List.mem_cons.mp hs).resolve_left (Ne.symm hst)
        have hfront : ∀ n, (parts.substruct t ++ order.flatMap parts.substruct).drop (12 + n) =
            (order.flatMap parts.substruct).drop n := by
          intro n
          rw [← List.drop_drop, ← parts.substruct_size t, List.drop_left]
        have hi : (order.idxOf s + 1) * 12 + i = 12 + (order.idxOf s * 12 + i) := by ring
        have hlen : (order.idxOf s + 1) * 12 + j - (12 + (order.idxOf s * 12 + i)) =
            order.idxOf s * 12 + j - (order.idxOf s * 12 + i) := by omega
        rw [List.idxOf_cons_ne _ hst, slice, Nat.succ_eq_add_one, hi, hfront, hlen]
        exact ih hmem

/-- The held item is the second half of the growth substructure, wherever that substructure stands. -/
theorem record_heldItem : parts.record.heldItem = leNat (slice (parts.substruct .G) 2 4) := by
  have hoffset : (Pokemon100.substructOrders.getD (parts.personality.toNat % 24) "").toList.idxOf 'G' =
      parts.order.idxOf .G := by
    rw [order_letters, idxOf_letter]
  rw [Pokemon100.heldItem, record_decryptedSecure, record_personality]
  show leNat (slice parts.layout (_ * 12 + 2) (_ * 12 + 4)) = _
  rw [hoffset, layout, parts.slice_flatMap_substruct parts.growth_mem_order (by decide)]

/-- **Mail, against the format.**  For every record laid out and masked as the format has it, decryption
returns the plain layout, `held_item` is the 16-bit value at bytes 2..3 of the growth substructure, and
`refuse_mail` raises for the values 121..132 and for no others. -/
theorem refuseMail_record (parts : Gen3) :
    parts.record.decryptedSecure = parts.layout ∧
      parts.record.heldItem = leNat (slice (parts.substruct .G) 2 4) ∧
        ((∃ e, parts.record.refuseMail = .error e) ↔
          121 ≤ leNat (slice (parts.substruct .G) 2 4) ∧ leNat (slice (parts.substruct .G) 2 4) ≤ 132) ∧
          ∀ e, parts.record.refuseMail = .error e → e.type = .mailNotSupported := by
  refine ⟨parts.record_decryptedSecure, parts.record_heldItem, ?_, ?_⟩
  · rw [← parts.record_heldItem]
    unfold Pokemon100.refuseMail Pokemon100.holdsMail
    split
    · rename_i hmail
      rw [Bool.and_eq_true, decide_eq_true_eq, decide_eq_true_eq] at hmail
      exact ⟨fun _ => hmail, fun _ => ⟨_, rfl⟩⟩
    · rename_i hmail
      rw [Bool.and_eq_true, decide_eq_true_eq, decide_eq_true_eq] at hmail
      refine ⟨?_, fun h => absurd h hmail⟩
      rintro ⟨e, he⟩
      exact absurd he (by simp)
  · intro e he
    unfold Pokemon100.refuseMail at he
    split at he
    · rw [Except.error.injEq] at he
      subst he
      rfl
    · exact absurd he (by simp)

end Gen3

/-! ## §3 — the checksum. -/

namespace Pokemon100

theorem checksumValid_iff (mon : Pokemon100) :
    mon.checksumValid = true ↔
      (halfwords mon.decryptedSecure).sum % 2 ^ 16 = leNat (slice mon.raw 28 30) := by
  have hsum := map_pieces (n := 24) mon.length_decryptedSecure
  rw [pieces, List.map_map] at hsum
  rw [checksumValid, beq_iff_eq, ← hsum, ← Nat.and_two_pow_sub_one_eq_mod]
  rfl

/-- Another record with the ids and the stored checksum of this one, so that only the encrypted region may
differ. -/
structure SameFrame (mon other : Pokemon100) : Prop where
  key : other.key = mon.key
  stored : slice other.raw 28 30 = slice mon.raw 28 30

theorem SameFrame.of_bytes {mon other : Pokemon100} (h : ∀ i < 32, other.raw[i]? = mon.raw[i]?) :
    SameFrame mon other := by
  have hslice : ∀ i j, j ≤ 32 → slice other.raw i j = slice mon.raw i j := by
    intro i j hj
    apply slice_congr
    intro n _ hn
    exact h n (by omega)
  constructor
  · unfold Pokemon100.key personality trainerId
    rw [hslice 0 4 (by decide), hslice 4 8 (by decide)]
  · exact hslice 28 30 (by decide)

/-- The encrypted region around its half at place `k`. -/
theorem secure_split (mon : Pokemon100) {k : Nat} (hk : k < 24) :
    slice mon.raw 32 80 = slice mon.raw 32 (32 + 2 * k) ++
      (slice mon.raw (32 + 2 * k) (34 + 2 * k) ++ slice mon.raw (34 + 2 * k) 80) := by
  rw [slice_slice _ (by omega) (by omega), slice_slice _ (by omega) (by omega)]

/-- The halves of the decrypted region around the one at place `k`. -/
theorem halfwords_decrypted (mon : Pokemon100) {k : Nat} (hk : k < 24) :
    halfwords mon.decryptedSecure =
      ((halfwords (slice mon.raw 32 (32 + 2 * k))).mapIdx fun n v => v ^^^ keyHalf mon.key n) ++
        (leNat (slice mon.raw (32 + 2 * k) (34 + 2 * k)) ^^^ keyHalf mon.key k) ::
          ((halfwords (slice mon.raw (34 + 2 * k) 80)).mapIdx fun n v =>
            v ^^^ keyHalf mon.key (n + 1 + k)) := by
  have hfront : (slice mon.raw 32 (32 + 2 * k)).length = 2 * k := by
    rw [length_slice (by rw [mon.size_eq]; omega)]
    omega
  have hmid : (slice mon.raw (32 + 2 * k) (34 + 2 * k)).length = 2 := by
    rw [length_slice (by rw [mon.size_eq]; omega)]
    omega
  rw [decryptedSecure_eq, halfwords_xorWords (n := 12) mon.key mon.length_secure, mon.secure_split hk,
    halfwords_append hfront, halfwords_cons hmid, List.mapIdx_append, List.mapIdx_cons,
    length_halfwords hfront, Nat.zero_add]

/-- A half is below `2 ^ 16`, masked or not. -/
theorem masked_half_lt (mon : Pokemon100) {k : Nat} (hk : k < 24) :
    leNat (slice mon.raw (32 + 2 * k) (34 + 2 * k)) ^^^ keyHalf mon.key k < 2 ^ 16 := by
  have hval := leNat_leBytes 2 (leNat (slice mon.raw (32 + 2 * k) (32 + 2 * k + 2)))
  rw [leBytes_slice (by rw [mon.size_eq]; omega)] at hval
  have hlt : leNat (slice mon.raw (32 + 2 * k) (34 + 2 * k)) < 2 ^ 16 := by
    have hend : 34 + 2 * k = 32 + 2 * k + 2 := by omega
    rw [hend, hval]
    exact Nat.mod_lt _ (by decide)
  exact Nat.xor_lt_two_pow hlt (Nat.mod_lt _ (by decide))

/-- Two terms below the modulus that leave the sum alone are one. -/
theorem term_eq_of_sum_mod {front back x y m : Nat} (hx : x < m) (hy : y < m)
    (h : (front + (x + back)) % m = (front + (y + back)) % m) : x = y := by
  have hmod : (x + (front + back)) % m = (y + (front + back)) % m := by
    have hx' : x + (front + back) = front + (x + back) := by ring
    have hy' : y + (front + back) = front + (y + back) := by ring
    rw [hx', hy']
    exact h
  have hxy : x % m = y % m := Nat.ModEq.add_right_cancel' (front + back) hmod
  rwa [Nat.mod_eq_of_lt hx, Nat.mod_eq_of_lt hy] at hxy

/-- Records that agree on everything but one half, with both checksums right, agree on that half too: the
other 23 terms of the sum are the same. -/
theorem half_eq_of_checksumValid {mon other : Pokemon100} {k : Nat} (hk : k < 24)
    (hsame : ∀ i, i ≠ 32 + 2 * k → i ≠ 33 + 2 * k → other.raw[i]? = mon.raw[i]?)
    (hmon : mon.checksumValid = true) (hother : other.checksumValid = true) :
    slice other.raw (32 + 2 * k) (34 + 2 * k) = slice mon.raw (32 + 2 * k) (34 + 2 * k) := by
  have hframe : SameFrame mon other := .of_bytes fun i hi => hsame i (by omega) (by omega)
  have hfront : slice other.raw 32 (32 + 2 * k) = slice mon.raw 32 (32 + 2 * k) :=
    slice_congr fun n _ hn => hsame n (by omega) (by omega)
  have hback : slice other.raw (34 + 2 * k) 80 = slice mon.raw (34 + 2 * k) 80 :=
    slice_congr fun n hn _ => hsame n (by omega) (by omega)
  have hmask := other.masked_half_lt hk
  rw [checksumValid_iff] at hmon hother
  rw [mon.halfwords_decrypted hk, List.sum_append, List.sum_cons] at hmon
  rw [other.halfwords_decrypted hk, List.sum_append, List.sum_cons, hframe.stored, ← hmon, hfront,
    hback, hframe.key] at hother
  rw [hframe.key] at hmask
  -- the two sums differ in one term, and that by less than the modulus
  have hterm := term_eq_of_sum_mod hmask (mon.masked_half_lt hk) hother
  have hval := Nat.xor_right_injective.eq_iff.mp
    ((Nat.xor_comm _ _).trans (hterm.trans (Nat.xor_comm _ _)))
  have hend : 34 + 2 * k = 32 + 2 * k + 2 := by omega
  rw [hend] at hval ⊢
  rw [← leBytes_slice (p := other.raw) (by rw [other.size_eq]; omega), hval,
    leBytes_slice (by rw [mon.size_eq]; omega)]

/-- The decrypted substructure at place `i`, twelve bytes of it. -/
def substructAt (mon : Pokemon100) (i : Fin 4) : Bytes :=
  slice mon.decryptedSecure (12 * i) (12 * i + 12)

theorem length_substructAt (mon : Pokemon100) (i : Fin 4) : (mon.substructAt i).length = 12 := by
  rw [substructAt, length_slice]
  · omega
  · rw [mon.length_decryptedSecure]
    omega

/-- The decrypted substructures, place `i` taken by the one at place `σ i`; any permutation of the four places
is meant. -/
def rearrangedSecure (mon : Pokemon100) (σ : Equiv.Perm (Fin 4)) : Bytes :=
  (List.finRange 4).flatMap fun i => mon.substructAt (σ i)

theorem length_flatMap_substructAt (mon : Pokemon100) (σ : Equiv.Perm (Fin 4)) (places : List (Fin 4)) :
    (places.flatMap fun i => mon.substructAt (σ i)).length = 12 * places.length := by
  induction places with
  | nil => rfl
  | cons i places ih =>
      rw [List.flatMap_cons, List.length_append, ih, mon.length_substructAt, List.length_cons]
      omega

theorem length_rearrangedSecure (mon : Pokemon100) (σ : Equiv.Perm (Fin 4)) :
    (mon.rearrangedSecure σ).length = 48 := by
  rw [rearrangedSecure, length_flatMap_substructAt, List.length_finRange]

/-- Rearranged with nothing moved, the region is what it was. -/
theorem rearrangedSecure_refl (mon : Pokemon100) :
    mon.rearrangedSecure (Equiv.refl _) = mon.decryptedSecure := by
  have hlen : mon.decryptedSecure.length ≤ 12 * 4 := by
    rw [mon.length_decryptedSecure]
  rw [← flatten_pieces hlen]
  simp [rearrangedSecure, substructAt, slice, List.finRange, List.range, List.range.loop]

theorem length_rearrangedMasked (mon : Pokemon100) (σ : Equiv.Perm (Fin 4)) :
    (xorWords mon.key (mon.rearrangedSecure σ)).length = 48 :=
  length_xorWords (n := 12) (mon.length_rearrangedSecure σ)

theorem length_rearranged (mon : Pokemon100) (σ : Equiv.Perm (Fin 4)) :
    (slice mon.raw 0 32 ++ (xorWords mon.key (mon.rearrangedSecure σ) ++ slice mon.raw 80 100)).length =
      100 := by
  have hmid := mon.length_rearrangedMasked σ
  have hfront : (slice mon.raw 0 32).length = 32 := length_slice (by rw [mon.size_eq]; decide)
  have hback : (slice mon.raw 80 100).length = 20 := length_slice (by rw [mon.size_eq])
  rw [List.length_append, List.length_append, hmid, hfront, hback]

/-- The record with its substructures permuted, encrypted again under its own key. -/
def rearranged (mon : Pokemon100) (σ : Equiv.Perm (Fin 4)) : Pokemon100 :=
  ⟨slice mon.raw 0 32 ++ (xorWords mon.key (mon.rearrangedSecure σ) ++ slice mon.raw 80 100),
    mon.length_rearranged σ⟩

theorem rearranged_frame (mon : Pokemon100) (σ : Equiv.Perm (Fin 4)) :
    SameFrame mon (mon.rearranged σ) := by
  have hfront : (slice mon.raw 0 32).length = 32 := length_slice (by rw [mon.size_eq]; decide)
  apply SameFrame.of_bytes
  intro i hi
  rw [rearranged, List.getElem?_append_left (by omega), slice, List.getElem?_take, if_pos (by omega),
    List.drop_zero]

theorem rearranged_decryptedSecure (mon : Pokemon100) (σ : Equiv.Perm (Fin 4)) :
    (mon.rearranged σ).decryptedSecure = mon.rearrangedSecure σ := by
  have hmid := mon.length_rearrangedMasked σ
  have hsecure : slice (mon.rearranged σ).raw 32 80 = xorWords mon.key (mon.rearrangedSecure σ) :=
    slice_append (length_slice (by rw [mon.size_eq]; decide)) (by rw [hmid])
  rw [decryptedSecure_eq, (mon.rearranged_frame σ).key, hsecure]
  exact xorWords_xorWords (n := 12) mon.key_lt (mon.length_rearrangedSecure σ)

/-- The sum over the halves, substructure by substructure. -/
theorem sum_halfwords_flatMap (mon : Pokemon100) (σ : Equiv.Perm (Fin 4)) (places : List (Fin 4)) :
    (halfwords (places.flatMap fun i => mon.substructAt (σ i))).sum =
      (places.map fun i => (halfwords (mon.substructAt (σ i))).sum).sum := by
  induction places with
  | nil => rfl
  | cons i places ih =>
      rw [List.flatMap_cons, halfwords_append (n := 6) (mon.length_substructAt (σ i)), List.sum_append, ih,
        List.map_cons, List.sum_cons]

/-- Addition does not see the order of the substructures, and the checksum is a sum. -/
theorem sum_rearrangedSecure (mon : Pokemon100) (σ : Equiv.Perm (Fin 4)) :
    (halfwords (mon.rearrangedSecure σ)).sum = (halfwords mon.decryptedSecure).sum := by
  have hsum : ∀ τ : Equiv.Perm (Fin 4), (halfwords (mon.rearrangedSecure τ)).sum =
      ∑ i, (halfwords (mon.substructAt (τ i))).sum := by
    intro τ
    rw [rearrangedSecure, sum_halfwords_flatMap, Fin.sum_univ_def]
  rw [← mon.rearrangedSecure_refl, hsum, hsum]
  exact Equiv.sum_comp σ fun i => (halfwords (mon.substructAt i)).sum

/-- **The checksum sees every change of one half, and no exchange of substructures.**  A record that
differs from one with a right checksum in exactly one aligned 16-bit half of the encrypted region has a
wrong one; permuting the four decrypted substructures under the same key leaves the verdict as it is. -/
theorem checksumValid_detects (mon : Pokemon100) :
    (∀ (other : Pokemon100) (k : Nat), k < 24 → mon.checksumValid = true → other ≠ mon →
      (∀ i, i ≠ 32 + 2 * k → i ≠ 33 + 2 * k → other.raw[i]? = mon.raw[i]?) →
        other.checksumValid = false) ∧
      ∀ σ : Equiv.Perm (Fin 4), (mon.rearranged σ).decryptedSecure = mon.rearrangedSecure σ ∧
        (mon.rearranged σ).checksumValid = mon.checksumValid := by
  constructor
  · intro other k hk hmon hne hsame
    rw [Bool.eq_false_iff]
    intro hother
    have hhalf := half_eq_of_checksumValid hk hsame hmon hother
    apply hne
    have hraw : other.raw = mon.raw := by
      apply List.ext_getElem?
      intro i
      by_cases hi : 32 + 2 * k ≤ i ∧ i < 34 + 2 * k
      · have hbyte := congrArg (fun bs => bs[i - (32 + 2 * k)]?) hhalf
        have hplace : 32 + 2 * k + (i - (32 + 2 * k)) = i := by omega
        simp only [slice, List.getElem?_take, List.getElem?_drop, hplace] at hbyte
        rwa [if_pos (by omega), if_pos (by omega)] at hbyte
      · exact hsame i (by omega) (by omega)
    cases other
    cases mon
    simp only at hraw
    subst hraw
    rfl
  · intro σ
    refine ⟨mon.rearranged_decryptedSecure σ, ?_⟩
    rw [Bool.eq_iff_iff, checksumValid_iff, checksumValid_iff, rearranged_decryptedSecure,
      sum_rearrangedSecure, (mon.rearranged_frame σ).stored]

/-- Personality 1, trainer id 0, and the checksum of an encrypted region that is all zero: a record whose
masks are easy to follow. -/
def zeroedFront : Bytes := [1, 0, 0, 0] ++ (List.replicate 24 0 ++ [12, 0, 0, 0])

/-- That record, up to byte 32. -/
def zeroed (byte : UInt8) : Pokemon100 := ⟨zeroedFront ++ byte :: List.replicate 67 0, rfl⟩

theorem zeroed_alike (i : Nat) (h : i ≠ 32) : (zeroed 7).raw[i]? = (zeroed 0).raw[i]? := by
  have hfront : zeroedFront.length = 32 := rfl
  rw [zeroed, zeroed]
  by_cases hi : i < 32
  · rw [List.getElem?_append_left (by omega), List.getElem?_append_left (by omega)]
  · obtain ⟨n, hn⟩ : ∃ n, i - 32 = n + 1 := ⟨i - 33, by omega⟩
    rw [List.getElem?_append_right (by omega), List.getElem?_append_right (by omega), hfront, hn,
      List.getElem?_cons_succ, List.getElem?_cons_succ]

theorem checksumValid_detects_zeroed :
    (zeroed 0).checksumValid = true ∧ (zeroed 7).checksumValid = false ∧
      ((zeroed 0).rearranged (Equiv.swap 0 1)).checksumValid = true := by
  have hvalid : (zeroed 0).checksumValid = true := by decide +kernel
  refine ⟨hvalid, ?_, ?_⟩
  · exact (checksumValid_detects (zeroed 0)).1 (zeroed 7) 0 (by decide) hvalid (by decide)
      fun i h _ => zeroed_alike i h
  · rw [((checksumValid_detects (zeroed 0)).2 (Equiv.swap 0 1)).2, hvalid]

end Pokemon100

end TradeBroker
