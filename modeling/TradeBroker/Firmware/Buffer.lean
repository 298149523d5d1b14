/-
# TradeBroker.Firmware.Buffer — the receive buffer of the device, index by index.

`Firmware.Codec` has the used part of `m_rx` as a list, which says nothing about the array it lies in.  Here
`m_rx` is memory (a function on indices), `m_rxSize` is a `size_t` whose arithmetic wraps, and every access
of `feed` and `consume` leaves a note: the range it read while the buffer had so many bytes, the range it
wrote, the count it discarded, the size it set.  `consume` is the loop of the source, cut off after a number
of passes, and says so when it was cut off.

Whatever is fed, in chunks of whatever size, with other calls of the owner in between: all notes are in
bounds, the loop is never cut off, and what is left is the beginning of one frame or too short to tell
(`feeds_bounded`).  The handler gets the frame and the fields of the codec other than the buffer, so it
cannot re-enter `feed`.  `feed_refines` ties this level to `Codec.feed`.

The arithmetic is that of the target.  A `size_t` has 32 bits there, so a difference that goes below zero
is a huge number and not zero, and the theorem has to show that none does.  The notes are a ghost: no
access depends on them, and `Access.InBounds` is decided note by note.

What `feeds_bounded` does not say is that the frames are the right ones.  That is the other theorem: on
the used part of the array this machine does what the codec of lists does, pass by pass, so every result
about that one is a result about this one.
-/
import TradeBroker.Firmware.Codec

namespace TradeBroker.Firmware

open Lib
open Gba (magic version headerSize crcSize maxPayload)

/-! ## §1 — memory with notes. -/

/-- What `feed` and `consume` do with the receive buffer, with the sizes as they are at that moment. -/
inductive Access where
  /-- Bytes `first ..< first + count` read while `m_rxSize = size`. -/
  | read (first count size : Nat)
  /-- Bytes `first ..< first + count` of `m_rx` written. -/
  | write (first count : Nat)
  /-- `discardPrefix(count)` while `m_rxSize = size`. -/
  | discard (count size : Nat)
  /-- `m_rxSize` set. -/
  | resize (size : Nat)
  deriving DecidableEq

/-- Reads lie below `m_rxSize`, writes inside the array, a discard takes no more than there is, and the size
is at most that of the array. -/
def Access.InBounds : Access → Prop
  | .read first count size => first + count ≤ size
  | .write first count => first + count ≤ maxFrame
  | .discard count size => count ≤ size
  | .resize size => size ≤ maxFrame

/-- Subtraction of a 32-bit `size_t`, which wraps where the difference is negative. -/
def subSize (a b : Nat) : Nat := (a + 2 ^ 32 - b) % 2 ^ 32

/-- Addition of a 32-bit `size_t`, which wraps around. -/
def addSize (a b : Nat) : Nat := (a + b) % 2 ^ 32

theorem subSize_eq {a b : Nat} (ha : a < 2 ^ 32) (h : b ≤ a) : subSize a b = a - b := by
  rw [subSize]
  omega

theorem addSize_eq {a b : Nat} (h : a + b < 2 ^ 32) : addSize a b = a + b := Nat.mod_eq_of_lt h

theorem maxFrame_lt : maxFrame < 2 ^ 32 := by decide

/-- The fields of `Codec` with `m_rx` as memory, the size beside it, and the notes so far.  The list in
`fields` is not used. -/
structure Machine (σ : Type) where
  rx : Nat → UInt8
  rxSize : Nat
  fields : Codec × σ
  log : List Access

namespace Machine

variable {σ : Type}

/-- A codec just constructed, its buffer empty and nothing accessed yet. -/
def start (fields : Codec × σ) : Machine σ := ⟨fun _ => 0, 0, fields, []⟩

def note (a : Access) (m : Machine σ) : Machine σ := { m with log := m.log ++ [a] }

def bytesAt (m : Machine σ) (first count : Nat) : Bytes :=
  (List.range count).map fun i => m.rx (first + i)

/-- The bytes of a range, and the access noted with the size of that moment. -/
def read (first count : Nat) (m : Machine σ) : Bytes × Machine σ :=
  (m.bytesAt first count, m.note (.read first count m.rxSize))

/-- `m_rxSize = size`, without a look at the buffer. -/
def resize (size : Nat) (m : Machine σ) : Machine σ :=
  { m with rxSize := size, log := m.log ++ [.resize size] }

/-- `std::copy` to `m_rx.begin() + first`, noted as an access. -/
def copyTo (first : Nat) (bytes : Bytes) (m : Machine σ) : Machine σ :=
  { m with
    rx := fun i => if first ≤ i ∧ i < first + bytes.length then bytes.getD (i - first) 0 else m.rx i
    log := m.log ++ [.write first bytes.length] }

/-- `discardPrefix`: the bytes behind the prefix are moved to the front, and the size goes down by its length. -/
def discardPrefix (count : Nat) (m : Machine σ) : Machine σ :=
  let moved := m.note (.discard count m.rxSize)
  let r := moved.read count (m.rxSize - count)
  (r.2.copyTo 0 r.1).resize (subSize m.rxSize count)

/-! ## §2 — `feed` and `consume`. -/

/-- How a pass through the loop of `consume` ends: by leaving it, or at its head again. -/
inductive Pass (σ : Type) where
  | done (m : Machine σ)
  | again (m : Machine σ)

section Loop

variable (receive : ParsedFrame → Codec × σ → Codec × σ)

/-- The end of a pass, for a frame whose CRC is right: the filter, the handler, and the frame off the buffer. -/
def dispatch (payloadSize : Nat) (m : Machine σ) : Machine σ :=
  let frameSize := headerSize + payloadSize + crcSize
  let sequence := m.read 28 4
  let id := sequence.2.read 12 16
  if Uuid.ofBytes id.1 ≠ m.fields.1.transactionId ∨ leNat sequence.1 ≤ m.fields.1.lastReceivedSequence then
    id.2.discardPrefix frameSize
  else
    let type := id.2.read 5 1
    let payload := type.2.read headerSize payloadSize
    let copied := payload.2.read 12 16
    let frame : ParsedFrame :=
      ⟨⟨type.1.getD 0 0⟩, Uuid.ofBytes copied.1, leNat sequence.1, payload.1⟩
    let fields := receive frame
      ({ m.fields.1 with lastReceivedSequence := leNat sequence.1 }, m.fields.2)
    { copied.2 with fields := fields }.discardPrefix frameSize

/-- One pass through the loop of `consume`, with every access to the buffer noted in the order of the source. -/
def pass (m : Machine σ) : Pass σ :=
  if m.rxSize < magic.length then .done m
  else
    let head := m.read 0 magic.length
    if head.1 ≠ magic then .again (head.2.discardPrefix 1)
    else if m.rxSize < headerSize then .done head.2
    else
      let frameVersion := head.2.read 4 1
      let flags := frameVersion.2.read 6 2
      let size := flags.2.read 8 4
      let payloadSize := leNat size.1
      if frameVersion.1 ≠ [version] ∨ leNat flags.1 ≠ 0 ∨ maxPayload < payloadSize then
        .again (size.2.discardPrefix magic.length)
      else if m.rxSize < headerSize + payloadSize + crcSize then .done size.2
      else
        let expected := size.2.read (headerSize + payloadSize) 4
        let body := expected.2.read 0 (headerSize + payloadSize)
        if (crc32 body.1).toNat ≠ leNat expected.1 then .again (body.2.discardPrefix magic.length)
        else .again (dispatch receive payloadSize body.2)

/-- `consume`, cut off (`none`) after `n` passes; the source has no such bound. -/
def consume : Nat → Machine σ → Option (Machine σ)
  | 0, _ => none
  | n + 1, m =>
      match pass receive m with
      | .done m => some m
      | .again m => consume n m

/-- `feed`; its loop may take `maxFrame + 1` passes, one more than there can be bytes. -/
def feed (bytes : Bytes) (m : Machine σ) : Option (Machine σ) :=
  if subSize maxFrame m.rxSize < bytes.length then some (m.resize 0)
  else
    let m := m.copyTo m.rxSize bytes
    consume receive (maxFrame + 1) (m.resize (addSize m.rxSize bytes.length))

/-- What the owner of a codec does with it: feed it, or anything that leaves the array alone. -/
inductive Call (σ : Type) where
  | feed (bytes : Bytes)
  /-- Anything else: `send`, `setTransaction`, work of its own. -/
  | other (change : Codec × σ → Codec × σ)

def call : Call σ → Machine σ → Option (Machine σ)
  | .feed bytes, m => feed receive bytes m
  | .other change, m => some { m with fields := change m.fields }

/-- Calls, one after the other. -/
def calls : List (Call σ) → Machine σ → Option (Machine σ)
  | [], m => some m
  | c :: cs, m => (call receive c m).bind (calls cs)

end Loop

/-! ## §3 — bounds. -/

/-- All notes are in bounds, and the size is: the invariant of the machine. -/
structure Bounded (m : Machine σ) : Prop where
  size : m.rxSize ≤ maxFrame
  log : ∀ a ∈ m.log, a.InBounds

/-- The bytes left after `feed`: too few to tell, or the beginning of one frame, which is why the next chunk
has room. -/
def Settled (m : Machine σ) : Prop :=
  m.rxSize < magic.length ∨ m.bytesAt 0 magic.length = magic ∧
    (m.rxSize < headerSize ∨ leNat (m.bytesAt 8 4) ≤ maxPayload ∧
      m.rxSize < headerSize + leNat (m.bytesAt 8 4) + crcSize)

@[simp] theorem note_rxSize (a : Access) (m : Machine σ) : (m.note a).rxSize = m.rxSize := rfl
@[simp] theorem read_fst (m : Machine σ) (first count : Nat) :
    (m.read first count).1 = m.bytesAt first count := rfl
@[simp] theorem read_rx (m : Machine σ) (first count : Nat) : (m.read first count).2.rx = m.rx := rfl
@[simp] theorem read_rxSize (m : Machine σ) (first count : Nat) :
    (m.read first count).2.rxSize = m.rxSize := rfl
@[simp] theorem read_fields (m : Machine σ) (first count : Nat) :
    (m.read first count).2.fields = m.fields := rfl
@[simp] theorem bytesAt_read (m : Machine σ) (first count i n : Nat) :
    (m.read first count).2.bytesAt i n = m.bytesAt i n := rfl

theorem length_bytesAt (m : Machine σ) (first count : Nat) : (m.bytesAt first count).length = count := by
  rw [bytesAt, List.length_map, List.length_range]

theorem Bounded.note {m : Machine σ} (h : m.Bounded) {a : Access} (ha : a.InBounds) :
    (m.note a).Bounded := by
  refine ⟨h.size, ?_⟩
  intro b hb
  rcases List.mem_append.mp hb with hb | hb
  · exact h.log b hb
  · rw [List.mem_singleton.mp hb]
    exact ha

theorem Bounded.read {m : Machine σ} (h : m.Bounded) (first count : Nat)
    (hr : first + count ≤ m.rxSize) : (m.read first count).2.Bounded := h.note hr

theorem Bounded.copyTo {m : Machine σ} (h : m.Bounded) (first : Nat) {bytes : Bytes}
    (hw : first + bytes.length ≤ maxFrame) : (m.copyTo first bytes).Bounded :=
  ⟨h.size, (h.note (a := .write first bytes.length) hw).log⟩

theorem Bounded.resize {m : Machine σ} (h : m.Bounded) {size : Nat} (hs : size ≤ maxFrame) :
    (m.resize size).Bounded :=
  ⟨hs, (h.note (a := .resize size) hs).log⟩

theorem Bounded.withFields {m : Machine σ} (h : m.Bounded) (fields : Codec × σ) :
    Bounded { m with fields := fields } :=
  ⟨h.size, h.log⟩

theorem discardPrefix_rxSize {m : Machine σ} (h : m.Bounded) {count : Nat} (hc : count ≤ m.rxSize) :
    (m.discardPrefix count).rxSize = m.rxSize - count :=
  subSize_eq (lt_of_le_of_lt h.size maxFrame_lt) hc

/-- **A discard of no more than there is stays in bounds.** -/
theorem Bounded.discardPrefix {m : Machine σ} (h : m.Bounded) {count : Nat} (hc : count ≤ m.rxSize) :
    (m.discardPrefix count).Bounded := by
  have hsize := h.size
  have hnoted : (m.note (.discard count m.rxSize)).Bounded := h.note hc
  have hread : ((m.note (.discard count m.rxSize)).read count (m.rxSize - count)).2.Bounded := by
    apply hnoted.read
    show count + (m.rxSize - count) ≤ m.rxSize
    omega
  refine (hread.copyTo 0 ?_).resize ?_
  · rw [read_fst, length_bytesAt]
    omega
  · rw [subSize_eq (lt_of_le_of_lt hsize maxFrame_lt) hc]
    omega

section Loop

variable (receive : ParsedFrame → Codec × σ → Codec × σ)

/-- What a pass may do to the bounds: leave the loop with them and with a settled buffer, or come back with
them and fewer bytes. -/
def Pass.Bounded (m : Machine σ) : Pass σ → Prop
  | .done m' => m'.Bounded ∧ m'.Settled
  | .again m' => m'.Bounded ∧ m'.rxSize < m.rxSize

/-- Every discard of a pass keeps the bounds, and takes something off. -/
theorem discarded_bounded {m m' : Machine σ} (h : m'.Bounded) (hsize : m'.rxSize = m.rxSize) {count : Nat}
    (hpos : 0 < count) (hc : count ≤ m.rxSize) : Pass.Bounded m (.again (m'.discardPrefix count)) := by
  have hle : count ≤ m'.rxSize := by rw [hsize]; exact hc
  refine ⟨h.discardPrefix hle, ?_⟩
  rw [discardPrefix_rxSize h hle, hsize]
  omega

theorem dispatch_bounded {m m' : Machine σ} (h : m'.Bounded) (hsize : m'.rxSize = m.rxSize)
    {payloadSize : Nat} (hframe : headerSize + payloadSize + crcSize ≤ m.rxSize) :
    Pass.Bounded m (.again (dispatch receive payloadSize m')) := by
  have hh : headerSize = 32 := rfl
  have hseq : (m'.read 28 4).2.Bounded := h.read _ _ (by omega)
  have hid : ((m'.read 28 4).2.read 12 16).2.Bounded := hseq.read _ _ (by rw [read_rxSize]; omega)
  unfold dispatch
  simp only
  split
  · exact discarded_bounded hid hsize (by omega) hframe
  · have htype := hid.read 5 1 (by simp only [read_rxSize]; omega)
    have hpayload := htype.read headerSize payloadSize
      (by simp only [read_rxSize]; omega)
    have hcopied := hpayload.read 12 16 (by simp only [read_rxSize]; omega)
    exact discarded_bounded (hcopied.withFields _) hsize (by omega) hframe

/-- **What a pass preserves**, by the cases in which the source leaves or repeats the loop. -/
theorem pass_bounded {m : Machine σ} (h : m.Bounded) : Pass.Bounded m (pass receive m) := by
  have hh : headerSize = 32 := rfl
  have hmlen : magic.length = 4 := rfl
  unfold pass
  simp only
  split
  · rename_i hshort
    exact ⟨h, Or.inl hshort⟩
  · rename_i hshort
    have hhead : (m.read 0 magic.length).2.Bounded := h.read _ _ (by omega)
    split
    · exact discarded_bounded (m := m) hhead rfl (by omega) (by omega)
    · rename_i hmagic
      rw [ne_eq, not_not] at hmagic
      split
      · rename_i hheader
        exact ⟨hhead, Or.inr ⟨hmagic, Or.inl hheader⟩⟩
      · rename_i hheader
        -- the header is there: its fields are read at fixed places
        have hversion := hhead.read 4 1 (by simp only [read_rxSize]; omega)
        have hflags := hversion.read 6 2 (by simp only [read_rxSize]; omega)
        have hsize := hflags.read 8 4 (by simp only [read_rxSize]; omega)
        split
        · exact discarded_bounded (m := m) hsize rfl (by omega) (by omega)
        · rename_i hfields
          split
          · rename_i hframe
            refine ⟨hsize, Or.inr ⟨hmagic, Or.inr ⟨?_, hframe⟩⟩⟩
            simp only [not_or] at hfields
            exact Nat.le_of_not_lt hfields.2.2
          · rename_i hframe
            -- the declared frame is there: nothing behind it is read
            have hc : crcSize = 4 := rfl
            have hexpected := hsize.read (headerSize + leNat (m.bytesAt 8 4)) 4
              (by simp only [read_rxSize, read_fst, bytesAt_read] at hframe ⊢; omega)
            have hbody := hexpected.read 0 (headerSize + leNat (m.bytesAt 8 4))
              (by simp only [read_rxSize, read_fst, bytesAt_read] at hframe ⊢; omega)
            split
            · exact discarded_bounded (m := m) hbody rfl (by omega) (by omega)
            · exact dispatch_bounded receive (m := m) hbody rfl (Nat.le_of_not_lt hframe)

/-- **The loop ends**, within as many passes as there are bytes and one. -/
theorem consume_bounded {n : Nat} {m : Machine σ} (h : m.Bounded) (hn : m.rxSize < n) :
    ∃ m', consume receive n m = some m' ∧ m'.Bounded ∧ m'.Settled := by
  induction n generalizing m with
  | zero => exact absurd hn (Nat.not_lt_zero _)
  | succ n ih =>
      have hpass := pass_bounded receive h
      rw [consume]
      cases hp : pass receive m with
      | done m' =>
          rw [hp] at hpass
          exact ⟨m', rfl, hpass⟩
      | again m' =>
          rw [hp] at hpass
          exact ih hpass.1 (by have := hpass.2; omega)

theorem feed_bounded {m : Machine σ} (h : m.Bounded) (bytes : Bytes) :
    ∃ m', feed receive bytes m = some m' ∧ m'.Bounded ∧ m'.Settled := by
  have hsize := h.size
  have hroom : subSize maxFrame m.rxSize = maxFrame - m.rxSize := subSize_eq maxFrame_lt hsize
  rw [feed, hroom]
  split
  · refine ⟨m.resize 0, rfl, h.resize (Nat.zero_le _), Or.inl ?_⟩
    show 0 < magic.length
    decide
  · rename_i hfits
    have hlt := maxFrame_lt
    have hsum : addSize (m.copyTo m.rxSize bytes).rxSize bytes.length = m.rxSize + bytes.length :=
      addSize_eq (show m.rxSize + bytes.length < 2 ^ 32 by omega)
    have hcopied : (m.copyTo m.rxSize bytes).Bounded := h.copyTo _ (by omega)
    simp only [hsum]
    exact consume_bounded receive (hcopied.resize (by omega)) (show m.rxSize + bytes.length < maxFrame + 1 by omega)

theorem calls_bounded {m : Machine σ} (h : m.Bounded) (hs : m.Settled) (cs : List (Call σ)) :
    ∃ m', calls receive cs m = some m' ∧ m'.Bounded ∧ m'.Settled := by
  induction cs generalizing m with
  | nil => exact ⟨m, rfl, h, hs⟩
  | cons c cs ih =>
      cases c with
      | feed bytes =>
          obtain ⟨m', hm', hb, hs'⟩ := feed_bounded receive h bytes
          rw [calls, call, hm', Option.bind_some]
          exact ih hb hs'
      | other change =>
          rw [calls, call, Option.bind_some]
          exact ih (h.withFields _) hs

/-- **The codec stays in its buffer.**  For every sequence of feeds, of any bytes in chunks of any size, with
anything else the owner does between them: every feed returns, `m_rxSize` never exceeds `maxFrame`, every
read lies below it, no discard takes more than there is, and on return the buffer holds fewer than four
bytes, or begins with the magic and is shorter than its header or than the frame it declares. -/
theorem feeds_bounded (receive : ParsedFrame → Codec × σ → Codec × σ) (fields : Codec × σ)
    (cs : List (Call σ)) :
    ∃ m, calls receive cs (start fields) = some m ∧ m.rxSize ≤ maxFrame ∧ (∀ a ∈ m.log, a.InBounds) ∧
      m.Settled := by
  have hstart : (start fields).Bounded := ⟨Nat.zero_le _, by simp [start]⟩
  have hsettled : (start fields).Settled := Or.inl (show 0 < magic.length by decide)
  obtain ⟨m, hm, hb, hs⟩ := calls_bounded receive hstart hsettled cs
  exact ⟨m, hm, hb.size, hb.log, hs⟩

end Loop

/-! ## §4 — the list of `Firmware.Codec`. -/

/-- The used part of the buffer; the memory behind it may hold anything. -/
def used (m : Machine σ) : Bytes := m.bytesAt 0 m.rxSize

/-- The codec of `Firmware.Codec` that the machine stands for: the part of the array in use, as a list. -/
def codec (m : Machine σ) : Codec × σ := Codec.withRx m.used m.fields

theorem length_used (m : Machine σ) : m.used.length = m.rxSize := m.length_bytesAt 0 _

theorem getElem?_bytesAt (m : Machine σ) (first count i : Nat) :
    (m.bytesAt first count)[i]? = if i < count then some (m.rx (first + i)) else none := by
  rw [bytesAt, List.getElem?_map]
  by_cases hi : i < count
  · rw [List.getElem?_range hi, if_pos hi]
    rfl
  · rw [if_neg hi, List.getElem?_eq_none (by rw [List.length_range]; omega)]
    rfl

/-- A range below the size is a slice of the list. -/
theorem slice_used {m : Machine σ} {i n : Nat} (h : i + n ≤ m.rxSize) :
    slice m.used i (i + n) = m.bytesAt i n := by
  apply List.ext_getElem?
  intro k
  have hn : i + n - i = n := by omega
  rw [slice, hn, List.getElem?_take, List.getElem?_drop, used, getElem?_bytesAt, getElem?_bytesAt]
  by_cases hk : k < n
  · rw [if_pos hk, if_pos (by omega), if_pos hk, Nat.zero_add]
  · rw [if_neg hk, if_neg hk]

theorem take_used {m : Machine σ} {n : Nat} (h : n ≤ m.rxSize) : m.used.take n = m.bytesAt 0 n := by
  have hslice := slice_used (m := m) (i := 0) (n := n) (by omega)
  rwa [slice, List.drop_zero, Nat.zero_add, Nat.sub_zero] at hslice

theorem getD_used {m : Machine σ} {i : Nat} (h : i < m.rxSize) : m.used.getD i 0 = m.rx i := by
  rw [List.getD_eq_getElem?_getD, used, getElem?_bytesAt, if_pos h, Nat.zero_add]
  rfl

/-- A discard drops the beginning of the list. -/
theorem used_discardPrefix {m : Machine σ} (h : m.Bounded) {count : Nat} (hc : count ≤ m.rxSize) :
    (m.discardPrefix count).used = m.used.drop count := by
  apply List.ext_getElem?
  intro k
  rw [used, used, getElem?_bytesAt, List.getElem?_drop, getElem?_bytesAt, discardPrefix_rxSize h hc]
  by_cases hk : k < m.rxSize - count
  · rw [if_pos hk, if_pos (by omega)]
    show some (if 0 ≤ 0 + k ∧ 0 + k < 0 + (m.bytesAt count (m.rxSize - count)).length
      then (m.bytesAt count (m.rxSize - count)).getD (0 + k - 0) 0 else m.rx (0 + k)) = _
    rw [length_bytesAt, if_pos (by omega), List.getD_eq_getElem?_getD, getElem?_bytesAt, if_pos (by omega)]
    simp
  · rw [if_neg hk, if_neg (by omega)]

/-- What is fed goes behind the list. -/
theorem used_fed {m : Machine σ} {bytes : Bytes} :
    ((m.copyTo m.rxSize bytes).resize (m.rxSize + bytes.length)).used = m.used ++ bytes := by
  apply List.ext_getElem?
  intro k
  rw [used, getElem?_bytesAt]
  show (if k < m.rxSize + bytes.length then some (if m.rxSize ≤ 0 + k ∧ 0 + k < m.rxSize + bytes.length
    then bytes.getD (0 + k - m.rxSize) 0 else m.rx (0 + k)) else none) = _
  by_cases hk : k < m.rxSize
  · rw [List.getElem?_append_left (by rw [length_used]; exact hk), if_pos (by omega), if_neg (by omega), used,
      getElem?_bytesAt, if_pos hk]
  · rw [List.getElem?_append_right (by rw [length_used]; omega), length_used]
    by_cases hin : k < m.rxSize + bytes.length
    · rw [if_pos hin, if_pos (by omega), Nat.zero_add, List.getD_eq_getElem?_getD,
        List.getElem?_eq_getElem (show k - m.rxSize < bytes.length by omega)]
      rfl
    · rw [if_neg hin, List.getElem?_eq_none (by omega)]

section Refinement

variable {receive : ParsedFrame → Codec × σ → Codec × σ}

/-- What a pass of the loop is, one level up: a pass over the list that comes to the same codec. -/
def Pass.Refines (receive : ParsedFrame → Codec × σ → Codec × σ) (m : Machine σ) : Pass σ → Prop
  | .done m' => Codec.turn m.used = .wait m.used ∧ m'.codec = m.codec
  | .again m' =>
      (∃ rest, Codec.turn m.used = .skip rest ∧ m'.codec = Codec.withRx rest m.codec) ∨
        ∃ frame rest, Codec.turn m.used = .emit frame rest ∧
          m'.codec = Codec.withRx rest (Codec.deliver receive frame m.codec)

theorem codec_discardPrefix {m m' : Machine σ} (h : m'.Bounded) (hrx : m'.rx = m.rx)
    (hsize : m'.rxSize = m.rxSize) {count : Nat} (hc : count ≤ m.rxSize) :
    (m'.discardPrefix count).codec = Codec.withRx (m.used.drop count) m'.fields := by
  have hused : m'.used = m.used := by
    rw [used, used, bytesAt, bytesAt, hrx, hsize]
  rw [codec, used_discardPrefix h (by rw [hsize]; exact hc), hused]
  rfl

theorem dispatch_refines (hl : Codec.Local receive) {m m' : Machine σ} (h : m'.Bounded) (hrx : m'.rx = m.rx)
    (hsize : m'.rxSize = m.rxSize) (hfields : m'.fields = m.fields) {payloadSize : Nat}
    (hframe : headerSize + payloadSize + crcSize ≤ m.rxSize) :
    (dispatch receive payloadSize m').codec =
      Codec.withRx (m.used.drop (headerSize + payloadSize + crcSize))
        (Codec.deliver receive ⟨⟨m.used.getD 5 0⟩, Uuid.ofBytes (slice m.used 12 28), Codec.read32 m.used 28,
          slice m.used headerSize (headerSize + payloadSize)⟩ m.codec) := by
  have hh : headerSize = 32 := rfl
  have hat : ∀ i n, m'.bytesAt i n = m.bytesAt i n := by
    intro i n
    rw [bytesAt, bytesAt, hrx]
  have hseq : Codec.read32 m.used 28 = leNat (m.bytesAt 28 4) := by
    rw [Codec.read32, slice_used (by omega)]
  have hid : slice m.used 12 28 = m.bytesAt 12 16 := slice_used (i := 12) (n := 16) (by omega)
  have hpayload : slice m.used headerSize (headerSize + payloadSize) = m.bytesAt headerSize payloadSize :=
    slice_used (by omega)
  have htype : (m.bytesAt 5 1).getD 0 0 = m.used.getD 5 0 := by
    rw [getD_used (by omega)]
    rfl
  have hseqread := h.read 28 4 (by omega)
  have hidread := hseqread.read 12 16 (by rw [read_rxSize]; omega)
  rw [show m.codec = Codec.withRx m.used m.fields from rfl, Codec.deliver_withRx hl, hseq, hid, hpayload]
  unfold dispatch Codec.deliver
  simp only [read_fst, bytesAt_read, hat, hfields, htype]
  split
  · rw [codec_discardPrefix (m := m) hidread hrx hsize hframe, read_fields, read_fields, hfields]
    rfl
  · have htyperead := hidread.read 5 1 (by simp only [read_rxSize]; omega)
    have hpayread := htyperead.read headerSize payloadSize (by simp only [read_rxSize]; omega)
    have hcopyread := hpayread.read 12 16 (by simp only [read_rxSize]; omega)
    rw [codec_discardPrefix (m := m) (hcopyread.withFields _) hrx hsize hframe]
    rfl

/-- A turn, read off the memory: the fields are where the list has them. -/
theorem turn_used (m : Machine σ) :
    Codec.turn m.used =
      if m.rxSize < magic.length then .wait m.used
      else if m.bytesAt 0 magic.length ≠ magic then .skip (m.used.drop 1)
      else if m.rxSize < headerSize then .wait m.used
      else if m.bytesAt 4 1 ≠ [version] ∨ leNat (m.bytesAt 6 2) ≠ 0 ∨ maxPayload < leNat (m.bytesAt 8 4) then
        .skip (m.used.drop magic.length)
      else if m.rxSize < headerSize + leNat (m.bytesAt 8 4) + crcSize then .wait m.used
      else if (crc32 (m.bytesAt 0 (headerSize + leNat (m.bytesAt 8 4)))).toNat ≠
          leNat (m.bytesAt (headerSize + leNat (m.bytesAt 8 4)) 4) then .skip (m.used.drop magic.length)
      else
        .emit ⟨⟨m.used.getD 5 0⟩, Uuid.ofBytes (slice m.used 12 28), Codec.read32 m.used 28,
            slice m.used headerSize (headerSize + leNat (m.bytesAt 8 4))⟩
          (m.used.drop (headerSize + leNat (m.bytesAt 8 4) + crcSize)) := by
  have hh : headerSize = 32 := rfl
  have hc : crcSize = 4 := rfl
  have hlen : m.used.length = m.rxSize := m.length_used
  simp only [Codec.turn, hlen]
  by_cases hshort : m.rxSize < magic.length
  · rw [if_pos hshort, if_pos hshort]
  rw [if_neg hshort, if_neg hshort, take_used (by omega)]
  by_cases hmagic : m.bytesAt 0 magic.length ≠ magic
  · rw [if_pos hmagic, if_pos hmagic]
  rw [if_neg hmagic, if_neg hmagic]
  by_cases hheader : m.rxSize < headerSize
  · rw [if_pos hheader, if_pos hheader]
  rw [if_neg hheader, if_neg hheader]
  have hversion : m.used.getD 4 0 ≠ version ↔ m.bytesAt 4 1 ≠ [version] := by
    rw [getD_used (by omega)]
    show m.rx 4 ≠ version ↔ [m.rx (4 + 0)] ≠ [version]
    simp
  have hflags : Codec.read16 m.used 6 = leNat (m.bytesAt 6 2) := by
    rw [Codec.read16, slice_used (by omega)]
  have hsize : Codec.read32 m.used 8 = leNat (m.bytesAt 8 4) := by
    rw [Codec.read32, slice_used (by omega)]
  simp only [hversion, hflags, hsize]
  split
  · rfl
  by_cases hframe : m.rxSize < headerSize + leNat (m.bytesAt 8 4) + crcSize
  · rw [if_pos hframe, if_pos hframe]
  have hexpected : Codec.read32 m.used (headerSize + leNat (m.bytesAt 8 4)) =
      leNat (m.bytesAt (headerSize + leNat (m.bytesAt 8 4)) 4) := by
    rw [Codec.read32, slice_used (by omega)]
  have hbody : slice m.used 0 (headerSize + leNat (m.bytesAt 8 4)) =
      m.bytesAt 0 (headerSize + leNat (m.bytesAt 8 4)) := by
    rw [slice, List.drop_zero, Nat.sub_zero, take_used (by omega)]
  rw [if_neg hframe, if_neg hframe, hexpected, hbody]

/-- **A pass refines a turn**: it waits, skips or delivers what the turn on the used part does. -/
theorem pass_refines (hl : Codec.Local receive) {m : Machine σ} (h : m.Bounded) :
    Pass.Refines receive m (pass receive m) := by
  have hh : headerSize = 32 := rfl
  have hc : crcSize = 4 := rfl
  have hmlen : magic.length = 4 := rfl
  unfold pass
  simp only
  split
  · rename_i hshort
    exact ⟨by rw [turn_used, if_pos hshort], rfl⟩
  rename_i hshort
  have hhead : (m.read 0 magic.length).2.Bounded := h.read _ _ (by omega)
  split
  · rename_i hmagic
    rw [read_fst] at hmagic
    refine Or.inl ⟨m.used.drop 1, ?_, codec_discardPrefix (m := m) hhead rfl rfl (by omega)⟩
    rw [turn_used, if_neg hshort, if_pos hmagic]
  rename_i hmagic
  rw [read_fst] at hmagic
  split
  · rename_i hheader
    exact ⟨by rw [turn_used, if_neg hshort, if_neg hmagic, if_pos hheader], rfl⟩
  rename_i hheader
  have hversion := hhead.read 4 1 (by simp only [read_rxSize]; omega)
  have hflags := hversion.read 6 2 (by simp only [read_rxSize]; omega)
  have hsize := hflags.read 8 4 (by simp only [read_rxSize]; omega)
  split
  · rename_i hfields
    simp only [read_fst, bytesAt_read] at hfields
    refine Or.inl ⟨m.used.drop magic.length, ?_, codec_discardPrefix (m := m) hsize rfl rfl (by omega)⟩
    rw [turn_used, if_neg hshort, if_neg hmagic, if_neg hheader, if_pos hfields]
  rename_i hfields
  simp only [read_fst, bytesAt_read] at hfields
  split
  · rename_i hframe
    simp only [read_fst, bytesAt_read] at hframe
    exact ⟨by rw [turn_used, if_neg hshort, if_neg hmagic, if_neg hheader, if_neg hfields, if_pos hframe], rfl⟩
  rename_i hframe
  simp only [read_fst, bytesAt_read] at hframe
  have hexpected := hsize.read (headerSize + leNat (m.bytesAt 8 4)) 4 (by simp only [read_rxSize]; omega)
  have hbody := hexpected.read 0 (headerSize + leNat (m.bytesAt 8 4)) (by simp only [read_rxSize]; omega)
  split
  · rename_i hcrc
    simp only [read_fst, bytesAt_read] at hcrc
    refine Or.inl ⟨m.used.drop magic.length, ?_, codec_discardPrefix (m := m) hbody rfl rfl (by omega)⟩
    rw [turn_used, if_neg hshort, if_neg hmagic, if_neg hheader, if_neg hfields, if_neg hframe, if_pos hcrc]
  · rename_i hcrc
    simp only [read_fst, bytesAt_read] at hcrc
    refine Or.inr ⟨_, _, ?_, dispatch_refines (m := m) hl hbody rfl rfl rfl (Nat.le_of_not_lt hframe)⟩
    rw [turn_used, if_neg hshort, if_neg hmagic, if_neg hheader, if_neg hfields, if_neg hframe, if_neg hcrc]
    simp only [read_fst, bytesAt_read]

/-- The loop refines the loop, with at least as many passes as bytes and one on the other side. -/
theorem consume_refines (hl : Codec.Local receive) {n k : Nat} {m m' : Machine σ} (h : m.Bounded)
    (hm : consume receive n m = some m') (hk : m.rxSize < k) :
    Codec.consume receive k m.codec = m'.codec := by
  induction n generalizing m k with
  | zero => cases hm
  | succ n ih =>
      cases k with
      | zero => exact absurd hk (Nat.not_lt_zero _)
      | succ k =>
          have hpass := pass_bounded receive h
          have hrefines := pass_refines hl h
          have hrx : m.codec.1.rx = m.used := rfl
          rw [consume] at hm
          rw [Codec.consume, hrx]
          cases hp : pass receive m with
          | done next =>
              rw [hp] at hm hrefines
              rw [hrefines.1]
              rw [← Option.some.inj hm]
              exact hrefines.2.symm
          | again next =>
              rw [hp] at hm hrefines hpass
              have hnext : next.rxSize < k := by
                have := hpass.2
                omega
              have hrest := ih hpass.1 hm hnext
              rcases hrefines with ⟨rest, hturn, hcodec⟩ | ⟨frame, rest, hturn, hcodec⟩
              · rw [hturn, ← hrest, hcodec]
                rfl
              · rw [hturn, ← hrest, hcodec]
                rfl

/-- **`feed` on memory is `feed` on the list**, for a handler that does not reach into the buffer. -/
theorem feed_refines (hl : Codec.Local receive) {m m' : Machine σ} (h : m.Bounded) {bytes : Bytes}
    (hm : feed receive bytes m = some m') : Codec.feed receive bytes m.codec = m'.codec := by
  have hsize := h.size
  have hlen : m.codec.1.rx.length = m.rxSize := m.length_used
  rw [feed, subSize_eq maxFrame_lt hsize] at hm
  rw [Codec.feed, hlen]
  split
  · rename_i hbig
    rw [if_pos hbig] at hm
    rw [← Option.some.inj hm]
    rfl
  · rename_i hfits
    rw [if_neg hfits] at hm
    have hlt := maxFrame_lt
    have hsum : addSize (m.copyTo m.rxSize bytes).rxSize bytes.length = m.rxSize + bytes.length :=
      addSize_eq (show m.rxSize + bytes.length < 2 ^ 32 by omega)
    have hcopied : (m.copyTo m.rxSize bytes).Bounded := h.copyTo _ (by omega)
    simp only [hsum] at hm
    have hloop := consume_refines hl (hcopied.resize (by omega)) hm
      (show m.rxSize + bytes.length < (m.codec.1.rx ++ bytes).length + 1 by
        rw [List.length_append, hlen]; omega)
    rw [← hloop]
    show Codec.consume receive _ _ = Codec.consume receive _ (Codec.withRx (used _) _)
    rw [used_fed]
    rfl

end Refinement

end Machine

end TradeBroker.Firmware
