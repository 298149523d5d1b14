/-
# TradeBroker.Firmware.Stream — the codec of the device on a stream of host frames.

The receive buffer is as long as the longest frame, and `feed` empties it when a chunk does not fit
behind what is there.  A chunk that lies inside one frame always fits.  A chunk that holds the end of one
frame and the start of the next may not, and then both are gone: the codec delivers a stream of
acceptable frames EXACTLY when every chunk fits (`delivers_iff_fits`).  That a lost frame cannot be made
good by what follows is a matter of counting bytes (`received_weight`).

`received` is the codec without its owner: which frames pass their CRC depends on the bytes and the cuts
alone, so the filter and the handler can be looked at separately, as a fold over these frames
(`feedAll_eq`).  What is asked of an owner is `Tame`, which the bridge satisfies; what is asked of the
frames is `Acceptable`, which is the filter read as a condition on a list.
-/
import TradeBroker.Firmware.Codec

namespace TradeBroker.Firmware

open Lib
open Gba (magic version headerSize crcSize maxPayload Frame Header)

namespace Codec

/-! ## §1 — what the codec recognises. -/

/-- The frames that pass their CRC in the chunks, and the bytes left in the buffer.  Neither depends on
the handler. -/
def received : List Bytes → Bytes → List ParsedFrame × Bytes
  | [], rx => ([], rx)
  | chunk :: chunks, rx =>
      if maxFrame - rx.length < chunk.length then received chunks []
      else
        let s := scan turn ((rx ++ chunk).length + 1) (rx ++ chunk)
        let r := received chunks s.rest
        (s.found ++ r.1, r.2)

section Receive

variable {σ : Type} {receive : ParsedFrame → Codec × σ → Codec × σ}

/-- **`feed` delivers what is recognised**, chunk by chunk, for every handler that leaves the buffer alone. -/
theorem feedAll_eq (hl : Local receive) (chunks : List Bytes) (s : Codec × σ) :
    feedAll receive chunks s = withRx (received chunks s.1.rx).2
      (deliverAll receive (received chunks s.1.rx).1 s) := by
  induction chunks generalizing s with
  | nil => rfl
  | cons chunk chunks ih =>
      show feedAll receive chunks (feed receive chunk s) = _
      rw [feed, received]
      split
      · show feedAll receive chunks (withRx [] s) = _
        rw [ih]
        show withRx _ (deliverAll receive (received chunks []).1 (withRx [] s)) = _
        rw [deliverAll_withRx hl]
        rfl
      · show feedAll receive chunks (consume receive _ (withRx (s.1.rx ++ chunk) s)) = _
        rw [consume_eq hl, ih]
        show withRx (received chunks (scan turn _ (s.1.rx ++ chunk)).rest).2
          (deliverAll receive (received chunks (scan turn _ (s.1.rx ++ chunk)).rest).1 (withRx _
            (deliverAll receive (scan turn _ (s.1.rx ++ chunk)).found (withRx _ s)))) = _
        rw [deliverAll_withRx hl, deliverAll_withRx hl, deliverAll_withRx hl]
        simp only [deliverAll, List.foldl_append]
        rfl

/-- Some call of `feed` finds the buffer too full and empties it; the frame under way is lost, and so is the
chunk. -/
def overflows (receive : ParsedFrame → Codec × σ → Codec × σ) : List Bytes → Codec × σ → Bool
  | [], _ => false
  | chunk :: chunks, s =>
      decide (maxFrame - s.1.rx.length < chunk.length) || overflows receive chunks (feed receive chunk s)

end Receive

/-! ## §2 — every byte is used once. -/

/-- The length of the encoding of a frame, its header and its CRC included. -/
def ParsedFrame.weight (frame : ParsedFrame) : Nat := headerSize + frame.payload.length + crcSize

theorem weight_parsed (f : Frame) : ParsedFrame.weight (parsed f) = f.encode.length := by
  rw [f.length_encode]
  rfl

/-- A frame is as long as the bytes that leave the buffer with it, and a skip removes a byte. -/
theorem turn_weight (rx : Bytes) :
    (∀ frame rest, turn rx = .emit frame rest → ParsedFrame.weight frame + rest.length = rx.length) ∧
      ∀ rest, turn rx = .skip rest → rest.length < rx.length := by
  rcases turn_cases rx with hc | ⟨n, hpos, hle, hc⟩ | ⟨size, frame', hle, hpayload, hc⟩
  · rw [hc]
    exact ⟨fun _ _ h => (by cases h), fun _ h => (by cases h)⟩
  · rw [hc]
    refine ⟨fun _ _ h => (by cases h), ?_⟩
    intro rest h
    injection h with h
    rw [← h, List.length_drop]
    omega
  · rw [hc]
    refine ⟨?_, fun _ h => (by cases h)⟩
    intro frame rest h
    injection h with hframe hrest
    rw [← hframe, ← hrest, ParsedFrame.weight, hpayload, length_slice (by omega), List.length_drop]
    omega

def totalWeight (frames : List ParsedFrame) : Nat := (frames.map ParsedFrame.weight).sum

theorem totalWeight_append (as bs : List ParsedFrame) :
    totalWeight (as ++ bs) = totalWeight as + totalWeight bs := by
  simp [totalWeight]

theorem totalWeight_sublist {as bs : List ParsedFrame} (h : as.Sublist bs) :
    totalWeight as ≤ totalWeight bs := by
  induction h with
  | slnil => exact le_refl _
  | cons b _ ih =>
      simp only [totalWeight, List.map_cons, List.sum_cons] at ih ⊢
      omega
  | cons_cons a _ ih =>
      simp only [totalWeight, List.map_cons, List.sum_cons] at ih ⊢
      omega

theorem totalWeight_parsed (fs : List Frame) :
    totalWeight (fs.map parsed) = (wire Frame.encode fs).length := by
  induction fs with
  | nil => rfl
  | cons f fs ih =>
      rw [wire_cons, List.length_append, ← ih, ← weight_parsed]
      simp [totalWeight]

theorem scan_weight (n : Nat) (buf : Bytes) :
    totalWeight (scan turn n buf).found + (scan turn n buf).rest.length ≤ buf.length := by
  induction n generalizing buf with
  | zero => simp [scan, totalWeight]
  | succ n ih =>
      obtain ⟨hemit, hskip⟩ := turn_weight buf
      rw [scan]
      cases ht : turn buf with
      | wait rest =>
          rw [turn_wait ht]
          simp [totalWeight]
      | skip rest =>
          have := hskip rest ht
          have := ih rest
          simp only
          omega
      | emit frame rest =>
          have := hemit frame rest ht
          have := ih rest
          simp only [totalWeight, List.map_cons, List.sum_cons] at this ⊢
          omega
      | fail e rest => exact e.elim

/-- **The frames recognised are no longer than the bytes they were found in**, since every frame was cut out
of the buffer. -/
theorem received_weight (chunks : List Bytes) (rx : Bytes) :
    totalWeight (received chunks rx).1 ≤ rx.length + chunks.flatten.length := by
  induction chunks generalizing rx with
  | nil => simp [received, totalWeight]
  | cons chunk chunks ih =>
      have hlen : (chunk :: chunks).flatten.length = chunk.length + chunks.flatten.length := by
        simp
      rw [received]
      split
      · have := ih []
        simp only [List.length_nil] at this
        omega
      · have hscan := scan_weight ((rx ++ chunk).length + 1) (rx ++ chunk)
        have := ih (scan turn ((rx ++ chunk).length + 1) (rx ++ chunk)).rest
        rw [List.length_append] at hscan this ⊢
        simp only [totalWeight_append]
        omega

/-! ## §3 — streams of frames. -/

/-- A chunk that fits: the frames it completes are found, and the rest stays in the buffer. -/
theorem received_fit {fs : List Frame} {rx chunk : Bytes} {chunks : List Bytes}
    (hw : wire Frame.encode fs = rx ++ (chunk :: chunks).flatten)
    (hfit : rx.length + chunk.length ≤ maxFrame) :
    ∃ rest, received (chunk :: chunks) rx =
        ((arrive Frame.encode (rx.length + chunk.length) fs).1.map parsed ++ (received chunks rest).1,
          (received chunks rest).2) ∧
      rest.length = (arrive Frame.encode (rx.length + chunk.length) fs).2.1 ∧
      wire Frame.encode (arrive Frame.encode (rx.length + chunk.length) fs).2.2 =
        rest ++ chunks.flatten := by
  have hw' : wire Frame.encode fs = (rx ++ chunk) ++ chunks.flatten := by
    rw [hw, List.flatten_cons, List.append_assoc]
  obtain ⟨rest, hscan, hrest, hwire⟩ :=
    scan_stream codec_delimits hw' (Nat.lt_succ_self (rx ++ chunk).length)
  rw [List.length_append] at hscan hrest hwire
  refine ⟨rest, ?_, hrest, hwire⟩
  rw [received, if_neg (by omega), List.length_append, hscan]

/-- **Chunks that fit lose nothing**: each frame is recognised with the chunk that completes it. -/
theorem received_stream {fs : List Frame} {rx : Bytes} {chunks : List Bytes}
    (hw : wire Frame.encode fs = rx ++ chunks.flatten) (hs : Short Frame.encode rx.length fs)
    (hfit : Fits Frame.encode maxFrame rx.length fs chunks) :
    received chunks rx = (fs.map parsed, []) := by
  induction chunks generalizing fs rx with
  | nil =>
      cases fs with
      | nil =>
          have hrx : rx = [] := by simpa [eq_comm] using hw
          rw [hrx]
          rfl
      | cons f fs =>
          have hlen := congrArg List.length hw
          have hf := hs f (by simp)
          simp only [wire_cons, List.length_append, List.flatten_nil, List.length_nil] at hlen
          omega
  | cons chunk chunks ih =>
      obtain ⟨hroom, hfit'⟩ := (fits_cons hs).mp hfit
      obtain ⟨rest, hrec, hrest, hwire⟩ := received_fit hw hroom
      obtain ⟨hsplit, -, hshort⟩ := arrive_spec Frame.encode (rx.length + chunk.length) fs
      rw [← hrest] at hshort hfit'
      rw [hrec, ih hwire hshort hfit', ← List.map_append, ← hsplit]

section Receive

variable {σ : Type} {receive : ParsedFrame → Codec × σ → Codec × σ}

/-- **Chunks that fit never empty the buffer**, whatever the handler does with the frames. -/
theorem overflows_stream (hl : Local receive) {fs : List Frame} {chunks : List Bytes} {s : Codec × σ}
    (hw : wire Frame.encode fs = s.1.rx ++ chunks.flatten) (hs : Short Frame.encode s.1.rx.length fs)
    (hfit : Fits Frame.encode maxFrame s.1.rx.length fs chunks) :
    overflows receive chunks s = false := by
  induction chunks generalizing fs s with
  | nil => rfl
  | cons chunk chunks ih =>
      obtain ⟨hroom, hfit'⟩ := (fits_cons hs).mp hfit
      have hw' : wire Frame.encode fs = (s.1.rx ++ chunk) ++ chunks.flatten := by
        rw [hw, List.flatten_cons, List.append_assoc]
      obtain ⟨rest, hscan, hrest, hwire⟩ :=
        scan_stream codec_delimits hw' (Nat.lt_succ_self (s.1.rx ++ chunk).length)
      obtain ⟨-, -, hshort⟩ := arrive_spec Frame.encode (s.1.rx ++ chunk).length fs
      have hrx : (feed receive chunk s).1.rx = rest := by
        rw [feed, if_neg (by omega)]
        show (consume receive _ (withRx (s.1.rx ++ chunk) s)).1.rx = _
        rw [consume_eq hl]
        show (scan turn _ (s.1.rx ++ chunk)).rest = _
        rw [hscan]
      rw [overflows, Bool.or_eq_false_iff]
      refine ⟨decide_eq_false (by omega), ih (by rw [hrx]; exact hwire) ?_ ?_⟩
      · rw [hrx, hrest]
        exact hshort
      · rw [hrx, hrest, List.length_append]
        exact hfit'

end Receive

/-- A part of a frame fits the buffer, which is as long as the longest frame. -/
theorem short_le {fs : List Frame} {rx tail : Bytes} (hw : wire Frame.encode fs = rx ++ tail)
    (hs : Short Frame.encode rx.length fs) : rx.length ≤ maxFrame := by
  cases fs with
  | nil =>
      have hrx : rx = [] := by
        have : rx = [] ∧ tail = [] := by simpa [eq_comm] using hw
        exact this.1
      rw [hrx]
      exact Nat.zero_le _
  | cons f fs =>
      have hf := hs f (by simp)
      have hpay := f.payload_le
      rw [f.length_encode] at hf
      unfold maxFrame
      omega

/-- **A chunk that does not fit costs bytes that no later frame makes good**, so fewer frames are recognised
than were sent. -/
theorem received_overflow {fs : List Frame} {rx : Bytes} {chunks : List Bytes}
    (hw : wire Frame.encode fs = rx ++ chunks.flatten) (hs : Short Frame.encode rx.length fs)
    (hfit : ¬ Fits Frame.encode maxFrame rx.length fs chunks) :
    totalWeight (received chunks rx).1 < rx.length + chunks.flatten.length := by
  induction chunks generalizing fs rx with
  | nil => exact absurd (fits_nil _ _ _ _) hfit
  | cons chunk chunks ih =>
      by_cases hroom : rx.length + chunk.length ≤ maxFrame
      · obtain ⟨rest, hrec, hrest, hwire⟩ := received_fit hw hroom
        obtain ⟨hsplit, hbytes, hshort⟩ := arrive_spec Frame.encode (rx.length + chunk.length) fs
        rw [← hrest] at hshort
        have hlater := ih hwire hshort (by
          intro h
          rw [hrest] at h
          exact hfit ((fits_cons hs).mpr ⟨hroom, h⟩))
        rw [hrec, totalWeight_append, totalWeight_parsed, List.flatten_cons, List.length_append]
        omega
      · -- the buffer and the chunk are dropped
        have hlater := received_weight chunks []
        have hrx := short_le hw hs
        rw [received, if_pos (by omega), List.flatten_cons, List.length_append]
        simp only [List.length_nil] at hlater
        omega

/-! ## §4 — the deliveries. -/

section Deliveries

variable {σ : Type} {receive : ParsedFrame → Codec × σ → Codec × σ}

/-- The handler, and a list of the frames it was called with, which is kept beside the owner. -/
def logged (receive : ParsedFrame → Codec × σ → Codec × σ) (frame : ParsedFrame)
    (s : Codec × σ × List ParsedFrame) : Codec × σ × List ParsedFrame :=
  let r := receive frame (s.1, s.2.1)
  (r.1, r.2, s.2.2 ++ [frame])

/-- The handler does not call `feed`, does not go to another transaction and does not raise the last
sequence.  It may send, and it may start the transaction of its frame afresh. -/
structure Tame (receive : ParsedFrame → Codec × σ → Codec × σ) : Prop where
  rx : Local receive
  transaction : ∀ frame s, frame.transactionId = s.1.transactionId →
    (receive frame s).1.transactionId = s.1.transactionId
  last : ∀ frame s, (receive frame s).1.lastReceivedSequence ≤ s.1.lastReceivedSequence

theorem logged_local (hl : Local receive) : Local (logged receive) := by
  intro frame s rx
  have h := hl frame (s.1, s.2.1) rx
  show ((receive frame (withRx rx (s.1, s.2.1))).1, (receive frame (withRx rx (s.1, s.2.1))).2,
    s.2.2 ++ [frame]) = _
  rw [h]
  rfl

/-- The frames acceptable to a codec: of its transaction, in order and new, so that the filter lets each of
them pass. -/
structure Acceptable (c : Codec) (frames : List ParsedFrame) : Prop where
  transaction : ∀ frame ∈ frames, frame.transactionId = c.transactionId
  increasing : frames.Pairwise fun a b => a.sequence < b.sequence
  fresh : ∀ frame ∈ frames, c.lastReceivedSequence < frame.sequence

/-- **Acceptable frames are all handed over, in order**: a tame handler keeps the filter below the next one. -/
theorem deliverAll_acceptable (hr : Tame receive) {frames : List ParsedFrame}
    {s : Codec × σ × List ParsedFrame} (ha : Acceptable s.1 frames) :
    (deliverAll (logged receive) frames s).2.2 = s.2.2 ++ frames := by
  induction frames generalizing s with
  | nil => simp [deliverAll]
  | cons frame frames ih =>
      have hid := ha.transaction frame (by simp)
      have hnew := ha.fresh frame (by simp)
      obtain ⟨hlater, hrest⟩ := List.pairwise_cons.mp ha.increasing
      have hstep : deliver (logged receive) frame s =
          logged receive frame ({ s.1 with lastReceivedSequence := frame.sequence }, s.2) := by
        rw [deliver, if_neg]
        rintro (h | h)
        · exact h hid
        · omega
      show (deliverAll (logged receive) frames (deliver (logged receive) frame s)).2.2 = _
      rw [hstep, ih]
      · show (s.2.2 ++ [frame]) ++ frames = _
        rw [List.append_assoc, List.singleton_append]
      · have hkeep := hr.transaction frame ({ s.1 with lastReceivedSequence := frame.sequence }, s.2.1) hid
        have hlast := hr.last frame ({ s.1 with lastReceivedSequence := frame.sequence }, s.2.1)
        refine ⟨?_, hrest, ?_⟩
        · intro f hf
          exact (ha.transaction f (by simp [hf])).trans hkeep.symm
        · intro f hf
          exact lt_of_le_of_lt hlast (hlater f hf)

/-- Only frames that were recognised are handed over, each once and in order. -/
theorem deliverAll_sublist (receive : ParsedFrame → Codec × σ → Codec × σ)
    (frames : List ParsedFrame) (s : Codec × σ × List ParsedFrame) :
    ∃ handed, handed.Sublist frames ∧
      (deliverAll (logged receive) frames s).2.2 = s.2.2 ++ handed := by
  induction frames generalizing s with
  | nil => exact ⟨[], List.Sublist.slnil, by simp [deliverAll]⟩
  | cons frame frames ih =>
      obtain ⟨handed, hsub, hlog⟩ := ih (deliver (logged receive) frame s)
      show ∃ handed, _ ∧ (deliverAll (logged receive) frames (deliver (logged receive) frame s)).2.2 = _
      rw [hlog, deliver]
      split
      · exact ⟨handed, hsub.cons frame, rfl⟩
      · refine ⟨frame :: handed, hsub.cons_cons frame, ?_⟩
        show (s.2.2 ++ [frame]) ++ handed = _
        rw [List.append_assoc, List.singleton_append]

end Deliveries

end Codec

end TradeBroker.Firmware
