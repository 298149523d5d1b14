/-
# TradeBroker.Gba.Corruption — a damaged frame is refused, and only that frame is gone.

Bits of the encoding of a frame are flipped on the way, all of them within 32 consecutive bits, none in the
magic and none in the length.  So the decoder still finds the frame and where it ends; whether it lets it
through is up to the CRC.  `Lib.Crc` says that the CRC of the damaged body cannot agree with the damaged CRC
behind it, be the flips in the header, the payload, the CRC or across the seam.

That magic and length are spared is part of the statement and not of the proof technique: a flip in the magic
makes the decoder search on, possibly into the payload, and a flip in the length moves the end of the
frame, so that in both cases other bytes than these are checked.  What the decoder keeps is stated with
the refusal: it has dropped the damaged frame and nothing else, so the frame behind it is found by the
next call.
-/
import TradeBroker.Lib.Crc
import TradeBroker.Gba.Decoding

namespace TradeBroker.Gba

open Lib

/-- Neither the magic nor the length is touched: no flip falls into bytes 0 to 3 or into the length field,
bits being counted as the CRC takes them, the lowest of a byte first. -/
def SparesLayout (flips : Finset Nat) : Prop :=
  ∀ k ∈ flips, ¬ k / 8 < 4 ∧ ¬ (8 ≤ k / 8 ∧ k / 8 < 12)

namespace Frame

/-- The errors in the body and those in the CRC behind it: what the flips do to an encoding is an exclusive or
with an error pattern, and the pattern is cut where the body ends. -/
theorem flipBits_encode (f : Frame) (flips : Finset Nat) :
    ∃ errors wordErrors, errors.length = f.body.length ∧ wordErrors.length = crcSize ∧
      flipErrors flips f.encode.length = errors ++ wordErrors ∧
      flipBits flips f.encode = xorBytes f.body errors ++
        xorBytes (leBytes crcSize (crc32 f.body).toNat) wordErrors := by
  have hlen : f.encode.length = f.body.length + crcSize := by
    rw [f.length_encode, f.length_body]
  refine ⟨(flipErrors flips f.encode.length).take f.body.length,
    (flipErrors flips f.encode.length).drop f.body.length, ?_, ?_,
    (List.take_append_drop _ _).symm, ?_⟩
  · rw [List.length_take, length_flipErrors]
    omega
  · rw [List.length_drop, length_flipErrors]
    omega
  · have hfirst : f.body.length = ((flipErrors flips f.encode.length).take f.body.length).length := by
      rw [List.length_take, length_flipErrors]
      omega
    rw [flipBits_eq]
    nth_rewrite 1 [← List.take_append_drop f.body.length (flipErrors flips f.encode.length)]
    rw [xorBytes, xorBytes, xorBytes]
    exact List.zipWith_append hfirst

/-- What the layout says about a damaged frame: it starts with the magic and ends where it did, whatever
follows in the buffer. -/
theorem unpackFrom_flipBits (f : Frame) {flips : Finset Nat} (h : SparesLayout flips) (tail : Bytes) :
    magic <+: flipBits flips f.encode ++ tail ∧
      (Header.unpackFrom (flipBits flips f.encode ++ tail)).size = f.payload.length := by
  have hlen : (flipBits flips f.encode).length = headerSize + f.payload.length + crcSize := by
    rw [length_flipBits, f.length_encode]
  have h32 : headerSize = 32 := rfl
  have hheader : Header.unpackFrom f.encode = f.header := by
    have happ := f.unpackFrom_encode []
    rwa [List.append_nil] at happ
  have hmagic : slice (flipBits flips f.encode) 0 4 = magic := by
    rw [slice_flipBits (fun k hk hrange => (h k hk).1 hrange.2)]
    exact congrArg Header.magic hheader
  have hsize : slice (flipBits flips f.encode) 8 12 = slice f.encode 8 12 :=
    slice_flipBits (fun k hk => (h k hk).2) _
  constructor
  · refine ⟨(flipBits flips f.encode ++ tail).drop 4, ?_⟩
    have hfour : (flipBits flips f.encode ++ tail).take 4 = magic := by
      rw [← hmagic, List.take_append_of_le_length (by omega)]
      rfl
    rw [← hfour, List.take_append_drop]
  · show leNat (slice (flipBits flips f.encode ++ tail) 8 12) = f.payload.length
    rw [slice_append_left (by omega), hsize]
    exact congrArg Header.size hheader

end Frame

namespace FrameDecoder

/-- A frame whose CRC disagrees is refused as a `ProtocolError`, the first of the checks that can fail. -/
theorem validate_crc_mismatch {h : Header} {encoded : Bytes} {expectedCrc : Nat}
    (hne : (crc32 encoded).toNat ≠ expectedCrc) :
    ∃ e, validate h encoded expectedCrc = .error e ∧ e.type = .protocolError := by
  rw [validate]
  exact ⟨_, if_pos hne, rfl⟩

/-- A buffer whose first frame is complete and refused: the call raises what the checks raise, and of the
buffer it has removed this frame, by the length that its header declares. -/
theorem feed_refused {p : Bytes} {e : Exc} (hm : magic <+: p) (h : headerSize ≤ p.length)
    (hs : (Header.unpackFrom p).size ≤ maxPayload) (ht : declared p ≤ p.length)
    (he : validateAt p = .error e) : feed {} p = (.error e, ⟨p.drop (declared p)⟩) := by
  have hturn : turn p = .fail e (p.drop (declared p)) := by
    have hat := turn_append_of_magic hm []
    rw [List.append_nil] at hat
    rw [hat, turnAt_complete hm h hs ht, he]
  rw [feed]
  simp only [List.nil_append, scan, hturn]

end FrameDecoder

/-- **Every burst is caught.** A frame with flips within 32 consecutive bits, outside magic and length: the
call raises a `ProtocolError`, returns no frame, and of the buffer exactly this frame is gone.  The frame,
the flips, where the window lies and the bytes behind the frame are arbitrary. -/
theorem burst_rejected (f : Frame) (flips : Finset Nat) (start : Nat) (tail : Bytes)
    (hne : flips.Nonempty) (hin : ∀ k ∈ flips, k < 8 * f.encode.length)
    (hwindow : ∀ k ∈ flips, start ≤ k ∧ k < start + 32) (hspares : SparesLayout flips) :
    ∃ e, FrameDecoder.feed {} (flipBits flips f.encode ++ tail) = (.error e, ⟨tail⟩) ∧
      e.type = .protocolError := by
  obtain ⟨errors, wordErrors, herrors, hwordErrors, hall, hflipped⟩ := f.flipBits_encode flips
  obtain ⟨hmagic, hsize⟩ := f.unpackFrom_flipBits hspares tail
  have hbody : (xorBytes f.body errors).length = headerSize + f.payload.length := by
    rw [xorBytes, List.length_zipWith, herrors, Nat.min_self, f.length_body]
  have hword : (xorBytes (leBytes crcSize (crc32 f.body).toNat) wordErrors).length = crcSize := by
    rw [xorBytes, List.length_zipWith, length_leBytes, hwordErrors, Nat.min_self]
  have hflen : (flipBits flips f.encode).length = headerSize + f.payload.length + crcSize := by
    rw [length_flipBits, f.length_encode]
  have hdeclared : FrameDecoder.declared (flipBits flips f.encode ++ tail) =
      headerSize + f.payload.length + crcSize := by
    rw [FrameDecoder.declared, hsize]
  -- the damaged CRC is not the CRC of the damaged body
  have hcrc : (crc32 (xorBytes f.body errors)).toNat ≠
      leNat (xorBytes (leBytes crcSize (crc32 f.body).toNat) wordErrors) := by
    refine errors_detected herrors.symm (length_leBytes _ _) hwordErrors
      (leNat_leBytes_of_lt (crc32 f.body).toNat_lt) ?_
    rw [← hall]
    exact flips_burst hne hin hwindow
  have hencoded : slice (flipBits flips f.encode ++ tail) 0 (headerSize + f.payload.length) =
      xorBytes f.body errors := by
    rw [hflipped, List.append_assoc]
    exact slice_append (a := []) rfl (by rw [hbody, Nat.zero_add])
  have hstored : slice (flipBits flips f.encode ++ tail) (headerSize + f.payload.length)
      (headerSize + f.payload.length + crcSize) =
        xorBytes (leBytes crcSize (crc32 f.body).toNat) wordErrors := by
    rw [hflipped, List.append_assoc]
    exact slice_append hbody (by rw [hword])
  obtain ⟨e, he, htype⟩ : ∃ e, FrameDecoder.validateAt (flipBits flips f.encode ++ tail) = .error e ∧
      e.type = .protocolError := by
    rw [FrameDecoder.validateAt, hdeclared, hsize, hencoded, hstored]
    exact FrameDecoder.validate_crc_mismatch hcrc
  refine ⟨e, ?_, htype⟩
  have hfeed := FrameDecoder.feed_refused hmagic (by rw [List.length_append]; omega)
    (by rw [hsize]; exact f.payload_le) (by rw [hdeclared, List.length_append]; omega) he
  rw [hdeclared, ← hflen, List.drop_left] at hfeed
  exact hfeed

/-- A burst across the seam: the last bit of the payload, and two bits of the CRC.  The three bytes behind the
frame are the beginning of a magic, and they are kept. -/
theorem burst_rejected_at_seam :
    ∃ e, FrameDecoder.feed {} (flipBits {287, 288, 318} magicFrame.encode ++ magic.take 3) =
      (.error e, ⟨magic.take 3⟩) ∧ e.type = .protocolError := by
  have hlen : magicFrame.encode.length = 40 := magicFrame.length_encode
  refine burst_rejected magicFrame {287, 288, 318} 287 (magic.take 3) ⟨287, by decide⟩ ?_ (by decide) ?_
  · rw [hlen]
    decide
  · show ∀ k ∈ ({287, 288, 318} : Finset Nat), ¬ k / 8 < 4 ∧ ¬ (8 ≤ k / 8 ∧ k / 8 < 12)
    decide

end TradeBroker.Gba
