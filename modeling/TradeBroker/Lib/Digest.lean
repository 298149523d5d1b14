/-
# TradeBroker.Lib.Digest — CRC-32 and SHA-256, executable.

`crc32` is the reflected IEEE CRC-32 (`zlib.crc32`): register preset to all ones, polynomial
`0xEDB88320`, one bit at a time, complemented at the end.  `sha256` is SHA-256
(`hashlib.sha256(_).digest()`).  What the CRC is good for is the subject of `Lib.Crc`; of a SHA-256 digest the
development uses its width only.  Both are written out so that every statement about the program is about the
real functions and not about a parameter.

The definitions are structural, over the list of bytes or over the number of blocks, so the kernel
evaluates them: a checksum or a digest in a run over concrete bytes is computed and not assumed.  The two
differ in what may be concluded from an equal value.  An equal CRC says that an error pattern has register
zero, which `Lib.Crc` excludes for bursts; an equal digest proves nothing, and no theorem takes it for
more than a name.
-/
import TradeBroker.Lib.Bytes

namespace TradeBroker.Lib

/-! ## CRC-32 -/

/-- One shift of the register: the lowest bit falls off, and when it was set the polynomial is added. -/
def crcBit (crc : UInt32) : UInt32 :=
  if crc &&& 1 = 1 then (crc >>> 1) ^^^ 0xEDB88320 else crc >>> 1

/-- One byte: xor it into the low end, then eight shifts.  This is the inner loop of both implementations in
the source. -/
def crcByte (crc : UInt32) (b : UInt8) : UInt32 :=
  (List.range 8).foldl (fun c _ => crcBit c) (crc ^^^ b.toUInt32)

/-- `zlib.crc32(bs)`: preset to all ones and complemented at the end, so that leading zeros count. -/
def crc32 (bs : Bytes) : UInt32 := ~~~ (bs.foldl crcByte 0xFFFFFFFF)

/-! ## SHA-256 -/

namespace Sha256

def rotr (x : UInt32) (n : UInt32) : UInt32 := (x >>> n) ||| (x <<< (32 - n))

def roundConstants : List UInt32 :=
  [0x428a2f98, 0x71374491, 0xb5c0fbcf, 0xe9b5dba5, 0x3956c25b, 0x59f111f1, 0x923f82a4, 0xab1c5ed5,
   0xd807aa98, 0x12835b01, 0x243185be, 0x550c7dc3, 0x72be5d74, 0x80deb1fe, 0x9bdc06a7, 0xc19bf174,
   0xe49b69c1, 0xefbe4786, 0x0fc19dc6, 0x240ca1cc, 0x2de92c6f, 0x4a7484aa, 0x5cb0a9dc, 0x76f988da,
   0x983e5152, 0xa831c66d, 0xb00327c8, 0xbf597fc7, 0xc6e00bf3, 0xd5a79147, 0x06ca6351, 0x14292967,
   0x27b70a85, 0x2e1b2138, 0x4d2c6dfc, 0x53380d13, 0x650a7354, 0x766a0abb, 0x81c2c92e, 0x92722c85,
   0xa2bfe8a1, 0xa81a664b, 0xc24b8b70, 0xc76c51a3, 0xd192e819, 0xd6990624, 0xf40e3585, 0x106aa070,
   0x19a4c116, 0x1e376c08, 0x2748774c, 0x34b0bcb5, 0x391c0cb3, 0x4ed8aa4a, 0x5b9cca4f, 0x682e6ff3,
   0x748f82ee, 0x78a5636f, 0x84c87814, 0x8cc70208, 0x90befffa, 0xa4506ceb, 0xbef9a3f7, 0xc67178f2]

/-- The eight working words. -/
structure State where
  (a b c d e f g h : UInt32)

def initial : State :=
  ⟨0x6a09e667, 0xbb67ae85, 0x3c6ef372, 0xa54ff53a, 0x510e527f, 0x9b05688c, 0x1f83d9ab, 0x5be0cd19⟩

/-- Append the delimiter, the zeros that complete a block, and the bit length, which makes every message a
whole number of 64-byte blocks. -/
def pad (m : Bytes) : Bytes :=
  m ++ 0x80 :: List.replicate ((119 - m.length % 64) % 64) 0 ++ (leBytes 8 (8 * m.length)).reverse

/-- The big-endian words of a block. -/
def words : Bytes → List UInt32
  | b0 :: b1 :: b2 :: b3 :: bs =>
      (b0.toUInt32 <<< 24 ||| b1.toUInt32 <<< 16 ||| b2.toUInt32 <<< 8 ||| b3.toUInt32) :: words bs
  | _ => []

/-- One more schedule word from the four words it depends on; the schedule is kept newest first. -/
def extend (ws : List UInt32) : List UInt32 :=
  let w (i : Nat) : UInt32 := ws.getD (i - 1) 0
  let s0 := rotr (w 15) 7 ^^^ rotr (w 15) 18 ^^^ (w 15 >>> 3)
  let s1 := rotr (w 2) 17 ^^^ rotr (w 2) 19 ^^^ (w 2 >>> 10)
  (w 16 + s0 + w 7 + s1) :: ws

def schedule (block : Bytes) : List UInt32 :=
  ((List.range 48).foldl (fun ws _ => extend ws) (words block).reverse).reverse

def round (s : State) (kw : UInt32 × UInt32) : State :=
  let s1 := rotr s.e 6 ^^^ rotr s.e 11 ^^^ rotr s.e 25
  let ch := (s.e &&& s.f) ^^^ (~~~ s.e &&& s.g)
  let t1 := s.h + s1 + ch + kw.1 + kw.2
  let s0 := rotr s.a 2 ^^^ rotr s.a 13 ^^^ rotr s.a 22
  let maj := (s.a &&& s.b) ^^^ (s.a &&& s.c) ^^^ (s.b &&& s.c)
  ⟨t1 + (s0 + maj), s.a, s.b, s.c, s.d + t1, s.e, s.f, s.g⟩

def compress (s : State) (block : Bytes) : State :=
  let t := (roundConstants.zip (schedule block)).foldl round s
  ⟨s.a + t.a, s.b + t.b, s.c + t.c, s.d + t.d, s.e + t.e, s.f + t.f, s.g + t.g, s.h + t.h⟩

/-- Fold `compress` over the first `n` 64-byte blocks. -/
def blocks : Nat → State → Bytes → State
  | 0, s, _ => s
  | n + 1, s, m => blocks n (compress s (m.take 64)) (m.drop 64)

def beBytes (w : UInt32) : Bytes := (leBytes 4 w.toNat).reverse

def State.bytes (s : State) : Bytes :=
  beBytes s.a ++ beBytes s.b ++ beBytes s.c ++ beBytes s.d ++
    beBytes s.e ++ beBytes s.f ++ beBytes s.g ++ beBytes s.h

end Sha256

/-- `hashlib.sha256(m).digest()`: 32 bytes, which `sha256` of a record prints as 64 hexadecimal digits. -/
def sha256 (m : Bytes) : Bytes :=
  (Sha256.blocks ((Sha256.pad m).length / 64) Sha256.initial (Sha256.pad m)).bytes

@[simp] theorem length_sha256 (m : Bytes) : (sha256 m).length = 32 := by
  simp [sha256, Sha256.State.bytes, Sha256.beBytes]

-- The digest of `abc` and the CRC-32 check value.
example : sha256 [0x61, 0x62, 0x63] =
    [0xba, 0x78, 0x16, 0xbf, 0x8f, 0x01, 0xcf, 0xea, 0x41, 0x41, 0x40, 0xde, 0x5d, 0xae, 0x22, 0x23,
     0xb0, 0x03, 0x61, 0xa3, 0x96, 0x17, 0x7a, 0x9c, 0xb4, 0x10, 0xff, 0x61, 0xf2, 0x00, 0x15, 0xad]
    := by decide +kernel

example : crc32 [0x31, 0x32, 0x33, 0x34, 0x35, 0x36, 0x37, 0x38, 0x39] = 0xCBF43926 := by
  decide +kernel

end TradeBroker.Lib
