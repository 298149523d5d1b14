/-
# TradeBroker.Gba.Serial — the serial transport of the GB-Link.

`broker/gba/serial.py`, `SerialTransport`.  Below it is a serial port, by its answers; above it are the
`write` and `read` of the endpoint.  Between them is the packet layer of the device: `GB`, a channel, a
length and at most 64 bytes.

The clock shows as `polls`, the number of times that one `read` may ask the port before its deadline.
What an answer of the port holds is the port's choice, so the number of bytes that `read` asks for is no
argument here.

`read` gives out the bytes of the data channel in order, each once, however the port cuts the packets and
whatever the caller asks for, and a caller that goes on asking gets all of them (`readAll_spec`).

`Pending` is the invariant behind that: what is in the buffers and in the answers of the port is the rest
of a stream of packets.  One answer of the port keeps it, so the loop of `read` does, so one `read` does;
and a `read` that finds data or gets an answer from the port makes progress (`read_waiting`).  The last
section is about the other direction: what `write` sends are the packets of its bytes.
-/
import TradeBroker.Lib.Scan
import TradeBroker.Domain

namespace TradeBroker.Gba

open Lib

/-! ## §1 — packets. -/

/-- `_SYNC`, the bytes `GB` at the front of every packet. -/
def sync : Bytes := [0x47, 0x42]

/-- The channels of the packet layer; only the data of one of them reaches the endpoint. -/
inductive Channel where
  | command
  | data
  | status
  deriving DecidableEq

namespace Channel

def code : Channel → UInt8
  | command => 0
  | data => 1
  | status => 2

def ofCode (raw : UInt8) : Option Channel := [command, data, status].find? (·.code = raw)

theorem ofCode_code (c : Channel) : ofCode c.code = some c := by
  cases c <;> decide

end Channel

def maxOuterPayload : Nat := 64

/-- A packet of the outer layer: its channel and a payload of at most 64 bytes. -/
structure Packet where
  channel : Channel
  payload : Bytes
  payload_le : payload.length ≤ maxOuterPayload

/-- The sync bytes, the channel, the length in two bytes, the low one first, and the payload. -/
def Packet.encode (p : Packet) : Bytes :=
  sync ++ ([p.channel.code] ++ (leBytes 2 p.payload.length ++ p.payload))

/-- The payloads of the data channel, in order. -/
def dataPayloads (ps : List Packet) : List Bytes :=
  (ps.filter (·.channel = .data)).map Packet.payload

def serialError (text : PyStr) : Exc := ⟨.endpointError, text⟩

/-! ## §2 — the transport. -/

/-- The serial port, by its answers: an exhausted list of `reads` is silence, and of `writes` a port
that takes everything. -/
structure Port where
  reads : List (Except Exc Bytes) := []
  writes : List (Except Exc Nat) := []
  /-- The bytes of each `write` that the port took. -/
  written : List Bytes := []

namespace Port

/-- `serial.read`. -/
def read (p : Port) : Except Exc Bytes × Port :=
  match p.reads with
  | [] => (.ok [], p)
  | r :: rest => (r, { p with reads := rest })

/-- `serial.write(frame)` and `flush()`: the number of bytes taken. -/
def write (frame : Bytes) (p : Port) : Except Exc Nat × Port :=
  match p.writes with
  | [] => (.ok frame.length, { p with written := p.written ++ [frame] })
  | .ok n :: rest => (.ok n, { p with writes := rest, written := p.written ++ [frame.take n] })
  | .error e :: rest => (.error e, { p with writes := rest })

end Port

structure SerialTransport where
  serial : Option Port := none
  outerBuffer : Bytes := []
  dataBuffer : Bytes := []

namespace SerialTransport

def notOpen : Exc := serialError "serial transport is not open"

/-- `_write_outer(channel, payload)`: one packet, refused when it is too long or the port does not take all of
it. -/
def writeOuter (channel : Channel) (payload : Bytes) (t : SerialTransport) :
    Except Exc Unit × SerialTransport :=
  match t.serial with
  | none => (.error notOpen, t)
  | some port =>
      if maxOuterPayload < payload.length then
        (.error (serialError "GB-Link CDC outer payload exceeds 64 bytes"), t)
      else
        let frame := sync ++ ([channel.code] ++ (leBytes 2 payload.length ++ payload))
        match port.write frame with
        | (.error e, port) => (.error e, { t with serial := some port })
        | (.ok written, port) =>
            if written ≠ frame.length then
              (.error (serialError ("short USB write: " ++ lit (toString written) ++ "/" ++
                lit (toString frame.length) ++ " bytes")), { t with serial := some port })
            else (.ok (), { t with serial := some port })

/-- The slices at the offsets `range(0, len(data), 64)`: pieces of 64 bytes and a last one that is shorter. -/
def pieces (data : Bytes) : List Bytes :=
  (List.range ((data.length + 63) / 64)).map fun i => slice data (64 * i) (64 * i + maxOuterPayload)

/-- The loop of `write`, which ends with the first packet that raises. -/
def writePieces : List Bytes → SerialTransport → Except Exc Unit × SerialTransport
  | [], t => (.ok (), t)
  | piece :: rest, t =>
      match t.writeOuter .data piece with
      | (.error e, t) => (.error e, t)
      | (.ok (), t) => writePieces rest t

/-- `write(data)`. -/
def write (data : Bytes) (t : SerialTransport) : Except Exc Unit × SerialTransport :=
  match t.serial with
  | none => (.error notOpen, t)
  | some _ => writePieces (pieces data) t

/-- One pass through the loop of `_feed_outer`: find the sync bytes, look at channel and length, take the
packet off. -/
def outerTurn (buf : Bytes) : Turn Packet Exc :=
  match find sync buf with
  | none => .wait (if buf.drop (buf.length - 1) = sync.take 1 then sync.take 1 else [])
  | some syncAt =>
      let buf := buf.drop syncAt
      if buf.length < 5 then .wait buf
      else
        let channel := buf.getD 2 0
        let length := leNat (slice buf 3 5)
        if h : length ≤ maxOuterPayload then
          if buf.length < 5 + length then .wait buf
          else
            let payload := slice buf 5 (5 + length)
            match Channel.ofCode channel with
            | some channel =>
                .emit ⟨channel, payload, (length_slice_le buf 5 length).trans h⟩
                  (buf.drop (5 + length))
            | none =>
                .fail (serialError ("unknown GB-Link CDC channel " ++ lit (toString channel.toNat)))
                  (buf.drop (5 + length))
        else
          .fail (serialError ("invalid GB-Link CDC outer length " ++ lit (toString length)))
            (buf.drop 2)

/-- `_feed_outer(data)`.  What the packets in front of a bad one brought stays when it raises. -/
def feedOuter (data : Bytes) (t : SerialTransport) : Except Exc Unit × SerialTransport :=
  let buf := t.outerBuffer ++ data
  let s := scan outerTurn (buf.length + 1) buf
  let t := { t with
    outerBuffer := s.rest, dataBuffer := t.dataBuffer ++ (dataPayloads s.found).flatten }
  match s.failure with
  | some e => (.error e, t)
  | none => (.ok (), t)

/-- The loop of `read`: it ends when there is data or the deadline has passed. -/
def readLoop : Nat → Port → SerialTransport → Except Exc Unit × SerialTransport
  | 0, port, t => (.ok (), { t with serial := some port })
  | polls + 1, port, t =>
      if t.dataBuffer ≠ [] then (.ok (), { t with serial := some port })
      else
        match port.read with
        | (.error e, port) => (.error e, { t with serial := some port })
        | (.ok chunk, port) =>
            if chunk = [] then readLoop polls port t
            else
              match t.feedOuter chunk with
              | (.error e, t) => (.error e, { t with serial := some port })
              | (.ok (), t) => readLoop polls port t

/-- `read(size, timeout)`. -/
def read (size polls : Nat) (t : SerialTransport) : Except Exc Bytes × SerialTransport :=
  match t.serial with
  | none => (.error notOpen, t)
  | some port =>
      match readLoop polls port t with
      | (.error e, t) => (.error e, t)
      | (.ok (), t) =>
          (.ok (t.dataBuffer.take size), { t with dataBuffer := t.dataBuffer.drop size })

/-- The calls of `read`, each with its size and its polls: what each returned or raised. -/
def readAll : List (Nat × Nat) → SerialTransport → List (Except Exc Bytes) × SerialTransport
  | [], t => ([], t)
  | (size, polls) :: calls, t =>
      let r := t.read size polls
      let rs := readAll calls r.2
      (r.1 :: rs.1, rs.2)

/-! ## §3 — the transport reads what the device packs. -/

theorem length_encode (p : Packet) : p.encode.length = 5 + p.payload.length := by
  simp only [Packet.encode, List.length_append, length_leBytes, List.length_singleton]
  show 2 + (1 + (2 + p.payload.length)) = _
  omega

theorem outerTurn_sync (bs : Bytes) : find sync (sync ++ bs) = some 0 := find_append (by decide) bs

theorem leNat_slice_length (p : Packet) (r : Bytes) :
    leNat (slice ((sync ++ [p.channel.code]) ++ (leBytes 2 p.payload.length ++ r)) 3 5) =
      p.payload.length := by
  have hle : p.payload.length ≤ 64 := p.payload_le
  have hslice : slice ((sync ++ [p.channel.code]) ++ (leBytes 2 p.payload.length ++ r)) 3 5 =
      leBytes 2 p.payload.length := slice_append rfl (by rw [length_leBytes])
  rw [hslice]
  exact leNat_leBytes_of_lt (by omega)

/-- The fields behind the sync bytes, whatever follows the packet. -/
theorem fields_encode (p : Packet) (tail : Bytes) :
    (p.encode ++ tail).getD 2 0 = p.channel.code ∧
      leNat (slice (p.encode ++ tail) 3 5) = p.payload.length ∧
      slice (p.encode ++ tail) 5 (5 + p.payload.length) = p.payload ∧
      (p.encode ++ tail).drop (5 + p.payload.length) = tail := by
  refine ⟨rfl, ?_, ?_, ?_⟩
  · have e : p.encode ++ tail = (sync ++ [p.channel.code]) ++ (leBytes 2 p.payload.length ++
        (p.payload ++ tail)) := by
      simp only [Packet.encode, List.append_assoc]
    rw [e, leNat_slice_length]
  · have e : p.encode ++ tail = (sync ++ [p.channel.code] ++ leBytes 2 p.payload.length) ++
        (p.payload ++ tail) := by
      simp only [Packet.encode, List.append_assoc]
    rw [e]
    exact slice_append (by simp [sync]) rfl
  · rw [← length_encode, List.drop_left]

theorem outerTurn_encode (p : Packet) (tail : Bytes) :
    outerTurn (p.encode ++ tail) = .emit p tail := by
  obtain ⟨hchannel, hlength, hpayload, hdrop⟩ := fields_encode p tail
  have hfind : find sync (p.encode ++ tail) = some 0 := outerTurn_sync _
  have hlen : (p.encode ++ tail).length = 5 + p.payload.length + tail.length := by
    rw [List.length_append, length_encode]
  have hle := p.payload_le
  rw [outerTurn, hfind]
  simp only [List.drop_zero, hlen, hchannel, hlength, hpayload, hdrop, Channel.ofCode_code]
  rw [if_neg (by omega), dif_pos hle, if_neg (by omega)]

/-- A proper part of a packet is left alone, until the rest arrives. -/
theorem outerTurn_part {p : Packet} {a b : Bytes} (h : p.encode = a ++ b) (hb : b ≠ []) :
    outerTurn a = .wait a := by
  have hbpos := List.length_pos_of_ne_nil hb
  have hsum : a.length + b.length = 5 + p.payload.length := by
    rw [← length_encode, h, List.length_append]
  have hsplit : sync ++ ([p.channel.code] ++ (leBytes 2 p.payload.length ++ p.payload)) = a ++ b := h
  by_cases hshort : a.length < 2
  · -- nothing, or the first sync byte
    rw [outerTurn, find_eq_none_of_short (by exact hshort)]
    obtain ⟨c, hc⟩ := starts_with (hsplit.symm) (by exact Nat.le_of_lt hshort)
    rcases a with _ | ⟨x, _ | ⟨y, a⟩⟩
    · rfl
    · obtain ⟨rfl, -⟩ := List.cons.inj hc
      rfl
    · simp only [List.length_cons] at hshort
      omega
  · obtain ⟨a', rfl⟩ := starts_with hsplit (by exact Nat.not_lt.mp hshort)
    rw [outerTurn, outerTurn_sync]
    by_cases hhead : (sync ++ a').length < 5
    · simp only [List.drop_zero, if_pos hhead]
    · -- the length is there and names bytes that are not
      have hfull : (sync ++ [p.channel.code] ++ leBytes 2 p.payload.length) ++ p.payload =
          (sync ++ a') ++ b := by
        rw [← hsplit]
        simp only [List.append_assoc]
      obtain ⟨r, hr⟩ := starts_with hfull (by simp [sync] at hhead ⊢; omega)
      have hlength : leNat (slice (sync ++ a') 3 5) = p.payload.length := by
        rw [hr, List.append_assoc, leNat_slice_length]
      simp only [List.drop_zero, hlength]
      rw [if_neg hhead, dif_pos p.payload_le, if_pos (by omega)]

/-- **The transport reads what the device packs**: whole packets are taken off, parts are waited for. -/
theorem outer_delimits : Delimits outerTurn Packet.encode id where
  nonempty := by
    intro p h
    have := length_encode p
    rw [h, List.length_nil] at this
    omega
  idle := rfl
  emit := outerTurn_encode
  wait := by
    intro p a b h hb
    exact outerTurn_part h hb

/-! ## §4 — reading. -/

/-- The packets still to come and the bytes of the port that bring them: what is in the buffers and in
the answers of the port is the rest of the stream. -/
structure Pending (t : SerialTransport) (port : Port) (left : List Packet) : Prop where
  bytes : ∃ chunks : List Bytes, port.reads = chunks.map .ok ∧
    wire Packet.encode left = t.outerBuffer ++ chunks.flatten
  short : Short Packet.encode t.outerBuffer.length left

/-- The data bytes that the caller has not seen: those in the data buffer, and those of the packets to come. -/
def unread (t : SerialTransport) (left : List Packet) : Bytes :=
  t.dataBuffer ++ (dataPayloads left).flatten

theorem dataPayloads_append (ps qs : List Packet) :
    dataPayloads (ps ++ qs) = dataPayloads ps ++ dataPayloads qs := by
  simp [dataPayloads]

/-- **One answer of the port** is packets whose data goes to the data buffer, and a rest that is kept. -/
theorem feedOuter_pending {t : SerialTransport} {chunk tail : Bytes} {left : List Packet}
    (hw : wire Packet.encode left = t.outerBuffer ++ (chunk ++ tail)) :
    ∃ t' left', t.feedOuter chunk = (.ok (), t') ∧
      wire Packet.encode left' = t'.outerBuffer ++ tail ∧
      Short Packet.encode t'.outerBuffer.length left' ∧ unread t' left' = unread t left := by
  rw [← List.append_assoc] at hw
  obtain ⟨rest, hscan, hrest, hwire⟩ :=
    scan_stream outer_delimits hw (Nat.lt_succ_self (t.outerBuffer ++ chunk).length)
  obtain ⟨hsplit, -, hshort⟩ := arrive_spec Packet.encode (t.outerBuffer ++ chunk).length left
  rw [List.map_id] at hscan
  refine ⟨{ t with
    outerBuffer := rest
    dataBuffer := t.dataBuffer ++ (dataPayloads
      (arrive Packet.encode (t.outerBuffer ++ chunk).length left).1).flatten }, _, ?_, hwire, ?_, ?_⟩
  · simp only [feedOuter, hscan]
  · rw [← hrest] at hshort
    exact hshort
  · show (t.dataBuffer ++ _) ++ _ = t.dataBuffer ++ (dataPayloads left).flatten
    nth_rewrite 3 [hsplit]
    rw [dataPayloads_append, List.flatten_append, List.append_assoc]

/-- The loop of `read` raises nothing, loses nothing, and asks the port at least once when there is
no data and time for it. -/
theorem readLoop_pending (polls : Nat) {port : Port} {t : SerialTransport} {left : List Packet}
    (h : Pending t port left) :
    ∃ t' port' left', readLoop polls port t = (.ok (), { t' with serial := some port' }) ∧
      Pending t' port' left' ∧ unread t' left' = unread t left ∧
      port'.reads.length ≤ port.reads.length ∧
      (0 < polls → t.dataBuffer = [] → port.reads ≠ [] → port'.reads.length < port.reads.length) := by
  induction polls generalizing port t left with
  | zero => exact ⟨t, port, left, rfl, h, rfl, le_refl _, fun h => absurd h (by omega)⟩
  | succ polls ih =>
      rw [readLoop]
      split
      · rename_i hdata
        exact ⟨t, port, left, rfl, h, rfl, le_refl _, fun _ h => absurd h hdata⟩
      · obtain ⟨chunks, hreads, hw⟩ := h.bytes
        cases chunks with
        | nil =>
            -- silence
            have hport : port.read = (.ok [], port) := by
              rw [Port.read, hreads]
              rfl
            rw [hport]
            obtain ⟨t', port', left', hloop, hpend, hunread, hle, -⟩ := ih h
            refine ⟨t', port', left', hloop, hpend, hunread, hle, ?_⟩
            intro _ _ hne
            exact absurd hreads hne
        | cons chunk chunks =>
            have hport : port.read = (.ok chunk, { port with reads := chunks.map .ok }) := by
              rw [Port.read, hreads]
              rfl
            have hlen : port.reads.length =
                ({ port with reads := chunks.map .ok } : Port).reads.length + 1 := by
              rw [hreads]
              simp
            rw [hport]
            simp only
            split
            · rename_i hchunk
              subst hchunk
              have hnext : Pending t { port with reads := chunks.map .ok } left :=
                ⟨⟨chunks, rfl, hw⟩, h.short⟩
              obtain ⟨t', port', left', hloop, hpend, hunread, hle, -⟩ := ih hnext
              exact ⟨t', port', left', hloop, hpend, hunread, by omega, fun _ _ _ => by omega⟩
            · rw [List.flatten_cons] at hw
              obtain ⟨t1, left1, hfeed, hw1, hs1, hu1⟩ := feedOuter_pending hw
              rw [hfeed]
              have hnext : Pending t1 { port with reads := chunks.map .ok } left1 :=
                ⟨⟨chunks, rfl, hw1⟩, hs1⟩
              obtain ⟨t', port', left', hloop, hpend, hunread, hle, -⟩ := ih hnext
              exact ⟨t', port', left', hloop, hpend, hunread.trans hu1, by omega, fun _ _ _ => by omega⟩

/-- With data in the buffer the port is not asked, however much time there is. -/
theorem readLoop_data (polls : Nat) (port : Port) {t : SerialTransport} (h : t.dataBuffer ≠ []) :
    readLoop polls port t = (.ok (), { t with serial := some port }) := by
  cases polls with
  | zero => rfl
  | succ polls => rw [readLoop, if_pos h]

/-- What is left of the stream, for the caller and for the port: the invariant, with the number of answers to
come. -/
def Waiting (t : SerialTransport) (left : List Packet) (n : Nat) : Prop :=
  ∃ port, t.serial = some port ∧ Pending t port left ∧ port.reads.length = n

/-- A silent port has no packet left: what it was to bring has all come. -/
theorem Waiting.silent {t : SerialTransport} {left : List Packet} (h : Waiting t left 0) : left = [] := by
  obtain ⟨port, -, hpend, hlen⟩ := h
  obtain ⟨chunks, hreads, hw⟩ := hpend.bytes
  have hchunks : chunks = [] := by
    have := congrArg List.length hreads
    rw [hlen, List.length_map] at this
    exact List.length_eq_zero_iff.mp this.symm
  cases left with
  | nil => rfl
  | cons p left =>
      have hp := hpend.short p (by simp)
      have hbytes := congrArg List.length hw
      rw [hchunks] at hbytes
      simp only [wire_cons, List.length_append, List.flatten_nil, List.length_nil] at hbytes
      omega

/-- **One `read`** returns the first bytes that the caller has not seen, and makes progress when it is given
time. -/
theorem read_waiting {t : SerialTransport} {left : List Packet} {n : Nat} (h : Waiting t left n)
    (size polls : Nat) :
    ∃ data t' left' m, t.read size polls = (.ok data, t') ∧ Waiting t' left' m ∧
      data ++ unread t' left' = unread t left ∧ m ≤ n ∧
      (0 < size → 0 < polls →
        (unread t' left').length + m < (unread t left).length + n ∨ unread t left = [] ∧ n = 0) := by
  have hwait := h
  obtain ⟨port, hserial, hpend, rfl⟩ := h
  by_cases hdata : t.dataBuffer = []
  · obtain ⟨t', port', left', hloop, hpend', hunread, hle, hprogress⟩ := readLoop_pending polls hpend
    have hgiven : t'.dataBuffer.take size ++ unread { t' with
        serial := some port', dataBuffer := t'.dataBuffer.drop size } left' = unread t left := by
      rw [← hunread]
      show _ ++ (t'.dataBuffer.drop size ++ _) = t'.dataBuffer ++ _
      rw [← List.append_assoc, List.take_append_drop]
    refine ⟨t'.dataBuffer.take size,
      { t' with serial := some port', dataBuffer := t'.dataBuffer.drop size }, left',
      port'.reads.length, ?_, ⟨port', rfl, ⟨hpend'.bytes, hpend'.short⟩, rfl⟩, hgiven, hle, ?_⟩
    · rw [read, hserial]
      simp only [hloop]
    · intro _ hpolls
      by_cases hne : port.reads = []
      · rw [hne] at hwait
        have hleft := hwait.silent
        refine Or.inr ⟨?_, by rw [hne]; rfl⟩
        rw [unread, hdata, hleft]
        rfl
      · have hlen := congrArg List.length hgiven
        have := hprogress hpolls hdata hne
        rw [List.length_append] at hlen
        exact Or.inl (by omega)
  · have hgiven : t.dataBuffer.take size ++ unread { t with
        serial := some port, dataBuffer := t.dataBuffer.drop size } left = unread t left := by
      show _ ++ (t.dataBuffer.drop size ++ _) = t.dataBuffer ++ _
      rw [← List.append_assoc, List.take_append_drop]
    refine ⟨t.dataBuffer.take size,
      { t with serial := some port, dataBuffer := t.dataBuffer.drop size }, left,
      port.reads.length, ?_, ⟨port, rfl, ⟨hpend.bytes, hpend.short⟩, rfl⟩, hgiven, le_refl _, ?_⟩
    · rw [read, hserial]
      simp only [readLoop_data polls port hdata]
    · intro hsize _
      have hlen := congrArg List.length hgiven
      have hpos := List.length_pos_of_ne_nil hdata
      rw [List.length_append, List.length_take] at hlen
      exact Or.inl (by omega)

/-- **The calls of `read` give out the data bytes in order**, and nothing raises: what they gave out and what
is still unread is what was unread before. -/
theorem readAll_spec (calls : List (Nat × Nat)) {t : SerialTransport} {left : List Packet} {n : Nat}
    (h : Waiting t left n) :
    ∃ (given : List Bytes) (t' : SerialTransport) (left' : List Packet) (m : Nat),
      readAll calls t = (given.map .ok, t') ∧ Waiting t' left' m ∧
      given.flatten ++ unread t' left' = unread t left ∧ m ≤ n ∧
      ((∀ call ∈ calls, 0 < call.1 ∧ 0 < call.2) →
        (unread t' left').length + m + calls.length ≤ (unread t left).length + n ∨
          unread t' left' = [] ∧ m = 0) := by
  induction calls generalizing t left n with
  | nil => exact ⟨[], t, left, n, rfl, h, rfl, le_refl _, fun _ => Or.inl (by simp)⟩
  | cons call calls ih =>
      obtain ⟨size, polls⟩ := call
      obtain ⟨data, t1, left1, n1, hread, hwait1, hgiven1, hle1, hprogress1⟩ :=
        read_waiting h size polls
      obtain ⟨given, t', left', m, hall, hwait', hgiven, hle, hprogress⟩ := ih hwait1
      refine ⟨data :: given, t', left', m, ?_, hwait', ?_, by omega, ?_⟩
      · simp only [readAll, hread, hall, List.map_cons]
      · rw [List.flatten_cons, List.append_assoc, hgiven, hgiven1]
      · intro hpos
        have hlater := hprogress fun c hc => hpos c (by simp [hc])
        have hcall := hpos (size, polls) (by simp)
        rcases hlater with hlater | hlater
        · rcases hprogress1 hcall.1 hcall.2 with hless | ⟨hnil, hzero⟩
          · refine Or.inl ?_
            rw [List.length_cons]
            omega
          · -- nothing was left, so nothing is left
            rw [hnil] at hgiven1
            obtain ⟨-, hnil1⟩ := List.append_eq_nil_iff.mp hgiven1
            rw [hnil1] at hgiven
            obtain ⟨-, hnil'⟩ := List.append_eq_nil_iff.mp hgiven
            exact Or.inr ⟨hnil', by omega⟩
        · exact Or.inr hlater

/-! ## §5 — writing. -/

/-- The packets that `write` makes of some bytes, one for each piece. -/
def packets (data : Bytes) : List Packet :=
  (List.range ((data.length + 63) / 64)).map fun i =>
    ⟨.data, slice data (64 * i) (64 * i + maxOuterPayload), length_slice_le data _ _⟩

theorem packets_payload (data : Bytes) : (packets data).map Packet.payload = pieces data := by
  rw [packets, List.map_map]
  rfl

/-- The loop of `write` on a port that takes everything sends its packets one after the other. -/
theorem writePieces_ok (ps : List Packet) (hdata : ∀ p ∈ ps, p.channel = .data) {port : Port}
    (hport : port.writes = []) (t : SerialTransport) (ht : t.serial = some port) :
    writePieces (ps.map Packet.payload) t = (.ok (), { t with
      serial := some { port with written := port.written ++ ps.map Packet.encode } }) := by
  induction ps generalizing port t with
  | nil =>
      obtain ⟨serial, outer, buffer⟩ := t
      simp only at ht
      subst ht
      simp [writePieces]
  | cons p ps ih =>
      have hframe : sync ++ ([Channel.data.code] ++ (leBytes 2 p.payload.length ++ p.payload)) =
          p.encode := by
        rw [Packet.encode, hdata p (by simp)]
      have hwrite : t.writeOuter .data p.payload = (.ok (), { t with
          serial := some { port with written := port.written ++ [p.encode] } }) := by
        have hle := p.payload_le
        rw [writeOuter, ht]
        simp only [if_neg (Nat.not_lt.mpr hle), hframe, Port.write, hport, ne_eq,
          not_true_eq_false, if_false]
      rw [List.map_cons, writePieces, hwrite]
      simp only
      rw [ih (fun q hq => hdata q (by simp [hq])) (by exact hport) _ rfl]
      simp

/-- **`write` on a port that takes everything** sends the packets of its bytes, and raises nothing. -/
theorem write_ok {port : Port} (hport : port.writes = []) {t : SerialTransport}
    (ht : t.serial = some port) (data : Bytes) :
    t.write data = (.ok (), { t with
      serial := some { port with written := port.written ++ (packets data).map Packet.encode } }) := by
  have hchannel : ∀ p ∈ packets data, p.channel = .data := by
    intro p hp
    obtain ⟨i, -, rfl⟩ := List.mem_map.mp hp
    rfl
  rw [write, ht]
  simp only
  rw [← packets_payload]
  exact writePieces_ok (packets data) hchannel hport t ht

end SerialTransport

end TradeBroker.Gba
