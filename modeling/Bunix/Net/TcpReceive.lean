import Bunix.Types

/-! # The receive side of TCP

What `user/net/main.c` does with a packet for an established IPv4 connection, and with a read of
the application. Sequence numbers are words masked to 32 bits in the source, so that they are
`BitVec 32` here. A segment holds the bytes up to its `len`; what has been allocated behind them is
only counted. Both queues are lists of segments. Acknowledgements are sent in the course of this,
but nothing here depends on them.
-/
namespace Bunix.Net

abbrev Seq := BitVec 32

def rxBufferLimit : Nat := 16 * 1024 * 1024

def rxSegmentCapacity : Nat := 32 * 1024

structure TcpSegment where
  seq : Seq
  offset : Nat := 0
  capacity : Nat
  /-- The bytes up to `len`. -/
  data : List UInt8
deriving DecidableEq, Repr

def TcpSegment.len (segment : TcpSegment) : Nat := segment.data.length

structure TcpSocket where
  established : Bool := true
  peerWriteClosed : Bool := false
  reset : Bool := false
  rxAck : Seq
  handshakeDone : Bool
  rxLen : Nat := 0
  /-- The queue from `rx_head` to `rx_tail`. -/
  rx : List TcpSegment := []
  ofoLen : Nat := 0
  /-- The list at `ofo_head`. -/
  ofo : List TcpSegment := []
  rxWindowShift : Nat := 0
  rxWindowScaleEnabled : Bool := false
  peerWindowShift : Nat := 0
deriving DecidableEq, Repr

/-! ## Sequence numbers -/

def tcpSeqDistance (src dst : Seq) : Seq := dst - src

def tcpSeqAfter (seq base : Seq) : Bool :=
  let distance := tcpSeqDistance base seq
  distance != 0 && distance.toNat < 0x80000000

def tcpSeqBefore (seq base : Seq) : Bool :=
  let distance := tcpSeqDistance seq base
  distance != 0 && distance.toNat < 0x80000000

/-- `(seq + len) & 0xffffffff`. -/
def seqEnd (seq : Seq) (len : Nat) : Seq := seq + BitVec.ofNat 32 len

namespace TcpSocket

variable (s : TcpSocket) (segment : TcpSegment)

def tcpReceiveQueuedLen : Nat :=
  let queued := (s.rxLen + s.ofoLen) % 2 ^ 64
  if queued < s.rxLen then rxBufferLimit else queued

def tcpReceiveCanQueue (len : Nat) : Bool :=
  let queued := s.tcpReceiveQueuedLen
  queued ≤ rxBufferLimit && len ≤ rxBufferLimit - queued

/-! ## The queues -/

/-- `tcp_segment_append_existing` on the queue of the socket. -/
def appendExisting : TcpSocket :=
  { s with rx := s.rx ++ [segment], rxLen := s.rxLen + (segment.len - segment.offset) }

/-- The first segment leaves the list of those that came too early. -/
def popOutOfOrder (rest : List TcpSegment) : TcpSocket :=
  { s with ofo := rest, ofoLen := if segment.len ≤ s.ofoLen then s.ofoLen - segment.len else 0 }

/-- The end of a round of the loop of `tcp_drain_out_of_order`. -/
def acceptSegment : TcpSocket :=
  { s with rxAck := seqEnd s.rxAck (segment.len - segment.offset) }.appendExisting segment

/-- The loop of `tcp_drain_out_of_order`, over the list it starts with. -/
def drainLoop (s : TcpSocket) : List TcpSegment → TcpSocket
  | [] => s
  | segment :: rest =>
    if segment.seq ≠ s.rxAck then
      if tcpSeqBefore segment.seq s.rxAck = false then s
      else
        let popped := s.popOutOfOrder segment rest
        if tcpSeqAfter (seqEnd segment.seq segment.len) s.rxAck = false then drainLoop popped rest
        else
          let trim := (tcpSeqDistance segment.seq s.rxAck).toNat
          if segment.len ≤ trim then drainLoop popped rest
          else drainLoop (popped.acceptSegment { segment with seq := s.rxAck, offset := trim }) rest
    else drainLoop ((s.popOutOfOrder segment rest).acceptSegment segment) rest

def tcpDrainOutOfOrder : TcpSocket := s.drainLoop s.ofo

/-- The bytes go behind those of the last segment if they fit there, else into a new one; `none`
without memory for it. -/
def appendData (alloc : Bool) (data : List UInt8) : Option TcpSocket :=
  let new : TcpSegment :=
    { seq := 0, capacity := max rxSegmentCapacity data.length, data }
  match s.rx.getLast? with
  | some tail =>
    if tail.len ≤ tail.capacity ∧ data.length ≤ tail.capacity - tail.len then
      some { s with rx := s.rx.dropLast ++ [{ tail with data := tail.data ++ data }]
                    rxLen := s.rxLen + data.length }
    else if alloc then some (s.appendExisting new) else none
  | none => if alloc then some (s.appendExisting new) else none

/-- The result tells whether the bytes were taken. -/
def tcpQueueInOrder (alloc : Bool) (data : List UInt8) : Bool × TcpSocket :=
  if s.tcpReceiveCanQueue data.length = false then (false, s)
  else match s.appendData alloc data with
    | none => (false, s)
    | some s => (true, { s with rxAck := seqEnd s.rxAck data.length }.tcpDrainOutOfOrder)

/-- The walk along the list to the place of a segment; `none` if it overlaps one that is there. -/
def insertSegment (segment : TcpSegment) : List TcpSegment → Option (List TcpSegment)
  | [] => some [segment]
  | next :: rest =>
    if tcpSeqBefore next.seq segment.seq then
      let currentEnd := seqEnd next.seq next.len
      if tcpSeqAfter segment.seq currentEnd = false ∧ segment.seq ≠ currentEnd then none
      else (insertSegment segment rest).map (next :: ·)
    else if next.seq = segment.seq then none
    else
      let ending := seqEnd segment.seq segment.len
      if tcpSeqBefore ending next.seq = false ∧ ending ≠ next.seq then none
      else some (segment :: next :: rest)

def tcpQueueOutOfOrder (alloc : Bool) (data : List UInt8) (seq : Seq) : TcpSocket :=
  if data.length = 0 ∨ rxBufferLimit < (tcpSeqDistance s.rxAck seq).toNat ∨
      rxBufferLimit < (tcpSeqDistance s.rxAck (seqEnd seq data.length)).toNat ∨
      s.tcpReceiveCanQueue data.length = false then s
  else match insertSegment { seq, capacity := data.length, data } s.ofo with
    | none => s
    | some ofo => if alloc then { s with ofo, ofoLen := s.ofoLen + data.length } else s

end TcpSocket

/-! ## Packets -/

structure TcpPacket where
  seq : Seq
  syn : Bool := false
  ack : Bool := true
  fin : Bool := false
  rst : Bool := false
  /-- The shift of a window scale option. -/
  windowScale : Option Nat := none
  payload : List UInt8
deriving DecidableEq, Repr

namespace TcpSocket

def ingressSynAck (s : TcpSocket) (packet : TcpPacket) : TcpSocket :=
  if packet.syn ∧ packet.ack ∧ s.handshakeDone = false then
    { s with
      rxWindowScaleEnabled := packet.windowScale.isSome
      rxWindowShift := if packet.windowScale.isSome then s.rxWindowShift else 0
      peerWindowShift := packet.windowScale.getD 0
      rxAck := packet.seq + 1
      handshakeDone := true }
  else s

def ingressPayload (s : TcpSocket) (alloc : Bool) (packet : TcpPacket) : TcpSocket :=
  if packet.payload = [] ∨ s.handshakeDone = false then s
  else if packet.seq = s.rxAck then (s.tcpQueueInOrder alloc packet.payload).2
  else if tcpSeqAfter packet.seq s.rxAck then s.tcpQueueOutOfOrder alloc packet.payload packet.seq
  else if tcpSeqAfter (seqEnd packet.seq packet.payload.length) s.rxAck then
    let trim := (tcpSeqDistance packet.seq s.rxAck).toNat
    if trim < packet.payload.length then (s.tcpQueueInOrder alloc (packet.payload.drop trim)).2
    else s
  else s

def ingressFin (s : TcpSocket) (packet : TcpPacket) : TcpSocket :=
  let expected := seqEnd packet.seq packet.payload.length
  if packet.fin ∧ (s.handshakeDone = false ∨ s.rxAck = expected) then
    { s with rxAck := expected + 1, peerWriteClosed := true }
  else s

/-- `packet_ingress_tcp_ipv4` for the socket of the connection. -/
def ingress (s : TcpSocket) (alloc : Bool) (packet : TcpPacket) : TcpSocket :=
  if packet.rst then { s with reset := true, peerWriteClosed := true }
  else
    -- a SYN with ACK and nothing else ends here, which the next two functions see for themselves
    ((s.ingressSynAck packet).ingressPayload alloc packet).ingressFin packet

/-! ## Reading -/

structure ReadReply where
  ok : Bool
  done : Nat := 0
  closed : Bool := false
deriving DecidableEq, Repr

/-- The loop of `reply_tcp_read` over the queue, with the bytes written to the buffer so far; the
result tells whether all writes went well. `write` says whether a write to the buffer of so many
bytes at a place does. -/
def readLoop (write : Nat → Nat → Bool) (maxLen : Nat) :
    List UInt8 → List TcpSegment → Bool × List UInt8 × List TcpSegment
  | done, [] => (true, done, [])
  | done, segment :: rest =>
    if done.length < maxLen then
      let chunk := min (segment.len - segment.offset) (maxLen - done.length)
      if write done.length chunk = false then (false, done, segment :: rest)
      else
        let done := done ++ (segment.data.drop segment.offset).take chunk
        if segment.offset + chunk = segment.len then readLoop write maxLen done rest
        -- the segment was longer than what was asked for, so that the loop ends
        else (true, done, { segment with offset := segment.offset + chunk } :: rest)
    else (true, done, segment :: rest)

/-- `reply_tcp_read`: the reply, the bytes written to the buffer, and the socket. -/
def replyTcpRead (s : TcpSocket) (buffer : Option (Nat → Nat → Bool)) (maxLen : Nat) :
    ReadReply × List UInt8 × TcpSocket :=
  match buffer with
  | none => ({ ok := false }, [], s)
  | some write =>
    if s.established = false ∨ s.reset ∨ maxLen = 0 then ({ ok := false }, [], s)
    else
      let (ok, done, rx) := readLoop write maxLen [] s.rx
      let s := { s with rx, rxLen := s.rxLen - done.length }
      if ok = false then ({ ok := false }, done, s)
      else if done = [] ∧ s.peerWriteClosed = false then ({ ok := false }, done, s)
      else ({ ok := true, done := done.length, closed := done = [] && s.peerWriteClosed }, done, s)

end TcpSocket

end Bunix.Net
