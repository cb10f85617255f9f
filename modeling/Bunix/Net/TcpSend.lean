import Bunix.Net.TcpStream

/-! # What a TCP socket sends

Bytes written before the handshake is done are queued, and flushed when it is; later ones are sent at
once. A flush that fails half-way is not taken up again, so that later bytes overtake the rest.
-/
namespace Bunix.Net

open Bunix.Lib List
open Bunix.Lib.Serial (mark)

abbrev SentSegment := Seq × List UInt8

/-- The sending side of a socket after its SYN, with what it has transmitted and the bytes of all
writes that reported success. -/
structure TcpSender where
  established : Bool := true
  writeClosed : Bool := false
  reset : Bool := false
  handshakeDone : Bool := false
  txSeq : Seq := 1
  /-- The queue from `tx_head` to `tx_tail`. -/
  tx : List TcpSegment := []
  txLen : Nat := 0
  sent : List SentSegment := []
  accepted : List UInt8 := []

/-- A write request: its bytes, and whether it has a buffer, there is memory, the buffer can be read
and the segment can be transmitted. -/
structure TcpWrite where
  data : List UInt8
  cap : Bool := true
  alloc : Bool := true
  readable : Bool := true
  transmits : Bool := true

def TcpWrite.segment (request : TcpWrite) : TcpSegment :=
  { seq := 0, capacity := request.data.length, data := request.data }

def netPacketMax : Nat := 65536

inductive SendEvent where
  | write (request : TcpWrite)
  /-- A SYN with ACK. The segment with so many behind it can be transmitted. -/
  | synAck (transmits : Nat → Bool)
  | rst
  | shutdownWrite
  | close

namespace TcpSender

variable (s : TcpSender)

def send (payload : List UInt8) : TcpSender :=
  { s with sent := s.sent ++ [(s.txSeq, payload)], txSeq := seqEnd s.txSeq payload.length }

/-- `tcp_flush_external_ipv4`, over the queue it starts with. -/
def tcpFlushExternalIpv4 (transmits : Nat → Bool) (s : TcpSender) : List TcpSegment → TcpSender
  | [] => s
  | segment :: rest =>
    if transmits rest.length then
      tcpFlushExternalIpv4 transmits
        { s.send segment.unread with tx := rest, txLen := s.txLen - segment.unread.length } rest
    else s

/-- `reply_tcp_write`, for an external IPv4 connection. -/
def replyTcpWrite (request : TcpWrite) : Bool × TcpSender :=
  if s.established = false ∨ s.writeClosed ∨ s.reset ∨ netPacketMax < request.data.length ∨
      request.cap = false then (false, s)
  else if request.data = [] then (true, s)
  else if request.alloc = false ∨ request.readable = false then (false, s)
  else if s.handshakeDone = false then
    (true, { s with tx := s.tx ++ [request.segment], txLen := s.txLen + request.data.length })
  else if request.transmits = false then (false, s)
  else (true, s.send request.data)

def tcpTxSegmentFreeAll : TcpSender := { s with tx := [], txLen := 0 }

def step : SendEvent → TcpSender
  | .write request =>
    let (ok, s') := s.replyTcpWrite request
    if ok then { s' with accepted := s.accepted ++ request.data } else s'
  | .synAck transmits =>
    if s.established = false ∨ s.handshakeDone then s
    else { s with handshakeDone := true }.tcpFlushExternalIpv4 transmits s.tx
  | .rst => if s.established then { s with reset := true } else s
  | .shutdownWrite => if s.established then { s with writeClosed := true }.tcpTxSegmentFreeAll else s
  | .close => { s with established := false }.tcpTxSegmentFreeAll

/-- No write meets bytes that a flush has left. -/
def Flushed : SendEvent → Prop
  | .write _ => s.handshakeDone = true → s.tx = []
  | _ => True

def FlushedStep (event : SendEvent) (s' : TcpSender) : Prop :=
  s.Flushed event ∧ s' = s.step event

/-- The bytes of segments, one after the other. -/
def bytes (segments : List SentSegment) : List UInt8 := segments.flatMap Prod.snd

/-- Each segment carries the sequence number of its first byte; that of the stream has number 1. -/
def Numbered (segments : List SentSegment) : Prop :=
  ∀ before seq payload after, segments = before ++ (seq, payload) :: after →
    seq = mark 1 (bytes before).length

/-- The bytes that are accepted have been sent or are queued, until the queue is dropped. -/
structure Ordered (s : TcpSender) : Prop where
  numbered : Numbered s.sent
  txSeq : s.txSeq = mark 1 (bytes s.sent).length
  account : bytes s.sent ++ s.tx.flatMap TcpSegment.unread <+: s.accepted
  all : s.established = true → s.writeClosed = false →
    bytes s.sent ++ s.tx.flatMap TcpSegment.unread = s.accepted

variable {s : TcpSender} {event : SendEvent} {payload : List UInt8} {segments : List TcpSegment}

theorem bytes_send : bytes (s.send payload).sent = bytes s.sent ++ payload := by
  rw [send, bytes, flatMap_append, flatMap_singleton]
  rfl

theorem Ordered.numbered_send (h : s.Ordered) : Numbered (s.send payload).sent := by
  intro before seq payload' after heq
  rcases append_eq_append_iff.mp heq with ⟨l, rfl, hl⟩ | ⟨l, hl, hr⟩
  · cases l with
    | nil =>
      cases hl
      rw [append_nil]
      exact h.txSeq
    | cons _ _ => simp at hl
  · cases l with
    | nil =>
      cases hr
      rw [append_nil] at hl
      rw [← hl]
      exact h.txSeq
    | cons x l =>
      cases hr
      exact h.numbered before seq payload' l hl

theorem Ordered.txSeq_send (h : s.Ordered) :
    (s.send payload).txSeq = mark 1 (bytes (s.send payload).sent).length := by
  rw [bytes_send, length_append]
  show seqEnd s.txSeq _ = _
  rw [h.txSeq]
  exact seqEnd_mark

theorem Ordered.flush (transmits : Nat → Bool) (h : s.Ordered) (htx : s.tx = segments) :
    (s.tcpFlushExternalIpv4 transmits segments).Ordered := by
  induction segments generalizing s with
  | nil => exact h
  | cons segment rest ih =>
    unfold tcpFlushExternalIpv4
    split
    · have hmoved : bytes (s.send segment.unread).sent ++ rest.flatMap TcpSegment.unread =
          bytes s.sent ++ s.tx.flatMap TcpSegment.unread := by
        rw [bytes_send, htx, flatMap_cons, append_assoc]
      exact ih ⟨h.numbered_send, h.txSeq_send, hmoved ▸ h.account, fun he hw => hmoved.trans (h.all he hw)⟩ rfl
    · exact h

theorem Ordered.sent_prefix (h : s.Ordered) : bytes s.sent <+: s.accepted :=
  (prefix_append _ _).trans h.account

theorem Ordered.free (h : s.Ordered)
    (hclosed : s.established = true → s.writeClosed = false → False) : s.tcpTxSegmentFreeAll.Ordered where
  numbered := h.numbered
  txSeq := h.txSeq
  account := by
    show bytes s.sent ++ [] <+: _
    rw [append_nil]
    exact h.sent_prefix
  all := fun he hw => (hclosed he hw).elim

theorem Ordered.step (h : s.Ordered) (hflushed : s.Flushed event) : (s.step event).Ordered := by
  cases event with
  | write request =>
    dsimp only [TcpSender.step]
    unfold replyTcpWrite
    split
    · exact h
    rename_i hopen
    simp only [not_or, Bool.not_eq_false, Bool.not_eq_true] at hopen
    have hall := h.all hopen.1 hopen.2.1
    split
    · rename_i hnil
      simp only [hnil, append_nil]
      exact h
    split
    · exact h
    split
    · have hqueued : bytes s.sent ++ (s.tx ++ [request.segment]).flatMap TcpSegment.unread =
          s.accepted ++ request.data := by
        rw [flatMap_append, flatMap_singleton, ← append_assoc, hall]
        rfl
      exact ⟨h.numbered, h.txSeq, hqueued ▸ prefix_rfl, fun _ _ => hqueued⟩
    rename_i hdone
    split
    · exact h
    · have hsent : bytes (s.send request.data).sent ++ s.tx.flatMap TcpSegment.unread =
          s.accepted ++ request.data := by
        rw [hflushed (Bool.not_eq_false _ ▸ hdone), flatMap_nil, append_nil] at hall ⊢
        rw [bytes_send, hall]
      exact ⟨h.numbered_send, h.txSeq_send, hsent ▸ prefix_rfl, fun _ _ => hsent⟩
  | synAck transmits =>
    dsimp only [TcpSender.step]
    split
    · exact h
    · exact Ordered.flush transmits ⟨h.numbered, h.txSeq, h.account, h.all⟩ rfl
  | rst =>
    dsimp only [TcpSender.step]
    split
    · exact ⟨h.numbered, h.txSeq, h.account, h.all⟩
    · exact h
  | shutdownWrite =>
    dsimp only [TcpSender.step]
    split
    · exact Ordered.free ⟨h.numbered, h.txSeq, h.account, nofun⟩ nofun
    · exact h
  | close => exact Ordered.free ⟨h.numbered, h.txSeq, h.account, nofun⟩ nofun

end TcpSender

end Bunix.Net
