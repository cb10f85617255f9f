import Bunix.Net.TcpStream

/-! # Runs of a connection

Segments of the stream of the peer arrive in any order, and the application reads. The bytes it has
got and those that are queued are always the beginning of the stream.
-/
namespace Bunix.Net

open Bunix.Lib List
open Bunix.Lib.Serial (mark)

/-- A socket with all bytes that have been written to the buffers of the application. -/
structure TcpConnection where
  socket : TcpSocket
  delivered : List UInt8 := []

inductive TcpEvent where
  /-- A packet, and whether there is memory for a segment. -/
  | packet (packet : TcpPacket) (alloc : Bool)
  /-- A read with its buffer; without one it fails. -/
  | read (buffer : Option (Nat → Nat → Bool)) (maxLen : Nat)

namespace TcpConnection

def step (c : TcpConnection) : TcpEvent → TcpConnection
  | .packet packet alloc => { c with socket := c.socket.ingress alloc packet }
  | .read buffer maxLen =>
    let (_, bytes, socket) := c.socket.replyTcpRead buffer maxLen
    { socket, delivered := c.delivered ++ bytes }

/-- A connection after the handshake with a peer that starts at `isn`. -/
def init (isn : Seq) : TcpConnection where
  socket := { rxAck := isn + 1, handshakeDone := true }

/-- How many bytes have been received in order. -/
def received (c : TcpConnection) : Nat := (c.delivered ++ c.socket.queued).length

/-- A data segment holds the bytes of the stream that its sequence number names. It is within the
window if it is not a half turn of the sequence numbers away from what is expected next. -/
def Arrives (stream : Nat → UInt8) (isn : Seq) (c : TcpConnection) : TcpEvent → Prop
  | .packet packet _ =>
    packet.syn = false ∧ packet.fin = false ∧ packet.rst = false ∧
      ∃ p, packet.seq = isn + 1 + BitVec.ofNat 32 p ∧
        packet.payload = slice stream p packet.payload.length ∧
        c.received ≤ p + 2 ^ 31 ∧ p + packet.payload.length < c.received + 2 ^ 31
  | .read .. => True

variable {stream : Nat → UInt8} {isn : Seq} {c : TcpConnection} {s : TcpSocket} {n : Nat}
  {delivered : List UInt8}

theorem received_ingress {packet alloc} (h : Received stream isn delivered s n)
    (hsyn : packet.syn = false) (hfin : packet.fin = false) (hrst : packet.rst = false)
    (hseq : packet.seq = mark (isn + 1) p)
    (hpayload : packet.payload = slice stream p packet.payload.length)
    (hold : n ≤ p + 2 ^ 31) (hnear : p + packet.payload.length < n + 2 ^ 31) :
    ∃ n', Received stream isn delivered (s.ingress alloc packet) n' := by
  have hingress : s.ingress alloc packet = s.ingressPayload alloc packet := by
    simp [TcpSocket.ingress, TcpSocket.ingressSynAck, TcpSocket.ingressFin, hsyn, hfin, hrst]
  have hafter : tcpSeqAfter packet.seq s.rxAck = decide (n < p) := by
    rw [hseq, h.ack]
    exact tcpSeqAfter_mark hold (by omega)
  rw [hingress]
  unfold TcpSocket.ingressPayload
  split
  · exact ⟨n, h⟩
  split
  · rename_i heq
    rw [hseq, h.ack, Serial.mark_inj _ (by omega) (by omega)] at heq
    exact h.tcpQueueInOrder (heq ▸ hpayload)
  split
  · rename_i hlt
    rw [hafter, decide_eq_true_eq] at hlt
    rw [hseq]
    exact ⟨n, h.tcpQueueOutOfOrder hlt hnear hpayload⟩
  rename_i hne hnot
  have hpn : p < n := by
    rw [hafter, decide_eq_true_eq] at hnot
    rw [hseq, h.ack] at hne
    have : p ≠ n := fun he => hne (he ▸ rfl)
    omega
  split
  · -- the beginning of the segment has been received already
    have htrim : (tcpSeqDistance packet.seq s.rxAck).toNat = n - p := by
      rw [hseq, h.ack]
      exact tcpSeqDistance_mark (by omega) (by omega)
    dsimp only
    rw [htrim]
    split
    · refine h.tcpQueueInOrder ?_
      have hdrop : packet.payload.drop (n - p) = slice stream n (packet.payload.length - (n - p)) := by
        conv_lhs => rw [hpayload]
        rw [drop_slice]
        congr 1
        omega
      rw [length_drop]
      exact hdrop
    · exact ⟨n, h⟩
  · exact ⟨n, h⟩

theorem readLoop_spec (write : Nat → Nat → Bool) (maxLen : Nat) {done out} {segments rest ok}
    (hoffsets : ∀ segment ∈ segments, segment.offset ≤ segment.len)
    (h : TcpSocket.readLoop write maxLen done segments = (ok, out, rest)) :
    out ++ rest.flatMap TcpSegment.unread = done ++ segments.flatMap TcpSegment.unread ∧
      ∀ segment ∈ rest, segment.offset ≤ segment.len := by
  induction segments generalizing done with
  | nil =>
    cases h
    exact ⟨rfl, hoffsets⟩
  | cons segment segments ih =>
    have hoffset := hoffsets segment mem_cons_self
    have hrest : ∀ segment ∈ segments, segment.offset ≤ segment.len :=
      fun seg hseg => hoffsets seg (mem_cons_of_mem _ hseg)
    unfold TcpSocket.readLoop at h
    split at h
    swap
    · cases h
      exact ⟨rfl, hoffsets⟩
    dsimp only at h
    split at h
    · cases h
      exact ⟨rfl, hoffsets⟩
    set chunk := min (segment.len - segment.offset) (maxLen - done.length) with hchunk
    have hsplit : (segment.data.drop segment.offset).take chunk ++
        segment.data.drop (segment.offset + chunk) = segment.unread := by
      rw [← drop_drop, take_append_drop]
      rfl
    split at h
    · rename_i hall
      obtain ⟨hbytes, hoff⟩ := ih hrest h
      refine ⟨?_, hoff⟩
      have hnone : segment.data.drop (segment.offset + chunk) = [] := by
        rw [hall]
        exact drop_length
      rw [hnone, append_nil] at hsplit
      rw [hbytes, flatMap_cons, ← hsplit, append_assoc]
    · cases h
      constructor
      · rw [flatMap_cons, flatMap_cons, ← hsplit]
        simp only [TcpSegment.unread, append_assoc]
      · intro seg hseg
        rcases mem_cons.mp hseg with rfl | hseg
        · show segment.offset + chunk ≤ segment.len
          omega
        · exact hrest seg hseg

theorem received_read {buffer maxLen} (h : Received stream isn delivered s n) :
    Received stream isn (delivered ++ (s.replyTcpRead buffer maxLen).2.1)
      (s.replyTcpRead buffer maxLen).2.2 n := by
  have same : Received stream isn (delivered ++ []) s n := by
    rw [append_nil]
    exact h
  unfold TcpSocket.replyTcpRead
  split
  · exact same
  rename_i write
  split
  · exact same
  cases hloop : TcpSocket.readLoop write maxLen [] s.rx with
  | mk ok rest =>
    obtain ⟨done, rx⟩ := rest
    obtain ⟨hbytes, hoffsets⟩ := readLoop_spec write maxLen h.offsets hloop
    rw [nil_append] at hbytes
    have hlen : done.length + (rx.flatMap TcpSegment.unread).length = s.rxLen := by
      rw [h.rxLen, TcpSocket.queued, ← hbytes, length_append]
    have hread : Received stream isn (delivered ++ done)
        { s with rx, rxLen := s.rxLen - done.length } n := by
      refine ⟨⟨?_, h.ack, ?_, h.ofoLen, hoffsets, h.established, h.handshake, h.reset⟩, h.early, ?_⟩
      · show delivered ++ done ++ rx.flatMap TcpSegment.unread = _
        rw [append_assoc, hbytes]
        exact h.bytes
      · show s.rxLen - done.length = (rx.flatMap TcpSegment.unread).length
        omega
      · show s.rxLen - done.length + s.ofoLen ≤ rxBufferLimit
        have := h.room
        omega
    dsimp only
    split
    · exact hread
    · split <;> exact hread

theorem Received.count (h : Received stream isn c.delivered c.socket n) : c.received = n := by
  rw [received, h.bytes, length_slice]

theorem step_received {event} (h : ∃ n, Received stream isn c.delivered c.socket n)
    (harrives : Arrives stream isn c event) :
    ∃ n, Received stream isn (c.step event).delivered (c.step event).socket n := by
  obtain ⟨n, h⟩ := h
  cases event with
  | packet packet alloc =>
    obtain ⟨hsyn, hfin, hrst, p, hseq, hpayload, hold, hnear⟩ := harrives
    rw [Received.count h] at hold hnear
    exact received_ingress h hsyn hfin hrst hseq hpayload hold hnear
  | read buffer maxLen => exact ⟨n, received_read h⟩

/-- What the queues and counters of a socket are, in terms of the stream of the peer. -/
structure Reassembled (stream : Nat → UInt8) (isn : Seq) (c : TcpConnection) : Prop where
  inOrder : c.delivered ++ c.socket.queued = slice stream 0 c.received
  ack : c.socket.rxAck = isn + 1 + BitVec.ofNat 32 c.received
  beyond : ∀ segment ∈ c.socket.ofo, 0 < (tcpSeqDistance c.socket.rxAck segment.seq).toNat
  sorted : c.socket.ofo.Pairwise fun first second =>
    (tcpSeqDistance c.socket.rxAck first.seq).toNat + first.len ≤
      (tcpSeqDistance c.socket.rxAck second.seq).toNat
  rxLen : c.socket.rxLen = c.socket.queued.length
  ofoLen : c.socket.ofoLen = (c.socket.ofo.map TcpSegment.len).sum

theorem early_sorted {hi lo segments}
    (h : Early stream isn hi lo segments) (hn : n ≤ lo) (hhi : hi < n + 2 ^ 32) :
    (∀ segment ∈ segments, lo - n ≤ (tcpSeqDistance (mark (isn + 1) n) segment.seq).toNat) ∧
      segments.Pairwise fun first second =>
        (tcpSeqDistance (mark (isn + 1) n) first.seq).toNat + first.len ≤
          (tcpSeqDistance (mark (isn + 1) n) second.seq).toNat := by
  induction h with
  | nil => exact ⟨fun _ hmem => absurd hmem not_mem_nil, .nil⟩
  | @cons lo p segment rest hlo hseq hdata hpos hoffset hend tail ih =>
    obtain ⟨hfar, hsorted⟩ := ih (by omega)
    have hd : (tcpSeqDistance (mark (isn + 1) n) segment.seq).toNat = p - n := by
      rw [hseq]
      exact tcpSeqDistance_mark (by omega) (by omega)
    refine ⟨fun seg hseg => ?_, .cons (fun seg hseg => ?_) hsorted⟩
    · rcases mem_cons.mp hseg with rfl | hseg
      · omega
      · have := hfar seg hseg
        omega
    · have := hfar seg hseg
      omega

theorem Received.reassembled (h : Received stream isn c.delivered c.socket n) :
    Reassembled stream isn c := by
  have hlimit : rxBufferLimit < 2 ^ 31 := by decide
  have hcount := Received.count h
  obtain ⟨hfar, hsorted⟩ := early_sorted h.early (Nat.le_succ n) (by omega)
  rw [← h.ack] at hfar hsorted
  refine ⟨?_, ?_, fun segment hmem => ?_, hsorted, h.rxLen, h.ofoLen⟩
  · rw [hcount]
    exact h.bytes
  · rw [hcount]
    exact h.ack
  · have := hfar segment hmem
    omega

theorem received_init (stream : Nat → UInt8) (isn : Seq) :
    Received stream isn (init isn).delivered (init isn).socket 0 where
  bytes := rfl
  ack := Serial.mark_zero.symm
  rxLen := rfl
  ofoLen := rfl
  offsets := fun segment hmem => by cases hmem
  established := rfl
  handshake := rfl
  reset := rfl
  early := .nil _
  room := Nat.zero_le _

/-- The stream 0, 1, 2, … starts right before the sequence numbers wrap around. Bytes 3 and 4 come
first, then 0 to 3, of which the application reads two. -/
def wrapStream : Nat → UInt8 := fun k => UInt8.ofNat k

def wrapEvents : List TcpEvent :=
  [.packet { seq := 1, payload := [3, 4] } true,
    .packet { seq := 0xfffffffe, payload := [0, 1, 2, 3] } true, .read (some fun _ _ => true) 2]

end TcpConnection

end Bunix.Net
