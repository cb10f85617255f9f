import Bunix.Net.TcpReceive
import Bunix.Lib.SerialNumber
import Bunix.Lib.Transition

/-! # TCP delivers the stream of the peer

Every byte of the peer has a position in its stream, and the sequence number of a segment names the
position of its first byte modulo 2³². All segments that are kept are close to each other, so that
comparing sequence numbers compares positions. In these terms the list of segments that came too
early is sorted and without overlaps, and draining and inserting are the usual operations on it.
-/
namespace Bunix.Net

open Bunix.Lib TcpSocket List Nat
open Bunix.Lib.Serial (mark mark_add)

variable {alloc : Bool}

/-! ## Comparing sequence numbers -/

section Comparison

variable {base : Seq} {a b n : Nat}

theorem tcpSeqDistance_mark (hab : a ≤ b) (hlt : b < a + 2 ^ 32) :
    (tcpSeqDistance (mark base a) (mark base b)).toNat = b - a :=
  Serial.toNat_mark_sub base hab hlt

theorem seqEnd_mark : seqEnd (mark base a) n = mark base (a + n) := mark_add

theorem distance_mark (hab : a ≤ b + 2 ^ 31) (hba : b < a + 2 ^ 31) :
    ((mark base b - mark base a) != 0 && decide ((mark base b - mark base a).toNat < 0x80000000)) =
      decide (a < b) := by
  rcases lt_trichotomy a b with hlt | rfl | hlt
  · have hd := Serial.toNat_mark_sub base (le_of_lt hlt) (by omega)
    have hne : mark base b - mark base a ≠ 0 := by
      intro he
      rw [he] at hd
      simp at hd
      omega
    rw [hd, decide_eq_true hlt, Bool.and_eq_true, bne_iff_ne, decide_eq_true_eq]
    exact ⟨hne, by omega⟩
  · simp
  · have hd := Serial.toNat_mark_sub_of_lt base hlt (by omega)
    rw [hd, decide_eq_false (show ¬ a < b by omega), decide_eq_false (by omega), Bool.and_false]

theorem tcpSeqBefore_mark (hab : a ≤ b + 2 ^ 31) (hba : b < a + 2 ^ 31) :
    tcpSeqBefore (mark base a) (mark base b) = decide (a < b) := distance_mark hab hba

theorem tcpSeqAfter_mark (hba : b ≤ a + 2 ^ 31) (hab : a < b + 2 ^ 31) :
    tcpSeqAfter (mark base a) (mark base b) = decide (b < a) := distance_mark hba hab

end Comparison

def TcpSegment.unread (segment : TcpSegment) : List UInt8 := segment.data.drop segment.offset

def TcpSocket.queued (s : TcpSocket) : List UInt8 := s.rx.flatMap TcpSegment.unread

section Stream

variable (stream : Nat → UInt8) (isn : Seq)

/-- Segments at growing positions from `lo` on, below `hi`, that do not overlap and hold what the
stream has there. -/
inductive Early (hi : Nat) : Nat → List TcpSegment → Prop
  | nil (lo : Nat) : Early hi lo []
  | cons {lo p : Nat} {segment : TcpSegment} {rest : List TcpSegment} (hlo : lo ≤ p)
      (hseq : segment.seq = mark (isn + 1) p) (hdata : segment.data = slice stream p segment.len)
      (hpos : 0 < segment.len) (hoffset : segment.offset = 0) (hend : p + segment.len ≤ hi)
      (tail : Early hi (p + segment.len) rest) : Early hi lo (segment :: rest)

/-- The first `n` bytes have been delivered or are queued in order. -/
structure InOrder (delivered : List UInt8) (s : TcpSocket) (n : Nat) : Prop where
  bytes : delivered ++ s.queued = slice stream 0 n
  ack : s.rxAck = mark (isn + 1) n
  rxLen : s.rxLen = s.queued.length
  ofoLen : s.ofoLen = (s.ofo.map TcpSegment.len).sum
  offsets : ∀ segment ∈ s.rx, segment.offset ≤ segment.len
  established : s.established = true
  handshake : s.handshakeDone = true
  reset : s.reset = false

structure Received (delivered : List UInt8) (s : TcpSocket) (n : Nat) : Prop
    extends InOrder stream isn delivered s n where
  early : Early stream isn (n + rxBufferLimit) (n + 1) s.ofo
  room : s.rxLen + s.ofoLen ≤ rxBufferLimit

variable {stream isn}
variable {delivered : List UInt8} {s : TcpSocket} {n lo hi p : Nat} {segment : TcpSegment}
  {segments rest : List TcpSegment} {data : List UInt8}

theorem Early.raise {hi'} (h : Early stream isn hi lo segments) (hhi : hi ≤ hi') :
    Early stream isn hi' lo segments := by
  induction h with
  | nil lo => exact .nil lo
  | cons hlo hseq hdata hpos hoffset hend _ ih =>
    exact .cons hlo hseq hdata hpos hoffset (le_trans hend hhi) ih

/-! ## Draining -/

theorem length_unread : segment.unread.length = segment.len - segment.offset := length_drop

theorem TcpSocket.queued_appendExisting : (s.appendExisting segment).queued = s.queued ++ segment.unread := by
  simp [queued, appendExisting]

theorem slice_snoc {len} (h : delivered ++ s.queued = slice stream 0 n) :
    delivered ++ (s.queued ++ slice stream n len) = slice stream 0 (n + len) := by
  rw [← append_assoc, h]
  exact (congrArg (slice stream 0 n ++ slice stream · len) (zero_add n).symm).trans slice_append

section
variable (h : InOrder stream isn delivered s n)
include h

theorem InOrder.accept (segment : TcpSegment) (hoffset : segment.offset ≤ segment.len)
    (hdata : segment.unread = slice stream n (segment.len - segment.offset)) :
    InOrder stream isn delivered (s.acceptSegment segment) (n + (segment.len - segment.offset)) where
  __ := h
  bytes := by
    show delivered ++ queued (appendExisting _ segment) = _
    rw [queued_appendExisting, hdata]
    exact slice_snoc h.bytes
  ack := by
    show seqEnd s.rxAck _ = _
    rw [h.ack, seqEnd_mark]
  rxLen := by
    show s.rxLen + (segment.len - segment.offset) = (queued (appendExisting _ segment)).length
    rw [queued_appendExisting, length_append, length_unread, h.rxLen]
    rfl
  offsets := by
    intro seg hseg
    rcases mem_append.mp hseg with hseg | hseg
    · exact h.offsets seg hseg
    · rw [mem_singleton.mp hseg]
      exact hoffset

theorem InOrder.pop (hofo : s.ofo = segment :: rest) :
    InOrder stream isn delivered (s.popOutOfOrder segment rest) n where
  __ := h
  ofoLen := by
    have hsum : s.ofoLen = segment.len + (rest.map TcpSegment.len).sum := by
      rw [h.ofoLen, hofo, map_cons, sum_cons]
    show (if segment.len ≤ s.ofoLen then s.ofoLen - segment.len else 0) = _
    rw [if_pos (by omega), hsum, Nat.add_sub_cancel_left]
    rfl

theorem pop_room (hofo : s.ofo = segment :: rest) :
    (s.popOutOfOrder segment rest).rxLen + (s.popOutOfOrder segment rest).ofoLen + segment.len =
      s.rxLen + s.ofoLen := by
  have hsum : s.ofoLen = segment.len + (rest.map TcpSegment.len).sum := by
    rw [h.ofoLen, hofo, map_cons, sum_cons]
  have hpop : (s.popOutOfOrder segment rest).ofoLen = s.ofoLen - segment.len := if_pos (by omega)
  have hrx : (s.popOutOfOrder segment rest).rxLen = s.rxLen := rfl
  omega

end

/-- What is left after a drain stands behind what has been received by then. -/
def Drained (stream : Nat → UInt8) (isn : Seq) (delivered : List UInt8) (hi n room : Nat)
    (s : TcpSocket) : Prop :=
  ∃ n', n' ≤ hi ∧ n ≤ n' ∧ InOrder stream isn delivered s n' ∧
    Early stream isn hi (n' + 1) s.ofo ∧ s.rxLen + s.ofoLen ≤ room

theorem Drained.weaken {room room'} (h : Drained stream isn delivered hi n room s)
    (hn : n' ≤ n) (hroom : room ≤ room') : Drained stream isn delivered hi n' room' s := by
  obtain ⟨k, hk, hnk, hin, hearly, hle⟩ := h
  exact ⟨k, hk, le_trans hn hnk, hin, hearly, le_trans hle hroom⟩

theorem drainLoop_spec (base : Nat) (h : InOrder stream isn delivered s n) (hofo : s.ofo = segments)
    (hearly : Early stream isn hi lo segments) (hbase : base ≤ n) (hlo : base < lo)
    (hhi : hi ≤ base + rxBufferLimit) (hn : n ≤ hi) :
    Drained stream isn delivered hi n (s.rxLen + s.ofoLen) (s.drainLoop segments) := by
  induction segments generalizing s n lo with
  | nil =>
    refine ⟨n, hn, le_refl n, h, ?_, le_refl _⟩
    show Early stream isn hi (n + 1) s.ofo
    rw [hofo]
    exact .nil _
  | cons segment rest ih =>
    cases hearly with
    | @cons _ p _ _ hle hseq hdata hpos hoffset hend tail =>
      have hlimit : rxBufferLimit < 2 ^ 31 := by decide
      have hroom := pop_room h hofo
      have hpop := h.pop hofo
      have heq : segment.seq = s.rxAck ↔ p = n := by
        rw [hseq, h.ack]
        exact Serial.mark_inj _ (by omega) (by omega)
      have hbefore : tcpSeqBefore segment.seq s.rxAck = decide (p < n) := by
        rw [hseq, h.ack]
        exact tcpSeqBefore_mark (by omega) (by omega)
      have hafter : tcpSeqAfter (seqEnd segment.seq segment.len) s.rxAck =
          decide (n < p + segment.len) := by
        rw [hseq, h.ack, seqEnd_mark]
        exact tcpSeqAfter_mark (by omega) (by omega)
      -- a segment of which `trim` bytes have been received already
      have accept : ∀ trim (seq : Seq), p + trim = n → trim < segment.len →
          Drained stream isn delivered hi n (s.rxLen + s.ofoLen)
            (((s.popOutOfOrder segment rest).acceptSegment
              { segment with seq, offset := trim }).drainLoop rest) := by
        intro trim seq htrim hlt
        set accepted : TcpSegment := { segment with seq, offset := trim }
        have hunread : accepted.unread = slice stream n (accepted.len - accepted.offset) := by
          show segment.data.drop trim = slice stream n (segment.len - trim)
          conv_lhs => rw [hdata]
          rw [drop_slice, htrim]
        have hacc := hpop.accept accepted (le_of_lt hlt) hunread
        have hn' : n + (accepted.len - accepted.offset) = p + segment.len := by
          show n + (segment.len - trim) = _
          omega
        rw [hn'] at hacc
        refine (ih hacc rfl tail (by omega) (by omega) hend).weaken (by omega) ?_
        have hrx : ((s.popOutOfOrder segment rest).acceptSegment accepted).rxLen =
            (s.popOutOfOrder segment rest).rxLen + (segment.len - trim) := rfl
        have hofo' : ((s.popOutOfOrder segment rest).acceptSegment accepted).ofoLen =
            (s.popOutOfOrder segment rest).ofoLen := rfl
        omega
      have discard : Drained stream isn delivered hi n (s.rxLen + s.ofoLen)
          ((s.popOutOfOrder segment rest).drainLoop rest) :=
        (ih hpop rfl tail hbase (by omega) hn).weaken (le_refl n) (by omega)
      unfold drainLoop
      split
      · rename_i hne
        rw [ne_eq, heq] at hne
        rw [hbefore, hafter]
        split
        · rename_i hnot
          have hnot : ¬ p < n := by simpa using hnot
          refine ⟨n, hn, le_refl n, h, ?_, le_refl _⟩
          rw [hofo]
          exact .cons (by omega) hseq hdata hpos hoffset hend tail
        · rename_i hlt
          have hlt : p < n := by simpa using hlt
          split
          · exact discard
          rename_i hover
          have hover : n < p + segment.len := by simpa using hover
          have htrim : (tcpSeqDistance segment.seq s.rxAck).toNat = n - p := by
            rw [hseq, h.ack]
            exact tcpSeqDistance_mark (by omega) (by omega)
          rw [htrim, if_neg (by omega)]
          exact accept (n - p) s.rxAck (by omega) (by omega)
      · rename_i heq'
        have hpn : p = n := heq.mp (not_not.mp heq')
        have := accept 0 segment.seq hpn hpos
        rw [← hoffset] at this
        exact this

/-! ## Queueing -/

theorem Received.canQueue {len} (h : Received stream isn delivered s n) :
    s.tcpReceiveCanQueue len = true ↔ s.rxLen + s.ofoLen + len ≤ rxBufferLimit := by
  have hroom := h.room
  have hlimit : rxBufferLimit < 2 ^ 64 := by decide
  have hqueued : s.tcpReceiveQueuedLen = s.rxLen + s.ofoLen := by
    unfold tcpReceiveQueuedLen
    rw [mod_eq_of_lt (by omega)]
    exact if_neg (by omega)
  unfold tcpReceiveCanQueue
  simp only [Bool.and_eq_true, decide_eq_true_eq]
  omega

theorem appendData_spec (h : InOrder stream isn delivered s n) (ht : s.appendData alloc data = some t) :
    t.queued = s.queued ++ data ∧ t.rxLen = s.rxLen + data.length ∧
      (∀ segment ∈ t.rx, segment.offset ≤ segment.len) ∧
      t = { s with rx := t.rx, rxLen := t.rxLen } := by
  set new : TcpSegment := { seq := 0, capacity := max rxSegmentCapacity data.length, data } with hnew
  have happend : (s.appendExisting new).queued = s.queued ++ data ∧
      (s.appendExisting new).rxLen = s.rxLen + data.length ∧
      (∀ segment ∈ (s.appendExisting new).rx, segment.offset ≤ segment.len) ∧ s.appendExisting new =
        { s with rx := (s.appendExisting new).rx, rxLen := (s.appendExisting new).rxLen } := by
    refine ⟨queued_appendExisting, rfl, fun segment hmem => ?_, rfl⟩
    rcases mem_append.mp hmem with hmem | hmem
    · exact h.offsets segment hmem
    · rw [mem_singleton.mp hmem]
      exact zero_le _
  unfold appendData at ht
  split at ht
  · rename_i tail htail
    split at ht
    · cases ht
      obtain ⟨front, hfront⟩ := getLast?_eq_some_iff.mp htail
      have hle : tail.offset ≤ tail.len := h.offsets tail (hfront ▸ mem_append_right _ mem_cons_self)
      have hdrop : s.rx.dropLast = front := by rw [hfront, dropLast_concat]
      refine ⟨?_, rfl, fun segment hmem => ?_, rfl⟩
      · show (s.rx.dropLast ++ [{ tail with data := tail.data ++ data }]).flatMap TcpSegment.unread = _
        rw [hdrop, queued, hfront, flatMap_append, flatMap_append,
          flatMap_singleton, flatMap_singleton, append_assoc]
        congr 1
        exact drop_append_of_le_length hle
      · rcases mem_append.mp hmem with hmem | hmem
        · exact h.offsets segment (mem_of_mem_dropLast hmem)
        · rw [mem_singleton.mp hmem]
          show tail.offset ≤ (tail.data ++ data).length
          rw [length_append]
          exact le_add_right_of_le hle
    · split at ht
      · cases ht
        exact happend
      · cases ht
  · split at ht
    · cases ht
      exact happend
    · cases ht

theorem Received.tcpQueueInOrder (h : Received stream isn delivered s n)
    (hdata : data = slice stream n data.length) :
    ∃ n', Received stream isn delivered (s.tcpQueueInOrder alloc data).2 n' := by
  unfold TcpSocket.tcpQueueInOrder
  split
  · exact ⟨n, h⟩
  rename_i hcan
  have hcan : s.rxLen + s.ofoLen + data.length ≤ rxBufferLimit := h.canQueue.mp (by simpa using hcan)
  split
  · exact ⟨n, h⟩
  rename_i t ht
  obtain ⟨hqueued, hrxLen, hoffsets, heq⟩ := appendData_spec h.toInOrder ht
  have hofo : t.ofo = s.ofo := by rw [heq]
  have hofoLen : t.ofoLen = s.ofoLen := by rw [heq]
  set u : TcpSocket := { t with rxAck := seqEnd t.rxAck data.length } with hu
  have hin : InOrder stream isn delivered u (n + data.length) := by
    refine ⟨?_, ?_, ?_, ?_, hoffsets, ?_, ?_, ?_⟩
    · show delivered ++ t.queued = _
      rw [hqueued]
      conv_lhs => rw [hdata]
      exact slice_snoc h.bytes
    · show seqEnd t.rxAck data.length = _
      rw [heq, ← seqEnd_mark, ← h.ack]
    · show t.rxLen = t.queued.length
      rw [hrxLen, hqueued, length_append, h.rxLen]
    · rw [hofo, hofoLen, h.ofoLen]
    · show t.established = true
      rw [heq]
      exact h.established
    · show t.handshakeDone = true
      rw [heq]
      exact h.handshake
    · show t.reset = false
      rw [heq]
      exact h.reset
  have huofo : u.ofo = s.ofo := hofo
  have hroom : u.rxLen + u.ofoLen ≤ rxBufferLimit := by
    show t.rxLen + t.ofoLen ≤ rxBufferLimit
    omega
  obtain ⟨n', -, hn', hin', hearly, hle⟩ := drainLoop_spec n hin rfl (huofo ▸ h.early)
    (by omega) (by omega) (le_refl _) (by omega)
  exact ⟨n', hin', hearly.raise (by omega), le_trans hle hroom⟩

theorem insertSegment_spec {inserted} (h : Early stream isn hi lo segments)
    (hins : insertSegment segment segments = some inserted)
    (hlo : lo ≤ p) (hend : p + segment.len ≤ hi) (hhi : hi < lo + 2 ^ 31)
    (hseq : segment.seq = mark (isn + 1) p) (hdata : segment.data = slice stream p segment.len)
    (hpos : 0 < segment.len) (hoffset : segment.offset = 0) :
    Early stream isn hi lo inserted ∧
      (inserted.map TcpSegment.len).sum = segment.len + (segments.map TcpSegment.len).sum := by
  induction h generalizing inserted with
  | nil lo =>
    cases hins
    exact ⟨.cons hlo hseq hdata hpos hoffset hend (.nil _), rfl⟩
  | @cons lo q next rest hle hnseq hndata hnpos hnoffset hnend tail ih =>
    have hbefore : tcpSeqBefore next.seq segment.seq = decide (q < p) := by
      rw [hnseq, hseq]
      exact tcpSeqBefore_mark (by omega) (by omega)
    unfold insertSegment at hins
    rw [hbefore] at hins
    by_cases hqp : q < p
    · rw [if_pos (decide_eq_true hqp)] at hins
      have hafter : tcpSeqAfter segment.seq (seqEnd next.seq next.len) = decide (q + next.len < p) := by
        rw [hnseq, hseq, seqEnd_mark]
        exact tcpSeqAfter_mark (by omega) (by omega)
      have heq : segment.seq = seqEnd next.seq next.len ↔ p = q + next.len := by
        rw [hnseq, hseq, seqEnd_mark]
        exact Serial.mark_inj _ (by omega) (by omega)
      dsimp only at hins
      split at hins
      · cases hins
      rename_i hclear
      have hclear : q + next.len ≤ p := by
        rw [hafter, ne_eq, heq, not_and_or, not_not, decide_eq_false_iff_not, not_not] at hclear
        omega
      obtain ⟨l, hl, rfl⟩ := Option.map_eq_some_iff.mp hins
      obtain ⟨hearly, hsum⟩ := ih hl hclear (by omega)
      refine ⟨.cons hle hnseq hndata hnpos hnoffset hnend hearly, ?_⟩
      rw [map_cons, sum_cons, hsum, map_cons, sum_cons]
      omega
    · rw [if_neg (by simpa using hqp)] at hins
      split at hins
      · cases hins
      have hend' : tcpSeqBefore (seqEnd segment.seq segment.len) next.seq =
          decide (p + segment.len < q) := by
        rw [hnseq, hseq, seqEnd_mark]
        exact tcpSeqBefore_mark (by omega) (by omega)
      have heq : seqEnd segment.seq segment.len = next.seq ↔ p + segment.len = q := by
        rw [hnseq, hseq, seqEnd_mark]
        exact Serial.mark_inj _ (by omega) (by omega)
      dsimp only at hins
      split at hins
      · cases hins
      rename_i hclear
      have hclear : p + segment.len ≤ q := by
        rw [hend', ne_eq, heq, not_and_or, not_not, decide_eq_false_iff_not, not_not] at hclear
        omega
      cases hins
      exact ⟨.cons hlo hseq hdata hpos hoffset hend
        (.cons hclear hnseq hndata hnpos hnoffset hnend tail), rfl⟩

theorem Received.tcpQueueOutOfOrder (h : Received stream isn delivered s n)
    (hp : n < p) (hnear : p + data.length < n + 2 ^ 31) (hdata : data = slice stream p data.length) :
    Received stream isn delivered (s.tcpQueueOutOfOrder alloc data (mark (isn + 1) p)) n := by
  unfold TcpSocket.tcpQueueOutOfOrder
  split
  · exact h
  rename_i hcond
  simp only [not_or, Bool.not_eq_false] at hcond
  obtain ⟨hpos, hstart, hending, hcan⟩ := hcond
  have hcan := h.canQueue.mp hcan
  have hlimit : rxBufferLimit < 2 ^ 30 := by decide
  rw [h.ack, seqEnd_mark, tcpSeqDistance_mark (by omega) (by omega)] at hending
  split
  · exact h
  rename_i ofo hins
  split
  swap
  · exact h
  obtain ⟨hearly, hsum⟩ := insertSegment_spec h.early hins (by omega)
    (show p + data.length ≤ n + rxBufferLimit by omega) (by omega) rfl hdata
    (Nat.pos_of_ne_zero hpos) rfl
  refine ⟨⟨h.bytes, h.ack, h.rxLen, ?_, h.offsets, h.established, h.handshake, h.reset⟩, hearly, ?_⟩
  · rw [hsum, ← h.ofoLen, add_comm]
    rfl
  · show s.rxLen + (s.ofoLen + data.length) ≤ rxBufferLimit
    omega

end Stream

end Bunix.Net
