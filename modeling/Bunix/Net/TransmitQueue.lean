import Bunix.Types
import Bunix.Lib.PtrList

/-! # The transmit queue of an interface

`packet_tx_enqueue_tcp_ack` of `user/net/main.c`: an acknowledgement takes the place of the ones of
its connection that are still queued. Those are dropped before it is put in, which may fail.
-/
namespace Bunix.Net

variable (iface : NetInterface) (data packet : Frame)

open Bunix.Lib

abbrev Frame := List UInt8

def readByte (i : Nat) : Nat := (data.getD i 0).toNat

def netReadBe16 (i : Nat) : Nat := readByte data i * 256 + readByte data (i + 1)

def netReadBe32 (i : Nat) : Nat := netReadBe16 data i * 65536 + netReadBe16 data (i + 2)

structure AckFlow where
  (srcIp dstIp srcPort dstPort : Nat)
  deriving DecidableEq

/-- `ihl`, of the IP header behind the 14 bytes of the Ethernet header. -/
def ipHeaderLen : Nat := readByte packet 14 % 16 * 4

def tcpStart : Nat := 14 + ipHeaderLen packet

def tcpHeaderLen : Nat := readByte packet (tcpStart packet + 12) / 16 * 4

def packetIsPureTcpAckIpv4 : Option AckFlow :=
  let ihl := ipHeaderLen packet
  let totalLen := netReadBe16 packet 16
  let tcp := tcpStart packet
  if packet.length < 14 + 20 + 20 ∨ netReadBe16 packet 12 ≠ 0x0800 then none
  else if readByte packet 14 / 16 ≠ 4 ∨ readByte packet 23 ≠ 6 then none
  else if ihl < 20 ∨ packet.length < 14 + ihl + 20 then none
  else if totalLen < ihl + 20 ∨ packet.length < 14 + totalLen then none
  else if netReadBe16 packet 20 % 0x4000 ≠ 0 then none
  else if tcpHeaderLen packet < 20 ∨ totalLen ≠ ihl + tcpHeaderLen packet ∨
      readByte packet (tcp + 13) ≠ 0x10 then none
  else some ⟨netReadBe32 packet 26, netReadBe32 packet 30, netReadBe16 packet tcp,
    netReadBe16 packet (tcp + 2)⟩

def packetTcpAckSameFlow (flow : AckFlow) (packet : Frame) : Bool :=
  packetIsPureTcpAckIpv4 packet = some flow

/-- `struct net_interface`, with the packets of its queue at their addresses. -/
structure NetInterface where
  loopback : Bool
  running : Bool
  mtu : U64
  tx : LinkedQueue Nat
  data : Nat → Frame
  txDrops : U64

def interfaceFrameLimit : Nat :=
  if iface.mtu.toNat > 2 ^ 64 - 1 - 14 then 0 else iface.mtu.toNat + 14

def packetTxDropStaleTcpAcks (fuel : Nat) (iface : NetInterface) (data : Frame) :
    Option NetInterface :=
  match packetIsPureTcpAckIpv4 data with
  | none => some iface
  | some flow =>
    (iface.tx.removeIf (fun packet => packetTcpAckSameFlow flow (iface.data packet)) fuel none
      iface.tx.head).map fun tx => { iface with tx }

/-- What `packet_tx_enqueue_copy` tests before it allocates. -/
def NetInterface.refuses : Bool :=
  iface.loopback || data.length == 0 || decide (data.length > interfaceFrameLimit iface) || !iface.running

/-- `packet` is what `bunix_alloc` returns. -/
def packetTxEnqueueCopy (packet : Option Nat) (iface : NetInterface) (data : Frame) :
    Bool × NetInterface :=
  if iface.refuses data then
    (false, if iface.loopback then iface else { iface with txDrops := iface.txDrops + 1 })
  else
    match packet with
    | none => (false, { iface with txDrops := iface.txDrops + 1 })
    | some packet =>
      (true, { iface with tx := iface.tx.append packet, data := Function.update iface.data packet data })

def packetTxEnqueueTcpAck (fuel : Nat) (packet : Option Nat) (iface : NetInterface) (data : Frame) :
    Option (Bool × NetInterface) :=
  (packetTxDropStaleTcpAcks fuel iface data).map (packetTxEnqueueCopy packet · data)

/-! ## What is queued -/

def NetInterface.frames (packets : List Nat) : List Frame := packets.map iface.data

/-- Such a frame holds nothing behind its two headers, and no other flag is set. -/
theorem pureAck_empty {flow : AckFlow} {packet : Frame} (h : packetTcpAckSameFlow flow packet = true) :
    netReadBe16 packet 16 = ipHeaderLen packet + tcpHeaderLen packet ∧
      readByte packet (tcpStart packet + 13) = 0x10 := by
  have h : packetIsPureTcpAckIpv4 packet = some flow := by simpa [packetTcpAckSameFlow] using h
  simp only [packetIsPureTcpAckIpv4] at h
  split_ifs at h with h₁ h₂ h₃ h₄ h₅ h₆
  simp only [not_or, not_not] at h₆
  exact h₆.2

/-- The frames other than acknowledgements of the connection stay, in their order. -/
def KeepsOthers (flow : AckFlow) (data : Frame) (before after : List Frame) : Prop :=
  ∃ new, after = before.filter (fun f => !packetTcpAckSameFlow flow f) ++ new ∧ (new = [] ∨ new = [data])

variable {iface : NetInterface} {flow : AckFlow} {packets : List Nat} {packet : Option Nat} {fuel : Nat}

theorem packetTxDropStaleTcpAcks_spec {data} (hq : iface.tx.Holds ([] ++ packets))
    (hfuel : packets.length ≤ fuel) (hack : packetIsPureTcpAckIpv4 data = some flow) :
    ∃ tx, packetTxDropStaleTcpAcks fuel iface data = some { iface with tx } ∧
      tx.Holds (packets.filter fun p => !packetTcpAckSameFlow flow (iface.data p)) := by
  have hhead : iface.tx.head = packets.head? := PtrList.Chain.head_eq hq.represents
  obtain ⟨tx, hremove, htx⟩ :=
    LinkedQueue.removeIf_spec (fun p => packetTcpAckSameFlow flow (iface.data p)) hq hfuel
  refine ⟨tx, ?_, htx⟩
  simp only [packetTxDropStaleTcpAcks, hack, hhead]
  simpa using hremove

theorem packetTxEnqueueCopy_spec (iface : NetInterface) (data : Frame) (hq : iface.tx.Holds packets)
    (hfresh : ∀ a, packet = some a → a ∉ packets) :
    ∃ ok iface' packets', packetTxEnqueueCopy packet iface data = (ok, iface') ∧
      iface'.tx.Holds packets' ∧ iface'.frames packets' = iface.frames packets ++
        if iface.refuses data = true ∨ packet = none then [] else [data] := by
  by_cases hrefuses : iface.refuses data = true
  · refine ⟨_, _, packets, if_pos hrefuses, ?_, ?_⟩
    · split <;> exact hq
    · simp only [hrefuses, true_or, if_true, List.append_nil]
      split <;> rfl
  · cases packet with
    | none => exact ⟨_, _, packets, if_neg hrefuses, hq, by simp [NetInterface.frames]⟩
    | some a =>
      have ha := hfresh a rfl
      refine ⟨_, _, packets ++ [a], if_neg hrefuses, hq.append ha, ?_⟩
      have hother : packets.map (Function.update iface.data a data) = packets.map iface.data :=
        List.map_congr_left fun b hb => Function.update_of_ne (ne_of_mem_of_not_mem hb ha) ..
      simp [NetInterface.frames, hother, hrefuses]

/-- An acknowledgement from 10.0.0.2 to 10.0.0.1. -/
def ackFrame (number : UInt8) : Frame :=
  List.replicate 12 0 ++ [8, 0, 0x45, 0, 0, 40, 0, 0, 0, 0, 64, 6, 0, 0, 10, 0, 0, 2, 10, 0, 0, 1,
    16, 0, 0, 80, 0, 0, 0, 1, 0, 0, 0, number, 0x50, 0x10, 0, 0, 0, 0, 0, 0]

/-- An acknowledgement is queued. -/
def ackInterface : NetInterface :=
  ⟨false, true, 1500, ⟨⟨some 0, fun _ => none⟩, some 0⟩, fun _ => ackFrame 1, 0⟩

theorem ackInterface_holds : ackInterface.tx.Holds [0] := ⟨⟨rfl, rfl⟩, by simp, rfl⟩

def ackFlow : AckFlow := ⟨0x0a000002, 0x0a000001, 0x1000, 80⟩

theorem ackFrame_flow : packetIsPureTcpAckIpv4 (ackFrame 2) = some ackFlow := by decide +kernel

end Bunix.Net
