import Bunix.Types
import Bunix.Lib.OnesComplement

/-! # Internet checksums

The checksums of `user/net/main.c`. The code folds the carries in after every byte; sums stay below
2^16 then, so that natural numbers stand for them. Messages are byte strings.
-/
namespace Bunix.Net

open Bunix.Lib.OnesComplement

variable (tcp data : List UInt8)

/-! ## Computing a checksum -/

def netChecksumAddByte (sum : Nat) (byte : UInt8) (high : Bool) : Nat :=
  fold (sum + if high then byte.toNat * 256 else byte.toNat)

/-- The loop of `net_checksum_sum` from index `i` on. -/
def netChecksumLoop (i : Nat) : List UInt8 → Nat → Nat
  | [], sum => sum
  | byte :: rest, sum => netChecksumLoop (i + 1) rest (netChecksumAddByte sum byte (i % 2 == 0))

def netChecksumSum (sum : Nat) : Nat := netChecksumLoop 0 data sum

/-- `~sum & 0xffff`, after the carries. -/
def netChecksumFinish (sum : Nat) : Nat := 0xffff - fold sum

/-- The last `n` bytes of a word, the highest first. -/
def beBytes (n : Nat) (value : U64) : List UInt8 :=
  (List.range n).map fun i => UInt8.ofNat (value >>> ((n - 1 - i) * 8)).toNat

/-- `net_write_be16` of a checksum. -/
def writeBe16 (offset value : Nat) : List UInt8 :=
  (data.set offset (UInt8.ofNat (value / 256))).set (offset + 1) (UInt8.ofNat value)

def netProtoTcp : UInt8 := 6

def netProtoIcmpv6 : UInt8 := 58

/-- The pseudo-header of `ipv6_l4_checksum`. -/
def ipv6Pseudo (protocol : UInt8) (sourceHi sourceLo destHi destLo : U64) (len : Nat) :
    List UInt8 :=
  beBytes 8 sourceHi ++ beBytes 8 sourceLo ++ beBytes 8 destHi ++ beBytes 8 destLo ++ [0, 0] ++
    beBytes 2 (BitVec.ofNat 64 len) ++ [0, 0, 0, protocol]

/-- The pseudo-header of `tcp_ipv4_checksum`. -/
def tcpIpv4Pseudo (sourceIp destIp : U64) (len : Nat) : List UInt8 :=
  beBytes 4 sourceIp ++ beBytes 4 destIp ++ [0, netProtoTcp] ++ beBytes 2 (BitVec.ofNat 64 len)

/-- The checksum of a message with a pseudo-header before it. -/
def l4Checksum (pseudo data : List UInt8) : Nat :=
  netChecksumFinish (netChecksumSum data (netChecksumSum pseudo 0))

def icmpIpv4Checksum : Nat := netChecksumFinish (netChecksumSum data 0)

def ipv6L4Checksum (protocol : UInt8) (sourceHi sourceLo destHi destLo : U64) : Nat :=
  l4Checksum (ipv6Pseudo protocol sourceHi sourceLo destHi destLo data.length) data

def icmpIpv6Checksum (sourceHi sourceLo destHi destLo : U64) : Nat :=
  ipv6L4Checksum data netProtoIcmpv6 sourceHi sourceLo destHi destLo

def tcpIpv4Checksum (sourceIp destIp : U64) : Nat :=
  l4Checksum (tcpIpv4Pseudo sourceIp destIp tcp.length) tcp

def tcpIpv6Checksum (sourceHi sourceLo destHi destLo : U64) : Nat :=
  ipv6L4Checksum tcp netProtoTcp sourceHi sourceLo destHi destLo

/-! ## Storing it -/

/-- The field is zeroed, the checksum computed and stored. -/
def setChecksum (offset : Nat) (checksum : List UInt8 → Nat) (data : List UInt8) : List UInt8 :=
  writeBe16 (writeBe16 data offset 0) offset (checksum (writeBe16 data offset 0))

def icmpSetChecksum (ipv6 : Bool) (sourceHi sourceLo destHi destLo : U64) : List UInt8 :=
  if data.length < 4 then data
  else setChecksum 2 (fun data =>
    if ipv6 then icmpIpv6Checksum data sourceHi sourceLo destHi destLo else icmpIpv4Checksum data) data

/-- The header of an IPv4 packet, as `tcp_send_external_ipv4` completes it. -/
def ipv4SetChecksum (header : List UInt8) : List UInt8 :=
  setChecksum 10 (fun header => netChecksumFinish (netChecksumSum header 0)) header

/-- The TCP part of a frame, as `tcp_send_external_ipv4` completes it. -/
def tcpIpv4SetChecksum (sourceIp destIp : U64) : List UInt8 :=
  setChecksum 16 (fun tcp => tcpIpv4Checksum tcp sourceIp destIp) tcp

/-- The TCP part of a frame, as `tcp_connect_external_ipv6` completes it. -/
def tcpIpv6SetChecksum (sourceHi sourceLo destHi destLo : U64) : List UInt8 :=
  setChecksum 16 (fun tcp => tcpIpv6Checksum tcp sourceHi sourceLo destHi destLo) tcp

/-- The check of a receiver. -/
def Verifies (pseudo message : List UInt8) : Prop := sum (beWords pseudo ++ beWords message) = 0xffff

/-! ## The running fold -/

variable {data : List UInt8} {i n offset value : Nat}

theorem netChecksumLoop_eq (hi : i % 2 = 0) (hn : n ≤ 65535) :
    netChecksumLoop i data n = fold (n + (beWords data).sum) := by
  induction data using beWords.induct generalizing i n with
  | case1 => exact (fold_of_le hn).symm
  | case2 a => simp [netChecksumLoop, netChecksumAddByte, beWords, hi]
  | case3 a b rest ih =>
    have hodd : (i + 1) % 2 = 1 := by omega
    have hpair : netChecksumLoop i (a :: b :: rest) n =
        netChecksumLoop (i + 2) rest (fold (fold (n + a.toNat * 256) + b.toNat)) := by
      simp [netChecksumLoop, netChecksumAddByte, hi, hodd]
    rw [hpair, ih (by omega) (fold_le _), fold_add, Nat.add_assoc, fold_add, beWords, List.sum_cons]
    simp only [Nat.add_assoc]

theorem netChecksumSum_eq (pseudo data : List UInt8) :
    netChecksumSum data (netChecksumSum pseudo 0) = sum (beWords pseudo ++ beWords data) := by
  rw [sum_beWords, netChecksumSum, netChecksumSum, netChecksumLoop_eq rfl (Nat.zero_le _),
    netChecksumLoop_eq rfl (fold_le _), fold_add, Nat.zero_add]

/-! ## Verification -/

/-- A stored checksum adds itself to the words of the zeroed message. -/
theorem sum_writeBe16 (heven : offset % 2 = 0) (hroom : offset + 1 < data.length)
    (hvalue : value ≤ 65535) :
    (beWords (writeBe16 data offset value)).sum = (beWords (writeBe16 data offset 0)).sum + value := by
  induction data using beWords.induct generalizing offset with
  | case1 => cases hroom
  | case2 a => simp at hroom
  | case3 a b rest ih =>
    rcases offset with _ | _ | offset
    · simp only [writeBe16, List.set_cons_zero, List.set_cons_succ, Nat.zero_add, beWords, List.sum_cons,
        UInt8.toNat_ofNat']
      omega
    · cases heven
    · have h := ih (show offset % 2 = 0 by omega) (by simp at hroom; omega)
      simp only [writeBe16] at h
      simp only [writeBe16, List.set_cons_succ, beWords, List.sum_cons, h]
      omega

theorem writeBe16_writeBe16 (data : List UInt8) (offset first value : Nat) :
    writeBe16 (writeBe16 data offset first) offset value = writeBe16 data offset value := by
  unfold writeBe16
  rw [List.set_comm _ _ (Nat.succ_ne_self offset), List.set_set, List.set_set]

theorem length_writeBe16 : (writeBe16 data offset value).length = data.length := by simp [writeBe16]

theorem setChecksum_verifies (pseudo : List UInt8) {checksum} (heven : offset % 2 = 0)
    (hroom : offset + 1 < data.length)
    (hchecksum : checksum (writeBe16 data offset 0) = l4Checksum pseudo (writeBe16 data offset 0)) :
    Verifies pseudo (setChecksum offset checksum data) := by
  have hfinish : l4Checksum pseudo (writeBe16 data offset 0) =
      0xffff - fold ((beWords pseudo).sum + (beWords (writeBe16 data offset 0)).sum) := by
    rw [l4Checksum, netChecksumFinish, netChecksumSum_eq, sum_beWords, fold_of_le (fold_le _)]
  rw [Verifies, sum_beWords, setChecksum, hchecksum, hfinish, writeBe16_writeBe16,
    sum_writeBe16 heven hroom (Nat.sub_le _ _), ← Nat.add_assoc]
  exact fold_complement _

/-- Up to the length that an IP packet can have, the two bytes are the field of RFC 8200, of 32 bits. -/
theorem ipv6Pseudo_length (hn : n < 2 ^ 16) :
    [0, 0] ++ beBytes 2 (BitVec.ofNat 64 n) = beBytes 4 (BitVec.ofNat 64 n) := by
  have hhigh : ∀ k, 16 ≤ k → UInt8.ofNat (BitVec.ofNat 64 n >>> k).toNat = 0 := by
    intro k hk
    have hpow : 2 ^ 16 ≤ 2 ^ k := Nat.pow_le_pow_right (by decide) hk
    rw [BitVec.toNat_ushiftRight, BitVec.toNat_ofNat, Nat.mod_eq_of_lt (by omega),
      Nat.shiftRight_eq_div_pow, Nat.div_eq_of_lt (by omega)]
    rfl
  simpa [beBytes, List.range_succ, eq_comm] using And.intro (hhigh 24 (by decide)) (hhigh 16 le_rfl)

end Bunix.Net
