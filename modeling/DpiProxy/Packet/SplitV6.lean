import DpiProxy.Packet.Checksum
import DpiProxy.Wire.Cursor

namespace DpiProxy.Packet

open Wire OnesComplement

-- The checksum field at offset 16 of the segment contributes nothing. The length stands
-- in four bytes of the pseudo-header, the next header in its last one.
def checksumTcpV6 (ip tcpSeg : Bytes) (tcpSegLen : Nat) : UInt16 :=
  if tcpSegLen < 18 then 0
  else
    let pseudo : Bytes := u32 (UInt32.ofNat tcpSegLen) ++ [0, 0, 0, 6]
    let sum := checksumAccumulate (ip6Src ip) 0
    let sum := checksumAccumulate (ip6Dst ip) sum
    let sum := checksumAccumulate pseudo sum
    let sum := checksumAccumulate (slice tcpSeg 0 16) sum
    let sum := checksumAccumulate (slice tcpSeg 18 (tcpSegLen - 18)) sum
    checksumFinalize sum

-- out1 of packet_split_tcp_v6; upper_len has 16 bits.
def splitFirstV6 (input : Bytes) (tcp : TcpView) (splitOffset : Nat) : Bytes :=
  let out := input.take (IPV6_HEADER_SIZE + tcp.offsetBytes) ++ tcp.payload.take splitOffset
  let upperLen := UInt16.ofNat (tcp.offsetBytes + splitOffset)
  let out := put16 out 4 upperLen.toNat
  let out := put16 out (IPV6_HEADER_SIZE + 16) 0
  put16 out (IPV6_HEADER_SIZE + 16) (checksumTcpV6 out (out.drop IPV6_HEADER_SIZE) upperLen.toNat).toNat

-- out2 of packet_split_tcp_v6.
def splitSecondV6 (input : Bytes) (tcp : TcpView) (splitOffset : Nat) : Bytes :=
  let out := input.take (IPV6_HEADER_SIZE + tcp.offsetBytes) ++ tcp.payload.drop splitOffset
  let upperLen := UInt16.ofNat (tcp.offsetBytes + (tcp.payload.length - splitOffset))
  let out := put16 out 4 upperLen.toNat
  let out := put32 out (IPV6_HEADER_SIZE + 4) (tcp.seq + UInt32.ofNat splitOffset)
  let out := put16 out (IPV6_HEADER_SIZE + 16) 0
  put16 out (IPV6_HEADER_SIZE + 16) (checksumTcpV6 out (out.drop IPV6_HEADER_SIZE) upperLen.toNat).toNat

def packetSplitTcpV6 (input : Bytes) (splitOffset : Nat) : Result (Bytes × Bytes) := do
  let ip ← packetParseIpv6 input
  let tcp ← packetParseTcp ip.payload
  if splitOffset = 0 ∨ splitOffset ≥ tcp.payload.length then .error .malformed
  else .ok (splitFirstV6 input tcp splitOffset, splitSecondV6 input tcp splitOffset)

section Checksum

-- The check of a segment with the pseudo-header of IPv6.
def pseudoHeaderV6 (ip : Bytes) (len : Nat) : Bytes :=
  ip6Src ip ++ ip6Dst ip ++ (u32 (UInt32.ofNat len) ++ [0, 0, 0, 6])

def TcpChecksumOkV6 (ip segment : Bytes) : Prop := Verifies (pseudoHeaderV6 ip segment.length ++ segment)

variable {ip : Bytes}

theorem ip6_addresses_length (hip : 40 ≤ ip.length) : (ip6Src ip).length = 16 ∧ (ip6Dst ip).length = 16 :=
  ⟨length_slice_of_le _ _ _ (by omega), length_slice_of_le _ _ _ (by omega)⟩

theorem pseudoHeaderV6_length (hip : 40 ≤ ip.length) (len : Nat) : (pseudoHeaderV6 ip len).length = 40 := by
  obtain ⟨hsrc, hdst⟩ := ip6_addresses_length hip
  simp [pseudoHeaderV6, hsrc, hdst]

theorem checksumTcpV6_toNat (hip : 40 ≤ ip.length) {segment : Bytes} (h : 18 ≤ segment.length)
    (hmax : segment.length < 65536) :
    (checksumTcpV6 ip segment segment.length).toNat =
      65535 - norm (segmentRest (pseudoHeaderV6 ip segment.length) segment) := by
  obtain ⟨hsrc, hdst⟩ := ip6_addresses_length hip
  have hlen := pseudoHeaderV6_length hip segment.length
  have hparts : ([ip6Src ip, ip6Dst ip, u32 (UInt32.ofNat segment.length) ++ [0, 0, 0, 6]].map
      fun b => (words b).sum).sum = (words (pseudoHeaderV6 ip segment.length)).sum := by
    rw [pseudoHeaderV6, words_append _ _ (by simp [hsrc, hdst]), words_append _ _ (by simp [hsrc])]
    simp
  have hsum := segmentChecksum_toNat _ hparts h (by omega)
  rw [checksumTcpV6, if_neg (by omega)]
  exact hsum

-- A segment whose field holds the computed checksum verifies.
theorem tcpChecksumOkV6_of_field (hip : 40 ≤ ip.length) {segment : Bytes} (h : 18 ≤ segment.length)
    (hmax : segment.length < 65536) (hfield : be16 segment 16 = (checksumTcpV6 ip segment segment.length).toNat) :
    TcpChecksumOkV6 ip segment := by
  have hlen := pseudoHeaderV6_length hip segment.length
  rw [TcpChecksumOkV6, verifies_behind_iff (by omega) h, hfield, checksumTcpV6_toNat hip h hmax]
  exact norm_add_complement _

-- The checksum does not read its own field.
theorem checksumTcpV6_put16 (b : Bytes) (n len : Nat) :
    checksumTcpV6 (put16 b 56 n) ((put16 b 56 n).drop 40) len = checksumTcpV6 b (b.drop 40) len := by
  have hsrc : ip6Src (put16 b 56 n) = ip6Src b := slice_put16 _ _ _ _ _ (by omega)
  have hdst : ip6Dst (put16 b 56 n) = ip6Dst b := slice_put16 _ _ _ _ _ (by omega)
  have hbefore : slice ((put16 b 56 n).drop 40) 0 16 = slice (b.drop 40) 0 16 := by
    rw [slice_drop, slice_drop, slice_put16 _ _ _ _ _ (by omega)]
  have hbehind : slice ((put16 b 56 n).drop 40) 18 (len - 18) = slice (b.drop 40) 18 (len - 18) := by
    rw [slice_drop, slice_drop, slice_put16 _ _ _ _ _ (by omega)]
  simp only [checksumTcpV6, hsrc, hdst, hbefore, hbehind]

end Checksum

-- The geometry of an IPv6/TCP packet: what both parsers accept, and where the parts lie.
structure DatagramV6 (raw : Bytes) where
  offset : Nat
  upper : Nat
  version : (byte raw 0).toNat / 16 = 6
  upper_eq : ip6PayloadLen raw = upper
  upper_le : upper + 40 ≤ raw.length
  tcp : ip6NextHeader raw = IPPROTO_TCP
  offset_eq : (byte raw 52).toNat / 16 * 4 = offset
  offset_ge : 20 ≤ offset
  fits : offset ≤ upper

namespace DatagramV6

variable {raw : Bytes} (d : DatagramV6 raw)

def hdrs : Nat := 40 + d.offset

def segment : Bytes := slice raw 40 d.upper
def payload : Bytes := slice raw d.hdrs (d.upper - d.offset)

def ipView : Ipv6View where
  header := raw
  nextHeader := IPPROTO_TCP
  payload := d.segment

def tcpView : TcpView where
  header := d.segment
  offsetBytes := d.offset
  seq := be32 raw 44
  ack := be32 raw 48
  flags := byte raw 53
  payload := d.payload

theorem hdrs_le : d.hdrs ≤ raw.length := by
  have h₁ := d.fits
  have h₂ := d.upper_le
  unfold hdrs
  omega

theorem upper_lt : d.upper < 65536 := by
  rw [← d.upper_eq]
  exact be16_lt raw 4

theorem payload_length : d.payload.length = d.upper - d.offset := by
  have h₁ := d.upper_le
  have h₂ := d.fits
  exact length_slice_of_le _ _ _ (by unfold hdrs; omega)

theorem parse_ipv6 : packetParseIpv6 raw = .ok d.ipView := by
  have h := d.upper_le
  simp only [packetParseIpv6, IPV6_HEADER_SIZE, d.version, d.upper_eq, d.tcp]
  rw [if_neg (by omega), if_neg (by omega), if_neg (by omega), if_neg (by simp)]
  rfl

theorem parse_tcp : packetParseTcp d.segment = .ok d.tcpView :=
  packetParseTcp_slice (by have := d.upper_le; omega) d.offset_eq d.offset_ge d.fits

end DatagramV6

theorem packetParseIpv6_ok {raw : Bytes} {ip : Ipv6View} (h : packetParseIpv6 raw = .ok ip) :
    (byte raw 0).toNat / 16 = 6 ∧ ip6PayloadLen raw + 40 ≤ raw.length ∧ ip6NextHeader raw = IPPROTO_TCP ∧
      ip.payload = slice raw 40 (ip6PayloadLen raw) := by
  unfold packetParseIpv6 IPV6_HEADER_SIZE at h
  split_ifs at h with h₁ h₂ h₃ h₄
  obtain rfl := Except.ok.inj h
  exact ⟨by omega, by omega, not_not.mp h₄, rfl⟩

-- The two parsers together accept exactly these packets.
theorem exists_datagramV6 {raw : Bytes} {ip : Ipv6View} {tcp : TcpView} (hip : packetParseIpv6 raw = .ok ip)
    (htcp : packetParseTcp ip.payload = .ok tcp) : ∃ d : DatagramV6 raw, ip = d.ipView ∧ tcp = d.tcpView := by
  obtain ⟨hversion, hlen, hnext, hpayload⟩ := packetParseIpv6_ok hip
  obtain ⟨hoffset, hge, hle, -⟩ := packetParseTcp_ok htcp
  have hbyte : tcpOffsetReserved ip.payload = byte raw 52 := by
    rw [hpayload, length_slice_of_le _ _ _ (by omega)] at hle
    rw [hpayload]
    exact byte_slice _ _ _ _ (by omega)
  rw [hpayload, length_slice_of_le _ _ _ (by omega)] at hle
  let d : DatagramV6 raw :=
    { offset := tcp.offsetBytes, upper := ip6PayloadLen raw, version := hversion, upper_eq := rfl, upper_le := hlen,
      tcp := hnext, offset_eq := hbyte ▸ hoffset, offset_ge := hge, fits := hle }
  have hview : ip = d.ipView := Except.ok.inj (hip.symm.trans d.parse_ipv6)
  refine ⟨d, hview, ?_⟩
  rw [hview] at htcp
  exact Except.ok.inj (htcp.symm.trans d.parse_tcp)

end DpiProxy.Packet
