import DpiProxy.Wire.Bytes

namespace DpiProxy.Packet

open Wire

-- The failure codes of t_packet_status. PACKET_OK is the success case of the result.
inductive PacketError where
  | truncated
  | malformed
  | unsupported
deriving DecidableEq, Repr

abbrev Result (α : Type) := Except PacketError α

def TCP_FLAG_FIN : UInt8 := 0x01
def TCP_FLAG_SYN : UInt8 := 0x02
def TCP_FLAG_ACK : UInt8 := 0x10

-- sizeof of the packed header structs.
def IPV4_HEADER_SIZE : Nat := 20
def IPV6_HEADER_SIZE : Nat := 40
def TCP_HEADER_SIZE : Nat := 20

def IPPROTO_TCP : UInt8 := 6

-- Field offsets of t_ipv4_header, t_ipv6_header and t_tcp_header.
def ipVerIhl (h : Bytes) : UInt8 := byte h 0
def ipTotalLen (h : Bytes) : Nat := be16 h 2
def ipId (h : Bytes) : Nat := be16 h 4
def ipFlagsFrag (h : Bytes) : Nat := be16 h 6
def ipTtl (h : Bytes) : UInt8 := byte h 8
def ipProtocol (h : Bytes) : UInt8 := byte h 9
def ipSrc (h : Bytes) : Bytes := slice h 12 4
def ipDst (h : Bytes) : Bytes := slice h 16 4
def ip6PayloadLen (h : Bytes) : Nat := be16 h 4
def ip6NextHeader (h : Bytes) : UInt8 := byte h 6
def ip6Src (h : Bytes) : Bytes := slice h 8 16
def ip6Dst (h : Bytes) : Bytes := slice h 24 16
def tcpSrcPort (h : Bytes) : Nat := be16 h 0
def tcpDstPort (h : Bytes) : Nat := be16 h 2
def tcpSeq (h : Bytes) : UInt32 := be32 h 4
def tcpAck (h : Bytes) : UInt32 := be32 h 8
def tcpOffsetReserved (h : Bytes) : UInt8 := byte h 12
def tcpFlags (h : Bytes) : UInt8 := byte h 13
def tcpChecksum (h : Bytes) : Nat := be16 h 16

-- The views point into the caller's buffer. The payload pointer and its length
-- become the list of the bytes they cover; payload_len is the list's length.
structure Ipv4View where
  header : Bytes
  ihlBytes : Nat
  totalLen : Nat
  protocol : UInt8
  payload : Bytes
deriving DecidableEq, Repr

structure Ipv6View where
  header : Bytes
  nextHeader : UInt8
  payload : Bytes
deriving DecidableEq, Repr

structure TcpView where
  header : Bytes
  offsetBytes : Nat
  seq : UInt32
  ack : UInt32
  flags : UInt8
  payload : Bytes
deriving DecidableEq, Repr

def packetParseIpv4 (data : Bytes) : Result Ipv4View :=
  if data.length < IPV4_HEADER_SIZE then .error .truncated
  else if (ipVerIhl data).toNat / 16 ≠ 4 then .error .malformed
  else
    let ihlBytes := (ipVerIhl data).toNat % 16 * 4
    if ihlBytes < IPV4_HEADER_SIZE ∨ ihlBytes > data.length then .error .truncated
    else
      let totalLen := ipTotalLen data
      if totalLen < ihlBytes ∨ totalLen > data.length then .error .truncated
      -- MF or a nonzero fragment offset: only whole datagrams are parsed.
      else if ipFlagsFrag data % 0x4000 ≠ 0 then .error .unsupported
      else .ok
        { header := data
          ihlBytes := ihlBytes
          totalLen := totalLen
          protocol := ipProtocol data
          payload := slice data ihlBytes (totalLen - ihlBytes) }

def packetParseIpv6 (data : Bytes) : Result Ipv6View :=
  if data.length < IPV6_HEADER_SIZE then .error .truncated
  else if (byte data 0).toNat / 16 ≠ 6 then .error .malformed
  else if ip6PayloadLen data + IPV6_HEADER_SIZE > data.length then .error .truncated
  -- Extension headers are not walked.
  else if ip6NextHeader data ≠ IPPROTO_TCP then .error .unsupported
  else .ok
    { header := data
      nextHeader := ip6NextHeader data
      payload := slice data IPV6_HEADER_SIZE (ip6PayloadLen data) }

def packetParseTcp (data : Bytes) : Result TcpView :=
  if data.length < TCP_HEADER_SIZE then .error .truncated
  else
    let offsetBytes := (tcpOffsetReserved data).toNat / 16 * 4
    if offsetBytes < TCP_HEADER_SIZE ∨ offsetBytes > data.length then .error .truncated
    else .ok
      { header := data
        offsetBytes := offsetBytes
        seq := tcpSeq data
        ack := tcpAck data
        flags := tcpFlags data
        payload := data.drop offsetBytes }

-- The common start of packet_split_tcp_v4, packet_fragment_ipv4 and
-- packet_make_fake_tcp_v4.
def parseTcpDatagram (data : Bytes) : Result (Ipv4View × TcpView) := do
  let ip ← packetParseIpv4 data
  if ip.protocol ≠ IPPROTO_TCP then .error .unsupported
  else
    let tcp ← packetParseTcp ip.payload
    return (ip, tcp)

-- The geometry of an IPv4/TCP datagram: what a buffer has to satisfy to be
-- accepted by both parsers with protocol 6, and where its parts then lie.
structure Datagram (raw : Bytes) where
  ihl : Nat
  offset : Nat
  total : Nat
  version : (ipVerIhl raw).toNat / 16 = 4
  ihl_eq : (ipVerIhl raw).toNat % 16 * 4 = ihl
  ihl_ge : 20 ≤ ihl
  total_eq : ipTotalLen raw = total
  total_le : total ≤ raw.length
  whole : ipFlagsFrag raw % 0x4000 = 0
  tcp : ipProtocol raw = IPPROTO_TCP
  offset_eq : (byte raw (ihl + 12)).toNat / 16 * 4 = offset
  offset_ge : 20 ≤ offset
  fits : ihl + offset ≤ total

namespace Datagram

variable {raw : Bytes} (d : Datagram raw)

def hdrs : Nat := d.ihl + d.offset

-- The TCP segment, its payload and its sequence number.
def segment : Bytes := slice raw d.ihl (d.total - d.ihl)
def payload : Bytes := slice raw d.hdrs (d.total - d.hdrs)
def seq : UInt32 := be32 raw (d.ihl + 4)
def flags : UInt8 := byte raw (d.ihl + 13)

def ipView : Ipv4View where
  header := raw
  ihlBytes := d.ihl
  totalLen := d.total
  protocol := IPPROTO_TCP
  payload := d.segment

def tcpView : TcpView where
  header := d.segment
  offsetBytes := d.offset
  seq := d.seq
  ack := be32 raw (d.ihl + 8)
  flags := d.flags
  payload := d.payload

theorem hdrs_le : d.hdrs ≤ raw.length := by
  have h₁ := d.fits
  have h₂ := d.total_le
  unfold hdrs
  omega

theorem ihl_le : d.ihl ≤ 60 := by
  have h := d.ihl_eq
  omega

theorem total_lt : d.total < 65536 := by
  have h := d.total_eq
  have h₁ := be16_lt raw 2
  unfold ipTotalLen at h
  omega

theorem segment_length : d.segment.length = d.total - d.ihl := by
  have h₁ := d.total_le
  have h₂ := d.fits
  rw [segment, length_slice]
  omega

theorem payload_length : d.payload.length = d.total - d.hdrs := by
  have h₁ := d.total_le
  have h₂ := d.fits
  rw [payload, length_slice]
  omega

end Datagram

-- The two parsers together accept exactly the datagrams.
theorem Datagram.parse_ipv4 {raw : Bytes} (d : Datagram raw) :
    packetParseIpv4 raw = .ok d.ipView := by
  have h₁ := d.ihl_ge
  have h₂ := d.fits
  have h₃ := d.total_le
  simp only [packetParseIpv4, IPV4_HEADER_SIZE, d.version, d.ihl_eq, d.total_eq, d.whole, d.tcp]
  rw [if_neg (by omega), if_neg (by omega), if_neg (by omega), if_neg (by omega), if_neg (by omega)]
  rfl

-- A segment inside of a buffer.
theorem packetParseTcp_slice {raw : Bytes} {start len offset : Nat} (hin : start + len ≤ raw.length)
    (hoffset : (byte raw (start + 12)).toNat / 16 * 4 = offset) (hge : 20 ≤ offset) (hle : offset ≤ len) :
    packetParseTcp (slice raw start len) = .ok
      { header := slice raw start len
        offsetBytes := offset
        seq := be32 raw (start + 4)
        ack := be32 raw (start + 8)
        flags := byte raw (start + 13)
        payload := slice raw (start + offset) (len - offset) } := by
  have hl := length_slice_of_le raw start len hin
  have hoff : tcpOffsetReserved (slice raw start len) = byte raw (start + 12) := byte_slice _ _ _ _ (by omega)
  have hseq : tcpSeq (slice raw start len) = be32 raw (start + 4) := be32_slice _ _ _ _ (by omega)
  have hack : tcpAck (slice raw start len) = be32 raw (start + 8) := be32_slice _ _ _ _ (by omega)
  have hflags : tcpFlags (slice raw start len) = byte raw (start + 13) := byte_slice _ _ _ _ (by omega)
  simp only [packetParseTcp, TCP_HEADER_SIZE, hl, hoff, hoffset, hseq, hack, hflags, drop_slice]
  rw [if_neg (by omega), if_neg (by omega)]

theorem Datagram.parse_tcp {raw : Bytes} (d : Datagram raw) :
    packetParseTcp d.segment = .ok d.tcpView := by
  have h₁ := d.fits
  have h₂ := d.total_le
  have hend : d.total - d.ihl - d.offset = d.total - d.hdrs := Nat.sub_sub _ _ _
  have hparse := packetParseTcp_slice (show d.ihl + (d.total - d.ihl) ≤ raw.length by omega) d.offset_eq d.offset_ge
    (by omega)
  rw [hend] at hparse
  exact hparse

theorem packetParseIpv4_ok {raw : Bytes} {ip : Ipv4View} (h : packetParseIpv4 raw = .ok ip) :
    (ipVerIhl raw).toNat / 16 = 4 ∧ (ipVerIhl raw).toNat % 16 * 4 = ip.ihlBytes ∧
    20 ≤ ip.ihlBytes ∧ ipTotalLen raw = ip.totalLen ∧ ip.ihlBytes ≤ ip.totalLen ∧
    ip.totalLen ≤ raw.length ∧ ipFlagsFrag raw % 0x4000 = 0 ∧ ip.protocol = ipProtocol raw ∧
    ip.header = raw ∧ ip.payload = slice raw ip.ihlBytes (ip.totalLen - ip.ihlBytes) := by
  unfold packetParseIpv4 IPV4_HEADER_SIZE at h
  dsimp only at h
  split_ifs at h with h₁ h₂ h₃ h₄ h₅
  injection h with h
  subst h
  dsimp only
  refine ⟨by omega, rfl, by omega, rfl, by omega, by omega, by omega, rfl, rfl, rfl⟩

theorem packetParseTcp_ok {data : Bytes} {tcp : TcpView} (h : packetParseTcp data = .ok tcp) :
    (tcpOffsetReserved data).toNat / 16 * 4 = tcp.offsetBytes ∧ 20 ≤ tcp.offsetBytes ∧
    tcp.offsetBytes ≤ data.length ∧ tcp.seq = tcpSeq data ∧ tcp.flags = tcpFlags data ∧
    tcp.payload = data.drop tcp.offsetBytes := by
  unfold packetParseTcp TCP_HEADER_SIZE at h
  dsimp only at h
  split_ifs at h with h₁ h₂
  injection h with h
  subst h
  dsimp only
  refine ⟨rfl, by omega, by omega, rfl, rfl, rfl⟩

theorem exists_datagram {raw : Bytes} {ip : Ipv4View} {tcp : TcpView}
    (hip : packetParseIpv4 raw = .ok ip) (hproto : ip.protocol = IPPROTO_TCP)
    (htcp : packetParseTcp ip.payload = .ok tcp) :
    ∃ d : Datagram raw, ip = d.ipView ∧ tcp = d.tcpView := by
  obtain ⟨hver, hihl, hge, htot, hle, hlen, hwhole, hp, -, hpay⟩ := packetParseIpv4_ok hip
  obtain ⟨hoff, hoge, hole, -⟩ := packetParseTcp_ok htcp
  have hpl : ip.payload.length = ip.totalLen - ip.ihlBytes := by
    rw [hpay, length_slice]
    omega
  have hbyte : tcpOffsetReserved ip.payload = byte raw (ip.ihlBytes + 12) := by
    rw [hpay]
    exact byte_slice _ _ _ _ (by omega)
  let d : Datagram raw :=
    { ihl := ip.ihlBytes, offset := tcp.offsetBytes, total := ip.totalLen, version := hver,
      ihl_eq := hihl, ihl_ge := hge, total_eq := htot, total_le := hlen, whole := hwhole,
      tcp := hp ▸ hproto, offset_eq := hbyte ▸ hoff, offset_ge := hoge, fits := by omega }
  have hv : ip = d.ipView := Except.ok.inj (hip.symm.trans d.parse_ipv4)
  refine ⟨d, hv, ?_⟩
  rw [hv] at htcp
  exact Except.ok.inj (htcp.symm.trans d.parse_tcp)

theorem parseTcpDatagram_eq {raw : Bytes} (d : Datagram raw) :
    parseTcpDatagram raw = .ok (d.ipView, d.tcpView) := by
  have hp : d.ipView.protocol = IPPROTO_TCP := rfl
  have ht : packetParseTcp d.ipView.payload = .ok d.tcpView := d.parse_tcp
  simp [parseTcpDatagram, d.parse_ipv4, hp, ht, bind, Except.bind, pure, Except.pure]

-- A buffer either holds a datagram or is refused with the status of the first failed check.
theorem parseTcpDatagram_cases (raw : Bytes) :
    (∃ d : Datagram raw, parseTcpDatagram raw = .ok (d.ipView, d.tcpView)) ∨
      ∃ e, parseTcpDatagram raw = .error e := by
  cases hip : packetParseIpv4 raw with
  | error e => exact .inr ⟨e, by simp [parseTcpDatagram, hip, bind, Except.bind]⟩
  | ok ip =>
      by_cases hp : ip.protocol = IPPROTO_TCP
      · cases htcp : packetParseTcp ip.payload with
        | error e => exact .inr ⟨e, by simp [parseTcpDatagram, hip, hp, htcp, bind, Except.bind]⟩
        | ok tcp =>
            obtain ⟨d, -⟩ := exists_datagram hip hp htcp
            exact .inl ⟨d, parseTcpDatagram_eq d⟩
      · exact .inr ⟨.unsupported, by simp [parseTcpDatagram, hip, hp, bind, Except.bind]⟩

-- A whole datagram with six payload bytes; the flags byte is a parameter.
def samplePacket (flags : UInt8) : Bytes :=
  [0x45, 0, 0, 46, 0x10, 0x92, 0x40, 0, 64, 6, 0, 0, 10, 0, 0, 1, 10, 0, 0, 2,
   0xC7, 0x38, 1, 187, 0xFF, 0xFF, 0xFF, 0xFE, 0, 0, 0, 1, 0x50, flags, 0xFF, 0xFF, 0, 0, 0, 0,
   97, 98, 99, 100, 101, 102]

def sampleDatagram (flags : UInt8) : Datagram (samplePacket flags) where
  ihl := 20
  offset := 20
  total := 46
  version := by simp [samplePacket, ipVerIhl, byte]
  ihl_eq := by simp [samplePacket, ipVerIhl, byte]
  ihl_ge := by decide
  total_eq := by simp [samplePacket, ipTotalLen, be16, byte]
  total_le := by simp [samplePacket]
  whole := by simp [samplePacket, ipFlagsFrag, be16, byte]
  tcp := by simp [samplePacket, ipProtocol, byte, IPPROTO_TCP]
  offset_eq := by simp [samplePacket, byte]
  offset_ge := by decide
  fits := by decide

@[simp] theorem samplePayload_length (flags : UInt8) :
    (sampleDatagram flags).payload.length = 6 := by
  rw [(sampleDatagram flags).payload_length]
  simp [sampleDatagram, Datagram.hdrs]

end DpiProxy.Packet
