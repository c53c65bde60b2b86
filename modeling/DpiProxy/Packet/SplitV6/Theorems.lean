import DpiProxy.Packet.SplitV6

namespace DpiProxy.Packet

open Wire

-- A successful run is a packet with a split point strictly inside its payload.
theorem packetSplitTcpV6_ok_iff (input : Bytes) (splitOffset : Nat) (out : Bytes × Bytes) :
    packetSplitTcpV6 input splitOffset = .ok out ↔
      ∃ d : DatagramV6 input, 0 < splitOffset ∧ splitOffset < d.payload.length ∧
        out = (splitFirstV6 input d.tcpView splitOffset, splitSecondV6 input d.tcpView splitOffset) := by
  constructor
  · intro h
    cases hip : packetParseIpv6 input with
    | error e => simp [packetSplitTcpV6, hip, bind, Except.bind] at h
    | ok ip =>
        cases htcp : packetParseTcp ip.payload with
        | error e => simp [packetSplitTcpV6, hip, htcp, bind, Except.bind] at h
        | ok tcp =>
            obtain ⟨d, rfl, rfl⟩ := exists_datagramV6 hip htcp
            simp only [packetSplitTcpV6, hip, htcp, bind, Except.bind] at h
            by_cases hs : splitOffset = 0 ∨ splitOffset ≥ d.tcpView.payload.length
            · simp [hs] at h
            · rw [if_neg hs] at h
              simp only [DatagramV6.tcpView] at hs
              exact ⟨d, by omega, by omega, (Except.ok.inj h).symm⟩
  · rintro ⟨d, h₁, h₂, rfl⟩
    have hs : ¬(splitOffset = 0 ∨ splitOffset ≥ d.tcpView.payload.length) := by
      simp only [DatagramV6.tcpView]
      omega
    have htcp : packetParseTcp d.ipView.payload = .ok d.tcpView := d.parse_tcp
    simp only [packetSplitTcpV6, d.parse_ipv6, htcp, bind, Except.bind]
    rw [if_neg hs]

-- What both outputs have in common: the input's headers with the length, sequence
-- number and checksum of the new body.
structure ResegmentedV6 {raw : Bytes} (d : DatagramV6 raw) (body : Bytes) (seq : UInt32) (out : Bytes) : Prop where
  length : out.length = d.hdrs + body.length
  fits : d.offset + body.length < 65536
  upper : ip6PayloadLen out = d.offset + body.length
  body : out.drop d.hdrs = body
  seq : be32 out 44 = seq
  kept : ∀ j < d.hdrs, j ≠ 4 → j ≠ 5 → (j < 44 ∨ 47 < j) → j ≠ 56 → j ≠ 57 → byte out j = byte raw j
  tcpSum : be16 out 56 = (checksumTcpV6 out (out.drop 40) (out.length - 40)).toNat

section Build

variable {raw : Bytes} (d : DatagramV6 raw)

theorem splitFirstV6_resegmented (n : Nat) (h : n < d.payload.length) :
    ResegmentedV6 d (d.payload.take n) (be32 raw 44) (splitFirstV6 raw d.tcpView n) := by
  have hoff := d.offset_ge
  have hupper := d.upper_lt
  have hpl := d.payload_length
  have hh : d.hdrs = 40 + d.offset := rfl
  have hb : (d.payload.take n).length = n := by
    rw [List.length_take]
    omega
  have hbase := length_take_append d.hdrs_le (d.payload.take n)
  have hbyte := fun j => byte_take_append (j := j) d.hdrs_le (d.payload.take n)
  have hdrop := drop_take_append d.hdrs_le (d.payload.take n)
  have hlen : (UInt16.ofNat (d.offset + n)).toNat = d.offset + n := UInt16.toNat_ofNat_of_lt' (show _ < 65536 by omega)
  simp only [splitFirstV6, DatagramV6.tcpView, IPV6_HEADER_SIZE, hlen]
  rw [← hh]
  generalize raw.take d.hdrs ++ d.payload.take n = base at hbase hbyte hdrop ⊢
  refine ⟨by simp [hbase], by omega, ?_, ?_, ?_, ?_, ?_⟩
  · simp (disch := omega) only [ip6PayloadLen, be16_put16_of_ne, hb]
    exact be16_put16 _ _ _ (by omega) (by omega)
  · simp (disch := omega) only [drop_put16, hdrop]
  · simp (disch := omega) only [be32_put16_of_ne]
    simp (disch := omega) only [be32, be16, hbyte]
  · intro j hj h4 h5 hs h56 h57
    simp (disch := omega) only [byte_put16_of_ne, hbyte]
  · rw [be16_put16_self _ _ _ (by simp; omega)]
    refine congrArg UInt16.toNat ?_
    have hseg : d.offset + n = base.length - 40 := by omega
    simp only [length_put16, hseg]
    exact (checksumTcpV6_put16 _ _ _).symm

theorem splitSecondV6_resegmented (n : Nat) (h : n < d.payload.length) :
    ResegmentedV6 d (d.payload.drop n) (be32 raw 44 + UInt32.ofNat n) (splitSecondV6 raw d.tcpView n) := by
  have hoff := d.offset_ge
  have hupper := d.upper_lt
  have hpl := d.payload_length
  have hh : d.hdrs = 40 + d.offset := rfl
  have hb : (d.payload.drop n).length = d.payload.length - n := List.length_drop
  have hbase := length_take_append d.hdrs_le (d.payload.drop n)
  have hbyte := fun j => byte_take_append (j := j) d.hdrs_le (d.payload.drop n)
  have hdrop := drop_take_append d.hdrs_le (d.payload.drop n)
  have hlen : (UInt16.ofNat (d.offset + (d.payload.length - n))).toNat = d.offset + (d.payload.length - n) :=
    UInt16.toNat_ofNat_of_lt' (show _ < 65536 by omega)
  simp only [splitSecondV6, DatagramV6.tcpView, IPV6_HEADER_SIZE, hlen]
  rw [← hh]
  generalize raw.take d.hdrs ++ d.payload.drop n = base at hbase hbyte hdrop ⊢
  refine ⟨by simp [hbase], by omega, ?_, ?_, ?_, ?_, ?_⟩
  · simp (disch := omega) only [ip6PayloadLen, be16_put16_of_ne, be16_put32_of_ne, hb]
    exact be16_put16 _ _ _ (by omega) (by omega)
  · simp (disch := omega) only [drop_put16, drop_put32, hdrop]
  · simp (disch := omega) only [be32_put16_of_ne]
    exact be32_put32 _ _ _ (by simp; omega)
  · intro j hj h4 h5 hs h56 h57
    simp (disch := omega) only [byte_put16_of_ne, byte_put32_of_ne, hbyte]
  · rw [be16_put16_self _ _ _ (by simp; omega)]
    refine congrArg UInt16.toNat ?_
    have hseg : d.offset + (d.payload.length - n) = base.length - 40 := by omega
    simp only [length_put16, length_put32, hseg]
    exact (checksumTcpV6_put16 _ _ _).symm

end Build

namespace ResegmentedV6

variable {raw : Bytes} {d : DatagramV6 raw} {body : Bytes} {seq : UInt32} {out : Bytes}
variable (h : ResegmentedV6 d body seq out)

include h

-- The output is again a packet, with the same TCP header length.
def datagram : DatagramV6 out where
  offset := d.offset
  upper := d.offset + body.length
  version := by
    have hv := d.version
    rwa [← h.kept 0 (by unfold DatagramV6.hdrs; omega) (by omega) (by omega) (by omega) (by omega) (by omega)] at hv
  upper_eq := h.upper
  upper_le := by
    have hl := h.length
    unfold DatagramV6.hdrs at hl
    omega
  tcp := by
    have hv := d.tcp
    rwa [ip6NextHeader, ← h.kept 6 (by unfold DatagramV6.hdrs; omega) (by omega) (by omega) (by omega) (by omega)
      (by omega)] at hv
  offset_eq := by
    have hv := d.offset_eq
    have hge := d.offset_ge
    rwa [← h.kept 52 (by unfold DatagramV6.hdrs; omega) (by omega) (by omega) (by omega) (by omega) (by omega)] at hv
  offset_ge := d.offset_ge
  fits := Nat.le_add_right _ _

theorem datagram_payload : h.datagram.payload = body := by
  have hend : h.datagram.upper - h.datagram.offset = body.length := Nat.add_sub_cancel_left _ _
  have hhdrs : h.datagram.hdrs = d.hdrs := rfl
  have hrest : (out.drop d.hdrs).length = body.length := congrArg List.length h.body
  rw [DatagramV6.payload, hend, hhdrs, slice, List.take_of_length_le (Nat.le_of_eq hrest)]
  exact h.body

theorem datagram_segment : h.datagram.segment = out.drop 40 := by
  have hl := h.length
  unfold DatagramV6.hdrs at hl
  have hupper : h.datagram.upper = d.offset + body.length := rfl
  rw [DatagramV6.segment, slice, List.take_of_length_le (by rw [List.length_drop]; omega)]

theorem tcpChecksumOkV6 : TcpChecksumOkV6 out h.datagram.segment := by
  have hl := h.length
  have hfits := h.fits
  have hge := d.offset_ge
  unfold DatagramV6.hdrs at hl
  rw [h.datagram_segment]
  apply tcpChecksumOkV6_of_field (by omega) (by rw [List.length_drop]; omega) (by rw [List.length_drop]; omega)
  rw [be16_drop, List.length_drop]
  exact h.tcpSum

end ResegmentedV6

-- The header bytes a split computes anew: payload length, TCP sequence number and
-- checksum.
def RewrittenBySplitV6 (j : Nat) : Prop := j = 4 ∨ j = 5 ∨ (44 ≤ j ∧ j ≤ 47) ∨ j = 56 ∨ j = 57

-- A packet that the receiver accepts and whose headers are the input's except for the
-- computed fields.
structure SplitOutputV6 (input : Bytes) (tcp : TcpView) (out : Bytes) (outIp : Ipv6View) (outTcp : TcpView) :
    Prop where
  parseIp : packetParseIpv6 out = .ok outIp
  parseTcp : packetParseTcp outIp.payload = .ok outTcp
  length : out.length = 40 + ip6PayloadLen out
  tcpChecksum : TcpChecksumOkV6 out outIp.payload
  offsetBytes : outTcp.offsetBytes = tcp.offsetBytes
  header : ∀ j < 40 + tcp.offsetBytes, ¬RewrittenBySplitV6 j → byte out j = byte input j

theorem ResegmentedV6.splitOutput {raw : Bytes} {d : DatagramV6 raw} {body : Bytes} {seq : UInt32} {out : Bytes}
    (h : ResegmentedV6 d body seq out) :
    SplitOutputV6 raw d.tcpView out h.datagram.ipView h.datagram.tcpView where
  parseIp := h.datagram.parse_ipv6
  parseTcp := h.datagram.parse_tcp
  length := by rw [h.length, h.upper, DatagramV6.hdrs, Nat.add_assoc]
  tcpChecksum := h.tcpChecksumOkV6
  offsetBytes := rfl
  header := by
    intro j hj hr
    unfold RewrittenBySplitV6 at hr
    exact h.kept j hj (by omega) (by omega) (by omega) (by omega) (by omega)

-- The split succeeds exactly on TCP packets with a split point strictly inside the
-- payload. It then yields two valid packets that carry the two halves.
theorem packetSplitTcpV6_correct (input : Bytes) (splitOffset : Nat) :
    ((∃ out, packetSplitTcpV6 input splitOffset = .ok out) ↔
      ∃ ip tcp, packetParseIpv6 input = .ok ip ∧ packetParseTcp ip.payload = .ok tcp ∧
        0 < splitOffset ∧ splitOffset < tcp.payload.length) ∧
    ∀ out1 out2 ip tcp, packetSplitTcpV6 input splitOffset = .ok (out1, out2) →
      packetParseIpv6 input = .ok ip → packetParseTcp ip.payload = .ok tcp →
      ∃ ip1 tcp1 ip2 tcp2,
        SplitOutputV6 input tcp out1 ip1 tcp1 ∧ SplitOutputV6 input tcp out2 ip2 tcp2 ∧
        tcp1.payload ++ tcp2.payload = tcp.payload ∧ tcp1.payload.length = splitOffset ∧
        tcp1.seq = tcp.seq ∧ tcp2.seq = tcp.seq + UInt32.ofNat splitOffset := by
  constructor
  · constructor
    · rintro ⟨out, h⟩
      obtain ⟨d, h₁, h₂, -⟩ := (packetSplitTcpV6_ok_iff input splitOffset out).mp h
      exact ⟨d.ipView, d.tcpView, d.parse_ipv6, d.parse_tcp, h₁, h₂⟩
    · rintro ⟨ip, tcp, hip, htcp, h₁, h₂⟩
      obtain ⟨d, rfl, rfl⟩ := exists_datagramV6 hip htcp
      exact ⟨_, (packetSplitTcpV6_ok_iff input splitOffset _).mpr ⟨d, h₁, h₂, rfl⟩⟩
  · intro out1 out2 ip tcp h hip htcp
    obtain ⟨d, h₁, h₂, hout⟩ := (packetSplitTcpV6_ok_iff input splitOffset _).mp h
    obtain ⟨rfl, rfl⟩ := Prod.mk.inj hout
    obtain rfl := Except.ok.inj (d.parse_ipv6.symm.trans hip)
    obtain rfl := Except.ok.inj (d.parse_tcp.symm.trans htcp)
    have hf := splitFirstV6_resegmented d splitOffset h₂
    have hs := splitSecondV6_resegmented d splitOffset h₂
    have hp₁ : hf.datagram.tcpView.payload = d.payload.take splitOffset := hf.datagram_payload
    have hp₂ : hs.datagram.tcpView.payload = d.payload.drop splitOffset := hs.datagram_payload
    refine ⟨_, _, _, _, hf.splitOutput, hs.splitOutput, ?_, ?_, hf.seq, hs.seq⟩
    · rw [hp₁, hp₂]
      exact List.take_append_drop _ _
    · rw [hp₁, List.length_take]
      omega

-- A packet with four bytes of TCP options and three of payload.
def samplePacketV6 : Bytes :=
  [0x60, 0, 0, 0, 0, 27, 6, 64] ++ List.replicate 32 1 ++
    [0xC7, 0x38, 1, 187, 0xFF, 0xFF, 0xFF, 0xFE, 0, 0, 0, 1, 0x60, 0x18, 0xFF, 0xFF, 0, 0, 0, 0, 1, 1, 1, 0,
      97, 98, 99]

def sampleDatagramV6 : DatagramV6 samplePacketV6 where
  offset := 24
  upper := 27
  version := by simp [samplePacketV6, byte]
  upper_eq := by simp [samplePacketV6, ip6PayloadLen, be16, byte]
  upper_le := by simp [samplePacketV6]
  tcp := by simp [samplePacketV6, ip6NextHeader, byte, IPPROTO_TCP]
  offset_eq := by simp [samplePacketV6, byte]
  offset_ge := by simp
  fits := by simp

theorem packetSplitTcpV6_correct_sample : ∃ out1 out2 ip1 tcp1 ip2 tcp2,
    packetSplitTcpV6 samplePacketV6 1 = .ok (out1, out2) ∧
    SplitOutputV6 samplePacketV6 sampleDatagramV6.tcpView out1 ip1 tcp1 ∧
    SplitOutputV6 samplePacketV6 sampleDatagramV6.tcpView out2 ip2 tcp2 ∧
    tcp1.payload ++ tcp2.payload = sampleDatagramV6.payload := by
  have hpos : 1 < sampleDatagramV6.payload.length := by
    rw [sampleDatagramV6.payload_length]
    decide
  obtain ⟨⟨out1, out2⟩, hout⟩ := (packetSplitTcpV6_correct samplePacketV6 1).1.mpr
    ⟨_, _, sampleDatagramV6.parse_ipv6, sampleDatagramV6.parse_tcp, by decide, hpos⟩
  obtain ⟨ip1, tcp1, ip2, tcp2, h₁, h₂, hpayload, -⟩ := (packetSplitTcpV6_correct samplePacketV6 1).2 out1 out2 _ _ hout
    sampleDatagramV6.parse_ipv6 sampleDatagramV6.parse_tcp
  exact ⟨out1, out2, ip1, tcp1, ip2, tcp2, hout, h₁, h₂, hpayload⟩

end DpiProxy.Packet
