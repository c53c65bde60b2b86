import DpiProxy.Packet.Split.Lemmas
import DpiProxy.Wire.Stream

namespace DpiProxy.Packet

open Wire Wire.Stream

-- The header bytes a split computes anew: IP length and checksum, TCP sequence
-- number and checksum.
def RewrittenBySplit (ihl j : Nat) : Prop :=
  j = 2 ∨ j = 3 ∨ j = 10 ∨ j = 11 ∨ (ihl + 4 ≤ j ∧ j ≤ ihl + 7) ∨ j = ihl + 16 ∨ j = ihl + 17

-- A packet that the receiver accepts at both layers and whose headers are the
-- input's except for the computed fields.
structure SplitOutput (input : Bytes) (ip : Ipv4View) (tcp : TcpView) (out : Bytes)
    (outIp : Ipv4View) (outTcp : TcpView) : Prop where
  parseIp : packetParseIpv4 out = .ok outIp
  protocol : outIp.protocol = IPPROTO_TCP
  parseTcp : packetParseTcp outIp.payload = .ok outTcp
  totalLen : outIp.totalLen = out.length
  ipChecksum : Ipv4ChecksumOk out outIp.ihlBytes
  tcpChecksum : TcpChecksumOk out outIp.payload
  ihlBytes : outIp.ihlBytes = ip.ihlBytes
  offsetBytes : outTcp.offsetBytes = tcp.offsetBytes
  header : ∀ j < ip.ihlBytes + tcp.offsetBytes, ¬RewrittenBySplit ip.ihlBytes j →
    byte out j = byte input j

theorem Resegmented.splitOutput {raw : Bytes} {d : Datagram raw} {body : Bytes} {seq : UInt32}
    {out : Bytes} (h : Resegmented d body seq out) :
    SplitOutput raw d.ipView d.tcpView out h.datagram.ipView h.datagram.tcpView where
  parseIp := h.datagram.parse_ipv4
  protocol := rfl
  parseTcp := h.datagram.parse_tcp
  totalLen := rfl
  ipChecksum := h.ipv4ChecksumOk
  tcpChecksum := h.tcpChecksumOk
  ihlBytes := rfl
  offsetBytes := rfl
  header := by
    intro j hj hr
    unfold RewrittenBySplit at hr
    simp only [Datagram.ipView, Datagram.tcpView] at hj hr
    exact h.kept j hj (by omega) (by omega) (by omega) (by omega) (by omega) (by omega) (by omega)

-- The split succeeds exactly on TCP datagrams with a split point strictly inside
-- the payload. It then yields two valid packets that carry the two halves.
theorem packetSplitTcpV4_correct (input : Bytes) (splitOffset : Nat) :
    ((∃ out, packetSplitTcpV4 input splitOffset = .ok out) ↔
      ∃ ip tcp, packetParseIpv4 input = .ok ip ∧ ip.protocol = IPPROTO_TCP ∧
        packetParseTcp ip.payload = .ok tcp ∧
        0 < splitOffset ∧ splitOffset < tcp.payload.length) ∧
    ∀ out1 out2 ip tcp, packetSplitTcpV4 input splitOffset = .ok (out1, out2) →
      packetParseIpv4 input = .ok ip → packetParseTcp ip.payload = .ok tcp →
      ∃ ip1 tcp1 ip2 tcp2,
        SplitOutput input ip tcp out1 ip1 tcp1 ∧ SplitOutput input ip tcp out2 ip2 tcp2 ∧
        tcp1.payload ++ tcp2.payload = tcp.payload ∧ tcp1.payload.length = splitOffset ∧
        tcp1.seq = tcp.seq ∧ tcp2.seq = tcp.seq + UInt32.ofNat splitOffset := by
  constructor
  · constructor
    · rintro ⟨out, h⟩
      obtain ⟨d, h₁, h₂, -⟩ := (packetSplitTcpV4_ok_iff input splitOffset out).mp h
      exact ⟨d.ipView, d.tcpView, d.parse_ipv4, rfl, d.parse_tcp, h₁, h₂⟩
    · rintro ⟨ip, tcp, hip, hp, htcp, h₁, h₂⟩
      obtain ⟨d, rfl, rfl⟩ := exists_datagram hip hp htcp
      exact ⟨_, (packetSplitTcpV4_ok_iff input splitOffset _).mpr ⟨d, h₁, h₂, rfl⟩⟩
  · intro out1 out2 ip tcp h hip htcp
    obtain ⟨d, h₁, h₂, hf, hs⟩ := packetSplitTcpV4_ok h
    obtain rfl := Except.ok.inj (d.parse_ipv4.symm.trans hip)
    obtain rfl := Except.ok.inj (d.parse_tcp.symm.trans htcp)
    have hp₁ : hf.datagram.tcpView.payload = d.payload.take splitOffset := hf.datagram_payload
    have hp₂ : hs.datagram.tcpView.payload = d.payload.drop splitOffset := hs.datagram_payload
    refine ⟨_, _, _, _, hf.splitOutput, hs.splitOutput, ?_, ?_, hf.datagram_seq, hs.datagram_seq⟩
    · rw [hp₁, hp₂]
      exact List.take_append_drop _ _
    · rw [hp₁, List.length_take]
      omega

theorem samplePacket_split (flags : UInt8) : packetSplitTcpV4 (samplePacket flags) 3 =
    .ok (splitFirst (samplePacket flags) (sampleDatagram flags).ipView
        (sampleDatagram flags).tcpView 3,
      splitSecond (samplePacket flags) (sampleDatagram flags).ipView
        (sampleDatagram flags).tcpView 3) := by
  apply (packetSplitTcpV4_ok_iff _ 3 _).mpr
  exact ⟨sampleDatagram flags, by decide, by simp, rfl⟩

theorem packetSplitTcpV4_correct_sample : ∃ ip1 tcp1 ip2 tcp2,
    SplitOutput (samplePacket 0x18) (sampleDatagram 0x18).ipView (sampleDatagram 0x18).tcpView
      (splitFirst (samplePacket 0x18) (sampleDatagram 0x18).ipView (sampleDatagram 0x18).tcpView 3) ip1 tcp1 ∧
    SplitOutput (samplePacket 0x18) (sampleDatagram 0x18).ipView (sampleDatagram 0x18).tcpView
      (splitSecond (samplePacket 0x18) (sampleDatagram 0x18).ipView (sampleDatagram 0x18).tcpView 3) ip2 tcp2 ∧
    tcp1.payload ++ tcp2.payload = (sampleDatagram 0x18).tcpView.payload ∧
    tcp1.payload.length = 3 ∧ tcp1.seq = (sampleDatagram 0x18).seq ∧
    tcp2.seq = (sampleDatagram 0x18).seq + UInt32.ofNat 3 :=
  (packetSplitTcpV4_correct (samplePacket 0x18) 3).2 _ _ _ _ (samplePacket_split 0x18)
    (sampleDatagram 0x18).parse_ipv4 (sampleDatagram 0x18).parse_tcp

-- The segment a receiver sees, and what it learns from a packet.
def TcpView.segment (tcp : TcpView) : Segment UInt8 where
  seq := tcp.seq
  syn := tcp.flags &&& TCP_FLAG_SYN != 0
  fin := tcp.flags &&& TCP_FLAG_FIN != 0
  data := tcp.payload

def packetFacts (raw : Bytes) : Set (Fact UInt8) :=
  {f | ∃ ip tcp, packetParseIpv4 raw = .ok ip ∧ packetParseTcp ip.payload = .ok tcp ∧
    f ∈ tcp.segment.facts}

theorem packetFacts_eq {raw : Bytes} (d : Datagram raw) :
    packetFacts raw = d.tcpView.segment.facts := by
  ext f
  constructor
  · rintro ⟨ip, tcp, hip, htcp, hf⟩
    obtain rfl := Except.ok.inj (d.parse_ipv4.symm.trans hip)
    obtain rfl := Except.ok.inj (d.parse_tcp.symm.trans htcp)
    exact hf
  · intro hf
    exact ⟨_, _, d.parse_ipv4, d.parse_tcp, hf⟩

theorem Resegmented.segment_eq {raw : Bytes} {d : Datagram raw} {body : Bytes} {seq : UInt32}
    {out : Bytes} (h : Resegmented d body seq out) :
    h.datagram.tcpView.segment = { d.tcpView.segment with seq := seq, data := body } := by
  simp only [TcpView.segment, Datagram.tcpView, h.datagram_payload, h.datagram_flags,
    h.datagram_seq]

-- Both outputs copy the flags of the input, so the split is the flag-copying cut
-- of the abstract segment.
theorem split_facts_iff {raw : Bytes} (d : Datagram raw) (n : Nat) (h₁ : 0 < n)
    (h₂ : n < d.payload.length) {out1 out2 : Bytes}
    (hf : Resegmented d (d.payload.take n) d.seq out1)
    (hs : Resegmented d (d.payload.drop n) (d.seq + UInt32.ofNat n) out2) :
    packetFacts out1 ∪ packetFacts out2 = packetFacts raw ↔
      d.flags &&& TCP_FLAG_SYN = 0 ∧ d.flags &&& TCP_FLAG_FIN = 0 := by
  have hfirst : hf.datagram.tcpView.segment = d.tcpView.segment.takeData n := hf.segment_eq
  have hsecond : hs.datagram.tcpView.segment = d.tcpView.segment.dropData n := hs.segment_eq
  have hlen : d.payload.length < 2 ^ 32 := by
    have h := d.payload_length
    have ht := d.total_lt
    omega
  rw [packetFacts_eq hf.datagram, packetFacts_eq hs.datagram, packetFacts_eq d, hfirst, hsecond]
  rw [Segment.facts_split_iff d.tcpView.segment n h₁ h₂ hlen]
  simp only [TcpView.segment, Datagram.tcpView, bne_eq_false_iff_eq]

theorem packetSplitTcpV4_facts_iff (input : Bytes) (splitOffset : Nat) (out1 out2 : Bytes)
    (ip : Ipv4View) (tcp : TcpView)
    (h : packetSplitTcpV4 input splitOffset = .ok (out1, out2))
    (hip : packetParseIpv4 input = .ok ip) (htcp : packetParseTcp ip.payload = .ok tcp) :
    packetFacts out1 ∪ packetFacts out2 = packetFacts input ↔
      tcp.flags &&& TCP_FLAG_SYN = 0 ∧ tcp.flags &&& TCP_FLAG_FIN = 0 := by
  obtain ⟨d, h₁, h₂, hf, hs⟩ := packetSplitTcpV4_ok h
  obtain rfl := Except.ok.inj (d.parse_ipv4.symm.trans hip)
  obtain rfl := Except.ok.inj (d.parse_tcp.symm.trans htcp)
  exact split_facts_iff d splitOffset h₁ h₂ hf hs

theorem packetSplitTcpV4_facts_iff_psh : ∃ out1 out2,
    packetSplitTcpV4 (samplePacket 0x18) 3 = .ok (out1, out2) ∧
    packetFacts out1 ∪ packetFacts out2 = packetFacts (samplePacket 0x18) :=
  ⟨_, _, samplePacket_split 0x18,
    (packetSplitTcpV4_facts_iff _ 3 _ _ _ _ (samplePacket_split 0x18)
      (sampleDatagram 0x18).parse_ipv4 (sampleDatagram 0x18).parse_tcp).mpr
      ⟨by decide, by decide⟩⟩

-- FIN, PSH and ACK: the first half announces the end of the stream after byte 3.
theorem packetSplitTcpV4_moves_fin : ∃ out1 out2,
    packetSplitTcpV4 (samplePacket 0x19) 3 = .ok (out1, out2) ∧
    packetFacts out1 ∪ packetFacts out2 ≠ packetFacts (samplePacket 0x19) := by
  refine ⟨_, _, samplePacket_split 0x19, ?_⟩
  intro h
  have hpos : 3 < (sampleDatagram 0x19).payload.length := by simp
  have hflags := (split_facts_iff (sampleDatagram 0x19) 3 (by decide) hpos
    (splitFirst_resegmented _ 3 (by decide) hpos) (splitSecond_resegmented _ 3 (by decide) hpos)).mp h
  exact absurd hflags.2 (by decide)

end DpiProxy.Packet
