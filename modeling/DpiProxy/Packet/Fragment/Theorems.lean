import DpiProxy.Packet.Fragment
import DpiProxy.Wire.Reassembly

namespace DpiProxy.Packet

open Wire

-- How any IPv4 receiver reads a packet as a piece of a datagram.
def ipIhl (raw : Bytes) : Nat := (ipVerIhl raw).toNat % 16 * 4
def ipDf (raw : Bytes) : Bool := ipFlagsFrag raw / 0x4000 % 2 == 1
def ipMf (raw : Bytes) : Bool := ipFlagsFrag raw / 0x2000 % 2 == 1
def ipFragOffset (raw : Bytes) : Nat := ipFlagsFrag raw % 0x2000

def fragmentOf (raw : Bytes) : Wire.Fragment UInt8 where
  offset := 8 * ipFragOffset raw
  more := ipMf raw
  data := slice raw (ipIhl raw) (ipTotalLen raw - ipIhl raw)

theorem firstFlagsFrag_eq (flagsFrag : Nat) : firstFlagsFrag flagsFrag = IP_FLAG_MF := by
  have h : IP_FLAG_DF &&& ~~~IP_FLAG_DF = 0 := by decide
  simp only [firstFlagsFrag, UInt16.and_assoc, h, UInt16.and_zero, UInt16.zero_or]

theorem packetFragmentIpv4_ok_iff (input : Bytes) (splitOffset : Nat) (out : Bytes × Bytes) :
    packetFragmentIpv4 input splitOffset = .ok out ↔
      ∃ d : Datagram input, 0 < splitOffset ∧ splitOffset < d.payload.length ∧
        fragOffset d.tcpView splitOffset < d.segment.length ∧
        out = (fragmentPacket input d.ihl (d.segment.take (fragOffset d.tcpView splitOffset))
            IP_FLAG_MF.toNat,
          fragmentPacket input d.ihl (d.segment.drop (fragOffset d.tcpView splitOffset))
            (fragOffset d.tcpView splitOffset / IP_FRAG_UNIT)) := by
  constructor
  · intro h
    rcases parseTcpDatagram_cases input with ⟨d, hd⟩ | ⟨e, he⟩
    · simp only [packetFragmentIpv4, hd, bind, Except.bind] at h
      by_cases hs : splitOffset = 0 ∨ splitOffset ≥ d.tcpView.payload.length
      · simp [hs] at h
      · rw [if_neg hs] at h
        by_cases hc : fragOffset d.tcpView splitOffset < d.tcpView.offsetBytes ∨
            fragOffset d.tcpView splitOffset ≥ d.ipView.payload.length
        · simp [hc] at h
        · rw [if_neg hc, firstFlagsFrag_eq] at h
          have hs₁ : ¬(splitOffset = 0 ∨ splitOffset ≥ d.payload.length) := hs
          have hc₁ : ¬(_ ∨ fragOffset d.tcpView splitOffset ≥ d.segment.length) := hc
          exact ⟨d, by omega, by omega, by omega, (Except.ok.inj h).symm⟩
    · simp [packetFragmentIpv4, he, bind, Except.bind] at h
  · rintro ⟨d, h₁, h₂, h₃, rfl⟩
    have hs : ¬(splitOffset = 0 ∨ splitOffset ≥ d.tcpView.payload.length) := by
      simp only [Datagram.tcpView]
      omega
    have hc : ¬(fragOffset d.tcpView splitOffset < d.tcpView.offsetBytes ∨
        fragOffset d.tcpView splitOffset ≥ d.ipView.payload.length) := by
      have hge : d.tcpView.offsetBytes ≤ fragOffset d.tcpView splitOffset := by
        simp only [fragOffset, IP_FRAG_UNIT]
        omega
      have hlt : fragOffset d.tcpView splitOffset < d.ipView.payload.length := h₃
      omega
    simp only [packetFragmentIpv4, parseTcpDatagram_eq d, bind, Except.bind]
    rw [if_neg hs, if_neg hc, firstFlagsFrag_eq]
    rfl

-- The header bytes a fragment computes anew: length, flags_frag and checksum.
structure IsFragment {raw : Bytes} (d : Datagram raw) (body : Bytes) (flagsFrag : Nat)
    (out : Bytes) : Prop where
  length : out.length = d.ihl + body.length
  total : ipTotalLen out = out.length
  flags : ipFlagsFrag out = flagsFrag
  body : out.drop d.ihl = body
  kept : ∀ j < d.ihl, j ≠ 2 → j ≠ 3 → j ≠ 6 → j ≠ 7 → j ≠ 10 → j ≠ 11 → byte out j = byte raw j
  checksum : Ipv4ChecksumOk out d.ihl

theorem fragmentPacket_isFragment {raw : Bytes} (d : Datagram raw) (body : Bytes) (flagsFrag : Nat)
    (hb : d.ihl + body.length < 65536) (hf : flagsFrag < 65536) :
    IsFragment d body flagsFrag (fragmentPacket raw d.ihl body flagsFrag) := by
  have hihl := d.ihl_ge
  have htake : (raw.take d.ihl).length = d.ihl := by
    have h₁ := d.fits
    have h₂ := d.total_le
    simp only [List.length_take]
    omega
  have hlen : (raw.take d.ihl ++ body).length = d.ihl + body.length := by
    rw [List.length_append, htake]
  have hdrop : (raw.take d.ihl ++ body).drop d.ihl = body := List.drop_left' htake
  have hbyte : ∀ j < d.ihl, byte (raw.take d.ihl ++ body) j = byte raw j := by
    intro j hj
    rw [byte_append, htake, if_pos hj, byte_take, if_pos hj]
  simp only [fragmentPacket]
  generalize raw.take d.ihl ++ body = base at hlen hdrop hbyte ⊢
  refine ⟨by simp [hlen], ?_, ?_, ?_, ?_, ?_⟩
  · simp (disch := omega) only [ipTotalLen, be16_put16_of_ne, length_put16]
    exact be16_put16 _ _ _ (by omega) (by omega)
  · simp (disch := omega) only [ipFlagsFrag, be16_put16_of_ne]
    exact be16_put16 _ _ _ hf (by simp; omega)
  · simp (disch := omega) only [drop_put16, hdrop]
  · intro j hj h2 h3 h6 h7 h10 h11
    simp (disch := omega) only [byte_put16_of_ne, hbyte]
  · apply ipv4ChecksumOk_of_field _ _ (by omega) (d.ihl_le.trans_lt (by omega)) (by simp; omega)
    rw [be16_put16_self _ _ _ (by simp; omega)]
    congr 1
    simp (disch := omega) only [checksumIpv4Header_put16]

namespace IsFragment

variable {raw : Bytes} {d : Datagram raw} {body : Bytes} {flagsFrag : Nat} {out : Bytes}
variable (h : IsFragment d body flagsFrag out)

include h

theorem ihl_eq : ipIhl out = d.ihl := by
  have hk := h.kept 0 (by have := d.ihl_ge; omega) (by omega) (by omega) (by omega) (by omega)
    (by omega) (by omega)
  have hv := d.ihl_eq
  rwa [ipVerIhl, ← hk] at hv

theorem fragmentOf_eq : fragmentOf out =
    ⟨8 * (flagsFrag % 0x2000), flagsFrag / 0x2000 % 2 == 1, body⟩ := by
  have hdata : slice out (ipIhl out) (ipTotalLen out - ipIhl out) = body := by
    rw [h.ihl_eq, h.total, slice, List.take_of_length_le (by simp), h.body]
  simp only [fragmentOf, ipFragOffset, ipMf, h.flags, hdata]

-- Any part of the header outside the rewritten fields.
theorem slice_kept (offset len : Nat) (hfit : offset + len ≤ d.ihl)
    (hout : ∀ j, offset ≤ j → j < offset + len → j ≠ 2 ∧ j ≠ 3 ∧ j ≠ 6 ∧ j ≠ 7 ∧ j ≠ 10 ∧ j ≠ 11) :
    slice out offset len = slice raw offset len := by
  have hlo := h.length
  have hlr : d.ihl ≤ raw.length := by
    have h₁ := d.fits
    have h₂ := d.total_le
    omega
  apply ext_byte
  · rw [length_slice_of_le _ _ _ (by omega), length_slice_of_le _ _ _ (by omega)]
  · intro i hi
    rw [length_slice_of_le _ _ _ (by omega)] at hi
    obtain ⟨h2, h3, h6, h7, h10, h11⟩ := hout (offset + i) (by omega) (by omega)
    rw [byte_slice _ _ _ _ hi, byte_slice _ _ _ _ hi,
      h.kept (offset + i) (by omega) h2 h3 h6 h7 h10 h11]

end IsFragment

-- The identity of the datagram a fragment belongs to, which every fragment repeats.
structure SameDatagram (input : Bytes) (ihlBytes : Nat) (out : Bytes) : Prop where
  ihl : ipIhl out = ihlBytes
  checksum : Ipv4ChecksumOk out ihlBytes
  totalLen : ipTotalLen out = out.length
  id : ipId out = ipId input
  protocol : ipProtocol out = ipProtocol input
  src : ipSrc out = ipSrc input
  dst : ipDst out = ipDst input
  options : slice out IPV4_HEADER_SIZE (ihlBytes - IPV4_HEADER_SIZE) =
    slice input IPV4_HEADER_SIZE (ihlBytes - IPV4_HEADER_SIZE)

theorem IsFragment.sameDatagram {raw : Bytes} {d : Datagram raw} {body : Bytes} {flagsFrag : Nat}
    {out : Bytes} (h : IsFragment d body flagsFrag out) : SameDatagram raw d.ihl out := by
  have hihl := d.ihl_ge
  have hkept : ∀ j < 20, j ≠ 2 → j ≠ 3 → j ≠ 6 → j ≠ 7 → j ≠ 10 → j ≠ 11 →
      byte out j = byte raw j := fun j hj => h.kept j (by omega)
  refine ⟨h.ihl_eq, h.checksum, h.total, ?_, ?_, ?_, ?_, ?_⟩
  · simp (disch := omega) only [ipId, be16, hkept]
  · simp (disch := omega) only [ipProtocol, hkept]
  · exact h.slice_kept 12 4 (by omega) (by omega)
  · exact h.slice_kept 16 4 (by omega) (by omega)
  · exact h.slice_kept 20 (d.ihl - 20) (by omega) (by omega)

theorem offset_le_fragOffset {raw : Bytes} (d : Datagram raw) (splitOffset : Nat) :
    d.offset ≤ fragOffset d.tcpView splitOffset := by
  simp only [fragOffset, IP_FRAG_UNIT, Datagram.tcpView]
  omega

theorem fragOffset_mul {raw : Bytes} (d : Datagram raw) (splitOffset : Nat) :
    8 * (fragOffset d.tcpView splitOffset / IP_FRAG_UNIT) = fragOffset d.tcpView splitOffset := by
  simp only [fragOffset, IP_FRAG_UNIT]
  omega

-- What a successful fragmentation has built, up to the bytes it does not fix.
theorem packetFragmentIpv4_ok {input : Bytes} {splitOffset : Nat} {out1 out2 : Bytes}
    (h : packetFragmentIpv4 input splitOffset = .ok (out1, out2)) :
    ∃ d : Datagram input, 0 < splitOffset ∧ splitOffset < d.payload.length ∧
      fragOffset d.tcpView splitOffset < d.segment.length ∧
      IsFragment d (d.segment.take (fragOffset d.tcpView splitOffset)) IP_FLAG_MF.toNat out1 ∧
      IsFragment d (d.segment.drop (fragOffset d.tcpView splitOffset))
        (fragOffset d.tcpView splitOffset / IP_FRAG_UNIT) out2 := by
  obtain ⟨d, h₁, h₂, h₃, hout⟩ := (packetFragmentIpv4_ok_iff input splitOffset _).mp h
  obtain ⟨rfl, rfl⟩ := Prod.mk.inj hout
  have hl := d.segment_length
  have htot := d.total_lt
  have hfit := d.fits
  refine ⟨d, h₁, h₂, h₃, ?_, ?_⟩
  · apply fragmentPacket_isFragment
    · simp only [List.length_take]
      omega
    · exact IP_FLAG_MF.toNat_lt
  · apply fragmentPacket_isFragment
    · simp only [List.length_drop]
      omega
    · simp only [IP_FRAG_UNIT]
      omega

theorem IsFragment.first_eq {raw : Bytes} {d : Datagram raw} {body out : Bytes}
    (h : IsFragment d body IP_FLAG_MF.toNat out) : fragmentOf out = ⟨0, true, body⟩ :=
  h.fragmentOf_eq

theorem IsFragment.last_eq {raw : Bytes} {d : Datagram raw} {body out : Bytes} {splitOffset : Nat}
    (h : IsFragment d body (fragOffset d.tcpView splitOffset / IP_FRAG_UNIT) out)
    (hw : fragOffset d.tcpView splitOffset / IP_FRAG_UNIT < 0x2000) :
    fragmentOf out = ⟨fragOffset d.tcpView splitOffset, false, body⟩ := by
  rw [h.fragmentOf_eq, Nat.mod_eq_of_lt hw, Nat.div_eq_of_lt hw, fragOffset_mul]
  rfl

-- Reassembling the two fragments gives back the IP payload and nothing else. The
-- whole word flags_frag of fragment 2 is below 2^13, so it is the offset field alone.
theorem packetFragmentIpv4_reassembles (input : Bytes) (splitOffset : Nat) (out1 out2 : Bytes)
    (ip : Ipv4View) (tcp : TcpView)
    (h : packetFragmentIpv4 input splitOffset = .ok (out1, out2))
    (hip : packetParseIpv4 input = .ok ip) (htcp : packetParseTcp ip.payload = .ok tcp) :
    (∀ payload, Reassembles [fragmentOf out1, fragmentOf out2] payload ↔ payload = ip.payload) ∧
    SameDatagram input ip.ihlBytes out1 ∧ SameDatagram input ip.ihlBytes out2 ∧
    ipFragOffset out1 = 0 ∧ ipMf out1 = true ∧ ipDf out1 = false ∧
    tcp.offsetBytes ≤ ip.payload.length ∧
    ip.payload.take tcp.offsetBytes <+: (fragmentOf out1).data ∧
    ipMf out2 = false ∧ ipDf out2 = false ∧ (fragmentOf out2).data ≠ [] ∧
    ipFlagsFrag out2 < 2 ^ 13 := by
  obtain ⟨d, h₁, h₂, h₃, hf₁, hf₂⟩ := packetFragmentIpv4_ok h
  obtain rfl := Except.ok.inj (d.parse_ipv4.symm.trans hip)
  obtain rfl := Except.ok.inj (d.parse_tcp.symm.trans htcp)
  have hge := offset_le_fragOffset d splitOffset
  have hl := d.segment_length
  have htot := d.total_lt
  have hw : fragOffset d.tcpView splitOffset / IP_FRAG_UNIT < 0x2000 := by
    simp only [IP_FRAG_UNIT]
    omega
  have he₁ := hf₁.first_eq
  have he₂ := hf₂.last_eq hw
  have hr := Reassembles.pair d.segment (fragOffset d.tcpView splitOffset) (by omega)
  refine ⟨?_, hf₁.sameDatagram, hf₂.sameDatagram, ?_, ?_, ?_, ?_, ?_, ?_, ?_, ?_, ?_⟩
  · intro payload
    rw [he₁, he₂]
    exact hr.iff_eq payload
  · rw [ipFragOffset, hf₁.flags]
    decide
  · rw [ipMf, hf₁.flags]
    decide
  · rw [ipDf, hf₁.flags]
    decide
  · have hfit := d.fits
    change d.offset ≤ d.segment.length
    omega
  · rw [he₁]
    exact List.take_prefix_take_left hge
  · rw [ipMf, hf₂.flags, Nat.div_eq_of_lt hw]
    rfl
  · rw [ipDf, hf₂.flags, Nat.div_eq_of_lt (by omega)]
    rfl
  · rw [he₂]
    simp only [ne_eq, List.drop_eq_nil_iff]
    omega
  · rw [hf₂.flags]
    exact hw

theorem samplePacket_fragment (flags : UInt8) :
    ∃ out1 out2, packetFragmentIpv4 (samplePacket flags) 1 = .ok (out1, out2) := by
  have hcut : fragOffset (sampleDatagram flags).tcpView 1 = 24 := by
    simp [fragOffset, Datagram.tcpView, sampleDatagram, IP_FRAG_UNIT]
  have hseg : (sampleDatagram flags).segment.length = 26 := (sampleDatagram flags).segment_length
  refine ⟨_, _, (packetFragmentIpv4_ok_iff _ 1 _).mpr ⟨sampleDatagram flags, ?_, ?_, ?_, rfl⟩⟩
  · decide
  · simp
  · rw [hcut, hseg]
    decide

theorem packetFragmentIpv4_reassembles_sample : ∃ out1 out2,
    packetFragmentIpv4 (samplePacket 0x18) 1 = .ok (out1, out2) ∧
    Reassembles [fragmentOf out1, fragmentOf out2] (sampleDatagram 0x18).segment := by
  obtain ⟨out1, out2, h⟩ := samplePacket_fragment 0x18
  have hr := packetFragmentIpv4_reassembles _ 1 out1 out2 _ _ h (sampleDatagram 0x18).parse_ipv4
    (sampleDatagram 0x18).parse_tcp
  exact ⟨out1, out2, h, (hr.1 _).mpr rfl⟩

end DpiProxy.Packet
