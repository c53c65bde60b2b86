import DpiProxy.Packet.Fake

namespace DpiProxy.Packet

open Wire OnesComplement

-- Everything a successful run fixes about the decoy.
structure IsDecoy {raw : Bytes} (d : Datagram raw) (ttl : UInt8) (out : Bytes) : Prop where
  length : out.length = raw.length
  ttl : ipTtl out = ttl
  kept : ∀ j, j ≠ 8 → j ≠ 10 → j ≠ 11 → j ≠ d.ihl + 16 → j ≠ d.ihl + 17 → byte out j = byte raw j
  ipChecksum : Ipv4ChecksumOk out d.ihl
  complement : be16 out (d.ihl + 16) = 65535 - be16 raw (d.ihl + 16)

theorem not_ofNat_toNat (n : Nat) (h : n < 65536) : (~~~ UInt16.ofNat n).toNat = 65535 - n := by
  rw [UInt16.toNat_not, UInt16.toNat_ofNat_of_lt' h]
  norm_num [UInt16.size]

theorem packetMakeFakeTcpV4_ok {input : Bytes} {ttl : UInt8} {out : Bytes}
    (h : packetMakeFakeTcpV4 input ttl = .ok out) :
    ∃ d : Datagram input, 0 < d.payload.length ∧ IsDecoy d ttl out := by
  rcases parseTcpDatagram_cases input with ⟨d, hd⟩ | ⟨e, he⟩
  · simp only [packetMakeFakeTcpV4, hd, bind, Except.bind] at h
    by_cases hp : d.tcpView.payload.length = 0
    · simp [hp] at h
    · rw [if_neg hp] at h
      have hpos : 0 < d.payload.length := Nat.pos_of_ne_zero hp
      refine ⟨d, hpos, ?_⟩
      obtain rfl := Except.ok.inj h
      have hihl := d.ihl_ge
      have hoff := d.offset_ge
      have hfit := d.fits
      have hlen := d.total_le
      simp only [Datagram.ipView]
      have hset : ∀ j, j ≠ 8 → byte (input.set 8 ttl) j = byte input j := by
        intro j hj
        rw [byte_set, if_neg (by omega)]
      have hfield : be16 (input.set 8 ttl) (d.ihl + 16) = be16 input (d.ihl + 16) := by
        simp (disch := omega) only [be16, hset]
      have hbase : (input.set 8 ttl).length = input.length := by simp
      have hset8 : byte (input.set 8 ttl) 8 = ttl := by
        rw [byte_set, if_pos (by omega)]
      generalize input.set 8 ttl = base at hset hfield hbase hset8 ⊢
      refine ⟨by simp [hbase], ?_, ?_, ?_, ?_⟩
      · simp (disch := omega) only [ipTtl, byte_put16_of_ne, hset8]
      · intro j h8 h10 h11 h16 h17
        simp (disch := omega) only [byte_put16_of_ne, hset]
      · apply ipv4ChecksumOk_of_field _ _ (by omega) (d.ihl_le.trans_lt (by omega)) (by simp; omega)
        rw [be16_put16_of_ne _ _ _ _ (by omega), be16_put16_self _ _ _ (by simp; omega)]
        congr 1
        simp (disch := omega) only [checksumIpv4Header_put16]
      · rw [be16_put16_self _ _ _ (by simp; omega)]
        simp (disch := omega) only [be16_put16_of_ne, hfield]
        exact not_ofNat_toNat _ (be16_lt _ _)
  · simp [packetMakeFakeTcpV4, he, bind, Except.bind] at h

namespace IsDecoy

variable {raw : Bytes} {d : Datagram raw} {ttl : UInt8} {out : Bytes} (h : IsDecoy d ttl out)

include h

-- The segment of the decoy: the original one except for the checksum field.
theorem slice_kept (offset len : Nat) (hfit : offset + len ≤ raw.length)
    (hlow : 12 ≤ offset) (hout : offset + len ≤ d.ihl + 16 ∨ d.ihl + 18 ≤ offset) :
    slice out offset len = slice raw offset len := by
  have hl := h.length
  apply ext_byte
  · rw [length_slice, length_slice, hl]
  · intro i hi
    rw [length_slice] at hi
    rw [byte_slice _ _ _ _ (by omega), byte_slice _ _ _ _ (by omega)]
    exact h.kept _ (by omega) (by omega) (by omega) (by omega) (by omega)

theorem tcpRest_eq (hlen : 18 ≤ d.segment.length) :
    tcpRest out (slice out d.ihl d.segment.length) = tcpRest raw d.segment := by
  have hihl := d.ihl_ge
  have hl := d.segment_length
  have hle := d.total_le
  have hol := h.length
  have hseg : (slice out d.ihl d.segment.length).length = d.segment.length :=
    length_slice_of_le _ _ _ (by omega)
  have hsrc : ipSrc out = ipSrc raw := h.slice_kept 12 4 (by omega) (by omega) (by omega)
  have hdst : ipDst out = ipDst raw := h.slice_kept 16 4 (by omega) (by omega) (by omega)
  have htake : (slice out d.ihl d.segment.length).take 16 = d.segment.take 16 := by
    rw [take_slice _ _ _ _ (by omega), Datagram.segment, take_slice _ _ _ _ (by omega)]
    exact h.slice_kept d.ihl 16 (by omega) (by omega) (by omega)
  have hdrop : (slice out d.ihl d.segment.length).drop 18 = d.segment.drop 18 := by
    rw [drop_slice, hl, Datagram.segment, drop_slice]
    exact h.slice_kept (d.ihl + 18) _ (by omega) (by omega) (by omega)
  rw [tcpRest, tcpRest, hseg, htake, hdrop, pseudoHeader, pseudoHeader, hsrc, hdst]

end IsDecoy

theorem tcpRest_pos (ip segment : Bytes) (hip : 20 ≤ ip.length) : 0 < tcpRest ip segment := by
  have h := pseudoHeader_sum ip segment.length hip
  simp only [words, List.sum_cons] at h
  have h₆ : (6 : UInt8).toNat = 6 := rfl
  rw [tcpRest]
  omega

theorem IsDecoy.tcpChecksumOk_iff {raw : Bytes} {d : Datagram raw} {ttl : UInt8} {out : Bytes}
    (h : IsDecoy d ttl out) (hok : TcpChecksumOk raw d.segment) :
    TcpChecksumOk out (slice out d.ihl d.segment.length) ↔
      tcpChecksum d.segment = 0 ∨ tcpChecksum d.segment = 65535 := by
  have hihl := d.ihl_ge
  have hoff := d.offset_ge
  have hfit := d.fits
  have hle := d.total_le
  have hl := d.segment_length
  have hol := h.length
  have hseg : (slice out d.ihl d.segment.length).length = d.segment.length :=
    length_slice_of_le _ _ _ (by omega)
  have hraw : be16 raw (d.ihl + 16) = tcpChecksum d.segment :=
    (be16_slice _ _ _ _ (by omega)).symm
  have hfield : be16 (slice out d.ihl d.segment.length) 16 = 65535 - tcpChecksum d.segment := by
    rw [be16_slice _ _ _ _ (by omega), h.complement, hraw]
  have hlt : tcpChecksum d.segment < 65536 := be16_lt _ _
  rw [Packet.tcpChecksumOk_iff raw d.segment (by omega) (by omega)] at hok
  rw [Packet.tcpChecksumOk_iff out _ (by omega) (by omega), hfield, h.tcpRest_eq (by omega)]
  exact norm_complement_iff _ _ (tcpRest_pos raw d.segment (by omega)) (by omega) hok

-- A decoy that every checksum-validating endpoint drops.
structure RejectedDecoy (input : Bytes) (ip : Ipv4View) (ttl : UInt8) (out : Bytes) : Prop where
  tcpChecksum : ¬TcpChecksumOk out (slice out ip.ihlBytes ip.payload.length)
  ipChecksum : Ipv4ChecksumOk out ip.ihlBytes
  ttl : ipTtl out = ttl
  length : out.length = input.length
  bytes : ∀ j, j ≠ 8 → j ≠ 10 → j ≠ 11 → j ≠ ip.ihlBytes + 16 → j ≠ ip.ihlBytes + 17 →
    byte out j = byte input j

-- One's-complement arithmetic has two zeros. A checksum field that holds one of
-- them is complemented to the other, and the decoy stays valid.
theorem packetMakeFakeTcpV4_rejected_iff (input : Bytes) (ttl : UInt8) (out : Bytes) (ip : Ipv4View)
    (h : packetMakeFakeTcpV4 input ttl = .ok out) (hip : packetParseIpv4 input = .ok ip)
    (hok : TcpChecksumOk input ip.payload) :
    RejectedDecoy input ip ttl out ↔
      tcpChecksum ip.payload ≠ 0 ∧ tcpChecksum ip.payload ≠ 0xFFFF := by
  obtain ⟨d, -, hd⟩ := packetMakeFakeTcpV4_ok h
  obtain rfl := Except.ok.inj (d.parse_ipv4.symm.trans hip)
  have hiff := hd.tcpChecksumOk_iff hok
  constructor
  · intro hr
    have hn := mt hiff.mpr hr.tcpChecksum
    exact not_or.mp hn
  · intro hne
    exact ⟨mt hiff.mp (not_or.mpr hne), hd.ipChecksum, hd.ttl, hd.length, hd.kept⟩

-- The sample datagram with a valid checksum in its TCP header, and one whose
-- valid checksum is zero.
def checkedPacket : Bytes := put16 (samplePacket 0x18) 36 0xA8A3

def zeroChecksumPacket : Bytes := put16 (samplePacket 0x18) 44 0x0E0A

theorem packetMakeFakeTcpV4_rejected_checked : ∃ out ip,
    packetMakeFakeTcpV4 checkedPacket 8 = .ok out ∧ packetParseIpv4 checkedPacket = .ok ip ∧
    RejectedDecoy checkedPacket ip 8 out := by
  refine ⟨put16 (put16 (checkedPacket.set 8 8) 10 0x4E36) 36 0x575C,
    ⟨checkedPacket, 20, 46, 6, slice checkedPacket 20 26⟩, ?_, ?_, ?_⟩
  · decide +kernel
  · decide +kernel
  · exact (packetMakeFakeTcpV4_rejected_iff checkedPacket 8 _ _ (by decide +kernel)
      (by decide +kernel) (by decide +kernel)).mpr (by decide +kernel)

theorem packetMakeFakeTcpV4_accepted : ∃ out ip,
    packetMakeFakeTcpV4 zeroChecksumPacket 8 = .ok out ∧
    packetParseIpv4 zeroChecksumPacket = .ok ip ∧ TcpChecksumOk zeroChecksumPacket ip.payload ∧
    TcpChecksumOk out (slice out ip.ihlBytes ip.payload.length) ∧
    ¬RejectedDecoy zeroChecksumPacket ip 8 out := by
  have hout : TcpChecksumOk (put16 (put16 (zeroChecksumPacket.set 8 8) 10 0x4E36) 36 0xFFFF)
      (slice (put16 (put16 (zeroChecksumPacket.set 8 8) 10 0x4E36) 36 0xFFFF) 20 26) := by
    decide +kernel
  refine ⟨put16 (put16 (zeroChecksumPacket.set 8 8) 10 0x4E36) 36 0xFFFF,
    ⟨zeroChecksumPacket, 20, 46, 6, slice zeroChecksumPacket 20 26⟩, ?_, ?_, ?_, hout, ?_⟩
  · decide +kernel
  · decide +kernel
  · decide +kernel
  · intro hr
    exact hr.tcpChecksum hout

end DpiProxy.Packet
