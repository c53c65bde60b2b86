import DpiProxy.Packet.Split

namespace DpiProxy.Packet

open Wire

-- A successful run is a datagram with a split point strictly inside its payload.
theorem packetSplitTcpV4_ok_iff (input : Bytes) (splitOffset : Nat) (out : Bytes × Bytes) :
    packetSplitTcpV4 input splitOffset = .ok out ↔
      ∃ d : Datagram input, 0 < splitOffset ∧ splitOffset < d.payload.length ∧
        out = (splitFirst input d.ipView d.tcpView splitOffset,
          splitSecond input d.ipView d.tcpView splitOffset) := by
  constructor
  · intro h
    rcases parseTcpDatagram_cases input with ⟨d, hd⟩ | ⟨e, he⟩
    · simp only [packetSplitTcpV4, hd, bind, Except.bind] at h
      by_cases hs : splitOffset = 0 ∨ splitOffset ≥ d.tcpView.payload.length
      · simp [hs] at h
      · rw [if_neg hs] at h
        simp only [Datagram.tcpView] at hs
        exact ⟨d, by omega, by omega, (Except.ok.inj h).symm⟩
    · simp [packetSplitTcpV4, he, bind, Except.bind] at h
  · rintro ⟨d, h₁, h₂, rfl⟩
    have hs : ¬(splitOffset = 0 ∨ splitOffset ≥ d.tcpView.payload.length) := by
      simp only [Datagram.tcpView]
      omega
    simp only [packetSplitTcpV4, parseTcpDatagram_eq d, bind, Except.bind]
    rw [if_neg hs]

-- What both outputs of a split have in common: the input's headers with the
-- length, sequence number and checksums of the new body.
structure Resegmented {raw : Bytes} (d : Datagram raw) (body : Bytes) (seq : UInt32) (out : Bytes) :
    Prop where
  length : out.length = d.hdrs + body.length
  fits : out.length < 65536
  total : be16 out 2 = out.length
  body : out.drop d.hdrs = body
  seq : be32 out (d.ihl + 4) = seq
  kept : ∀ j < d.hdrs, j ≠ 2 → j ≠ 3 → j ≠ 10 → j ≠ 11 → (j < d.ihl + 4 ∨ d.ihl + 7 < j) →
    j ≠ d.ihl + 16 → j ≠ d.ihl + 17 → byte out j = byte raw j
  ipSum : be16 out 10 = (checksumIpv4Header out d.ihl).toNat
  tcpSum : be16 out (d.ihl + 16) =
    (checksumTcpV4 out (out.drop d.ihl) (out.length - d.ihl)).toNat

section Build

variable {raw : Bytes} (d : Datagram raw)

theorem splitFirst_resegmented (n : Nat) (h₁ : 0 < n) (h₂ : n < d.payload.length) :
    Resegmented d (d.payload.take n) d.seq (splitFirst raw d.ipView d.tcpView n) := by
  have hihl := d.ihl_ge
  have hoff := d.offset_ge
  have htot := d.total_lt
  have hpl := d.payload_length
  have hh : d.hdrs = d.ihl + d.offset := rfl
  have hb : (d.payload.take n).length = n := by simp; omega
  have hbase := length_take_append d.hdrs_le (d.payload.take n)
  have hbyte := fun j => byte_take_append (j := j) d.hdrs_le (d.payload.take n)
  have hdrop := drop_take_append d.hdrs_le (d.payload.take n)
  simp only [splitFirst, Datagram.ipView, Datagram.tcpView]
  rw [← hh]
  generalize raw.take d.hdrs ++ d.payload.take n = base at hbase hbyte hdrop ⊢
  refine ⟨by simp [hbase], by simp; omega, ?_, ?_, ?_, ?_, ?_, ?_⟩
  · simp (disch := omega) only [be16_put16_of_ne, length_put16]
    exact be16_put16 _ _ _ (by omega) (by omega)
  · simp (disch := omega) only [drop_put16, hdrop]
  · simp (disch := omega) only [be32_put16_of_ne]
    simp (disch := omega) only [be32, be16, hbyte, Datagram.seq]
  · intro j hj h2 h3 h10 h11 hs h16 h17
    simp (disch := omega) only [byte_put16_of_ne, hbyte]
  · rw [be16_put16_of_ne _ _ _ _ (by omega), be16_put16_of_ne _ _ _ _ (by omega),
      be16_put16_self _ _ _ (by simp; omega)]
    refine congrArg UInt16.toNat ?_
    simp (disch := omega) only [checksumIpv4Header_put16]
  · rw [be16_put16_self _ _ _ (by simp; omega)]
    refine congrArg UInt16.toNat ?_
    have hlen : d.offset + n = base.length - d.ihl := by omega
    simp only [length_put16, hlen]
    exact (checksumTcpV4_put16 _ _ _ _ hihl).symm

theorem splitSecond_resegmented (n : Nat) (h₁ : 0 < n) (h₂ : n < d.payload.length) :
    Resegmented d (d.payload.drop n) (d.seq + UInt32.ofNat n)
      (splitSecond raw d.ipView d.tcpView n) := by
  have hihl := d.ihl_ge
  have hoff := d.offset_ge
  have htot := d.total_lt
  have hpl := d.payload_length
  have hh : d.hdrs = d.ihl + d.offset := rfl
  have hb : (d.payload.drop n).length = d.payload.length - n := by simp
  have hbase := length_take_append d.hdrs_le (d.payload.drop n)
  have hbyte := fun j => byte_take_append (j := j) d.hdrs_le (d.payload.drop n)
  have hdrop := drop_take_append d.hdrs_le (d.payload.drop n)
  simp only [splitSecond, Datagram.ipView, Datagram.tcpView]
  rw [← hh]
  generalize raw.take d.hdrs ++ d.payload.drop n = base at hbase hbyte hdrop ⊢
  refine ⟨by simp [hbase], by simp; omega, ?_, ?_, ?_, ?_, ?_, ?_⟩
  · simp (disch := omega) only [be16_put16_of_ne, be16_put32_of_ne, length_put16, length_put32]
    exact be16_put16 _ _ _ (by omega) (by omega)
  · simp (disch := omega) only [drop_put16, drop_put32, hdrop]
  · simp (disch := omega) only [be32_put16_of_ne]
    exact be32_put32 _ _ _ (by simp; omega)
  · intro j hj h2 h3 h10 h11 hs h16 h17
    simp (disch := omega) only [byte_put16_of_ne, byte_put32_of_ne, hbyte]
  · rw [be16_put16_of_ne _ _ _ _ (by omega), be16_put16_self _ _ _ (by simp; omega)]
    refine congrArg UInt16.toNat ?_
    simp (disch := omega) only [checksumIpv4Header_put16]
  · rw [be16_put16_self _ _ _ (by simp; omega)]
    refine congrArg UInt16.toNat ?_
    have hlen : d.offset + (d.payload.length - n) = base.length - d.ihl := by omega
    simp only [length_put16, length_put32, hlen]
    exact (checksumTcpV4_put16 _ _ _ _ hihl).symm

end Build

-- What a successful split returns.
theorem packetSplitTcpV4_ok {input out1 out2 : Bytes} {splitOffset : Nat}
    (h : packetSplitTcpV4 input splitOffset = .ok (out1, out2)) :
    ∃ d : Datagram input, 0 < splitOffset ∧ splitOffset < d.payload.length ∧
      Resegmented d (d.payload.take splitOffset) d.seq out1 ∧
      Resegmented d (d.payload.drop splitOffset) (d.seq + UInt32.ofNat splitOffset) out2 := by
  obtain ⟨d, h₁, h₂, hout⟩ := (packetSplitTcpV4_ok_iff input splitOffset _).mp h
  obtain ⟨hfirst, hsecond⟩ := Prod.mk.inj hout
  refine ⟨d, h₁, h₂, ?_, ?_⟩
  · rw [hfirst]
    exact splitFirst_resegmented d splitOffset h₁ h₂
  · rw [hsecond]
    exact splitSecond_resegmented d splitOffset h₁ h₂

namespace Resegmented

variable {raw : Bytes} {d : Datagram raw} {body : Bytes} {seq : UInt32} {out : Bytes}
variable (h : Resegmented d body seq out)

include h

theorem byte_ip (j : Nat) (hj : j < 20) (h2 : j ≠ 2) (h3 : j ≠ 3) (h10 : j ≠ 10) (h11 : j ≠ 11) :
    byte out j = byte raw j := by
  have hihl := d.ihl_ge
  have hh : d.hdrs = d.ihl + d.offset := rfl
  exact h.kept j (by omega) h2 h3 h10 h11 (by omega) (by omega) (by omega)

-- The output is again a datagram, with the same header lengths.
def datagram : Datagram out where
  ihl := d.ihl
  offset := d.offset
  total := out.length
  version := by
    have hv := d.version
    rwa [ipVerIhl, ← h.byte_ip 0 (by omega) (by omega) (by omega) (by omega) (by omega)] at hv
  ihl_eq := by
    have hv := d.ihl_eq
    rwa [ipVerIhl, ← h.byte_ip 0 (by omega) (by omega) (by omega) (by omega) (by omega)] at hv
  ihl_ge := d.ihl_ge
  total_eq := h.total
  total_le := Nat.le_refl _
  whole := by
    have hv := d.whole
    rwa [ipFlagsFrag, be16, ← h.byte_ip 6 (by omega) (by omega) (by omega) (by omega) (by omega),
      ← h.byte_ip (6 + 1) (by omega) (by omega) (by omega) (by omega) (by omega)] at hv
  tcp := by
    have hv := d.tcp
    rwa [ipProtocol, ← h.byte_ip 9 (by omega) (by omega) (by omega) (by omega) (by omega)] at hv
  offset_eq := by
    have hv := d.offset_eq
    have h₁ := d.ihl_ge
    have h₂ := d.offset_ge
    rwa [← h.kept (d.ihl + 12) (by unfold Datagram.hdrs; omega) (by omega) (by omega) (by omega)
      (by omega) (by omega) (by omega) (by omega)] at hv
  offset_ge := d.offset_ge
  fits := by
    have hl := h.length
    unfold Datagram.hdrs at hl
    omega

theorem datagram_payload : h.datagram.payload = body := by
  have hl := h.length
  have hb := h.body
  rw [Datagram.payload, slice, List.take_of_length_le (by simp [datagram])]
  exact hb

theorem datagram_segment : h.datagram.segment = out.drop d.ihl := by
  rw [Datagram.segment, slice, List.take_of_length_le (by simp [datagram])]
  rfl

theorem datagram_seq : h.datagram.seq = seq := h.seq

theorem datagram_flags : h.datagram.flags = d.flags := by
  have h₁ := d.ihl_ge
  have h₂ := d.offset_ge
  exact h.kept (d.ihl + 13) (by unfold Datagram.hdrs; omega) (by omega) (by omega) (by omega)
    (by omega) (by omega) (by omega) (by omega)

theorem ipv4ChecksumOk : Ipv4ChecksumOk out d.ihl := by
  have hl := h.length
  have h₁ := d.ihl_ge
  have h₂ := d.ihl_le
  have hh : d.hdrs = d.ihl + d.offset := rfl
  exact ipv4ChecksumOk_of_field out d.ihl (by omega) (by omega) (by omega) h.ipSum

theorem tcpChecksumOk : TcpChecksumOk out h.datagram.segment := by
  have hl := h.length
  have h₁ := d.ihl_ge
  have h₂ := d.offset_ge
  have h₃ := h.fits
  have hh : d.hdrs = d.ihl + d.offset := rfl
  rw [h.datagram_segment]
  apply tcpChecksumOk_of_field out (out.drop d.ihl) (by omega) (by simp; omega) (by simp; omega)
  rw [be16_drop, List.length_drop]
  exact h.tcpSum

end Resegmented

end DpiProxy.Packet
