import DpiProxy.Packet.SplitV6

namespace DpiProxy.Packet

open Wire OnesComplement

section Chain

-- The words of a packet with the longest pseudo-header sum to less than 2 ^ 32.
theorem words_sum_lt {b : Bytes} (h : b.length ≤ 65535 + 40) : (words b).sum < 2 ^ 32 := by
  have hle := words_sum_le b
  have hm : (b.length + 1) / 2 * 65535 ≤ 32788 * 65535 := Nat.mul_le_mul_right _ (by omega)
  omega

theorem accumulate_toNat {b : Bytes} (h : b.length ≤ 65535 + 40) :
    (checksumAccumulate b 0).toNat = (words b).sum := by
  have hlt := words_sum_lt h
  rw [checksumAccumulate_toNat, UInt32.toNat_zero, Nat.zero_add, Nat.mod_eq_of_lt hlt]

theorem accumulate_chain_toNat {bufs : List Bytes} (heven : EvenButLast bufs)
    (h : bufs.flatten.length ≤ 65535 + 40) :
    (bufs.foldl (fun sum b => checksumAccumulate b sum) 0).toNat = (words bufs.flatten).sum := by
  have hlt := words_sum_lt h
  rw [words_flatten_sum heven] at hlt ⊢
  rw [checksumAccumulate_foldl bufs 0 (by simpa using hlt), UInt32.toNat_zero, Nat.zero_add]

theorem accumulate_chain {bufs : List Bytes} (heven : EvenButLast bufs)
    (h : bufs.flatten.length ≤ 65535 + 40) :
    bufs.foldl (fun sum b => checksumAccumulate b sum) 0 = checksumAccumulate bufs.flatten 0 := by
  rw [← UInt32.toNat_inj, accumulate_chain_toNat heven h, accumulate_toNat h]

theorem finalize_accumulate {b : Bytes} (h : b.length ≤ 65535 + 40) :
    (checksumFinalize (checksumAccumulate b 0)).toNat = checksum b := by
  rw [checksumFinalize_toNat, accumulate_toNat h, checksum_eq]

theorem finalize_eq_zero {b : Bytes} (h : b.length ≤ 65535 + 40) (hok : Verifies b) :
    checksumFinalize (checksumAccumulate b 0) = 0 := by
  rw [← UInt16.toNat_inj, finalize_accumulate h, (checksum_eq_zero_iff b).mpr hok, UInt16.toNat_zero]

end Chain

-- A 32-bit sum fits 16 bits after two rounds of the loop of checksum_finalize.
theorem checksumFold_rounds (sum : UInt32) :
    ∃ rounds ≤ 2, checksumFold sum = carry^[rounds] sum ∧ carry^[rounds] sum >>> 16 = 0 := by
  have hdone : ∀ s : UInt32, s.toNat < 65536 → s >>> 16 = 0 := by
    intro s hs
    rw [← UInt32.toNat_inj, shiftRight_toNat, Nat.div_eq_of_lt hs, UInt32.toNat_zero]
  have hstop : ∀ s : UInt32, s >>> 16 = 0 → checksumFold s = s := by
    intro s hs
    rw [checksumFold, if_pos hs]
  have hround : ∀ s : UInt32, s >>> 16 ≠ 0 → checksumFold s = checksumFold (carry s) := by
    intro s hs
    rw [checksumFold, if_neg hs]
  by_cases h₀ : sum >>> 16 = 0
  · exact ⟨0, by omega, hstop sum h₀, h₀⟩
  · by_cases h₁ : carry sum >>> 16 = 0
    · exact ⟨1, by omega, (hround sum h₀).trans (hstop _ h₁), h₁⟩
    · have hlt := sum.toNat_lt
      have hfirst := carry_toNat sum
      have hsecond := carry_toNat (carry sum)
      have hover : 65536 ≤ (carry sum).toNat := by
        by_contra hsmall
        exact h₁ (hdone _ (by omega))
      have h₂ : carry (carry sum) >>> 16 = 0 := hdone _ (by omega)
      exact ⟨2, le_rfl, (hround sum h₀).trans ((hround _ h₁).trans (hstop _ h₂)), h₂⟩

section Field

theorem checksumTcpV4_field (ip segment : Bytes) (n len : Nat) :
    checksumTcpV4 ip (put16 segment 16 n) len = checksumTcpV4 ip segment len :=
  checksumTcpV4_congr rfl (slice_put16 _ _ _ _ _ (by omega)) (slice_put16 _ _ _ _ _ (by omega))

theorem checksumTcpV6_field (ip segment : Bytes) (n len : Nat) :
    checksumTcpV6 ip (put16 segment 16 n) len = checksumTcpV6 ip segment len := by
  have hbefore : slice (put16 segment 16 n) 0 16 = slice segment 0 16 := slice_put16 _ _ _ _ _ (by omega)
  have hbehind : slice (put16 segment 16 n) 18 (len - 18) = slice segment 18 (len - 18) :=
    slice_put16 _ _ _ _ _ (by omega)
  simp only [checksumTcpV6, hbefore, hbehind]

-- The field of an IPv4 header of any length ihl_bytes can say.
theorem ipv4_field_finalizes {header : Bytes} {ihl : Nat} (hge : 12 ≤ ihl) (hlt : ihl < 256)
    (hl : ihl ≤ header.length) :
    checksumFinalize (checksumAccumulate
      ((put16 header 10 (checksumIpv4Header header ihl).toNat).take ihl) 0) = 0 := by
  have hsame : checksumIpv4Header (put16 header 10 (checksumIpv4Header header ihl).toNat) ihl =
      checksumIpv4Header header ihl :=
    checksumIpv4Header_congr (slice_put16 _ _ _ _ _ (by omega)) (slice_put16 _ _ _ _ _ (by omega))
  apply finalize_eq_zero
  · rw [List.length_take]
    omega
  · apply ipv4ChecksumOk_of_field _ _ hge hlt (by rw [length_put16]; exact hl)
    rw [be16_put16_self _ _ _ (by omega), hsame]

theorem tcpV4_field_finalizes {ip segment : Bytes} (hip : 20 ≤ ip.length) (h : 18 ≤ segment.length)
    (hmax : 12 + segment.length ≤ 65535 + 40) :
    checksumFinalize (checksumAccumulate (pseudoHeader ip segment.length ++
      put16 segment 16 (checksumTcpV4 ip segment segment.length).toNat) 0) = 0 := by
  have hlen := pseudoHeader_length ip segment.length hip
  apply finalize_eq_zero
  · rw [List.length_append, length_put16, hlen]
    exact hmax
  · have hok := tcpChecksumOk_of_field ip
      (put16 segment 16 (checksumTcpV4 ip segment segment.length).toNat) hip
      (by rw [length_put16]; exact h) (by rw [length_put16]; exact hmax)
      (by rw [be16_put16_self _ _ _ (by omega), length_put16, checksumTcpV4_field])
    rwa [TcpChecksumOk, length_put16] at hok

theorem tcpV6_field_finalizes {ip segment : Bytes} (hip : 40 ≤ ip.length) (h : 18 ≤ segment.length)
    (hmax : segment.length < 65536) :
    checksumFinalize (checksumAccumulate (pseudoHeaderV6 ip segment.length ++
      put16 segment 16 (checksumTcpV6 ip segment segment.length).toNat) 0) = 0 := by
  have hlen := pseudoHeaderV6_length hip segment.length
  apply finalize_eq_zero
  · rw [List.length_append, length_put16, hlen]
    omega
  · have hok : TcpChecksumOkV6 ip (put16 segment 16 (checksumTcpV6 ip segment segment.length).toNat) :=
      tcpChecksumOkV6_of_field hip (by rw [length_put16]; exact h) (by rw [length_put16]; exact hmax)
        (by rw [be16_put16_self _ _ _ (by omega), length_put16, checksumTcpV6_field])
    rwa [TcpChecksumOkV6, length_put16] at hok

end Field

theorem checksum_is_rfc1071 :
    (∀ bufs : List Bytes, EvenButLast bufs → bufs.flatten.length ≤ 65535 + 40 →
      let sum := bufs.foldl (fun sum b => checksumAccumulate b sum) 0
      sum = checksumAccumulate bufs.flatten 0 ∧
      -- No addition has wrapped: the sum is that of the words in unbounded integers.
      (words bufs.flatten).sum < 2 ^ 32 ∧ sum.toNat = (words bufs.flatten).sum ∧
      (∃ rounds ≤ 2, checksumFold sum = carry^[rounds] sum ∧ carry^[rounds] sum >>> 16 = 0) ∧
      (checksumFinalize sum).toNat = checksum bufs.flatten) ∧
    (∀ (header : Bytes) (ihl : Nat), 12 ≤ ihl → ihl < 256 → ihl ≤ header.length →
      checksumFinalize (checksumAccumulate
        ((put16 header 10 (checksumIpv4Header header ihl).toNat).take ihl) 0) = 0) ∧
    (∀ ip segment : Bytes, 20 ≤ ip.length → 18 ≤ segment.length →
      12 + segment.length ≤ 65535 + 40 →
      checksumFinalize (checksumAccumulate (pseudoHeader ip segment.length ++
        put16 segment 16 (checksumTcpV4 ip segment segment.length).toNat) 0) = 0) ∧
    ∀ ip segment : Bytes, 40 ≤ ip.length → 18 ≤ segment.length →
      40 + segment.length ≤ 65535 + 40 →
      checksumFinalize (checksumAccumulate (pseudoHeaderV6 ip segment.length ++
        put16 segment 16 (checksumTcpV6 ip segment segment.length).toNat) 0) = 0 := by
  refine ⟨fun bufs heven hmax => ?_, fun header ihl hge hlt hl => ipv4_field_finalizes hge hlt hl,
    fun ip segment hip h hmax => tcpV4_field_finalizes hip h hmax,
    fun ip segment hip h hmax => tcpV6_field_finalizes hip h (by omega)⟩
  have hchain := accumulate_chain heven hmax
  refine ⟨hchain, words_sum_lt hmax, accumulate_chain_toNat heven hmax, checksumFold_rounds _, ?_⟩
  rw [hchain]
  exact finalize_accumulate hmax

-- Three buffers, the last of them odd.
theorem checksum_is_rfc1071_pieces :
    EvenButLast [[69, 0], [1, 2, 3, 4], [5]] ∧
    ([[69, 0], [1, 2, 3, 4], [5]] : List Bytes).foldl (fun sum b => checksumAccumulate b sum) 0 =
      checksumAccumulate [69, 0, 1, 2, 3, 4, 5] 0 := by
  have heven : EvenButLast [[69, 0], [1, 2, 3, 4], [5]] := by simp [EvenButLast]
  exact ⟨heven, (checksum_is_rfc1071.1 _ heven (by simp)).1⟩

end DpiProxy.Packet
