import DpiProxy.Packet.Parse
import DpiProxy.Wire.OnesComplement

namespace DpiProxy.Packet

open Wire OnesComplement

def checksumAccumulate : Bytes → UInt32 → UInt32
  | a :: b :: rest, sum => checksumAccumulate rest (sum + ((a.toUInt32 <<< 8) ||| b.toUInt32))
  | [a], sum => sum + (a.toUInt32 <<< 8)
  | [], sum => sum

def carry (sum : UInt32) : UInt32 := (sum &&& (0xFFFF : UInt32)) + sum >>> (16 : UInt32)

theorem shiftRight_toNat (sum : UInt32) : (sum >>> 16).toNat = sum.toNat / 65536 := by
  simp [UInt32.toNat_shiftRight, Nat.shiftRight_eq_div_pow]

theorem carry_toNat (sum : UInt32) : (carry sum).toNat = sum.toNat % 65536 + sum.toNat / 65536 := by
  have hlt := sum.toNat_lt
  have hand : (sum &&& 0xFFFF).toNat = sum.toNat % 65536 := by
    rw [UInt32.toNat_and]
    exact Nat.and_two_pow_sub_one_eq_mod sum.toNat 16
  rw [carry, UInt32.toNat_add, hand, shiftRight_toNat]
  omega

-- The loop of checksum_finalize.
def checksumFold (sum : UInt32) : UInt32 :=
  if sum >>> 16 = 0 then sum else checksumFold (carry sum)
termination_by sum.toNat
decreasing_by
  have h : (sum >>> 16).toNat ≠ 0 := fun h => by simp_all [← UInt32.toNat_inj]
  rw [shiftRight_toNat] at h
  rw [carry_toNat]
  omega

def checksumFinalize (sum : UInt32) : UInt16 := ~~~ (checksumFold sum).toUInt16

-- The checksum field at offset 10 contributes nothing.
def checksumIpv4Header (hdr : Bytes) (ihlBytes : Nat) : UInt16 :=
  let sum := checksumAccumulate (slice hdr 0 10) 0
  let sum := checksumAccumulate (slice hdr 12 (ihlBytes - 12)) sum
  checksumFinalize sum

-- The checksum field at offset 16 of the segment contributes nothing.
def checksumTcpV4 (ip tcpSeg : Bytes) (tcpSegLen : Nat) : UInt16 :=
  if tcpSegLen < 18 then 0
  else
    let pseudo : Bytes := [0, 6, hi8 tcpSegLen, lo8 tcpSegLen]
    let sum := checksumAccumulate (ipSrc ip) 0
    let sum := checksumAccumulate (ipDst ip) sum
    let sum := checksumAccumulate pseudo sum
    let sum := checksumAccumulate (slice tcpSeg 0 16) sum
    let sum := checksumAccumulate (slice tcpSeg 18 (tcpSegLen - 18)) sum
    checksumFinalize sum

theorem word_toNat (a b : UInt8) :
    ((a.toUInt32 <<< 8) ||| b.toUInt32).toNat = a.toNat * 256 + b.toNat := by
  have ha := a.toNat_lt
  have hb := b.toNat_lt
  have hs : (a.toUInt32 <<< 8).toNat = a.toNat * 2 ^ 8 := by
    simp [UInt32.toNat_shiftLeft, Nat.shiftLeft_eq]
    omega
  rw [UInt32.toNat_or, hs, UInt8.toNat_toUInt32, ← Nat.shiftLeft_eq,
    ← Nat.shiftLeft_add_eq_or_of_lt hb, Nat.shiftLeft_eq]

theorem checksumAccumulate_toNat (b : Bytes) (sum : UInt32) :
    (checksumAccumulate b sum).toNat = (sum.toNat + (words b).sum) % 2 ^ 32 := by
  induction b, sum using checksumAccumulate.induct with
  | case1 a b rest sum ih =>
      rw [checksumAccumulate, ih, UInt32.toNat_add, word_toNat, words, List.sum_cons]
      omega
  | case2 a sum =>
      have h : (a.toUInt32 <<< 8).toNat = a.toNat * 256 := by simpa using word_toNat a 0
      rw [checksumAccumulate, UInt32.toNat_add, h, words, List.sum_singleton]
  | case3 sum =>
      have h := sum.toNat_lt
      simp only [checksumAccumulate, words, List.sum_nil]
      omega

theorem checksumFold_toNat (sum : UInt32) : (checksumFold sum).toNat = norm sum.toNat := by
  induction sum using checksumFold.induct with
  | case1 sum h =>
      have hz : sum.toNat / 65536 = 0 := by
        rw [← shiftRight_toNat, h, UInt32.toNat_zero]
      rw [checksumFold, if_pos h, norm_of_le _ (by omega)]
  | case2 sum h ih =>
      rw [checksumFold, if_neg h, ih, carry_toNat, norm_fold]

theorem checksumFinalize_toNat (sum : UInt32) :
    (checksumFinalize sum).toNat = 65535 - norm sum.toNat := by
  have hle := norm_le sum.toNat
  rw [checksumFinalize, UInt16.toNat_not, UInt32.toNat_toUInt16, checksumFold_toNat]
  norm_num [UInt16.size]
  omega

-- The RFC 1071 check of an IPv4 header and of a TCP segment with its pseudo-header.
def pseudoHeader (ip : Bytes) (len : Nat) : Bytes := ipSrc ip ++ ipDst ip ++ [0, 6, hi8 len, lo8 len]

def Ipv4ChecksumOk (packet : Bytes) (ihl : Nat) : Prop := Verifies (packet.take ihl)

def TcpChecksumOk (ip segment : Bytes) : Prop :=
  Verifies (pseudoHeader ip segment.length ++ segment)

instance (packet : Bytes) (ihl : Nat) : Decidable (Ipv4ChecksumOk packet ihl) :=
  inferInstanceAs (Decidable (Verifies _))

instance (ip segment : Bytes) : Decidable (TcpChecksumOk ip segment) :=
  inferInstanceAs (Decidable (Verifies _))

-- The word sums of everything a checksum covers except its own field.
def ipRest (packet : Bytes) (ihl : Nat) : Nat :=
  (words (slice packet 0 10)).sum + (words (slice packet 12 (ihl - 12))).sum

def tcpRest (ip segment : Bytes) : Nat :=
  (words (pseudoHeader ip segment.length)).sum + (words (segment.take 16)).sum +
    (words (segment.drop 18)).sum

-- Buffers that are accumulated one after the other, while the sum fits its 32 bits.
theorem checksumAccumulate_foldl (bufs : List Bytes) (sum : UInt32)
    (h : sum.toNat + (bufs.map fun b => (words b).sum).sum < 2 ^ 32) :
    (bufs.foldl (fun sum b => checksumAccumulate b sum) sum).toNat =
      sum.toNat + (bufs.map fun b => (words b).sum).sum := by
  induction bufs generalizing sum with
  | nil => simp
  | cons b bufs ih =>
      rw [List.map_cons, List.sum_cons] at h ⊢
      have hfirst : (checksumAccumulate b sum).toNat = sum.toNat + (words b).sum := by
        rw [checksumAccumulate_toNat, Nat.mod_eq_of_lt (by omega)]
      rw [List.foldl_cons, ih _ (by omega), hfirst, Nat.add_assoc]

theorem words_slice_sum_le (b : Bytes) (offset len : Nat) :
    (words (slice b offset len)).sum ≤ (len + 1) / 2 * 65535 := by
  have h := words_sum_le (slice b offset len)
  rw [length_slice] at h
  have hm : (min len (b.length - offset) + 1) / 2 ≤ (len + 1) / 2 := by omega
  exact h.trans (Nat.mul_le_mul_right _ hm)

theorem checksumIpv4Header_toNat (packet : Bytes) (ihl : Nat) (h : ihl < 256) :
    (checksumIpv4Header packet ihl).toNat = 65535 - norm (ipRest packet ihl) := by
  have h₁ := words_slice_sum_le packet 0 10
  have h₂ := words_slice_sum_le packet 12 (ihl - 12)
  have hm : (ihl - 12 + 1) / 2 * 65535 ≤ 122 * 65535 := Nat.mul_le_mul_right _ (by omega)
  have hsum := checksumAccumulate_foldl [slice packet 0 10, slice packet 12 (ihl - 12)] 0 (by simp; omega)
  simp only [List.foldl_cons, List.foldl_nil] at hsum
  simp only [checksumIpv4Header]
  rw [checksumFinalize_toNat, hsum]
  simp [ipRest]

theorem pseudoHeader_sum (ip : Bytes) (len : Nat) (hl : 20 ≤ ip.length) :
    (words (pseudoHeader ip len)).sum = (words (ipSrc ip)).sum + (words (ipDst ip)).sum +
      (words [0, 6, hi8 len, lo8 len]).sum := by
  have h₁ : (ipSrc ip).length = 4 := length_slice_of_le _ _ _ (by omega)
  have h₂ : (ipDst ip).length = 4 := length_slice_of_le _ _ _ (by omega)
  rw [pseudoHeader, words_append _ _ (by simp [h₁, h₂]), words_append _ _ (by simp [h₁]),
    List.sum_append, List.sum_append]

theorem pseudoHeader_length (ip : Bytes) (len : Nat) (hl : 20 ≤ ip.length) :
    (pseudoHeader ip len).length = 12 := by
  have h₁ : (ipSrc ip).length = 4 := length_slice_of_le _ _ _ (by omega)
  have h₂ : (ipDst ip).length = 4 := length_slice_of_le _ _ _ (by omega)
  simp [pseudoHeader, h₁, h₂]

section Segment

-- What the checksum of a segment covers behind a pseudo-header, its own field excepted.
def segmentRest (pseudo segment : Bytes) : Nat :=
  (words pseudo).sum + (words (segment.take 16)).sum + (words (segment.drop 18)).sum

variable {pseudo segment : Bytes}

-- The pseudo-header may be accumulated in several parts.
theorem segmentChecksum_toNat (parts : List Bytes)
    (hparts : (parts.map fun b => (words b).sum).sum = (words pseudo).sum)
    (h : 18 ≤ segment.length) (hmax : pseudo.length + segment.length ≤ 65535 + 40) :
    (checksumFinalize ((parts ++ [slice segment 0 16, slice segment 18 (segment.length - 18)]).foldl
      (fun sum b => checksumAccumulate b sum) 0)).toNat = 65535 - norm (segmentRest pseudo segment) := by
  have h₁ := words_sum_le pseudo
  have h₂ := words_slice_sum_le segment 0 16
  have h₃ := words_slice_sum_le segment 18 (segment.length - 18)
  have hm : ((pseudo.length + 1) / 2 + (segment.length - 18 + 1) / 2) * 65535 ≤ 32788 * 65535 :=
    Nat.mul_le_mul_right _ (by omega)
  have ht : slice segment 0 16 = segment.take 16 := by simp [slice]
  have hd : slice segment 18 (segment.length - 18) = segment.drop 18 := by
    rw [slice, List.take_of_length_le (by simp)]
  rw [checksumFinalize_toNat, checksumAccumulate_foldl _ _ (by simp [hparts]; omega)]
  simp [hparts, segmentRest, ht, hd, Nat.add_assoc]

theorem verifies_behind_iff (heven : pseudo.length % 2 = 0) (h : 18 ≤ segment.length) :
    Verifies (pseudo ++ segment) ↔ norm (segmentRest pseudo segment + be16 segment 16) = 65535 := by
  have hsum := words_sum_split segment 16 (by omega) (by omega)
  rw [show 16 + 2 = 18 from rfl] at hsum
  rw [verifies_iff, ← norm_eq_ones_iff, words_append _ _ heven, List.sum_append, hsum, segmentRest]
  congr! 2
  omega

end Segment

theorem checksumTcpV4_toNat (ip segment : Bytes) (hip : 20 ≤ ip.length)
    (h : 18 ≤ segment.length) (hmax : 12 + segment.length ≤ 65535 + 40) :
    (checksumTcpV4 ip segment segment.length).toNat = 65535 - norm (tcpRest ip segment) := by
  have hlen := pseudoHeader_length ip segment.length hip
  have hparts : ([ipSrc ip, ipDst ip, [0, 6, hi8 segment.length, lo8 segment.length]].map
      fun b => (words b).sum).sum = (words (pseudoHeader ip segment.length)).sum := by
    simp [pseudoHeader_sum ip _ hip, Nat.add_assoc]
  have hsum := segmentChecksum_toNat _ hparts h (by omega)
  rw [checksumTcpV4, if_neg (by omega)]
  exact hsum

theorem ipv4ChecksumOk_iff (packet : Bytes) (ihl : Nat) (hge : 12 ≤ ihl)
    (hl : ihl ≤ packet.length) :
    Ipv4ChecksumOk packet ihl ↔ norm (ipRest packet ihl + be16 packet 10) = 65535 := by
  have hlen : (packet.take ihl).length = ihl := by simp [hl]
  have hsum := words_sum_split (packet.take ihl) 10 (by omega) (by omega)
  have h₁ : (packet.take ihl).take 10 = slice packet 0 10 := by
    simp [slice, List.take_take, Nat.min_eq_left (show 10 ≤ ihl by omega)]
  have h₂ : (packet.take ihl).drop (10 + 2) = slice packet 12 (ihl - 12) := by
    simp [slice, List.drop_take]
  have h₃ : be16 (packet.take ihl) 10 = be16 packet 10 := by
    simp [be16, byte_take, show 10 < ihl by omega, show 11 < ihl by omega]
  rw [h₁, h₂, h₃] at hsum
  rw [Ipv4ChecksumOk, verifies_iff, ← norm_eq_ones_iff, hsum, ipRest]
  congr! 2
  omega

theorem tcpChecksumOk_iff (ip segment : Bytes) (hip : 20 ≤ ip.length) (h : 18 ≤ segment.length) :
    TcpChecksumOk ip segment ↔ norm (tcpRest ip segment + be16 segment 16) = 65535 := by
  have hlen := pseudoHeader_length ip segment.length hip
  exact verifies_behind_iff (by omega) h

-- A header or segment whose field holds the computed checksum verifies.
theorem ipv4ChecksumOk_of_field (packet : Bytes) (ihl : Nat) (hge : 12 ≤ ihl) (hlt : ihl < 256)
    (hl : ihl ≤ packet.length)
    (hfield : be16 packet 10 = (checksumIpv4Header packet ihl).toNat) :
    Ipv4ChecksumOk packet ihl := by
  rw [ipv4ChecksumOk_iff packet ihl hge hl, hfield, checksumIpv4Header_toNat packet ihl hlt]
  exact norm_add_complement _

theorem tcpChecksumOk_of_field (ip segment : Bytes) (hip : 20 ≤ ip.length)
    (h : 18 ≤ segment.length) (hmax : 12 + segment.length ≤ 65535 + 40)
    (hfield : be16 segment 16 = (checksumTcpV4 ip segment segment.length).toNat) :
    TcpChecksumOk ip segment := by
  rw [tcpChecksumOk_iff ip segment hip h, hfield, checksumTcpV4_toNat ip segment hip h hmax]
  exact norm_add_complement _

-- The checksums depend only on the bytes they cover.
theorem checksumIpv4Header_congr {p q : Bytes} {ihl : Nat} (h₁ : slice p 0 10 = slice q 0 10)
    (h₂ : slice p 12 (ihl - 12) = slice q 12 (ihl - 12)) :
    checksumIpv4Header p ihl = checksumIpv4Header q ihl := by
  simp only [checksumIpv4Header, h₁, h₂]

theorem checksumTcpV4_congr {p q seg seg' : Bytes} {len : Nat} (hs : slice p 12 8 = slice q 12 8)
    (h₁ : slice seg 0 16 = slice seg' 0 16)
    (h₂ : slice seg 18 (len - 18) = slice seg' 18 (len - 18)) :
    checksumTcpV4 p seg len = checksumTcpV4 q seg' len := by
  have hsrc : ipSrc p = ipSrc q := by
    simpa [ipSrc, take_slice] using congrArg (List.take 4) hs
  have hdst : ipDst p = ipDst q := by
    simpa [ipDst, drop_slice] using congrArg (List.drop 4) hs
  simp only [checksumTcpV4, hsrc, hdst, h₁, h₂]

-- Neither checksum reads its own field, and the IP one reads nothing behind its header.
theorem checksumIpv4Header_put16 (b : Bytes) (i n ihl : Nat) (hihl : 20 ≤ ihl)
    (h : i = 10 ∨ ihl ≤ i) : checksumIpv4Header (put16 b i n) ihl = checksumIpv4Header b ihl := by
  apply checksumIpv4Header_congr
  · rw [slice_put16 _ _ _ _ _ (by omega)]
  · rw [slice_put16 _ _ _ _ _ (by omega)]

theorem checksumTcpV4_put16 (b : Bytes) (n ihl len : Nat) (hihl : 20 ≤ ihl) :
    checksumTcpV4 (put16 b (ihl + 16) n) ((put16 b (ihl + 16) n).drop ihl) len =
      checksumTcpV4 b (b.drop ihl) len := by
  apply checksumTcpV4_congr
  · rw [slice_put16 _ _ _ _ _ (by omega)]
  · rw [slice_drop, slice_drop, slice_put16 _ _ _ _ _ (by omega)]
  · rw [slice_drop, slice_drop, slice_put16 _ _ _ _ _ (by omega)]

end DpiProxy.Packet
