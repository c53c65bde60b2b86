import DpiProxy.Packet.Fragment.Theorems
import DpiProxy.Packet.Split.Lemmas

namespace DpiProxy.Packet

open Wire

-- The fields by which a receiver groups fragments.
def datagramId (raw : Bytes) : Bytes × Bytes × UInt8 × Nat :=
  (ipSrc raw, ipDst raw, ipProtocol raw, ipId raw)

-- The data bytes with their sequence numbers, counted from the header's number.
def numbered (seq : UInt32) (data : Bytes) : List (UInt32 × UInt8) :=
  data.mapIdx fun i b => (seq + UInt32.ofNat i, b)

def tcpBytes (segment : Bytes) : List (UInt32 × UInt8) :=
  match packetParseTcp segment with
  | .ok tcp => numbered tcp.seq tcp.payload
  | .error _ => []

-- The IP layer completes every datagram of the packets, and the TCP segments in
-- them carry exactly these bytes, each once.
structure Carries (packets : List Bytes) (seq : UInt32) (data : Bytes) : Prop where
  complete : ∃ segments, Delivers datagramId fragmentOf packets segments
  exact : ∀ segments, Delivers datagramId fragmentOf packets segments →
    (segments.flatMap tcpBytes).Perm (numbered seq data)

theorem Carries.of_delivers {packets segments : List Bytes} {seq : UInt32} {data : Bytes}
    (h : Delivers datagramId fragmentOf packets segments)
    (hperm : (segments.flatMap tcpBytes).Perm (numbered seq data)) : Carries packets seq data where
  complete := ⟨segments, h⟩
  exact := by
    intro segments' h'
    rw [h'.unique _ _ h]
    exact hperm

theorem numbered_append (seq : UInt32) (a b : Bytes) :
    numbered seq (a ++ b) = numbered seq a ++ numbered (seq + UInt32.ofNat a.length) b := by
  rw [numbered, List.mapIdx_append]
  congr 1
  rw [numbered]
  congr 1
  funext i x
  rw [Nat.add_comm, UInt32.ofNat_add, UInt32.add_assoc]

theorem Datagram.unique {raw : Bytes} (d d' : Datagram raw) : d = d' := by
  have hihl : d.ihl = d'.ihl := d.ihl_eq.symm.trans d'.ihl_eq
  have htotal : d.total = d'.total := d.total_eq.symm.trans d'.total_eq
  have hoffset : d.offset = d'.offset := by
    rw [← d.offset_eq, ← d'.offset_eq, hihl]
  cases d
  cases d'
  simp only [Datagram.mk.injEq]
  exact ⟨hihl, hoffset, htotal⟩

theorem Datagram.fragmentOf_eq {raw : Bytes} (d : Datagram raw) :
    fragmentOf raw = ⟨0, false, d.segment⟩ := by
  have hwhole := d.whole
  have hoff : ipFragOffset raw = 0 := by
    rw [ipFragOffset]
    omega
  have hmf : ipMf raw = false := by
    rw [ipMf, beq_eq_false_iff_ne]
    omega
  have hihl : ipIhl raw = d.ihl := d.ihl_eq
  rw [fragmentOf, hoff, hmf, hihl, d.total_eq]
  rfl

theorem Datagram.tcpBytes_segment {raw : Bytes} (d : Datagram raw) :
    tcpBytes d.segment = numbered d.seq d.payload := by
  rw [tcpBytes, d.parse_tcp]
  rfl

-- The two TCP segments of a split, in either order.
theorem packetSplitTcpV4_carries {raw : Bytes} (d : Datagram raw) {splitOffset : Nat}
    {seg1 seg2 : Bytes} (h : packetSplitTcpV4 raw splitOffset = .ok (seg1, seg2))
    {packets : List Bytes} (hperm : packets.Perm [seg1, seg2]) :
    Carries packets d.seq d.payload := by
  obtain ⟨d', h₁, h₂, hf, hs⟩ := packetSplitTcpV4_ok h
  rw [d'.unique d] at h₂ hf hs
  have hbytes : ([seg1, seg2].map (fragmentOf · |>.data)).flatMap tcpBytes =
      numbered d.seq d.payload := by
    have hsplit := numbered_append d.seq (d.payload.take splitOffset) (d.payload.drop splitOffset)
    rw [List.take_append_drop, List.length_take, Nat.min_eq_left (by omega)] at hsplit
    simp only [List.map_cons, List.map_nil, List.flatMap_cons, List.flatMap_nil, List.append_nil,
      hf.datagram.fragmentOf_eq, hs.datagram.fragmentOf_eq, Datagram.tcpBytes_segment,
      hf.datagram_seq, hs.datagram_seq, hf.datagram_payload, hs.datagram_payload]
    exact hsplit.symm
  have hwhole : ∀ p ∈ packets, (fragmentOf p).whole = true := by
    intro p hp
    rcases List.mem_pair.mp (hperm.mem_iff.mp hp) with rfl | rfl
    · rw [hf.datagram.fragmentOf_eq]
      rfl
    · rw [hs.datagram.fragmentOf_eq]
      rfl
  apply Carries.of_delivers (Delivers.whole datagramId fragmentOf hwhole)
  rw [← hbytes]
  exact (hperm.map _).flatMap_right _

-- The two IP fragments, whose payload comes back whole.
theorem packetFragmentIpv4_carries {raw : Bytes} (d : Datagram raw) {splitOffset : Nat}
    {seg1 seg2 : Bytes} (h : packetFragmentIpv4 raw splitOffset = .ok (seg1, seg2)) :
    Carries [seg1, seg2] d.seq d.payload := by
  obtain ⟨d', h₁, h₂, h₃, hf₁, hf₂⟩ := packetFragmentIpv4_ok h
  obtain rfl := d'.unique d
  have hge := offset_le_fragOffset d' splitOffset
  have hpos := d'.offset_ge
  have hlen := d'.segment_length
  have htot := d'.total_lt
  have he₁ := hf₁.first_eq
  have he₂ := hf₂.last_eq (by simp only [IP_FRAG_UNIT]; omega)
  have hw₂ : (fragmentOf seg2).whole = false := by
    have hne : fragOffset d'.tcpView splitOffset ≠ 0 := by omega
    rw [he₂]
    simp [Fragment.whole, hne]
  have hid : datagramId seg1 = datagramId seg2 := by
    have hs₁ := hf₁.sameDatagram
    have hs₂ := hf₂.sameDatagram
    simp only [datagramId, hs₁.src, hs₂.src, hs₁.dst, hs₂.dst, hs₁.protocol, hs₂.protocol, hs₁.id,
      hs₂.id]
  have hr : Reassembles [fragmentOf seg1, fragmentOf seg2] d'.segment := by
    rw [he₁, he₂]
    exact Reassembles.pair d'.segment _ (by omega)
  have hdel := Delivers.pair datagramId fragmentOf (by rw [he₁]; rfl) hw₂ hid hr
  apply Carries.of_delivers hdel
  simp only [List.flatMap_cons, List.flatMap_nil, List.append_nil, d'.tcpBytes_segment]
  exact .refl _

end DpiProxy.Packet
