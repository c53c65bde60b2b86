import DpiProxy.Relay.Theorems
import DpiProxy.Tls.Complete

namespace DpiProxy.Relay

open Wire Wire.Record Packet Tls

-- A field that begins at the end of one piece and ends at the beginning of the next.
def Straddles (first second field : Bytes) : Prop :=
  ∃ front back, front ≠ [] ∧ back ≠ [] ∧ field = front ++ back ∧ front <:+ first ∧ back <+: second

theorem slice_ne_nil {b : Bytes} {offset len : Nat} (hpos : 0 < len) (h : offset + len ≤ b.length) :
    slice b offset len ≠ [] := by
  have hlen := length_slice_of_le b offset len h
  exact List.ne_nil_of_length_pos (by omega)

theorem straddles_cut {b : Bytes} {start cut stop offset len : Nat} (hstart : start ≤ offset)
    (hbefore : offset < start + cut) (hafter : start + cut < offset + len)
    (hstop : offset + len ≤ start + cut + stop) (hlen : offset + len ≤ b.length) :
    Straddles (slice b start cut) (slice b (start + cut) stop) (slice b offset len) := by
  refine ⟨slice b offset (start + cut - offset), slice b (start + cut) (offset + len - (start + cut)),
    slice_ne_nil (by omega) (by omega), slice_ne_nil (by omega) (by omega), ?_, ?_, ?_⟩
  · have hjoin := slice_append_slice b offset (start + cut - offset) (offset + len - (start + cut))
    rw [show offset + (start + cut - offset) = start + cut by omega,
      show start + cut - offset + (offset + len - (start + cut)) = len by omega] at hjoin
    exact hjoin.symm
  · have hjoin := slice_append_slice b start (offset - start) (start + cut - offset)
    rw [show start + (offset - start) = offset by omega,
      show offset - start + (start + cut - offset) = cut by omega] at hjoin
    exact ⟨_, hjoin⟩
  · rw [← take_slice b (start + cut) stop _ (by omega)]
    exact List.take_prefix _ _

section Field

variable {data : Bytes} {offset len : Nat}

theorem sniField_bounds (h : SniField data offset len) :
    58 ≤ offset ∧ offset + len ≤ extensionsEnd data ∧ extensionsEnd data ≤ data.length := by
  have hbounds := h.name.bounds
  have hstart := start_le_end data
  exact ⟨by omega, hbounds.2, h.fits⟩

theorem tlsRecordSplitPoint_name (h : SniField data offset len) (hlen : 2 ≤ len) :
    tlsRecordSplitPoint data = offset + len / 2 - 5 := by
  have hsplit := (tlsFindSniSplit_iff data _).mpr ⟨offset, len, h, hlen, rfl⟩
  have hbounds := sniField_bounds h
  rw [tlsRecordSplitPoint, hsplit]
  exact if_pos (by omega)

def handshakeRecord (minor : UInt8) (body : Bytes) : Bytes := header 0x16 0x03 minor body.length ++ body

-- A whole first record, cut in its middle.
theorem tlsFragmentFirstRecord_whole {cut outSize : Nat} (hrecord : byte data 0 = 0x16)
    (hmajor : byte data 1 = 0x03) (hpos : 1 ≤ cut) (hcut : cut < be16 data 3)
    (hwhole : 5 + be16 data 3 ≤ data.length) (hsize : data.length + 5 ≤ outSize) :
    tlsFragmentFirstRecord data cut outSize =
      some (handshakeRecord (byte data 2) (slice data 5 cut) ++
        (handshakeRecord (byte data 2) (slice data (5 + cut) (be16 data 3 - cut)) ++
          data.drop (5 + be16 data 3))) := by
  have hfirst : (slice data 5 cut).length = cut := length_slice_of_le _ _ _ (by omega)
  have hsecond : (slice data (5 + cut) (be16 data 3 - cut)).length = be16 data 3 - cut :=
    length_slice_of_le _ _ _ (by omega)
  have hrest : slice data (5 + cut) (be16 data 3 - cut) ++ data.drop (5 + be16 data 3) =
      data.drop (5 + cut) := by
    have hjoin := slice_append_drop data (5 + cut) (be16 data 3 - cut)
    rwa [show 5 + cut + (be16 data 3 - cut) = 5 + be16 data 3 by omega] at hjoin
  rw [tlsFragmentFirstRecord, if_neg (by simp [hrecord, hmajor]; omega)]
  dsimp only
  rw [if_neg (by omega), take_three data (by omega), hrecord, hmajor, handshakeRecord, handshakeRecord,
    hfirst, hsecond]
  simp only [header, List.append_assoc, hrest]
  rfl

-- The name is cut in two between the records of the two TLS modes, and between the
-- writes of the TCP mode.
theorem relaySendFirst_straddles (h : SniField data offset len) (hlen : 2 ≤ len)
    (hbuffer : data.length ≤ BUFFER_SIZE) (hmajor : byte data 1 = 0x03)
    (hinside : extensionsEnd data ≤ 5 + be16 data 3) (hwhole : 5 + be16 data 3 ≤ data.length) :
    ∃ first second, first ++ second = slice data 5 (be16 data 3) ∧
      Straddles first second (slice data offset len) ∧
      let framed := handshakeRecord (byte data 2) first ++
        (handshakeRecord (byte data 2) second ++ data.drop (5 + be16 data 3))
      tlsFragmentFirstRecord data (tlsRecordSplitPoint data) (BUFFER_SIZE + 5) = some framed ∧
      (∀ script, relaySendFirst script data .tlsRecord =
        sendSplit script (handshakeRecord (byte data 2) first)
          (handshakeRecord (byte data 2) second ++ data.drop (5 + be16 data 3))) ∧
      (∀ script, relaySendFirst script data .tlsRecordTcp =
        sendSplit script (framed.take RELAY_TLSREC_TCP_CUT) (framed.drop RELAY_TLSREC_TCP_CUT)) := by
  obtain ⟨hlow, hhigh, hfits⟩ := sniField_bounds h
  have hpoint := tlsRecordSplitPoint_name h hlen
  have hframed := @tlsFragmentFirstRecord_whole data (offset + len / 2 - 5) (BUFFER_SIZE + 5) h.record
    hmajor (by omega) (by omega) hwhole (by omega)
  rw [← hpoint] at hframed
  have hfirst : (slice data 5 (tlsRecordSplitPoint data)).length = tlsRecordSplitPoint data :=
    length_slice_of_le _ _ _ (by omega)
  refine ⟨_, _, ?_, ?_, hframed, fun script => ?_, fun script => ?_⟩
  · rw [slice_append_slice, Nat.add_sub_of_le (by omega)]
  · exact straddles_cut (by omega) (by omega) (by omega) (by omega) (by omega)
  · have hcut : (handshakeRecord (byte data 2) (slice data 5 (tlsRecordSplitPoint data))).length =
        5 + tlsRecordSplitPoint data := by
      rw [handshakeRecord, List.length_append, hfirst]
      rfl
    simp only [relaySendFirst, sendFirstTlsRecord]
    rw [hframed]
    dsimp only
    rw [← hcut, List.take_left, List.drop_left]
  · simp only [relaySendFirst, sendFirstTlsRecordTcp]
    rw [hframed]
    dsimp only
    have hlong : RELAY_TLSREC_TCP_CUT < (handshakeRecord (byte data 2)
        (slice data 5 (tlsRecordSplitPoint data)) ++ (handshakeRecord (byte data 2)
          (slice data (5 + tlsRecordSplitPoint data) (be16 data 3 - tlsRecordSplitPoint data)) ++
            data.drop (5 + be16 data 3))).length := by
      rw [List.length_append, handshakeRecord, List.length_append, hfirst]
      show 3 < 5 + tlsRecordSplitPoint data + _
      omega
    rw [if_neg (Nat.not_le.mpr hlong)]

theorem sendFirstTls_straddles (h : SniField data offset len) (hlen : 2 ≤ len) :
    ∃ first second, first ++ second = data ∧ Straddles first second (slice data offset len) ∧
      ∀ script, relaySendFirst script data .tcp = sendSplit script first second := by
  obtain ⟨hlow, hhigh, hfits⟩ := sniField_bounds h
  have hsplit := (tlsFindSniSplit_iff data _).mpr ⟨offset, len, h, hlen, rfl⟩
  refine ⟨data.take (offset + len / 2), data.drop (offset + len / 2), List.take_append_drop _ _, ?_,
    fun script => ?_⟩
  · have hcut := @straddles_cut data 0 (offset + len / 2) (data.length - (offset + len / 2)) offset len
      (by omega) (by omega) (by omega) (by omega) (by omega)
    rw [Nat.zero_add] at hcut
    rwa [slice_to_end data (offset + len / 2) _ (by omega)] at hcut
  · simp only [relaySendFirst, sendFirstTls]
    rw [hsplit]
    dsimp only
    rw [if_neg (by omega)]

end Field

-- The two ClientHello parsers find the same name, so the name that decides about a
-- connection is the one that the relay cuts in two.
theorem parsers_agree (data : Bytes) (hostOutSize : Nat) :
    (∀ name, tlsParseClientHelloSni data hostOutSize = .ok name → 2 ≤ name.length →
      ∃ offset, SniField data offset name.length ∧ slice data offset name.length = name ∧
        tlsFindSniSplit data = some (offset + name.length / 2) ∧
        offset < offset + name.length / 2 ∧ offset + name.length / 2 < offset + name.length) ∧
    (∀ split, tlsFindSniSplit data = some split → data.length ≤ TLS_CLIENTHELLO_CAP →
      be24 data 6 ≤ TLS_CLIENTHELLO_CAP → be16 data (compressionEnd data) ≤ TLS_CLIENTHELLO_CAP →
      ∃ offset len, SniField data offset len ∧ split = offset + len / 2 ∧
        (len < hostOutSize → tlsParseClientHelloSni data hostOutSize = .ok (slice data offset len))) ∧
    (∀ offset len, SniField data offset len → 2 ≤ len → data.length ≤ BUFFER_SIZE →
      byte data 1 = 0x03 → extensionsEnd data ≤ 5 + be16 data 3 → 5 + be16 data 3 ≤ data.length →
      (∃ first second, first ++ second = slice data 5 (be16 data 3) ∧
        Straddles first second (slice data offset len) ∧
        let framed := handshakeRecord (byte data 2) first ++
          (handshakeRecord (byte data 2) second ++ data.drop (5 + be16 data 3))
        tlsFragmentFirstRecord data (tlsRecordSplitPoint data) (BUFFER_SIZE + 5) = some framed ∧
        (∀ script, relaySendFirst script data .tlsRecord =
          sendSplit script (handshakeRecord (byte data 2) first)
            (handshakeRecord (byte data 2) second ++ data.drop (5 + be16 data 3))) ∧
        (∀ script, relaySendFirst script data .tlsRecordTcp =
          sendSplit script (framed.take RELAY_TLSREC_TCP_CUT) (framed.drop RELAY_TLSREC_TCP_CUT))) ∧
      ∃ first second, first ++ second = data ∧ Straddles first second (slice data offset len) ∧
        ∀ script, relaySendFirst script data .tcp = sendSplit script first second) := by
  refine ⟨fun name hname hlen => ?_, fun split hsplit hcap hmessage _ => ?_,
    fun offset len h hlen hbuffer hmajor hinside hwhole => ?_⟩
  · obtain ⟨offset, len, h, hpos, hsize, rfl⟩ := sniField_of_ok hname
    have hbounds := sniField_bounds h
    have hslice : (slice data offset len).length = len := length_slice_of_le _ _ _ (by omega)
    rw [hslice] at hlen ⊢
    have hsplit := (tlsFindSniSplit_iff data _).mpr ⟨offset, len, h, hlen, rfl⟩
    exact ⟨offset, h, rfl, hsplit, by omega, by omega⟩
  · obtain ⟨offset, len, h, hlen, rfl⟩ := (tlsFindSniSplit_iff data split).mp hsplit
    exact ⟨offset, len, h, rfl, fun hsize => ok_of_sniField hcap hmessage h (by omega) hsize⟩
  · exact ⟨relaySendFirst_straddles h hlen hbuffer hmajor hinside hwhole, sendFirstTls_straddles h hlen⟩

theorem parsers_agree_sample :
    ∃ offset, tlsFindSniSplit sampleHello.bytes = some (offset + 3 / 2) ∧
      slice sampleHello.bytes offset 3 = [97, 46, 98] := by
  have hparse : tlsParseClientHelloSni sampleHello.bytes 256 = .ok [97, 46, 98] := by decide +kernel
  obtain ⟨offset, -, hslice, hsplit, -⟩ := (parsers_agree sampleHello.bytes 256).1 _ hparse (by decide)
  exact ⟨offset, hsplit, hslice⟩

end DpiProxy.Relay
