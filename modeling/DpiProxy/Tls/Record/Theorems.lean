import DpiProxy.Tls.Record

namespace DpiProxy.Tls

open Wire Wire.Record

theorem take_three (data : Bytes) (h : 3 ≤ data.length) :
    data.take 3 = [byte data 0, byte data 1, byte data 2] := by
  match data, h with
  | a :: b :: c :: rest, _ => simp [byte]

-- The two headers and the unchanged body bytes of a fragmented first record.
theorem tlsFragmentFirstRecord_eq {data : Bytes} {cut outSize : Nat} {out : Bytes}
    (h : tlsFragmentFirstRecord data cut outSize = some out) :
    6 ≤ data.length ∧ byte data 0 = 0x16 ∧ byte data 1 = 0x03 ∧
    1 ≤ cut ∧ cut < be16 data 3 ∧ cut < data.length - 5 ∧ data.length + 5 ≤ outSize ∧
    out = header 0x16 (byte data 1) (byte data 2) cut ++ (slice data 5 cut ++
      (header 0x16 (byte data 1) (byte data 2) (be16 data 3 - cut) ++ data.drop (5 + cut))) := by
  unfold tlsFragmentFirstRecord at h
  by_cases hhead : data.length < 6 ∨ byte data 0 ≠ 0x16 ∨ byte data 1 ≠ 0x03
  · simp [hhead] at h
  · rw [if_neg hhead] at h
    obtain ⟨hlen, hty, hmaj⟩ : 6 ≤ data.length ∧ byte data 0 = 0x16 ∧ byte data 1 = 0x03 := by
      simpa only [not_or, not_lt, ne_eq, not_not] using hhead
    by_cases hcut : cut < 1 ∨ cut ≥ be16 data 3 ∨ cut ≥ data.length - 5 ∨ outSize < data.length + 5
    · dsimp only at h
      rw [if_pos hcut] at h
      cases h
    · dsimp only at h
      rw [if_neg hcut] at h
      have h := Option.some.inj h
      refine ⟨hlen, hty, hmaj, by omega, by omega, by omega, by omega, ?_⟩
      rw [← h, take_three data (by omega), hty]
      simp only [header, List.cons_append, List.nil_append]

-- Fragmenting the first record changes record boundaries only, for every byte
-- that arrives later.
theorem tlsFragmentFirstRecord_deframe {data : Bytes} {cut outSize : Nat} {out : Bytes}
    (h : tlsFragmentFirstRecord data cut outSize = some out) (rest : Bytes) :
    deframe (out ++ rest) = deframe (data ++ rest) := by
  obtain ⟨hlen, hty, -, h₁, h₂, h₃, -, rfl⟩ := tlsFragmentFirstRecord_eq h
  have hlt := be16_lt data 3
  have hbody : (slice data 5 cut).length = cut := length_slice_of_le _ _ _ (by omega)
  have hmerge := deframe_merge 0x16 (byte data 1) (byte data 2) (byte data 1) (byte data 2)
    (byte data 1) (byte data 2) cut (be16 data 3 - cut) (slice data 5 cut)
    (data.drop (5 + cut) ++ rest) hbody (by omega)
  rw [Nat.add_sub_of_le (Nat.le_of_lt h₂)] at hmerge
  simp only [List.append_assoc]
  rw [hmerge, ← List.append_assoc (slice data 5 cut), slice_append_drop, ← hty,
    ← List.append_assoc, ← eq_header_append data (by omega)]

theorem tlsFragmentFirstRecord_length {data : Bytes} {cut outSize : Nat} {out : Bytes}
    (h : tlsFragmentFirstRecord data cut outSize = some out) : out.length = data.length + 5 := by
  obtain ⟨hlen, -, -, h₁, h₂, h₃, -, rfl⟩ := tlsFragmentFirstRecord_eq h
  simp only [header, slice, List.length_append, List.length_cons, List.length_nil,
    List.length_take, List.length_drop]
  omega

theorem tlsFragmentFirstRecord_starts {data : Bytes} {cut outSize : Nat} {out : Bytes}
    (h : tlsFragmentFirstRecord data cut outSize = some out) : [0x16, 0x03] <+: data := by
  obtain ⟨hlen, hty, hmaj, -⟩ := tlsFragmentFirstRecord_eq h
  match data, hlen, hty, hmaj with
  | a :: b :: rest, _, ha, hb =>
      simp only [byte, List.getD_cons_zero, List.getD_cons_succ] at ha hb
      exact ⟨rest, by rw [ha, hb]; rfl⟩

-- The declared lengths of the handshake records at the start of a buffer. The
-- last one may have arrived only in part.
def handshakeLengths (b : Bytes) : List Nat :=
  if 5 ≤ b.length ∧ byte b 0 = 0x16 then
    be16 b 3 :: handshakeLengths (b.drop (5 + be16 b 3))
  else []
termination_by b.length

-- At the head of the loop every record so far was complete: the gathered body is
-- what those records carry.
structure Gathered (input : Bytes) (pos : Nat) (body : Bytes) (declared records : Nat) : Prop where
  pos_le : pos ≤ input.length
  pos_eq : pos = 5 * records + body.length
  declared_eq : declared = body.length
  lengths : (handshakeLengths input).sum = declared + (handshakeLengths (input.drop pos)).sum
  deframed : ∀ rest, deframe (input ++ rest) =
    body.map (0x16, ·) ++ deframe (input.drop pos ++ rest)

-- After the loop the last record may be incomplete: one record with the declared
-- length carries the same bytes, whatever arrives later.
structure Merged (input : Bytes) (pos : Nat) (body : Bytes) (declared records : Nat) : Prop where
  pos_le : pos ≤ input.length
  pos_eq : pos = 5 * records + body.length
  lengths : (handshakeLengths input).sum = declared
  deframed : ∀ rest, deframe (input ++ rest) =
    ((body ++ (input.drop pos ++ rest)).take declared).map (0x16, ·) ++
      deframe ((body ++ (input.drop pos ++ rest)).drop declared)

theorem gathered_start (input : Bytes) : Gathered input 0 [] 0 0 where
  pos_le := Nat.zero_le _
  pos_eq := rfl
  declared_eq := rfl
  lengths := by simp
  deframed := by simp

section Loop

variable {input : Bytes} {pos : Nat} {body : Bytes} {declared records : Nat}

theorem Gathered.merged (h : Gathered input pos body declared records)
    (hexit : ¬(pos + 5 ≤ input.length ∧ byte input pos = 0x16)) :
    Merged input pos body declared records where
  pos_le := h.pos_le
  pos_eq := h.pos_eq
  lengths := by
    have hnil : handshakeLengths (input.drop pos) = [] := by
      rw [handshakeLengths, if_neg]
      simp only [List.length_drop, byte_drop, Nat.add_zero]
      intro hc
      exact hexit ⟨by omega, hc.2⟩
    rw [h.lengths, hnil]
    rfl
  deframed := by
    intro rest
    rw [h.deframed rest, h.declared_eq, List.take_left, List.drop_left]

-- What the record at the current position carries.
theorem deframe_at (hlen : pos + 5 ≤ input.length) (hty : byte input pos = 0x16) (rest : Bytes) :
    deframe (input.drop pos ++ rest) =
      ((input.drop (pos + 5) ++ rest).take (be16 input (pos + 3))).map (0x16, ·) ++
        deframe ((input.drop (pos + 5) ++ rest).drop (be16 input (pos + 3))) := by
  rw [deframe_of_header (input.drop pos) rest (by simp; omega), List.drop_drop, be16_drop, byte_drop,
    Nat.add_zero, hty]

theorem handshakeLengths_at (hlen : pos + 5 ≤ input.length) (hty : byte input pos = 0x16) :
    handshakeLengths (input.drop pos) = be16 input (pos + 3) ::
      handshakeLengths (input.drop (pos + 5 + be16 input (pos + 3))) := by
  have hcond : 5 ≤ (input.drop pos).length ∧ byte (input.drop pos) 0 = 0x16 := by
    rw [List.length_drop, byte_drop, Nat.add_zero]
    exact ⟨by omega, hty⟩
  rw [handshakeLengths, if_pos hcond, be16_drop, List.drop_drop, Nat.add_assoc pos]

theorem handshakeLengths_end (h : input.length ≤ pos) : handshakeLengths (input.drop pos) = [] := by
  rw [List.drop_of_length_le h, handshakeLengths, if_neg (by simp)]

theorem Gathered.step (h : Gathered input pos body declared records)
    (hlen : pos + 5 ≤ input.length) (hty : byte input pos = 0x16)
    (hall : be16 input (pos + 3) ≤ input.length - pos - 5) :
    Gathered input (pos + 5 + be16 input (pos + 3))
      (body ++ slice input (pos + 5) (be16 input (pos + 3)))
      (declared + be16 input (pos + 3)) (records + 1) := by
  have hs : (slice input (pos + 5) (be16 input (pos + 3))).length = be16 input (pos + 3) :=
    length_slice_of_le _ _ _ (by omega)
  refine ⟨by omega, ?_, ?_, ?_, ?_⟩
  · have hp := h.pos_eq
    rw [List.length_append, hs]
    omega
  · rw [List.length_append, hs, h.declared_eq]
  · rw [h.lengths, handshakeLengths_at hlen hty, List.sum_cons, Nat.add_assoc declared]
  · intro rest
    rw [h.deframed rest, deframe_at hlen hty rest, List.map_append, List.append_assoc]
    congr 1
    have hd := slice_append_drop input (pos + 5) (be16 input (pos + 3))
    rw [← hd, List.append_assoc, List.take_append_of_le_length (by omega),
      List.take_of_length_le (by omega), List.drop_append_of_le_length (by omega),
      List.drop_of_length_le (by omega), List.nil_append]

-- The record that has only partly arrived ends the buffer.
theorem Gathered.last (h : Gathered input pos body declared records)
    (hlen : pos + 5 ≤ input.length) (hty : byte input pos = 0x16)
    (hpart : input.length - pos - 5 < be16 input (pos + 3)) :
    Merged input (pos + 5 + (input.length - pos - 5))
      (body ++ slice input (pos + 5) (input.length - pos - 5))
      (declared + be16 input (pos + 3)) (records + 1) := by
  have hend : pos + 5 + (input.length - pos - 5) = input.length := by omega
  have hs : slice input (pos + 5) (input.length - pos - 5) = input.drop (pos + 5) :=
    slice_to_end _ _ _ (by omega)
  rw [hend, hs]
  refine ⟨Nat.le_refl _, ?_, ?_, ?_⟩
  · have hp := h.pos_eq
    rw [List.length_append, List.length_drop]
    omega
  · rw [h.lengths, handshakeLengths_at hlen hty, handshakeLengths_end (by omega), List.sum_singleton]
  · intro rest
    rw [h.deframed rest, deframe_at hlen hty rest, h.declared_eq, List.drop_length, List.nil_append,
      List.append_assoc, List.take_length_add_append, List.drop_length_add_append, List.map_append,
      List.append_assoc]

end Loop

section Iteration

variable {input : Bytes} {outSize pos : Nat} {body : Bytes} {declared records : Nat}

theorem coalesceLoop_exit (hexit : ¬(pos + 5 ≤ input.length ∧ byte input pos = 0x16)) :
    coalesceLoop input outSize pos body declared records = some (pos, body, declared, records) := by
  rw [coalesceLoop, if_neg hexit]

-- A record that has arrived whole.
theorem coalesceLoop_whole (hlen : pos + 5 ≤ input.length) (hty : byte input pos = 0x16)
    (hall : be16 input (pos + 3) ≤ input.length - pos - 5) :
    coalesceLoop input outSize pos body declared records =
      if 5 + body.length + be16 input (pos + 3) > outSize then none
      else coalesceLoop input outSize (pos + 5 + be16 input (pos + 3))
        (body ++ slice input (pos + 5) (be16 input (pos + 3)))
        (declared + be16 input (pos + 3)) (records + 1) := by
  have havail : (if input.length - pos - 5 > be16 input (pos + 3) then be16 input (pos + 3)
      else input.length - pos - 5) = be16 input (pos + 3) := by
    split <;> omega
  rw [coalesceLoop, if_pos ⟨hlen, hty⟩]
  dsimp only
  rw [havail, if_neg (Nat.lt_irrefl _)]

-- A record that has arrived only in part is the last one.
theorem coalesceLoop_part (hlen : pos + 5 ≤ input.length) (hty : byte input pos = 0x16)
    (hpart : input.length - pos - 5 < be16 input (pos + 3)) :
    coalesceLoop input outSize pos body declared records =
      if 5 + body.length + (input.length - pos - 5) > outSize then none
      else some (pos + 5 + (input.length - pos - 5),
        body ++ slice input (pos + 5) (input.length - pos - 5),
        declared + be16 input (pos + 3), records + 1) := by
  have havail : (if input.length - pos - 5 > be16 input (pos + 3) then be16 input (pos + 3)
      else input.length - pos - 5) = input.length - pos - 5 := by
    split <;> omega
  rw [coalesceLoop, if_pos ⟨hlen, hty⟩]
  dsimp only
  rw [havail, if_pos hpart]

-- What one iteration of the loop can do.
theorem coalesceLoop_cases {result : Nat × Bytes × Nat × Nat}
    (h : coalesceLoop input outSize pos body declared records = some result) :
    (¬(pos + 5 ≤ input.length ∧ byte input pos = 0x16) ∧ result = (pos, body, declared, records)) ∨
    (pos + 5 ≤ input.length ∧ byte input pos = 0x16 ∧
      ((input.length - pos - 5 < be16 input (pos + 3) ∧
        result = (pos + 5 + (input.length - pos - 5),
          body ++ slice input (pos + 5) (input.length - pos - 5),
          declared + be16 input (pos + 3), records + 1)) ∨
      (be16 input (pos + 3) ≤ input.length - pos - 5 ∧
        coalesceLoop input outSize (pos + 5 + be16 input (pos + 3))
          (body ++ slice input (pos + 5) (be16 input (pos + 3)))
          (declared + be16 input (pos + 3)) (records + 1) = some result))) := by
  by_cases hc : pos + 5 ≤ input.length ∧ byte input pos = 0x16
  · refine .inr ⟨hc.1, hc.2, ?_⟩
    by_cases hpart : input.length - pos - 5 < be16 input (pos + 3)
    · rw [coalesceLoop_part hc.1 hc.2 hpart] at h
      split at h
      · cases h
      · exact .inl ⟨hpart, (Option.some.inj h).symm⟩
    · rw [coalesceLoop_whole hc.1 hc.2 (by omega)] at h
      split at h
      · cases h
      · exact .inr ⟨by omega, h⟩
  · rw [coalesceLoop_exit hc] at h
    exact .inl ⟨hc, (Option.some.inj h).symm⟩

end Iteration

-- The loop keeps what it has gathered; the induction is on the bytes left.
theorem coalesceLoop_merged {outSize : Nat} {result : Nat × Bytes × Nat × Nat} {input : Bytes}
    (left : Nat) : ∀ {pos : Nat} {body : Bytes} {declared records : Nat},
      input.length - pos = left → Gathered input pos body declared records →
      coalesceLoop input outSize pos body declared records = some result →
      Merged input result.1 result.2.1 result.2.2.1 result.2.2.2 := by
  induction left using Nat.strongRecOn with
  | _ left ih =>
      intro pos body declared records hleft hinv h
      obtain ⟨hexit, rfl⟩ | ⟨hlen, hty, ⟨hpart, rfl⟩ | ⟨hall, hnext⟩⟩ := coalesceLoop_cases h
      · exact hinv.merged hexit
      · exact hinv.last hlen hty hpart
      · exact ih _ (by omega) rfl (hinv.step hlen hty hall) hnext

-- What a successful call returns.
theorem tlsCoalesceHandshakeRecords_eq {input : Bytes} {outSize : Nat} {out : Bytes}
    (h : tlsCoalesceHandshakeRecords input outSize = some out) :
    ∃ pos body declared records, Merged input pos body declared records ∧
      2 ≤ records ∧ declared ≤ 16384 ∧ 5 + body.length + (input.length - pos) ≤ outSize ∧
      out = header 0x16 (byte input 1) (byte input 2) declared ++ (body ++ input.drop pos) := by
  unfold tlsCoalesceHandshakeRecords at h
  by_cases hhead : input.length < 5 ∨ byte input 0 ≠ 0x16
  · rw [if_pos hhead] at h
    cases h
  · rw [if_neg hhead] at h
    obtain ⟨⟨pos, body, declared, records⟩, hloop, h⟩ := Option.bind_eq_some_iff.mp h
    have hmerged := coalesceLoop_merged _ rfl (gathered_start input) hloop
    dsimp only at h hmerged
    by_cases hbad : records < 2 ∨ declared > 16384 ∨
        5 + body.length + (input.length - pos) > outSize
    · rw [if_pos hbad] at h
      cases h
    · rw [if_neg hbad] at h
      exact ⟨pos, body, declared, records, hmerged, by omega, by omega, by omega,
        (Option.some.inj h).symm⟩

-- The merged record carries what the records carry.
theorem tlsCoalesceHandshakeRecords_same {input : Bytes} {outSize : Nat} {out : Bytes}
    (h : tlsCoalesceHandshakeRecords input outSize = some out) (rest : Bytes) :
    deframe (out ++ rest) = deframe (input ++ rest) := by
  obtain ⟨pos, body, declared, records, hm, -, hmax, -, rfl⟩ := tlsCoalesceHandshakeRecords_eq h
  rw [List.append_assoc, List.append_assoc, deframe_header _ _ _ _ (by omega), hm.deframed rest]

-- One header takes the place of two or more.
theorem tlsCoalesceHandshakeRecords_shorter {input : Bytes} {outSize : Nat} {out : Bytes}
    (h : tlsCoalesceHandshakeRecords input outSize = some out) :
    out.length < input.length ∧ out.length ≤ outSize := by
  obtain ⟨pos, body, declared, records, hm, htwo, -, hfit, rfl⟩ := tlsCoalesceHandshakeRecords_eq h
  have hpos := hm.pos_eq
  have hle := hm.pos_le
  simp only [header, List.length_append, List.length_cons, List.length_nil, List.length_drop]
  omega

-- Merging the leading handshake records of a buffer changes record boundaries
-- only, for every byte that arrives later.
theorem tlsCoalesceHandshakeRecords_deframe (input : Bytes) (outSize : Nat) (out : Bytes)
    (h : tlsCoalesceHandshakeRecords input outSize = some out) :
    (∀ rest, deframe (out ++ rest) = deframe (input ++ rest)) ∧
    0 < out.length ∧ out.length < input.length ∧ out.length ≤ outSize ∧
    be16 out 3 ≤ 16384 ∧ be16 out 3 = (handshakeLengths input).sum := by
  have hsame := tlsCoalesceHandshakeRecords_same h
  obtain ⟨hless, hroom⟩ := tlsCoalesceHandshakeRecords_shorter h
  obtain ⟨pos, body, declared, records, hm, -, hmax, -, rfl⟩ := tlsCoalesceHandshakeRecords_eq h
  have hpos : 0 < (header 0x16 (byte input 1) (byte input 2) declared ++
      (body ++ input.drop pos)).length := Nat.succ_pos _
  have hdecl : be16 (header 0x16 (byte input 1) (byte input 2) declared ++
      (body ++ input.drop pos)) 3 = declared := be16_header _ _ _ _ (by omega) _
  refine ⟨hsame, hpos, hless, hroom, by omega, ?_⟩
  rw [hdecl, hm.lengths]

-- A whole record, then one of whose two bytes only the first has arrived.
theorem tlsCoalesceHandshakeRecords_deframe_sample :
    tlsCoalesceHandshakeRecords [0x16, 3, 1, 0, 1, 0xaa, 0x16, 3, 1, 0, 2, 0xbb] 16 =
      some [0x16, 3, 1, 0, 3, 0xaa, 0xbb] ∧
    deframe ([0x16, 3, 1, 0, 3, 0xaa, 0xbb] ++ [0xcc]) =
      deframe ([0x16, 3, 1, 0, 1, 0xaa, 0x16, 3, 1, 0, 2, 0xbb] ++ [0xcc]) :=
  ⟨by decide +kernel,
    (tlsCoalesceHandshakeRecords_deframe _ 16 _ (by decide +kernel)).1 [0xcc]⟩

-- Over a fragmented first record the loop takes the two halves and stops.
theorem coalesceLoop_fragment {data : Bytes} {cut fragSize outSize : Nat} {f : Bytes}
    (h : tlsFragmentFirstRecord data cut fragSize = some f)
    (hnext : ¬(5 + be16 data 3 + 5 ≤ data.length ∧ byte data (5 + be16 data 3) = 0x16))
    (hsize : data.length ≤ outSize) :
    ∃ pos body, coalesceLoop f outSize 0 [] 0 0 = some (pos, body, be16 data 3, 2) ∧
      pos ≤ f.length ∧ body ++ f.drop pos = data.drop 5 := by
  have hflen := tlsFragmentFirstRecord_length h
  obtain ⟨hlen, hty, -, h₁, h₂, h₃, -, hf⟩ := tlsFragmentFirstRecord_eq h
  have hlt := be16_lt data 3
  have hbody : (slice data 5 cut).length = cut := length_slice_of_le _ _ _ (by omega)
  have hsecond : f.drop (5 + cut) =
      header 0x16 (byte data 1) (byte data 2) (be16 data 3 - cut) ++ data.drop (5 + cut) := by
    rw [hf, drop_record _ _ _ _ _ _ hbody]
  have hrest : f.drop (5 + cut + 5) = data.drop (5 + cut) := by
    rw [← List.drop_drop, hsecond]
    rfl
  have hty₁ : byte f 0 = 0x16 := by
    rw [hf]
    rfl
  have hlen₁ : be16 f (0 + 3) = cut := by
    rw [hf]
    exact be16_header _ _ _ _ (by omega) _
  have hty₂ : byte f (5 + cut) = 0x16 := by
    rw [← Nat.add_zero (5 + cut), ← byte_drop, hsecond]
    rfl
  have hlen₂ : be16 f (5 + cut + 3) = be16 data 3 - cut := by
    rw [← be16_drop, hsecond]
    exact be16_header _ _ _ _ (by omega) _
  have hslice : slice f (0 + 5) cut = slice data 5 cut := by
    rw [hf, slice, show 0 + 5 = (header 0x16 (byte data 1) (byte data 2) cut).length from rfl,
      List.drop_left, List.take_append_of_le_length (by omega), List.take_of_length_le (by omega)]
  have hslice₂ : ∀ n, slice f (5 + cut + 5) n = slice data (5 + cut) n := by
    intro n
    rw [slice, slice, hrest]
  rw [coalesceLoop_whole (by omega) hty₁ (by omega), hlen₁, hslice,
    if_neg (by simp only [List.length_nil]; omega), Nat.zero_add, Nat.zero_add, List.nil_append]
  by_cases hpart : f.length - (5 + cut) - 5 < be16 f (5 + cut + 3)
  · rw [coalesceLoop_part (by omega) hty₂ hpart, hlen₂, hslice₂,
      if_neg (by rw [hbody]; omega), Nat.add_sub_of_le (Nat.le_of_lt h₂)]
    refine ⟨_, _, rfl, by omega, ?_⟩
    rw [List.drop_of_length_le (by omega), List.append_nil,
      slice_to_end data (5 + cut) _ (by omega), slice_append_drop]
  · rw [coalesceLoop_whole (by omega) hty₂ (by omega), hlen₂, hslice₂,
      if_neg (by rw [hbody]; omega), Nat.add_sub_of_le (Nat.le_of_lt h₂)]
    have hdrop : f.drop (5 + cut + 5 + (be16 data 3 - cut)) = data.drop (5 + be16 data 3) := by
      rw [← List.drop_drop, hrest, List.drop_drop]
      congr 1
      omega
    have hexit : ¬(5 + cut + 5 + (be16 data 3 - cut) + 5 ≤ f.length ∧
        byte f (5 + cut + 5 + (be16 data 3 - cut)) = 0x16) := by
      rw [← Nat.add_zero (5 + cut + 5 + (be16 data 3 - cut)), ← byte_drop, hdrop, byte_drop]
      intro hc
      exact hnext ⟨by omega, hc.2⟩
    rw [coalesceLoop_exit hexit]
    refine ⟨_, _, rfl, by omega, ?_⟩
    rw [hdrop, slice_append_slice, Nat.add_sub_of_le (Nat.le_of_lt h₂), slice_append_drop]

-- Coalescing after fragmenting gives the buffer back. The first record may have
-- arrived only in part, and other bytes may follow it.
theorem tlsCoalesceHandshakeRecords_fragment (data : Bytes) (cut fragSize outSize : Nat)
    (fragmented : Bytes) (h : tlsFragmentFirstRecord data cut fragSize = some fragmented)
    (hmax : be16 data 3 ≤ 16384)
    (hnext : ¬(5 + be16 data 3 + 5 ≤ data.length ∧ byte data (5 + be16 data 3) = 0x16))
    (hsize : data.length ≤ outSize) :
    tlsCoalesceHandshakeRecords fragmented outSize = some data := by
  obtain ⟨pos, body, hloop, hpos, hbody⟩ := coalesceLoop_fragment h hnext hsize
  have hflen := tlsFragmentFirstRecord_length h
  obtain ⟨hlen, hty, -, -, -, -, -, hf⟩ := tlsFragmentFirstRecord_eq h
  have hblen : body.length + (fragmented.length - pos) = data.length - 5 := by
    rw [← List.length_drop, ← List.length_append, hbody, List.length_drop]
  have hty₁ : byte fragmented 0 = 0x16 := by
    rw [hf]
    rfl
  have hmajor : byte fragmented 1 = byte data 1 := by
    rw [hf]
    rfl
  have hminor : byte fragmented 2 = byte data 2 := by
    rw [hf]
    rfl
  have hhead : ¬(fragmented.length < 5 ∨ byte fragmented 0 ≠ 0x16) := by
    simp only [hty₁, ne_eq, not_true_eq_false, or_false]
    omega
  unfold tlsCoalesceHandshakeRecords
  rw [if_neg hhead, hloop, Option.bind_eq_bind, Option.bind_some]
  dsimp only
  rw [if_neg (by omega), hbody, hmajor, hminor, ← hty, ← eq_header_append data (by omega)]

theorem tlsCoalesceHandshakeRecords_fragment_sample :
    tlsFragmentFirstRecord [0x16, 3, 1, 0, 4, 1, 2, 3] 1 16 =
      some [0x16, 3, 1, 0, 1, 1, 0x16, 3, 1, 0, 3, 2, 3] ∧
    tlsCoalesceHandshakeRecords [0x16, 3, 1, 0, 1, 1, 0x16, 3, 1, 0, 3, 2, 3] 8 =
      some [0x16, 3, 1, 0, 4, 1, 2, 3] :=
  ⟨by decide +kernel,
    tlsCoalesceHandshakeRecords_fragment [0x16, 3, 1, 0, 4, 1, 2, 3] 1 16 8 _ (by decide +kernel)
      (by decide) (by decide) (by decide)⟩

end DpiProxy.Tls
