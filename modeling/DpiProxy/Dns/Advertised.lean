import DpiProxy.Dns.QueryInfo

namespace DpiProxy.Dns

open Wire

section Advertised

-- An EDNS OPT record, directly behind the question of a plain query.
def Advertises (query : Bytes) (size : UInt16) : Prop :=
  ∃ q header rest, header.length = 12 ∧ be16 header 6 = 0 ∧ be16 header 8 = 0 ∧ 1 ≤ be16 header 10 ∧
    query = header ++ Question.wire q ++ (0 :: u16 41 ++ u16 size.toNat ++ rest) ∧ 6 ≤ rest.length

-- The payload size that a client takes over UDP.
def ClientLimit (query : Bytes) (limit : Nat) : Prop :=
  (∃ size, Advertises query size ∧ limit = max 512 size.toNat) ∨ (¬ ∃ size, Advertises query size) ∧ limit = 512

theorem be16_front {front : Bytes} {i : Nat} (h : i + 1 < front.length) (back : Bytes) :
    be16 (front ++ back) i = be16 front i := by
  rw [be16, be16, byte_append, byte_append, if_pos h, if_pos (by omega)]

theorem advertises_iff {query : Bytes} {q : Question} (hq : HasQuestion query q) (size : UInt16) :
    Advertises query size ↔
      be16 query 6 = 0 ∧ be16 query 8 = 0 ∧ be16 query 10 ≥ 1 ∧ 12 + q.wire.length + 11 ≤ query.length ∧
        byte query (12 + q.wire.length) = 0 ∧ be16 query (12 + q.wire.length + 1) = 41 ∧
        be16 query (12 + q.wire.length + 3) = size.toNat := by
  constructor
  · rintro ⟨q', header, rest, hheader, hanswers, hauthority, hmore, hquery, hrest⟩
    have hq' : HasQuestion query q' := ⟨header, _, hheader, hquery⟩
    have hlen := Option.some.inj ((questionLen_of_question hq').symm.trans (questionLen_of_question hq))
    have hafter : query.drop (12 + q.wire.length) = [0] ++ (u16 41 ++ (u16 size.toNat ++ rest)) := by
      rw [hquery, List.drop_left' (by rw [List.length_append, hheader, hlen])]
      simp
    have htype := drop_at hafter
    have hcount := congrArg List.length hafter
    simp only [List.length_drop, List.length_append, List.length_singleton, length_u16] at hcount
    rw [List.append_assoc] at hquery
    refine ⟨?_, ?_, ?_, by omega, byte_at hafter, be16_at (by omega) htype, ?_⟩
    · rw [hquery, be16_front (by omega), hanswers]
    · rw [hquery, be16_front (by omega), hauthority]
    · rw [hquery, be16_front (by omega)]
      exact hmore
    · exact be16_at size.toNat_lt (drop_at htype)
  · rintro ⟨hanswers, hauthority, hmore, hlen, hroot, htype, hsize⟩
    obtain ⟨hslice, hle⟩ := slice_question hq
    have hhead : ∀ i, i + 1 < 12 → be16 (query.take 12) i = be16 query i := by
      intro i hi
      have hlong : i + 1 < (query.take 12).length := by
        rw [List.length_take]
        omega
      have hfront := be16_front hlong (query.drop 12)
      rw [List.take_append_drop] at hfront
      exact hfront.symm
    have hafter : query.drop (12 + q.wire.length) =
        0 :: u16 41 ++ u16 size.toNat ++ query.drop (12 + q.wire.length + 5) := by
      rw [List.drop_eq_getElem_cons (by omega), ← byte_eq_getElem _ _ (by omega), hroot,
        ← slice_append_drop query (12 + q.wire.length + 1) 2, ← slice_append_drop query (12 + q.wire.length + 1 + 2) 2,
        slice_u16 (by omega), slice_u16 (by omega), htype, hsize]
      simp
    refine ⟨q, query.take 12, query.drop (12 + q.wire.length + 5), ?_, ?_, ?_, ?_, ?_, ?_⟩
    · rw [List.length_take]
      omega
    · rw [hhead 6 (by omega), hanswers]
    · rw [hhead 8 (by omega), hauthority]
    · rw [hhead 10 (by omega)]
      exact hmore
    · calc query
        _ = query.take 12 ++ query.drop 12 := (List.take_append_drop _ _).symm
        _ = query.take 12 ++ (q.wire ++ query.drop (12 + q.wire.length)) := by
              rw [← slice_append_drop query 12 q.wire.length, hslice]
        _ = _ := by
              rw [hafter]
              simp
    · rw [List.length_drop]
      omega

end Advertised

section Accepted

theorem joined_length {name : Bytes} (hne : name ≠ []) (labels : List Bytes) :
    (joined name labels).length + 1 = name.length + (wireLabels labels).length := by
  induction labels generalizing name with
  | nil => rfl
  | cons label labels ih =>
      rw [joined, if_pos (List.length_pos_iff.mpr hne), ih (by simp)]
      simp [wireLabels]
      omega

theorem wireLabels_length_le {labels : List Bytes} (hok : LabelsOk labels) :
    (wireLabels labels).length ≤ (joined [] labels).length + 2 := by
  cases labels with
  | nil => simp [wireLabels]
  | cons label labels =>
      have hne : label.map tolower ≠ [] := by
        simpa using List.length_pos_iff.mp (hok label List.mem_cons_self).1
      have hlen := joined_length hne labels
      simp only [List.length_map] at hlen
      simp [joined, wireLabels]
      omega

-- The walk leaves room for the end of the string.
theorem queryName_room {pkt : Bytes} {nameSize : Nat} (rounds : Nat) {pos pos' : Nat} {name name' : Bytes}
    (h : queryName pkt nameSize rounds pos name = some (pos', name')) (hroom : name.length + 1 ≤ nameSize) :
    name'.length + 1 ≤ nameSize := by
  induction rounds generalizing pos name with
  | zero => simp [queryName] at h
  | succ rounds ih =>
      rw [queryName] at h
      by_cases hmore : pos < pkt.length ∧ byte pkt pos ≠ 0
      · rw [if_pos hmore] at h
        dsimp only at h
        split at h
        · simp at h
        rename_i hbad
        obtain ⟨-, hin, hfits⟩ := (not_or.mp hbad).imp_right not_or.mp
        apply ih h
        have hlab : (slice pkt (pos + 1) (byte pkt pos).toNat).length = (byte pkt pos).toNat :=
          length_slice_of_le _ _ _ (by omega)
        rw [List.length_append, List.length_map, hlab]
        split
        · rw [List.length_append, List.length_singleton]
          omega
        · omega
      · rw [if_neg hmore] at h
        obtain ⟨rfl, rfl⟩ := Prod.mk.inj (Option.some.inj h)
        exact hroom

-- What dns_query_info accepts has a question, no longer than the name buffer allows.
theorem dnsQueryInfo_question {query : Bytes} {nameSize : Nat} {info : QueryInfo}
    (h : dnsQueryInfo query nameSize = some info) :
    ∃ q, HasQuestion query q ∧ q.wire.length ≤ nameSize + 5 ∧
      ∀ limit, ClientLimit query limit → info.udpSize = limit := by
  rw [dnsQueryInfo] at h
  split at h
  · simp at h
  rename_i hheader
  obtain ⟨hlen, -, -, -, hsize⟩ : ¬ query.length < 12 ∧ _ ∧ _ ∧ _ ∧ ¬ nameSize < 2 := by
    simpa only [not_or] using hheader
  cases hwalk : queryName query nameSize (query.length + 1) 12 [] with
  | none => simp [hwalk] at h
  | some found =>
      obtain ⟨pos, name⟩ := found
      simp only [hwalk] at h
      split at h
      · simp at h
      rename_i hin
      obtain ⟨labels, hok, hdrop, rfl⟩ := queryName_some _ hwalk (by omega)
      have hroom := queryName_room _ hwalk (by rw [List.length_nil]; omega)
      have hwire := wireLabels_length_le hok
      have hcount := congrArg List.length hdrop
      simp only [List.length_drop, List.length_append] at hcount
      let q : Question := ⟨labels, UInt16.ofNat (be16 query (pos + 1)), UInt16.ofNat (be16 query (pos + 1 + 2)), hok⟩
      have htypes : q.typeBytes = slice query (pos + 1) 4 := by
        rw [q.typeBytes_eq, UInt16.toNat_ofNat_of_lt' (be16_lt _ _), UInt16.toNat_ofNat_of_lt' (be16_lt _ _),
          ← slice_u16 (by omega), ← slice_u16 (by omega), slice_append_slice]
      have hqlen : q.wire.length = (wireLabels labels).length + 4 := q.wire_length
      have hpos : pos + 1 = 12 + (wireLabels labels).length := by omega
      have hq : HasQuestion query q := by
        apply hasQuestion_of_slice
        · omega
        · rw [hqlen, ← slice_append_slice, slice_at hdrop, ← hpos, ← htypes]
          rfl
      refine ⟨q, hq, by omega, ?_⟩
      have hafter : 12 + q.wire.length = pos + 5 := by omega
      have hadvertises := advertises_iff hq
      rw [hafter] at hadvertises
      obtain rfl := Option.some.inj h
      rintro limit (⟨size, hsize, rfl⟩ | ⟨hno, rfl⟩)
      · obtain ⟨hanswers, hauthority, hmore, hend, hroot, htype, hsize⟩ := (hadvertises size).mp hsize
        dsimp only
        split
        · rename_i hopt
          obtain ⟨-, -, -, -, -, -, hlarge⟩ := hopt
          omega
        · rename_i hopt
          have hsmall : ¬ be16 query (pos + 5 + 3) > 512 := fun hlarge =>
            hopt ⟨hanswers, hauthority, hmore, hend, hroot, htype, hlarge⟩
          omega
      · refine if_neg ?_
        rintro ⟨hanswers, hauthority, hmore, hend, hroot, htype, -⟩
        apply hno
        exact ⟨UInt16.ofNat (be16 query (pos + 5 + 3)), (hadvertises _).mpr ⟨hanswers, hauthority, hmore, hend,
          hroot, htype, (UInt16.toNat_ofNat_of_lt' (be16_lt _ _)).symm⟩⟩

end Accepted

section Built

-- A response with the id of a query.
structure Replies (query reply : Bytes) : Prop where
  id : be16 reply 0 = be16 query 0
  response : byte reply 2 &&& 0x80 ≠ 0

theorem Replies.nonempty {query reply : Bytes} (h : Replies query reply) : reply ≠ [] := by
  rintro rfl
  exact h.response rfl

theorem truncated_flags (b : UInt8) : (b &&& 0x79 ||| 0x80 ||| 0x02) &&& 0x80 ≠ 0 ∧
    ((b &&& 0x79 ||| 0x80 ||| 0x02) &&& ~~~0x02) &&& 0x80 ≠ 0 := by
  revert b
  exact forall_byte (by decide +kernel)

theorem dnsTruncatedReply_replies {query : Bytes} {q : Question} (hq : HasQuestion query q) {outSize : Nat}
    (hsize : 12 + q.wire.length ≤ outSize) :
    ∃ out, dnsTruncatedReply query outSize = some out ∧ out.length = 12 + q.wire.length ∧
      be16 out 0 = be16 query 0 ∧ byte out 2 = byte query 2 &&& 0x79 ||| 0x80 ||| 0x02 := by
  obtain ⟨hslice, hlen⟩ := slice_question hq
  simp only [dnsTruncatedReply, questionLen_of_question hq, if_neg (not_lt.mpr hsize)]
  refine ⟨_, rfl, ?_, ?_, ?_⟩
  · simp only [List.length_append, length_slice_of_le query 0 2 (by omega),
      length_slice_of_le query 4 2 (by omega), hslice]
    simp
  · simp only [List.append_assoc]
    rw [be16_front (by rw [length_slice_of_le _ _ _ (by omega)]; omega), be16_slice _ _ _ _ (by omega)]
  · simp only [List.append_assoc]
    rw [byte_append, length_slice_of_le _ _ _ (by omega)]
    rfl

theorem truncated_replies {query : Bytes} {q : Question} (hq : HasQuestion query q) {outSize : Nat}
    (hsize : 12 + q.wire.length ≤ outSize) :
    ∃ out, dnsTruncatedReply query outSize = some out ∧ out.length = 12 + q.wire.length ∧ Replies query out := by
  obtain ⟨out, hout, hlen, hid, hflags⟩ := dnsTruncatedReply_replies hq hsize
  exact ⟨out, hout, hlen, hid, by rw [hflags]; exact (truncated_flags _).1⟩

theorem servfail_replies {query : Bytes} {q : Question} (hq : HasQuestion query q) {outSize : Nat}
    (hsize : 12 + q.wire.length ≤ outSize) :
    ∃ out, dnsServfailReply query outSize = some out ∧ out.length = 12 + q.wire.length ∧ Replies query out := by
  obtain ⟨out, hout, hlen, hid, hflags⟩ := dnsTruncatedReply_replies hq hsize
  refine ⟨_, by rw [dnsServfailReply, hout, Option.map_some], ?_, ?_, ?_⟩
  · rw [List.length_set, List.length_set, hlen]
  · simpa [be16, byte_set] using hid
  · rw [byte_set, if_neg (by omega), byte_set, if_pos ⟨rfl, by omega⟩, hflags]
    exact (truncated_flags _).2

end Built

end DpiProxy.Dns
