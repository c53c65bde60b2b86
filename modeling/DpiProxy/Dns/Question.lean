import DpiProxy.Dns.Message

namespace DpiProxy.Dns

open Wire

-- The uncompressed form of a name.
def wireLabels : List Bytes → Bytes
  | [] => [0]
  | label :: labels => UInt8.ofNat label.length :: label ++ wireLabels labels

structure Question where
  labels : List Bytes
  qtype : UInt16
  qclass : UInt16
  labels_ok : ∀ label ∈ labels, 0 < label.length ∧ label.length ≤ 63

-- QTYPE and QCLASS.
def Question.typeBytes (q : Question) : Bytes :=
  [hi8 q.qtype.toNat, lo8 q.qtype.toNat, hi8 q.qclass.toNat, lo8 q.qclass.toNat]

def Question.wire (q : Question) : Bytes := wireLabels q.labels ++ q.typeBytes

-- The question of a packet stands behind its header of 12 bytes.
def HasQuestion (pkt : Bytes) (q : Question) : Prop :=
  ∃ header rest, header.length = 12 ∧ pkt = header ++ q.wire ++ rest

-- Two names that differ in the case of ASCII letters only.
def SameName (a b : List Bytes) : Prop := a.map (List.map tolower) = b.map (List.map tolower)

def isLetter (b : UInt8) : Bool := (65 ≤ b && b ≤ 90) || (97 ≤ b && b ≤ 122)

theorem wireLabels_length_pos (labels : List Bytes) : 0 < (wireLabels labels).length := by
  cases labels <;> simp [wireLabels]

theorem Question.wire_length (q : Question) : q.wire.length = (wireLabels q.labels).length + 4 := by
  rw [Question.wire, List.length_append]
  rfl

-- A length byte of a label is no compression pointer and no letter.
theorem labelLength {n : Nat} (h : n ≤ 63) :
    (UInt8.ofNat n).toNat = n ∧ UInt8.ofNat n &&& 0xC0 = 0 ∧ isLetter (UInt8.ofNat n) = false := by
  have hall : ∀ n : Fin 64, (UInt8.ofNat n).toNat = n ∧ UInt8.ofNat n &&& 0xC0 = 0 ∧
      isLetter (UInt8.ofNat n) = false := by decide
  exact hall ⟨n, by omega⟩

theorem labelLength_ne_zero {n : Nat} (hpos : 0 < n) (h : n ≤ 63) : UInt8.ofNat n ≠ 0 := by
  have hnat := (labelLength h).1
  intro hzero
  rw [hzero, UInt8.toNat_zero] at hnat
  omega

-- Only a letter is folded to another byte.
theorem tolower_eq_of_not_letter {b c : UInt8} (hc : isLetter c = false)
    (h : tolower b = tolower c) : b = c := by
  simp only [isLetter, Bool.or_eq_false_iff, Bool.and_eq_false_iff, decide_eq_false_iff_not,
    UInt8.le_iff_toNat_le] at hc
  have hb := b.toNat_lt
  simp only [tolower, UInt8.le_iff_toNat_le] at h
  apply UInt8.toNat.inj
  have h' := congrArg UInt8.toNat h
  split at h' <;> split at h' <;> simp only [UInt8.toNat_add, UInt8.toNat_ofNat] at * <;> omega

-- The walk over the labels of a name ends at its last byte.
theorem labelsEnd_wire (labels : List Bytes) (hok : ∀ l ∈ labels, 0 < l.length ∧ l.length ≤ 63)
    (front back : Bytes) (rounds : Nat) (hrounds : labels.length < rounds) :
    labelsEnd (front ++ wireLabels labels ++ back) rounds front.length =
      some (front.length + (wireLabels labels).length - 1) := by
  induction labels generalizing front rounds with
  | nil =>
      obtain ⟨rounds, rfl⟩ := Nat.exists_eq_add_of_lt hrounds
      have hbyte : byte (front ++ wireLabels [] ++ back) front.length = 0 := by
        rw [List.append_assoc, byte_append, if_neg (by omega), Nat.sub_self]
        rfl
      rw [labelsEnd, if_neg fun h => h.2 hbyte]
      simp [wireLabels]
  | cons label labels ih =>
      obtain ⟨rounds, rfl⟩ := Nat.exists_eq_add_of_lt hrounds
      obtain ⟨hpos, hle⟩ := hok label List.mem_cons_self
      obtain ⟨hnat, hmask, -⟩ := labelLength hle
      have hbyte : byte (front ++ wireLabels (label :: labels) ++ back) front.length =
          UInt8.ofNat label.length := by
        rw [List.append_assoc, byte_append, if_neg (by omega), Nat.sub_self]
        rfl
      have hne := labelLength_ne_zero hpos hle
      have hnext := ih (fun l hl => hok l (List.mem_cons_of_mem _ hl))
        (front ++ UInt8.ofNat label.length :: label) ((label :: labels).length + rounds)
        (by rw [List.length_cons]; omega)
      have hsplit : front ++ UInt8.ofNat label.length :: label ++ wireLabels labels ++ back =
          front ++ wireLabels (label :: labels) ++ back := by
        simp [wireLabels]
      have hlen : (front ++ UInt8.ofNat label.length :: label).length =
          front.length + 1 + label.length := by
        rw [List.length_append, List.length_cons]
        omega
      rw [hsplit, hlen] at hnext
      rw [labelsEnd, if_pos ⟨by simp [wireLabels], by rw [hbyte]; exact hne⟩, hbyte,
        if_neg (by rw [hmask]; simp), hnat, hnext]
      have htail := wireLabels_length_pos labels
      simp only [wireLabels, List.length_append, List.length_cons]
      congr 1
      omega

theorem labels_length_le (labels : List Bytes) : labels.length < (wireLabels labels).length := by
  induction labels with
  | nil => simp [wireLabels]
  | cons label labels ih =>
      simp only [wireLabels, List.length_append, List.length_cons]
      omega

theorem questionLen_of_question {pkt : Bytes} {q : Question} (h : HasQuestion pkt q) :
    questionLen pkt = some q.wire.length := by
  obtain ⟨header, rest, hheader, rfl⟩ := h
  have hshape : header ++ q.wire ++ rest =
      header ++ wireLabels q.labels ++ (q.typeBytes ++ rest) := by
    simp [Question.wire]
  have hend := labelsEnd_wire q.labels q.labels_ok header (q.typeBytes ++ rest)
    ((header ++ q.wire ++ rest).length + 1) (by
      have hlabels := labels_length_le q.labels
      simp only [List.length_append, Question.wire_length]
      omega)
  rw [← hshape, hheader] at hend
  have hpos := wireLabels_length_pos q.labels
  have hwire := q.wire_length
  rw [questionLen, hend]
  dsimp only
  rw [if_neg (by simp only [List.length_append]; omega)]
  congr 1
  omega

-- Bytes that fold to the form of a name are the form of a name that is the same up
-- to case.
theorem wireLabels_of_folded (labels : List Bytes)
    (hok : ∀ l ∈ labels, 0 < l.length ∧ l.length ≤ 63) (bs : Bytes)
    (h : bs.map tolower = (wireLabels labels).map tolower) :
    ∃ labels', (∀ l ∈ labels', 0 < l.length ∧ l.length ≤ 63) ∧ bs = wireLabels labels' ∧
      SameName labels' labels := by
  induction labels generalizing bs with
  | nil =>
      refine ⟨[], by simp, ?_, rfl⟩
      cases bs with
      | nil => cases h
      | cons b bs =>
          simp only [wireLabels, List.map_cons, List.map_nil, List.cons.injEq, List.map_eq_nil_iff] at h
          rw [tolower_eq_of_not_letter (by decide) h.1, h.2]
          rfl
  | cons label labels ih =>
      obtain ⟨hpos, hle⟩ := hok label List.mem_cons_self
      cases bs with
      | nil => cases h
      | cons b bs =>
          simp only [wireLabels, List.cons_append, List.map_cons, List.map_append,
            List.cons.injEq] at h
          obtain ⟨hb, hbs⟩ := h
          have hlen : label.length ≤ bs.length := by
            have hcount := congrArg List.length hbs
            simp only [List.length_map, List.length_append] at hcount
            omega
          have hsplit := congrArg (List.take label.length) hbs
          have hrest := congrArg (List.drop label.length) hbs
          rw [← List.map_take, List.take_left' (by simp)] at hsplit
          rw [← List.map_drop, List.drop_left' (by simp)] at hrest
          obtain ⟨labels', hok', heq, hsame⟩ :=
            ih (fun l hl => hok l (List.mem_cons_of_mem _ hl)) (bs.drop label.length) hrest
          have htake : (bs.take label.length).length = label.length := by
            rw [List.length_take]
            omega
          refine ⟨bs.take label.length :: labels', ?_, ?_, ?_⟩
          · intro l hl
            rcases List.mem_cons.mp hl with rfl | hl
            · rw [htake]
              exact ⟨hpos, hle⟩
            · exact hok' l hl
          · rw [wireLabels, htake, ← heq, List.cons_append, List.take_append_drop,
              tolower_eq_of_not_letter (labelLength hle).2.2 hb]
          · simp only [SameName, List.map_cons] at hsame ⊢
            rw [hsplit, hsame]

theorem map_tolower_wireLabels (labels : List Bytes)
    (hok : ∀ l ∈ labels, 0 < l.length ∧ l.length ≤ 63) :
    (wireLabels labels).map tolower = wireLabels (labels.map (List.map tolower)) := by
  induction labels with
  | nil => rfl
  | cons label labels ih =>
      have hlen : tolower (UInt8.ofNat label.length) = UInt8.ofNat label.length := by
        have hletter := (labelLength (hok label List.mem_cons_self).2).2.2
        simp only [isLetter, Bool.or_eq_false_iff, Bool.and_eq_false_iff,
          decide_eq_false_iff_not] at hletter
        rw [tolower, if_neg (by rw [not_and_or]; exact hletter.1)]
      simp only [wireLabels, List.cons_append, List.map_cons, List.map_append, List.length_map, hlen,
        ih fun l hl => hok l (List.mem_cons_of_mem _ hl)]

-- Names that are the same up to case fold to the same bytes.
theorem SameName.folded {a b : Question} (h : SameName a.labels b.labels) :
    (wireLabels a.labels).map tolower = (wireLabels b.labels).map tolower := by
  rw [map_tolower_wireLabels _ a.labels_ok, map_tolower_wireLabels _ b.labels_ok]
  exact congrArg wireLabels h

end DpiProxy.Dns
