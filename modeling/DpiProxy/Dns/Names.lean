import DpiProxy.Dns.Calls
import DpiProxy.Dns.Question

namespace DpiProxy.Dns

open Wire

def LabelsOk (labels : List Bytes) : Prop := ∀ label ∈ labels, 0 < label.length ∧ label.length ≤ 63

-- A name of 1 to 253 bytes in labels of 1 to 63 bytes, apart from one dot at the end.
def ValidName (name : Bytes) : Prop :=
  withoutFinalDot name ≠ [] ∧ (withoutFinalDot name).length ≤ 253 ∧ LabelsOk ((withoutFinalDot name).splitOn DOT)

section Split

-- The last label is what stands behind the last dot.
theorem split_last (name : Bytes) :
    DOT ∉ name ∨ ∃ front last, name = front ++ DOT :: last ∧ DOT ∉ last := by
  induction name using List.reverseRecOn with
  | nil => exact .inl List.not_mem_nil
  | append_singleton name c ih =>
      by_cases hc : c = DOT
      · right
        exact ⟨name, [], by rw [hc], List.not_mem_nil⟩
      · have hne : DOT ∉ [c] := fun h => hc (List.mem_singleton.mp h).symm
        rcases ih with hno | ⟨front, last, rfl, hlast⟩
        · left
          rw [List.mem_append, not_or]
          exact ⟨hno, hne⟩
        · right
          refine ⟨front, last ++ [c], by simp, ?_⟩
          rw [List.mem_append, not_or]
          exact ⟨hlast, hne⟩

theorem splitOn_front (front last : Bytes) (hlast : DOT ∉ last) :
    (front ++ DOT :: last).splitOn DOT = front.splitOn DOT ++ [last] := by
  rw [List.splitOn_append_cons_self, List.splitOn_eq_singleton hlast]

-- Where the last label is not empty there is no difference between the two conditions.
theorem labelsFit_iff {name : Bytes} (hne : name ≠ []) (hdot : name.getLast? ≠ some DOT) :
    LabelsFit (name.splitOn DOT) ↔ LabelsOk (name.splitOn DOT) := by
  obtain ⟨labels, last, hsplit, hlast⟩ : ∃ labels last, name.splitOn DOT = labels ++ [last] ∧ last ≠ [] := by
    rcases split_last name with hno | ⟨front, last, rfl, hno⟩
    · exact ⟨[], name, List.splitOn_eq_singleton hno, hne⟩
    · refine ⟨_, last, splitOn_front front last hno, ?_⟩
      rintro rfl
      exact hdot (by simp)
  have hpos : 0 < last.length := List.length_pos_iff.mpr hlast
  rw [hsplit, LabelsFit, LabelsOk, List.dropLast_concat]
  simp only [List.mem_append, List.mem_singleton, or_imp, forall_and, forall_eq]
  tauto

end Split

theorem withoutFinalDot_of_dots {front : Bytes} : withoutFinalDot (front ++ [DOT, DOT]) = front ++ [DOT] := by
  have hlast : (front ++ [DOT, DOT]).getLast? = some DOT := by simp
  rw [withoutFinalDot, if_pos hlast, List.dropLast_append_of_ne_nil (by simp)]
  rfl

-- A name that still ends in a dot ended in two.
theorem dots_of_withoutFinalDot {name front : Bytes} (h : withoutFinalDot name = front ++ [DOT]) :
    name = front ++ [DOT, DOT] := by
  unfold withoutFinalDot at h
  split_ifs at h with hlast
  · have hname := List.dropLast_append_getLast? DOT hlast
    rw [h] at hname
    rw [← hname]
    simp
  · rw [h] at hlast
    exact absurd (by simp) hlast

theorem encodable_dots (front : Bytes) :
    Encodable (front ++ [DOT, DOT]) ↔ front.length ≤ 252 ∧ LabelsOk (front.splitOn DOT) := by
  have hfit : LabelsFit ((front ++ [DOT]).splitOn DOT) ↔ LabelsOk (front.splitOn DOT) := by
    rw [splitOn_front front [] List.not_mem_nil, LabelsFit, LabelsOk, List.dropLast_concat]
    simp only [List.mem_append, List.mem_singleton, or_imp, forall_and, forall_eq, List.length_nil]
    simp
    tauto
  change (0 < _ ∧ _ ≤ 253 ∧ LabelsFit _) ↔ _
  rw [withoutFinalDot_of_dots, hfit, List.length_append, List.length_singleton]
  refine ⟨fun h => ⟨by omega, h.2.2⟩, fun h => ⟨by omega, by omega, h.2⟩⟩

theorem encodable_of_valid {name : Bytes} (h : ValidName name) : Encodable name := by
  obtain ⟨hne, hlen, hok⟩ := h
  refine ⟨List.length_pos_iff.mpr hne, hlen, fun label hlabel => (hok label hlabel).2, ?_⟩
  intro label hlabel
  exact (hok label (List.dropLast_subset _ hlabel)).1

-- Exactly the valid names are accepted, if it were not for a valid name with two dots
-- behind it: one dot is stripped, and the loop ends at the other one.
theorem dnsBuildQuery_valid_iff (id : UInt16) (name : Bytes) (qtype : UInt16) :
    ((dnsBuildQuery id name qtype 512).isSome = true ↔ ValidName name) ↔
      ¬ ∃ front, name = front ++ [DOT, DOT] ∧ front.length ≤ 252 ∧ LabelsOk (front.splitOn DOT) := by
  rw [dnsBuildQuery_isSome]
  by_cases hdots : ∃ front, withoutFinalDot name = front ++ [DOT]
  · obtain ⟨front, hfront⟩ := hdots
    obtain rfl := dots_of_withoutFinalDot hfront
    have hinvalid : ¬ ValidName (front ++ [DOT, DOT]) := by
      rintro ⟨-, -, hok⟩
      rw [hfront, splitOn_front front [] List.not_mem_nil] at hok
      exact absurd (hok [] (by simp)).1 (by simp)
    rw [iff_false_intro hinvalid, iff_false, not_iff_not, encodable_dots]
    constructor
    · exact fun h => ⟨front, rfl, h⟩
    · rintro ⟨front', heq, h⟩
      rwa [List.append_cancel_right heq]
  · refine iff_of_true ?_ ?_
    · constructor
      · intro h
        have hne : withoutFinalDot name ≠ [] := List.length_pos_iff.mp h.1
        refine ⟨hne, h.2.1, (labelsFit_iff hne ?_).mp h.2.2⟩
        intro hlast
        exact hdots ⟨_, (List.dropLast_append_getLast? DOT hlast).symm⟩
      · exact encodable_of_valid
    · rintro ⟨front, rfl, -⟩
      exact hdots ⟨front, withoutFinalDot_of_dots⟩

-- "a.." is sent as "a".
theorem twoDots_accepted :
    (dnsBuildQuery 1 (ascii ['a', '.', '.']) 1 512).isSome = true ∧ ¬ ValidName (ascii ['a', '.', '.']) := by
  refine ⟨by decide, ?_⟩
  rintro ⟨-, -, hok⟩
  exact absurd (hok [] (by decide +kernel)).1 (by simp)

end DpiProxy.Dns
