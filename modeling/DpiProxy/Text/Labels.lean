import Mathlib.Data.List.Basic
import Mathlib.Data.List.Infix

namespace Labels

variable {α : Type} {sep : α} {name zone front : List α}

-- `zone` is `name`, or the end of it behind a separator.
def Under (sep : α) (name zone : List α) : Prop := name = zone ∨ ∃ front, name = front ++ sep :: zone

theorem Under.suffix (h : Under sep name zone) : zone <:+ name := by
  rcases h with rfl | ⟨front, rfl⟩
  · exact List.suffix_refl _
  · exact (List.suffix_cons sep zone).trans (List.suffix_append _ _)

theorem Under.map {β : Type} (f : α → β) (h : Under sep name zone) : Under (f sep) (name.map f) (zone.map f) := by
  rcases h with rfl | ⟨front, rfl⟩
  · exact .inl rfl
  · exact .inr ⟨front.map f, by simp⟩

-- Another character in front of the zone makes another last label.
theorem not_under_append {c : α} (hc : c ≠ sep) : ¬ Under sep (front ++ c :: zone) zone := by
  rintro (heq | ⟨front', heq⟩)
  · have hlen := congrArg List.length heq
    simp only [List.length_append, List.length_cons] at hlen
    omega
  · have hcons := (List.append_inj' heq (by simp)).2
    exact hc (List.cons.inj hcons).1

-- How a program finds it out: by the lengths, one character and what stands behind it.
theorem behind_sep_iff : (∃ front, name = front ++ sep :: zone) ↔
    zone.length < name.length ∧ name[name.length - zone.length - 1]? = some sep ∧
      name.drop (name.length - zone.length) = zone := by
  constructor
  · rintro ⟨front, rfl⟩
    have hlen : (front ++ sep :: zone).length - zone.length = (front ++ [sep]).length := by
      simp only [List.length_append, List.length_cons, List.length_nil]
      omega
    have hsplit : front ++ sep :: zone = (front ++ [sep]) ++ zone := by simp
    refine ⟨by simp; omega, ?_, ?_⟩
    · rw [hlen, List.length_append, List.length_singleton, Nat.add_sub_cancel]
      simp
    · rw [hlen, hsplit, List.drop_left]
  · rintro ⟨hlt, hsep, hdrop⟩
    refine ⟨name.take (name.length - zone.length - 1), ?_⟩
    obtain ⟨hi, hget⟩ := List.getElem?_eq_some_iff.mp hsep
    have htail := List.drop_eq_getElem_cons hi
    rw [hget, show name.length - zone.length - 1 + 1 = name.length - zone.length by omega, hdrop] at htail
    rw [← htail, List.take_append_drop]

theorem intercalate_append {front back : List (List α)} (hfront : front ≠ []) (hback : back ≠ []) :
    [sep].intercalate (front ++ back) = [sep].intercalate front ++ sep :: [sep].intercalate back := by
  induction front with
  | nil => exact absurd rfl hfront
  | cons label rest ih =>
      cases rest with
      | nil => simp [List.intercalate_cons_of_ne_nil hback]
      | cons next rest =>
          rw [List.cons_append, List.cons_append, List.intercalate_cons_cons, ← List.cons_append,
            ih (List.cons_ne_nil _ _), List.intercalate_cons_cons]
          simp

-- What is no longer than the last part of a list ends the list if it ends that part.
theorem suffix_append_iff {last : List α} (h : zone.length ≤ last.length) :
    zone <:+ front ++ last ↔ zone <:+ last := by
  have hlast := List.suffix_append front last
  exact ⟨fun hzone => List.suffix_of_suffix_length_le hzone hlast h, fun hzone => hzone.trans hlast⟩

variable [DecidableEq α]

theorem splitOn_injective (h : zone.splitOn sep = name.splitOn sep) : zone = name := by
  have hjoin := congrArg [sep].intercalate h
  rwa [List.intercalate_splitOn, List.intercalate_splitOn] at hjoin

-- The labels of a zone end those of the names under it, and of no others.
theorem under_iff_splitOn : Under sep name zone ↔ zone.splitOn sep <:+ name.splitOn sep := by
  constructor
  · rintro (rfl | ⟨front, rfl⟩)
    · exact List.suffix_refl _
    · rw [List.splitOn_append_cons_self]
      exact List.suffix_append _ _
  · rintro ⟨front, hfront⟩
    by_cases hnil : front = []
    · left
      rw [hnil, List.nil_append] at hfront
      exact (splitOn_injective hfront).symm
    · right
      refine ⟨[sep].intercalate front, ?_⟩
      have hjoin := congrArg [sep].intercalate hfront
      rw [intercalate_append hnil (List.splitOn_ne_nil _ _), List.intercalate_splitOn,
        List.intercalate_splitOn] at hjoin
      exact hjoin.symm

-- A map that neither makes nor unmakes a separator works on each label.
theorem splitOn_map (f : α → α) (hf : ∀ x, f x = sep ↔ x = sep) (xs : List α) :
    (xs.map f).splitOn sep = (xs.splitOn sep).map (List.map f) := by
  induction xs with
  | nil => simp
  | cons x xs ih =>
      rw [List.map_cons, List.splitOn_cons_eq_if_modifyHead, List.splitOn_cons_eq_if_modifyHead, ih]
      by_cases hx : x = sep
      · simp [hx, (hf sep).mpr rfl]
      · have hfx : f x ≠ sep := fun heq => hx ((hf x).mp heq)
        cases xs.splitOn sep <;> simp [hx, hfx]

theorem ne_nil_of_labels (h : ∀ label ∈ zone.splitOn sep, label ≠ []) : zone ≠ [] := by
  rintro rfl
  exact h [] (by simp) rfl

theorem getLast?_of_labels (h : ∀ label ∈ zone.splitOn sep, label ≠ []) : zone.getLast? ≠ some sep := by
  intro hlast
  obtain ⟨front, rfl⟩ := List.getLast?_eq_some_iff.mp hlast
  rw [List.splitOn_append_cons_self] at h
  exact h [] (by simp) rfl

end Labels
