import Mathlib.Data.List.Basic
import Mathlib.Data.List.Infix

namespace Search

variable {α : Type}

-- A pattern that fits into the first part of a list stands there or not, whatever follows.
theorem prefix_drop_append {pat xs ys : List α} {i : Nat} (h : i + pat.length ≤ xs.length) :
    pat <+: (xs ++ ys).drop i ↔ pat <+: xs.drop i := by
  have hpart : xs.drop i <+: (xs ++ ys).drop i := by
    rw [List.drop_append_of_le_length (by omega)]
    exact List.prefix_append _ _
  constructor
  · intro hpat
    exact List.prefix_of_prefix_length_le hpat hpart (by rw [List.length_drop]; omega)
  · exact fun hpat => hpat.trans hpart

variable [DecidableEq α]

-- The first place where a pattern stands. There must be something in the pattern.
def find (pat : List α) : List α → Option Nat
  | [] => none
  | x :: xs => if pat <+: x :: xs then some 0 else (find pat xs).map (· + 1)

variable {pat xs ys : List α} {i : Nat}

theorem find_eq_some_iff (hne : pat ≠ []) :
    find pat xs = some i ↔ pat <+: xs.drop i ∧ ∀ j < i, ¬ pat <+: xs.drop j := by
  induction xs generalizing i with
  | nil =>
      rw [find, List.drop_nil, List.prefix_nil]
      exact iff_of_false (by simp) fun h => hne h.1
  | cons x xs ih =>
      rw [find]
      by_cases hhere : pat <+: x :: xs
      · rw [if_pos hhere, Option.some_inj]
        constructor
        · rintro rfl
          exact ⟨hhere, fun j hj => absurd hj (Nat.not_lt_zero j)⟩
        · rintro ⟨-, hfirst⟩
          by_contra hi
          exact hfirst 0 (by omega) hhere
      · rw [if_neg hhere]
        cases i with
        | zero =>
            rw [List.drop_zero]
            refine iff_of_false ?_ fun h => hhere h.1
            simp
        | succ i =>
            have hcount : (find pat xs).map (· + 1) = some (i + 1) ↔ find pat xs = some i := by simp
            rw [hcount, ih, List.drop_succ_cons]
            refine and_congr_right fun _ => ?_
            constructor
            · rintro hfirst (_ | j) hj
              · exact hhere
              · exact hfirst j (by omega)
            · intro hfirst j hj
              exact hfirst (j + 1) (by omega)

theorem find_length (hne : pat ≠ []) (h : find pat xs = some i) : i + pat.length ≤ xs.length := by
  have hlen := ((find_eq_some_iff hne).mp h).1.length_le
  have hpos := List.length_pos_iff.mpr hne
  rw [List.length_drop] at hlen
  omega

theorem find_append_iff (hne : pat ≠ []) (h : i + pat.length ≤ xs.length) :
    find pat (xs ++ ys) = some i ↔ find pat xs = some i := by
  rw [find_eq_some_iff hne, find_eq_some_iff hne, prefix_drop_append h]
  refine and_congr_right fun _ => forall₂_congr fun j hj => ?_
  rw [prefix_drop_append (by omega)]

theorem find_append (hne : pat ≠ []) (h : find pat xs = some i) : find pat (xs ++ ys) = some i :=
  (find_append_iff hne (find_length hne h)).mpr h

-- What does not begin with the pattern's first item is passed over.
theorem find_skip {a : α} {rest : List α} (hxs : a ∉ xs) :
    find (a :: rest) (xs ++ ys) = (find (a :: rest) ys).map (· + xs.length) := by
  induction xs with
  | nil => simp
  | cons x xs ih =>
      rw [List.mem_cons, not_or] at hxs
      have hnot : ¬ a :: rest <+: x :: (xs ++ ys) := fun h => hxs.1 (List.cons_prefix_cons.mp h).1
      rw [List.cons_append, find, if_neg hnot, ih hxs.2, Option.map_map]
      congr 1

end Search
