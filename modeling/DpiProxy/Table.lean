import Mathlib.Data.List.Basic
import Mathlib.Data.List.Perm.Basic
import Mathlib.Data.List.Nodup

namespace Table

variable {α : Type} (key : α → Int)

-- The search for the first entry with the least key: `i` is the index of the next
-- entry, `best` the best index so far and `least` its key.
def minLoop : List α → Nat → Nat → Int → Nat
  | [], _, best, _ => best
  | x :: xs, i, best, least =>
      if key x < least then minLoop xs (i + 1) i (key x) else minLoop xs (i + 1) best least

def minIndex : List α → Nat
  | [] => 0
  | x :: xs => minLoop key xs 1 0 (key x)

-- The loop ends at an entry of the list, and no entry has a smaller key. The list
-- so far is `done`.
theorem minLoop_spec (done xs : List α) (best : Nat) (m : α) (hbest : done[best]? = some m)
    (hleast : ∀ x ∈ done, key m ≤ key x) :
    ∃ m', (done ++ xs)[minLoop key xs done.length best (key m)]? = some m' ∧
      ∀ x ∈ done ++ xs, key m' ≤ key x := by
  induction xs generalizing done best m with
  | nil =>
      rw [List.append_nil]
      exact ⟨m, hbest, hleast⟩
  | cons x xs ih =>
      have hsplit : done ++ x :: xs = (done ++ [x]) ++ xs := by simp
      have hlen : (done ++ [x]).length = done.length + 1 := by simp
      rw [hsplit, minLoop]
      by_cases hx : key x < key m
      · rw [if_pos hx]
        have hrest := ih (done ++ [x]) done.length x (by simp) ?_
        · rwa [hlen] at hrest
        · intro y hy
          rcases List.mem_append.mp hy with hy | hy
          · exact Int.le_trans (Int.le_of_lt hx) (hleast y hy)
          · obtain rfl := List.mem_singleton.mp hy
            exact Int.le_refl _
      · rw [if_neg hx]
        have hin : best < done.length := (List.getElem?_eq_some_iff.mp hbest).1
        have hrest := ih (done ++ [x]) best m (by rw [List.getElem?_append_left hin, hbest]) ?_
        · rwa [hlen] at hrest
        · intro y hy
          rcases List.mem_append.mp hy with hy | hy
          · exact hleast y hy
          · rw [List.mem_singleton.mp hy]
            omega

theorem minIndex_spec {xs : List α} (hne : xs ≠ []) :
    ∃ m, xs[minIndex key xs]? = some m ∧ ∀ x ∈ xs, key m ≤ key x := by
  cases xs with
  | nil => exact absurd rfl hne
  | cons x xs =>
      refine minLoop_spec key [x] xs 0 x rfl fun y hy => ?_
      obtain rfl := List.mem_singleton.mp hy
      exact Int.le_refl _

-- An entry with what stands before and behind it; writing to its slot changes
-- nothing else.
theorem split_at {xs : List α} {i : Nat} {x : α} (h : xs[i]? = some x) :
    ∃ front back, xs = front ++ x :: back ∧ front.length = i ∧
      ∀ y, xs.set i y = front ++ y :: back := by
  obtain ⟨hi, rfl⟩ := List.getElem?_eq_some_iff.mp h
  refine ⟨xs.take i, xs.drop (i + 1), ?_, ?_, fun y => ?_⟩
  · rw [List.getElem_cons_drop, List.take_append_drop]
  · rw [List.length_take]
    omega
  · rw [List.set_eq_take_append_cons_drop, if_pos hi]

-- Removal by moving the last entry into the place of the removed one.
def swapRemove (xs : List α) (i : Nat) : List α :=
  match xs.getLast? with
  | none => []
  | some last => (xs.set i last).dropLast

theorem swapRemove_perm {xs : List α} {i : Nat} (hi : i < xs.length) :
    (swapRemove xs i).Perm (xs.eraseIdx i) := by
  rcases List.eq_nil_or_concat xs with rfl | ⟨init, last, rfl⟩
  · exact absurd hi (Nat.not_lt_zero i)
  rw [List.concat_eq_append] at hi ⊢
  rw [List.length_append, List.length_singleton] at hi
  rw [swapRemove, List.getLast?_append, List.getLast?_singleton, Option.some_or]
  dsimp only
  by_cases hlast : i = init.length
  · subst hlast
    simp [List.eraseIdx_append_of_length_le]
  · have hin : i < init.length := by omega
    rw [List.set_append_left _ _ hin, List.dropLast_concat, List.eraseIdx_append_of_lt_length hin]
    rw [List.set_eq_take_append_cons_drop, if_pos hin, List.eraseIdx_eq_take_drop_succ]
    exact List.perm_middle.trans (List.perm_append_singleton last _).symm

end Table
