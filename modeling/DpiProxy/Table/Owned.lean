import Mathlib.Data.List.Perm.Basic

namespace Owned

variable {α β : Type} {f : α → List β} {xs : List α} {i : Nat} {x : α}

-- What the elements of a list own: the part of one of them changes, the rest stays.
theorem rest_of (h : xs[i]? = some x) :
    ∃ rest, (xs.flatMap f).Perm (f x ++ rest) ∧ ∀ y, ((xs.set i y).flatMap f).Perm (f y ++ rest) := by
  induction xs generalizing i with
  | nil => simp at h
  | cons head tail ih =>
      cases i with
      | zero =>
          obtain rfl := Option.some.inj h
          exact ⟨tail.flatMap f, .refl _, fun y => .refl _⟩
      | succ i =>
          obtain ⟨rest, hold, hnew⟩ := ih h
          have hmove : ∀ z, (f head ++ (f z ++ rest)).Perm (f z ++ (f head ++ rest)) := fun z => by
            rw [← List.append_assoc, ← List.append_assoc]
            exact List.perm_append_comm.append_right rest
          exact ⟨f head ++ rest, (hold.append_left (f head)).trans (hmove x),
            fun y => ((hnew y).append_left (f head)).trans (hmove y)⟩

-- Where everyone owns few.
theorem length_le {n : Nat} (h : ∀ x ∈ xs, (f x).length ≤ n) : (xs.flatMap f).length ≤ xs.length * n := by
  induction xs with
  | nil => exact Nat.zero_le _
  | cons head tail ih =>
      have hrest := ih fun x hx => h x (List.mem_cons_of_mem _ hx)
      have hfirst := h head List.mem_cons_self
      rw [List.flatMap_cons, List.length_append, List.length_cons, Nat.succ_mul]
      omega

theorem mem_set {ys : List α} {y z : α} (h : z ∈ ys.set i y) : z = y ∨ z ∈ ys :=
  (List.mem_or_eq_of_mem_set h).symm

end Owned
