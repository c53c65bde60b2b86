import Mathlib.Data.List.Basic

namespace Table

variable {α : Type}

-- A ring that has taken the entries of `log` one after another. The next one goes to
-- slot `next`, and the last `ring.length` of them are still in their slots.
structure RingLog (ring : List α) (next : Nat) (log : List α) : Prop where
  next : next = log.length % ring.length
  last : ∀ i x, log[i]? = some x → log.length ≤ i + ring.length → ring[i % ring.length]? = some x

theorem RingLog.empty (ring : List α) : RingLog ring 0 [] := by
  refine ⟨by simp, fun i x hi _ => ?_⟩
  simp at hi

-- Two places less than a whole turn apart have different slots.
theorem slot_ne {n i j : Nat} (hlt : i < j) (hnear : j < i + n) : i % n ≠ j % n := by
  intro hslot
  have hzero : (j - i) % n = 0 := Nat.sub_mod_eq_zero_of_mod_eq hslot.symm
  rw [Nat.mod_eq_of_lt (by omega)] at hzero
  omega

theorem RingLog.push {ring log : List α} {next : Nat} (h : RingLog ring next log) (hne : ring ≠ []) (x : α) :
    RingLog (ring.set next x) ((next + 1) % ring.length) (log ++ [x]) := by
  have hpos : 0 < ring.length := List.length_pos_iff.mpr hne
  constructor
  · simp only [h.next, List.length_set, List.length_append, List.length_singleton, Nat.mod_add_mod]
  · intro i y hi hlast
    rw [List.length_set] at hlast ⊢
    rw [List.length_append, List.length_singleton] at hlast
    rcases Nat.lt_trichotomy i log.length with hlt | rfl | hgt
    · rw [List.getElem?_append_left hlt] at hi
      have hslot : next ≠ i % ring.length := by
        rw [h.next]
        exact (slot_ne hlt (by omega)).symm
      rw [List.getElem?_set_ne hslot]
      exact h.last i y hi (by omega)
    · rw [List.getElem?_concat_length] at hi
      rw [← h.next, List.getElem?_set_self (by rw [h.next]; exact Nat.mod_lt _ hpos)]
      exact hi
    · rw [List.getElem?_eq_none (by simp; omega)] at hi
      cases hi

theorem RingLog.mem {ring log : List α} {next i : Nat} {x : α} (h : RingLog ring next log)
    (hi : log[i]? = some x) (hlast : log.length ≤ i + ring.length) : x ∈ ring :=
  List.mem_of_getElem? (h.last i x hi hlast)

-- In a log, entries that clash have at least `n` others between them.
def Spaced (clash : α → α → Prop) (n : Nat) (log : List α) : Prop :=
  ∀ i j x y, i < j → log[i]? = some x → log[j]? = some y → clash x y → i + n < j

theorem Spaced.concat {clash : α → α → Prop} {n : Nat} {log : List α} (h : Spaced clash n log) {y : α}
    (hlast : ∀ i x, log[i]? = some x → log.length ≤ i + n → ¬clash x y) : Spaced clash n (log ++ [y]) := by
  intro i j x z hlt hi hj hclash
  have hjlen : j < log.length + 1 := by
    have hin := (List.getElem?_eq_some_iff.mp hj).1
    simpa using hin
  rw [List.getElem?_append_left (by omega)] at hi
  rcases Nat.lt_succ_iff_lt_or_eq.mp hjlen with hin | rfl
  · rw [List.getElem?_append_left hin] at hj
    exact h i j x z hlt hi hj hclash
  · rw [List.getElem?_concat_length, Option.some.injEq] at hj
    obtain rfl := hj
    by_contra hnear
    exact hlast i x hi (by omega) hclash

end Table
