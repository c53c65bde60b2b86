import Mathlib.Data.List.Nodup
import Mathlib.Logic.Function.Basic

namespace Chained

-- A hash table with one chain of entries for each bucket. An entry carries its key,
-- and only the chain of the key's bucket is searched for it.
variable {α κ : Type} [DecidableEq κ] (keyOf : α → κ) (hash : κ → Nat)

def lookup (chains : Nat → List α) (k : κ) : Option α :=
  (chains (hash k)).find? fun x => keyOf x = k

def push (chains : Nat → List α) (x : α) : Nat → List α :=
  Function.update chains (hash (keyOf x)) (x :: chains (hash (keyOf x)))

-- A write to the entry that a search finds.
def writeFirst (k : κ) (g : α → α) : List α → List α
  | [] => []
  | x :: xs => if keyOf x = k then g x :: xs else x :: writeFirst k g xs

def write (chains : Nat → List α) (k : κ) (g : α → α) : Nat → List α :=
  Function.update chains (hash k) (writeFirst keyOf k g (chains (hash k)))

def sweep (chains : Nat → List α) (keep : α → Bool) : Nat → List α :=
  fun b => (chains b).filter keep

-- Every entry stands in the bucket of its key, and a key has one entry at most.
structure WellFormed (chains : Nat → List α) : Prop where
  placed : ∀ b, ∀ x ∈ chains b, hash (keyOf x) = b
  nodup : ∀ b, ((chains b).map keyOf).Nodup

variable {keyOf hash}

omit [DecidableEq κ] in
theorem wellFormed_empty : WellFormed keyOf hash fun _ => [] where
  placed := by simp
  nodup := by simp

theorem lookup_key {chains : Nat → List α} {k : κ} {x : α}
    (h : lookup keyOf hash chains k = some x) : keyOf x = k := by
  simpa using List.find?_some h

theorem lookup_push {chains : Nat → List α} (x : α) (k : κ) :
    lookup keyOf hash (push keyOf hash chains x) k =
      if keyOf x = k then some x else lookup keyOf hash chains k := by
  unfold lookup push
  by_cases hk : keyOf x = k
  · rw [if_pos hk, hk, Function.update_self, List.find?_cons_of_pos (by simpa using hk)]
  · rw [if_neg hk]
    by_cases hb : hash k = hash (keyOf x)
    · rw [hb, Function.update_self, List.find?_cons_of_neg (by simpa using hk)]
    · rw [Function.update_of_ne hb]

theorem WellFormed.push {chains : Nat → List α} (h : WellFormed keyOf hash chains) {x : α}
    (hfresh : lookup keyOf hash chains (keyOf x) = none) :
    WellFormed keyOf hash (push keyOf hash chains x) := by
  constructor
  · intro b y hy
    unfold Chained.push at hy
    by_cases hb : b = hash (keyOf x)
    · rw [hb, Function.update_self] at hy
      rcases List.mem_cons.mp hy with rfl | hy
      · exact hb.symm
      · rw [h.placed _ y hy, hb]
    · rw [Function.update_of_ne hb] at hy
      exact h.placed b y hy
  · intro b
    unfold Chained.push
    by_cases hb : b = hash (keyOf x)
    · rw [hb, Function.update_self, List.map_cons, List.nodup_cons]
      refine ⟨?_, h.nodup _⟩
      intro hmem
      obtain ⟨y, hy, hkey⟩ := List.mem_map.mp hmem
      have hnone := List.find?_eq_none.mp hfresh y hy
      exact hnone (by simpa using hkey)
    · rw [Function.update_of_ne hb]
      exact h.nodup b

section Write

variable {k : κ} {g : α → α} (hg : ∀ x, keyOf (g x) = keyOf x)
include hg

theorem map_writeFirst (xs : List α) : (writeFirst keyOf k g xs).map keyOf = xs.map keyOf := by
  induction xs with
  | nil => rfl
  | cons x xs ih =>
      rw [writeFirst]
      split
      · rw [List.map_cons, List.map_cons, hg]
      · rw [List.map_cons, List.map_cons, ih]

theorem find?_writeFirst (k' : κ) (xs : List α) :
    (writeFirst keyOf k g xs).find? (fun x => keyOf x = k') =
      if k' = k then (xs.find? fun x => keyOf x = k').map g else xs.find? fun x => keyOf x = k' := by
  induction xs with
  | nil =>
      rw [writeFirst]
      split <;> rfl
  | cons x xs ih =>
      rw [writeFirst]
      by_cases hx : keyOf x = k
      · rw [if_pos hx]
        by_cases hk : k' = k
        · have hx' : keyOf x = k' := hx.trans hk.symm
          have hgx : keyOf (g x) = k' := (hg x).trans hx'
          rw [if_pos hk, List.find?_cons_of_pos (by simpa using hgx),
            List.find?_cons_of_pos (by simpa using hx'), Option.map_some]
        · have hx' : keyOf x ≠ k' := fun h => hk (h.symm.trans hx)
          have hgx : keyOf (g x) ≠ k' := by rwa [hg x]
          rw [if_neg hk, List.find?_cons_of_neg (by simpa using hgx),
            List.find?_cons_of_neg (by simpa using hx')]
      · rw [if_neg hx]
        by_cases hx' : keyOf x = k'
        · have hk : k' ≠ k := fun h => hx (hx'.trans h)
          rw [if_neg hk, List.find?_cons_of_pos (by simpa using hx'),
            List.find?_cons_of_pos (by simpa using hx')]
        · rw [List.find?_cons_of_neg (by simpa using hx'), List.find?_cons_of_neg (by simpa using hx')]
          exact ih

theorem lookup_write (chains : Nat → List α) (k' : κ) :
    lookup keyOf hash (write keyOf hash chains k g) k' =
      if k' = k then (lookup keyOf hash chains k).map g else lookup keyOf hash chains k' := by
  unfold lookup write
  by_cases hb : hash k' = hash k
  · rw [hb, Function.update_self, find?_writeFirst hg]
    by_cases hk : k' = k
    · rw [if_pos hk, if_pos hk, hk]
    · rw [if_neg hk, if_neg hk]
  · have hk : k' ≠ k := fun h => hb (by rw [h])
    rw [Function.update_of_ne hb, if_neg hk]

theorem WellFormed.write {chains : Nat → List α} (h : WellFormed keyOf hash chains) :
    WellFormed keyOf hash (write keyOf hash chains k g) := by
  have hmap : ∀ b, (Chained.write keyOf hash chains k g b).map keyOf = (chains b).map keyOf := by
    intro b
    unfold Chained.write
    by_cases hb : b = hash k
    · rw [hb, Function.update_self, map_writeFirst hg]
    · rw [Function.update_of_ne hb]
  constructor
  · intro b x hx
    have hkey := List.mem_map_of_mem (f := keyOf) hx
    rw [hmap] at hkey
    obtain ⟨y, hy, hxy⟩ := List.mem_map.mp hkey
    rw [← hxy]
    exact h.placed b y hy
  · intro b
    rw [hmap]
    exact h.nodup b

end Write

theorem find?_filter_of_nodup {xs : List α} (hnodup : (xs.map keyOf).Nodup) (keep : α → Bool)
    (k : κ) : (xs.filter keep).find? (fun x => keyOf x = k) =
      (xs.find? fun x => keyOf x = k).filter keep := by
  induction xs with
  | nil => rfl
  | cons x xs ih =>
      rw [List.map_cons, List.nodup_cons] at hnodup
      have hrest := ih hnodup.2
      by_cases hx : keyOf x = k
      · have hnone : xs.find? (fun y => keyOf y = k) = none := by
          rw [List.find?_eq_none]
          intro y hy hkey
          exact hnodup.1 (List.mem_map.mpr ⟨y, hy, (by simpa using hkey : keyOf y = k).trans hx.symm⟩)
        rw [hnone, Option.filter_none] at hrest
        rw [List.find?_cons_of_pos (by simpa using hx), Option.filter_some]
        by_cases hkeep : keep x = true
        · rw [List.filter_cons_of_pos hkeep, List.find?_cons_of_pos (by simpa using hx), if_pos hkeep]
        · rw [List.filter_cons_of_neg hkeep, if_neg hkeep, hrest]
      · rw [List.find?_cons_of_neg (by simpa using hx)]
        by_cases hkeep : keep x = true
        · rw [List.filter_cons_of_pos hkeep, List.find?_cons_of_neg (by simpa using hx), hrest]
        · rw [List.filter_cons_of_neg hkeep, hrest]

theorem lookup_sweep {chains : Nat → List α} (h : WellFormed keyOf hash chains) (keep : α → Bool)
    (k : κ) : lookup keyOf hash (sweep chains keep) k =
      (lookup keyOf hash chains k).filter keep :=
  find?_filter_of_nodup (h.nodup (hash k)) keep k

omit [DecidableEq κ] in
theorem WellFormed.sweep {chains : Nat → List α} (h : WellFormed keyOf hash chains)
    (keep : α → Bool) : WellFormed keyOf hash (sweep chains keep) where
  placed := fun b x hx => h.placed b x (List.mem_filter.mp hx).1
  nodup := fun b => (h.nodup b).sublist (List.filter_sublist.map keyOf)

end Chained
