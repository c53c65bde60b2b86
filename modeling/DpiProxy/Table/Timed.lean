import DpiProxy.Table
import Mathlib.Data.List.Basic
import Mathlib.Data.List.Induction

namespace Table

-- At most `n` keys have a property.
def AtMost {κ : Type} (n : Nat) (P : κ → Prop) : Prop :=
  ∀ ks : List κ, ks.Nodup → (∀ k ∈ ks, P k) → ks.length ≤ n

-- A map from keys to the times they expire at, and what can be done to it.
section Map

variable {κ : Type}

inductive TimedOp (κ : Type) where
  | put (k : κ) (expiry : Int)
  | drop (k : κ)
  | clear

def TimedOp.apply [DecidableEq κ] (m : κ → Option Int) : TimedOp κ → κ → Option Int
  | .put k expiry => fun k' => if k' = k then some expiry else m k'
  | .drop k => fun k' => if k' = k then none else m k'
  | .clear => fun _ => none

def Live (m : κ → Option Int) (now : Int) (k : κ) : Prop := ∃ expiry, m k = some expiry ∧ now < expiry

variable [DecidableEq κ]

@[simp] theorem live_put {m : κ → Option Int} {now expiry : Int} {k k' : κ} :
    Live ((TimedOp.put k expiry).apply m) now k' ↔ if k' = k then now < expiry else Live m now k' := by
  unfold Live TimedOp.apply
  by_cases hk : k' = k <;> simp [hk]

@[simp] theorem live_drop {m : κ → Option Int} {now : Int} {k k' : κ} :
    Live ((TimedOp.drop k).apply m) now k' ↔ k' ≠ k ∧ Live m now k' := by
  unfold Live TimedOp.apply
  by_cases hk : k' = k <;> simp [hk]

@[simp] theorem not_live_clear {m : κ → Option Int} {now : Int} {k : κ} :
    ¬ Live (TimedOp.clear.apply m) now k := by
  simp [Live, TimedOp.apply]

end Map

-- The map kept in slots: a slot without a key is free. A key is looked for by its first
-- slot, which may have expired.
section Slots

variable {α κ : Type} (key : α → Option κ) (expires : α → Int)

def Held (xs : List α) (now : Int) (k : κ) : Prop := ∃ x ∈ xs, key x = some k ∧ now < expires x

-- The slots hold what the map says at each time that is still to come.
structure Refines (After : Int → Prop) (xs : List α) (m : κ → Option Int) : Prop where
  unique : (xs.filterMap key).Nodup
  held : ∀ now k, After now → (Held key expires xs now k ↔ Live m now k)

variable {key expires}
variable {After After' : Int → Prop} {xs front back : List α} {x y : α} {m : κ → Option Int} {k : κ}

theorem Refines.mono (h : Refines key expires After xs m) (hlater : ∀ now, After' now → After now) :
    Refines key expires After' xs m :=
  ⟨h.unique, fun now k hnow => h.held now k (hlater now hnow)⟩

theorem mem_filterMap_key {xs : List α} : k ∈ xs.filterMap key ↔ ∃ x ∈ xs, key x = some k :=
  List.mem_filterMap

theorem filterMap_split (front back : List α) (x : α) :
    (front ++ x :: back).filterMap key = front.filterMap key ++ ((key x).toList ++ back.filterMap key) := by
  rw [List.filterMap_append, List.filterMap_cons]
  cases key x <;> rfl

theorem held_split {now : Int} {k' : κ} :
    Held key expires (front ++ x :: back) now k' ↔
      Held key expires (front ++ back) now k' ∨ (key x = some k' ∧ now < expires x) := by
  unfold Held
  constructor
  · rintro ⟨z, hz, hkey⟩
    rcases List.mem_append.mp hz with hz | hz
    · exact .inl ⟨z, List.mem_append_left _ hz, hkey⟩
    · rcases List.mem_cons.mp hz with rfl | hz
      · exact .inr hkey
      · exact .inl ⟨z, List.mem_append_right _ hz, hkey⟩
  · rintro (⟨z, hz, hkey⟩ | hkey)
    · rcases List.mem_append.mp hz with hz | hz
      · exact ⟨z, List.mem_append_left _ hz, hkey⟩
      · exact ⟨z, List.mem_append_right _ (List.mem_cons_of_mem x hz), hkey⟩
    · exact ⟨x, List.mem_append_right _ List.mem_cons_self, hkey⟩

-- Around the slot of a key there is no other slot with it.
theorem rest_unique (hunique : ((front ++ x :: back).filterMap key).Nodup)
    (hslot : key x = some k ∨ ∀ z ∈ front ++ x :: back, key z ≠ some k) :
    ((front ++ back).filterMap key).Nodup ∧ k ∉ (front ++ back).filterMap key := by
  have hsub : (front ++ back).Sublist (front ++ x :: back) :=
    (List.Sublist.refl front).append (List.sublist_cons_self x back)
  refine ⟨hunique.sublist (hsub.filterMap key), ?_⟩
  rcases hslot with hx | hno
  · rw [filterMap_split, hx, Option.toList_some, List.singleton_append, List.nodup_middle, List.nodup_cons,
      ← List.filterMap_append] at hunique
    exact hunique.1
  · rw [mem_filterMap_key]
    rintro ⟨z, hz, hkey⟩
    exact hno z (hsub.subset hz) hkey

theorem not_held {now : Int} (h : k ∉ xs.filterMap key) : ¬ Held key expires xs now k := by
  rintro ⟨z, hz, hkey, -⟩
  exact h (mem_filterMap_key.mpr ⟨z, hz, hkey⟩)

theorem split_nodup (h : ((front ++ back).filterMap key).Nodup) (hy : ∀ k', key y = some k' →
    k' ∉ (front ++ back).filterMap key) : ((front ++ y :: back).filterMap key).Nodup := by
  rw [List.filterMap_append] at h hy
  rw [filterMap_split]
  cases hkey : key y with
  | none => simpa using h
  | some k' =>
      rw [Option.toList_some, List.singleton_append, List.nodup_middle, List.nodup_cons]
      exact ⟨hy k' hkey, h⟩

section Step

variable [DecidableEq κ] (h : Refines key expires After (front ++ x :: back) m)

include h in
-- A key loses its slot.
theorem Refines.free (hx : key x = some k) (hy : key y = none) :
    Refines key expires After (front ++ y :: back) ((TimedOp.drop k).apply m) := by
  obtain ⟨hrest, hgone⟩ := rest_unique h.unique (.inl hx)
  refine ⟨split_nodup hrest (by simp [hy]), fun now k' hnow => ?_⟩
  rw [live_drop, ← h.held now k' hnow, held_split, held_split, hx, hy]
  by_cases hk : k' = k
  · subst hk
    simp [not_held hgone]
  · simp [hk, Ne.symm hk]

include h in
-- A key gets a slot: its own, else one that is free or expired. A slot of another key
-- that is live is taken only if there is none of these, and then there are more live
-- keys than slots.
theorem Refines.write {now expiry : Int} (hnow : After now) (hlater : ∀ now', After' now' → After now' ∧ now ≤ now')
    (hexpiry : now < expiry) (hkey : key y = some k) (hexpires : expires y = expiry)
    (hslot : key x = some k ∨ (∀ z ∈ front ++ x :: back, key z ≠ some k) ∧
      (key x = none ∨ expires x ≤ now ∨ ∀ z ∈ front ++ x :: back, key z ≠ none ∧ now < expires z))
    (hroom : AtMost (front ++ x :: back).length (Live ((TimedOp.put k expiry).apply m) now)) :
    Refines key expires After' (front ++ y :: back) ((TimedOp.put k expiry).apply m) := by
  obtain ⟨hrest, hgone⟩ := rest_unique h.unique (hslot.imp_right And.left)
  refine ⟨split_nodup hrest ?_, fun now' k' hnow' => ?_⟩
  · intro k' hk'
    rw [← Option.some.inj (hkey.symm.trans hk')]
    exact hgone
  obtain ⟨hafter, hle⟩ := hlater now' hnow'
  rw [live_put, held_split, hkey, hexpires, Option.some.injEq]
  by_cases hk : k' = k
  · subst hk
    simp [not_held hgone]
  · rw [if_neg hk, ← h.held now' k' hafter, held_split]
    have hother : ¬ (key x = some k' ∧ now' < expires x) := by
      rintro ⟨hx, hlive⟩
      rcases hslot with hown | ⟨hno, hnone | hexpired | hfull⟩
      · exact hk (Option.some.inj (hx.symm.trans hown))
      · rw [hnone] at hx
        exact absurd hx (by simp)
      · omega
      · -- the keys of the slots and the new one
        have hcount := hroom (k :: (front ++ x :: back).filterMap key) ?_ ?_
        · have hlen : ((front ++ x :: back).filterMap key).length = (front ++ x :: back).length := by
            rw [List.length_filterMap_eq_countP, List.countP_eq_length]
            intro z hz
            exact Option.isSome_iff_ne_none.mpr (hfull z hz).1
          rw [List.length_cons] at hcount
          omega
        · rw [List.nodup_cons]
          refine ⟨?_, h.unique⟩
          rw [mem_filterMap_key]
          rintro ⟨z, hz, hzk⟩
          exact hno z hz hzk
        · intro k'' hk''
          rw [live_put]
          rcases List.mem_cons.mp hk'' with rfl | hk''
          · rw [if_pos rfl]
            exact hexpiry
          · obtain ⟨z, hz, hzk⟩ := mem_filterMap_key.mp hk''
            rw [if_neg fun heq => hno z hz (hzk.trans (congrArg some heq))]
            exact (h.held now k'' hnow).mp ⟨z, hz, hzk, (hfull z hz).2⟩
    simp [hother, Ne.symm hk]

end Step

theorem Refines.absent [DecidableEq κ] (h : Refines key expires After xs m) (hno : ∀ z ∈ xs, key z ≠ some k) :
    Refines key expires After xs ((TimedOp.drop k).apply m) := by
  refine ⟨h.unique, fun now k' hnow => ?_⟩
  rw [live_drop, ← h.held now k' hnow]
  refine ⟨fun hheld => ⟨?_, hheld⟩, And.right⟩
  rintro rfl
  obtain ⟨z, hz, hkey, -⟩ := hheld
  exact hno z hz hkey

theorem refines_empty [DecidableEq κ] (hfree : ∀ z ∈ xs, key z = none) :
    Refines key expires After xs (TimedOp.clear.apply m) := by
  have hnil : xs.filterMap key = [] := List.filterMap_eq_nil_iff.mpr hfree
  refine ⟨by rw [hnil]; exact List.nodup_nil, fun now k _ => ?_⟩
  refine iff_of_false ?_ not_live_clear
  exact not_held (by rw [hnil]; exact List.not_mem_nil)

-- What the first slot of a key says is what the key's only slot says.
theorem Refines.first (h : Refines key expires After xs m) {now : Int} (hnow : After now) {i : Nat}
    (hi : xs[i]? = some x) (hx : key x = some k) : now < expires x ↔ Live m now k := by
  obtain ⟨front, back, rfl, -, -⟩ := split_at hi
  rw [← h.held now k hnow, held_split]
  have hgone := (rest_unique h.unique (.inl hx)).2
  simp [not_held hgone, hx]

end Slots

end Table
