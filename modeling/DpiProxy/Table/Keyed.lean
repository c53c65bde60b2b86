import DpiProxy.Table
import Mathlib.Data.List.Dedup
import Mathlib.Data.List.Induction

namespace Table

-- The first entry with a property is changed in place.
def modifyFirst {α : Type} (p : α → Bool) (f : α → α) : List α → List α
  | [] => []
  | x :: xs => if p x then f x :: xs else x :: modifyFirst p f xs

section ModifyFirst

variable {α β : Type} {p : α → Bool} {f : α → α}

theorem map_modifyFirst {g : α → β} (hg : ∀ x, g (f x) = g x) (xs : List α) :
    (modifyFirst p f xs).map g = xs.map g := by
  induction xs with
  | nil => rfl
  | cons x xs ih =>
      rw [modifyFirst]
      split
      · rw [List.map_cons, List.map_cons, hg]
      · rw [List.map_cons, List.map_cons, ih]

theorem length_modifyFirst (xs : List α) : (modifyFirst p f xs).length = xs.length := by
  have h := congrArg List.length (map_modifyFirst (p := p) (f := f) (g := fun _ => ()) (fun _ => rfl) xs)
  rwa [List.length_map, List.length_map] at h

theorem find?_modifyFirst_same (hp : ∀ x, p (f x) = p x) (xs : List α) :
    (modifyFirst p f xs).find? p = (xs.find? p).map f := by
  induction xs with
  | nil => rfl
  | cons x xs ih =>
      rw [modifyFirst]
      split
      · rename_i hx
        rw [List.find?_cons_of_pos (by rw [hp, hx]), List.find?_cons_of_pos hx]
        rfl
      · rename_i hx
        rw [List.find?_cons_of_neg hx, List.find?_cons_of_neg hx, ih]

theorem find?_modifyFirst_other {q : α → Bool} (hf : ∀ x, q (f x) = q x)
    (hpq : ∀ x, p x = true → q x = false) (xs : List α) :
    (modifyFirst p f xs).find? q = xs.find? q := by
  induction xs with
  | nil => rfl
  | cons x xs ih =>
      rw [modifyFirst]
      split
      · rename_i hx
        have hq : ¬ q x = true := by rw [hpq x hx]; exact Bool.false_ne_true
        rw [List.find?_cons_of_neg (by rwa [hf]), List.find?_cons_of_neg hq]
      · rw [List.find?_cons, List.find?_cons, ih]

theorem mem_modifyFirst {xs : List α} {y : α} (h : y ∈ modifyFirst p f xs) :
    y ∈ xs ∨ ∃ x ∈ xs, y = f x := by
  induction xs with
  | nil => exact absurd h List.not_mem_nil
  | cons x xs ih =>
      rw [modifyFirst] at h
      split at h
      · rcases List.mem_cons.mp h with rfl | h
        · exact .inr ⟨x, List.mem_cons_self, rfl⟩
        · exact .inl (List.mem_cons_of_mem _ h)
      · rcases List.mem_cons.mp h with rfl | h
        · exact .inl List.mem_cons_self
        · rcases ih h with h | ⟨z, hz, rfl⟩
          · exact .inl (List.mem_cons_of_mem _ h)
          · exact .inr ⟨z, List.mem_cons_of_mem _ hz, rfl⟩

-- What is new has the property.
theorem mem_modifyFirst_where {xs : List α} {y : α} (h : y ∈ modifyFirst p f xs) :
    y ∈ xs ∨ ∃ x ∈ xs, p x = true ∧ y = f x := by
  induction xs with
  | nil => exact absurd h List.not_mem_nil
  | cons x xs ih =>
      rw [modifyFirst] at h
      split at h
      · rename_i hp
        rcases List.mem_cons.mp h with rfl | h
        · exact .inr ⟨x, List.mem_cons_self, hp, rfl⟩
        · exact .inl (List.mem_cons_of_mem _ h)
      · rcases List.mem_cons.mp h with rfl | h
        · exact .inl List.mem_cons_self
        · rcases ih h with h | ⟨z, hz, hp, rfl⟩
          · exact .inl (List.mem_cons_of_mem _ h)
          · exact .inr ⟨z, List.mem_cons_of_mem _ hz, hp, rfl⟩

end ModifyFirst

-- A table of at most `cap` entries, one for a key. An entry keeps the form of its key
-- it came with when a later one with the same key sets its value.
section Keyed

variable {α κ β : Type} [DecidableEq κ] (key : α → κ) (val : α → β) (set : β → α → α)

def lookup (xs : List α) (k : κ) : Option β := (xs.find? fun x => key x = k).map val

def put (cap : Nat) (xs : List α) (e : α) : List α :=
  if key e ∈ xs.map key then modifyFirst (fun x => key x = key e) (set (val e)) xs
  else if xs.length < cap then xs ++ [e]
  else xs

variable {key val set}
variable (hkey : ∀ v x, key (set v x) = key x) (hval : ∀ v x, val (set v x) = v)

theorem lookup_eq_none {xs : List α} {k : κ} : lookup key val xs k = none ↔ k ∉ xs.map key := by
  simp [lookup]

include hkey in
theorem map_key_put (cap : Nat) (xs : List α) (e : α) :
    (put key val set cap xs e).map key =
      if key e ∉ xs.map key ∧ xs.length < cap then xs.map key ++ [key e] else xs.map key := by
  unfold put
  by_cases hmem : key e ∈ xs.map key
  · rw [if_pos hmem, if_neg fun h => h.1 hmem, map_modifyFirst (hkey _)]
  · rw [if_neg hmem]
    by_cases hroom : xs.length < cap
    · rw [if_pos hroom, if_pos ⟨hmem, hroom⟩, List.map_append, List.map_singleton]
    · rw [if_neg hroom, if_neg fun h => hroom h.2]

theorem put_new {cap : Nat} {xs : List α} {e : α} (hnew : key e ∉ xs.map key) (hroom : xs.length < cap) :
    put key val set cap xs e = xs ++ [e] := by
  rw [put, if_neg hnew, if_pos hroom]

include hkey in
theorem put_nodup (cap : Nat) {xs : List α} (e : α) (h : (xs.map key).Nodup) :
    ((put key val set cap xs e).map key).Nodup := by
  rw [map_key_put hkey]
  split
  · rename_i hnew
    exact List.nodup_append.mpr ⟨h, List.nodup_singleton _, by
      intro a ha b hb
      rw [List.mem_singleton.mp hb]
      exact fun heq => hnew.1 (heq ▸ ha)⟩
  · exact h

include hkey hval in
theorem lookup_put {cap : Nat} {xs : List α} {e : α} (hroom : key e ∈ xs.map key ∨ xs.length < cap) (k : κ) :
    lookup key val (put key val set cap xs e) k = if key e = k then some (val e) else lookup key val xs k := by
  unfold put
  by_cases hmem : key e ∈ xs.map key
  · rw [if_pos hmem]
    by_cases hk : key e = k
    · subst hk
      have hfound : lookup key val xs (key e) ≠ none := fun h => lookup_eq_none.mp h hmem
      obtain ⟨v, hv⟩ := Option.ne_none_iff_exists'.mp hfound
      obtain ⟨x, hx, -⟩ := Option.map_eq_some_iff.mp hv
      rw [if_pos rfl, lookup, find?_modifyFirst_same fun x => by rw [hkey], Option.map_map, hx,
        Option.map_some, Function.comp_apply, hval]
    · rw [if_neg hk, lookup, find?_modifyFirst_other (fun x => by rw [hkey])]
      · rfl
      · intro x hx
        exact decide_eq_false fun h => hk ((of_decide_eq_true hx).symm.trans h)
  · rw [if_neg hmem, if_pos (hroom.resolve_left hmem), lookup, List.find?_append]
    by_cases hk : key e = k
    · have hempty : lookup key val xs k = none := lookup_eq_none.mpr (hk ▸ hmem)
      have hnone : xs.find? (fun x => key x = k) = none := Option.map_eq_none_iff.mp hempty
      rw [if_pos hk, hnone, Option.none_or]
      simp [hk]
    · rw [if_neg hk, List.find?_cons_of_neg (by simpa using hk), List.find?_nil, Option.or_none]
      rfl

-- Where an entry of the table comes from.
theorem mem_put {cap : Nat} {xs : List α} {e x : α} (h : x ∈ put key val set cap xs e) :
    x ∈ xs ∨ x = e ∨ ∃ y ∈ xs, x = set (val e) y := by
  unfold put at h
  split_ifs at h
  · exact (mem_modifyFirst h).imp_right .inr
  · rcases List.mem_append.mp h with h | h
    · exact .inl h
    · exact .inr (.inl (List.mem_singleton.mp h))
  · exact .inl h

section Run

variable (cap : Nat)

include hkey in
theorem puts_nodup (es : List α) : ((es.foldl (put key val set cap) []).map key).Nodup := by
  induction es using List.reverseRecOn with
  | nil => exact List.nodup_nil
  | append_singleton es e ih =>
      rw [List.foldl_append]
      exact put_nodup hkey cap e ih

include hkey in
theorem puts_keys_subset (es : List α) :
    (es.foldl (put key val set cap) []).map key ⊆ es.map key := by
  induction es using List.reverseRecOn with
  | nil => exact List.Subset.refl _
  | append_singleton es e ih =>
      rw [List.foldl_append, List.map_append]
      intro k hk
      rw [List.foldl_cons, List.foldl_nil, map_key_put hkey] at hk
      split at hk
      · rcases List.mem_append.mp hk with hk | hk
        · exact List.mem_append_left _ (ih hk)
        · exact List.mem_append_right _ hk
      · exact List.mem_append_left _ (ih hk)

-- What holds of every entry written, and stays true when a value is set, holds of the
-- table.
theorem puts_forall {P : α → Prop} {es : List α} (hes : ∀ e ∈ es, P e)
    (hset : ∀ e ∈ es, ∀ x, P x → P (set (val e) x)) :
    ∀ x ∈ es.foldl (put key val set cap) [], P x := by
  induction es using List.reverseRecOn with
  | nil => exact fun x hx => absurd hx List.not_mem_nil
  | append_singleton es e ih =>
      have htable := ih (fun x hx => hes x (List.mem_append_left _ hx))
        (fun x hx => hset x (List.mem_append_left _ hx))
      have he : e ∈ es ++ [e] := List.mem_append_right _ (List.mem_singleton_self e)
      intro x hx
      rw [List.foldl_append, List.foldl_cons, List.foldl_nil] at hx
      rcases mem_put hx with hx | rfl | ⟨y, hy, rfl⟩
      · exact htable x hx
      · exact hes x he
      · exact hset e he y (htable y hy)

include hkey hval in
-- Without more keys than room the last value written under a key is the one found.
theorem lookup_puts {es : List α} (hroom : (es.map key).dedup.length ≤ cap) (k : κ) :
    lookup key val (es.foldl (put key val set cap) []) k = lookup key val es.reverse k := by
  induction es using List.reverseRecOn with
  | nil => rfl
  | append_singleton es e ih =>
      have hsub : ∀ ks : List κ, ks.Nodup → ks ⊆ (es ++ [e]).map key → ks.length ≤ cap := by
        intro ks hks hsub
        have hle := (List.subperm_of_subset hks fun k hk => List.mem_dedup.mpr (hsub hk)).length_le
        exact Nat.le_trans hle hroom
      have hprefix : (es.map key).dedup.length ≤ cap := by
        apply hsub _ (List.nodup_dedup _)
        intro k hk
        rw [List.map_append]
        exact List.mem_append_left _ (List.mem_dedup.mp hk)
      have hput : key e ∈ (es.foldl (put key val set cap) []).map key ∨
          (es.foldl (put key val set cap) []).length < cap := by
        by_cases hmem : key e ∈ (es.foldl (put key val set cap) []).map key
        · exact .inl hmem
        · right
          have hlen := hsub (key e :: (es.foldl (put key val set cap) []).map key)
            (List.nodup_cons.mpr ⟨hmem, puts_nodup hkey cap es⟩) ?_
          · rw [List.length_cons, List.length_map] at hlen
            omega
          · rw [List.map_append]
            apply List.cons_subset.mpr
            exact ⟨List.mem_append_right _ (by simp),
              fun k hk => List.mem_append_left _ (puts_keys_subset hkey cap es hk)⟩
      rw [List.foldl_append, List.foldl_cons, List.foldl_nil, lookup_put hkey hval hput, ih hprefix,
        List.reverse_append, lookup, lookup, List.reverse_singleton, List.singleton_append, List.find?_cons]
      by_cases hk : key e = k
      · rw [if_pos hk, decide_eq_true hk]
        rfl
      · rw [if_neg hk, decide_eq_false hk]

end Run

end Keyed

end Table
