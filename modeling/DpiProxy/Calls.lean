import Mathlib.Init

namespace Calls

-- A function of a program that changes a state and may stop.
abbrev Call (ε σ α : Type) := ExceptT ε (StateM σ) α

variable {ε σ τ α β : Type}

theorem bind_run (x : Call ε σ α) (f : α → Call ε σ β) (s : σ) :
    (x >>= f) s =
      match x s with
      | (.ok a, s) => f a s
      | (.error e, s) => (.error e, s) := by
  change (ExceptT.bindCont f (x s).1 : StateM σ (Except ε β)) (x s).2 = _
  rcases x s with ⟨r, s'⟩
  cases r <;> rfl

@[simp] theorem pure_run (a : α) (s : σ) : (pure a : Call ε σ α) s = (.ok a, s) := rfl

@[simp] theorem throw_run (e : ε) (s : σ) : (throw e : Call ε σ α) s = (.error e, s) := rfl

-- A call of two parts succeeds if the first does and the second does after it.
theorem bind_ok {x : Call ε σ α} {f : α → Call ε σ β} {s s'' : σ} {b : β} :
    (x >>= f) s = (.ok b, s'') ↔ ∃ a s', x s = (.ok a, s') ∧ f a s' = (.ok b, s'') := by
  rw [bind_run]
  rcases x s with ⟨r, s'⟩
  cases r with
  | ok a =>
      refine ⟨fun h => ⟨a, s', rfl, h⟩, ?_⟩
      rintro ⟨a', t, hx, h⟩
      obtain ⟨ha, rfl⟩ := Prod.mk.inj hx
      obtain rfl := Except.ok.inj ha
      exact h
  | error e =>
      refine ⟨fun h => absurd (Prod.mk.inj h).1 (by simp), ?_⟩
      rintro ⟨a', t, hx, h⟩
      cases (Prod.mk.inj hx).1

theorem throw_ok {e : ε} {s s' : σ} {a : α} : (throw e : Call ε σ α) s = (.ok a, s') ↔ False := by
  rw [throw_run]
  refine ⟨fun h => ?_, False.elim⟩
  cases (Prod.mk.inj h).1

theorem ite_throw_ok {p : Prop} [Decidable p] {e : ε} {x : Call ε σ α} {s s' : σ} {a : α} :
    (if p then throw e else x) s = (.ok a, s') ↔ ¬p ∧ x s = (.ok a, s') := by
  split
  · rename_i hp
    simp only [throw_ok, not_true_eq_false, false_and, hp]
  · rename_i hp
    simp only [hp, not_false_eq_true, true_and]

-- The result of a call as a value: the caller goes on either way.
def attempt (x : Call ε σ α) : Call ε σ (Except ε α) := fun s => (.ok (x s).1, (x s).2)

-- Two calls do the same: from related states they have one result, and they leave related
-- states. Where they have stopped, a weaker relation is enough.
def Agrees (rel fin : σ → τ → Prop) (x : Call ε σ α) (y : Call ε τ α) : Prop :=
  ∀ s t, rel s t → (x s).1 = (y t).1 ∧ fin (x s).2 (y t).2 ∧ ∀ a, (x s).1 = .ok a → rel (x s).2 (y t).2

section Agrees

variable {rel fin : σ → τ → Prop} (hfin : ∀ s t, rel s t → fin s t)

include hfin

theorem Agrees.pure (a : α) : Agrees rel fin (Pure.pure a : Call ε σ α) (Pure.pure a) :=
  fun s t h => ⟨rfl, hfin s t h, fun _ _ => h⟩

theorem Agrees.throw (e : ε) : Agrees rel fin (throw e : Call ε σ α) (throw e) :=
  fun s t h => ⟨rfl, hfin s t h, fun _ hok => by cases hok⟩

omit hfin in
theorem Agrees.bind {x : Call ε σ α} {y : Call ε τ α} {f : α → Call ε σ β} {g : α → Call ε τ β}
    (h : Agrees rel fin x y) (hnext : ∀ a, Agrees rel fin (f a) (g a)) :
    Agrees rel fin (x >>= f) (y >>= g) := by
  intro s t hst
  obtain ⟨hresult, hstop, hgoes⟩ := h s t hst
  rw [bind_run, bind_run]
  rcases hx : x s with ⟨r, s'⟩
  rcases hy : y t with ⟨r', t'⟩
  simp only [hx, hy] at hresult hstop hgoes
  obtain rfl := hresult
  cases r with
  | ok a => exact hnext a s' t' (hgoes a rfl)
  | error e => exact ⟨rfl, hstop, fun _ hok => by cases hok⟩

omit hfin in
theorem Agrees.ite {p : Prop} [Decidable p] {x x' : Call ε σ α} {y y' : Call ε τ α}
    (hthen : Agrees rel fin x y) (helse : Agrees rel fin x' y') :
    Agrees rel fin (if p then x else x') (if p then y else y') := by
  split
  · exact hthen
  · exact helse

omit hfin in
theorem Agrees.attempt {x : Call ε σ α} {y : Call ε τ α} (h : Agrees rel rel x y)
    (hfin : ∀ s t, rel s t → fin s t) : Agrees rel fin (attempt x) (attempt y) := by
  intro s t hst
  obtain ⟨hresult, hstop, -⟩ := h s t hst
  exact ⟨congrArg Except.ok hresult, hfin _ _ hstop, fun _ _ => hstop⟩

end Agrees

-- From a state with `pre` a call that returns leaves `post`, and one that stops leaves
-- `stop`.
def Triple (pre : σ → Prop) (x : Call ε σ α) (post : α → σ → Prop) (stop : ε → σ → Prop) : Prop :=
  ∀ s, pre s → (∀ a s', x s = (.ok a, s') → post a s') ∧ ∀ e s', x s = (.error e, s') → stop e s'

section Triple

variable {pre : σ → Prop} {mid : α → σ → Prop} {post : β → σ → Prop} {stop : ε → σ → Prop}

theorem Triple.pure {post : α → σ → Prop} {a : α} (h : ∀ s, pre s → post a s) :
    Triple pre (Pure.pure a : Call ε σ α) post stop := by
  intro s hs
  refine ⟨fun a' s' hrun => ?_, fun e s' hrun => absurd (Prod.mk.inj hrun).1 (by simp)⟩
  obtain ⟨ha, rfl⟩ := Prod.mk.inj hrun
  obtain rfl := Except.ok.inj ha
  exact h s hs

theorem Triple.throw {post : α → σ → Prop} {e : ε} (h : ∀ s, pre s → stop e s) :
    Triple pre (throw e : Call ε σ α) post stop := by
  intro s hs
  refine ⟨fun a s' hrun => absurd (Prod.mk.inj hrun).1 (by simp), fun e' s' hrun => ?_⟩
  obtain ⟨he, rfl⟩ := Prod.mk.inj hrun
  obtain rfl := Except.error.inj he
  exact h s hs

theorem Triple.bind {x : Call ε σ α} {f : α → Call ε σ β} (h : Triple pre x mid stop)
    (hnext : ∀ a, Triple (mid a) (f a) post stop) : Triple pre (x >>= f) post stop := by
  intro s hs
  obtain ⟨hok, herror⟩ := h s hs
  rw [bind_run]
  rcases hx : x s with ⟨r, s'⟩
  cases r with
  | ok a => exact hnext a s' (hok a s' hx)
  | error e =>
      refine ⟨fun b t hrun => absurd (Prod.mk.inj hrun).1 (by simp), fun e' t hrun => ?_⟩
      obtain ⟨he, rfl⟩ := Prod.mk.inj hrun
      obtain rfl := Except.error.inj he
      exact herror e s' hx

theorem Triple.ite {post : α → σ → Prop} {p : Prop} [Decidable p] {x x' : Call ε σ α}
    (hthen : Triple pre x post stop) (helse : Triple pre x' post stop) :
    Triple pre (if p then x else x') post stop := by
  split
  · exact hthen
  · exact helse

theorem Triple.attempt {post : α → σ → Prop} {x : Call ε σ α} (h : Triple pre x post stop) :
    Triple pre (attempt x) (fun r s => match r with | .ok a => post a s | .error e => stop e s) stop := by
  intro s hs
  obtain ⟨hok, herror⟩ := h s hs
  refine ⟨fun r s' hrun => ?_, fun e s' hrun => absurd (Prod.mk.inj hrun).1 (by simp)⟩
  obtain ⟨hr, rfl⟩ := Prod.mk.inj hrun
  obtain rfl := Except.ok.inj hr
  rcases hx : x s with ⟨r, s'⟩
  cases r with
  | ok a => exact hok a s' hx
  | error e => exact herror e s' hx

theorem Triple.weaken {post post' : α → σ → Prop} {stop' : ε → σ → Prop} {x : Call ε σ α}
    (h : Triple pre x post stop) (hpost : ∀ a s, post a s → post' a s) (hstop : ∀ e s, stop e s → stop' e s) :
    Triple pre x post' stop' := by
  intro s hs
  obtain ⟨hok, herror⟩ := h s hs
  exact ⟨fun a s' hrun => hpost a s' (hok a s' hrun), fun e s' hrun => hstop e s' (herror e s' hrun)⟩

end Triple

end Calls
