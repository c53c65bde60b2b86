import Mathlib.Data.List.Induction

namespace Machine

variable {σ ε ω : Type} (step : σ → ε → σ × Option ω)

-- A run of a machine that may report something at each step: the last state and
-- all reports in order.
def run (s : σ) : List ε → σ × List ω
  | [] => (s, [])
  | e :: es =>
      let next := step s e
      let rest := run next.1 es
      (rest.1, next.2.toList ++ rest.2)

theorem run_append (s : σ) (es es' : List ε) :
    run step s (es ++ es') = ((run step (run step s es).1 es').1,
      (run step s es).2 ++ (run step (run step s es).1 es').2) := by
  induction es generalizing s with
  | nil => simp [run]
  | cons e es ih => simp only [List.cons_append, run, ih, List.append_assoc]

theorem run_concat (s : σ) (es : List ε) (e : ε) :
    run step s (es ++ [e]) = ((step (run step s es).1 e).1,
      (run step s es).2 ++ (step (run step s es).1 e).2.toList) := by
  simp only [run_append, run, List.append_nil]

-- An invariant may speak about the events and the reports so far.
theorem run_invariant (I : List ε → List ω → σ → Prop) {s : σ} (hinit : I [] [] s)
    (hstep : ∀ es os s e, I es os s → I (es ++ [e]) (os ++ (step s e).2.toList) (step s e).1)
    (es : List ε) : I es (run step s es).2 (run step s es).1 := by
  induction es using List.reverseRecOn with
  | nil => exact hinit
  | append_singleton es e ih =>
      rw [run_concat]
      exact hstep _ _ _ _ ih

-- Every report belongs to one step, and the reports before it to the steps before.
theorem run_split {s : σ} {es : List ε} {os os' : List ω} {o : ω}
    (h : (run step s es).2 = os ++ o :: os') :
    ∃ es₁ e es₂, es = es₁ ++ e :: es₂ ∧ (run step s es₁).2 = os ∧
      (step (run step s es₁).1 e).2 = some o := by
  induction es generalizing s os with
  | nil =>
      simp only [run] at h
      exact absurd h.symm (by simp)
  | cons e es ih =>
      simp only [run] at h
      cases hout : (step s e).2 with
      | none =>
          rw [hout, Option.toList_none, List.nil_append] at h
          obtain ⟨es₁, e', es₂, rfl, hos, ho⟩ := ih h
          refine ⟨e :: es₁, e', es₂, rfl, ?_, ?_⟩
          · simp only [run, hout, Option.toList_none, List.nil_append, hos]
          · simpa only [run] using ho
      | some o₁ =>
          rw [hout, Option.toList_some, List.singleton_append] at h
          cases os with
          | nil =>
              obtain ⟨rfl, -⟩ := List.cons.inj h
              exact ⟨[], e, es, rfl, rfl, hout⟩
          | cons o₂ os =>
              rw [List.cons_append] at h
              obtain ⟨rfl, htail⟩ := List.cons.inj h
              obtain ⟨es₁, e', es₂, rfl, hos, ho⟩ := ih htail
              refine ⟨e :: es₁, e', es₂, rfl, ?_, ?_⟩
              · simp only [run, hout, Option.toList_some, List.singleton_append, hos]
              · simpa only [run] using ho

-- Where something that a state holds comes from: it is there from the start, or one
-- event has put it there, and it stays from then on.
theorem run_origin {α : Type} (holds : σ → α → Prop) (puts : σ → ε → α → Prop) {s : σ}
    (hstep : ∀ es e a, holds (step (run step s es).1 e).1 a →
      holds (run step s es).1 a ∨ puts (run step s es).1 e a)
    (es : List ε) (a : α) (h : holds (run step s es).1 a) :
    (∀ es₁, es₁ <+: es → holds (run step s es₁).1 a) ∨
      ∃ es₁ e es₂, es = es₁ ++ e :: es₂ ∧ puts (run step s es₁).1 e a ∧
        ∀ es₃, es₃ <+: es₂ → holds (run step s (es₁ ++ e :: es₃)).1 a := by
  induction es using List.reverseRecOn with
  | nil =>
      refine .inl fun es₁ hes₁ => ?_
      rw [List.prefix_nil.mp hes₁]
      exact h
  | append_singleton es e ih =>
      have hlast := h
      rw [run_concat] at h
      rcases hstep es e a h with hbefore | hputs
      · rcases ih hbefore with hall | ⟨es₁, e₁, es₂, rfl, hputs, hstays⟩
        · refine .inl fun es₁ hes₁ => ?_
          rcases List.prefix_concat_iff.mp hes₁ with rfl | hes₁
          · exact hlast
          · exact hall es₁ hes₁
        · refine .inr ⟨es₁, e₁, es₂ ++ [e], by simp, hputs, fun es₃ hes₃ => ?_⟩
          rcases List.prefix_concat_iff.mp hes₃ with rfl | hes₃
          · rw [List.append_assoc, List.cons_append] at hlast
            exact hlast
          · exact hstays es₃ hes₃
      · refine .inr ⟨es, e, [], rfl, hputs, fun es₃ hes₃ => ?_⟩
        rw [List.prefix_nil.mp hes₃]
        exact hlast

-- Every step of a run meets a condition on the state before it.
def Along (cond : σ → ε → Prop) (s : σ) : List ε → Prop
  | [] => True
  | e :: es => cond s e ∧ Along cond (step s e).1 es

instance Along.decidable (cond : σ → ε → Prop) [∀ s e, Decidable (cond s e)] :
    (es : List ε) → (s : σ) → Decidable (Along step cond s es)
  | [], _ => inferInstanceAs (Decidable True)
  | e :: es, s =>
      have : Decidable (Along step cond (step s e).1 es) := Along.decidable cond es (step s e).1
      inferInstanceAs (Decidable (cond s e ∧ Along step cond (step s e).1 es))

theorem along_of_forall {cond : σ → ε → Prop} {es : List ε} (h : ∀ s, ∀ e ∈ es, cond s e) (s : σ) :
    Along step cond s es := by
  induction es generalizing s with
  | nil => trivial
  | cons e es ih => exact ⟨h s e List.mem_cons_self, ih (fun s x hx => h s x (List.mem_cons_of_mem _ hx)) _⟩

-- An invariant of a machine whose steps keep it under a condition.
theorem run_along (cond : σ → ε → Prop) (I : List ω → σ → Prop)
    (hstep : ∀ os s e, I os s → cond s e → I (os ++ (step s e).2.toList) (step s e).1)
    {es : List ε} {os : List ω} {s : σ} (h : I os s) (halong : Along step cond s es) :
    I (os ++ (run step s es).2) (run step s es).1 := by
  induction es generalizing os s with
  | nil =>
      rw [run, List.append_nil]
      exact h
  | cons e es ih =>
      rw [run, ← List.append_assoc]
      exact ih (hstep os s e h halong.1) halong.2

-- The same for an invariant of the state alone.
theorem run_along_state (cond : σ → ε → Prop) (J : σ → Prop)
    (hstep : ∀ s e, J s → cond s e → J (step s e).1) {es : List ε} {s : σ} (h : J s)
    (halong : Along step cond s es) : J (run step s es).1 :=
  @run_along σ ε ω step cond (fun _ => J) (fun _ => hstep) es [] s h halong

end Machine
