import DpiProxy.Strategy

namespace DpiProxy.Discovery

inductive ProbeResult where
  | success
  | remoteRejected
  | localError
  | timeout
deriving DecidableEq, Repr

-- g_discovery_ladder
def discoveryLadder : List StrategyChain :=
  [.single .pass, .single .split, .single .fake, .single .disorder, .single .fragment,
    ⟨[.fake, .split], by simp [STRATEGY_CHAIN_MAX]⟩, ⟨[.split, .fake], by simp [STRATEGY_CHAIN_MAX]⟩]

def DISCOVERY_MAX_ATTEMPTS_PER_CANDIDATE : Nat := 2

section Run

-- What a prober meets may change from one call to the next.
variable {σ : Type} (prober : σ → StrategyChain → ProbeResult × σ)

-- The loop over the attempts that a candidate still has.
def attempts (candidate : StrategyChain) : Nat → ProbeResult → σ → ProbeResult × σ
  | 0, result, s => (result, s)
  | n + 1, _, s =>
      match prober s candidate with
      | (.success, s) => (.success, s)
      | (.localError, s) => (.localError, s)
      | (result, s) => attempts candidate n result s

-- The loop over the candidates that are left, with the last result.
def candidates : List StrategyChain → ProbeResult → σ → Option StrategyChain × ProbeResult × σ
  | [], result, s => (none, result, s)
  | candidate :: ladder, result, s =>
      match attempts prober candidate DISCOVERY_MAX_ATTEMPTS_PER_CANDIDATE result s with
      | (.success, s) => (some candidate, .success, s)
      | (result, s) => candidates ladder result s

-- out_chain, the last result, and what the prober meets next.
def discoveryRun (s : σ) : Option StrategyChain × ProbeResult × σ :=
  candidates prober discoveryLadder .localError s

-- The same prober with a list of its calls.
def logged (s : σ × List (StrategyChain × ProbeResult)) (candidate : StrategyChain) :
    ProbeResult × σ × List (StrategyChain × ProbeResult) :=
  let call := prober s.1 candidate
  (call.1, call.2, s.2 ++ [(candidate, call.1)])

end Run

-- What n attempts at one candidate can give: a success or a local error ends them.
structure Attempted (n : Nat) (results : List ProbeResult) : Prop where
  few : results.length ≤ n
  again : ∀ r ∈ results.dropLast, r ≠ .success ∧ r ≠ .localError
  ended : results.length < n → results.getLast? = some .success ∨ results.getLast? = some .localError

-- The calls, candidate by candidate.
def callsOf (tried : List (StrategyChain × List ProbeResult)) : List (StrategyChain × ProbeResult) :=
  tried.flatMap fun t => t.2.map (Prod.mk t.1)

section Calls

variable {σ : Type} {prober : σ → StrategyChain → ProbeResult × σ} {n : Nat} {results : List ProbeResult}

theorem Attempted.single {r : ProbeResult} (h : r = .success ∨ r = .localError) : Attempted (n + 1) [r] := by
  refine ⟨by simp, fun x hx => absurd hx List.not_mem_nil, fun _ => ?_⟩
  rcases h with rfl | rfl
  · exact .inl rfl
  · exact .inr rfl

theorem Attempted.cons {r : ProbeResult} (h : Attempted n results) (hagain : r ≠ .success ∧ r ≠ .localError) :
    Attempted (n + 1) (r :: results) := by
  refine ⟨Nat.succ_le_succ h.few, fun x hx => ?_, fun hlt => ?_⟩
  · cases results with
    | nil => exact absurd hx List.not_mem_nil
    | cons first results =>
        rw [List.dropLast_cons_cons] at hx
        rcases List.mem_cons.mp hx with rfl | hx
        · exact hagain
        · exact h.again x hx
  · rw [List.length_cons] at hlt
    cases results with
    | nil => exact (h.ended (by omega)).elim (fun h => absurd h (by simp)) fun h => absurd h (by simp)
    | cons first results =>
        rw [List.getLast?_cons_cons]
        exact h.ended (by omega)

-- Only the last attempt at a candidate can be a success.
theorem Attempted.success_mem (h : Attempted n results) : .success ∈ results ↔ results.getLast? = some .success := by
  refine ⟨fun hmem => ?_, List.mem_of_getLast?⟩
  have hne : results ≠ [] := List.ne_nil_of_mem hmem
  rw [← List.dropLast_append_getLast hne] at hmem
  rcases List.mem_append.mp hmem with hbefore | hlast
  · exact absurd rfl (h.again _ hbefore).1
  · rw [List.getLast?_eq_some_getLast hne, List.mem_singleton.mp hlast]

theorem attempts_logged (candidate : StrategyChain) (n : Nat) (result : ProbeResult) (s : σ)
    (log : List (StrategyChain × ProbeResult)) :
    ∃ results s', Attempted n results ∧
      attempts prober candidate n result s = (results.getLast?.getD result, s') ∧
      attempts (logged prober) candidate n result (s, log) =
        (results.getLast?.getD result, s', log ++ results.map (Prod.mk candidate)) := by
  induction n generalizing result s log with
  | zero =>
      refine ⟨[], s, ⟨Nat.le_refl _, fun r hr => absurd hr List.not_mem_nil, fun h => absurd h (Nat.lt_irrefl _)⟩,
        rfl, ?_⟩
      rw [List.map_nil, List.append_nil]
      rfl
  | succ n ih =>
      rcases hcall : prober s candidate with ⟨r, s₁⟩
      have hagain : r ≠ .success ∧ r ≠ .localError → ∃ results s', Attempted (n + 1) results ∧
          attempts prober candidate n r s₁ = (results.getLast?.getD result, s') ∧
          attempts (logged prober) candidate n r (s₁, log ++ [(candidate, r)]) =
            (results.getLast?.getD result, s', log ++ results.map (Prod.mk candidate)) := by
        intro hr
        obtain ⟨results, s', hattempted, hplain, hlogged⟩ := ih r s₁ (log ++ [(candidate, r)])
        have hlast : (r :: results).getLast?.getD result = results.getLast?.getD r := by
          rw [List.getLast?_cons, Option.getD_some]
        refine ⟨r :: results, s', hattempted.cons hr, by rw [hlast, hplain], ?_⟩
        rw [hlast, hlogged, List.map_cons, List.append_assoc, List.singleton_append]
      simp only [attempts, logged, hcall]
      cases r with
      | success => exact ⟨[.success], s₁, .single (.inl rfl), rfl, rfl⟩
      | localError => exact ⟨[.localError], s₁, .single (.inr rfl), rfl, rfl⟩
      | remoteRejected => exact hagain ⟨by simp, by simp⟩
      | timeout => exact hagain ⟨by simp, by simp⟩

theorem callsOf_length {tried : List (StrategyChain × List ProbeResult)} (h : ∀ t ∈ tried, Attempted n t.2) :
    (callsOf tried).length ≤ tried.length * n := by
  induction tried with
  | nil => exact Nat.zero_le _
  | cons t tried ih =>
      have hrest := ih fun x hx => h x (List.mem_cons_of_mem _ hx)
      have hfirst := (h t List.mem_cons_self).few
      rw [callsOf] at hrest ⊢
      rw [List.flatMap_cons, List.length_append, List.length_map, List.length_cons, Nat.succ_mul]
      omega

-- The candidates of a ladder in order, up to the first success.
theorem candidates_logged (ladder : List StrategyChain) (result : ProbeResult) (s : σ)
    (log : List (StrategyChain × ProbeResult)) :
    ∃ found last s' tried, candidates prober ladder result s = (found, last, s') ∧
      candidates (logged prober) ladder result (s, log) = (found, last, s', log ++ callsOf tried) ∧
      tried.map Prod.fst <+: ladder ∧ (∀ t ∈ tried, Attempted DISCOVERY_MAX_ATTEMPTS_PER_CANDIDATE t.2) ∧
      (∀ c, found = some c → last = .success ∧ ∃ before results, tried = before ++ [(c, results)] ∧
        .success ∈ results ∧ ∀ t ∈ before, .success ∉ t.2) ∧
      (found = none → tried.map Prod.fst = ladder ∧ (∀ t ∈ tried, .success ∉ t.2) ∧
        last = (((callsOf tried).getLast?).map Prod.snd).getD result) := by
  induction ladder generalizing result s log with
  | nil =>
      refine ⟨none, result, s, [], rfl, ?_, List.prefix_refl _, fun t ht => absurd ht List.not_mem_nil, ?_, ?_⟩
      · rw [callsOf, List.flatMap_nil, List.append_nil]
        rfl
      · exact fun c hc => absurd hc (by simp)
      · exact fun _ => ⟨rfl, fun t ht => absurd ht List.not_mem_nil, rfl⟩
  | cons candidate ladder ih =>
      obtain ⟨results, s₁, hattempted, hplain, hlogged⟩ :=
        @attempts_logged σ prober candidate DISCOVERY_MAX_ATTEMPTS_PER_CANDIDATE result s log
      have hsome : results ≠ [] := by
        rintro rfl
        rcases hattempted.ended (by simp [DISCOVERY_MAX_ATTEMPTS_PER_CANDIDATE]) with h | h <;> cases h
      have hlast : results.getLast? = some (results.getLast hsome) := List.getLast?_eq_some_getLast hsome
      have hmem := hattempted.success_mem
      rw [hlast, Option.some_inj] at hmem
      rw [hlast, Option.getD_some] at hplain hlogged
      generalize results.getLast hsome = last₁ at hlast hmem hplain hlogged
      by_cases hsuccess : last₁ = .success
      · obtain rfl := hsuccess
        refine ⟨some candidate, .success, s₁, [(candidate, results)], ?_, ?_, ?_, ?_, ?_, ?_⟩
        · rw [candidates, hplain]
        · rw [candidates, hlogged, callsOf, List.flatMap_cons, List.flatMap_nil, List.append_nil]
        · exact ⟨ladder, rfl⟩
        · intro t ht
          rw [List.mem_singleton.mp ht]
          exact hattempted
        · intro c hc
          obtain rfl := Option.some.inj hc
          exact ⟨rfl, [], results, rfl, hmem.mpr rfl, fun t ht => absurd ht List.not_mem_nil⟩
        · exact fun hnone => absurd hnone (by simp)
      · obtain ⟨found, last, s', tried, hrun, hrunLogged, hfront, hall, hfound, hnone⟩ :=
          ih last₁ s₁ (log ++ results.map (Prod.mk candidate))
        have hno : .success ∉ results := fun h => hsuccess (hmem.mp h)
        refine ⟨found, last, s', (candidate, results) :: tried, ?_, ?_, ?_, ?_, ?_, ?_⟩
        · rw [← hrun, candidates, hplain]
          cases last₁ <;> first | exact absurd rfl hsuccess | rfl
        · rw [callsOf, List.flatMap_cons, ← List.append_assoc, ← callsOf, ← hrunLogged, candidates, hlogged]
          cases last₁ <;> first | exact absurd rfl hsuccess | rfl
        · exact (List.prefix_cons_inj candidate).mpr hfront
        · intro t ht
          rcases List.mem_cons.mp ht with rfl | ht
          · exact hattempted
          · exact hall t ht
        · intro c hc
          obtain ⟨hsame, before, last', htried, hin, hbefore⟩ := hfound c hc
          refine ⟨hsame, (candidate, results) :: before, last', by rw [htried]; rfl, hin, fun t ht => ?_⟩
          rcases List.mem_cons.mp ht with rfl | ht
          · exact hno
          · exact hbefore t ht
        · intro h
          obtain ⟨hsame, hnever, hlastCall⟩ := hnone h
          refine ⟨by rw [List.map_cons, hsame], fun t ht => ?_, ?_⟩
          · rcases List.mem_cons.mp ht with rfl | ht
            · exact hno
            · exact hnever t ht
          · have hcalls : callsOf ((candidate, results) :: tried) =
                results.map (Prod.mk candidate) ++ callsOf tried := rfl
            rw [hlastCall, hcalls, List.getLast?_append, List.getLast?_map, hlast]
            cases (callsOf tried).getLast? <;> rfl

end Calls

-- A discovery takes the first candidate that a call of the prober accepts. It makes no call
-- after a success, at most two at a candidate, and no second one after a local error.
theorem discoveryRun_first {σ : Type} (prober : σ → StrategyChain → ProbeResult × σ) (s : σ) :
    ∃ found last s' tried, discoveryRun prober s = (found, last, s') ∧
      discoveryRun (logged prober) (s, []) = (found, last, s', callsOf tried) ∧
      (callsOf tried).length ≤ discoveryLadder.length * DISCOVERY_MAX_ATTEMPTS_PER_CANDIDATE ∧
      tried.map Prod.fst <+: discoveryLadder ∧ (∀ t ∈ tried, Attempted DISCOVERY_MAX_ATTEMPTS_PER_CANDIDATE t.2) ∧
      (∀ c, found = some c → last = .success ∧ ∃ before results, tried = before ++ [(c, results)] ∧
        .success ∈ results ∧ ∀ t ∈ before, .success ∉ t.2) ∧
      (found = none → tried.map Prod.fst = discoveryLadder ∧ (∀ t ∈ tried, .success ∉ t.2) ∧
        (callsOf tried).getLast?.map Prod.snd = some last) := by
  obtain ⟨found, last, s', tried, hrun, hlogged, hfront, hall, hfound, hnone⟩ :=
    @candidates_logged σ prober discoveryLadder .localError s []
  rw [List.nil_append] at hlogged
  have hlength := hfront.length_le
  rw [List.length_map] at hlength
  refine ⟨found, last, s', tried, hrun, hlogged, ?_, hfront, hall, hfound, fun h => ?_⟩
  · exact (callsOf_length hall).trans (Nat.mul_le_mul_right _ hlength)
  · obtain ⟨hsame, hnever, hlast⟩ := hnone h
    refine ⟨hsame, hnever, ?_⟩
    cases tried with
    | nil => cases hsame
    | cons t tried =>
        have hsome : callsOf (t :: tried) ≠ [] := by
          have hfirst : t.2 ≠ [] := by
            intro hnil
            have hended := (hall t List.mem_cons_self).ended
            rw [hnil] at hended
            rcases hended (by simp [DISCOVERY_MAX_ATTEMPTS_PER_CANDIDATE]) with h | h <;> cases h
          rw [callsOf, List.flatMap_cons]
          simp [hfirst]
        rw [List.getLast?_eq_some_getLast hsome] at hlast ⊢
        rw [hlast]
        rfl

end DpiProxy.Discovery
