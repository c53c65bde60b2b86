import DpiProxy.Transparent.Plan.Lemmas

namespace DpiProxy.Transparent

-- What the resolver says to NEED_DNS.
structure DnsAnswer where
  trust : TpTrust
  known : trust ≠ .unknown
deriving DecidableEq, Repr

inductive PlanEvent where
  | dns (answer : TpTrust)
  | attempt (trust : TpTrust) (step : TpStep) (timeoutMs : Nat) (result : TpResult)
deriving DecidableEq, Repr

-- The end of a run: the state of the sockets, the plan, the step that is committed,
-- and what happened on the way.
structure PlanRun (σ : Type) where
  state : σ
  plan : TpPlan
  committed : Option TpStep
  events : List PlanEvent

theorem tpPlanRecord_eq {p : TpPlan} (h : p.tried.length < TP_MAX_ATTEMPTS) (s : TpStep) (r : TpResult) :
    tpPlanRecord p s r = { p with tried := p.tried ++ [(s, r)] } := by
  rw [tpPlanRecord, if_neg (by omega)]

-- How often the plan can still be asked.
def remaining (p : TpPlan) : Nat :=
  (TP_MAX_ATTEMPTS - p.tried.length) + (if p.trust = .unknown then 1 else 0)

theorem remaining_record {p : TpPlan} (h : p.tried.length < TP_MAX_ATTEMPTS) (s : TpStep) (r : TpResult) :
    remaining (tpPlanRecord p s r) < remaining p := by
  rw [tpPlanRecord_eq h, remaining, remaining, List.length_append, List.length_singleton]
  dsimp only
  omega

theorem remaining_dns {p : TpPlan} (h : p.trust = .unknown) (answer : DnsAnswer) :
    remaining { p with trust := answer.trust } < remaining p := by
  rw [remaining, remaining, if_pos h, if_neg answer.known]
  exact Nat.lt_succ_self _

-- The loop of run_plan. `attempt` carries out a step; a plan asks the resolver at
-- most once, so one answer stands for all it could say.
def runLoop {σ : Type} (answer : DnsAnswer) (attempt : σ → TpStep → Nat → σ × TpResult) (p : TpPlan)
    (s : σ) : PlanRun σ :=
  match _ : tpPlanNext p with
  | .done => ⟨s, p, none, []⟩
  | .needDns =>
      let rest := runLoop answer attempt { p with trust := answer.trust } s
      { rest with events := .dns answer.trust :: rest.events }
  | .attempt step timeoutMs =>
      let outcome := attempt s step timeoutMs
      let event := .attempt p.trust step timeoutMs outcome.2
      let recorded := tpPlanRecord p step outcome.2
      if outcome.2.answered then ⟨outcome.1, recorded, some step, [event]⟩
      else
        let rest := runLoop answer attempt recorded outcome.1
        { rest with events := event :: rest.events }
termination_by remaining p
decreasing_by
  · exact remaining_dns (tpPlanNext_needDns ‹_›) answer
  · exact remaining_record (tpPlanNext_attempt ‹_›).room _ _

section Equations

variable {σ : Type} {answer : DnsAnswer} {attempt : σ → TpStep → Nat → σ × TpResult} {p : TpPlan} (s : σ)

theorem runLoop_done (h : tpPlanNext p = .done) : runLoop answer attempt p s = ⟨s, p, none, []⟩ := by
  rw [runLoop]
  split
  · rfl
  · rename_i hnext
    cases h.symm.trans hnext
  · rename_i hnext
    cases h.symm.trans hnext

theorem runLoop_dns (h : tpPlanNext p = .needDns) :
    runLoop answer attempt p s =
      { runLoop answer attempt { p with trust := answer.trust } s with
        events := .dns answer.trust ::
          (runLoop answer attempt { p with trust := answer.trust } s).events } := by
  conv_lhs => rw [runLoop]
  split
  · rename_i hnext
    cases h.symm.trans hnext
  · rfl
  · rename_i hnext
    cases h.symm.trans hnext

theorem runLoop_attempt {step : TpStep} {t : Nat} (h : tpPlanNext p = .attempt step t) :
    runLoop answer attempt p s =
      if (attempt s step t).2.answered then
        ⟨(attempt s step t).1, tpPlanRecord p step (attempt s step t).2, some step,
          [.attempt p.trust step t (attempt s step t).2]⟩
      else
        { runLoop answer attempt (tpPlanRecord p step (attempt s step t).2) (attempt s step t).1 with
          events := .attempt p.trust step t (attempt s step t).2 ::
            (runLoop answer attempt (tpPlanRecord p step (attempt s step t).2)
              (attempt s step t).1).events } := by
  conv_lhs => rw [runLoop]
  split
  · rename_i hnext
    cases h.symm.trans hnext
  · rename_i hnext
    cases h.symm.trans hnext
  · rename_i hnext
    cases h.symm.trans hnext
    rfl

end Equations

-- One offer as the events show it.
structure Offer where
  trust : TpTrust
  step : TpStep
  result : TpResult
deriving DecidableEq, Repr

def offers : List PlanEvent → List Offer
  | [] => []
  | .attempt trust step _ result :: events => ⟨trust, step, result⟩ :: offers events
  | .dns _ :: events => offers events

def lookups : List PlanEvent → Nat
  | [] => 0
  | .attempt _ _ _ _ :: events => lookups events
  | .dns _ :: events => lookups events + 1

-- What an earlier attempt means for a later one.
def Follows (earlier later : TpStep × TpResult) : Prop :=
  earlier.1 ≠ later.1 ∧ earlier.2.answered = false ∧
    (earlier.1.target = .original → earlier.2 = .connectFail → later.1.target ≠ .original)

structure PlanInv (p : TpPlan) : Prop where
  size : p.tried.length ≤ TP_MAX_ATTEMPTS
  order : p.tried.Pairwise Follows
  trusted : ∀ t ∈ p.tried, t.1.target = .trusted → p.trust = .mismatch
  stream : ∀ t ∈ p.tried, IsStream t.1.strategy
  -- The cached step is the first one of the ladder, and the lookup it needs comes
  -- before it.
  cached : Ladder p → p.tried ≠ [] → ∀ c, p.cached = some c →
    (c.target = .trusted → p.trust ≠ .unknown) ∧ Tried p (normalize p c)

theorem planInv_start {p : TpPlan} (h : p.tried = []) : PlanInv p := by
  refine ⟨?_, ?_, ?_, ?_, fun _ hne => absurd h hne⟩
  · rw [h]
    exact Nat.zero_le _
  · rw [h]
    exact List.Pairwise.nil
  · rw [h]
    exact fun t ht => absurd ht List.not_mem_nil
  · rw [h]
    exact fun t ht => absurd ht List.not_mem_nil

theorem unanswered_all {p : TpPlan} (h : PlanInv p) (hlast : p.tried.getLast?.any (·.2.answered) = false) :
    ∀ t ∈ p.tried, t.2.answered = false := by
  intro t ht
  have horder := h.order
  rcases List.eq_nil_or_concat p.tried with hnil | ⟨init, last, hconcat⟩
  · rw [hnil] at ht
    cases ht
  · rw [List.concat_eq_append] at hconcat
    rw [hconcat] at ht hlast horder
    rcases List.mem_append.mp ht with hinit | hend
    · exact ((List.pairwise_append.mp horder).2.2 t hinit last List.mem_cons_self).2.1
    · rw [List.mem_singleton.mp hend]
      simpa using hlast

-- A step of the plan keeps the invariant.
theorem PlanInv.record {p : TpPlan} (h : PlanInv p) {s : TpStep} {t : Nat}
    (hnext : tpPlanNext p = .attempt s t) (r : TpResult) : PlanInv (tpPlanRecord p s r) := by
  obtain ⟨hroom, hlast, hkind⟩ := tpPlanNext_attempt hnext
  rw [tpPlanRecord_eq hroom]
  -- the cached step does not come back once something has been tried
  have hsound : ¬Tried p s ∧ (s.target = .trusted → p.trust = .mismatch) ∧ IsStream s.strategy ∧
      (s.target = .original → originalUnreachable p = false) := by
    rcases hkind with ⟨-, hs, -⟩ | ⟨hladder, t', hcached⟩
    · exact ⟨hs.fresh, hs.trusted, hs.stream, hs.reachable⟩
    · rcases (nextCached_attempt hcached).2 with ⟨c, hc, rfl, hfresh⟩ | ⟨hs, -⟩
      · refine ⟨hfresh, normalize_trusted, isStream_streamStrategy _, fun _ => ?_⟩
        have hnil : p.tried = [] := by
          by_contra hne
          exact hfresh (h.cached hladder hne c hc).2
        rw [originalUnreachable, hnil]
        rfl
      · exact ⟨hs.fresh, hs.trusted, hs.stream, hs.reachable⟩
  obtain ⟨hfresh, htrusted, hstream, hreach⟩ := hsound
  refine ⟨?_, ?_, ?_, ?_, ?_⟩
  · rw [List.length_append, List.length_singleton]
    omega
  · rw [List.pairwise_append]
    refine ⟨h.order, List.pairwise_singleton _ _, fun t ht u hu => ?_⟩
    obtain rfl := List.mem_singleton.mp hu
    refine ⟨?_, unanswered_all h hlast t ht, ?_⟩
    · intro hsame
      exact hfresh (List.mem_map.mpr ⟨t, ht, hsame⟩)
    · intro htarget hfail horiginal
      have hu := (originalUnreachable_iff p).mpr ⟨t, ht, htarget, hfail⟩
      rw [hreach horiginal] at hu
      cases hu
  · intro t ht htarget
    rcases List.mem_append.mp ht with hold | hnew
    · exact h.trusted t hold htarget
    · rw [List.mem_singleton.mp hnew] at htarget
      exact htrusted htarget
  · intro t ht
    rcases List.mem_append.mp ht with hold | hnew
    · exact h.stream t hold
    · rw [List.mem_singleton.mp hnew]
      exact hstream
  · intro hladder _ c hc
    rcases hkind with ⟨-, -, hnot⟩ | ⟨-, t', hcached⟩
    · exact absurd ⟨hladder.host, hladder.manual, hladder.cooldown⟩ hnot
    · obtain ⟨hknown, hwhich⟩ := nextCached_attempt hcached
      refine ⟨hknown c hc, ?_⟩
      rw [Tried, List.map_append, List.mem_append]
      rcases hwhich with ⟨c', hc', rfl, -⟩ | ⟨-, -, htried⟩
      · obtain rfl := Option.some.inj (hc'.symm.trans hc)
        exact .inr List.mem_cons_self
      · exact .inl (htried c hc)

theorem PlanInv.dns {p : TpPlan} (h : PlanInv p) (hnext : tpPlanNext p = .needDns) (answer : DnsAnswer) :
    PlanInv { p with trust := answer.trust } := by
  have hunknown := tpPlanNext_needDns hnext
  refine ⟨h.size, h.order, ?_, h.stream, ?_⟩
  · intro t ht htarget
    have := h.trusted t ht htarget
    rw [hunknown] at this
    cases this
  · intro hladder hne c hc
    obtain ⟨hknown, htried⟩ := h.cached ⟨hladder.host, hladder.manual, hladder.cooldown⟩ hne c hc
    refine ⟨fun _ => answer.known, ?_⟩
    have htarget : c.target ≠ .trusted := fun ht => hknown ht hunknown
    have hsame : ∀ trust, normalize { p with trust := trust } c = ⟨c.target, streamStrategy c.strategy⟩ := by
      intro trust
      rw [normalize, if_neg fun hc => htarget hc.1]
    rw [hsame]
    rwa [show normalize p c = _ from hsame p.trust] at htried

-- What a run does, from any plan on its way.
structure RunSpec {σ : Type} (p : TpPlan) (run : PlanRun σ) : Prop where
  inv : PlanInv run.plan
  done : tpPlanNext run.plan = .done
  tried : run.plan.tried = p.tried ++ (offers run.events).map fun o => (o.step, o.result)
  lookups : lookups run.events ≤ if p.trust = .unknown then 1 else 0
  trusted : ∀ o ∈ offers run.events, o.step.target = .trusted → o.trust = .mismatch
  inputs : { run.plan with trust := p.trust, tried := p.tried } = p

theorem done_of_answered {p : TpPlan} {s : TpStep} {r : TpResult} (hr : r.answered = true) :
    tpPlanNext { p with tried := p.tried ++ [(s, r)] } = .done := by
  have hlast : (p.tried ++ [(s, r)]).getLast?.any (·.2.answered) = true := by simp [hr]
  rw [tpPlanNext]
  dsimp only
  rw [hlast, if_pos rfl, ite_self]

theorem offer_trusted {p : TpPlan} {s : TpStep} {t : Nat} (hnext : tpPlanNext p = .attempt s t)
    (h : s.target = .trusted) : p.trust = .mismatch := by
  rcases (tpPlanNext_attempt hnext).kind with ⟨-, hs, -⟩ | ⟨-, t', hcached⟩
  · exact hs.trusted h
  · rcases (nextCached_attempt hcached).2 with ⟨c, -, rfl, -⟩ | ⟨hs, -⟩
    · exact normalize_trusted h
    · exact hs.trusted h

theorem runLoop_spec {σ : Type} (answer : DnsAnswer) (attempt : σ → TpStep → Nat → σ × TpResult)
    (p : TpPlan) (s : σ) (h : PlanInv p) : RunSpec p (runLoop answer attempt p s) := by
  induction hleft : remaining p using Nat.strongRecOn generalizing p s with
  | _ left ih =>
      cases hnext : tpPlanNext p with
      | done =>
          rw [runLoop_done s hnext]
          exact ⟨h, hnext, (List.append_nil _).symm, Nat.zero_le _,
            fun o ho => absurd ho List.not_mem_nil, rfl⟩
      | needDns =>
          have hunknown := tpPlanNext_needDns hnext
          have hrest := ih _ (hleft ▸ remaining_dns hunknown answer) _ s (h.dns hnext answer) rfl
          rw [runLoop_dns s hnext]
          refine ⟨hrest.inv, hrest.done, hrest.tried, ?_, hrest.trusted, ?_⟩
          · have hcount := hrest.lookups
            rw [if_neg answer.known] at hcount
            rw [if_pos hunknown, lookups]
            omega
          · exact congrArg (fun q : TpPlan => { q with trust := p.trust }) hrest.inputs
      | attempt step t =>
          have hroom := (tpPlanNext_attempt hnext).room
          have hinv := h.record hnext (attempt s step t).2
          have hless := remaining_record hroom step (attempt s step t).2
          rw [runLoop_attempt s hnext]
          rw [tpPlanRecord_eq hroom] at hinv hless ⊢
          by_cases hr : (attempt s step t).2.answered = true
          · rw [if_pos hr]
            refine ⟨hinv, done_of_answered hr, rfl, Nat.zero_le _, ?_, rfl⟩
            intro o ho htarget
            rw [List.mem_singleton.mp ho] at htarget ⊢
            exact offer_trusted hnext htarget
          · rw [if_neg hr]
            have hrest := ih _ (hleft ▸ hless) _ (attempt s step t).1 hinv rfl
            refine ⟨hrest.inv, hrest.done, ?_, hrest.lookups, ?_, ?_⟩
            · rw [hrest.tried]
              simp only [offers, List.map_cons, List.append_assoc, List.singleton_append]
            · intro o ho htarget
              rcases List.mem_cons.mp ho with rfl | ho
              · exact offer_trusted hnext htarget
              · exact hrest.trusted o ho htarget
            · exact congrArg (fun q : TpPlan => { q with tried := p.tried }) hrest.inputs

end DpiProxy.Transparent
