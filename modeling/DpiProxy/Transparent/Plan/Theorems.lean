import DpiProxy.Transparent.Plan.Run

namespace DpiProxy.Transparent

section Run

variable {σ : Type} (answer : DnsAnswer) (attempt : σ → TpStep → Nat → σ × TpResult)

theorem tried_iff_offered {p : TpPlan} {events : List PlanEvent}
    (h : p.tried = (offers events).map fun o => (o.step, o.result)) (s : TpStep) :
    Tried p s ↔ s ∈ (offers events).map (·.step) := by
  rw [Tried, h, List.map_map]
  rfl

-- A run of the ladder that ends without an answer and without having used its attempts
-- has nothing left to try.
theorem RunSpec.exhausted {p : TpPlan} {run : PlanRun σ} (h : RunSpec p run) (hstart : p.tried = [])
    (hladder : Ladder p) (hfailed : ∀ o ∈ offers run.events, o.result.answered = false)
    (hroom : (offers run.events).length < TP_MAX_ATTEMPTS) : Exhausted run.plan := by
  have htried : run.plan.tried = (offers run.events).map fun o => (o.step, o.result) := by
    rw [h.tried, hstart, List.nil_append]
  have hladder' : Ladder run.plan :=
    ⟨(congrArg (·.hasHost) h.inputs).trans hladder.host,
      (congrArg (·.manual) h.inputs).trans hladder.manual,
      (congrArg (·.inCooldown) h.inputs).trans hladder.cooldown⟩
  have hlast : run.plan.tried.getLast?.any (·.2.answered) = false := by
    rw [htried, List.getLast?_map, Option.any_map]
    cases hl : (offers run.events).getLast? with
    | none => rfl
    | some o => exact hfailed o (List.mem_of_getLast? hl)
  have hdone := h.done
  rw [tpPlanNext_ladder hladder' (by rw [htried, List.length_map]; exact hroom) hlast] at hdone
  exact nextCached_done hdone

-- Every run ends after four attempts and one lookup at most, offers no step twice,
-- keeps to the rules for trusted and unreachable addresses, and gives up only when
-- there is nothing left to try.
theorem runLoop_plan (p : TpPlan) (s : σ) (hstart : p.tried = []) :
    let run := runLoop answer attempt p s
    let offered := offers run.events
    tpPlanNext run.plan = .done ∧
    offered.length ≤ TP_MAX_ATTEMPTS ∧ lookups run.events ≤ 1 ∧
    (offered.map (·.step)).Nodup ∧
    (∀ o ∈ offered, (o.step.target = .trusted → o.trust = .mismatch) ∧
      (o.step.strategy = .pass ∨ o.step.strategy = .tlsrec ∨ o.step.strategy = .tlsrecSplit)) ∧
    offered.Pairwise (fun earlier later => earlier.result.answered = false ∧
      (earlier.step.target = .original → earlier.result = .connectFail →
        later.step.target ≠ .original)) ∧
    (p.hasHost = true → p.manual = none → p.inCooldown = false →
      (∀ o ∈ offered, o.result.answered = false) → offered.length < TP_MAX_ATTEMPTS →
      (run.plan.trust = .mismatch →
        ∀ strategy ∈ [Strategy.pass, .tlsrec, .tlsrecSplit],
          ⟨.trusted, strategy⟩ ∈ offered.map (·.step)) ∧
      (run.plan.trust ≠ .mismatch →
        (∃ o ∈ offered, o.step.target = .original ∧ o.result = .connectFail) ∨
        (⟨.original, .tlsrec⟩ ∈ offered.map (·.step) ∧ ⟨.original, .tlsrecSplit⟩ ∈ offered.map (·.step) ∧
          (p.directBad = false → ⟨.original, .pass⟩ ∈ offered.map (·.step))))) := by
  intro run offered
  have hspec := runLoop_spec answer attempt p s (planInv_start hstart)
  have htried : run.plan.tried = offered.map fun o => (o.step, o.result) := by
    rw [hspec.tried, hstart, List.nil_append]
  have horder : offered.Pairwise fun a b => Follows (a.step, a.result) (b.step, b.result) := by
    rw [← List.pairwise_map (f := fun o : Offer => (o.step, o.result)) (R := Follows), ← htried]
    exact hspec.inv.order
  refine ⟨hspec.done, ?_, ?_, ?_, ?_, ?_, ?_⟩
  · have hsize := hspec.inv.size
    rwa [htried, List.length_map] at hsize
  · refine hspec.lookups.trans ?_
    split <;> omega
  · rw [List.Nodup, List.pairwise_map]
    exact horder.imp fun h => h.1
  · intro o ho
    refine ⟨hspec.trusted o ho, ?_⟩
    have hmem : (o.step, o.result) ∈ run.plan.tried := by
      rw [htried]
      exact List.mem_map.mpr ⟨o, ho, rfl⟩
    exact hspec.inv.stream _ hmem
  · exact horder.imp fun h => h.2
  · intro hhost hmanual hcool hfailed hroom
    have hbad : run.plan.directBad = p.directBad := congrArg (·.directBad) hspec.inputs
    have hexhausted := hspec.exhausted hstart ⟨hhost, hmanual, hcool⟩ hfailed hroom
    constructor
    · intro hmismatch strategy hs
      obtain ⟨hpass, hrec, hsplit⟩ := hexhausted.mismatch hmismatch
      rw [← tried_iff_offered htried]
      simp only [List.mem_cons, List.not_mem_nil, or_false] at hs
      rcases hs with rfl | rfl | rfl
      · exact hpass
      · exact hrec
      · exact hsplit
    · intro hne
      rcases hexhausted.same hne with hunreachable | ⟨hfirst, hsecond, hdirect⟩
      · obtain ⟨t, ht, htarget, hfail⟩ := (originalUnreachable_iff _).mp hunreachable
        rw [htried] at ht
        obtain ⟨o, ho, rfl⟩ := List.mem_map.mp ht
        exact .inl ⟨o, ho, htarget, hfail⟩
      · exact .inr ⟨(tried_iff_offered htried _).mp hfirst, (tried_iff_offered htried _).mp hsecond,
          fun hgood => (tried_iff_offered htried _).mp (hdirect (hbad.trans hgood))⟩

end Run

-- A host whose every attempt times out while the resolver disagrees.
def silentHost : TpPlan := { tpPlanInit with hasHost := true }

theorem runLoop_plan_silentHost :
    let run := runLoop ⟨.mismatch, by decide⟩ (fun (_ : Unit) _ _ => ((), .timeout)) silentHost ()
    (offers run.events).map (·.step) =
      [⟨.original, .pass⟩, ⟨.trusted, .pass⟩, ⟨.trusted, .tlsrec⟩, ⟨.trusted, .tlsrecSplit⟩] ∧
    tpPlanNext run.plan = .done ∧ lookups run.events ≤ 1 := by
  intro run
  obtain ⟨hdone, -, hlookups, -⟩ := runLoop_plan ⟨.mismatch, by decide⟩
    (fun (_ : Unit) _ _ => ((), .timeout)) silentHost () rfl
  exact ⟨by decide +kernel, hdone, hlookups⟩

-- A property of the plan that every step keeps holds wherever a step is offered.
theorem offer_of_runLoop {σ : Type} {answer : DnsAnswer} {attempt : σ → TpStep → Nat → σ × TpResult}
    (Q : TpPlan → Prop)
    (hdns : ∀ q, Q q → tpPlanNext q = .needDns → Q { q with trust := answer.trust })
    (hrecord : ∀ q step t r, Q q → tpPlanNext q = .attempt step t → Q (tpPlanRecord q step r))
    {p : TpPlan} {s : σ} (h : Q p) :
    ∀ o ∈ offers (runLoop answer attempt p s).events,
      ∃ q t, Q q ∧ tpPlanNext q = .attempt o.step t := by
  induction hleft : remaining p using Nat.strongRecOn generalizing p s with
  | _ left ih =>
      cases hnext : tpPlanNext p with
      | done =>
          rw [runLoop_done s hnext]
          exact fun o ho => absurd ho List.not_mem_nil
      | needDns =>
          rw [runLoop_dns s hnext]
          exact ih _ (hleft ▸ remaining_dns (tpPlanNext_needDns hnext) answer) (hdns p h hnext) rfl
      | attempt step t =>
          have hroom := (tpPlanNext_attempt hnext).room
          have hless := remaining_record hroom step (attempt s step t).2
          rw [runLoop_attempt s hnext]
          by_cases hr : (attempt s step t).2.answered = true
          · rw [if_pos hr]
            intro o ho
            rw [List.mem_singleton.mp ho]
            exact ⟨p, t, h, hnext⟩
          · rw [if_neg hr]
            intro o ho
            rcases List.mem_cons.mp ho with rfl | ho
            · exact ⟨p, t, h, hnext⟩
            · exact ih _ (hleft ▸ hless) (hrecord p step t _ h hnext) rfl o ho

section DirectBad

theorem streamStrategy_pass_iff (s : Strategy) : streamStrategy s = .pass ↔ s = .pass := by
  cases s <;> decide

-- Without a cooldown and a manual PASS the step is the manual one or comes from the
-- ladder.
theorem tpPlanNext_manual {p : TpPlan} {s : TpStep} {t : Nat} (hhost : p.hasHost = true)
    (hcool : p.inCooldown = false) (hmanual : p.manual ≠ some .pass)
    (h : tpPlanNext p = .attempt s t) :
    (∃ m, p.manual = some m ∧ s = normalize p ⟨.trusted, m⟩) ∨
      (p.manual = none ∧ nextCached p = .attempt s t) := by
  have hnot : ¬((!p.hasHost) = true ∨ p.manual.any (fun m => streamStrategy m = .pass) = true) := by
    rw [hhost]
    cases hm : p.manual with
    | none => simp
    | some m =>
        rw [hm] at hmanual
        simpa [streamStrategy_pass_iff] using hmanual
  unfold tpPlanNext at h
  split at h
  · cases h
  split at h
  · cases h
  rw [hcool, if_neg Bool.false_ne_true] at h
  unfold nextManual at h
  split at h
  · rename_i hnone
    exact .inr ⟨hnone, h⟩
  · rename_i m hsome
    split at h
    · cases h
    split at h
    · cases h
    · exact .inl ⟨m, hsome, offer_eq h⟩

-- The inputs of a plan and what the resolver can have said to it.
structure OnTheWay (p : TpPlan) (answer : DnsAnswer) (q : TpPlan) : Prop where
  inputs : { q with trust := p.trust, tried := p.tried } = p
  trust : q.trust = .unknown ∨ q.trust = answer.trust

theorem OnTheWay.dns {p q : TpPlan} {answer : DnsAnswer} (h : OnTheWay p answer q) :
    OnTheWay p answer { q with trust := answer.trust } := ⟨h.inputs, .inr rfl⟩

theorem OnTheWay.record {p q : TpPlan} {answer : DnsAnswer} (h : OnTheWay p answer q) (s : TpStep)
    (r : TpResult) : OnTheWay p answer (tpPlanRecord q s r) := by
  unfold tpPlanRecord
  split
  · exact h
  · exact ⟨h.inputs, h.trust⟩

-- A cached DIRECT step, or a cached PASS to the trusted address that is normalized to
-- the original one.
def CachesDirect (p : TpPlan) (answer : DnsAnswer) : Prop :=
  p.manual = none ∧ ∃ c, p.cached = some c ∧ c.strategy = .pass ∧
    (c.target = .original ∨ answer.trust ≠ .mismatch)

theorem normalize_direct {p : TpPlan} {c : TpStep} (h : normalize p c = direct) :
    c.strategy = .pass ∧ (c.target = .original ∨ p.trust ≠ .mismatch) := by
  have hstrategy : streamStrategy c.strategy = .pass := congrArg (·.strategy) h
  have htarget : (normalize p c).target = .original := congrArg (·.target) h
  refine ⟨(streamStrategy_pass_iff _).mp hstrategy, ?_⟩
  cases hc : c.target with
  | original => exact .inl rfl
  | trusted =>
      right
      intro hmismatch
      rw [normalize, if_neg fun hn => hn.2 hmismatch, hc] at htarget
      cases htarget

theorem direct_not_offered {p q : TpPlan} {answer : DnsAnswer} {t : Nat} (hhost : p.hasHost = true)
    (hbad : p.directBad = true) (hmanual : p.manual ≠ some .pass) (hcool : p.inCooldown = false)
    (hno : ¬CachesDirect p answer) (h : OnTheWay p answer q) : tpPlanNext q ≠ .attempt direct t := by
  intro hnext
  have hm : q.manual = p.manual := congrArg (·.manual) h.inputs
  have hc : q.cached = p.cached := congrArg (·.cached) h.inputs
  have hb : q.directBad = p.directBad := congrArg (·.directBad) h.inputs
  rcases tpPlanNext_manual ((congrArg (·.hasHost) h.inputs).trans hhost)
    ((congrArg (·.inCooldown) h.inputs).trans hcool) (by rwa [hm]) hnext with
    ⟨m, hsome, hstep⟩ | ⟨hnone, hcached⟩
  · have hpass := (normalize_direct hstep.symm).1
    dsimp only at hpass
    rw [hm, hpass] at hsome
    exact hmanual hsome
  · obtain ⟨hknown, ⟨c, hsome, hstep, -⟩ | ⟨-, hgood, -⟩⟩ := nextCached_attempt hcached
    · obtain ⟨hpass, hwhere⟩ := normalize_direct hstep.symm
      refine hno ⟨hm ▸ hnone, c, hc ▸ hsome, hpass, ?_⟩
      cases htarget : c.target with
      | original => exact .inl rfl
      | trusted =>
          right
          rcases h.trust with hu | ha
          · exact absurd hu (hknown c hsome htarget)
          · rw [← ha]
            rcases hwhere with ho | hne
            · rw [htarget] at ho
              cases ho
            · exact hne
    · rw [hb, hbad] at hgood
      cases hgood rfl

-- The first answer for a plan with a cached step.
theorem tpPlanNext_cached {p : TpPlan} (hladder : Ladder p) (hstart : p.tried = []) {c : TpStep}
    (hcached : p.cached = some c) :
    tpPlanNext p = if c.target = .trusted ∧ p.trust = .unknown then .needDns
      else offer (normalize p c) := by
  rw [tpPlanNext_ladder hladder (by rw [hstart]; decide) (by rw [hstart]; rfl), nextCached, hcached]
  dsimp only
  rw [if_pos (c := (wasTried p (normalize p c)).isNone = true) (by rw [wasTried, hstart]; rfl)]

theorem offered_first {p : TpPlan} (answer : DnsAnswer) {step : TpStep}
    (h : tpPlanNext p = offer step) :
    ∃ o ∈ offers (runLoop answer (fun (_ : Unit) _ _ => ((), .timeout)) p ()).events, o.step = step := by
  rw [runLoop_attempt () h]
  exact ⟨⟨p.trust, step, .timeout⟩, List.mem_cons_self, rfl⟩

-- A plan with a bad direct path offers DIRECT in some run exactly when the cached step
-- becomes it.
theorem runLoop_direct_iff (p : TpPlan) (answer : DnsAnswer) (hstart : p.tried = [])
    (htrust : p.trust = .unknown) (hhost : p.hasHost = true) (hbad : p.directBad = true)
    (hmanual : p.manual ≠ some .pass) (hcool : p.inCooldown = false) :
    (∀ (σ : Type) (attempt : σ → TpStep → Nat → σ × TpResult) (s : σ),
      ∀ o ∈ offers (runLoop answer attempt p s).events, o.step ≠ direct) ↔ ¬CachesDirect p answer := by
  constructor
  · rintro hall ⟨hnone, c, hcached, hpass, hwhere⟩
    have hladder : Ladder p := ⟨hhost, hnone, hcool⟩
    have hfirst := tpPlanNext_cached hladder hstart hcached
    have hdirect : ∀ q : TpPlan, c.target = .original ∨ q.trust ≠ .mismatch →
        normalize q c = direct := by
      intro q hq
      rw [normalize, hpass]
      cases htarget : c.target with
      | original => rfl
      | trusted =>
          rcases hq with ho | hne
          · rw [htarget] at ho
            cases ho
          · rw [if_pos ⟨rfl, hne⟩]
            rfl
    by_cases hdns : c.target = .trusted
    · -- the lookup comes first
      rw [if_pos ⟨hdns, htrust⟩] at hfirst
      have hne : answer.trust ≠ .mismatch := by
        rcases hwhere with ho | hne
        · rw [hdns] at ho
          cases ho
        · exact hne
      have hsecond := tpPlanNext_cached (p := { p with trust := answer.trust })
        ⟨hhost, hnone, hcool⟩ hstart hcached
      rw [if_neg fun hu => answer.known hu.2, hdirect _ (.inr hne)] at hsecond
      obtain ⟨o, ho, hstep⟩ := offered_first answer hsecond
      refine hall Unit (fun _ _ _ => ((), .timeout)) () o ?_ hstep
      rw [runLoop_dns () hfirst]
      exact ho
    · rw [if_neg fun hu => hdns hu.1, hdirect] at hfirst
      · obtain ⟨o, ho, hstep⟩ := offered_first answer hfirst
        exact hall Unit _ () o ho hstep
      · cases htarget : c.target with
        | original => exact .inl rfl
        | trusted => exact absurd htarget hdns
  · intro hno σ attempt s o ho hdirect
    obtain ⟨q, t, hq, hnext⟩ := offer_of_runLoop (OnTheWay p answer) (fun q hq _ => hq.dns)
      (fun q step t r hq _ => hq.record step r) ⟨rfl, .inl htrust⟩ o ho
    rw [hdirect] at hnext
    exact direct_not_offered hhost hbad hmanual hcool hno hq hnext

-- A cached PASS to the trusted address, and a resolver that now agrees with the
-- application.
def agreedHost : TpPlan :=
  { tpPlanInit with hasHost := true, directBad := true, cached := some ⟨.trusted, .pass⟩ }

theorem agreedHost_offers_direct :
    agreedHost.hasHost = true ∧ agreedHost.directBad = true ∧ agreedHost.manual = none ∧
    agreedHost.inCooldown = false ∧
    (offers (runLoop ⟨.matched, by decide⟩ (fun (_ : Unit) _ _ => ((), .timeout)) agreedHost ()).events).map
      (·.step) = [direct, ⟨.original, .tlsrec⟩, ⟨.original, .tlsrecSplit⟩] := by
  decide +kernel

theorem runLoop_direct_iff_silentHost :
    ¬CachesDirect { silentHost with directBad := true } ⟨.mismatch, by decide⟩ ∧
    ∀ (σ : Type) (attempt : σ → TpStep → Nat → σ × TpResult) (s : σ),
      ∀ o ∈ offers (runLoop ⟨.mismatch, by decide⟩ attempt { silentHost with directBad := true } s).events,
        o.step ≠ direct := by
  have hno : ¬CachesDirect { silentHost with directBad := true } ⟨.mismatch, by decide⟩ := by
    rintro ⟨-, c, hc, -⟩
    cases hc
  exact ⟨hno, (runLoop_direct_iff { silentHost with directBad := true } ⟨.mismatch, by decide⟩
    rfl rfl rfl rfl (by decide) rfl).mpr hno⟩

end DirectBad

section Manual

-- A plan with a manual rule offers one step.
theorem done_after_first {p : TpPlan} {m : Strategy} (hmanual : p.manual = some m) (hne : p.tried ≠ []) :
    tpPlanNext p = .done := by
  have hpos : p.tried.length > 0 := List.length_pos_iff.mpr hne
  unfold tpPlanNext nextManual
  rw [hmanual]
  dsimp only
  split
  · rfl
  split
  · rfl
  split
  · rw [if_neg (by omega)]
  · rw [ite_self]

theorem offers_one {σ : Type} (answer : DnsAnswer) (attempt : σ → TpStep → Nat → σ × TpResult)
    {p : TpPlan} {m : Strategy} (hmanual : p.manual = some m) (hstart : p.tried = []) {step : TpStep}
    (h : tpPlanNext p = offer step) (s : σ) :
    ∃ r, offers (runLoop answer attempt p s).events = [⟨p.trust, step, r⟩] := by
  refine ⟨(attempt s step TP_REPLY_TIMEOUT_MS).2, ?_⟩
  have hdone : ∀ r, tpPlanNext (tpPlanRecord p step r) = .done := by
    intro r
    rw [tpPlanRecord_eq (by rw [hstart]; decide)]
    exact done_after_first hmanual (by simp)
  rw [runLoop_attempt s h]
  split
  · rfl
  · rw [runLoop_done _ (hdone _)]
    rfl

-- The first answer for a plan with a manual rule.
theorem tpPlanNext_manual_first {p : TpPlan} {m : Strategy} (hhost : p.hasHost = true)
    (hmanual : p.manual = some m) (hstart : p.tried = []) :
    tpPlanNext p =
      if m = .pass then offer direct
      else if p.inCooldown then
        if p.listed then offer ⟨.original, firstBypass p⟩ else offer direct
      else if p.trust = .unknown then .needDns
      else offer (normalize p ⟨.trusted, m⟩) := by
  have hpass : ((!p.hasHost) = true ∨ p.manual.any (fun x => streamStrategy x = .pass) = true) ↔
      m = .pass := by
    rw [hhost, hmanual]
    simp [streamStrategy_pass_iff]
  rw [tpPlanNext, nextManual, hstart, hmanual]
  rw [hmanual] at hpass
  simp only [hpass, List.length_nil, List.getLast?_nil, Option.any_none]
  rfl

-- The strategy of the one step that is offered.
def offeredStrategy (p : TpPlan) (m : Strategy) : Strategy :=
  if m = .pass then .pass
  else if p.inCooldown then
    if p.listed then firstBypass p else .pass
  else streamStrategy m

theorem offers_manual {σ : Type} (answer : DnsAnswer) (attempt : σ → TpStep → Nat → σ × TpResult)
    {p : TpPlan} {m : Strategy} (hhost : p.hasHost = true) (hmanual : p.manual = some m)
    (hstart : p.tried = []) (s : σ) :
    ∃ o, offers (runLoop answer attempt p s).events = [o] ∧ o.step.strategy = offeredStrategy p m := by
  have hfirst := tpPlanNext_manual_first hhost hmanual hstart
  have hone : ∀ step, tpPlanNext p = offer step → step.strategy = offeredStrategy p m →
      ∃ o, offers (runLoop answer attempt p s).events = [o] ∧ o.step.strategy = offeredStrategy p m := by
    intro step hnext hstrategy
    obtain ⟨r, hr⟩ := offers_one answer attempt hmanual hstart hnext s
    exact ⟨_, hr, hstrategy⟩
  by_cases hpass : m = .pass
  · rw [if_pos hpass] at hfirst
    exact hone _ hfirst (by rw [offeredStrategy, if_pos hpass]; rfl)
  by_cases hcool : p.inCooldown = true
  · rw [if_neg hpass, if_pos hcool] at hfirst
    by_cases hlisted : p.listed = true
    · rw [if_pos hlisted] at hfirst
      exact hone _ hfirst (by rw [offeredStrategy, if_neg hpass, if_pos hcool, if_pos hlisted])
    · rw [if_neg hlisted] at hfirst
      exact hone _ hfirst (by rw [offeredStrategy, if_neg hpass, if_pos hcool, if_neg hlisted]; rfl)
  rw [if_neg hpass, if_neg hcool] at hfirst
  have hstrategy : offeredStrategy p m = streamStrategy m := by
    rw [offeredStrategy, if_neg hpass, if_neg hcool]
  by_cases hdns : p.trust = .unknown
  · -- the lookup comes first
    rw [if_pos hdns] at hfirst
    have hsecond := tpPlanNext_manual_first (p := { p with trust := answer.trust }) hhost hmanual hstart
    rw [if_neg hpass, if_neg hcool, if_neg answer.known] at hsecond
    obtain ⟨r, hr⟩ := offers_one answer attempt (p := { p with trust := answer.trust })
      hmanual hstart hsecond s
    rw [runLoop_dns s hfirst, hstrategy]
    exact ⟨_, hr, rfl⟩
  · rw [if_neg hdns] at hfirst
    exact hone _ hfirst hstrategy.symm

-- A manual rule decides the only step, and the connection is not passed through
-- instead, exactly when no cooldown comes before it.
theorem manual_wins_iff (p : TpPlan) (m : Strategy) (answer : DnsAnswer) (hhost : p.hasHost = true)
    (hmanual : p.manual = some m) (hstart : p.tried = []) :
    ((∀ (σ : Type) (attempt : σ → TpStep → Nat → σ × TpResult) (s : σ),
        ∃ o, offers (runLoop answer attempt p s).events = [o] ∧ o.step.strategy = streamStrategy m) ∧
      (takesPassthrough p = true → m = .pass)) ↔
    (m = .pass ∨ p.inCooldown = false ∨ (p.listed = true ∧ firstBypass p = streamStrategy m)) := by
  have hpassthrough : takesPassthrough p = true ↔
      (p.inCooldown = true ∧ p.listed = false) ∨ m = .pass := by
    simp [takesPassthrough, hhost, hmanual]
  constructor
  · rintro ⟨hrun, hkept⟩
    obtain ⟨o, ho, hstream⟩ := hrun Unit (fun _ _ _ => ((), .timeout)) ()
    obtain ⟨o', ho', hoffered⟩ := offers_manual answer (fun (_ : Unit) _ _ => ((), .timeout)) hhost
      hmanual hstart ()
    obtain rfl := List.singleton_inj.mp (ho.symm.trans ho')
    by_cases hpass : m = .pass
    · exact .inl hpass
    by_cases hcool : p.inCooldown = true
    · right
      right
      have hlisted : p.listed = true := by
        by_contra hnot
        exact hpass (hkept (hpassthrough.mpr (.inl ⟨hcool, Bool.eq_false_iff.mpr hnot⟩)))
      rw [hstream, offeredStrategy, if_neg hpass, if_pos hcool, if_pos hlisted] at hoffered
      exact ⟨hlisted, hoffered.symm⟩
    · exact .inr (.inl (Bool.eq_false_iff.mpr hcool))
  · intro hcond
    constructor
    · intro σ attempt s
      obtain ⟨o, ho, hoffered⟩ := offers_manual answer attempt hhost hmanual hstart s
      refine ⟨o, ho, hoffered.trans ?_⟩
      rw [offeredStrategy]
      by_cases hpass : m = .pass
      · rw [if_pos hpass, hpass]
        rfl
      rw [if_neg hpass]
      rcases hcond with hp | hcool | ⟨hlisted, hfirst⟩
      · exact absurd hp hpass
      · rw [hcool, if_neg Bool.false_ne_true]
      · rw [if_pos hlisted, hfirst, ite_self]
    · intro htakes
      rcases hpassthrough.mp htakes with ⟨hcool, hlisted⟩ | hpass
      · rcases hcond with hp | hc | ⟨hl, -⟩
        · exact hp
        · rw [hcool] at hc
          cases hc
        · rw [hlisted] at hl
          cases hl
      · exact hpass

-- A rule that is added while its host is in cooldown.
def cooledHost : TpPlan := { tpPlanInit with hasHost := true, manual := some .tlsrec, inCooldown := true }

theorem cooledHost_passes_through :
    cooledHost.hasHost = true ∧ cooledHost.manual = some .tlsrec ∧ takesPassthrough cooledHost = true ∧
    (offers (runLoop ⟨.matched, by decide⟩ (fun (_ : Unit) _ _ => ((), .ok)) cooledHost ()).events).map
      (·.step) = [direct] ∧ tpPlanSource cooledHost = .manual := by
  decide +kernel

theorem manual_wins_iff_fresh :
    (∀ (σ : Type) (attempt : σ → TpStep → Nat → σ × TpResult) (s : σ),
      ∃ o, offers (runLoop ⟨.matched, by decide⟩ attempt { cooledHost with inCooldown := false } s).events =
        [o] ∧ o.step.strategy = streamStrategy .tlsrec) ∧
    (takesPassthrough { cooledHost with inCooldown := false } = true → Strategy.tlsrec = .pass) :=
  (manual_wins_iff { cooledHost with inCooldown := false } .tlsrec ⟨.matched, by decide⟩ rfl rfl rfl).mpr
    (.inr (.inl rfl))

end Manual

end DpiProxy.Transparent
