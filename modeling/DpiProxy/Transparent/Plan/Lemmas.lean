import DpiProxy.Transparent.Plan

namespace DpiProxy.Transparent

-- The strategies that mean something for a stream.
def IsStream (s : Strategy) : Prop := s = .pass ∨ s = .tlsrec ∨ s = .tlsrecSplit

theorem isStream_streamStrategy (s : Strategy) : IsStream (streamStrategy s) := by
  cases s <;> simp [IsStream, streamStrategy]

-- The two bypasses are TLSREC and TLSREC_SPLIT, in one order or the other.
theorem bypasses (p : TpPlan) :
    (firstBypass p = .tlsrec ∧ secondBypass p = .tlsrecSplit) ∨
      (firstBypass p = .tlsrecSplit ∧ secondBypass p = .tlsrec) := by
  unfold secondBypass firstBypass
  split <;> simp

theorem firstBypass_cases (p : TpPlan) : firstBypass p = .tlsrec ∨ firstBypass p = .tlsrecSplit := by
  rcases bypasses p with ⟨h, -⟩ | ⟨h, -⟩
  · exact .inl h
  · exact .inr h

def Tried (p : TpPlan) (s : TpStep) : Prop := s ∈ p.tried.map (·.1)

theorem wasTried_isNone_iff (p : TpPlan) (s : TpStep) : (wasTried p s).isNone = true ↔ ¬Tried p s := by
  rw [wasTried, Option.isNone_map, Option.isNone_iff_eq_none, List.find?_eq_none, Tried, List.mem_map]
  constructor
  · rintro h ⟨t, ht, rfl⟩
    exact h t ht (decide_eq_true rfl)
  · intro h t ht hs
    exact h ⟨t, ht, of_decide_eq_true hs⟩

theorem tried_of_wasTried {p : TpPlan} {s : TpStep} {r : TpResult} (h : wasTried p s = some r) :
    (s, r) ∈ p.tried := by
  obtain ⟨t, hfind, rfl⟩ := Option.map_eq_some_iff.mp h
  have hs : t.1 = s := by simpa using List.find?_some hfind
  rw [← hs]
  exact List.mem_of_find?_eq_some hfind

theorem originalUnreachable_iff (p : TpPlan) : originalUnreachable p = true ↔
    ∃ t ∈ p.tried, t.1.target = .original ∧ t.2 = .connectFail := by
  simp [originalUnreachable]

-- What an offer of the ladder keeps to.
structure Sound (p : TpPlan) (s : TpStep) : Prop where
  fresh : ¬Tried p s
  trusted : s.target = .trusted → p.trust = .mismatch
  stream : IsStream s.strategy
  reachable : s.target = .original → originalUnreachable p = false

theorem nextBypass_some {p : TpPlan} {target : TpTarget} {s : TpStep}
    (h : nextBypass p target = some s) :
    s.target = target ∧ ¬Tried p s ∧ (s.strategy = .tlsrec ∨ s.strategy = .tlsrecSplit) := by
  unfold nextBypass at h
  split at h
  · rename_i hfirst
    obtain rfl := Option.some.inj h
    exact ⟨rfl, (wasTried_isNone_iff _ _).mp hfirst, firstBypass_cases p⟩
  · split at h
    · rename_i hsecond
      obtain rfl := Option.some.inj h
      refine ⟨rfl, (wasTried_isNone_iff _ _).mp hsecond, ?_⟩
      rcases bypasses p with ⟨-, hs⟩ | ⟨-, hs⟩
      · exact .inr hs
      · exact .inl hs
    · cases h

theorem nextBypass_none {p : TpPlan} {target : TpTarget} (h : nextBypass p target = none) :
    Tried p ⟨target, .tlsrec⟩ ∧ Tried p ⟨target, .tlsrecSplit⟩ := by
  unfold nextBypass at h
  split at h
  · cases h
  · rename_i hfirst
    split at h
    · cases h
    · rename_i hsecond
      rw [wasTried_isNone_iff, not_not] at hfirst hsecond
      rcases bypasses p with ⟨hf, hs⟩ | ⟨hf, hs⟩
      · rw [hf] at hfirst
        rw [hs] at hsecond
        exact ⟨hfirst, hsecond⟩
      · rw [hf] at hfirst
        rw [hs] at hsecond
        exact ⟨hsecond, hfirst⟩

theorem offer_eq {s s' : TpStep} {t : Nat} (h : offer s = .attempt s' t) : s' = s := by
  cases h
  rfl

theorem direct_ne_bypass {s : TpStep} (h : s.strategy = .tlsrec ∨ s.strategy = .tlsrecSplit) :
    s ≠ direct := by
  rintro rfl
  rcases h with h | h <;> cases h

theorem nextAfterDirect_attempt {p : TpPlan} {r : TpResult} {s : TpStep} {t : Nat}
    (h : nextAfterDirect p r = .attempt s t) : Sound p s ∧ s ≠ direct := by
  unfold nextAfterDirect at h
  split at h
  · cases h
  split at h
  · rename_i hmismatch
    split at h
    · rename_i hfresh
      obtain rfl := offer_eq h
      exact ⟨⟨(wasTried_isNone_iff _ _).mp hfresh, fun _ => hmismatch, .inl rfl, nofun⟩, by decide⟩
    · split at h
      · rename_i s' hnext
        obtain rfl := offer_eq h
        obtain ⟨htarget, hfresh, hbypass⟩ := nextBypass_some hnext
        refine ⟨⟨hfresh, fun _ => hmismatch, .inr hbypass, fun ho => ?_⟩, direct_ne_bypass hbypass⟩
        exact absurd (htarget.symm.trans ho) (by decide)
      · cases h
  · split at h
    · cases h
    · rename_i hreach
      split at h
      · rename_i s' hnext
        obtain rfl := offer_eq h
        obtain ⟨htarget, hfresh, hbypass⟩ := nextBypass_some hnext
        refine ⟨⟨hfresh, fun ht => ?_, .inr hbypass, fun _ => ?_⟩, direct_ne_bypass hbypass⟩
        · exact absurd (htarget.symm.trans ht) (by decide)
        · exact Bool.eq_false_iff.mpr fun hu => hreach (.inr hu)
      · cases h

-- The ladder after a failed DIRECT ends with everything tried that can help.
theorem nextAfterDirect_done {p : TpPlan} {r : TpResult} (h : nextAfterDirect p r = .done) :
    (p.trust = .mismatch ∧ Tried p ⟨.trusted, .pass⟩ ∧ Tried p ⟨.trusted, .tlsrec⟩ ∧
      Tried p ⟨.trusted, .tlsrecSplit⟩) ∨
    (p.trust ≠ .mismatch ∧ (r = .connectFail ∨ originalUnreachable p = true ∨
      (Tried p ⟨.original, .tlsrec⟩ ∧ Tried p ⟨.original, .tlsrecSplit⟩))) := by
  unfold nextAfterDirect at h
  split at h
  · cases h
  split at h
  · rename_i hmismatch
    split at h
    · cases h
    · rename_i hpass
      rw [wasTried_isNone_iff, not_not] at hpass
      split at h
      · cases h
      · rename_i hnext
        exact .inl ⟨hmismatch, hpass, nextBypass_none hnext⟩
  · rename_i hmismatch
    refine .inr ⟨hmismatch, ?_⟩
    split at h
    · rename_i hend
      rcases hend with hr | hu
      · exact .inl hr
      · exact .inr (.inl hu)
    · split at h
      · cases h
      · rename_i hnext
        exact .inr (.inr (nextBypass_none hnext))

theorem nextDirect_attempt {p : TpPlan} {s : TpStep} {t : Nat} (h : nextDirect p = .attempt s t) :
    Sound p s ∧ (s = direct → p.directBad = false) := by
  unfold nextDirect at h
  split at h
  · exact ⟨(nextAfterDirect_attempt h).1, fun hd => absurd hd (nextAfterDirect_attempt h).2⟩
  · rename_i hbad
    refine ⟨?_, fun _ => Bool.eq_false_iff.mpr hbad⟩
    split at h
    · exact (nextAfterDirect_attempt h).1
    · rename_i hunreachable
      split at h
      · rename_i hnone
        obtain rfl := offer_eq h
        have hfresh : (wasTried p direct).isNone = true := by rw [hnone]; rfl
        refine ⟨(wasTried_isNone_iff _ _).mp hfresh, nofun, .inl rfl, fun _ => ?_⟩
        exact Bool.eq_false_iff.mpr fun hu => hunreachable ⟨hu, hfresh⟩
      · exact (nextAfterDirect_attempt h).1

-- The end of the ladder.
structure Exhausted (p : TpPlan) : Prop where
  mismatch : p.trust = .mismatch → Tried p ⟨.trusted, .pass⟩ ∧ Tried p ⟨.trusted, .tlsrec⟩ ∧
    Tried p ⟨.trusted, .tlsrecSplit⟩
  same : p.trust ≠ .mismatch → originalUnreachable p = true ∨
    (Tried p ⟨.original, .tlsrec⟩ ∧ Tried p ⟨.original, .tlsrecSplit⟩ ∧
      (p.directBad = false → Tried p direct))

theorem exhausted_of_done {p : TpPlan} {r : TpResult} (h : nextAfterDirect p r = .done)
    (hfail : r = .connectFail → originalUnreachable p = true)
    (hdirect : originalUnreachable p = false → p.directBad = false → Tried p direct) :
    Exhausted p := by
  rcases nextAfterDirect_done h with ⟨hmismatch, htried⟩ | ⟨hsame, hend⟩
  · exact ⟨fun _ => htried, fun hne => absurd hmismatch hne⟩
  · refine ⟨fun he => absurd he hsame, fun _ => ?_⟩
    rcases hend with hr | hu | ⟨hfirst, hsecond⟩
    · exact .inl (hfail hr)
    · exact .inl hu
    · by_cases hu : originalUnreachable p = true
      · exact .inl hu
      · exact .inr ⟨hfirst, hsecond, hdirect (Bool.eq_false_iff.mpr hu)⟩

theorem nextDirect_done {p : TpPlan} (h : nextDirect p = .done) : Exhausted p := by
  unfold nextDirect at h
  split at h
  · rename_i hbad
    exact exhausted_of_done h nofun fun _ hgood => by rw [hbad] at hgood; cases hgood
  · split at h
    · rename_i hunreachable
      refine exhausted_of_done h (fun _ => hunreachable.1) fun hreach => ?_
      rw [hunreachable.1] at hreach
      cases hreach
    · split at h
      · cases h
      · rename_i r htried
        have hmem := tried_of_wasTried htried
        refine exhausted_of_done h ?_ fun _ _ => List.mem_map.mpr ⟨_, hmem, rfl⟩
        rintro rfl
        exact (originalUnreachable_iff p).mpr ⟨_, hmem, rfl, rfl⟩

theorem nextListed_attempt {p : TpPlan} {s : TpStep} {t : Nat} (h : nextListed p = .attempt s t) :
    Sound p s ∧ (s = direct → p.directBad = false) := by
  unfold nextListed at h
  split at h
  · rename_i hlisted
    split at h
    · rename_i s' hnext
      obtain rfl := offer_eq h
      obtain ⟨htarget, hfresh, hbypass⟩ := nextBypass_some hnext
      refine ⟨⟨hfresh, fun ht => ?_, .inr hbypass, fun _ => by simpa using hlisted.2⟩,
        fun hd => absurd hd (direct_ne_bypass hbypass)⟩
      exact absurd (htarget.symm.trans ht) (by decide)
    · exact nextDirect_attempt h
  · exact nextDirect_attempt h

theorem nextListed_done {p : TpPlan} (h : nextListed p = .done) : Exhausted p := by
  unfold nextListed at h
  split at h
  · split at h
    · cases h
    · exact nextDirect_done h
  · exact nextDirect_done h

-- The cached step is offered before anything else.
theorem nextCached_attempt {p : TpPlan} {s : TpStep} {t : Nat} (h : nextCached p = .attempt s t) :
    (∀ c, p.cached = some c → c.target = .trusted → p.trust ≠ .unknown) ∧
    ((∃ c, p.cached = some c ∧ s = normalize p c ∧ ¬Tried p s) ∨
      (Sound p s ∧ (s = direct → p.directBad = false) ∧
        ∀ c, p.cached = some c → Tried p (normalize p c))) := by
  unfold nextCached at h
  split at h
  · rename_i hnone
    have hno : ∀ c, p.cached ≠ some c := by
      intro c hc
      rw [hnone] at hc
      cases hc
    exact ⟨fun c hc => absurd hc (hno c), .inr ⟨(nextListed_attempt h).1, (nextListed_attempt h).2,
      fun c hc => absurd hc (hno c)⟩⟩
  · rename_i c hsome
    split at h
    · cases h
    · rename_i hdns
      constructor
      · intro c' hc' htarget hunknown
        obtain rfl := Option.some.inj (hsome.symm.trans hc')
        exact hdns ⟨htarget, hunknown⟩
      · split at h
        · rename_i hfresh
          obtain rfl := offer_eq h
          exact .inl ⟨c, hsome, rfl, (wasTried_isNone_iff _ _).mp hfresh⟩
        · rename_i htried
          rw [wasTried_isNone_iff, not_not] at htried
          refine .inr ⟨(nextListed_attempt h).1, (nextListed_attempt h).2, fun c' hc' => ?_⟩
          obtain rfl := Option.some.inj (hsome.symm.trans hc')
          exact htried

theorem nextCached_done {p : TpPlan} (h : nextCached p = .done) : Exhausted p := by
  unfold nextCached at h
  split at h
  · exact nextListed_done h
  · split at h
    · cases h
    · split at h
      · cases h
      · exact nextListed_done h

-- The two places where tp_plan_next offers one fixed step do so at the start.
theorem sound_first {p : TpPlan} {s : TpStep} (hfirst : p.tried = [])
    (htrusted : s.target = .trusted → p.trust = .mismatch) (hstream : IsStream s.strategy) :
    Sound p s := by
  refine ⟨?_, htrusted, hstream, fun _ => ?_⟩
  · rw [Tried, hfirst]
    exact List.not_mem_nil
  · rw [originalUnreachable, hfirst]
    rfl

theorem normalize_trusted {p : TpPlan} {s : TpStep} (h : (normalize p s).target = .trusted) :
    p.trust = .mismatch := by
  unfold normalize at h
  dsimp only at h
  split at h
  · cases h
  · rename_i hsame
    by_contra hne
    exact hsame ⟨h, hne⟩

-- A plan that walks the ladder.
structure Ladder (p : TpPlan) : Prop where
  host : p.hasHost = true
  manual : p.manual = none
  cooldown : p.inCooldown = false

theorem tpPlanNext_ladder {p : TpPlan} (h : Ladder p) (hroom : p.tried.length < TP_MAX_ATTEMPTS)
    (hopen : p.tried.getLast?.any (·.2.answered) = false) : tpPlanNext p = nextCached p := by
  rw [tpPlanNext, if_neg (by omega), if_neg (by rw [hopen]; exact Bool.false_ne_true), if_neg,
    h.cooldown, if_neg Bool.false_ne_true, nextManual, h.manual]
  rw [h.host, h.manual]
  simp

-- What an offer of tp_plan_next says about the plan.
structure Offered (p : TpPlan) (s : TpStep) : Prop where
  room : p.tried.length < TP_MAX_ATTEMPTS
  unanswered : p.tried.getLast?.any (·.2.answered) = false
  kind : (p.tried = [] ∧ Sound p s ∧ ¬Ladder p) ∨ (Ladder p ∧ ∃ t, nextCached p = .attempt s t)

theorem tpPlanNext_attempt {p : TpPlan} {s : TpStep} {t : Nat} (h : tpPlanNext p = .attempt s t) :
    Offered p s := by
  unfold tpPlanNext at h
  split at h
  · cases h
  rename_i hroom
  split at h
  · cases h
  rename_i hopen
  refine ⟨by omega, Bool.eq_false_iff.mpr hopen, ?_⟩
  split at h
  · rename_i hpass
    split at h
    · rename_i hfirst
      obtain rfl := offer_eq h
      refine .inl ⟨List.length_eq_zero_iff.mp hfirst, sound_first (List.length_eq_zero_iff.mp hfirst)
        nofun (.inl rfl), fun hl => ?_⟩
      rw [hl.host, hl.manual] at hpass
      simp at hpass
    · cases h
  rename_i hhost
  split at h
  · rename_i hcool
    have hnot : ¬Ladder p := fun hl => by
      rw [hl.cooldown] at hcool
      cases hcool
    split at h
    · cases h
    rename_i hfirst
    have hnil : p.tried = [] := List.length_eq_zero_iff.mp (by omega)
    split at h
    · obtain rfl := offer_eq h
      exact .inl ⟨hnil, sound_first hnil nofun (.inr (firstBypass_cases p)), hnot⟩
    · obtain rfl := offer_eq h
      exact .inl ⟨hnil, sound_first hnil nofun (.inl rfl), hnot⟩
  rename_i hcool
  unfold nextManual at h
  split at h
  · rename_i hmanual
    have hladder : Ladder p := ⟨by simpa using (not_or.mp hhost).1, hmanual, Bool.eq_false_iff.mpr hcool⟩
    exact .inr ⟨hladder, t, h⟩
  · rename_i manual hmanual
    split at h
    · cases h
    rename_i hfirst
    have hnil : p.tried = [] := List.length_eq_zero_iff.mp (by omega)
    split at h
    · cases h
    · obtain rfl := offer_eq h
      refine .inl ⟨hnil, sound_first hnil normalize_trusted (isStream_streamStrategy _), fun hl => ?_⟩
      rw [hl.manual] at hmanual
      cases hmanual

theorem nextAfterDirect_needDns {p : TpPlan} {r : TpResult} (h : nextAfterDirect p r = .needDns) :
    p.trust = .unknown := by
  unfold nextAfterDirect at h
  split at h
  · assumption
  split at h
  · split at h
    · cases h
    · split at h <;> cases h
  · split at h
    · cases h
    · split at h <;> cases h

theorem nextDirect_needDns {p : TpPlan} (h : nextDirect p = .needDns) : p.trust = .unknown := by
  unfold nextDirect at h
  split at h
  · exact nextAfterDirect_needDns h
  split at h
  · exact nextAfterDirect_needDns h
  split at h
  · cases h
  · exact nextAfterDirect_needDns h

theorem nextCached_needDns {p : TpPlan} (h : nextCached p = .needDns) : p.trust = .unknown := by
  have hlisted : nextListed p = .needDns → p.trust = .unknown := by
    intro hl
    unfold nextListed at hl
    split at hl
    · split at hl
      · cases hl
      · exact nextDirect_needDns hl
    · exact nextDirect_needDns hl
  unfold nextCached at h
  split at h
  · exact hlisted h
  split at h
  · rename_i hdns
    exact hdns.2
  split at h
  · cases h
  · exact hlisted h

-- The lookup happens once: afterwards the trust is known.
theorem tpPlanNext_needDns {p : TpPlan} (h : tpPlanNext p = .needDns) : p.trust = .unknown := by
  unfold tpPlanNext at h
  split at h
  · cases h
  split at h
  · cases h
  split at h
  · split at h <;> cases h
  split at h
  · split at h
    · cases h
    · split at h <;> cases h
  unfold nextManual at h
  split at h
  · exact nextCached_needDns h
  split at h
  · cases h
  split at h
  · assumption
  · cases h

end DpiProxy.Transparent
