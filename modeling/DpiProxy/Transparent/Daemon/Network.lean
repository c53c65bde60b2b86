import DpiProxy.Transparent.Daemon.Lemmas
import DpiProxy.Transparent.Decisions.Lemmas

namespace DpiProxy.Transparent

open Wire

-- The fingerprint of whoever wrote a place last.
def lastWriter (writes : List Write) (place : Place) : Option UInt64 :=
  ((writes.filter (·.place = place)).getLast?).map (·.fp)

theorem lastWriter_concat (writes : List Write) (w : Write) (place : Place) :
    lastWriter (writes ++ [w]) place = if w.place = place then some w.fp else lastWriter writes place := by
  rw [lastWriter, List.filter_append]
  by_cases h : w.place = place
  · rw [if_pos h, List.filter_singleton, decide_eq_true h]
    simp
  · rw [if_neg h, List.filter_singleton, decide_eq_false h]
    simp [lastWriter]

-- Every live cooldown, every live mark and the preferred bypass come from a connection
-- or a job of the network the daemon is on.
structure Learned (now : Int64) (s : Daemon) (writes : List Write) : Prop where
  cooldowns : ∀ i c, s.dec.cooldown[i]? = some c → c.host ≠ [] → now < c.expires →
    lastWriter writes (.cooldown i) = some s.fp
  marks : ∀ i m, s.dec.directBad[i]? = some m → m.host ≠ [] → now < m.expires →
    lastWriter writes (.mark i) = some s.fp
  preferred : s.preferred ≠ .pass → lastWriter writes .preferred = some s.fp

-- The steps of a connection that write without another look at the fingerprint
-- find it as they left it. A commit of a step without a bypass writes nothing, or the
-- value of a reset.
def timely (s : Daemon) : Event → Bool
  | .commit id _ =>
      (s.threads[id]?).all fun t =>
        match t.phase with
        | .answered step => step.strategy == .pass || t.conn.fp == s.fp
        | _ => true
  | .fail id _ =>
      (s.threads[id]?).all fun t =>
        t.phase != .planning || tpPlanNext t.conn.plan != .done || t.conn.plan.manual.isSome ||
          t.conn.fp == s.fp
  | _ => true

def timelyRun (s : Daemon) : List Event → Bool
  | [] => true
  | e :: es => timely s e && timelyRun (daemonStep s e).1 es

section Step

variable {now : Int64} {s : Daemon} {writes : List Write}

-- A state with the same network and the same preference, and no new entry.
theorem Learned.keep (h : Learned now s writes) {s' : Daemon} (hfp : s'.fp = s.fp)
    (hpreferred : s'.preferred = s.preferred)
    (hcooldown : ∀ (i : Nat) (c : TpCooldown), s'.dec.cooldown[i]? = some c → c.host ≠ [] →
      s.dec.cooldown[i]? = some c)
    (hmarks : s'.dec.directBad = s.dec.directBad) : Learned now s' writes := by
  refine ⟨fun i c hc hne hlive => ?_, fun i m hm hne hlive => ?_, fun hne => ?_⟩
  · rw [hfp]
    exact h.cooldowns i c (hcooldown i c hc hne) hne hlive
  · rw [hfp]
    exact h.marks i m (hmarks ▸ hm) hne hlive
  · rw [hfp]
    exact h.preferred (hpreferred ▸ hne)

theorem Learned.success (h : Learned now s writes) {s' : Daemon} {host : Bytes} {fp : UInt64}
    {family : Int32} {time : Int64} {step : TpStep} (hfp : s'.fp = s.fp)
    (hpreferred : s'.preferred = s.preferred)
    (hdec : s'.dec = tpDecisionSuccess s.dec host fp family time step) : Learned now s' writes := by
  obtain ⟨hcooldown, hmarks⟩ := success_tables s.dec host fp family time step
  refine h.keep hfp hpreferred (fun i c hc hne => ?_) (by rw [hdec, hmarks])
  rw [hdec, hcooldown] at hc
  exact clearCooldown_used s.dec host hc hne

theorem Learned.write (h : Learned now s writes) {s' : Daemon} {w : Write} (hw : w.fp = s.fp)
    (hfp : s'.fp = s.fp)
    (hpreferred : w.place = .preferred ∨ s'.preferred = s.preferred)
    (hcooldown : ∀ i : Nat, w.place = .cooldown i ∨ s'.dec.cooldown[i]? = s.dec.cooldown[i]?)
    (hmarks : ∀ i : Nat, w.place = .mark i ∨ s'.dec.directBad[i]? = s.dec.directBad[i]?) :
    Learned now s' (writes ++ [w]) := by
  have hlast : ∀ place, w.place = place ∨ lastWriter writes place = some s.fp →
      lastWriter (writes ++ [w]) place = some s.fp := by
    intro place hplace
    rw [lastWriter_concat]
    split
    · rw [hw]
    · exact hplace.resolve_left ‹_›
  rw [← hfp] at hlast
  refine ⟨fun i c hc hne hlive => hlast _ ?_, fun i m hm hne hlive => hlast _ ?_,
    fun hne => hlast _ ?_⟩
  · rw [hfp]
    exact (hcooldown i).imp_right fun hsame => h.cooldowns i c (hsame.symm.trans hc) hne hlive
  · rw [hfp]
    exact (hmarks i).imp_right fun hsame => h.marks i m (hsame.symm.trans hm) hne hlive
  · rw [hfp]
    exact hpreferred.imp_right fun hsame => h.preferred fun hpass => hne (hsame.trans hpass)

theorem commit_learned (h : Learned now s writes) {id : Nat} {t : Thread} {step : TpStep} {time : Int64}
    (htimely : step.strategy = .pass ∨ t.conn.fp = s.fp) (phase : Phase) :
    Learned now (setThread (commitLocked s t.conn step time).1 id t.conn phase)
      (writes ++ (commitLocked s t.conn step time).2.toList) := by
  unfold commitLocked
  by_cases hdirect : isDirect step = true
  · rw [if_pos hdirect]
    split
    · rw [Option.toList_none, List.append_nil]
      exact h.success rfl rfl rfl
    · rw [Option.toList_none, List.append_nil]
      exact h.keep rfl rfl (fun _ _ hc _ => hc) rfl
  · rw [if_neg hdirect]
    obtain hpass | hcurrent := htimely
    · -- The preferred bypass is reset once more.
      have hother : ∀ place, place ≠ .preferred →
          lastWriter (writes ++ [⟨.preferred, t.conn.fp⟩]) place = lastWriter writes place := by
        intro place hne
        rw [lastWriter_concat, if_neg hne.symm]
      refine ⟨fun i c hc hne hlive => ?_, fun i m hm hne hlive => ?_, fun hne => absurd hpass hne⟩
      · exact (hother (.cooldown i) (by simp)).trans (h.cooldowns i c hc hne hlive)
      · exact (hother (.mark i) (by simp)).trans (h.marks i m hm hne hlive)
    · exact h.write hcurrent rfl (.inl rfl) (fun _ => .inr rfl) (fun _ => .inr rfl)

theorem fail_learned (h : Learned now s writes) {id : Nat} {t : Thread} {time : Int64}
    (htimely : t.conn.plan.manual.isSome = true ∨ t.conn.fp = s.fp) (phase : Phase) :
    Learned now (setThread (failLocked s t.conn time).1 id t.conn phase)
      (writes ++ (failLocked s t.conn time).2.toList) := by
  obtain ⟨hcooldown, hmarks⟩ :=
    failure_tables s.dec t.conn.host t.conn.fp t.conn.family.number time
  unfold failLocked
  by_cases hmanual : t.conn.plan.manual.isNone = true
  · rw [if_pos hmanual]
    have hfp : t.conn.fp = s.fp := by
      refine htimely.resolve_left fun hsome => ?_
      rw [Option.isNone_iff_eq_none.mp hmanual] at hsome
      cases hsome
    by_cases hlen : t.conn.host.length < STRATEGY_DOMAIN_MAX
    · rw [if_pos hlen] at hcooldown ⊢
      refine h.write hfp rfl (.inr rfl) (fun i => ?_) (fun i => .inr ?_)
      · by_cases hi : cooldownSlot s.dec t.conn.host time = i
        · exact .inl (congrArg Place.cooldown hi)
        · refine .inr ?_
          show (tpDecisionFailure s.dec _ _ _ _).cooldown[i]? = _
          rw [hcooldown, List.getElem?_set_ne hi]
      · show (tpDecisionFailure s.dec _ _ _ _).directBad[i]? = _
        rw [hmarks]
    · rw [if_neg hlen] at hcooldown ⊢
      rw [Option.toList_none, List.append_nil]
      refine h.keep rfl rfl (fun i c hc _ => ?_) hmarks
      rw [← hcooldown]
      exact hc
  · rw [if_neg hmanual, Option.toList_none, List.append_nil]
    exact h.keep rfl rfl (fun _ _ hc _ => hc) rfl

theorem applyResult_learned (h : Learned now s writes) (job : VerifyJob) (r : ProbeResult)
    (time : Int64) :
    Learned now (applyResult s job r time).1 (writes ++ (applyResult s job r time).2.toList) := by
  obtain ⟨hcooldown, hmarks⟩ := mark_tables s.dec job.host job.fp job.family time
  unfold applyResult
  split
  · rename_i hcurrent
    by_cases hskip : job.fp = NETFP_UNKNOWN ∨ job.host.length ≥ STRATEGY_DOMAIN_MAX
    · rw [if_pos hskip] at hmarks ⊢
      rw [Option.toList_none, List.append_nil]
      refine h.keep rfl rfl (fun i c hc _ => ?_) hmarks
      rw [← hcooldown]
      exact hc
    · rw [if_neg hskip] at hmarks ⊢
      refine h.write hcurrent.1.symm rfl (.inr rfl) (fun i => .inr ?_) (fun i => ?_)
      · show (tpDirectBadMark s.dec _ _ _ _).cooldown[i]? = _
        rw [hcooldown]
      · by_cases hi : markSlot s.dec job.host job.fp job.family time = i
        · exact .inl (congrArg Place.mark hi)
        · refine .inr ?_
          show (tpDirectBadMark s.dec _ _ _ _).directBad[i]? = _
          rw [hmarks, List.getElem?_set_ne hi]
  · split
    · rw [Option.toList_none, List.append_nil]
      exact h.success rfl rfl rfl
    · rw [Option.toList_none, List.append_nil]
      exact h

-- On another network nothing is live, and nothing is preferred.
theorem checkNetwork_learned (h : Learned now s writes) (fp : UInt64) :
    Learned now (checkNetwork s fp) writes := by
  unfold checkNetwork
  split
  · refine ⟨fun i c hc hne _ => ?_, fun i m hm hne _ => ?_, fun hne => absurd rfl hne⟩
    · obtain ⟨-, rfl⟩ := List.mem_replicate.mp (List.mem_of_getElem? hc)
      exact absurd rfl hne
    · obtain ⟨-, rfl⟩ := List.mem_replicate.mp (List.mem_of_getElem? hm)
      exact absurd rfl hne
  · exact h

theorem step_learned (h : Learned now s writes) (e : Event) (htimely : timely s e = true) :
    Learned now (daemonStep s e).1 (writes ++ (daemonStep s e).2.toList) := by
  have hturn := daemonStep_turn s e
  generalize (daemonStep s e).1 = s', (daemonStep s e).2 = w at hturn ⊢
  have hquiet : ∀ {s' : Daemon}, s'.fp = s.fp → s'.preferred = s.preferred → s'.dec = s.dec →
      Learned now s' (writes ++ (none : Option Write).toList) := by
    intro s' hfp hpreferred hdec
    rw [Option.toList_none, List.append_nil]
    exact h.keep hfp hpreferred (fun _ _ hc _ => hdec ▸ hc) (by rw [hdec])
  cases hturn with
  | idle => exact hquiet rfl rfl rfl
  | accept => exact hquiet rfl rfl rfl
  | fillPlan => exact hquiet rfl rfl rfl
  | resolveTrusted => exact hquiet rfl rfl rfl
  | attempt => exact hquiet rfl rfl rfl
  | fail time ht hphase hnext =>
      apply fail_learned h
      simpa [timely, ht, hphase, hnext] using htimely
  | commit time ht hphase =>
      apply commit_learned h
      simpa [timely, ht, hphase] using htimely
  | submitConfirm =>
      unfold submitConfirm
      split <;> exact hquiet rfl rfl rfl
  | relayed =>
      unfold submitDirect
      split <;> exact hquiet rfl rfl rfl
  | takeJob => exact hquiet rfl rfl rfl
  | @applyResult job handshake time hjob =>
      have hidle : Learned now { s with verifying := none } writes :=
        h.keep rfl rfl (fun _ _ hc _ => hc) rfl
      exact applyResult_learned hidle job (verifyJob handshake) time
  | checkNetwork fp =>
      rw [Option.toList_none, List.append_nil]
      exact checkNetwork_learned h fp
  | reload => exact hquiet rfl rfl rfl
  | save =>
      rw [Option.toList_none, List.append_nil]
      unfold saveDecisions
      split
      · exact h.keep rfl rfl (fun _ _ hc _ => hc) rfl
      · exact h

end Step

theorem run_learned {now : Int64} (es : List Event) (s : Daemon) (writes : List Write)
    (h : Learned now s writes) (htimely : timelyRun s es = true) :
    Learned now (Machine.run daemonStep s es).1 (writes ++ (Machine.run daemonStep s es).2) := by
  induction es generalizing s writes with
  | nil =>
      rw [Machine.run, List.append_nil]
      exact h
  | cons e es ih =>
      rw [timelyRun, Bool.and_eq_true] at htimely
      rw [Machine.run]
      dsimp only
      rw [← List.append_assoc]
      exact ih _ _ (step_learned h e htimely.1) htimely.2

theorem timelyRun_append (s : Daemon) (es es' : List Event) (h : timelyRun s (es ++ es') = true) :
    timelyRun s es = true := by
  induction es generalizing s with
  | nil => rfl
  | cons e es ih =>
      rw [List.cons_append, timelyRun, Bool.and_eq_true] at h
      rw [timelyRun, Bool.and_eq_true]
      exact ⟨h.1, ih _ h.2⟩

theorem parseLines_tables (lines : List Bytes) (acc : TpDecisions × Nat) :
    (lines.foldl parseTurn acc).1.cooldown = acc.1.cooldown ∧
      (lines.foldl parseTurn acc).1.directBad = acc.1.directBad := by
  induction lines generalizing acc with
  | nil => exact ⟨rfl, rfl⟩
  | cons line lines ih =>
      have hone : (parseTurn acc line).1.cooldown = acc.1.cooldown ∧
          (parseTurn acc line).1.directBad = acc.1.directBad := by
        unfold parseTurn parseOne parseLine
        dsimp only
        split
        · exact ⟨rfl, rfl⟩
        · cases lineEntry (lineText line) with
          | none => exact ⟨rfl, rfl⟩
          | some e => exact putEntry_tables acc.1 _ _ _ _ _
      obtain ⟨hcooldown, hmarks⟩ := ih (parseTurn acc line)
      exact ⟨hcooldown.trans hone.1, hmarks.trans hone.2⟩

theorem init_learned (now : Int64) (cfg : StrategyConfig) (fp : UInt64) (file : Option Bytes) :
    Learned now (daemonInit cfg fp file) [] := by
  have htables : (daemonInit cfg fp file).dec.cooldown = tpDecisionsInit.cooldown ∧
      (daemonInit cfg fp file).dec.directBad = tpDecisionsInit.directBad := by
    cases file with
    | none => exact ⟨rfl, rfl⟩
    | some text => exact parseLines_tables (textLines text) (tpDecisionsInit, 0)
  refine ⟨fun i c hc hne _ => ?_, fun i m hm hne _ => ?_, fun hne => absurd rfl hne⟩
  · rw [htables.1] at hc
    obtain ⟨-, rfl⟩ := List.mem_replicate.mp (List.mem_of_getElem? hc)
    exact absurd rfl hne
  · rw [htables.2] at hm
    obtain ⟨-, rfl⟩ := List.mem_replicate.mp (List.mem_of_getElem? hm)
    exact absurd rfl hne

-- In a run without a late write, nothing acts that another network has taught, in any
-- state on the way.
theorem learned_on_this_network (cfg : StrategyConfig) (fp : UInt64) (file : Option Bytes)
    (es es' : List Event) (now : Int64)
    (htimely : timelyRun (daemonInit cfg fp file) (es ++ es') = true) :
    Learned now (Machine.run daemonStep (daemonInit cfg fp file) es).1
      (Machine.run daemonStep (daemonInit cfg fp file) es).2 :=
  run_learned es _ [] (init_learned now cfg fp file) (timelyRun_append _ es es' htimely)

-- The time of the events of the two runs below.
def NOON : Int64 := 43200

def discord : Bytes := ascii ['d', 'i', 's', 'c', 'o', 'r', 'd', '.', 'c', 'o', 'm']

-- Two connections to one host. The bypass carries the first one; the second one gets no
-- answer at all.
def carried : List Event :=
  [.accept .inet ⟨.inet, [1, 2, 3, 4], 443⟩, .fillPlan 0 discord NOON, .attempt 0 .ok]

def unanswered : List Event :=
  [.accept .inet ⟨.inet, [1, 2, 3, 4], 443⟩, .fillPlan 1 discord NOON, .attempt 1 .timeout,
    .attempt 1 .timeout, .attempt 1 .timeout, .resolveTrusted 1 []]

-- The network changes while both are under way.
def lateRun : List Event := carried ++ unanswered ++ [.checkNetwork 8, .commit 0 NOON, .fail 1 NOON]

theorem lateRun_learns_elsewhere :
    (Machine.run daemonStep (daemonInit strategyConfigInit 7 none) lateRun).1.fp = 8 ∧
    (Machine.run daemonStep (daemonInit strategyConfigInit 7 none) lateRun).1.dec.cooldown[0]? =
      some ⟨discord, NOON + 60⟩ ∧
    (Machine.run daemonStep (daemonInit strategyConfigInit 7 none) lateRun).1.preferred = .tlsrec ∧
    (Machine.run daemonStep (daemonInit strategyConfigInit 7 none) lateRun).2 =
      [⟨.preferred, 7⟩, ⟨.cooldown 0, 7⟩] ∧
    ¬Learned NOON (Machine.run daemonStep (daemonInit strategyConfigInit 7 none) lateRun).1
      (Machine.run daemonStep (daemonInit strategyConfigInit 7 none) lateRun).2 := by
  have hfp : (Machine.run daemonStep (daemonInit strategyConfigInit 7 none) lateRun).1.fp = 8 := by
    decide +kernel
  have hpreferred :
      (Machine.run daemonStep (daemonInit strategyConfigInit 7 none) lateRun).1.preferred = .tlsrec := by
    decide +kernel
  have hwrites : (Machine.run daemonStep (daemonInit strategyConfigInit 7 none) lateRun).2 =
      [⟨.preferred, 7⟩, ⟨.cooldown 0, 7⟩] := by
    decide +kernel
  refine ⟨hfp, by decide +kernel, hpreferred, hwrites, fun h => ?_⟩
  have hlast := h.preferred (by rw [hpreferred]; decide)
  rw [hwrites, hfp] at hlast
  exact absurd hlast (by decide)

-- The same outcomes before the change are kept out by it.
theorem learned_on_this_network_run :
    timelyRun (daemonInit strategyConfigInit 7 none)
        (carried ++ unanswered ++ [.commit 0 NOON, .fail 1 NOON] ++ [.checkNetwork 8]) = true ∧
      Learned NOON (Machine.run daemonStep (daemonInit strategyConfigInit 7 none)
          (carried ++ unanswered ++ [.commit 0 NOON, .fail 1 NOON])).1
        (Machine.run daemonStep (daemonInit strategyConfigInit 7 none)
          (carried ++ unanswered ++ [.commit 0 NOON, .fail 1 NOON])).2 :=
  ⟨by decide +kernel, learned_on_this_network strategyConfigInit 7 none _ [.checkNetwork 8] NOON
    (by decide +kernel)⟩

end DpiProxy.Transparent
