import DpiProxy.Transparent.Conn.Lemmas

namespace DpiProxy.Transparent

open Wire Wire.Record Tls Relay

section Run

variable {peers : Nat → Peer} {answer : DnsAnswer} {polls : List PollResult} {p : TpPlan} (c : ConnState)

theorem runPlan_done (h : tpPlanNext p = .done) :
    runPlan peers answer polls p c = ⟨c, p, [], [], none⟩ := by
  rw [runPlan]
  split
  · rfl
  · rename_i hnext
    cases h.symm.trans hnext
  · rename_i hnext
    cases h.symm.trans hnext

theorem runPlan_dns (h : tpPlanNext p = .needDns) :
    runPlan peers answer polls p c = runPlan peers answer polls { p with trust := answer.trust } c := by
  conv_lhs => rw [runPlan]
  split
  · rename_i hnext
    cases h.symm.trans hnext
  · rfl
  · rename_i hnext
    cases h.symm.trans hnext

theorem runPlan_attempt {step : TpStep} {t : Nat} (h : tpPlanNext p = .attempt step t) :
    runPlan peers answer polls p c =
      match (attempt peers c step).result with
      | none => ⟨(attempt peers c step).conn, p, [(step, none)], [], none⟩
      | some r =>
          if r.answered then
            ⟨(commitRelay (attempt peers c step).conn ((attempt peers c step).upstream.getD 0) polls).1,
              tpPlanRecord p step r, [(step, some r)], [(attempt peers c step).upstream.getD 0],
              some (commitRelay (attempt peers c step).conn
                ((attempt peers c step).upstream.getD 0) polls).2⟩
          else
            { runPlan peers answer polls (tpPlanRecord p step r) (attempt peers c step).conn with
              results := (step, some r) :: (runPlan peers answer polls (tpPlanRecord p step r)
                (attempt peers c step).conn).results } := by
  conv_lhs => rw [runPlan]
  split
  · rename_i hnext
    cases h.symm.trans hnext
  · rename_i hnext
    cases h.symm.trans hnext
  · rename_i hnext
    cases h.symm.trans hnext
    rfl

-- What a call of run_plan has done, seen from the connection it started with.
structure RunPlanSpec (peers : Nat → Peer) (polls : List PollResult) (c : ConnState) (r : PlanIo) :
    Prop where
  count : r.conn.upstreams.length = c.upstreams.length + r.results.length
  old : ∀ i < c.upstreams.length, r.conn.upstreams[i]? = c.upstreams[i]?
  new : ∀ fd ∈ r.commits, c.upstreams.length ≤ fd
  once : r.commits.length ≤ 1
  answered : r.commits.length = 1 ↔ ∃ t ∈ r.results, t.2.any (·.answered) = true
  silent : r.commits = [] → r.conn.client = c.client
  client : ∀ fd ∈ r.commits, r.conn.client.sent <+: c.client.sent ++ stream (peers fd).arrivals ∧
    (r.ended = some .finished → r.conn.client.sent = c.client.sent ++ stream (peers fd).arrivals)
  returns : ∀ fd ∈ r.commits, Enough (peers fd) c.hello c.client polls →
    r.ended = some .stopped ∨ r.ended = some .finished
  safe : ∀ fd ∈ r.commits, ErrorFree (peers fd) c.client polls → r.ended ≠ some .stopped
  upstreams : ∀ i step res, r.results[i]? = some (step, res) →
    ∃ s tail, r.conn.upstreams[c.upstreams.length + i]? = some s ∧
      s.sent = flightBytes (peers (c.upstreams.length + i)) c.hello step ++ tail ∧
      tail <+: stream c.client.arrivals ∧
      (c.upstreams.length + i ∉ r.commits → tail = []) ∧
      (c.upstreams.length + i ∈ r.commits →
        FirstSent (peers (c.upstreams.length + i)) c.hello step ∧
          (r.ended = some .finished → tail = stream c.client.arrivals))

section Specs

variable {step : TpStep} {a : Attempt} {s : Socket} {c}

-- The one result of a run that ends with its first attempt.
theorem single_result {t t' : TpStep × Option TpResult} {i : Nat} (h : [t][i]? = some t') :
    i = 0 ∧ t' = t := by
  cases i with
  | zero => exact ⟨rfl, (Option.some.inj h).symm⟩
  | succ i => exact absurd h (by simp)

theorem spec_blocked (ha : AttemptSpec peers c step a s) :
    RunPlanSpec peers polls c ⟨a.conn, p, [(step, none)], [], none⟩ := by
  refine ⟨?_, fun i hi => ?_, nofun, Nat.zero_le _, by simp, fun _ => ha.client, nofun, nofun, nofun, ?_⟩
  · rw [ha.upstreams, List.length_append]
    rfl
  · rw [ha.upstreams, List.getElem?_append_left hi]
  · intro i step' res hi
    obtain ⟨rfl, hpair⟩ := single_result hi
    obtain ⟨rfl, -⟩ := Prod.mk.inj hpair
    refine ⟨s, [], ?_, ?_, List.nil_prefix, fun _ => rfl, nofun⟩
    · rw [ha.upstreams]
      simp
    · rw [List.append_nil]
      exact ha.sent

theorem spec_commit {r : TpResult} (ha : AttemptSpec peers c step a s) (hresult : a.result = some r)
    (hr : r.answered = true) (recorded : TpPlan) :
    RunPlanSpec peers polls c ⟨(commitRelay a.conn (a.upstream.getD 0) polls).1, recorded,
      [(step, some r)], [a.upstream.getD 0],
      some (commitRelay a.conn (a.upstream.getD 0) polls).2⟩ := by
  obtain ⟨hupstream, hlive⟩ := ha.live r hresult hr
  rw [hupstream, Option.getD_some]
  have hs : a.conn.upstreams[c.upstreams.length]? = some s := by
    rw [ha.upstreams]
    simp
  obtain ⟨tail, hclient, ⟨s', hset, hsent⟩, hpart, hfinished⟩ := commitRelay_spec hs polls
  have hreturns : Enough (peers c.upstreams.length) c.hello c.client polls →
      some (commitRelay a.conn c.upstreams.length polls).2 = some .stopped ∨
        some (commitRelay a.conn c.upstreams.length polls).2 = some .finished := by
    intro henough
    rw [← ha.client] at henough
    cases hend : (commitRelay a.conn c.upstreams.length polls).2 with
    | finished => exact .inr rfl
    | stopped => exact .inl rfl
    | waiting => exact absurd hend (commitRelay_returns hs hlive henough)
  have hsafe : ErrorFree (peers c.upstreams.length) c.client polls →
      some (commitRelay a.conn c.upstreams.length polls).2 ≠ some .stopped := by
    intro hfree hend
    rw [← ha.client] at hfree
    exact commitRelay_safe hs hlive hfree (Option.some.inj hend)
  rw [← recvAgain_data hlive.arrivals, ha.client] at hclient hfinished
  rw [ha.client] at hpart
  rw [ha.upstreams] at hset
  refine ⟨?_, fun i hi => ?_, ?_, le_rfl, by simp [hr], nofun, ?_, ?_, ?_, ?_⟩
  · rw [hset, List.length_set, List.length_append]
    rfl
  · rw [hset, List.getElem?_set_ne (by omega), List.getElem?_append_left hi]
  · intro fd hfd
    rw [List.mem_singleton.mp hfd]
  · intro fd hfd
    rw [List.mem_singleton.mp hfd]
    exact ⟨hclient, fun h => (hfinished (Option.some.inj h)).1⟩
  · intro fd hfd henough
    rw [List.mem_singleton.mp hfd] at henough
    exact hreturns henough
  · intro fd hfd hfree
    rw [List.mem_singleton.mp hfd] at hfree
    exact hsafe hfree
  · intro i step' res hi
    obtain ⟨rfl, hpair⟩ := single_result hi
    obtain ⟨rfl, -⟩ := Prod.mk.inj hpair
    refine ⟨s', tail, ?_, ?_, hpart, fun hnot => absurd List.mem_cons_self hnot,
      fun _ => ⟨hlive.sent, fun h => (hfinished (Option.some.inj h)).2⟩⟩
    · rw [hset]
      simp
    · rw [hsent, ha.sent]
      rfl

-- An attempt without an answer, and the run after it.
theorem spec_next {r : TpResult} {rest : PlanIo} (ha : AttemptSpec peers c step a s)
    (hr : r.answered = false) (h : RunPlanSpec peers polls a.conn rest) :
    RunPlanSpec peers polls c { rest with results := (step, some r) :: rest.results } := by
  have hlen : a.conn.upstreams.length = c.upstreams.length + 1 := by
    rw [ha.upstreams, List.length_append]
    rfl
  have hcount := h.count
  have hanswered := h.answered
  have hold : rest.conn.upstreams[c.upstreams.length]? = some s := by
    rw [h.old _ (by omega), ha.upstreams]
    simp
  have hnot : c.upstreams.length ∉ rest.commits := by
    intro hmem
    have hle := h.new _ hmem
    omega
  refine ⟨?_, fun i hi => ?_, fun fd hfd => ?_, h.once, ?_, fun hc => (h.silent hc).trans ha.client,
    ?_, ?_, ?_, ?_⟩
  · show rest.conn.upstreams.length = c.upstreams.length + (rest.results.length + 1)
    omega
  · rw [h.old i (by omega), ha.upstreams, List.getElem?_append_left hi]
  · have hle := h.new fd hfd
    omega
  · rw [hanswered]
    simp [hr]
  · rw [← ha.client]
    exact h.client
  · rw [← ha.client, ← ha.hello]
    exact h.returns
  · rw [← ha.client]
    exact h.safe
  · intro i step' res hi
    cases i with
    | zero =>
        obtain ⟨rfl, -⟩ := Prod.mk.inj (Option.some.inj hi)
        refine ⟨s, [], hold, ?_, List.nil_prefix, fun _ => rfl, fun hmem => absurd hmem hnot⟩
        rw [List.append_nil]
        exact ha.sent
    | succ i =>
        have hrest := h.upstreams i step' res hi
        rw [hlen, ha.hello, ha.client, Nat.add_right_comm] at hrest
        exact hrest

end Specs

theorem runPlan_spec (p : TpPlan) (c : ConnState) :
    RunPlanSpec peers polls c (runPlan peers answer polls p c) := by
  induction hleft : remaining p using Nat.strongRecOn generalizing p c with
  | _ left ih =>
      cases hnext : tpPlanNext p with
      | done =>
          rw [runPlan_done c hnext]
          exact ⟨rfl, fun _ _ => rfl, nofun, Nat.zero_le _, by simp, fun _ => rfl, nofun, nofun, nofun, nofun⟩
      | needDns =>
          rw [runPlan_dns c hnext]
          exact ih _ (hleft ▸ remaining_dns (tpPlanNext_needDns hnext) answer) _ c rfl
      | attempt step t =>
          obtain ⟨s, ha⟩ := attempt_spec peers c step
          rw [runPlan_attempt c hnext]
          split
          · exact spec_blocked ha
          · rename_i r hresult
            split
            · rename_i hr
              exact spec_commit ha hresult hr _
            · rename_i hr
              have hless := remaining_record (tpPlanNext_attempt hnext).room step r
              exact spec_next ha (Bool.eq_false_iff.mpr hr) (ih _ (hleft ▸ hless) _ _ rfl)

-- An attempt that returns, as a run of the plan sees it.
def attemptOutcome (peers : Nat → Peer) (c : ConnState) (step : TpStep) (_ : Nat) :
    ConnState × TpResult :=
  ((attempt peers c step).conn, (attempt peers c step).result.getD .timeout)

-- Where every attempt returns, run_plan asks the plan as a run of the plan does.
theorem runPlan_runLoop (p : TpPlan) (c : ConnState)
    (h : ∀ t ∈ (runPlan peers answer polls p c).results, t.2 ≠ none) :
    (runPlan peers answer polls p c).plan = (runLoop answer (attemptOutcome peers) p c).plan ∧
    (runPlan peers answer polls p c).results =
      (offers (runLoop answer (attemptOutcome peers) p c).events).map fun o => (o.step, some o.result) := by
  induction hleft : remaining p using Nat.strongRecOn generalizing p c with
  | _ left ih =>
      cases hnext : tpPlanNext p with
      | done =>
          rw [runPlan_done c hnext, runLoop_done c hnext]
          exact ⟨rfl, rfl⟩
      | needDns =>
          rw [runPlan_dns c hnext] at h ⊢
          rw [runLoop_dns c hnext]
          exact ih _ (hleft ▸ remaining_dns (tpPlanNext_needDns hnext) answer) _ c h rfl
      | attempt step t =>
          rw [runPlan_attempt c hnext] at h ⊢
          rw [runLoop_attempt c hnext]
          split at h
          · exact absurd rfl (h (step, none) List.mem_cons_self)
          · rename_i r hresult
            have houtcome : (attemptOutcome peers c step t).2 = r := by
              rw [attemptOutcome, hresult, Option.getD_some]
            rw [houtcome]
            split at h
            · rename_i hr
              rw [if_pos hr, if_pos hr]
              exact ⟨rfl, rfl⟩
            · rename_i hr
              have hless := remaining_record (tpPlanNext_attempt hnext).room step r
              obtain ⟨hplan, hresults⟩ := ih _ (hleft ▸ hless) (tpPlanRecord p step r)
                (attempt peers c step).conn (fun t ht => h t (List.mem_cons_of_mem _ ht)) rfl
              rw [if_neg hr, if_neg hr]
              exact ⟨hplan, congrArg _ hresults⟩

end Run

-- What the two ends of an intercepted connection see of a call of run_plan. `first` is
-- what the client has sent before it, `hello` the form in which that is kept.
structure Invisible (first hello : Bytes) (peers : Nat → Peer) (polls : List PollResult)
    (client : Socket) (r : PlanIo) : Prop where
  -- one commit, if an attempt has an answer
  once : r.commits.length ≤ 1
  answered : r.commits.length = 1 ↔ ∃ t ∈ r.results, t.2.any (·.answered) = true
  -- the client hears the committed connection only, from its first byte on
  silent : r.commits = [] → r.conn.client.sent = []
  heard : ∀ fd ∈ r.commits, r.conn.client.sent <+: stream (peers fd).arrivals
  -- all of it, unless a call has failed or not returned
  complete : ∀ fd ∈ r.commits, r.ended = some .finished →
    r.conn.client.sent = stream (peers fd).arrivals
  returns : ∀ fd ∈ r.commits, Enough (peers fd) hello client polls →
    r.ended = some .stopped ∨ r.ended = some .finished
  safe : ∀ fd ∈ r.commits, ErrorFree (peers fd) client polls → r.ended ≠ some .stopped
  -- each attempt has a connection of its own; after the first bytes only the committed
  -- one hears the client
  attempted : r.conn.upstreams.length = r.results.length
  upstreams : ∀ i step res, r.results[i]? = some (step, res) →
    ∃ s head tail, r.conn.upstreams[i]? = some s ∧ s.sent = head ++ tail ∧
      (FirstSent (peers i) hello step →
        ∀ rest, deframe (head ++ rest) = deframe (first ++ rest)) ∧
      tail <+: stream client.arrivals ∧ (i ∉ r.commits → tail = []) ∧
      (i ∈ r.commits → FirstSent (peers i) hello step ∧
        (r.ended = some .finished → tail = stream client.arrivals))

-- The kept form of the first bytes is the same to the record layer.
theorem readClientHello_same (arrivals : List Arrival) (rest : Bytes) :
    deframe ((readClientHello arrivals).hello ++ rest) =
      deframe ((collectHello [] arrivals).hello ++ rest) := by
  unfold readClientHello
  dsimp only
  cases hmerged : tlsCoalesceHandshakeRecords (collectHello [] arrivals).hello BUFFER_SIZE with
  | none => rfl
  | some merged => exact tlsCoalesceHandshakeRecords_same hmerged rest

theorem firstSent_same {peer : Peer} {hello : Bytes} {step : TpStep} (h : FirstSent peer hello step)
    (rest : Bytes) : deframe (flightBytes peer hello step ++ rest) = deframe (hello ++ rest) := by
  rw [flightBytes, if_pos h.1]
  exact relaySendFirst_same h.2 rest

-- Whatever the client has sent, the peers do and the resolver says, the client sees one
-- connection. `later` is what the client sends after its first bytes, and `scratch` what
-- reading them has left in the reply buffer.
theorem failed_attempts_invisible (arrivals : List Arrival) (later : List RecvResult)
    (sends : List SendResult) (scratch : Bytes) (peers : Nat → Peer) (answer : DnsAnswer)
    (polls : List PollResult) (p : TpPlan) :
    Invisible (collectHello [] arrivals).hello (readClientHello arrivals).hello peers polls
      ⟨sends, later, []⟩ (runPlan peers answer polls p
        ⟨⟨sends, later, []⟩, [], (readClientHello arrivals).hello, scratch⟩) := by
  have h := @runPlan_spec peers answer polls p
    ⟨⟨sends, later, []⟩, [], (readClientHello arrivals).hello, scratch⟩
  refine ⟨h.once, h.answered, fun hnone => ?_, fun fd hfd => (h.client fd hfd).1,
    fun fd hfd => (h.client fd hfd).2, h.returns, h.safe, ?_, fun i step res hi => ?_⟩
  · rw [h.silent hnone]
  · rw [h.count]
    exact Nat.zero_add _
  · obtain ⟨s, tail, hs, hsent, hpart, hothers, hcommitted⟩ := h.upstreams i step res hi
    rw [List.length_nil, Nat.zero_add] at hs hsent hothers hcommitted
    refine ⟨s, _, tail, hs, hsent, fun hfirst rest => ?_, hpart, hothers, hcommitted⟩
    rw [firstSent_same hfirst rest, readClientHello_same]

-- The first connection is reset, the second one answers.
example :
    let refused : Peer := ⟨true, [.sent 9], true, [.interrupted, .failed]⟩
    let willing : Peer := ⟨true, [.sent 9, .sent 9], true, [.data [0x16, 3], .data [1], .eof]⟩
    let r := runPlan (fun i => if i = 0 then refused else willing) ⟨.matched, by decide⟩
      [.ready true true, .ready true true] { tpPlanInit with hasHost := true }
      ⟨⟨[.sent 1, .sent 1, .sent 1], [.data [7, 8], .eof], []⟩, [], [1, 2], [5]⟩
    r.conn.client.sent = [0x16, 3, 1] ∧ r.conn.upstreams.map (·.sent) = [[1, 2], [1, 2, 7, 8]] ∧
      r.commits = [1] ∧ r.ended = some .finished := by
  decide +kernel

end DpiProxy.Transparent
