import DpiProxy.Dns.Calls

namespace DpiProxy.Dns

open Wire

-- The record of a server changes once for each invocation of the transport, and of no
-- other server it changes.
structure FollowsCalls (before after : List ServerHealth) (now : Int) (asked : List Nat) : Prop where
  once : asked.Nodup
  invoked : ∀ i ∈ asked, ∃ ok, after[i]? = (before[i]?).map fun h => h.result ok now
  others : ∀ i, i ∉ asked → after[i]? = before[i]?

theorem getElem?_serverResult (r : Resolver) (idx : Nat) (ok : Bool) (now : Int) (i : Nat) :
    (serverResult r idx ok now).health[i]? =
      if idx = i then (r.health[i]?).map fun h => h.result ok now else r.health[i]? := by
  rw [serverResult, List.getElem?_modify]
  split <;> simp

theorem followsCalls_refl (health : List ServerHealth) (now : Int) : FollowsCalls health health now [] :=
  ⟨List.nodup_nil, by simp, by simp⟩

-- One more server asked before the others.
theorem FollowsCalls.cons {r : Resolver} {after : List ServerHealth} {now : Int} {idx : Nat} {ok : Bool}
    {asked : List Nat} (h : FollowsCalls (serverResult r idx ok now).health after now asked)
    (hidx : idx ∉ asked) : FollowsCalls r.health after now (idx :: asked) where
  once := List.nodup_cons.mpr ⟨hidx, h.once⟩
  invoked := by
    intro i hi
    rcases List.mem_cons.mp hi with rfl | hi
    · refine ⟨ok, ?_⟩
      rw [h.others i hidx, getElem?_serverResult, if_pos rfl]
    · obtain ⟨ok', heq⟩ := h.invoked i hi
      refine ⟨ok', ?_⟩
      rw [heq, getElem?_serverResult, if_neg (by rintro rfl; exact hidx hi)]
  others := by
    intro i hi
    rw [List.mem_cons, not_or] at hi
    rw [h.others i hi.2, getElem?_serverResult, if_neg (Ne.symm hi.1)]

theorem cacheStore_health (r : Resolver) (name : Bytes) (qtype : UInt16) (status : DnsStatus)
    (answer : DnsAnswer) (now : Int) : (cacheStore r name qtype status answer now).health = r.health := by
  rw [cacheStore]
  split <;> rfl

theorem resolveLoop_follows {name : Bytes} (hname : Encodable name) (transport : Transport)
    (qtype : UInt16) (now : Int) (order : List Nat) (hnodup : order.Nodup) (id : UInt16) (r : Resolver)
    (out : DnsAnswer) :
    let x := resolveLoop transport name qtype now order id r out
    FollowsCalls r.health x.resolver.health now (x.calls.map Prod.fst) ∧
      ∀ i ∈ x.calls.map Prod.fst, i ∈ order := by
  induction order generalizing id r out with
  | nil => exact ⟨followsCalls_refl _ _, by simp [resolveLoop]⟩
  | cons idx order ih =>
      obtain ⟨hidx, hnodup⟩ := List.nodup_cons.mp hnodup
      obtain ⟨query, hquery⟩ := Option.isSome_iff_exists.mp ((dnsBuildQuery_isSome id name qtype).mpr hname)
      have hsent := queryServer_sent transport idx id name qtype out
      rw [hquery, Option.map_some] at hsent
      simp only [resolveLoop, hsent, Option.toList_some]
      split
      · refine ⟨?_, by simp⟩
        rw [cacheStore_health]
        exact (followsCalls_refl _ now).cons (List.not_mem_nil)
      · obtain ⟨hfollows, hmem⟩ := ih hnodup (id + 1)
          (serverResult r idx (queryServer transport idx id name qtype out).status.usable now)
          (queryServer transport idx id name qtype out).answer
        dsimp only at hfollows hmem ⊢
        rw [List.singleton_append, List.map_cons]
        refine ⟨hfollows.cons fun h => hidx (hmem idx h), ?_⟩
        intro i hi
        rcases List.mem_cons.mp hi with rfl | hi
        · exact List.mem_cons_self
        · exact List.mem_cons_of_mem _ (hmem i hi)

-- Every server gets the blame for a name that fits no query.
theorem resolveLoop_unencodable {name : Bytes} (hname : ¬Encodable name) (transport : Transport)
    (qtype : UInt16) (now : Int) (order : List Nat) (hnodup : order.Nodup) (id : UInt16) (r : Resolver)
    (out : DnsAnswer) :
    let x := resolveLoop transport name qtype now order id r out
    x.calls = [] ∧ ∀ i, x.resolver.health[i]? =
      if i ∈ order then (r.health[i]?).map fun h => h.result false now else r.health[i]? := by
  induction order generalizing id r out with
  | nil => simp [resolveLoop]
  | cons idx order ih =>
      obtain ⟨hidx, hnodup⟩ := List.nodup_cons.mp hnodup
      have hstatus : DnsStatus.usable .errMalformed = false := rfl
      simp only [resolveLoop, queryServer_unencodable hname, hstatus, Bool.false_eq_true, if_false]
      obtain ⟨hcalls, hhealth⟩ := ih hnodup (id + 1) (serverResult r idx false now) out
      refine ⟨by rw [hcalls]; rfl, ?_⟩
      intro i
      rw [hhealth, getElem?_serverResult]
      by_cases hi : idx = i
      · rw [if_pos hi, if_neg (hi ▸ hidx), if_pos (List.mem_cons.mpr (.inl hi.symm))]
      · rw [if_neg hi]
        simp only [List.mem_cons, Ne.symm hi, false_or]

theorem exchangeLoop_follows (transport : Transport) (query : Bytes) (now : Int) (order : List Nat)
    (hnodup : order.Nodup) (r : Resolver) :
    let x := exchangeLoop transport query now order r
    FollowsCalls r.health x.resolver.health now (x.calls.map Prod.fst) ∧
      ∀ i ∈ x.calls.map Prod.fst, i ∈ order := by
  induction order generalizing r with
  | nil => exact ⟨followsCalls_refl _ _, by simp [exchangeLoop]⟩
  | cons idx order ih =>
      obtain ⟨hidx, hnodup⟩ := List.nodup_cons.mp hnodup
      simp only [exchangeLoop]
      split
      · refine ⟨?_, by simp⟩
        exact (followsCalls_refl _ now).cons (List.not_mem_nil)
      · obtain ⟨hfollows, hmem⟩ := ih hnodup
          (serverResult r idx ((transport idx query).filter (acceptsReply query)).isSome now)
        dsimp only at hfollows hmem ⊢
        rw [List.map_cons]
        refine ⟨hfollows.cons fun h => hidx (hmem idx h), ?_⟩
        intro i hi
        rcases List.mem_cons.mp hi with rfl | hi
        · exact List.mem_cons_self
        · exact List.mem_cons_of_mem _ (hmem i hi)

-- An answer from the cache, no servers, or a name that fits a query.
def Sound (r : Resolver) : Call → Prop
  | .resolve _ name qtype now _ =>
      (cacheFind r name qtype).any (fun i => decide ((r.entry i).expiresAt > now)) = true ∨
        r.health = [] ∨ Encodable name
  | .exchange _ _ _ => True

theorem result_ne (h : ServerHealth) (ok : Bool) (now : Int) : h.result ok now ≠ h := by
  intro heq
  have hqueries := congrArg ServerHealth.queries heq
  have hcount : (h.result ok now).queries = h.queries + 1 := by
    rw [ServerHealth.result]
    split <;> rfl
  rw [hcount] at hqueries
  have hone : (1 : UInt64) = 0 := by
    rw [← UInt64.add_right_inj h.queries, hqueries, UInt64.add_zero]
  exact absurd hone (by decide)

theorem step_follows_iff (r : Resolver) (call : Call) :
    FollowsCalls r.health (step r call).1.health call.now (asked r call) ↔ Sound r call := by
  cases call with
  | exchange transport query now =>
      refine iff_of_true ?_ trivial
      simp only [step, asked, Call.now, dnsExchange]
      split
      · exact followsCalls_refl _ now
      · exact (exchangeLoop_follows transport query now _ (serverOrder_nodup r now) r).1
  | resolve transport name qtype now out =>
      simp only [step, asked, Call.now]
      cases hcache : (cacheFind r name qtype).filter
          (fun i => decide ((r.entry i).expiresAt > now)) with
      | some i =>
          rw [dnsResolve_hit hcache]
          obtain ⟨hi, hlive⟩ := Option.filter_eq_some_iff.mp hcache
          refine iff_of_true (followsCalls_refl _ now) (.inl ?_)
          rw [hi]
          exact hlive
      | none =>
          rw [dnsResolve_miss hcache]
          by_cases hname : Encodable name
          · have hfollows := resolveLoop_follows hname transport qtype now _ (serverOrder_nodup r now)
              r.nextId r.missed out
            exact iff_of_true hfollows.1 (.inr (.inr hname))
          · obtain ⟨hcalls, hhealth⟩ := resolveLoop_unencodable hname transport qtype now _
              (serverOrder_nodup r now) r.nextId r.missed out
            have hmissed : r.missed.health = r.health := rfl
            rw [hmissed] at hhealth
            rw [hcalls]
            have hmiss : (cacheFind r name qtype).any
                (fun i => decide ((r.entry i).expiresAt > now)) = false := by
              cases hfind : cacheFind r name qtype with
              | none => rfl
              | some i =>
                  have hexpired := Option.filter_eq_none_iff.mp hcache i hfind
                  simpa using hexpired
            constructor
            · -- The first server is blamed for a query it was not sent.
              intro hfollows
              cases hservers : r.health with
              | nil => exact .inr (.inl hservers)
              | cons h health =>
                  have hzero : 0 ∈ serverOrder r now := (mem_serverOrder r now).mpr (by simp [hservers])
                  have hsame := hfollows.others 0 (by simp)
                  rw [hhealth, if_pos hzero] at hsame
                  simp only [hservers, List.getElem?_cons_zero, Option.map_some,
                    Option.some.injEq] at hsame
                  exact absurd hsame (result_ne h false now)
            · rintro (hhit | hnone | hencodable)
              · rw [hmiss] at hhit
                cases hhit
              · refine ⟨List.nodup_nil, by simp, ?_⟩
                intro i _
                rw [hhealth]
                simp [hnone]
              · exact absurd hencodable hname

-- The invocations of the transport in a run.
def askedIn (r : Resolver) : List Call → List Nat
  | [] => []
  | call :: calls => asked r call ++ askedIn (step r call).1 calls

-- One recorded result after the other.
def ServerHealth.results (h : ServerHealth) (results : List (Bool × Int)) : ServerHealth :=
  results.foldl (fun h result => h.result result.1 result.2) h

theorem run_records (calls : List Call) (r : Resolver)
    (hsteps : ∀ before call after, calls = before ++ call :: after →
      FollowsCalls (Machine.run step r before).1.health
        (step (Machine.run step r before).1 call).1.health call.now
        (asked (Machine.run step r before).1 call)) (i : Nat) :
    ∃ results : List (Bool × Int), results.length = (askedIn r calls).count i ∧
      (Machine.run step r calls).1.health[i]? =
        (r.health[i]?).map fun h => h.results results := by
  induction calls generalizing r with
  | nil =>
      refine ⟨[], rfl, ?_⟩
      simp [Machine.run, ServerHealth.results]
  | cons call calls ih =>
      have hfirst := hsteps [] call calls rfl
      simp only [Machine.run] at hfirst
      obtain ⟨results, hcount, hrest⟩ := ih (step r call).1 fun before call' after heq =>
        hsteps (call :: before) call' after (by rw [heq]; rfl)
      have hrun : (Machine.run step r (call :: calls)).1 = (Machine.run step (step r call).1 calls).1 :=
        rfl
      rw [hrun, hrest, askedIn, List.count_append, ← hcount]
      by_cases hi : i ∈ asked r call
      · obtain ⟨ok, heq⟩ := hfirst.invoked i hi
        refine ⟨(ok, call.now) :: results, ?_, ?_⟩
        · rw [List.count_eq_one_of_mem hfirst.once hi, List.length_cons]
          omega
        · rw [heq, Option.map_map]
          rfl
      · refine ⟨results, ?_, by rw [hfirst.others i hi]⟩
        rw [List.count_eq_zero.mpr hi]
        omega

theorem run_follows_iff (r : Resolver) (calls : List Call) :
    ((∀ before call after, calls = before ++ call :: after →
        FollowsCalls (Machine.run step r before).1.health
          (step (Machine.run step r before).1 call).1.health call.now
          (asked (Machine.run step r before).1 call)) ↔
      ∀ before call after, calls = before ++ call :: after →
        Sound (Machine.run step r before).1 call) ∧
    ((∀ before call after, calls = before ++ call :: after →
        Sound (Machine.run step r before).1 call) →
      ∀ i, ∃ results : List (Bool × Int), results.length = (askedIn r calls).count i ∧
        (Machine.run step r calls).1.health[i]? =
          (r.health[i]?).map fun h => h.results results) := by
  have hiff : ∀ before call, FollowsCalls (Machine.run step r before).1.health
      (step (Machine.run step r before).1 call).1.health call.now
      (asked (Machine.run step r before).1 call) ↔ Sound (Machine.run step r before).1 call :=
    fun before call => step_follows_iff _ call
  refine ⟨?_, ?_⟩
  · constructor
    · intro h before call after heq
      exact (hiff before call).mp (h before call after heq)
    · intro h before call after heq
      exact (hiff before call).mpr (h before call after heq)
  · intro h
    apply run_records
    intro before call after heq
    exact (hiff before call).mpr (h before call after heq)

def plainCall : Call := .resolve (fun _ _ => some []) (ascii ['a', '.', 'b']) 1 0 ⟨[], 0⟩

-- A server that answers nothing, asked for one name.
theorem run_follows_timeout : ∃ results : List (Bool × Int), results.length = 1 ∧
    (Machine.run step (dnsResolverInit 1 0) [plainCall]).1.health[0]? =
      ((dnsResolverInit 1 0).health[0]?).map fun h => h.results results := by
  have hsound : ∀ before call after, [plainCall] = before ++ call :: after →
      Sound (Machine.run step (dnsResolverInit 1 0) before).1 call := by
    intro before call after heq
    rcases before with _ | ⟨first, before⟩
    · obtain ⟨rfl, -⟩ := List.cons.inj heq
      refine .inr (.inr ?_)
      simp only [Encodable]
      decide +kernel
    · simp at heq
  obtain ⟨results, hlen, hrecord⟩ := (run_follows_iff (dnsResolverInit 1 0) [plainCall]).2 hsound 0
  have hcount : (askedIn (dnsResolverInit 1 0) [plainCall]).count 0 = 1 := by decide +kernel
  exact ⟨results, hlen.trans hcount, hrecord⟩

def dots : Call := .resolve (fun _ _ => none) (ascii ['a', '.', '.', 'b']) 1 0 ⟨[], 0⟩

-- A name that fits no query puts a server into backoff that was never asked.
theorem bad_name_backs_off :
    askedIn (dnsResolverInit 1 0) [dots, dots, dots] = [] ∧
    dnsResolverHealthy (dnsResolverInit 1 0) 0 = true ∧
    dnsResolverHealthy (Machine.run step (dnsResolverInit 1 0) [dots, dots, dots]).1 0 = false ∧
    ¬FollowsCalls (dnsResolverInit 1 0).health (step (dnsResolverInit 1 0) dots).1.health 0
      (asked (dnsResolverInit 1 0) dots) := by
  refine ⟨by decide +kernel, by decide +kernel, by decide +kernel, ?_⟩
  intro hfollows
  have hnot : ¬Encodable (ascii ['a', '.', '.', 'b']) := by
    simp only [Encodable]
    decide +kernel
  obtain hhit | hnone | hname := (step_follows_iff (dnsResolverInit 1 0) dots).mp hfollows
  · exact absurd hhit (by decide +kernel)
  · exact absurd hnone (by decide +kernel)
  · exact hnot hname

end DpiProxy.Dns
