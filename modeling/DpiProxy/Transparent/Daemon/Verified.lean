import DpiProxy.Transparent.Daemon.Lemmas
import DpiProxy.Transparent.Decisions.File

namespace DpiProxy.Transparent

open Wire

-- The address a target stands for in a connection: the one the application chose, or
-- the first one of an answer of the trusted resolver that does not have it.
def Denotes (c : Conn) : TpTarget → SockAddr → Prop
  | .original, a => a = c.original
  | .trusted, a => c.trusted = some a ∧ ∃ first rest,
      (first :: rest).any (addrEqual c.original) = false ∧
        a = ⟨first.family, first.addr.take (addrSize first.family), c.original.port⟩

-- A step that got an answer.
structure Carried (c : Conn) (step : TpStep) : Prop where
  stream : IsStream step.strategy
  tried : ∃ r, r.answered = true ∧ (step, r) ∈ c.plan.tried
  addr : ∃ a, Denotes c step.target a

theorem makeJob_addr {c : Conn} {kind : VerifyKind} {step : TpStep} {a : SockAddr}
    (h : Denotes c step.target a) : (makeJob c kind step).addr = some a := by
  cases htarget : step.target with
  | original =>
      rw [htarget] at h
      rw [makeJob, htarget, if_neg nofun, show a = c.original from h]
  | trusted =>
      rw [htarget] at h
      rw [makeJob, htarget, if_pos rfl, h.1]

-- What a connection thread knows at each point.
def ThreadInv (t : Thread) : Prop :=
  match t.phase with
  | .planning => t.conn.plan.trust = .mismatch → ∃ a, Denotes t.conn .trusted a
  | .answered step | .committed step | .relaying step => Carried t.conn step
  | .hello | .closed => True

-- A thread whose connection does not change any more.
def Settled : Phase → Prop
  | .relaying _ | .closed => True
  | _ => False

-- A job of the queue belongs to a connection and is about the step that carried it.
def JobOf (threads : List Thread) (job : VerifyJob) : Prop :=
  ∃ t ∈ threads, Settled t.phase ∧ job = makeJob t.conn job.kind job.step ∧ Carried t.conn job.step

structure DaemonInv (s : Daemon) : Prop where
  threads : ∀ t ∈ s.threads, ThreadInv t
  jobs : ∀ job ∈ s.queue.jobs, JobOf s.threads job
  verifying : ∀ job, s.verifying = some job → JobOf s.threads job

section Threads

variable {s s' : Daemon} {id : Nat} {t : Thread}

theorem DaemonInv.same (h : DaemonInv s) (hthreads : s'.threads = s.threads)
    (hqueue : s'.queue = s.queue) (hverifying : s'.verifying = s.verifying) : DaemonInv s' := by
  refine ⟨?_, ?_, ?_⟩
  · rw [hthreads]
    exact h.threads
  · rw [hthreads, hqueue]
    exact h.jobs
  · rw [hthreads, hverifying]
    exact h.verifying

theorem JobOf.mono {threads threads' : List Thread} {job : VerifyJob} (h : JobOf threads job)
    (hkeep : ∀ t ∈ threads, Settled t.phase →
      ∃ t' ∈ threads', t'.conn = t.conn ∧ Settled t'.phase) : JobOf threads' job := by
  obtain ⟨t, ht, hsettled, hjob, hcarried⟩ := h
  obtain ⟨t', ht', hconn, hsettled'⟩ := hkeep t ht hsettled
  exact ⟨t', ht', hsettled', hconn ▸ hjob, hconn ▸ hcarried⟩

theorem set_keeps {threads : List Thread} (ht : threads[id]? = some t) (t' : Thread)
    (hmove : Settled t.phase → t'.conn = t.conn ∧ Settled t'.phase) :
    ∀ x ∈ threads, Settled x.phase →
      ∃ x' ∈ threads.set id t', x'.conn = x.conn ∧ Settled x'.phase := by
  intro x hx hsettled
  obtain ⟨front, back, hsplit, -, hset⟩ := Table.split_at ht
  rw [hset]
  rw [hsplit] at hx
  rcases List.mem_append.mp hx with hx | hx
  · exact ⟨x, List.mem_append_left _ hx, rfl, hsettled⟩
  rcases List.mem_cons.mp hx with rfl | hx
  · exact ⟨t', List.mem_append_right _ List.mem_cons_self, hmove hsettled⟩
  · exact ⟨x, List.mem_append_right _ (List.mem_cons_of_mem _ hx), rfl, hsettled⟩

-- One thread goes on, and the only job that can be new is one of its own.
theorem DaemonInv.move (h : DaemonInv s) (ht : s.threads[id]? = some t) (conn : Conn) (phase : Phase)
    (hthreads : s'.threads = s.threads.set id ⟨conn, phase⟩)
    (hverifying : s'.verifying = s.verifying) (hinv : ThreadInv ⟨conn, phase⟩)
    (hmove : Settled t.phase → conn = t.conn ∧ Settled phase)
    (hjobs : ∀ job ∈ s'.queue.jobs, job ∈ s.queue.jobs ∨
      (Settled phase ∧ job = makeJob conn job.kind job.step ∧ Carried conn job.step)) :
    DaemonInv s' := by
  have hkeep := set_keeps ht ⟨conn, phase⟩ hmove
  refine ⟨?_, fun job hjob => ?_, fun job hjob => ?_⟩
  · rw [hthreads]
    intro x hx
    rcases List.mem_or_eq_of_mem_set hx with hx | rfl
    · exact h.threads x hx
    · exact hinv
  · rw [hthreads]
    rcases hjobs job hjob with hold | ⟨hsettled, hnew⟩
    · exact (h.jobs job hold).mono hkeep
    · have hid : id < s.threads.length := (List.getElem?_eq_some_iff.mp ht).1
      exact ⟨⟨conn, phase⟩, List.mem_set hid _, hsettled, hnew⟩
  · rw [hthreads]
    exact (h.verifying job (hverifying ▸ hjob)).mono hkeep

theorem DaemonInv.thread (h : DaemonInv s) (ht : s.threads[id]? = some t) {phase : Phase}
    (hphase : t.phase = phase) : ThreadInv ⟨t.conn, phase⟩ := by
  rw [← hphase]
  exact h.threads t (List.mem_of_getElem? ht)

theorem setThread_threads (s : Daemon) (id : Nat) (conn : Conn) (phase : Phase) :
    (setThread s id conn phase).threads = s.threads.set id ⟨conn, phase⟩ := rfl

theorem submit_jobs {q : VerifyQueue} {job job' : VerifyJob} {now : Int64}
    (h : job' ∈ (tpdVerifySubmit q job now).jobs) : job' ∈ q.jobs ∨ job' = job := by
  unfold tpdVerifySubmit at h
  split at h
  · rcases List.mem_append.mp h with h | h
    · exact .inl h
    · exact .inr (List.mem_singleton.mp h)
  · exact .inl h

theorem resolveTrusted_inv (c : Conn) (ans : List DnsAddr) :
    (resolveTrusted c ans).plan.trust = .mismatch →
      ∃ a, Denotes (resolveTrusted c ans) .trusted a := by
  unfold resolveTrusted
  split
  · exact nofun
  · split
    · exact nofun
    · rename_i first rest hany
      exact fun _ => ⟨_, rfl, first, rest, Bool.eq_false_iff.mpr hany, rfl⟩

theorem attempt_stream {p : TpPlan} {step : TpStep} {timeoutMs : Nat}
    (h : tpPlanNext p = .attempt step timeoutMs) : IsStream step.strategy := by
  rcases (tpPlanNext_attempt h).kind with ⟨-, hs, -⟩ | ⟨-, t, hcached⟩
  · exact hs.stream
  · rcases (nextCached_attempt hcached).2 with ⟨c, -, rfl, -⟩ | ⟨hs, -⟩
    · exact isStream_streamStrategy _
    · exact hs.stream

-- The step of an attempt that got an answer is the plan's last one, and its target is
-- known.
theorem attempt_carried {c : Conn} {step : TpStep} {timeoutMs : Nat}
    (hnext : tpPlanNext c.plan = .attempt step timeoutMs)
    (htrusted : c.plan.trust = .mismatch → ∃ a, Denotes c .trusted a) {r : TpResult}
    (hr : r.answered = true) : Carried { c with plan := tpPlanRecord c.plan step r } step := by
  refine ⟨attempt_stream hnext, ⟨r, hr, ?_⟩, ?_⟩
  · rw [tpPlanRecord_eq (tpPlanNext_attempt hnext).room]
    exact List.mem_append_right _ List.mem_cons_self
  · cases htarget : step.target with
    | original => exact ⟨c.original, rfl⟩
    | trusted => exact htrusted (offer_trusted hnext htarget)

theorem commitLocked_rest (s : Daemon) (c : Conn) (step : TpStep) (now : Int64) :
    (commitLocked s c step now).1.threads = s.threads ∧
      (commitLocked s c step now).1.queue = s.queue ∧
      (commitLocked s c step now).1.verifying = s.verifying := by
  unfold commitLocked
  split
  · split <;> exact ⟨rfl, rfl, rfl⟩
  · exact ⟨rfl, rfl, rfl⟩

theorem failLocked_rest (s : Daemon) (c : Conn) (now : Int64) :
    (failLocked s c now).1.threads = s.threads ∧ (failLocked s c now).1.queue = s.queue ∧
      (failLocked s c now).1.verifying = s.verifying := by
  unfold failLocked
  split <;> exact ⟨rfl, rfl, rfl⟩

theorem applyResult_rest (s : Daemon) (job : VerifyJob) (r : ProbeResult) (now : Int64) :
    (applyResult s job r now).1.threads = s.threads ∧ (applyResult s job r now).1.queue = s.queue ∧
      (applyResult s job r now).1.verifying = s.verifying := by
  unfold applyResult
  split
  · exact ⟨rfl, rfl, rfl⟩
  · split <;> exact ⟨rfl, rfl, rfl⟩

theorem submitConfirm_rest (s : Daemon) (c : Conn) (step : TpStep) (now : Int64) :
    (submitConfirm s c step now).threads = s.threads ∧
      (submitConfirm s c step now).verifying = s.verifying ∧
      ∀ job ∈ (submitConfirm s c step now).queue.jobs,
        job ∈ s.queue.jobs ∨ job = makeJob c .confirm step := by
  unfold submitConfirm
  split
  · exact ⟨rfl, rfl, fun job hjob => submit_jobs hjob⟩
  · exact ⟨rfl, rfl, fun job hjob => .inl hjob⟩

theorem submitDirect_rest (s : Daemon) (c : Conn) (step : TpStep) (suspicious : Bool) (now : Int64) :
    (submitDirect s c step suspicious now).threads = s.threads ∧
      (submitDirect s c step suspicious now).verifying = s.verifying ∧
      ∀ job ∈ (submitDirect s c step suspicious now).queue.jobs,
        job ∈ s.queue.jobs ∨ job = makeJob c .direct step := by
  unfold submitDirect
  split
  · exact ⟨rfl, rfl, fun job hjob => submit_jobs hjob⟩
  · exact ⟨rfl, rfl, fun job hjob => .inl hjob⟩

-- A thread that has not settled goes on.
theorem DaemonInv.next (h : DaemonInv s) (ht : s.threads[id]? = some t) (hunsettled : ¬Settled t.phase) {conn : Conn}
    {phase : Phase} (hinv : ThreadInv ⟨conn, phase⟩) : DaemonInv (setThread s id conn phase) :=
  h.move ht conn phase (setThread_threads s id conn phase) rfl hinv (fun hsettled => absurd hsettled hunsettled)
    fun _ hjob => .inl hjob

-- A thread goes on after a step under the lock, which leaves the threads and the jobs.
theorem DaemonInv.locked (h : DaemonInv s) (ht : s.threads[id]? = some t)
    (hrest : s'.threads = s.threads ∧ s'.queue = s.queue ∧ s'.verifying = s.verifying)
    {phase : Phase} (hunsettled : ¬Settled t.phase) (hinv : ThreadInv ⟨t.conn, phase⟩) :
    DaemonInv (setThread s' id t.conn phase) := by
  obtain ⟨hthreads, hqueue, hverifying⟩ := hrest
  refine h.move ht t.conn phase ?_ hverifying hinv (fun hsettled => absurd hsettled hunsettled)
    fun job hjob => .inl ?_
  · rw [setThread_threads, hthreads]
  · exact congrArg VerifyQueue.jobs hqueue ▸ hjob

-- A thread goes on after it may have submitted a job.
theorem DaemonInv.submitted (h : DaemonInv s) (ht : s.threads[id]? = some t) {kind : VerifyKind}
    {step : TpStep} (hrest : s'.threads = s.threads ∧ s'.verifying = s.verifying ∧
      ∀ job ∈ s'.queue.jobs, job ∈ s.queue.jobs ∨ job = makeJob t.conn kind step)
    {phase : Phase} (hsettled : Settled phase) (hcarried : Carried t.conn step)
    (hinv : ThreadInv ⟨t.conn, phase⟩) : DaemonInv (setThread s' id t.conn phase) := by
  obtain ⟨hthreads, hverifying, hjobs⟩ := hrest
  refine h.move ht t.conn phase ?_ hverifying hinv (fun _ => ⟨rfl, hsettled⟩) fun job hjob => ?_
  · rw [setThread_threads, hthreads]
  · refine (hjobs job hjob).imp_right ?_
    rintro rfl
    exact ⟨hsettled, rfl, hcarried⟩

theorem accept_inv (h : DaemonInv s) (family : AddrFamily) (original : SockAddr) :
    DaemonInv { s with
      threads := s.threads ++ [⟨⟨family, original, [], tpPlanInit, none, 0⟩, .hello⟩] } := by
  have hkeep : ∀ t ∈ s.threads, Settled t.phase →
      ∃ t' ∈ s.threads ++ [⟨⟨family, original, [], tpPlanInit, none, 0⟩, .hello⟩],
        t'.conn = t.conn ∧ Settled t'.phase :=
    fun t ht hsettled => ⟨t, List.mem_append_left _ ht, rfl, hsettled⟩
  refine ⟨fun t ht => ?_, fun job hjob => (h.jobs job hjob).mono hkeep,
    fun job hjob => (h.verifying job hjob).mono hkeep⟩
  rcases List.mem_append.mp ht with ht | ht
  · exact h.threads t ht
  · rw [List.mem_singleton.mp ht]
    exact trivial

theorem step_inv (h : DaemonInv s) (e : Event) : DaemonInv (daemonStep s e).1 := by
  have hturn := daemonStep_turn s e
  generalize (daemonStep s e).1 = s', (daemonStep s e).2 = w at hturn ⊢
  have hunsettled : ∀ {t : Thread} {phase : Phase}, t.phase = phase → ¬Settled phase →
      ¬Settled t.phase := fun hphase hnot => hphase ▸ hnot
  cases hturn with
  | idle => exact h
  | accept family original => exact accept_inv h family original
  | @fillPlan id t host now ht hphase =>
      apply h.next ht (hunsettled hphase not_false)
      split
      · exact trivial
      · intro hmismatch
        unfold fillPlan at hmismatch
        split at hmismatch <;> cases hmismatch
  | @resolveTrusted id t ans ht hphase hnext =>
      exact h.next ht (hunsettled hphase not_false) (resolveTrusted_inv t.conn ans)
  | @attempt id t result step timeoutMs ht hphase hnext =>
      have hplanning : t.conn.plan.trust = .mismatch → ∃ a, Denotes t.conn .trusted a :=
        h.thread ht hphase
      apply h.next ht (hunsettled hphase not_false)
      split
      · rename_i hanswered
        exact attempt_carried hnext hplanning hanswered
      · intro hmismatch
        rw [tpPlanRecord_eq (tpPlanNext_attempt hnext).room] at hmismatch
        exact hplanning hmismatch
  | @fail id t now ht hphase hnext =>
      exact h.locked ht (failLocked_rest s t.conn now) (hunsettled hphase not_false) trivial
  | @commit id t step now ht hphase =>
      have hcarried : Carried t.conn step := h.thread ht hphase
      exact h.locked ht (commitLocked_rest s t.conn step now) (hunsettled hphase not_false) hcarried
  | @submitConfirm id t step now ht hphase =>
      have hcarried : Carried t.conn step := h.thread ht hphase
      exact h.submitted ht (submitConfirm_rest s t.conn step now) trivial hcarried hcarried
  | @relayed id t step suspicious now ht hphase =>
      have hcarried : Carried t.conn step := h.thread ht hphase
      exact h.submitted ht (submitDirect_rest s t.conn step suspicious now) trivial hcarried trivial
  | @takeJob job jobs hidle hjobs =>
      have hbefore : ∀ j ∈ job :: jobs, JobOf s.threads j := by
        rw [← hjobs]
        exact h.jobs
      constructor
      case threads => exact h.threads
      case jobs =>
        intro j hj
        exact hbefore j (List.mem_cons_of_mem job hj)
      case verifying =>
        intro j hj
        rw [← Option.some.inj hj]
        exact hbefore job List.mem_cons_self
  | @applyResult job handshake now hjob =>
      obtain ⟨hthreads, hqueue, hverifying⟩ :=
        applyResult_rest { s with verifying := none } job (verifyJob handshake) now
      have hidle : DaemonInv { s with verifying := none } := ⟨h.threads, h.jobs, by simp⟩
      exact hidle.same hthreads hqueue hverifying
  | checkNetwork fp =>
      unfold checkNetwork
      split
      · exact h.same rfl rfl rfl
      · exact h
  | reload cfg => exact h.same rfl rfl rfl
  | save =>
      unfold saveDecisions
      split
      · exact h.same rfl rfl rfl
      · exact h

end Threads

theorem init_daemonInv (cfg : StrategyConfig) (fp : UInt64) (file : Option Bytes) :
    DaemonInv (daemonInit cfg fp file) := by
  have hthreads : (daemonInit cfg fp file).threads = [] := rfl
  have hjobs : (daemonInit cfg fp file).queue.jobs = [] := rfl
  have hverifying : (daemonInit cfg fp file).verifying = none := rfl
  constructor
  case threads => simp [hthreads]
  case jobs => simp [hjobs]
  case verifying => simp [hverifying]

theorem run_inv (cfg : StrategyConfig) (fp : UInt64) (file : Option Bytes) (es : List Event) :
    DaemonInv (Machine.run daemonStep (daemonInit cfg fp file) es).1 :=
  Machine.run_invariant daemonStep (fun _ _ s => DaemonInv s) (init_daemonInv cfg fp file)
    (fun _ _ _ e h => step_inv h e) es

-- An event writes an entry: the verifier has confirmed a step that carried a connection
-- of the current network, over the address the step stands for there. `sameHost` says
-- how the host of the entry and the host of the job compare.
inductive Verified (sameHost : Bytes → Bytes → Prop) (s : Daemon) (e : TpDecision) : Event → Prop where
  | confirm (job : VerifyJob) (t : Thread) (a : SockAddr) (handshake : Option TlscResult)
      (now : Int64) (taken : s.verifying = some job) (kind : job.kind = .confirm)
      (verified : verifyJob handshake = .success) (current : job.fp = s.fp)
      (known : job.fp ≠ NETFP_UNKNOWN) (thread : t ∈ s.threads)
      (made : job = makeJob t.conn .confirm job.step) (carried : Carried t.conn job.step)
      (addr : job.addr = some a) (denotes : Denotes t.conn job.step.target a)
      (host : sameHost e.host job.host) (fingerprint : e.fingerprint = job.fp)
      (family : e.family = job.family) (step : e.step = job.step) (time : e.validatedAt = now) :
      Verified sameHost s e (.applyResult handshake now)

-- An entry that has been there since the decisions file was read, or since one event
-- wrote it.
def Origin (sameHost : Bytes → Bytes → Prop) (start : Daemon) (es : List Event) (e : TpDecision) :
    Prop :=
  (∀ es₁, es₁ <+: es → e ∈ (Machine.run daemonStep start es₁).1.dec.entries) ∨
    ∃ es₁ ev es₂, es = es₁ ++ ev :: es₂ ∧
      Verified sameHost (Machine.run daemonStep start es₁).1 e ev ∧
      ∀ es₃, es₃ <+: es₂ → e ∈ (Machine.run daemonStep start (es₁ ++ ev :: es₃)).1.dec.entries

def OnlyRemoves (before after : List TpDecision) : Prop :=
  after = before ∨ ∃ front e back, before = front ++ e :: back ∧ after.Perm (front ++ back)

section Store

variable {s : Daemon} {e : TpDecision}

-- What the calls of a connection do to the entries.
theorem commitLocked_removes (s : Daemon) (c : Conn) (step : TpStep) (now : Int64) :
    OnlyRemoves s.dec.entries (commitLocked s c step now).1.dec.entries := by
  unfold commitLocked
  split
  · rename_i hdirect
    split
    · cases success_effect s.dec c.host c.fp c.family.number now step with
      | none hentries => exact .inl hentries
      | remove front e back hbefore hkey hafter => exact .inr ⟨front, e, back, hbefore, hafter⟩
      | put e hputs => exact absurd (of_decide_eq_true hdirect) hputs.2.1
    · exact .inl rfl
  · exact .inl rfl

theorem failLocked_removes (s : Daemon) (c : Conn) (now : Int64) :
    OnlyRemoves s.dec.entries (failLocked s c now).1.dec.entries := by
  unfold failLocked
  split
  · cases failure_effect s.dec c.host c.fp c.family.number now with
    | none hentries => exact .inl hentries
    | remove front e back hbefore hkey hafter => exact .inr ⟨front, e, back, hbefore, hafter⟩
    | put e hputs => exact hputs.elim
  · exact .inl rfl

theorem OnlyRemoves.mem {before after : List TpDecision} (h : OnlyRemoves before after)
    (he : e ∈ after) : e ∈ before := by
  rcases h with rfl | ⟨front, x, back, rfl, hperm⟩
  · exact he
  · exact List.mem_append.mpr ((List.mem_append.mp (hperm.subset he)).imp_right
      (List.mem_cons_of_mem x))

theorem applyResult_verified (hinv : DaemonInv s) {job : VerifyJob} (hjob : s.verifying = some job)
    (handshake : Option TlscResult) (now : Int64)
    (he : e ∈ (applyResult { s with verifying := none } job (verifyJob handshake) now).1.dec.entries) :
    e ∈ s.dec.entries ∨
      Verified (fun a b => ieq a b = true) s e (.applyResult handshake now) := by
  unfold applyResult at he
  split at he
  · have heffect := update_effect s.dec (.store (.directBadMark job.host job.fp job.family now))
    exact (heffect.mem he).imp_right fun ⟨e', hputs, _⟩ => hputs.elim
  · split at he
    · rename_i hconfirm
      obtain ⟨hcurrent, hkind, hverified⟩ := hconfirm
      have heffect := success_effect s.dec job.host job.fp job.family now job.step
      refine (heffect.mem he).imp_right ?_
      rintro ⟨e', ⟨hknown, -, rfl⟩, hkey, hstep, htime⟩
      obtain ⟨t, ht, -, hmade, hcarried⟩ := hinv.verifying job hjob
      obtain ⟨a, ha⟩ := hcarried.addr
      rw [hkind] at hmade
      have haddr : job.addr = some a := by
        rw [hmade]
        exact makeJob_addr ha
      obtain ⟨hfp, hfamily, hhost⟩ := (matches_iff e job.host job.fp job.family).mpr hkey
      exact .confirm job t a handshake now hjob hkind hverified hcurrent.symm hknown ht hmade
        hcarried haddr ha hhost hfp hfamily hstep htime
    · exact .inl he

-- The only event that writes an entry is a verifier's success.
theorem step_verified (hinv : DaemonInv s) (ev : Event) (he : e ∈ (daemonStep s ev).1.dec.entries) :
    e ∈ s.dec.entries ∨ Verified (fun a b => ieq a b = true) s e ev := by
  have hturn := daemonStep_turn s ev
  generalize (daemonStep s ev).1 = s', (daemonStep s ev).2 = w at hturn he
  cases hturn with
  | idle => exact .inl he
  | accept => exact .inl he
  | fillPlan => exact .inl he
  | resolveTrusted => exact .inl he
  | attempt => exact .inl he
  | @fail id t now => exact .inl ((failLocked_removes s t.conn now).mem he)
  | @commit id t step now => exact .inl ((commitLocked_removes s t.conn step now).mem he)
  | submitConfirm =>
      unfold submitConfirm at he
      split at he <;> exact .inl he
  | relayed =>
      unfold submitDirect at he
      split at he <;> exact .inl he
  | takeJob => exact .inl he
  | applyResult handshake now hjob => exact applyResult_verified hinv hjob handshake now he
  | checkNetwork fp =>
      unfold checkNetwork at he
      split at he <;> exact .inl he
  | reload => exact .inl he
  | save =>
      unfold saveDecisions at he
      split at he <;> exact .inl he

theorem commit_removes (s : Daemon) (id : Nat) (now : Int64) :
    OnlyRemoves s.dec.entries (daemonStep s (.commit id now)).1.dec.entries := by
  have hturn := daemonStep_turn s (.commit id now)
  generalize (daemonStep s (.commit id now)).1 = s', (daemonStep s (.commit id now)).2 = w at hturn ⊢
  cases hturn with
  | idle => exact .inl rfl
  | @commit _ t step => exact commitLocked_removes s t.conn step now

end Store

-- In every run, each entry is one of the decisions file or one that the verifier has
-- confirmed for its network, and a commit takes away at most one entry.
theorem decisions_verified (cfg : StrategyConfig) (fp : UInt64) (file : Option Bytes)
    (es : List Event) (id : Nat) (now : Int64) :
    (∀ e ∈ (Machine.run daemonStep (daemonInit cfg fp file) es).1.dec.entries,
      Origin (fun a b => ieq a b = true) (daemonInit cfg fp file) es e) ∧
    OnlyRemoves (Machine.run daemonStep (daemonInit cfg fp file) es).1.dec.entries
      (daemonStep (Machine.run daemonStep (daemonInit cfg fp file) es).1 (.commit id now)).1.dec.entries := by
  refine ⟨fun e he => ?_, commit_removes _ id now⟩
  exact Machine.run_origin daemonStep (fun s e => e ∈ s.dec.entries)
    (fun s ev e => Verified (fun a b => ieq a b = true) s e ev)
    (fun es ev e => step_verified (run_inv cfg fp file es) ev) es e he

-- A decisions file with one entry, whose host has a capital letter, and a connection to
-- the host in small letters on which only tlsrec-split gets an answer.
def spelled : TpDecision :=
  ⟨ascii ['E', 'x', '.', 'c', 'o', 'm'], 7, 4, ⟨.original, .tlsrec⟩, 100⟩

def respelled : List Event :=
  [.accept .inet ⟨.inet, [1, 2, 3, 4], 443⟩, .fillPlan 0 (ascii ['e', 'x', '.', 'c', 'o', 'm']) 200,
    .attempt 0 .timeout, .attempt 0 .timeout, .resolveTrusted 0 [], .attempt 0 .ok, .commit 0 200,
    .submitConfirm 0 200, .takeJob]

-- The confirmed step is written to the entry of the file, under the name that has.
theorem respelled_keeps_name :
    ¬∀ e ∈ (Machine.run daemonStep (daemonInit strategyConfigInit 7 (some (entryLine spelled)))
        (respelled ++ [.applyResult (some .ok) 300])).1.dec.entries,
      Origin (· = ·) (daemonInit strategyConfigInit 7 (some (entryLine spelled)))
        (respelled ++ [.applyResult (some .ok) 300]) e := by
  intro h
  rcases h { spelled with step := ⟨.original, .tlsrecSplit⟩, validatedAt := 300 } (by decide +kernel) with
    hloaded | ⟨es₁, ev, es₂, hsplit, hverified, -⟩
  · exact absurd (hloaded [] (List.nil_prefix)) (by decide +kernel)
  · rcases List.eq_nil_or_concat es₂ with rfl | ⟨init, last, rfl⟩
    · obtain ⟨rfl, -⟩ := List.append_inj' hsplit rfl
      cases hverified with
      | confirm job t a handshake now taken kind verified current known thread made carried addr
          denotes host =>
          have hname : (Machine.run daemonStep (daemonInit strategyConfigInit 7
              (some (entryLine spelled))) respelled).1.verifying.map (·.host) =
              some (ascii ['e', 'x', '.', 'c', 'o', 'm']) := by decide +kernel
          rw [taken, Option.map_some, ← host] at hname
          exact absurd hname (by decide)
    · rw [List.concat_eq_append, ← List.cons_append, ← List.append_assoc] at hsplit
      have hbefore := (List.append_inj' hsplit rfl).1
      have hmem : ev ∈ respelled := hbefore ▸ List.mem_append_right _ List.mem_cons_self
      cases hverified with
      | confirm => simp [respelled] at hmem

end DpiProxy.Transparent
