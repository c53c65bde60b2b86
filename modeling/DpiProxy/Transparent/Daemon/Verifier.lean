import DpiProxy.Table.Ring
import DpiProxy.Transparent.Daemon.Lemmas
import DpiProxy.Wire.Age

namespace DpiProxy.Transparent

open Wire CText

-- The queue and the job that verifier_main works on.
structure Verifier where
  queue : VerifyQueue
  job : Option VerifyJob

def verifierInit : Verifier := ⟨verifyQueueInit, none⟩

-- A call of tpd_verify_submit, or the next thing that verifier_main does: it takes a job,
-- or it ends its work on the one it has.
inductive VerifierEvent where
  | submit (job : VerifyJob) (now : Int64)
  | main
deriving DecidableEq, Repr

inductive VerifierReport where
  | accepted (job : VerifyJob) (now : Int64)
  | processed (job : VerifyJob)
deriving DecidableEq, Repr

def acceptsJob (q : VerifyQueue) (job : VerifyJob) (now : Int64) : Bool :=
  !seenRecently q job now ∧ q.jobs.length < QUEUE_MAX

def verifierStep (v : Verifier) : VerifierEvent → Verifier × Option VerifierReport
  | .submit job now =>
      ({ v with queue := tpdVerifySubmit v.queue job now },
        if acceptsJob v.queue job now then some (.accepted job now) else none)
  | .main =>
      match v.job, v.queue.jobs with
      | some job, _ => ({ v with job := none }, some (.processed job))
      | none, job :: jobs => ({ queue := { v.queue with jobs := jobs }, job := some job }, none)
      | none, [] => (v, none)

def VerifierReport.accepted? : VerifierReport → Option (VerifyJob × Int64)
  | .accepted job now => some (job, now)
  | .processed _ => none

def VerifierReport.processed? : VerifierReport → Option VerifyJob
  | .accepted _ _ => none
  | .processed job => some job

-- The accepted jobs with their times and the processed ones, each in order.
def acceptedJobs (reports : List VerifierReport) : List (VerifyJob × Int64) :=
  reports.filterMap VerifierReport.accepted?

def processedJobs (reports : List VerifierReport) : List VerifyJob :=
  reports.filterMap VerifierReport.processed?

def VerifierEvent.time? : VerifierEvent → Option Int64
  | .submit _ now => some now
  | .main => none

-- The clock of the submitters is set and does not go back.
structure ClockInOrder (es : List VerifierEvent) : Prop where
  positive : ∀ now ∈ es.filterMap VerifierEvent.time?, 0 < now
  sorted : (es.filterMap VerifierEvent.time?).Pairwise (· ≤ ·)

-- What jobs are compared by.
def VerifyJob.key (job : VerifyJob) : VerifyKind × Bytes × Int32 × TpStep :=
  (job.kind, job.host.map tolower, job.family, job.step)

def recentOf (a : VerifyJob × Int64) : Recent := ⟨a.1.host, a.1.kind, a.1.family, a.1.step, a.2⟩

-- A job and a later one of the same key, inside the window.
def SameLately (a b : VerifyJob × Int64) : Prop :=
  a.1.key = b.1.key ∧ b.2.toInt - a.2.toInt < RECENT_WINDOW_S.toInt

section Submit

variable {q : VerifyQueue} {job : VerifyJob} {now : Int64}

theorem tpdVerifySubmit_accepted (h : acceptsJob q job now = true) :
    (tpdVerifySubmit q job now).jobs = q.jobs ++ [job] ∧ q.jobs.length < QUEUE_MAX ∧
      (tpdVerifySubmit q job now).recent = q.recent.set q.recentNext (recentOf (job, now)) ∧
      (tpdVerifySubmit q job now).recentNext = (q.recentNext + 1) % RECENT_MAX := by
  have hcond := of_decide_eq_true h
  rw [tpdVerifySubmit, if_pos hcond]
  exact ⟨rfl, hcond.2, rfl, rfl⟩

theorem tpdVerifySubmit_refused (h : ¬acceptsJob q job now = true) : tpdVerifySubmit q job now = q := by
  rw [tpdVerifySubmit, if_neg]
  exact fun hcond => h (decide_eq_true hcond)

-- Whoever is in the ring with a time of the past speaks against the same key.
theorem seenRecently_of_recent {a : VerifyJob × Int64} (hmem : recentOf a ∈ q.recent) (hpos : 0 < a.2)
    (hpast : a.2 ≤ now) (hsame : SameLately a (job, now)) : seenRecently q job now = true := by
  obtain ⟨hkey, hwindow⟩ := hsame
  simp only [VerifyJob.key, Prod.mk.injEq] at hkey
  obtain ⟨hkind, hhost, hfamily, hstep⟩ := hkey
  rw [Int64.lt_iff_toInt_lt, Int64.toInt_zero] at hpos
  have hage : (now - a.2).toInt = now.toInt - a.2.toInt := by
    refine toInt_age hpast ?_
    have hmax := now.toInt_lt
    unfold LLONG_MAX
    omega
  refine List.any_eq_true.mpr ⟨recentOf a, hmem, decide_eq_true ⟨?_, ?_, hkind, hfamily, hstep, ?_⟩⟩
  · intro hzero
    have htime : a.2 = 0 := hzero
    rw [htime, Int64.toInt_zero] at hpos
    omega
  · rw [Int64.lt_iff_toInt_lt]
    exact hage ▸ hwindow
  · exact (ieq_iff _ _).mpr hhost

end Submit

-- What one event can do.
inductive VerifierTurn (v : Verifier) : VerifierEvent → Verifier → Option VerifierReport → Prop where
  | accept {job : VerifyJob} {now : Int64} (h : acceptsJob v.queue job now = true) :
      VerifierTurn v (.submit job now) { v with queue := tpdVerifySubmit v.queue job now }
        (some (.accepted job now))
  | refuse {job : VerifyJob} {now : Int64} (h : ¬acceptsJob v.queue job now = true) :
      VerifierTurn v (.submit job now) v none
  | take {job : VerifyJob} {jobs : List VerifyJob} (hidle : v.job = none) (hjobs : v.queue.jobs = job :: jobs) :
      VerifierTurn v .main { queue := { v.queue with jobs := jobs }, job := some job } none
  | finish {job : VerifyJob} (hjob : v.job = some job) :
      VerifierTurn v .main { v with job := none } (some (.processed job))
  | wait (hidle : v.job = none) (hjobs : v.queue.jobs = []) : VerifierTurn v .main v none

theorem verifierStep_turn (v : Verifier) (e : VerifierEvent) :
    VerifierTurn v e (verifierStep v e).1 (verifierStep v e).2 := by
  cases e with
  | submit job now =>
      by_cases h : acceptsJob v.queue job now = true
      · rw [verifierStep, if_pos h]
        exact .accept h
      · rw [verifierStep, if_neg h, tpdVerifySubmit_refused h]
        exact .refuse h
  | main =>
      cases hjob : v.job with
      | some job =>
          simp only [verifierStep, hjob]
          exact .finish hjob
      | none =>
          cases hjobs : v.queue.jobs with
          | cons job jobs =>
              simp only [verifierStep, hjob, hjobs]
              exact .take hjob hjobs
          | nil =>
              simp only [verifierStep, hjob, hjobs]
              exact .wait hjob hjobs

section Reports

variable (reports : List VerifierReport) (job : VerifyJob) (now : Int64)

@[simp] theorem acceptedJobs_accepted :
    acceptedJobs (reports ++ [.accepted job now]) = acceptedJobs reports ++ [(job, now)] := by
  simp [acceptedJobs, VerifierReport.accepted?]

@[simp] theorem acceptedJobs_processed : acceptedJobs (reports ++ [.processed job]) = acceptedJobs reports := by
  simp [acceptedJobs, VerifierReport.accepted?]

@[simp] theorem processedJobs_accepted : processedJobs (reports ++ [.accepted job now]) = processedJobs reports := by
  simp [processedJobs, VerifierReport.processed?]

@[simp] theorem processedJobs_processed :
    processedJobs (reports ++ [.processed job]) = processedJobs reports ++ [job] := by
  simp [processedJobs, VerifierReport.processed?]

end Reports

-- The jobs accepted so far are those processed, the one at work and those that wait.
structure VerifierInv (reports : List VerifierReport) (v : Verifier) : Prop where
  order : (acceptedJobs reports).map (·.1) = processedJobs reports ++ v.job.toList ++ v.queue.jobs
  bounded : v.queue.jobs.length ≤ QUEUE_MAX
  ring : Table.RingLog v.queue.recent v.queue.recentNext ((acceptedJobs reports).map recentOf)

theorem verifierInv_init : VerifierInv [] verifierInit where
  order := rfl
  bounded := Nat.zero_le _
  ring := Table.RingLog.empty _

theorem VerifierInv.step {reports : List VerifierReport} {v : Verifier} (h : VerifierInv reports v)
    (e : VerifierEvent) :
    VerifierInv (reports ++ (verifierStep v e).2.toList) (verifierStep v e).1 := by
  have hturn := verifierStep_turn v e
  generalize (verifierStep v e).1 = v', (verifierStep v e).2 = report at hturn ⊢
  cases hturn with
  | @accept job now haccepts =>
      obtain ⟨hjobs, hroom, hrecent, hnext⟩ := tpdVerifySubmit_accepted haccepts
      have hne : v.queue.recent ≠ [] := by
        intro hnil
        have hsize := v.queue.recentSize
        rw [hnil, RECENT_MAX, List.length_nil] at hsize
        omega
      refine ⟨?_, ?_, ?_⟩
      · simp only [Option.toList_some, acceptedJobs_accepted, processedJobs_accepted, List.map_append,
          h.order, hjobs, List.append_assoc, List.map_cons, List.map_nil]
      · rw [hjobs, List.length_append]
        exact hroom
      · simp only [Option.toList_some, acceptedJobs_accepted, List.map_append, List.map_cons, List.map_nil,
          hrecent, hnext, ← v.queue.recentSize]
        exact h.ring.push hne (recentOf (job, now))
  | refuse =>
      rw [Option.toList_none, List.append_nil]
      exact h
  | @take job jobs hidle hjobs =>
      rw [Option.toList_none, List.append_nil]
      have horder := h.order
      have hbounded := h.bounded
      rw [hjobs] at horder hbounded
      rw [hidle, Option.toList_none, List.append_nil] at horder
      refine ⟨?_, ?_, h.ring⟩
      · rw [horder, Option.toList_some, List.append_assoc, List.singleton_append]
      · exact Nat.le_of_succ_le hbounded
  | @finish job hjob =>
      have horder := h.order
      rw [hjob, Option.toList_some] at horder
      refine ⟨?_, h.bounded, ?_⟩
      · simp only [Option.toList_some, acceptedJobs_processed, processedJobs_processed, Option.toList_none,
          List.append_nil, horder]
      · rw [Option.toList_some, acceptedJobs_processed]
        exact h.ring
  | wait =>
      rw [Option.toList_none, List.append_nil]
      exact h

theorem verifierInv_run (es : List VerifierEvent) :
    VerifierInv (Machine.run verifierStep verifierInit es).2 (Machine.run verifierStep verifierInit es).1 :=
  Machine.run_invariant verifierStep (fun _ reports v => VerifierInv reports v) verifierInv_init
    (fun _ _ _ e h => h.step e) es

theorem acceptedJobs_grows (reports reports' : List VerifierReport) :
    acceptedJobs reports <+: acceptedJobs (reports ++ reports') := by
  rw [acceptedJobs, acceptedJobs, List.filterMap_append]
  exact List.prefix_append _ _

-- How far verifier_main is: each job counts once when it is taken and once when it is done.
def workDone (reports : List VerifierReport) (v : Verifier) : Nat :=
  2 * (processedJobs reports).length + v.job.toList.length

-- As long as an accepted job is left, verifier_main gets on with every turn of its own.
theorem VerifierInv.workDone_step {reports : List VerifierReport} {v : Verifier} (h : VerifierInv reports v)
    (e : VerifierEvent) :
    min (2 * (acceptedJobs reports).length) (workDone reports v + [e].count .main) ≤
      workDone (reports ++ (verifierStep v e).2.toList) (verifierStep v e).1 := by
  have hlen := congrArg List.length h.order
  simp only [List.length_map, List.length_append] at hlen
  have hturn := verifierStep_turn v e
  generalize (verifierStep v e).1 = v', (verifierStep v e).2 = report at hturn ⊢
  cases hturn with
  | accept => simp [workDone]
  | refuse => simp [workDone]
  | take hidle hjobs => simp [workDone, hidle]
  | finish hjob =>
      simp only [workDone, hjob, Option.toList_some, Option.toList_none, processedJobs_processed,
        List.length_append, List.length_singleton, List.length_nil, List.count_singleton_self]
      omega
  | wait hidle hjobs =>
      rw [hidle, hjobs] at hlen
      simp only [Option.toList_none, List.length_nil] at hlen
      simp only [workDone, Option.toList_none, List.append_nil]
      omega

theorem workDone_run (es es' : List VerifierEvent) :
    min (2 * (acceptedJobs (Machine.run verifierStep verifierInit es).2).length)
        (workDone (Machine.run verifierStep verifierInit es).2 (Machine.run verifierStep verifierInit es).1 +
          es'.count .main) ≤
      workDone (Machine.run verifierStep verifierInit (es ++ es')).2
        (Machine.run verifierStep verifierInit (es ++ es')).1 := by
  induction es' using List.reverseRecOn with
  | nil =>
      rw [List.append_nil, List.count_nil]
      exact Nat.min_le_right _ _
  | append_singleton es' e ih =>
      have hstep := (verifierInv_run (es ++ es')).workDone_step e
      have hmore := (acceptedJobs_grows (Machine.run verifierStep verifierInit es).2
        (Machine.run verifierStep (Machine.run verifierStep verifierInit es).1 es').2).length_le
      rw [← List.append_assoc, Machine.run_concat, List.count_append]
      rw [Machine.run_append] at hstep ih ⊢
      dsimp only at hstep ih ⊢
      omega

-- When verifier_main has had that many turns, all that was accepted before is done.
theorem accepted_are_processed (es es' : List VerifierEvent)
    (hturns : (Machine.run verifierStep verifierInit es).1.job.toList.length +
      2 * (Machine.run verifierStep verifierInit es).1.queue.jobs.length ≤ es'.count .main) :
    (acceptedJobs (Machine.run verifierStep verifierInit es).2).map (·.1) <+:
      processedJobs (Machine.run verifierStep verifierInit (es ++ es')).2 := by
  have hlen := congrArg List.length (verifierInv_run es).order
  have hwork := workDone_run es es'
  have hmore : (acceptedJobs (Machine.run verifierStep verifierInit es).2).map (·.1) <+:
      (acceptedJobs (Machine.run verifierStep verifierInit (es ++ es')).2).map (·.1) := by
    rw [Machine.run_append]
    exact (acceptedJobs_grows _ _).map _
  rw [(verifierInv_run (es ++ es')).order, List.append_assoc] at hmore
  refine List.prefix_of_prefix_length_le hmore (List.prefix_append _ _) ?_
  have hone : (Machine.run verifierStep verifierInit (es ++ es')).1.job.toList.length ≤ 1 :=
    Option.length_toList_le
  simp only [List.length_map, List.length_append, workDone] at hlen hwork ⊢
  omega

section Clock

variable {es : List VerifierEvent} {e : VerifierEvent}

theorem ClockInOrder.init (h : ClockInOrder (es ++ [e])) : ClockInOrder es := by
  obtain ⟨hpositive, hsorted⟩ := h
  rw [List.filterMap_append] at hpositive hsorted
  exact ⟨fun now hnow => hpositive now (List.mem_append_left _ hnow), (List.pairwise_append.mp hsorted).1⟩

theorem ClockInOrder.last {job : VerifyJob} {now before : Int64} (h : ClockInOrder (es ++ [.submit job now]))
    (hbefore : before ∈ es.filterMap VerifierEvent.time?) : 0 < before ∧ before ≤ now := by
  refine ⟨h.init.positive before hbefore, ?_⟩
  have hsorted := h.sorted
  rw [List.filterMap_append] at hsorted
  exact (List.pairwise_append.mp hsorted).2.2 before hbefore now (by simp [VerifierEvent.time?])

end Clock

-- The accepted jobs carry the times of their submits, and those of one key in one window are far apart.
structure DedupInv (es : List VerifierEvent) (reports : List VerifierReport) (v : Verifier) : Prop
    extends VerifierInv reports v where
  times : ∀ a ∈ acceptedJobs reports, a.2 ∈ es.filterMap VerifierEvent.time?
  spaced : ClockInOrder es → Table.Spaced SameLately RECENT_MAX (acceptedJobs reports)

theorem DedupInv.step {es : List VerifierEvent} {reports : List VerifierReport} {v : Verifier}
    (h : DedupInv es reports v) (e : VerifierEvent) :
    DedupInv (es ++ [e]) (reports ++ (verifierStep v e).2.toList) (verifierStep v e).1 := by
  refine { h.toVerifierInv.step e with times := ?_, spaced := ?_ }
  · intro a ha
    rw [List.filterMap_append]
    have hturn := verifierStep_turn v e
    generalize (verifierStep v e).1 = v', (verifierStep v e).2 = report at hturn ha ⊢
    cases hturn with
    | @accept job now haccepts =>
        rw [Option.toList_some, acceptedJobs_accepted] at ha
        rcases List.mem_append.mp ha with ha | ha
        · exact List.mem_append_left _ (h.times a ha)
        · obtain rfl := List.mem_singleton.mp ha
          simp [VerifierEvent.time?]
    | refuse | take | wait =>
        rw [Option.toList_none, List.append_nil] at ha
        exact List.mem_append_left _ (h.times a ha)
    | finish =>
        rw [Option.toList_some, acceptedJobs_processed] at ha
        exact List.mem_append_left _ (h.times a ha)
  · intro hclock
    have hbefore := h.spaced hclock.init
    have hturn := verifierStep_turn v e
    generalize (verifierStep v e).1 = v', (verifierStep v e).2 = report at hturn ⊢
    cases hturn with
    | @accept job now haccepts =>
        rw [Option.toList_some, acceptedJobs_accepted]
        refine hbefore.concat fun i a hi hlast hsame => ?_
        have hmem : recentOf a ∈ v.queue.recent := by
          refine h.ring.mem (i := i) ?_ ?_
          · rw [List.getElem?_map, hi, Option.map_some]
          · rw [List.length_map, v.queue.recentSize]
            exact hlast
        obtain ⟨hpos, hpast⟩ := hclock.last (h.times a (List.mem_of_getElem? hi))
        have hseen := seenRecently_of_recent hmem hpos hpast hsame
        have hunseen := (of_decide_eq_true haccepts).1
        rw [hseen] at hunseen
        cases hunseen
    | refuse | take | wait =>
        rw [Option.toList_none, List.append_nil]
        exact hbefore
    | finish =>
        rw [Option.toList_some, acceptedJobs_processed]
        exact hbefore

theorem dedupInv_run (es : List VerifierEvent) :
    DedupInv es (Machine.run verifierStep verifierInit es).2 (Machine.run verifierStep verifierInit es).1 := by
  refine Machine.run_invariant verifierStep DedupInv ?_ (fun _ _ _ e h => h.step e) es
  refine { verifierInv_init with times := fun a ha => ?_, spaced := fun _ i j x y _ hi _ _ => ?_ }
  · simp [acceptedJobs] at ha
  · simp [acceptedJobs] at hi

-- What submitters and the network can count on.
structure QueueGuarantee (es : List VerifierEvent) : Prop where
  bounded : (Machine.run verifierStep verifierInit es).1.queue.jobs.length ≤ QUEUE_MAX
  order :
    let run := Machine.run verifierStep verifierInit es
    (acceptedJobs run.2).map (·.1) = processedJobs run.2 ++ run.1.job.toList ++ run.1.queue.jobs
  served : ∀ es',
    let run := Machine.run verifierStep verifierInit es
    run.1.job.toList.length + 2 * run.1.queue.jobs.length ≤ es'.count .main →
      (acceptedJobs run.2).map (·.1) <+: processedJobs (Machine.run verifierStep verifierInit (es ++ es')).2
  spaced : ∀ i j a b,
    let accepted := acceptedJobs (Machine.run verifierStep verifierInit es).2
    i < j → accepted[i]? = some a → accepted[j]? = some b → a.1.key = b.1.key →
      b.2.toInt - a.2.toInt < RECENT_WINDOW_S.toInt → RECENT_MAX ≤ j - i - 1
  full : ∀ job now,
    let q := (Machine.run verifierStep verifierInit es).1.queue
    QUEUE_MAX ≤ q.jobs.length → tpdVerifySubmit q job now = q

theorem verifier_queue (es : List VerifierEvent) (hclock : ClockInOrder es) : QueueGuarantee es := by
  have hinv := dedupInv_run es
  refine ⟨hinv.bounded, hinv.order, accepted_are_processed es, ?_, ?_⟩
  · intro i j a b accepted hlt hi hj hkey hwindow
    have hfar := hinv.spaced hclock i j a b hlt hi hj ⟨hkey, hwindow⟩
    omega
  · intro job now q hfull
    refine tpdVerifySubmit_refused fun haccepts => ?_
    have hroom := (of_decide_eq_true haccepts).2
    omega

def confirmJob : VerifyJob where
  kind := .confirm
  host := ascii ['a', '.', 'b']
  family := 4
  fp := 1
  step := ⟨.original, .split⟩
  addr := none
  original := ⟨.inet, [192, 0, 2, 1], 443⟩

-- The second submit is inside the window of the first one, the third is not.
def resubmits : List VerifierEvent :=
  [.submit confirmJob 5, .main, .submit { confirmJob with host := ascii ['A', '.', 'b'] } 604, .main,
    .submit confirmJob 605]

theorem verifier_queue_resubmits :
    ClockInOrder resubmits ∧ QueueGuarantee resubmits ∧
      acceptedJobs (Machine.run verifierStep verifierInit resubmits).2 = [(confirmJob, 5), (confirmJob, 605)] := by
  have htimes : resubmits.filterMap VerifierEvent.time? = [5, 604, 605] := rfl
  have hclock : ClockInOrder resubmits := by
    constructor
    · rw [htimes]
      simp
    · rw [htimes]
      simp
  exact ⟨hclock, verifier_queue resubmits hclock, by decide +kernel⟩

-- The verifier of the daemon is this one.
def Daemon.verifier (s : Daemon) : Verifier := ⟨s.queue, s.verifying⟩

theorem submitConfirm_verifier (s : Daemon) (c : Conn) (step : TpStep) (now : Int64) :
    ∃ es, (submitConfirm s c step now).verifier = (Machine.run verifierStep s.verifier es).1 := by
  unfold submitConfirm
  split
  · exact ⟨[.submit (makeJob c .confirm step) now], rfl⟩
  · exact ⟨[], rfl⟩

theorem submitDirect_verifier (s : Daemon) (c : Conn) (step : TpStep) (suspicious : Bool) (now : Int64) :
    ∃ es, (submitDirect s c step suspicious now).verifier = (Machine.run verifierStep s.verifier es).1 := by
  unfold submitDirect
  split
  · exact ⟨[.submit (makeJob c .direct step) now], rfl⟩
  · exact ⟨[], rfl⟩

theorem daemonStep_verifier (s : Daemon) (e : Event) :
    ∃ es, (daemonStep s e).1.verifier = (Machine.run verifierStep s.verifier es).1 := by
  have hturn := daemonStep_turn s e
  generalize (daemonStep s e).1 = s', (daemonStep s e).2 = w at hturn ⊢
  cases hturn with
  | idle | accept | fillPlan | resolveTrusted | attempt | reload => exact ⟨[], rfl⟩
  | fail =>
      unfold failLocked
      split <;> exact ⟨[], rfl⟩
  | commit =>
      unfold commitLocked
      split
      · split <;> exact ⟨[], rfl⟩
      · exact ⟨[], rfl⟩
  | submitConfirm now => exact submitConfirm_verifier s _ _ now
  | relayed suspicious now => exact submitDirect_verifier s _ _ suspicious now
  | takeJob hidle hjobs =>
      refine ⟨[.main], ?_⟩
      simp [Machine.run, verifierStep, Daemon.verifier, hidle, hjobs]
  | applyResult handshake now hjob =>
      refine ⟨[.main], ?_⟩
      simp only [Machine.run, verifierStep, Daemon.verifier, hjob]
      unfold applyResult
      split
      · rfl
      · split <;> rfl
  | checkNetwork =>
      unfold checkNetwork
      split <;> exact ⟨[], rfl⟩
  | save =>
      unfold saveDecisions
      split <;> exact ⟨[], rfl⟩

-- Every run of the daemon is a run of its verifier.
theorem daemon_verifier_run (cfg : StrategyConfig) (fp : UInt64) (file : Option Bytes) (es : List Event) :
    ∃ es', (Machine.run daemonStep (daemonInit cfg fp file) es).1.verifier =
      (Machine.run verifierStep verifierInit es').1 := by
  induction es using List.reverseRecOn with
  | nil => exact ⟨[], rfl⟩
  | append_singleton es e ih =>
      obtain ⟨es', hes⟩ := ih
      obtain ⟨more, hmore⟩ := daemonStep_verifier (Machine.run daemonStep (daemonInit cfg fp file) es).1 e
      refine ⟨es' ++ more, ?_⟩
      rw [Machine.run_concat, Machine.run_append, ← hes]
      exact hmore

theorem daemon_queue_bounded (cfg : StrategyConfig) (fp : UInt64) (file : Option Bytes) (es : List Event) :
    (Machine.run daemonStep (daemonInit cfg fp file) es).1.queue.jobs.length ≤ QUEUE_MAX := by
  obtain ⟨es', hes⟩ := daemon_verifier_run cfg fp file es
  have hbounded := (verifierInv_run es').bounded
  rw [← hes] at hbounded
  exact hbounded

end DpiProxy.Transparent
