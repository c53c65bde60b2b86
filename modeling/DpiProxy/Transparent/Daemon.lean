import DpiProxy.Machine
import DpiProxy.Transparent.DecisionsFile

namespace DpiProxy.Transparent

open Wire

inductive AddrFamily where
  | inet
  | inet6
deriving DecidableEq, Repr

def AddrFamily.number : AddrFamily → Int32
  | .inet6 => 6
  | .inet => 4

-- A sockaddr_in or sockaddr_in6.
structure SockAddr where
  family : AddrFamily
  addr : Bytes
  port : UInt16
deriving DecidableEq, Repr

structure DnsAddr where
  family : AddrFamily
  addr : Bytes
deriving DecidableEq, Repr

def addrSize : AddrFamily → Nat
  | .inet => 4
  | .inet6 => 16

def addrEqual (ss : SockAddr) (a : DnsAddr) : Bool :=
  ss.family = a.family ∧ ss.addr.take (addrSize a.family) = a.addr.take (addrSize a.family)

-- A t_conn without its buffers. `trusted` is not set before resolve_trusted sets it.
structure Conn where
  family : AddrFamily
  original : SockAddr
  host : Bytes
  plan : TpPlan
  trusted : Option SockAddr
  fp : UInt64
deriving DecidableEq, Repr

-- No addresses stand for every status but DNS_OK too.
def resolveTrusted (c : Conn) (ans : List DnsAddr) : Conn :=
  match ans with
  | [] => { c with plan := { c.plan with trust := .none } }
  | first :: _ =>
      if ans.any (addrEqual c.original) then { c with plan := { c.plan with trust := .matched } }
      else
        { c with
          plan := { c.plan with trust := .mismatch }
          trusted := some ⟨first.family, first.addr.take (addrSize first.family), c.original.port⟩ }

inductive VerifyKind where
  | direct
  | confirm
deriving DecidableEq, Repr

structure VerifyJob where
  kind : VerifyKind
  host : Bytes
  family : Int32
  fp : UInt64
  step : TpStep
  addr : Option SockAddr
  original : SockAddr
deriving DecidableEq, Repr

def makeJob (c : Conn) (kind : VerifyKind) (step : TpStep) : VerifyJob where
  kind := kind
  host := c.host
  family := c.family.number
  fp := c.fp
  step := step
  addr := if step.target = .trusted then c.trusted else some c.original
  original := c.original

def QUEUE_MAX : Nat := 16
def RECENT_MAX : Nat := 128
def RECENT_WINDOW_S : Int64 := 600

structure Recent where
  host : Bytes
  kind : VerifyKind
  family : Int32
  step : TpStep
  time : Int64
deriving DecidableEq, Repr

def Recent.zero : Recent := ⟨[], .direct, 0, direct, 0⟩

-- The jobs that wait and the ring of those submitted lately.
structure VerifyQueue where
  jobs : List VerifyJob
  recent : List Recent
  recentNext : Nat
  recentSize : recent.length = RECENT_MAX

def verifyQueueInit : VerifyQueue where
  jobs := []
  recent := List.replicate RECENT_MAX .zero
  recentNext := 0
  recentSize := List.length_replicate

def seenRecently (q : VerifyQueue) (job : VerifyJob) (now : Int64) : Bool :=
  q.recent.any fun r => r.time ≠ 0 ∧ now - r.time < RECENT_WINDOW_S ∧ r.kind = job.kind ∧
    r.family = job.family ∧ r.step = job.step ∧ ieq r.host job.host

def tpdVerifySubmit (q : VerifyQueue) (job : VerifyJob) (now : Int64) : VerifyQueue :=
  if !seenRecently q job now ∧ q.jobs.length < QUEUE_MAX then
    { jobs := q.jobs ++ [job]
      recent := q.recent.set q.recentNext ⟨job.host, job.kind, job.family, job.step, now⟩
      recentNext := (q.recentNext + 1) % RECENT_MAX
      recentSize := by rw [List.length_set, q.recentSize] }
  else q

inductive TlscResult where
  | ok
  | badCert
  | failed
deriving DecidableEq, Repr

inductive ProbeResult where
  | success
  | remoteRejected
  | timeout
deriving DecidableEq, Repr

-- verify_job, by what its connect and its handshake come to.
def verifyJob (handshake : Option TlscResult) : ProbeResult :=
  match handshake with
  | none => .timeout
  | some .ok => .success
  | some .badCert => .remoteRejected
  | some .failed => .timeout

-- Where a connection thread stands. `answered` has an answer and waits for the lock
-- of commit, `committed` has left it, `relaying` has submitted its job.
inductive Phase where
  | hello
  | planning
  | answered (step : TpStep)
  | committed (step : TpStep)
  | relaying (step : TpStep)
  | closed
deriving DecidableEq, Repr

structure Thread where
  conn : Conn
  phase : Phase
deriving DecidableEq, Repr

-- The shared state of t_tpd, the connection threads by the order of their accept, the
-- verifier's queue and the job it has taken.
structure Daemon where
  cfg : StrategyConfig
  dec : TpDecisions
  fp : UInt64
  preferred : Strategy
  threads : List Thread
  queue : VerifyQueue
  verifying : Option VerifyJob

-- The start of run_transparent_server: the decisions file may be missing.
def daemonInit (cfg : StrategyConfig) (fp : UInt64) (file : Option Bytes) : Daemon where
  cfg := cfg
  dec :=
    match file with
    | none => tpDecisionsInit
    | some text => (tpDecisionsParse tpDecisionsInit text).1
  fp := fp
  preferred := .pass
  threads := []
  queue := verifyQueueInit
  verifying := none

def fillPlan (s : Daemon) (c : Conn) (host : Bytes) (now : Int64) : Conn :=
  if host = [] then { c with host := host, plan := tpPlanInit }
  else
    { c with
      host := host
      fp := s.fp
      plan :=
        { tpPlanInit with
          hasHost := true
          listed := tpHostListed host
          preferred := s.preferred
          manual := (strategyHasExplicitRule s.cfg host).map (·.primary)
          cached := (tpDecisionLookup s.dec host s.fp c.family.number now).map (·.step)
          inCooldown := tpInCooldown s.dec host now
          directBad := tpDirectBad s.dec host s.fp c.family.number now } }

def isDirect (step : TpStep) : Bool := step.target = .original ∧ step.strategy = .pass

-- The places that hold what a connection or a verify job found out, and the
-- fingerprint that the connection or job was started under.
inductive Place where
  | cooldown (slot : Nat)
  | mark (slot : Nat)
  | preferred
deriving DecidableEq, Repr

structure Write where
  place : Place
  fp : UInt64
deriving DecidableEq, Repr

-- The part of commit under the lock.
def commitLocked (s : Daemon) (c : Conn) (step : TpStep) (now : Int64) : Daemon × Option Write :=
  if isDirect step then
    if tpPlanSource c.plan ≠ .manual then
      ({ s with dec := tpDecisionSuccess s.dec c.host c.fp c.family.number now step }, none)
    else (s, none)
  else ({ s with preferred := step.strategy }, some ⟨.preferred, c.fp⟩)

def submitConfirm (s : Daemon) (c : Conn) (step : TpStep) (now : Int64) : Daemon :=
  if !isDirect step ∧ tpPlanSource c.plan ≠ .manual ∧ tpPlanSource c.plan ≠ .cached then
    { s with queue := tpdVerifySubmit s.queue (makeJob c .confirm step) now }
  else s

-- The end of commit; `suspicious` is what the relay statistics and the clock say.
def submitDirect (s : Daemon) (c : Conn) (step : TpStep) (suspicious : Bool) (now : Int64) : Daemon :=
  if isDirect step ∧ tpPlanSource c.plan ≠ .manual ∧ suspicious then
    { s with queue := tpdVerifySubmit s.queue (makeJob c .direct step) now }
  else s

-- The end of run_plan when no attempt got an answer.
def failLocked (s : Daemon) (c : Conn) (now : Int64) : Daemon × Option Write :=
  if c.plan.manual.isNone then
    ({ s with dec := tpDecisionFailure s.dec c.host c.fp c.family.number now },
      if c.host.length < STRATEGY_DOMAIN_MAX then
        some ⟨.cooldown (cooldownSlot s.dec c.host now), c.fp⟩
      else none)
  else (s, none)

def applyResult (s : Daemon) (job : VerifyJob) (r : ProbeResult) (now : Int64) :
    Daemon × Option Write :=
  if s.fp = job.fp ∧ job.kind = .direct ∧ r = .remoteRejected then
    ({ s with dec := tpDirectBadMark s.dec job.host job.fp job.family now },
      if job.fp = NETFP_UNKNOWN ∨ job.host.length ≥ STRATEGY_DOMAIN_MAX then none
      else some ⟨.mark (markSlot s.dec job.host job.fp job.family now), job.fp⟩)
  else if s.fp = job.fp ∧ job.kind = .confirm ∧ r = .success then
    ({ s with dec := tpDecisionSuccess s.dec job.host job.fp job.family now job.step }, none)
  else (s, none)

def checkNetwork (s : Daemon) (fp : UInt64) : Daemon :=
  if fp ≠ s.fp then
    { s with fp := fp, preferred := .pass, dec := tpDecisionsNetworkChanged s.dec }
  else s

-- save_decisions up to the write of the file.
def saveDecisions (s : Daemon) : Daemon :=
  if s.dec.dirty ∧ (tpDecisionsSerialize s.dec (saveSize s.dec)).isSome then
    { s with dec := { s.dec with dirty := false } }
  else s

-- One event is what a thread does between two points where another can step in: under
-- a lock, or on its own data. The times are what tpd_now gives the thread.
inductive Event where
  | accept (family : AddrFamily) (original : SockAddr)
  | fillPlan (id : Nat) (host : Bytes) (now : Int64)
  | resolveTrusted (id : Nat) (ans : List DnsAddr)
  | attempt (id : Nat) (result : TpResult)
  | commit (id : Nat) (now : Int64)
  | submitConfirm (id : Nat) (now : Int64)
  | relayed (id : Nat) (suspicious : Bool) (now : Int64)
  | fail (id : Nat) (now : Int64)
  | takeJob
  | applyResult (handshake : Option TlscResult) (now : Int64)
  | checkNetwork (fp : UInt64)
  | reload (cfg : StrategyConfig)
  | save
deriving DecidableEq, Repr

def setThread (s : Daemon) (id : Nat) (conn : Conn) (phase : Phase) : Daemon :=
  { s with threads := s.threads.set id ⟨conn, phase⟩ }

-- What a connection thread does next, for the events that belong to one.
def threadStep (s : Daemon) (id : Nat) (t : Thread) (e : Event) : Daemon × Option Write :=
  match e, t.phase with
  | .fillPlan _ host now, .hello =>
      let c := fillPlan s t.conn host now
      (setThread s id c (if takesPassthrough c.plan then .closed else .planning), none)
  | .resolveTrusted _ ans, .planning =>
      if tpPlanNext t.conn.plan = .needDns then
        (setThread s id (resolveTrusted t.conn ans) .planning, none)
      else (s, none)
  | .attempt _ result, .planning =>
      match tpPlanNext t.conn.plan with
      | .attempt step _ =>
          (setThread s id { t.conn with plan := tpPlanRecord t.conn.plan step result }
            (if result.answered then .answered step else .planning), none)
      | _ => (s, none)
  | .fail _ now, .planning =>
      if tpPlanNext t.conn.plan = .done then
        let failed := failLocked s t.conn now
        (setThread failed.1 id t.conn .closed, failed.2)
      else (s, none)
  | .commit _ now, .answered step =>
      let done := commitLocked s t.conn step now
      (setThread done.1 id t.conn (.committed step), done.2)
  | .submitConfirm _ now, .committed step =>
      (setThread (submitConfirm s t.conn step now) id t.conn (.relaying step), none)
  | .relayed _ suspicious now, .relaying step =>
      (setThread (submitDirect s t.conn step suspicious now) id t.conn .closed, none)
  | _, _ => (s, none)

def Event.thread : Event → Option Nat
  | .fillPlan id _ _ | .resolveTrusted id _ | .attempt id _ | .commit id _ | .submitConfirm id _
  | .relayed id _ _ | .fail id _ => some id
  | _ => none

-- An event that the state does not allow changes nothing.
def daemonStep (s : Daemon) (e : Event) : Daemon × Option Write :=
  match e with
  | .accept family original =>
      ({ s with threads := s.threads ++ [⟨⟨family, original, [], tpPlanInit, none, 0⟩, .hello⟩] }, none)
  | .takeJob =>
      match s.verifying, s.queue.jobs with
      | none, job :: jobs =>
          ({ s with queue := { s.queue with jobs := jobs }, verifying := some job }, none)
      | _, _ => (s, none)
  | .applyResult handshake now =>
      match s.verifying with
      | none => (s, none)
      | some job => applyResult { s with verifying := none } job (verifyJob handshake) now
  | .checkNetwork fp => (checkNetwork s fp, none)
  | .reload cfg => ({ s with cfg := cfg }, none)
  | .save => (saveDecisions s, none)
  | e =>
      match e.thread.bind fun id => s.threads[id]?.map fun t => (id, t) with
      | none => (s, none)
      | some (id, t) => threadStep s id t e

end DpiProxy.Transparent
