import DpiProxy.Transparent.Daemon
import DpiProxy.Transparent.Plan.Run

namespace DpiProxy.Transparent

open Wire

-- What one event can do, with what must hold for it.
inductive Turn (s : Daemon) : Event → Daemon → Option Write → Prop where
  | idle (e : Event) : Turn s e s none
  | accept (family : AddrFamily) (original : SockAddr) :
      Turn s (.accept family original)
        { s with threads := s.threads ++ [⟨⟨family, original, [], tpPlanInit, none, 0⟩, .hello⟩] } none
  | fillPlan {id : Nat} {t : Thread} (host : Bytes) (now : Int64) (ht : s.threads[id]? = some t)
      (hphase : t.phase = .hello) :
      Turn s (.fillPlan id host now) (setThread s id (fillPlan s t.conn host now)
        (if takesPassthrough (fillPlan s t.conn host now).plan then .closed else .planning)) none
  | resolveTrusted {id : Nat} {t : Thread} (ans : List DnsAddr) (ht : s.threads[id]? = some t)
      (hphase : t.phase = .planning) (hnext : tpPlanNext t.conn.plan = .needDns) :
      Turn s (.resolveTrusted id ans) (setThread s id (resolveTrusted t.conn ans) .planning) none
  | attempt {id : Nat} {t : Thread} (result : TpResult) {step : TpStep} {timeoutMs : Nat}
      (ht : s.threads[id]? = some t) (hphase : t.phase = .planning)
      (hnext : tpPlanNext t.conn.plan = .attempt step timeoutMs) :
      Turn s (.attempt id result)
        (setThread s id { t.conn with plan := tpPlanRecord t.conn.plan step result }
          (if result.answered then .answered step else .planning)) none
  | fail {id : Nat} {t : Thread} (now : Int64) (ht : s.threads[id]? = some t)
      (hphase : t.phase = .planning) (hnext : tpPlanNext t.conn.plan = .done) :
      Turn s (.fail id now) (setThread (failLocked s t.conn now).1 id t.conn .closed)
        (failLocked s t.conn now).2
  | commit {id : Nat} {t : Thread} {step : TpStep} (now : Int64) (ht : s.threads[id]? = some t)
      (hphase : t.phase = .answered step) :
      Turn s (.commit id now)
        (setThread (commitLocked s t.conn step now).1 id t.conn (.committed step))
        (commitLocked s t.conn step now).2
  | submitConfirm {id : Nat} {t : Thread} {step : TpStep} (now : Int64)
      (ht : s.threads[id]? = some t) (hphase : t.phase = .committed step) :
      Turn s (.submitConfirm id now)
        (setThread (submitConfirm s t.conn step now) id t.conn (.relaying step)) none
  | relayed {id : Nat} {t : Thread} {step : TpStep} (suspicious : Bool) (now : Int64)
      (ht : s.threads[id]? = some t) (hphase : t.phase = .relaying step) :
      Turn s (.relayed id suspicious now)
        (setThread (submitDirect s t.conn step suspicious now) id t.conn .closed) none
  | takeJob {job : VerifyJob} {jobs : List VerifyJob} (hidle : s.verifying = none)
      (hjobs : s.queue.jobs = job :: jobs) :
      Turn s .takeJob { s with queue := { s.queue with jobs := jobs }, verifying := some job } none
  | applyResult {job : VerifyJob} (handshake : Option TlscResult) (now : Int64)
      (hjob : s.verifying = some job) :
      Turn s (.applyResult handshake now)
        (applyResult { s with verifying := none } job (verifyJob handshake) now).1
        (applyResult { s with verifying := none } job (verifyJob handshake) now).2
  | checkNetwork (fp : UInt64) : Turn s (.checkNetwork fp) (checkNetwork s fp) none
  | reload (cfg : StrategyConfig) : Turn s (.reload cfg) { s with cfg := cfg } none
  | save : Turn s .save (saveDecisions s) none

theorem threadStep_turn {s : Daemon} {id : Nat} {t : Thread} (ht : s.threads[id]? = some t) (e : Event)
    (he : e.thread = some id) : Turn s e (threadStep s id t e).1 (threadStep s id t e).2 := by
  unfold threadStep
  split
  · rename_i hphase
    cases he
    exact .fillPlan _ _ ht hphase
  · rename_i hphase
    cases he
    split
    · rename_i hnext
      exact .resolveTrusted _ ht hphase hnext
    · exact .idle _
  · rename_i hphase
    cases he
    split
    · rename_i hnext
      exact .attempt _ ht hphase hnext
    · exact .idle _
  · rename_i hphase
    cases he
    split
    · rename_i hnext
      exact .fail _ ht hphase hnext
    · exact .idle _
  · rename_i hphase
    cases he
    exact .commit _ ht hphase
  · rename_i hphase
    cases he
    exact .submitConfirm _ ht hphase
  · rename_i hphase
    cases he
    exact .relayed _ _ ht hphase
  · exact .idle _

-- A step of a connection thread.
theorem daemonStep_thread (s : Daemon) {e : Event} {id : Nat} (hid : e.thread = some id) :
    daemonStep s e = (s.threads[id]?).elim (s, none) fun t => threadStep s id t e := by
  cases e <;> cases hid <;> delta daemonStep <;> dsimp only [Event.thread, Option.bind_some] <;>
    cases s.threads[id]? <;> rfl

theorem daemonStep_turn (s : Daemon) (e : Event) : Turn s e (daemonStep s e).1 (daemonStep s e).2 := by
  cases hid : e.thread with
  | some id =>
      rw [daemonStep_thread s hid]
      cases ht : s.threads[id]? with
      | none => exact .idle _
      | some t => exact threadStep_turn ht e hid
  | none =>
      cases e with
      | accept family original => exact .accept _ _
      | takeJob =>
          delta daemonStep
          dsimp only
          split
          · rename_i hidle hjobs
            exact .takeJob hidle hjobs
          · exact .idle _
      | applyResult handshake now =>
          delta daemonStep
          dsimp only
          split
          · exact .idle _
          · rename_i hjob
            exact .applyResult _ _ hjob
      | checkNetwork fp => exact .checkNetwork _
      | reload cfg => exact .reload _
      | save => exact .save
      | fillPlan => cases hid
      | resolveTrusted => cases hid
      | attempt => cases hid
      | commit => cases hid
      | submitConfirm => cases hid
      | relayed => cases hid
      | fail => cases hid
end DpiProxy.Transparent
