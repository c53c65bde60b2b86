import DpiProxy.Strategy

namespace DpiProxy.Transparent

open Wire

def TP_QUIC_BLOCK_TIMEOUT_S : Int := 3600

inductive TpTarget where
  | original
  | trusted
deriving DecidableEq, Repr

structure TpStep where
  target : TpTarget
  strategy : Strategy
deriving DecidableEq, Repr

inductive TpResult where
  | ok
  | alert
  | connectFail
  | reset
  | closed
  | timeout
  | notTls
  | skipped
deriving DecidableEq, Repr

-- OK and ALERT end the plan.
def TpResult.answered : TpResult → Bool
  | .ok | .alert => true
  | _ => false

inductive TpTrust where
  | unknown
  | none
  | matched
  | mismatch
deriving DecidableEq, Repr

inductive TpSource where
  | none
  | manual
  | cached
  | ladder
  | cooldown
deriving DecidableEq, Repr

def TP_MAX_ATTEMPTS : Nat := 4
def TP_REPLY_TIMEOUT_MS : Nat := 4000

-- manual and cached are none when has_manual and has_cached are 0; tried holds
-- tried[i] and results[i] for i < ntried.
structure TpPlan where
  hasHost : Bool
  listed : Bool
  preferred : Strategy
  manual : Option Strategy
  cached : Option TpStep
  inCooldown : Bool
  directBad : Bool
  trust : TpTrust
  tried : List (TpStep × TpResult)
deriving DecidableEq, Repr

def tpPlanInit : TpPlan where
  hasHost := false
  listed := false
  preferred := .pass
  manual := none
  cached := none
  inCooldown := false
  directBad := false
  trust := .unknown
  tried := []

inductive TpNext where
  | attempt (step : TpStep) (timeoutMs : Nat)
  | needDns
  | done
deriving DecidableEq, Repr

def gListed : List Bytes :=
  [ascii ['d', 'i', 's', 'c', 'o', 'r', 'd', '.', 'c', 'o', 'm'],
   ascii ['d', 'i', 's', 'c', 'o', 'r', 'd', 'a', 'p', 'p', '.', 'c', 'o', 'm'],
   ascii ['d', 'i', 's', 'c', 'o', 'r', 'd', 'a', 'p', 'p', '.', 'n', 'e', 't'],
   ascii ['d', 'i', 's', 'c', 'o', 'r', 'd', '.', 'g', 'g'],
   ascii ['d', 'i', 's', 'c', 'o', 'r', 'd', '.', 'm', 'e', 'd', 'i', 'a'],
   ascii ['d', 'i', 's', 'c', 'o', 'r', 'd', '.', 'd', 'e', 'v'],
   ascii ['d', 'i', 's', 'c', 'o', 'r', 'd', '.', 'n', 'e', 'w'],
   ascii ['d', 'i', 's', 'c', 'o', 'r', 'd', '.', 'g', 'i', 'f', 't'],
   ascii ['d', 'i', 's', 'c', 'o', 'r', 'd', 's', 't', 'a', 't', 'u', 's', '.', 'c', 'o', 'm'],
   ascii ['d', 'i', 's', 'c', 'o', 'r', 'd', 'c', 'd', 'n', '.', 'c', 'o', 'm'],
   ascii ['d', 'i', 's', '.', 'g', 'd'],
   ascii ['r', 'o', 'b', 'l', 'o', 'x', '.', 'c', 'o', 'm'],
   ascii ['r', 'b', 'x', 'c', 'd', 'n', '.', 'c', 'o', 'm'],
   ascii ['w', 'a', 't', 't', 'p', 'a', 'd', '.', 'c', 'o', 'm'],
   ascii ['i', 'n', 's', 't', 'a', 'g', 'r', 'a', 'm', '.', 'c', 'o', 'm'],
   ascii ['c', 'd', 'n', 'i', 'n', 's', 't', 'a', 'g', 'r', 'a', 'm', '.', 'c', 'o', 'm'],
   ascii ['r', 'u', 't', 'r', 'a', 'c', 'k', 'e', 'r', '.', 'o', 'r', 'g'],
   ascii ['n', 'y', 'a', 'a', '.', 's', 'i'],
   ascii ['1', '3', '3', '7', 'x', '.', 't', 'o'],
   ascii ['t', 'h', 'e', 'p', 'i', 'r', 'a', 't', 'e', 'b', 'a', 'y', '.', 'o', 'r', 'g']]

-- hlen after the loop over the dots at the end.
def stripDots (host : Bytes) : Bytes := (host.reverse.dropWhile (· == DOT)).reverse

def tpHostListed (host : Bytes) : Bool :=
  let host := stripDots host
  gListed.any fun domain =>
    (host.length == domain.length && ieq host domain) ||
      (decide (host.length > domain.length) &&
        byte host (host.length - domain.length - 1) == DOT &&
        ieq (host.drop (host.length - domain.length)) domain)

def streamStrategy (s : Strategy) : Strategy :=
  if s = .pass ∨ s = .tlsrecSplit then s else .tlsrec

def firstBypass (p : TpPlan) : Strategy :=
  if p.preferred = .tlsrecSplit then .tlsrecSplit else .tlsrec

def secondBypass (p : TpPlan) : Strategy :=
  if firstBypass p = .tlsrec then .tlsrecSplit else .tlsrec

def normalize (p : TpPlan) (s : TpStep) : TpStep :=
  { target := if s.target = .trusted ∧ p.trust ≠ .mismatch then .original else s.target
    strategy := streamStrategy s.strategy }

-- The result of the first time the step was tried.
def wasTried (p : TpPlan) (s : TpStep) : Option TpResult :=
  (p.tried.find? (·.1 = s)).map (·.2)

def offer (s : TpStep) : TpNext := .attempt s TP_REPLY_TIMEOUT_MS

def originalUnreachable (p : TpPlan) : Bool :=
  p.tried.any fun t => t.1.target = .original ∧ t.2 = .connectFail

def nextBypass (p : TpPlan) (target : TpTarget) : Option TpStep :=
  if (wasTried p ⟨target, firstBypass p⟩).isNone then some ⟨target, firstBypass p⟩
  else if (wasTried p ⟨target, secondBypass p⟩).isNone then some ⟨target, secondBypass p⟩
  else none

def direct : TpStep := ⟨.original, .pass⟩

-- The end of tp_plan_next: DIRECT is known not to work.
def nextAfterDirect (p : TpPlan) (directResult : TpResult) : TpNext :=
  if p.trust = .unknown then .needDns
  else if p.trust = .mismatch then
    if (wasTried p ⟨.trusted, .pass⟩).isNone then offer ⟨.trusted, .pass⟩
    else
      match nextBypass p .trusted with
      | some s => offer s
      | none => .done
  else if directResult = .connectFail ∨ originalUnreachable p then .done
  else
    match nextBypass p .original with
    | some s => offer s
    | none => .done

def nextDirect (p : TpPlan) : TpNext :=
  if p.directBad then nextAfterDirect p .skipped
  else if originalUnreachable p ∧ (wasTried p direct).isNone then nextAfterDirect p .connectFail
  else
    match wasTried p direct with
    | none => offer direct
    | some directResult => nextAfterDirect p directResult

def nextListed (p : TpPlan) : TpNext :=
  if p.listed ∧ !originalUnreachable p then
    match nextBypass p .original with
    | some s => offer s
    | none => nextDirect p
  else nextDirect p

def nextCached (p : TpPlan) : TpNext :=
  match p.cached with
  | none => nextListed p
  | some cached =>
      if cached.target = .trusted ∧ p.trust = .unknown then .needDns
      else if (wasTried p (normalize p cached)).isNone then offer (normalize p cached)
      else nextListed p

def nextManual (p : TpPlan) : TpNext :=
  match p.manual with
  | none => nextCached p
  | some manual =>
      if p.tried.length > 0 then .done
      else if p.trust = .unknown then .needDns
      else offer (normalize p ⟨.trusted, manual⟩)

def tpPlanNext (p : TpPlan) : TpNext :=
  if p.tried.length ≥ TP_MAX_ATTEMPTS then .done
  else if p.tried.getLast?.any (·.2.answered) then .done
  else if !p.hasHost ∨ p.manual.any (streamStrategy · = .pass) then
    if p.tried.length = 0 then offer direct else .done
  -- one attempt only
  else if p.inCooldown then
    if p.tried.length > 0 then .done
    else if p.listed then offer ⟨.original, firstBypass p⟩
    else offer direct
  else nextManual p

def tpPlanRecord (p : TpPlan) (step : TpStep) (r : TpResult) : TpPlan :=
  if p.tried.length ≥ TP_MAX_ATTEMPTS then p else { p with tried := p.tried ++ [(step, r)] }

def tpPlanSource (p : TpPlan) : TpSource :=
  if !p.hasHost then .none
  else if p.manual.isSome then .manual
  else if p.inCooldown then .cooldown
  else if p.cached.isSome ∧ p.tried.length ≤ 1 then .cached
  else .ladder

-- The test in tpd_handle_connection for a plain passthrough.
def takesPassthrough (p : TpPlan) : Bool :=
  !p.hasHost || (p.inCooldown && !p.listed) || p.manual == some .pass

end DpiProxy.Transparent
