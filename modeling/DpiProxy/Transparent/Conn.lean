import DpiProxy.Relay.Pump
import DpiProxy.Transparent.Hello
import DpiProxy.Transparent.Plan.Run

namespace DpiProxy.Transparent

open Wire Relay

def relaySplitFor : Strategy → SplitMode
  | .tlsrec => .tlsRecord
  | .tlsrecSplit => .tlsRecordTcp
  | _ => .none

-- What one call of tpd_connect leads to: whether it connects, what send and recv on the
-- connection meet, and whether an answer is there before the timeout.
structure Peer where
  connects : Bool
  sends : List SendResult
  readable : Bool
  arrivals : List RecvResult
deriving DecidableEq, Repr

-- The sockets and buffers of a t_conn. The upstream connections stand in the order of
-- their attempts, also those that were closed again.
structure ConnState where
  client : Socket
  upstreams : List Socket
  hello : Bytes
  reply : Bytes
deriving DecidableEq, Repr

-- `result` is none while a call of send or recv has not returned, and `upstream` is
-- *upstream_fd, none for -1.
structure Attempt where
  conn : ConnState
  result : Option TpResult
  upstream : Option Nat
deriving DecidableEq, Repr

def openUpstream (c : ConnState) (s : Socket) : ConnState := { c with upstreams := c.upstreams ++ [s] }

def recvReply (arrivals : List RecvResult) : Option (RecvResult × List RecvResult) :=
  recvAgain BUFFER_SIZE arrivals

-- The end of attempt, when an answer is there.
def readReply (c : ConnState) (s : Socket) : Attempt :=
  match recvReply s.arrivals with
  | none => ⟨openUpstream c s, none, none⟩
  | some (.data bytes, left) =>
      let c := { openUpstream c { s with arrivals := left } with reply := bytes }
      if byte c.reply 0 = 0x16 then ⟨c, some .ok, some (c.upstreams.length - 1)⟩
      else if byte c.reply 0 = 0x15 then ⟨c, some .alert, some (c.upstreams.length - 1)⟩
      else ⟨c, some .notTls, none⟩
  | some (.eof, left) => ⟨openUpstream c { s with arrivals := left }, some .closed, none⟩
  | some (_, left) => ⟨openUpstream c { s with arrivals := left }, some .reset, none⟩

def attempt (peers : Nat → Peer) (c : ConnState) (step : TpStep) : Attempt :=
  let peer := peers c.upstreams.length
  if !peer.connects then
    ⟨openUpstream c ⟨peer.sends, peer.arrivals, []⟩, some .connectFail, none⟩
  else
    let first := relaySendFirst peer.sends c.hello (relaySplitFor step.strategy)
    let s := ⟨first.left, peer.arrivals, first.writes.flatten⟩
    match first.status with
    | .blocked => ⟨openUpstream c s, none, none⟩
    | .error => ⟨openUpstream c s, some .reset, none⟩
    | .ok => if !peer.readable then ⟨openUpstream c s, some .timeout, none⟩ else readReply c s

-- The part of commit that speaks to the client and the upstream connection.
def commitRelay (c : ConnState) (upstream : Nat) (polls : List PollResult) : ConnState × PumpEnd :=
  match c.upstreams[upstream]? with
  | none => (c, .stopped)
  | some s =>
      let first := sendAll c.client c.reply
      match first.1 with
      | .ok =>
          let pump := relayPump first.2 s polls
          ({ c with
            client := pump.1.client
            upstreams := c.upstreams.set upstream pump.1.upstream }, pump.2)
      | .error => ({ c with client := first.2 }, .stopped)
      | .blocked => ({ c with client := first.2 }, .waiting)

-- A call of run_plan: the connection and the plan it leaves, what its attempts returned,
-- the connections that were committed, and how the relay of a commit stands.
structure PlanIo where
  conn : ConnState
  plan : TpPlan
  results : List (TpStep × Option TpResult)
  commits : List Nat
  ended : Option PumpEnd
deriving DecidableEq, Repr

def runPlan (peers : Nat → Peer) (answer : DnsAnswer) (polls : List PollResult) (p : TpPlan)
    (c : ConnState) : PlanIo :=
  match _ : tpPlanNext p with
  | .done => ⟨c, p, [], [], none⟩
  | .needDns => runPlan peers answer polls { p with trust := answer.trust } c
  | .attempt step _ =>
      let a := attempt peers c step
      match a.result with
      | none => ⟨a.conn, p, [(step, none)], [], none⟩
      | some r =>
          let recorded := tpPlanRecord p step r
          if r.answered then
            -- an answer comes with a live connection
            let upstream := a.upstream.getD 0
            let relayed := commitRelay a.conn upstream polls
            ⟨relayed.1, recorded, [(step, some r)], [upstream], some relayed.2⟩
          else
            let rest := runPlan peers answer polls recorded a.conn
            { rest with results := (step, some r) :: rest.results }
termination_by remaining p
decreasing_by
  · exact remaining_dns (tpPlanNext_needDns ‹_›) answer
  · exact remaining_record (tpPlanNext_attempt ‹_›).room _ _

end DpiProxy.Transparent
