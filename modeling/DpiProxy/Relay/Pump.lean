import DpiProxy.Relay

namespace DpiProxy.Relay

open Wire

-- What a call of recv(2) on a socket meets. A chunk that does not fit stays in the
-- socket in part, and a chunk of no bytes is the end of the stream.
inductive RecvResult where
  | interrupted
  | failed
  | eof
  | data (bytes : Bytes)
deriving DecidableEq, Repr

-- One end of a connection: what its calls of send and recv will meet, and the bytes
-- that send has taken for the peer. Calls that are not in a list have not returned.
structure Socket where
  sends : List SendResult
  arrivals : List RecvResult
  sent : Bytes
deriving DecidableEq, Repr

-- The bytes a peer sends before its stream ends.
def stream : List RecvResult → Bytes
  | [] => []
  | .interrupted :: arrivals => stream arrivals
  | .failed :: _ => []
  | .eof :: _ => []
  | .data bytes :: arrivals => if bytes = [] then [] else bytes ++ stream arrivals

def recv (size : Nat) : List RecvResult → Option (RecvResult × List RecvResult)
  | [] => none
  | .data bytes :: arrivals =>
      if bytes = [] then some (.eof, arrivals)
      else some (.data (bytes.take size),
        if bytes.length ≤ size then arrivals else .data (bytes.drop size) :: arrivals)
  | r :: arrivals => some (r, arrivals)

-- recv, again while it is interrupted.
def recvAgain (size : Nat) : List RecvResult → Option (RecvResult × List RecvResult)
  | .interrupted :: arrivals => recvAgain size arrivals
  | arrivals => recv size arrivals

def sendAll (s : Socket) (buffer : Bytes) : Status × Socket :=
  let r := relaySendAll s.sends buffer
  (r.status, { s with sends := r.left, sent := s.sent ++ r.writes.flatten })

inductive Forward where
  | moved (bytes : Nat)
  | eof
  | readError
  | writeError
  | blocked
deriving DecidableEq, Repr

structure Forwarded where
  status : Forward
  source : Socket
  target : Socket
deriving DecidableEq, Repr

def forwardOnce (source target : Socket) : Forwarded :=
  match recv BUFFER_SIZE source.arrivals with
  | none => ⟨.blocked, source, target⟩
  | some (.interrupted, left) => ⟨.moved 0, { source with arrivals := left }, target⟩
  | some (.failed, left) => ⟨.readError, { source with arrivals := left }, target⟩
  | some (.eof, left) => ⟨.eof, { source with arrivals := left }, target⟩
  | some (.data bytes, left) =>
      let r := sendAll target bytes
      let status :=
        match r.1 with
        | .ok => .moved bytes.length
        | .error => .writeError
        | .blocked => .blocked
      ⟨status, { source with arrivals := left }, r.2⟩

structure RelayStats where
  upBytes : Nat
  downBytes : Nat
  clientEofFirst : Bool
  upstreamReset : Bool
deriving DecidableEq, Repr

structure Pump where
  client : Socket
  upstream : Socket
  upOpen : Bool
  downOpen : Bool
  -- the calls of shutdown
  clientShut : Bool
  upstreamShut : Bool
  stats : RelayStats
deriving DecidableEq, Repr

-- How a call of relay_pump stands: both directions are finished, an error or the idle
-- timeout has ended it, or it has not returned.
inductive PumpEnd where
  | finished
  | stopped
  | waiting
deriving DecidableEq, Repr

-- What a call of poll meets. A side that is closed is not polled: it does not count
-- as ready, and does not end the call.
inductive PollResult where
  | interrupted
  | failed
  | timeout
  | ready (client upstream : Bool)
deriving DecidableEq, Repr

def clientTurn (s : Pump) : Pump × Option PumpEnd :=
  let f := forwardOnce s.client s.upstream
  let s := { s with client := f.source, upstream := f.target }
  match f.status with
  | .moved bytes => ({ s with stats := { s.stats with upBytes := s.stats.upBytes + bytes } }, none)
  | .eof =>
      ({ s with
        upOpen := false
        upstreamShut := true
        stats := { s.stats with clientEofFirst := s.stats.clientEofFirst || s.downOpen } }, none)
  | .readError => (s, some .stopped)
  | .writeError => (s, some .stopped)
  | .blocked => (s, some .waiting)

def upstreamTurn (s : Pump) : Pump × Option PumpEnd :=
  let f := forwardOnce s.upstream s.client
  let s := { s with upstream := f.source, client := f.target }
  match f.status with
  | .moved bytes => ({ s with stats := { s.stats with downBytes := s.stats.downBytes + bytes } }, none)
  | .eof => ({ s with downOpen := false, clientShut := true }, none)
  | .readError => ({ s with stats := { s.stats with upstreamReset := true } }, some .stopped)
  | .writeError => (s, some .stopped)
  | .blocked => (s, some .waiting)

-- A ready side has its turn, the client first.
def pumpTurn (s : Pump) (clientReady upstreamReady : Bool) : Pump × Option PumpEnd :=
  let up := if clientReady then clientTurn s else (s, none)
  match up.2 with
  | some ended => (up.1, some ended)
  | none => if upstreamReady then upstreamTurn up.1 else (up.1, none)

-- The loop of relay_pump_timeout.
def pumpLoop (s : Pump) : List PollResult → Pump × PumpEnd
  | [] => if !s.upOpen && !s.downOpen then (s, .finished) else (s, .waiting)
  | poll :: polls =>
      if !s.upOpen && !s.downOpen then (s, .finished)
      else
        match poll with
        | .interrupted => pumpLoop s polls
        | .failed => (s, .stopped)
        | .timeout => (s, .stopped)
        | .ready client upstream =>
            let turn := pumpTurn s (client && s.upOpen) (upstream && s.downOpen)
            match turn.2 with
            | some ended => (turn.1, ended)
            | none => pumpLoop turn.1 polls

def pumpStart (client upstream : Socket) : Pump :=
  ⟨client, upstream, true, true, false, false, ⟨0, 0, false, false⟩⟩

def relayPump (client upstream : Socket) (polls : List PollResult) : Pump × PumpEnd :=
  pumpLoop (pumpStart client upstream) polls

end DpiProxy.Relay
