import DpiProxy.Tls.Record

namespace DpiProxy.Relay

open Wire Tls

abbrev BUFFER_SIZE : Nat := 16384

abbrev RELAY_TLSREC_TCP_CUT : Nat := 3

inductive SplitMode where
  | none
  | tcp
  | tlsRecord
  | tlsRecordTcp
deriving DecidableEq, Repr

-- What one call of send(2) reports. A count above the requested length stands
-- for the whole length.
inductive SendResult where
  | interrupted
  | failed
  | sent (count : Nat)
deriving DecidableEq, Repr

-- `blocked` is a call of send that has not returned: the script ended first.
inductive Status where
  | ok
  | error
  | blocked
deriving DecidableEq, Repr

-- The outcome of a call, the writes it made and the results of send that are left.
structure Sent where
  status : Status
  writes : List Bytes
  left : List SendResult
deriving DecidableEq, Repr

-- The loop of relay_send_all over the bytes not sent yet.
def relaySendAll : List SendResult → Bytes → Sent
  | script, [] => ⟨.ok, [], script⟩
  | [], _ :: _ => ⟨.blocked, [], []⟩
  | .interrupted :: script, b :: bs => relaySendAll script (b :: bs)
  | .failed :: script, _ :: _ => ⟨.error, [], script⟩
  | .sent count :: script, b :: bs =>
      let sent := min count (b :: bs).length
      if sent = 0 then ⟨.error, [], script⟩
      else
        let rest := relaySendAll script ((b :: bs).drop sent)
        { rest with writes := (b :: bs).take sent :: rest.writes }

-- Two writes with a delay between them; an error in the first ends the call.
def sendSplit (script : List SendResult) (first second : Bytes) : Sent :=
  let head := relaySendAll script first
  if head.status = .ok then
    let tail := relaySendAll head.left second
    { tail with writes := head.writes ++ tail.writes }
  else head

def sendFirstTls (script : List SendResult) (buffer : Bytes) : Sent :=
  match tlsFindSniSplit buffer with
  | none => relaySendAll script buffer
  | some split =>
      if split ≤ 0 ∨ split ≥ buffer.length then relaySendAll script buffer
      else sendSplit script (buffer.take split) (buffer.drop split)

def sendFirstTlsRecord (script : List SendResult) (buffer : Bytes) : Sent :=
  let cut := tlsRecordSplitPoint buffer
  match tlsFragmentFirstRecord buffer cut (BUFFER_SIZE + 5) with
  | none => relaySendAll script buffer
  | some out => sendSplit script (out.take (5 + cut)) (out.drop (5 + cut))

def sendFirstTlsRecordTcp (script : List SendResult) (buffer : Bytes) : Sent :=
  let cut := tlsRecordSplitPoint buffer
  match tlsFragmentFirstRecord buffer cut (BUFFER_SIZE + 5) with
  | none => relaySendAll script buffer
  | some out =>
      if out.length ≤ RELAY_TLSREC_TCP_CUT then relaySendAll script buffer
      else sendSplit script (out.take RELAY_TLSREC_TCP_CUT) (out.drop RELAY_TLSREC_TCP_CUT)

def relaySendFirst (script : List SendResult) (buf : Bytes) : SplitMode → Sent
  | .tlsRecord => sendFirstTlsRecord script buf
  | .tlsRecordTcp => sendFirstTlsRecordTcp script buf
  | .tcp => sendFirstTls script buf
  | .none => relaySendAll script buf

end DpiProxy.Relay
