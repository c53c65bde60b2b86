import DpiProxy.Calls
import DpiProxy.Relay.Connection
import DpiProxy.Relay.Exact
import DpiProxy.Strategy

namespace DpiProxy.Socks

open Wire Relay Calls

-- A return of -1, and a call that has not returned.
inductive Stop where
  | failed
  | blocked
deriving DecidableEq, Repr

-- The two calls that the handshake makes on the client's socket: recv_exact with its
-- result compared with the length, and one send.
structure Endpoint (σ : Type) where
  receive : Nat → Call Stop σ Bytes
  write : Bytes → Call Stop σ Unit

def receive (length : Nat) : Call Stop Socket Bytes := fun s =>
  match recvExact length s.arrivals with
  | (.all bytes, left) => (.ok bytes, { s with arrivals := left })
  | (.blocked, left) => (.error .blocked, { s with arrivals := left })
  | (_, left) => (.error .failed, { s with arrivals := left })

def returned : Status → Except Stop Unit
  | .ok => .ok ()
  | .error => .error .failed
  | .blocked => .error .blocked

def write (buffer : Bytes) : Call Stop Socket Unit := fun s =>
  let r := send s.sends buffer
  (returned r.status, { s with sends := r.left, sent := s.sent ++ r.writes.flatten })

def socket : Endpoint Socket := ⟨receive, write⟩

-- The host as a C string, and the port.
structure Target where
  host : Bytes
  port : Nat
deriving DecidableEq, Repr

def HOST_SIZE : Nat := 256

def resultReply (success : Bool) : Bytes := [5, if success then 0 else 1, 0, 1, 0, 0, 0, 0, 0, 0]

section Handshake

variable {σ : Type} (fd : Endpoint σ)

def socksNegotiate : Call Stop σ Unit := do
  let header ← fd.receive 2
  if byte header 0 ≠ 5 then throw .failed
  else if byte header 1 = 0 then throw .failed
  else
    let _methods ← fd.receive (byte header 1).toNat
    fd.write [5, 0]

def sendResult (success : Bool) : Call Stop σ Unit := fd.write (resultReply success)

def readPort (host : Bytes) : Call Stop σ Target := do
  let portBuf ← fd.receive 2
  return ⟨host, be16 portBuf 0⟩

-- inet_ntop gives the text of an address of four or sixteen bytes.
def readTarget (inetNtop : Bytes → Bytes) : Call Stop σ Target := do
  let header ← fd.receive 4
  let atyp := byte header 3
  if byte header 0 ≠ 5 ∨ byte header 1 ≠ 1 then throw .failed
  else if atyp = 3 then
    let length ← fd.receive 1
    if (byte length 0).toNat = 0 ∨ (byte length 0).toNat ≥ HOST_SIZE then throw .failed
    else
      let host ← fd.receive (byte length 0).toNat
      readPort fd (cstr host)
  else if atyp = 1 then
    let addr4 ← fd.receive 4
    readPort fd (inetNtop addr4)
  else if atyp = 4 then
    let addr6 ← fd.receive 16
    readPort fd (inetNtop addr6)
  else
    -- it returns -1 whether the reply is sent or not
    match ← attempt (sendResult fd false) with
    | .error .blocked => throw .blocked
    | _ => throw .failed

def handshake (inetNtop : Bytes → Bytes) : Call Stop σ Target := do
  socksNegotiate fd
  readTarget fd inetNtop

end Handshake

-- What lies around the program: the text of an address, the addresses of a host, and
-- whether a socket connects to one.
structure Net (α : Type) where
  inetNtop : Bytes → Bytes
  getaddrinfo : Bytes → Nat → Option (List α)
  connect : α → Option Socket

-- The first address of the host that a socket connects to.
def connectUpstream {α : Type} (net : Net α) (target : Target) : Option Socket :=
  match net.getaddrinfo target.host target.port with
  | none => none
  | some result => result.findSome? net.connect

-- The sockets when handle_client ends or waits: which target it has asked for, and how
-- its relay stands.
structure Served where
  client : Socket
  asked : Option Target
  upstream : Option Socket
  ended : Option PumpEnd
deriving DecidableEq, Repr

def handleClient {α : Type} (net : Net α) (split : SplitMode) (polls : List PollResult) (client : Socket) :
    Served :=
  match handshake socket net.inetNtop client with
  | (.error _, client) => ⟨client, none, none, none⟩
  | (.ok target, client) =>
      match connectUpstream net target with
      | none => ⟨(sendResult socket false client).2, some target, none, none⟩
      | some upstream =>
          match sendResult socket true client with
          | (.error _, client) => ⟨client, some target, some upstream, none⟩
          | (.ok _, client) =>
              let r := relayConnection client upstream split polls
              ⟨r.client, some target, some r.upstream, some r.ended⟩

end DpiProxy.Socks
