import DpiProxy.Interleaving
import DpiProxy.Transparent.Daemon
import DpiProxy.Transparent.Macos.Watchdog

namespace DpiProxy.Transparent.Linux

open Interleaving
open Macos (TP_ALIVE_TIMEOUT_S)

def TP_HEARTBEAT_S : Int := 10
def NETCHANGE_SETTLE_MS : Int := 2000
def NETCHECK_INTERVAL_S : Int := 60

inductive SockType where
  | stream
  | dgram
deriving DecidableEq, Repr

-- A socket that tpd_listen has bound.
structure Listener where
  family : AddrFamily
  type : SockType
  port : Nat
deriving DecidableEq, Repr

inductive ServerThread where
  | verifier
  | udpLoop (family : AddrFamily)
  | tcpLoop (family : AddrFamily)
deriving DecidableEq, Repr

-- The table of tp_nft_ruleset: its rules, and until when the element of each alive set
-- lasts, in milliseconds.
structure Table where
  port : Nat
  ipv6 : Bool
  dnsPort : Nat
  alive : Option Int
  aliveDns : Option Int
deriving DecidableEq, Repr

-- What nft -f is fed.
inductive Script where
  | ruleset (port : Nat) (ipv6 : Bool) (dnsPort : Nat)
  | heartbeat (dns : Bool)
  | remove
  | quicFlush
  | listForeign
deriving DecidableEq, Repr

-- A script is one transaction: it is carried out whole, or not at all where it names a table
-- that does not exist.
def Script.run (now : Int) : Script → Option Table → Option (Option Table)
  | .ruleset port ipv6 dnsPort, _ => some (some ⟨port, ipv6, dnsPort, none, none⟩)
  | .heartbeat dns, some t =>
      let expires := now + TP_ALIVE_TIMEOUT_S * 1000
      some (some { t with alive := some expires, aliveDns := if dns then some expires else none })
  | .heartbeat _, none => none
  | .remove, _ => some none
  | .quicFlush, some t => some (some t)
  | .quicFlush, none => none
  | .listForeign, table => some table

structure World where
  now : Int
  table : Option Table
  listeners : List Listener
  threads : List ServerThread
deriving DecidableEq, Repr

-- What the server does besides, for which the world here is the same before and after.
inductive Other where
  | tppInit
  | initDns
  | loadStrategyConf
  | loadDecisions
  | fingerprint
  | tlsContext
  | stopped
  | poll
  | pollin (family : AddrFamily)
  | accept (family : AddrFamily)
  | netwatchDrain
  | reload
  | saveDecisions
  | writeStatus
deriving DecidableEq, Repr

inductive Op where
  | listen (l : Listener)
  | close (l : Listener)
  | thread (t : ServerThread)
  | nft (script : Script)
  | now
  | other (o : Other)
deriving DecidableEq, Repr

inductive Reply where
  | yes
  | no
  | time (t : Int)
deriving DecidableEq, Repr

def Op.does : Op → Reply → World → Option World
  | .listen l, .yes, w => if l ∈ w.listeners then none else some { w with listeners := l :: w.listeners }
  | .listen _, .no, w => some w
  | .close l, .yes, w => some { w with listeners := w.listeners.erase l }
  | .thread t, .yes, w => some { w with threads := t :: w.threads }
  | .thread _, .no, w => some w
  | .nft script, .yes, w => (script.run w.now w.table).map fun table => { w with table := table }
  | .nft _, .no, w => some w
  | .now, .time t, w => if t = w.now then some w else none
  | .other _, .yes, w => some w
  | .other _, .no, w => some w
  | _, _, _ => none

abbrev Server (α : Type) := Prog Op Reply α

def ask (o : Op) : Server Bool := do
  let r ← perform o
  pure (decide (r = .yes))

def tpdNowMs : Server Int := do
  match ← perform .now with
  | .time t => pure t
  | _ => pure 0

def closeIf (opened : Bool) (l : Listener) : Server Bool := if opened then ask (.close l) else pure false

section Platform

def heartbeatNft (dnsPort : Nat) : Server Bool := ask (.nft (.heartbeat (decide (dnsPort > 0))))

def tppInstall (port : Nat) (ipv6 : Bool) (dnsPort : Nat) : Server Bool := do
  let loaded ← ask (.nft (.ruleset port ipv6 dnsPort))
  if loaded then heartbeatNft dnsPort else pure false

-- It has the ports of the last tpp_install that loaded its rules.
def tppRefresh (port : Nat) (ipv6 : Bool) (dnsPort : Nat) : Server Bool := do
  let beaten ← heartbeatNft dnsPort
  if beaten then pure true else tppInstall port ipv6 dnsPort

def tppRemove : Server Bool := ask (.nft .remove)

end Platform

section Forwarder

def stopFamily (family : AddrFamily) (port : Nat) (udp tcp : Bool) : Server Bool := do
  let _ ← closeIf udp ⟨family, .dgram, port⟩
  let _ ← closeIf tcp ⟨family, .stream, port⟩
  pure false

def startThreads (family : AddrFamily) (port : Nat) : Server Bool := do
  let udp ← ask (.thread (.udpLoop family))
  if udp then do
    let tcp ← ask (.thread (.tcpLoop family))
    -- the UDP loop goes on
    if tcp then pure true else stopFamily family port false true
  else stopFamily family port true true

def startFamily (family : AddrFamily) (port : Nat) : Server Bool := do
  let ufd ← ask (.listen ⟨family, .dgram, port⟩)
  let tfd ← ask (.listen ⟨family, .stream, port⟩)
  if ufd && tfd then startThreads family port else stopFamily family port ufd tfd

-- If DNS is intercepted, and g_tpd.ipv6.
def tpdDnsfwdStart (port : Nat) (ipv6 : Bool) : Server (Bool × Bool) := do
  let v4 ← startFamily .inet port
  if v4 then
    if ipv6 then do
      let v6 ← startFamily .inet6 port
      pure (true, v6)
    else pure (true, false)
  else pure (false, ipv6)

end Forwarder

section MainLoop

-- The variables of main_loop, in milliseconds.
structure Loop where
  nextBeat : Int
  netDue : Int
  nextNetcheck : Int
deriving DecidableEq, Repr

-- What is due in a turn: `now` is read after the poll, `event` is a change of the network.
def Loop.turn (l : Loop) (now : Int) (event : Bool) : Loop × Bool × Bool :=
  let netDue := if event then now + NETCHANGE_SETTLE_MS else l.netDue
  let check := (netDue ≠ 0 ∧ now ≥ netDue) ∨ now ≥ l.nextNetcheck
  let beat := now ≥ l.nextBeat
  ({ nextBeat := if beat then now + TP_HEARTBEAT_S * 1000 else l.nextBeat
     netDue := if check then 0 else netDue
     nextNetcheck := if check then now + NETCHECK_INTERVAL_S * 1000 else l.nextNetcheck },
    decide check, decide beat)

def checkNetwork : Server Bool := do
  let changed ← ask (.other .fingerprint)
  if changed then ask (.nft .quicFlush) else pure false

def checkConflicts : Server Bool := ask (.nft .listForeign)

def checks (due : Bool) : Server Bool :=
  if due then do
    let _ ← checkNetwork
    checkConflicts
  else pure false

def heartbeat (due : Bool) (port : Nat) (ipv6 : Bool) (dnsPort : Nat) : Server Bool :=
  if due then do
    let _ ← tppRefresh port ipv6 dnsPort
    let _ ← ask (.other .saveDecisions)
    ask (.other .writeStatus)
  else pure false

def acceptOne (family : AddrFamily) (listens : Bool) : Server Bool :=
  if listens then do
    let readable ← ask (.other (.pollin family))
    if readable then ask (.other (.accept family)) else pure false
  else pure false

def reread (reload : Bool) : Server Bool := if reload then ask (.other .loadStrategyConf) else pure false

-- One turn behind the poll.
def loopTurn (port : Nat) (ipv6 lfd6 : Bool) (dnsPort : Nat) (l : Loop) : Server Loop := do
  let _ ← acceptOne .inet true
  let _ ← acceptOne .inet6 lfd6
  let now ← tpdNowMs
  let event ← ask (.other .netwatchDrain)
  let next := l.turn now event
  let _ ← checks next.2.1
  let reload ← ask (.other .reload)
  let _ ← reread reload
  let _ ← heartbeat next.2.2 port ipv6 dnsPort
  pure next.1

-- At most so many turns: g_stop is set after them at the latest.
def turns (port : Nat) (ipv6 lfd6 : Bool) (dnsPort : Nat) : Nat → Loop → Server Bool
  | 0, _ => pure true
  | n + 1, l => do
      let stopped ← ask (.other .stopped)
      if stopped then pure true
      else do
        let polled ← ask (.other .poll)
        if polled then do
          let l ← loopTurn port ipv6 lfd6 dnsPort l
          turns port ipv6 lfd6 dnsPort n l
        else pure true

def mainLoop (port : Nat) (ipv6 lfd6 : Bool) (dnsPort n : Nat) : Server Bool := do
  let beat ← tpdNowMs
  let check ← tpdNowMs
  turns port ipv6 lfd6 dnsPort n ⟨beat + TP_HEARTBEAT_S * 1000, 0, check + NETCHECK_INTERVAL_S * 1000⟩

end MainLoop

section Serve

structure Options where
  port : Nat
  dnsPort : Nat
deriving DecidableEq, Repr

def tpdVerifyStart : Server Bool := do
  let context ← ask (.other .tlsContext)
  if context then ask (.thread .verifier) else pure false

def startDns (dnsPort : Nat) (ipv6 : Bool) : Server (Bool × Bool) :=
  if dnsPort > 0 then tpdDnsfwdStart dnsPort ipv6 else pure (false, ipv6)

def installAll (port : Nat) (ipv6 : Bool) (dnsPort : Nat) : Server Bool := do
  let verifier ← tpdVerifyStart
  if verifier then tppInstall port ipv6 dnsPort else pure false

-- Interception starts: run_transparent_server from check_conflicts on.
def serve (port : Nat) (ipv6 lfd6 : Bool) (dnsPort n : Nat) : Server (Int × Bool) := do
  let _ ← checkConflicts
  let installed ← installAll port ipv6 dnsPort
  if installed then do
    let _ ← ask (.other .writeStatus)
    let _ ← mainLoop port ipv6 lfd6 dnsPort n
    let removed ← tppRemove
    let _ ← ask (.other .saveDecisions)
    let _ ← ask (.other .writeStatus)
    pure (0, removed)
  else do
    let removed ← tppRemove
    let _ ← ask (.close ⟨.inet, .stream, port⟩)
    let _ ← closeIf lfd6 ⟨.inet6, .stream, port⟩
    pure (-1, removed)

-- The listeners come first.
def listenAndServe (opt : Options) (n : Nat) : Server (Int × Bool) := do
  let lfd4 ← ask (.listen ⟨.inet, .stream, opt.port⟩)
  if lfd4 then do
    let lfd6 ← ask (.listen ⟨.inet6, .stream, opt.port⟩)
    let dns ← startDns opt.dnsPort lfd6
    serve opt.port dns.2 lfd6 (if dns.1 then opt.dnsPort else 0) n
  else pure (-1, false)

-- The return value, and if a removal of the table at the end has succeeded. `n` bounds the
-- turns of the main loop.
def runTransparentServer (opt : Options) (n : Nat) : Server (Int × Bool) := do
  let initialized ← ask (.other .tppInit)
  if initialized then do
    let dns ← ask (.other .initDns)
    if dns then do
      let _ ← ask (.other .loadStrategyConf)
      let _ ← ask (.other .fingerprint)
      let _ ← ask (.other .loadDecisions)
      listenAndServe opt n
    else pure (-1, false)
  else pure (-1, false)

end Serve

end DpiProxy.Transparent.Linux
