import DpiProxy.Discovery.Cache.File
import DpiProxy.Discovery.Ladder
import DpiProxy.Interleaving
import DpiProxy.Strategy.Config.Theorems
import DpiProxy.Text.Search

namespace DpiProxy.Discovery

open Wire CText Interleaving
open Transparent (STRATEGY_DOMAIN_MAX LF textLines strategyName)

section Config

def assign : Bytes := ascii [' ', '=', ' ']

-- What write_temp_config prints.
def tempConfig (domain : Bytes) (candidate : StrategyChain) (fakeTtl : UInt8) : Bytes :=
  defaultKey ++ assign ++ strategyName .pass ++ LF :: (fakeTtlKey ++ assign ++ printNat fakeTtl.toNat ++ LF :: LF ::
    (domainsHeader ++ LF :: (domain ++ assign ++ chainDesc candidate ++ [LF])))

-- sizeof(buf) in load_strategy_config.
def ENGINE_CONFIG_SIZE : Nat := 8192

-- From a strategies that strategy_config_init has set.
def loadStrategyConfig (file : Option Bytes) : StrategyConfig :=
  match file with
  | none => strategyConfigInit
  | some text => (strategyConfigParse strategyConfigInit (text.take (ENGINE_CONFIG_SIZE - 1))).1

end Config

section Oracle

def connectedMark : Bytes := ascii ['C', 'O', 'N', 'N', 'E', 'C', 'T', 'E', 'D', '(']

def verifyMark : Bytes :=
  ascii ['V', 'e', 'r', 'i', 'f', 'y', ' ', 'r', 'e', 't', 'u', 'r', 'n', ' ', 'c', 'o', 'd', 'e', ':']

def verifiedMark : Bytes := verifyMark ++ ascii [' ', '0', ' ', '(', 'o', 'k', ')']

def probeClassifyOpensslOutput (out : Bytes) : ProbeResult :=
  if Search.find connectedMark out = none then .localError
  else if Search.find verifyMark out = none then .remoteRejected
  else if Search.find verifiedMark out = none then .remoteRejected
  else .success

end Oracle

section Prober

-- A child that has ended is there until it is waited for.
inductive Child where
  | none
  | running
  | ended
  | reaped
deriving DecidableEq, Repr

inductive Who where
  | engine
  | openssl
deriving DecidableEq, Repr

-- `room` is how much the disk takes of the configuration, `fds` counts the prober's open
-- descriptors, `said` is what it has read of openssl's output, `table` is if the table of
-- the engine's rules is there.
structure ProbeWorld where
  now : Int
  room : Nat
  file : Option Bytes
  fds : Int
  engine : Child
  openssl : Child
  said : Bytes
  table : Bool
deriving DecidableEq, Repr

inductive Signal where
  | term
  | kill
deriving DecidableEq, Repr

inductive ProbeOp where
  | mkstemp
  | fdopen
  | write (text : Bytes)
  | close
  | unlink
  | fork (who : Who)
  | sleep
  | now
  | pipe
  | read (size : Nat)
  | waitNohang (who : Who)
  | wait (who : Who)
  | kill (who : Who) (signal : Signal)
  | nftRemove
deriving DecidableEq, Repr

-- `again` is an EINTR or EAGAIN.
inductive ProbeReply where
  | yes
  | no
  | again
  | data (b : Bytes)
  | time (t : Int)
deriving DecidableEq, Repr

def ProbeWorld.child (w : ProbeWorld) : Who → Child
  | .engine => w.engine
  | .openssl => w.openssl

def ProbeWorld.setChild (w : ProbeWorld) (c : Child) : Who → ProbeWorld
  | .engine => { w with engine := c }
  | .openssl => { w with openssl := c }

def ProbeOp.does : ProbeOp → ProbeReply → ProbeWorld → Option ProbeWorld
  | .mkstemp, .yes, w => if w.file = none then some { w with file := some [], fds := w.fds + 1 } else none
  | .mkstemp, .no, w => some w
  | .fdopen, .yes, w => some w
  | .fdopen, .no, w => some w
  -- a full disk goes unnoticed
  | .write text, .yes, w => some { w with file := some (text.take w.room) }
  | .close, .yes, w => some { w with fds := w.fds - 1 }
  | .unlink, .yes, w => some { w with file := none }
  | .fork who, .yes, w => if w.child who = .none then some (w.setChild .running who) else none
  | .fork _, .no, w => some w
  | .sleep, .yes, w => some w
  | .now, .time t, w => if t = w.now then some w else none
  | .pipe, .yes, w => some { w with fds := w.fds + 2 }
  | .pipe, .no, w => some w
  | .read size, .data b, w => if b ≠ [] ∧ b.length ≤ size then some { w with said := w.said ++ b } else none
  -- the end, or an error
  | .read _, .no, w => some w
  | .read _, .again, w => some w
  | .waitNohang who, .yes, w => if w.child who = .ended then some (w.setChild .reaped who) else none
  | .waitNohang _, .no, w => some w
  | .wait who, .yes, w => if w.child who = .ended then some (w.setChild .reaped who) else none
  -- its end comes later
  | .kill _ _, .yes, w => some w
  | .nftRemove, .yes, w => some { w with table := false }
  | .nftRemove, .no, w => some w
  | _, _, _ => none

abbrev Prober (α : Type) := Prog ProbeOp ProbeReply α

def ask (o : ProbeOp) : Prober Bool := do
  let r ← perform o
  pure (decide (r = .yes))

def nowMs : Prober Int := do
  match ← perform .now with
  | .time t => pure t
  | _ => pure 0

def writeTempConfig (text : Bytes) : Prober Bool := do
  let made ← ask .mkstemp
  if made then do
    let opened ← ask .fdopen
    if opened then do
      let _ ← ask (.write text)
      let _ ← ask .close
      pure true
    else do
      let _ ← ask .close
      let _ ← ask .unlink
      pure false
  else pure false

-- The loop of stop_scoped_engine, for at most n turns: true is a return in it.
def waitLoop (deadline : Int) : Nat → Prober Bool
  | 0 => pure false
  | n + 1 => do
      let now ← nowMs
      if now < deadline then do
        let gone ← ask (.waitNohang .engine)
        if gone then pure true
        else do
          let _ ← ask .sleep
          waitLoop deadline n
      else pure false

def killAndWait (who : Who) : Prober Bool := do
  let _ ← ask (.kill who .kill)
  ask (.wait who)

def reapOrKill (who : Who) : Prober Bool := do
  let gone ← ask (.waitNohang who)
  if gone then pure true else killAndWait who

def stopScopedEngine (timeoutMs : Int) (n : Nat) : Prober Bool := do
  let _ ← ask (.kill .engine .term)
  let now ← nowMs
  let gone ← waitLoop (now + timeoutMs) n
  if gone then pure true else killAndWait .engine

-- sizeof(buf) in run_openssl_check.
def OPENSSL_BUF_SIZE : Nat := 32768

-- What is in the buffer after a read, and if the loop goes on.
def readMore (buf : Bytes) : Prober (Bytes × Bool) := do
  match ← perform (.read (OPENSSL_BUF_SIZE - 1 - buf.length)) with
  | .data b => pure (buf ++ b, true)
  | .again => pure (buf, true)
  | _ => pure (buf, false)

-- For at most n turns.
def readLoop (deadline : Int) : Nat → Bytes → Prober Bytes
  | 0, buf => pure buf
  | n + 1, buf => do
      let now ← nowMs
      if now < deadline ∧ buf.length + 1 < OPENSSL_BUF_SIZE then do
        let more ← readMore buf
        if more.2 then readLoop deadline n more.1 else pure more.1
      else pure buf

def checkOutput (timeoutMs : Int) (n : Nat) : Prober ProbeResult := do
  let _ ← ask .close
  let now ← nowMs
  let buf ← readLoop (now + timeoutMs) n []
  let _ ← ask .close
  let _ ← reapOrKill .openssl
  pure (probeClassifyOpensslOutput (cstr buf))

def runOpensslCheck (timeoutMs : Int) (n : Nat) : Prober ProbeResult := do
  let piped ← ask .pipe
  if piped then do
    let forked ← ask (.fork .openssl)
    if forked then checkOutput timeoutMs n
    else do
      let _ ← ask .close
      let _ ← ask .close
      pure .localError
  else pure .localError

-- The result, and if nft has removed the table. `n` bounds the turns of both loops.
def probeViaLiveEngine (domain : Bytes) (candidate : StrategyChain) (timeoutMs : Int) (fakeTtl : UInt8) (n : Nat) :
    Prober (ProbeResult × Bool) := do
  let written ← writeTempConfig (tempConfig domain candidate fakeTtl)
  if written then do
    let started ← ask (.fork .engine)
    if started then do
      let _ ← ask .sleep
      let result ← runOpensslCheck timeoutMs n
      let _ ← stopScopedEngine 3000 n
      let removed ← ask .nftRemove
      let _ ← ask .unlink
      pure (result, removed)
    else do
      let _ ← ask .unlink
      pure (.localError, false)
  else pure (.localError, false)

end Prober

end DpiProxy.Discovery
