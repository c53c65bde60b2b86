import DpiProxy.Interleaving
import DpiProxy.Text.Search
import DpiProxy.Transparent.Macos.Watchdog

namespace DpiProxy.Transparent.Macos

open Wire Interleaving

-- A watchdog process: what is in its pipe, if the daemon has the other end, and what it
-- still does before it reads on or exits.
structure Process where
  self : Watchdog
  pipe : Bytes
  writer : Bool
  chores : List Chore
  exits : Bool
  dead : Bool
deriving DecidableEq

-- What outlives every process: the anchor, the references to PF that are held, and the
-- token file.
structure Host where
  anchor : Part → Bool
  refs : List Bytes
  file : Option Bytes

def Host.Empty (h : Host) : Prop := ∀ part, h.anchor part = false

-- `child` is the watchdog that the daemon has not reaped; the orphans have lost theirs.
structure World where
  host : Host
  child : Option Process
  orphans : List Process

def Host.flush (h : Host) (part : Part) : Host := { h with anchor := fun p => if p = part then false else h.anchor p }

def Host.load (h : Host) : Host := { h with anchor := fun _ => true }

def Host.release (h : Host) (token : Bytes) : Host := { h with refs := h.refs.filter fun t => t ≠ token }

-- What the daemon looks at with pfctl.
inductive Shown where
  | anchorNat
  | anchorRules
  | mainNat
  | mainRules
  | info
deriving DecidableEq, Repr

-- A run of pfctl counts as one operation, from its start until it is waited for.
inductive Op where
  | flush (part : Part)
  | load
  | loadMain
  | view (what : Shown)
  | enable
  | release (token : Bytes)
  | readConf
  | readToken
  | writeToken (content : Bytes)
  | unlinkToken
  | reap
  | kill
  | pipe
  | spawn
  | send (bytes : Bytes)
  | closePipe
deriving DecidableEq, Repr

-- `ok`: it has succeeded (exit status 0); `text`: what it has printed or read.
structure Reply where
  ok : Bool
  text : Bytes
deriving DecidableEq, Repr

def strstr (text : Bytes) (s : List Char) : Bool := (Search.find (ascii s) text).isSome

def RDR : List Char := ['r', 'd', 'r', ' ', 'p', 'a', 's', 's', ' ', 'o', 'n', ' ', 'l', 'o', '0']

def ROUTE_TO : List Char := ['r', 'o', 'u', 't', 'e', '-', 't', 'o']

def TOKEN : List Char := ['T', 'o', 'k', 'e', 'n', ' ', ':', ' ']

def Token.ofBytes (b : Bytes) : Token where
  digits := (b.takeWhile isDigit).take 31
  digit _ hc := List.mem_takeWhile_imp (List.mem_of_mem_take hc)
  short := List.length_take_le _ _

-- The token that pfctl -E prints.
def tokenIn (text : Bytes) : Option Token :=
  (Search.find (ascii TOKEN) text).map fun i => .ofBytes (text.drop (i + TOKEN.length))

-- token_read: at most 31 characters of the first line.
def tokenRead (content : Bytes) : Bytes := (content.take 31).takeWhile isDigit

def Shown.prints (what : Shown) (r : Reply) (h : Host) : Prop :=
  match what with
  | .anchorNat => strstr r.text RDR = true → h.anchor .nat = true
  | .anchorRules => strstr r.text ROUTE_TO = true → h.anchor .rules = true
  | _ => True

instance (what : Shown) (r : Reply) (h : Host) : Decidable (what.prints r h) := by
  unfold Shown.prints
  split <;> infer_instance

-- A watchdog has just been started; its clock starts with it.
def Process.fresh (stack : Bytes) : Process := ⟨.start stack 0, [], true, [], false, false⟩

def Op.does (o : Op) (r : Reply) (w : World) : Option World :=
  match o with
  | .flush part => some (if r.ok then { w with host := w.host.flush part } else w)
  | .load => some (if r.ok then { w with host := w.host.load } else w)
  | .loadMain | .readConf | .pipe => some w
  | .view what => if what.prints r w.host then some w else none
  | .enable =>
      match tokenIn r.text with
      | some t =>
          some (if t.digits = [] then w else { w with host := { w.host with refs := t.digits :: w.host.refs } })
      | none => some w
  | .release token => some (if r.ok then { w with host := w.host.release token } else w)
  | .readToken => if r.ok → w.host.file = some r.text then some w else none
  | .writeToken content => some (if r.ok then { w with host := { w.host with file := some content } } else w)
  | .unlinkToken => some (if r.ok then { w with host := { w.host with file := none } } else w)
  | .reap =>
      match w.child with
      | none => if r.ok then some w else none
      | some p => if r.ok = p.dead then some (if r.ok then { w with child := none } else w) else none
  | .kill => some { w with child := w.child.map fun p => { p with dead := true } }
  | .spawn =>
      if r.ok then
        if r.text.length = 31 then
          some { w with child := some (.fresh r.text), orphans := w.orphans ++ w.child.toList }
        else none
      else some w
  | .send bytes =>
      match w.child with
      | none => if r.ok then none else some w
      | some p =>
          if p.dead then if r.ok then none else some w
          else if r.ok ∧ p.writer then some { w with child := some { p with pipe := p.pipe ++ bytes } } else none
  | .closePipe => some { w with child := w.child.map fun p => { p with writer := false } }

abbrev Daemon := Prog Op Reply

-- The daemon's variables; wdPid and wdFd are g_wd_pid > 0 and g_wd_fd >= 0.
structure Globals where
  token : Token
  staleDone : Bool
  wdPid : Bool
  wdFd : Bool
  seenEnabled : Bool
  seenAnchor : Bool
  seenHooks : Bool
  removed : Bool
deriving DecidableEq

def noToken : Token := ⟨[], fun _ h => absurd h List.not_mem_nil, Nat.zero_le _⟩

def Globals.start : Globals := ⟨noToken, false, false, false, false, false, false, false⟩

-- anchor_flush of the daemon
def flushAnchor : Daemon Unit := do
  let _ ← perform (.flush .nat)
  let _ ← perform (.flush .rules)
  let _ ← perform (.flush .tables)
  pure ()

def anchorPresent : Daemon Bool := do
  let nat ← perform (.view .anchorNat)
  if nat.ok && strstr nat.text RDR then do
    let rules ← perform (.view .anchorRules)
    pure (rules.ok && strstr rules.text ROUTE_TO)
  else pure false

section Hooks

def RDR_ANCHOR : List Char :=
  ['r', 'd', 'r', '-', 'a', 'n', 'c', 'h', 'o', 'r', ' ', '"', 'c', 'o', 'm', '.', 'a', 'p', 'p', 'l', 'e', '/',
    '*', '"']

def ANCHOR : List Char :=
  ['a', 'n', 'c', 'h', 'o', 'r', ' ', '"', 'c', 'o', 'm', '.', 'a', 'p', 'p', 'l', 'e', '/', '*', '"']

def hasLine (text : Bytes) (begins : List Char) : Bool :=
  (text.splitOn 10).any fun line => (ascii begins).isPrefixOf line

-- Lines that are rules, and not what pfctl prints besides.
def ruleLines (text : Bytes) : Nat :=
  (text.splitOn 10).countP fun line =>
    line ≠ [] && !(ascii ['N', 'o', ' ', 'A', 'L', 'T', 'Q']).isPrefixOf line &&
      !(ascii ['A', 'L', 'T', 'Q']).isPrefixOf line && !(ascii ['p', 'f', 'c', 't', 'l', ':']).isPrefixOf line

-- If the main ruleset has the hooks, and if it is empty.
def mainHooksPresent : Daemon (Bool × Bool) := do
  let nat ← perform (.view .mainNat)
  if nat.ok then do
    let rules ← perform (.view .mainRules)
    if rules.ok then
      pure (hasLine nat.text RDR_ANCHOR && hasLine rules.text ANCHOR,
        ruleLines nat.text = 0 && ruleLines rules.text = 0)
    else pure (false, false)
  else pure (false, false)

def ensureMainHooks : Daemon Bool := do
  let found ← mainHooksPresent
  if found.1 then pure true
  else if found.2 then do
    let conf ← perform .readConf
    if strstr conf.text RDR_ANCHOR && strstr conf.text ('\n' :: ANCHOR) then do
      let loaded ← perform .loadMain
      if loaded.ok then do
        let again ← mainHooksPresent
        pure again.1
      else pure false
    else pure false
  else pure false

end Hooks

section Reference

def STATUS : List Char :=
  ['S', 't', 'a', 't', 'u', 's', ':', ' ', 'E', 'n', 'a', 'b', 'l', 'e', 'd']

def pfEnabled : Daemon Bool := do
  let info ← perform (.view .info)
  pure (info.ok && strstr info.text STATUS)

def tokenFileForget (token : Bytes) : Daemon Unit := do
  let cur ← perform .readToken
  if cur.ok && decide (tokenRead cur.text ≠ []) && decide (tokenRead cur.text = token) then do
    let _ ← perform .unlinkToken
    pure ()
  else pure ()

def pfRelease (token : Bytes) : Daemon Unit :=
  if token ≠ [] then do
    let _ ← perform (.release token)
    pure ()
  else pure ()

-- The token file is replaced by a rename, at once.
def pfEnable (g : Globals) : Daemon (Bool × Globals) := do
  let out ← perform .enable
  match tokenIn out.text with
  | none => pure (false, g)
  | some t =>
      if t.digits = [] then pure (false, { g with token := t })
      else do
        let _ ← perform (.writeToken (t.digits ++ [10]))
        pure (true, { g with token := t })

end Reference

section WatchdogSide

def wdSend (m : Message) (g : Globals) : Daemon Globals :=
  if g.wdFd then do
    let w ← perform (.send m.bytes)
    if w.ok then pure g
    else do
      let _ ← perform .closePipe
      pure { g with wdFd := false }
  else pure g

-- `sleeps` is how often 20 ms of the waiting time are left.
def wdReap : Nat → Globals → Daemon Globals
  | sleeps, g =>
      if g.wdPid then do
        let r ← perform .reap
        if r.ok then pure { g with wdPid := false }
        else
          match sleeps with
          | 0 => pure g
          | sleeps + 1 => wdReap sleeps g
      else pure g

def wdSendToken (g : Globals) : Daemon Globals :=
  if g.token.digits = [] then pure g else wdSend (.token g.token) g

def wdSpawn (g : Globals) : Daemon Globals := do
  let p ← perform .pipe
  if p.ok then do
    let rc ← perform .spawn
    if rc.ok then wdSendToken { g with wdPid := true, wdFd := true }
    else pure { g with wdPid := false }
  else pure g

def wdClose (g : Globals) : Daemon Globals :=
  if g.wdFd then do
    let _ ← perform .closePipe
    pure { g with wdFd := false }
  else pure g

def wdKill (g : Globals) : Daemon Globals :=
  if g.wdPid then do
    let _ ← perform .kill
    wdReap 50 g
  else pure g

-- wd_beat where there is no watchdog, or none that reads
def wdRestart (g : Globals) : Daemon Globals := do
  let g ← wdClose g
  let g ← wdKill g
  wdSpawn g

def wdPing (g : Globals) : Daemon Globals := if g.wdPid then wdSend .beat g else pure g

def wdBeat (g : Globals) : Daemon Globals := do
  let g ← wdReap 0 g
  let g ← wdPing g
  if g.wdPid && g.wdFd then pure g else wdRestart g

def wdStop (g : Globals) : Daemon Globals := do
  let g ← wdSend .quit g
  let g ← wdClose g
  let g ← wdReap 100 g
  wdKill g

end WatchdogSide

def staleCleanup : Daemon Unit := do
  flushAnchor
  let old ← perform .readToken
  if old.ok && decide (tokenRead old.text ≠ []) then do
    pfRelease (tokenRead old.text)
    tokenFileForget (tokenRead old.text)
  else pure ()

-- tpp_install from the time the rules are loaded and PF is enabled
def installed (g : Globals) : Daemon (Bool × Globals) := do
  let present ← anchorPresent
  let g ← wdBeat { g with seenEnabled := true, seenAnchor := present }
  pure (present, g)

def dropToken (g : Globals) : Daemon Globals :=
  if g.token.digits ≠ [] then do
    pfRelease g.token.digits
    pure { g with token := noToken }
  else pure g

-- tpp_install where PF is not enabled, or not by us
def installEnable (g : Globals) : Daemon (Bool × Globals) := do
  let g ← dropToken g
  let enabled ← pfEnable g
  if enabled.1 then do
    let g ← wdSendToken enabled.2
    installed g
  else do
    flushAnchor
    pure (false, enabled.2)

def installLoad (g : Globals) : Daemon (Bool × Globals) := do
  flushAnchor
  let loaded ← perform .load
  if loaded.ok then
    if g.token.digits = [] then installEnable g
    else do
      let enabled ← pfEnabled
      if enabled then installed g else installEnable g
  else pure (false, g)

def firstCleanup (g : Globals) : Daemon Globals :=
  if g.staleDone then pure g
  else do
    staleCleanup
    pure { g with staleDone := true }

-- If it returns 0, and the variables.
def tppInstall (g : Globals) : Daemon (Bool × Globals) := do
  let g ← firstCleanup { g with removed := false }
  let hooks ← ensureMainHooks
  if hooks then installLoad { g with seenHooks := true } else pure (false, { g with seenHooks := false })

def tppRefresh (g : Globals) : Daemon (Int × Globals) := do
  let g ← wdBeat g
  let enabled ← pfEnabled
  let anchor ← anchorPresent
  let hooks ← mainHooksPresent
  let g := { g with seenEnabled := enabled, seenAnchor := anchor, seenHooks := hooks.1 }
  if enabled && anchor && hooks.1 then pure (0, g)
  else do
    let installed ← tppInstall g
    pure (if installed.1 then 1 else -1, installed.2)

def releaseToken (g : Globals) : Daemon Globals :=
  if g.token.digits ≠ [] then do
    pfRelease g.token.digits
    tokenFileForget g.token.digits
    pure { g with token := noToken }
  else pure g

def tppRemove (g : Globals) : Daemon Globals := do
  flushAnchor
  let g ← releaseToken g
  let g ← wdStop g
  let enabled ← pfEnabled
  pure { g with seenEnabled := enabled, seenAnchor := false, removed := true }

end DpiProxy.Transparent.Macos
