import DpiProxy.Table
import DpiProxy.Text.Scan
import DpiProxy.Transparent.Plan

namespace DpiProxy.Transparent

open Wire CText

def STRATEGY_DOMAIN_MAX : Nat := 256
def TP_COOLDOWN_SECONDS : Int64 := 60
def TP_COOLDOWN_MAX : Nat := 64
def TP_DECISION_TTL_SECONDS : Int64 := 86400
def TP_DECISIONS_MAX : Nat := 2048
def TP_DIRECT_BAD_MAX : Nat := 128
def TP_DIRECT_BAD_TTL_SECONDS : Int64 := 3600

structure TpDecision where
  host : Bytes
  fingerprint : UInt64
  family : Int32
  step : TpStep
  validatedAt : Int64
deriving DecidableEq, Repr

structure TpCooldown where
  host : Bytes
  expires : Int64
deriving DecidableEq, Repr

structure TpMark where
  host : Bytes
  fingerprint : UInt64
  family : Int32
  expires : Int64
deriving DecidableEq, Repr

-- Entries of zeroed memory.
def TpDecision.zero : TpDecision := ⟨[], 0, 0, ⟨.original, .pass⟩, 0⟩
def TpCooldown.zero : TpCooldown := ⟨[], 0⟩
def TpMark.zero : TpMark := ⟨[], 0, 0, 0⟩

-- entries[0 .. count), and the two tables of a fixed size.
structure TpDecisions where
  entries : List TpDecision
  cap : Nat
  cooldown : List TpCooldown
  directBad : List TpMark
  dirty : Bool
  cooldownSize : cooldown.length = TP_COOLDOWN_MAX
  directBadSize : directBad.length = TP_DIRECT_BAD_MAX

def tpDecisionsInit : TpDecisions where
  entries := []
  cap := 0
  cooldown := List.replicate TP_COOLDOWN_MAX .zero
  directBad := List.replicate TP_DIRECT_BAD_MAX .zero
  dirty := false
  cooldownSize := List.length_replicate
  directBadSize := List.length_replicate

def fresh (e : TpDecision) (fp : UInt64) (now : Int64) : Bool :=
  fp ≠ NETFP_UNKNOWN ∧ e.fingerprint = fp ∧ now ≥ e.validatedAt ∧
    now - e.validatedAt < TP_DECISION_TTL_SECONDS

-- A pointer into entries is an index.
def find (d : TpDecisions) (host : Bytes) (fp : UInt64) (family : Int32) : Option Nat :=
  d.entries.findIdx? fun e => e.fingerprint = fp ∧ e.family = family ∧ ieq e.host host

def TpDecisions.entry (d : TpDecisions) (i : Nat) : TpDecision := d.entries.getD i .zero

def tpDecisionLookup (d : TpDecisions) (host : Bytes) (fp : UInt64) (family : Int32) (now : Int64) :
    Option TpDecision :=
  match find d host fp family with
  | none => none
  | some i => if !fresh (d.entry i) fp now then none else some (d.entry i)

def removeEntry (d : TpDecisions) (i : Nat) : TpDecisions :=
  { d with entries := Table.swapRemove d.entries i, dirty := true }

-- The slot for a new entry; the allocation succeeds.
def newSlot (d : TpDecisions) : TpDecisions × Nat :=
  if d.entries.length < d.cap then
    ({ d with entries := d.entries ++ [.zero] }, d.entries.length)
  else if d.cap < TP_DECISIONS_MAX then
    let cap := if d.cap ≠ 0 then d.cap * 2 else 16
    let cap := if cap > TP_DECISIONS_MAX then TP_DECISIONS_MAX else cap
    ({ d with entries := d.entries ++ [.zero], cap := cap }, d.entries.length)
  else (d, Table.minIndex (·.validatedAt.toInt) d.entries)

-- How tp_decision_success and parse_line end: the entry of the key, a new one if
-- there is none, gets the step and the time.
def putEntry (d : TpDecisions) (host : Bytes) (fp : UInt64) (family : Int32) (step : TpStep)
    (validatedAt : Int64) : TpDecisions :=
  match find d host fp family with
  | some i =>
      { d with
        entries := d.entries.set i { d.entry i with step := step, validatedAt := validatedAt } }
  | none =>
      let slot := newSlot d
      { slot.1 with entries := slot.1.entries.set slot.2 ⟨host, fp, family, step, validatedAt⟩ }

def cooldownFind (d : TpDecisions) (host : Bytes) : Option Nat :=
  d.cooldown.findIdx? fun c => c.host ≠ [] ∧ ieq c.host host

def setCooldown (d : TpDecisions) (i : Nat) (c : TpCooldown) : TpDecisions :=
  { d with
    cooldown := d.cooldown.set i c
    cooldownSize := by rw [List.length_set, d.cooldownSize] }

def clearCooldown (d : TpDecisions) (host : Bytes) : TpDecisions :=
  match cooldownFind d host with
  | none => d
  | some i => setCooldown d i { d.cooldown.getD i .zero with host := [] }

def tpDecisionSuccess (d : TpDecisions) (host : Bytes) (fp : UInt64) (family : Int32) (now : Int64)
    (step : TpStep) : TpDecisions :=
  let d := clearCooldown d host
  if fp = NETFP_UNKNOWN ∨ host.length ≥ STRATEGY_DOMAIN_MAX then d
  else if step.target = .original ∧ step.strategy = .pass then
    match find d host fp family with
    | none => d
    | some i => removeEntry d i
  else
    -- an entry that says the same and is in the first half of its time stays
    let kept := (find d host fp family).any fun i =>
      fresh (d.entry i) fp now ∧ (d.entry i).step.target = step.target ∧
        (d.entry i).step.strategy = step.strategy ∧
        now - (d.entry i).validatedAt < TP_DECISION_TTL_SECONDS / 2
    if kept then d else { putEntry d host fp family step now with dirty := true }

-- The slot of a table with an expiry: the host's own, else a free or expired one,
-- else the one that expires first.
def slotFor {α : Type} (own : Option Nat) (free : α → Bool) (expires : α → Int64)
    (table : List α) : Nat :=
  match own with
  | some i => i
  | none =>
      match table.findIdx? free with
      | some i => i
      | none => Table.minIndex (fun x => (expires x).toInt) table

def cooldownSlot (d : TpDecisions) (host : Bytes) (now : Int64) : Nat :=
  slotFor (cooldownFind d host) (fun c => c.host = [] ∨ c.expires ≤ now) (·.expires) d.cooldown

def tpDecisionFailure (d : TpDecisions) (host : Bytes) (fp : UInt64) (family : Int32)
    (now : Int64) : TpDecisions :=
  let i := cooldownSlot d host now
  let d := if host.length < STRATEGY_DOMAIN_MAX then
      setCooldown d i ⟨host, now + TP_COOLDOWN_SECONDS⟩
    else d
  match find d host fp family with
  | none => d
  | some i => removeEntry d i

def tpInCooldown (d : TpDecisions) (host : Bytes) (now : Int64) : Bool :=
  match cooldownFind d host with
  | none => false
  | some i => (d.cooldown.getD i .zero).expires > now

def markFind (d : TpDecisions) (host : Bytes) (fp : UInt64) (family : Int32) : Option Nat :=
  d.directBad.findIdx? fun m => m.host ≠ [] ∧ m.fingerprint = fp ∧ m.family = family ∧ ieq m.host host

def markSlot (d : TpDecisions) (host : Bytes) (fp : UInt64) (family : Int32) (now : Int64) : Nat :=
  slotFor (markFind d host fp family) (fun m => m.host = [] ∨ m.expires ≤ now) (·.expires)
    d.directBad

def tpDirectBadMark (d : TpDecisions) (host : Bytes) (fp : UInt64) (family : Int32) (now : Int64) :
    TpDecisions :=
  if fp = NETFP_UNKNOWN ∨ host.length ≥ STRATEGY_DOMAIN_MAX then d
  else
    { d with
      directBad := d.directBad.set (markSlot d host fp family now)
        ⟨host, fp, family, now + TP_DIRECT_BAD_TTL_SECONDS⟩
      directBadSize := by rw [List.length_set, d.directBadSize] }

def tpDirectBad (d : TpDecisions) (host : Bytes) (fp : UInt64) (family : Int32) (now : Int64) : Bool :=
  if fp = NETFP_UNKNOWN then false
  else
    match markFind d host fp family with
    | none => false
    | some i => (d.directBad.getD i .zero).expires > now

def tpDecisionsNetworkChanged (d : TpDecisions) : TpDecisions :=
  { d with
    cooldown := List.replicate TP_COOLDOWN_MAX .zero
    directBad := List.replicate TP_DIRECT_BAD_MAX .zero
    cooldownSize := List.length_replicate
    directBadSize := List.length_replicate }

end DpiProxy.Transparent
