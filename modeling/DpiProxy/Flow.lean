import DpiProxy.Strategy

namespace DpiProxy.Flow

open Wire

def FLOW_TABLE_MAX : Nat := 4096
def FLOW_DEFAULT_TIMEOUT_SECONDS : Int := 30
def FLOW_REASSEMBLY_CAP : Nat := 16384

inductive FlowClass where
  | unclassified
  | http
  | tls
  | passthrough
deriving DecidableEq, Repr

-- The addresses have 16 bytes each; an IPv4 address is padded with zeros.
structure FlowKey where
  family : UInt8
  srcAddr : Bytes
  dstAddr : Bytes
  srcPort : Nat
  dstPort : Nat
deriving DecidableEq, Repr

-- reasm is reasm[0 .. reasm_len) of the source.
structure FlowEntry where
  inUse : Bool
  key : FlowKey
  classHint : FlowClass
  reasm : Bytes
  createdAt : Int
  lastSeen : Int
  classificationDone : Bool
  strategy : Strategy
  chain : StrategyChain
  strategyDecided : Bool
  nextSeq : UInt32
  seqInitialized : Bool
deriving DecidableEq, Repr

def FlowKey.zero : FlowKey := ⟨0, List.replicate 16 0, List.replicate 16 0, 0, 0⟩

-- An entry of zeroed memory.
def FlowEntry.zero : FlowEntry where
  inUse := false
  key := .zero
  classHint := .unclassified
  reasm := []
  createdAt := 0
  lastSeen := 0
  classificationDone := false
  strategy := .pass
  chain := .zero
  strategyDecided := false
  nextSeq := 0
  seqInitialized := false

structure FlowTable where
  entries : List FlowEntry
  liveCount : UInt64
  size : entries.length = FLOW_TABLE_MAX

-- A flow pointer is the index of its entry.
def FlowTable.get (table : FlowTable) (i : Nat) : FlowEntry := table.entries.getD i .zero

def FlowTable.update (table : FlowTable) (i : Nat) (entry : FlowEntry) : FlowTable :=
  { table with
    entries := table.entries.set i entry
    size := by rw [List.length_set, table.size] }

def flowTableInit : FlowTable where
  entries := List.replicate FLOW_TABLE_MAX .zero
  liveCount := 0
  size := List.length_replicate

def flowKeyEqual (a b : FlowKey) : Bool :=
  if a.family ≠ b.family then false
  else if a.srcPort ≠ b.srcPort ∨ a.dstPort ≠ b.dstPort then false
  else if a.srcAddr ≠ b.srcAddr then false
  else if a.dstAddr ≠ b.dstAddr then false
  else true

def flowReset (key : FlowKey) (now : Int) : FlowEntry :=
  { FlowEntry.zero with
    inUse := true
    key := key
    createdAt := now
    lastSeen := now }

-- The search for the entry seen longest ago among entries[i ..]; `oldest` is the
-- best index so far and `seen` its last_seen.
def findOldest : List FlowEntry → Nat → Nat → Int → Nat
  | [], _, oldest, _ => oldest
  | e :: rest, i, oldest, seen =>
      if e.lastSeen < seen then findOldest rest (i + 1) i e.lastSeen
      else findOldest rest (i + 1) oldest seen

def findFreeOrOldest (table : FlowTable) : Nat :=
  match table.entries.findIdx? (fun e => !e.inUse) with
  | some i => i
  | none => findOldest (table.entries.drop 1) 1 0 (table.get 0).lastSeen

-- The loop of flow_lookup_or_create over the live entries.
def flowFind (table : FlowTable) (key : FlowKey) : Option Nat :=
  table.entries.findIdx? fun e => e.inUse && flowKeyEqual e.key key

def flowLookupOrCreate (table : FlowTable) (key : FlowKey) (now : Int) : FlowTable × Nat :=
  match flowFind table key with
  | some i => (table.update i { table.get i with lastSeen := now }, i)
  | none =>
      let slot := findFreeOrOldest table
      let liveCount := if !(table.get slot).inUse then table.liveCount + 1 else table.liveCount
      ({ table.update slot (flowReset key now) with liveCount := liveCount }, slot)

def flowExpired (now timeoutSeconds : Int) (e : FlowEntry) : Bool :=
  e.inUse && decide (now - e.lastSeen > timeoutSeconds)

-- live_count is decremented once for each evicted entry.
def flowEvictExpired (table : FlowTable) (now timeoutSeconds : Int) : FlowTable × Nat :=
  let evicted := table.entries.countP (flowExpired now timeoutSeconds)
  ({ entries := table.entries.map fun e => if flowExpired now timeoutSeconds e then .zero else e
     liveCount := table.liveCount - UInt64.ofNat evicted
     size := by rw [List.length_map, table.size] }, evicted)

def flowReasmAppend (flow : FlowEntry) (data : Bytes) : Option FlowEntry :=
  if flow.reasm.length + data.length > FLOW_REASSEMBLY_CAP then none
  else some { flow with reasm := flow.reasm ++ data }

-- The result and the entry with next_seq advanced.
def flowSeqIsNext (flow : FlowEntry) (seq : UInt32) (payloadLen : Nat) : Bool × FlowEntry :=
  if payloadLen = 0 then (false, flow)
  else if !flow.seqInitialized then
    (true, { flow with seqInitialized := true, nextSeq := seq + UInt32.ofNat payloadLen })
  else if seq ≠ flow.nextSeq then (false, flow)
  else (true, { flow with nextSeq := flow.nextSeq + UInt32.ofNat payloadLen })

def flowRestart (flow : FlowEntry) (now : Int) : FlowEntry := flowReset flow.key now

def flowInvalidate (e : FlowEntry) : FlowEntry :=
  if e.inUse && e.strategyDecided then
    { e with strategyDecided := false, strategy := .pass, chain := .single .pass }
  else e

def flowInvalidateDecisions (table : FlowTable) : FlowTable × Nat :=
  ({ table with
     entries := table.entries.map flowInvalidate
     size := by rw [List.length_map, table.size] },
    table.entries.countP fun e => e.inUse && e.strategyDecided)

end DpiProxy.Flow
