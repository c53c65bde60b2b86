import DpiProxy.Flow
import DpiProxy.Http
import DpiProxy.Packet.Fake
import DpiProxy.Packet.Fragment
import DpiProxy.Packet.Split
import DpiProxy.Tls.Record
import DpiProxy.Tls.Sni

namespace DpiProxy.Engine

open Wire Packet DpiProxy.Flow Tls Http

structure EngineCtx where
  flows : FlowTable
  strategies : StrategyConfig
  discovered : DiscoveryCache
  fingerprint : UInt64
  fingerprintCheckedAt : Int

inductive Verdict where
  | accept
  | drop
deriving DecidableEq, Repr

-- The tag argument of inject_or_log.
inductive Tag where
  | fake
  | fragment1
  | fragment2
  | split1
  | split2
  | disorder1
  | disorder2
deriving DecidableEq, Repr

-- What the callback does for one packet, in order: it enters try_apply_chain, it
-- has replacement packets in memory, it tries to send a packet through the raw
-- socket, it sets the verdict.
inductive Effect where
  | chain (chain : StrategyChain)
  | build (packets : List Bytes)
  | inject (tag : Tag) (packet : Bytes) (ok : Bool)
  | verdict (verdict : Verdict)
deriving DecidableEq, Repr

-- Whether the raw socket takes the packet sent at a place of the effect log.
abbrev RawSocket := Nat → Bool

def injectOrLog (socket : RawSocket) (log : List Effect) (tag : Tag) (packet : Bytes) :
    Bool × List Effect :=
  (socket log.length, log ++ [.inject tag packet (socket log.length)])

-- `inject_or_log(first) && inject_or_log(second)`
def injectPair (socket : RawSocket) (log : List Effect) (tag1 : Tag) (seg1 : Bytes) (tag2 : Tag)
    (seg2 : Bytes) : List Effect :=
  let first := injectOrLog socket log tag1 seg1
  if first.1 then (injectOrLog socket first.2 tag2 seg2).2 else first.2

-- none is *ok = 0.
def buildDecoy (fakeTtl : UInt8) (template : Bytes) : Option Bytes :=
  (packetMakeFakeTcpV4 template fakeTtl).toOption

def injectDecoy (socket : RawSocket) (log : List Effect) : Option Bytes → List Effect
  | none => log
  | some decoy => (injectOrLog socket log .fake decoy).2

-- The branches of try_apply_chain over the two TCP segments; none is the
-- unrecognized chain shape.
def injectSegments (fakeTtl : UInt8) (socket : RawSocket) (raw : Bytes) (chain : StrategyChain)
    (seg1 seg2 : Bytes) (log : List Effect) : Option (List Effect) :=
  if chain.actions = [.split] then some (injectPair socket log .split1 seg1 .split2 seg2)
  -- Reversed transmission order.
  else if chain.actions = [.disorder] then
    some (injectPair socket log .disorder2 seg2 .disorder1 seg1)
  -- The decoy leads, built from the original packet.
  else if chain.actions = [.fake, .split] then
    let log := injectDecoy socket log (buildDecoy fakeTtl raw)
    some (injectPair socket log .split1 seg1 .split2 seg2)
  -- The decoy is built from seg2 and goes between the segments.
  else if chain.actions = [.split, .fake] then
    let decoy := buildDecoy fakeTtl seg2
    let log := (injectOrLog socket log .split1 seg1).2
    let log := injectDecoy socket log decoy
    some (injectOrLog socket log .split2 seg2).2
  else none

-- The result is true when the verdict has been set here.
def tryApplyChain (fakeTtl : UInt8) (socket : RawSocket) (raw : Bytes) (tcp : TcpView)
    (chain : StrategyChain) (log : List Effect) : Bool × List Effect :=
  if chain.actions = [.fake] then (false, injectDecoy socket log (buildDecoy fakeTtl raw))
  else
    match tlsFindSniSplit tcp.payload with
    | none => (false, log)
    | some splitOffset =>
        if splitOffset = 0 ∨ splitOffset ≥ tcp.payload.length then (false, log)
        else if chain.actions = [.fragment] then
          match packetFragmentIpv4 raw splitOffset with
          | .error _ => (false, log)
          | .ok (seg1, seg2) =>
              let log := log ++ [.build [seg1, seg2]]
              (true, injectPair socket log .fragment1 seg1 .fragment2 seg2 ++ [.verdict .drop])
        else
          match packetSplitTcpV4 raw splitOffset with
          | .error _ => (false, log)
          | .ok (seg1, seg2) =>
              let log := log ++ [.build [seg1, seg2]]
              match injectSegments fakeTtl socket raw chain seg1 seg2 log with
              | none => (false, log)
              | some log => (true, log ++ [.verdict .drop])

-- sizeof(host) in packet_callback.
def HOST_SIZE : Nat := 256

-- The class, the entry and what was written to host_out.
structure Classified where
  cls : FlowClass
  flow : FlowEntry
  host : Bytes
deriving DecidableEq, Repr

def settle (flow : FlowEntry) (cls : FlowClass) (host : Bytes) : Classified :=
  ⟨cls, { flow with classificationDone := true, classHint := cls }, host⟩

def classify (flow : FlowEntry) (payload : Bytes) (hostOutSize : Nat) : Classified :=
  if flow.classificationDone || payload.length == 0 then ⟨.unclassified, flow, []⟩
  else
    match flowReasmAppend flow payload with
    | none => settle flow .passthrough []
    | some flow =>
        match tlsParseClientHelloSni flow.reasm hostOutSize with
        | .ok host => settle flow .tls host
        | .error .truncated => ⟨.unclassified, flow, []⟩
        | .error _ =>
            match httpParseHost flow.reasm hostOutSize with
            | .ok host => settle flow .http host
            | .error .truncated => ⟨.unclassified, flow, []⟩
            | .error _ => settle flow .passthrough []

-- A queued packet that the callback attributes to a flow.
structure Segment where
  isV4 : Bool
  key : FlowKey
  tcp : TcpView
deriving DecidableEq, Repr

def buildFlowKeyV4 (ip : Ipv4View) (tcp : TcpView) : FlowKey where
  family := 4
  srcAddr := ipSrc ip.header ++ List.replicate 12 0
  dstAddr := ipDst ip.header ++ List.replicate 12 0
  srcPort := tcpSrcPort tcp.header
  dstPort := tcpDstPort tcp.header

def buildFlowKeyV6 (ip : Ipv6View) (tcp : TcpView) : FlowKey where
  family := 6
  srcAddr := ip6Src ip.header
  dstAddr := ip6Dst ip.header
  srcPort := tcpSrcPort tcp.header
  dstPort := tcpDstPort tcp.header

-- The parsing part of packet_callback; none is every exit that accepts the packet
-- before looking at a flow.
def parseSegment (raw : Bytes) : Option Segment :=
  if raw.length < 1 then none
  else if (byte raw 0).toNat / 16 = 4 then
    match packetParseIpv4 raw with
    | .error _ => none
    | .ok ip =>
        if ip.protocol = IPPROTO_TCP then
          match packetParseTcp ip.payload with
          | .error _ => none
          | .ok tcp => some ⟨true, buildFlowKeyV4 ip tcp, tcp⟩
        else none
  else if (byte raw 0).toNat / 16 = 6 then
    match packetParseIpv6 raw with
    | .error _ => none
    | .ok ip =>
        match packetParseTcp ip.payload with
        | .error _ => none
        | .ok tcp => some ⟨false, buildFlowKeyV6 ip tcp, tcp⟩
  else none

def bareSyn (tcp : TcpView) : Bool :=
  tcp.flags &&& TCP_FLAG_SYN != 0 && tcp.flags &&& TCP_FLAG_ACK == 0

-- The entry a segment belongs to, restarted by a bare SYN unless it was created
-- in a free slot just now.
def flowFor (table : FlowTable) (seg : Segment) (now : Int) : FlowTable × Nat :=
  let found := flowLookupOrCreate table seg.key now
  if found.1.liveCount ≠ table.liveCount then found
  else if bareSyn seg.tcp then
    (found.1.update found.2 (flowRestart (found.1.get found.2) now), found.2)
  else found

-- Whether the entry of a segment is created or restarted for it.
def isFresh (table : FlowTable) (seg : Segment) : Bool :=
  (flowFind table seg.key).isNone || bareSyn seg.tcp

-- flow_seq_is_next, then classify when it takes the segment.
def trackFlow (flow : FlowEntry) (tcp : TcpView) : Bool × Classified :=
  let next := flowSeqIsNext flow tcp.seq tcp.payload.length
  if next.1 then (true, classify next.2 tcp.payload HOST_SIZE)
  else (false, ⟨.unclassified, next.2, []⟩)

structure Decision where
  flow : FlowEntry
  strat : Strategy
  chain : StrategyChain
deriving DecidableEq, Repr

-- The chain for the packet: resolved now when the host is known, else the one the
-- flow carries.
def decideChain (ctx : EngineCtx) (now : Int) (flow : FlowEntry) (host : Bytes) : Decision :=
  if host.headD 0 ≠ 0 then
    let chain := (strategyResolveChain ctx.strategies ctx.discovered ctx.fingerprint (Int64.ofInt now)
      (cstr host)).2.1
    { flow := { flow with strategy := chain.primary, chain := chain, strategyDecided := true }
      strat := chain.primary
      chain := chain }
  else if flow.strategyDecided then ⟨flow, flow.strategy, flow.chain⟩
  else ⟨flow, .pass, .single .pass⟩

-- What one call did with its flow: the slot, whether the entry was created or
-- restarted for this packet, whether flow_seq_is_next took the segment, and the
-- entry as the call leaves it. Only proofs look at it.
structure FlowUse where
  slot : Nat
  segment : Segment
  fresh : Bool
  isNext : Bool
  entry : FlowEntry
deriving DecidableEq, Repr

structure Handled where
  raw : Bytes
  flow : Option FlowUse
  effects : List Effect
deriving DecidableEq, Repr

def packetCallback (ctx : EngineCtx) (raw : Bytes) (now : Int) (socket : RawSocket) :
    EngineCtx × Handled :=
  match parseSegment raw with
  | none => (ctx, ⟨raw, none, [.verdict .accept]⟩)
  | some seg =>
      let fresh := isFresh ctx.flows seg
      let found := flowFor ctx.flows seg now
      let slot := found.2
      let tracked := trackFlow (found.1.get slot) seg.tcp
      let decision := decideChain ctx now tracked.2.flow tracked.2.host
      let flows := (flowEvictExpired (found.1.update slot decision.flow) now
        FLOW_DEFAULT_TIMEOUT_SECONDS).1
      let flow := flows.get slot
      let effects :=
        -- Only the packet that completes a ClientHello by itself is eligible.
        if seg.isV4 ∧ tracked.2.cls = .tls ∧ decision.strat ≠ .pass ∧
            flow.reasm.length = seg.tcp.payload.length then
          let applied := tryApplyChain ctx.strategies.fakeTtl socket raw seg.tcp decision.chain
            [.chain decision.chain]
          if applied.1 then applied.2 else applied.2 ++ [.verdict .accept]
        else [.verdict .accept]
      ({ ctx with flows := flows }, ⟨raw, some ⟨slot, seg, fresh, tracked.1, flow⟩, effects⟩)

-- SIGHUP: new rules, a new discovery cache and fingerprint, no cached decisions.
def reloadStrategies (ctx : EngineCtx) (strategies : StrategyConfig) (discovered : DiscoveryCache)
    (fingerprint : UInt64) (now : Int) : EngineCtx :=
  { flows := (flowInvalidateDecisions ctx.flows).1
    strategies := strategies
    discovered := discovered
    fingerprint := fingerprint
    fingerprintCheckedAt := now }

def FINGERPRINT_RETRY_SECONDS : Int := 30

def maybeRefreshUnknownFingerprint (ctx : EngineCtx) (current : UInt64) (now : Int) : EngineCtx :=
  if ctx.fingerprint ≠ NETFP_UNKNOWN then ctx
  else if now - ctx.fingerprintCheckedAt < FINGERPRINT_RETRY_SECONDS then ctx
  else { ctx with fingerprint := current, fingerprintCheckedAt := now }

-- The receive loop of nfqueue_engine_run: what reaches the engine, with what the
-- system answers to it.
inductive Event where
  | packet (raw : Bytes) (now : Int) (socket : RawSocket)
  | reload (strategies : StrategyConfig) (discovered : DiscoveryCache) (fingerprint : UInt64)
      (now : Int)
  | refresh (current : UInt64) (now : Int)

-- The context in which nfqueue_engine_run enters the loop.
def engineInit (strategies : StrategyConfig) (discovered : DiscoveryCache) (fingerprint : UInt64)
    (now : Int) : EngineCtx where
  flows := flowTableInit
  strategies := strategies
  discovered := discovered
  fingerprint := fingerprint
  fingerprintCheckedAt := now

def step (ctx : EngineCtx) : Event → EngineCtx × Option Handled
  | .packet raw now socket =>
      let result := packetCallback ctx raw now socket
      (result.1, some result.2)
  | .reload strategies discovered fingerprint now =>
      (reloadStrategies ctx strategies discovered fingerprint now, none)
  | .refresh current now => (maybeRefreshUnknownFingerprint ctx current now, none)

end DpiProxy.Engine
