import DpiProxy.Engine
import DpiProxy.Flow.Lemmas

namespace DpiProxy.Engine

open Wire Packet DpiProxy.Flow Tls Http

-- An IPv4 segment is the TCP view of a whole datagram.
theorem parseSegment_v4 {raw : Bytes} {seg : Segment} (h : parseSegment raw = some seg)
    (hv4 : seg.isV4 = true) : ∃ d : Datagram raw, seg.tcp = d.tcpView := by
  unfold parseSegment at h
  split_ifs at h
  · split at h
    · cases h
    · rename_i ip hip
      split_ifs at h with hproto
      split at h
      · cases h
      · rename_i tcp htcp
        obtain rfl := Option.some.inj h
        obtain ⟨d, -, hd⟩ := exists_datagram hip hproto htcp
        exact ⟨d, hd⟩
  · split at h
    · cases h
    · split at h
      · cases h
      · obtain rfl := Option.some.inj h
        cases hv4

-- What finding the entry of a segment can do. The comparison of live_count only
-- saves a restart of an entry that is fresh already.
theorem flowFor_cases (table : FlowTable) (seg : Segment) (now : Int) :
    ∃ flows slot, flowFor table seg now = (flows, slot) ∧ slot < FLOW_TABLE_MAX ∧
      (∀ i ≠ slot, flows.get i = table.get i) ∧
      ((isFresh table seg = true ∧ flows.get slot = flowReset seg.key now ∧
          (flowFind table seg.key = none ∨ flowFind table seg.key = some slot)) ∨
        (isFresh table seg = false ∧ flows.get slot = { table.get slot with lastSeen := now } ∧
          flowFind table seg.key = some slot ∧ bareSyn seg.tcp = false)) := by
  unfold flowFor isFresh
  obtain ⟨i, hfind, heq⟩ | ⟨hnone, i, hlt, liveCount, heq⟩ :=
    flowLookupOrCreate_cases table seg.key now
  · obtain ⟨hlt, -, hkey⟩ := flowFind_some hfind
    have hsame : ¬(table.update i { table.get i with lastSeen := now }).liveCount ≠ table.liveCount :=
      fun h => h rfl
    rw [heq, hfind]
    dsimp only
    rw [if_neg hsame, Option.isNone_some, Bool.false_or]
    by_cases hsyn : bareSyn seg.tcp = true
    · rw [if_pos hsyn]
      refine ⟨_, i, rfl, hlt, ?_, .inl ⟨hsyn, ?_, .inr rfl⟩⟩
      · intro j hj
        rw [FlowTable.get_update_of_ne _ hj, FlowTable.get_update_of_ne _ hj]
      · rw [FlowTable.get_update_self _ hlt, FlowTable.get_update_self _ hlt, flowRestart, hkey]
    · rw [if_neg hsyn]
      have hsyn' : bareSyn seg.tcp = false := by simpa using hsyn
      refine ⟨_, i, rfl, hlt, ?_, .inr ⟨hsyn', ?_, rfl, hsyn'⟩⟩
      · intro j hj
        rw [FlowTable.get_update_of_ne _ hj]
      · rw [FlowTable.get_update_self _ hlt]
  · rw [heq, hnone]
    dsimp only
    rw [Option.isNone_none, Bool.true_or]
    have hcreated : ∀ j ≠ i, FlowTable.get
        { table.update i (flowReset seg.key now) with liveCount := liveCount } j = table.get j := by
      intro j hj
      rw [get_withLiveCount, FlowTable.get_update_of_ne _ hj]
    have hslot : FlowTable.get
        { table.update i (flowReset seg.key now) with liveCount := liveCount } i =
          flowReset seg.key now := by
      rw [get_withLiveCount, FlowTable.get_update_self _ hlt]
    split_ifs
    · exact ⟨_, i, rfl, hlt, hcreated, .inl ⟨rfl, hslot, .inl rfl⟩⟩
    · refine ⟨_, i, rfl, hlt, ?_, .inl ⟨rfl, ?_, .inl rfl⟩⟩
      · intro j hj
        rw [FlowTable.get_update_of_ne _ hj, hcreated j hj]
      · rw [FlowTable.get_update_self _ hlt, hslot]
        rfl
    · exact ⟨_, i, rfl, hlt, hcreated, .inl ⟨rfl, hslot, .inl rfl⟩⟩

-- What classify can do with an entry and a payload.
inductive Classifies (flow : FlowEntry) (payload : Bytes) : Classified → Prop where
  | skip (h : flow.classificationDone = true ∨ payload = []) :
      Classifies flow payload ⟨.unclassified, flow, []⟩
  | overflow (hdone : flow.classificationDone = false) :
      Classifies flow payload (settle flow .passthrough [])
  | waiting (hdone : flow.classificationDone = false)
      (hcap : (flow.reasm ++ payload).length ≤ FLOW_REASSEMBLY_CAP) :
      Classifies flow payload ⟨.unclassified, { flow with reasm := flow.reasm ++ payload }, []⟩
  | settled (hdone : flow.classificationDone = false) (cls : FlowClass) (host : Bytes) :
      Classifies flow payload (settle { flow with reasm := flow.reasm ++ payload } cls host)

theorem classify_classifies (flow : FlowEntry) (payload : Bytes) (size : Nat) :
    Classifies flow payload (classify flow payload size) := by
  unfold classify
  split
  · rename_i h
    exact .skip (by simpa using h)
  · rename_i h
    have hdone : flow.classificationDone = false := by
      simp only [Bool.or_eq_true, not_or, Bool.not_eq_true] at h
      exact h.1
    unfold flowReasmAppend
    by_cases hcap : flow.reasm.length + payload.length > FLOW_REASSEMBLY_CAP
    · rw [if_pos hcap]
      exact .overflow hdone
    · rw [if_neg hcap]
      have hfits : (flow.reasm ++ payload).length ≤ FLOW_REASSEMBLY_CAP := by
        rw [List.length_append]
        omega
      dsimp only
      split
      · exact .settled hdone _ _
      · exact .waiting hdone hfits
      · split
        · exact .settled hdone _ _
        · exact .waiting hdone hfits
        · exact .settled hdone _ _

-- The entry after flow_seq_is_next has taken a segment.
def advance (flow : FlowEntry) (tcp : TcpView) : FlowEntry :=
  { flow with
    seqInitialized := true
    nextSeq := tcp.seq + UInt32.ofNat tcp.payload.length }

theorem trackFlow_cases (flow : FlowEntry) (tcp : TcpView) :
    trackFlow flow tcp = (false, ⟨.unclassified, flow, []⟩) ∨
    ∃ c, trackFlow flow tcp = (true, c) ∧ tcp.payload ≠ [] ∧
      (flow.seqInitialized = true → tcp.seq = flow.nextSeq) ∧
      Classifies (advance flow tcp) tcp.payload c := by
  unfold trackFlow
  obtain h | ⟨hlen, hseq, h⟩ := flowSeqIsNext_cases flow tcp.seq tcp.payload.length
  · rw [h]
    exact .inl rfl
  · have hne : tcp.payload ≠ [] := fun hnil => hlen (by rw [hnil]; rfl)
    rw [h]
    exact .inr ⟨_, rfl, hne, hseq, classify_classifies _ _ _⟩

-- The fields that neither classify nor the strategy decision writes.
structure SameFlow (a b : FlowEntry) : Prop where
  inUse : a.inUse = b.inUse
  key : a.key = b.key
  lastSeen : a.lastSeen = b.lastSeen

theorem Classifies.sameFlow {flow : FlowEntry} {payload : Bytes} {c : Classified}
    (h : Classifies flow payload c) : SameFlow c.flow flow := by
  cases h <;> exact ⟨rfl, rfl, rfl⟩

theorem trackFlow_sameFlow (flow : FlowEntry) (tcp : TcpView) :
    SameFlow (trackFlow flow tcp).2.flow flow := by
  obtain h | ⟨c, h, -, -, hc⟩ := trackFlow_cases flow tcp
  · rw [h]
    exact ⟨rfl, rfl, rfl⟩
  · rw [h]
    obtain ⟨h₁, h₂, h₃⟩ := hc.sameFlow
    exact ⟨h₁, h₂, h₃⟩

-- Deciding a strategy writes nothing but the decision.
theorem decideChain_flow (ctx : EngineCtx) (now : Int) (flow : FlowEntry) (host : Bytes) :
    ∃ strategy chain decided, (decideChain ctx now flow host).flow =
      { flow with strategy := strategy, chain := chain, strategyDecided := decided } := by
  unfold decideChain
  split_ifs
  · exact ⟨_, _, _, rfl⟩
  · exact ⟨flow.strategy, flow.chain, flow.strategyDecided, rfl⟩
  · exact ⟨flow.strategy, flow.chain, flow.strategyDecided, rfl⟩

-- The effects of a packet that belongs to a flow.
inductive Applies (ctx : EngineCtx) (raw : Bytes) (socket : RawSocket) (seg : Segment)
    (cls : FlowClass) (entry : FlowEntry) : List Effect → Prop where
  | accepted : Applies ctx raw socket seg cls entry [.verdict .accept]
  | applied (chain : StrategyChain) (log : List Effect) (hv4 : seg.isV4 = true) (hcls : cls = .tls)
      (hlen : entry.reasm.length = seg.tcp.payload.length)
      (hlog : tryApplyChain ctx.strategies.fakeTtl socket raw seg.tcp chain [.chain chain] =
        (true, log)) : Applies ctx raw socket seg cls entry log
  | declined (chain : StrategyChain) (log : List Effect) (hv4 : seg.isV4 = true) (hcls : cls = .tls)
      (hlen : entry.reasm.length = seg.tcp.payload.length)
      (hlog : tryApplyChain ctx.strategies.fakeTtl socket raw seg.tcp chain [.chain chain] =
        (false, log)) : Applies ctx raw socket seg cls entry (log ++ [.verdict .accept])

-- What a call does with the flow of its packet. `start` is the entry after it was
-- found, `entry` the one the call leaves: its own flow is never evicted by the
-- call, as it was seen just now.
structure SegmentStep (ctx : EngineCtx) (raw : Bytes) (now : Int) (socket : RawSocket)
    (seg : Segment) (ctx' : EngineCtx) (handled : Handled) (slot : Nat) (start entry : FlowEntry) :
    Prop where
  slot_lt : slot < FLOW_TABLE_MAX
  found :
    (isFresh ctx.flows seg = true ∧ start = flowReset seg.key now ∧
      (flowFind ctx.flows seg.key = none ∨ flowFind ctx.flows seg.key = some slot)) ∨
    (isFresh ctx.flows seg = false ∧ start = { ctx.flows.get slot with lastSeen := now } ∧
      flowFind ctx.flows seg.key = some slot ∧ bareSyn seg.tcp = false)
  tracked : ∃ strategy chain decided, entry =
    { (trackFlow start seg.tcp).2.flow with
      strategy := strategy, chain := chain, strategyDecided := decided }
  own : ctx'.flows.get slot = entry
  others : ∀ i ≠ slot, ctx'.flows.get i = ctx.flows.get i ∨ ctx'.flows.get i = .zero
  raw_eq : handled.raw = raw
  flow : handled.flow = some
    ⟨slot, seg, isFresh ctx.flows seg, (trackFlow start seg.tcp).1, entry⟩
  effects : Applies ctx raw socket seg (trackFlow start seg.tcp).2.cls entry handled.effects

theorem packetCallback_none (ctx : EngineCtx) {raw : Bytes} (now : Int) (socket : RawSocket)
    (h : parseSegment raw = none) :
    packetCallback ctx raw now socket = (ctx, ⟨raw, none, [.verdict .accept]⟩) := by
  simp only [packetCallback, h]

theorem packetCallback_some (ctx : EngineCtx) {raw : Bytes} (now : Int) (socket : RawSocket)
    {seg : Segment} (h : parseSegment raw = some seg) :
    ∃ slot start entry, SegmentStep ctx raw now socket seg (packetCallback ctx raw now socket).1
      (packetCallback ctx raw now socket).2 slot start entry := by
  obtain ⟨flows, slot, hfor, hlt, hother, hstart⟩ := flowFor_cases ctx.flows seg now
  have hseen : (flows.get slot).lastSeen = now := by
    obtain ⟨-, he, -⟩ | ⟨-, he, -⟩ := hstart
    · rw [he]
      rfl
    · rw [he]
  obtain ⟨strategy, chain, decided, hdecide⟩ := decideChain_flow ctx now
    (trackFlow (flows.get slot) seg.tcp).2.flow (trackFlow (flows.get slot) seg.tcp).2.host
  have hsame := trackFlow_sameFlow (flows.get slot) seg.tcp
  generalize hdec : decideChain ctx now (trackFlow (flows.get slot) seg.tcp).2.flow
    (trackFlow (flows.get slot) seg.tcp).2.host = decision at hdecide
  have hfresh : flowExpired now FLOW_DEFAULT_TIMEOUT_SECONDS decision.flow = false := by
    rw [hdecide]
    simp only [flowExpired, hsame.lastSeen, hseen, FLOW_DEFAULT_TIMEOUT_SECONDS, sub_self]
    simp
  have hown : (flowEvictExpired (flows.update slot decision.flow) now
      FLOW_DEFAULT_TIMEOUT_SECONDS).1.get slot = decision.flow := by
    rw [get_flowEvictExpired, FlowTable.get_update_self _ hlt, hfresh]
    rfl
  refine ⟨slot, flows.get slot, decision.flow, hlt, hstart, ⟨strategy, chain, decided, hdecide⟩,
    ?_, ?_, ?_, ?_, ?_⟩
  · simp only [packetCallback, h, hfor, hdec, hown]
  · intro i hi
    simp only [packetCallback, h, hfor, hdec]
    rw [get_flowEvictExpired, FlowTable.get_update_of_ne _ hi, hother i hi]
    split
    · exact .inr rfl
    · exact .inl rfl
  · simp only [packetCallback, h]
  · simp only [packetCallback, h, hfor, hdec, hown]
  · simp only [packetCallback, h, hfor, hdec, hown]
    split
    · rename_i hcond
      obtain ⟨hv4, hcls, -, hlen⟩ := hcond
      cases happ : tryApplyChain ctx.strategies.fakeTtl socket raw seg.tcp decision.chain
          [.chain decision.chain] with
      | mk handled log =>
          cases handled with
          | true => exact .applied _ _ hv4 hcls hlen happ
          | false => exact .declined _ _ hv4 hcls hlen happ
    · exact .accepted

end DpiProxy.Engine
