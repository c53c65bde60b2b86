import DpiProxy.Engine.Reassembly
import DpiProxy.Flow.Theorems

namespace DpiProxy.Engine

open Wire Packet DpiProxy.Flow

-- A buffer within its bound stays within it.
theorem classify_reasm {flow : FlowEntry} (h : flow.reasm.length ≤ FLOW_REASSEMBLY_CAP)
    (payload : Bytes) (size : Nat) :
    (classify flow payload size).flow.reasm.length ≤ FLOW_REASSEMBLY_CAP := by
  unfold classify
  split
  · exact h
  · unfold flowReasmAppend
    by_cases hcap : flow.reasm.length + payload.length > FLOW_REASSEMBLY_CAP
    · rw [if_pos hcap]
      exact h
    · rw [if_neg hcap]
      have hfits : (flow.reasm ++ payload).length ≤ FLOW_REASSEMBLY_CAP := by
        rw [List.length_append]
        omega
      dsimp only
      split
      · exact hfits
      · exact hfits
      · split <;> exact hfits

theorem trackFlow_reasm {flow : FlowEntry} (h : flow.reasm.length ≤ FLOW_REASSEMBLY_CAP)
    (tcp : TcpView) : (trackFlow flow tcp).2.flow.reasm.length ≤ FLOW_REASSEMBLY_CAP := by
  have hnext : (flowSeqIsNext flow tcp.seq tcp.payload.length).2.reasm.length ≤
      FLOW_REASSEMBLY_CAP := by
    rw [(flowSeqIsNext_entry flow tcp.seq tcp.payload.length).2.2]
    exact h
  unfold trackFlow
  dsimp only
  split
  · exact classify_reasm hnext tcp.payload HOST_SIZE
  · exact hnext

theorem flowFor_inv {table : FlowTable} (h : FlowInv table) (seg : Segment) (now : Int) :
    FlowInv (flowFor table seg now).1 := by
  have hfound := h.lookup seg.key now
  have hlive : ((flowLookupOrCreate table seg.key now).1.get
      (flowLookupOrCreate table seg.key now).2).inUse = true := by
    obtain ⟨i, hfind, heq⟩ | ⟨-, i, hlt, liveCount, heq⟩ :=
      flowLookupOrCreate_cases table seg.key now
    · obtain ⟨hlt, huse, -⟩ := flowFind_some hfind
      rw [heq, FlowTable.get_update_self _ hlt]
      exact huse
    · rw [heq]
      dsimp only
      rw [get_withLiveCount, FlowTable.get_update_self _ hlt]
      rfl
  unfold flowFor
  dsimp only
  split
  · exact hfound
  · split
    · exact hfound.rewrite hlive rfl rfl (Nat.zero_le _)
    · exact hfound

-- The entry of a flow as one packet leaves it, from the entry it was found with.
def entryAfter (ctx : EngineCtx) (seg : Segment) (now : Int) (start : FlowEntry) : FlowEntry :=
  let tracked := (trackFlow start seg.tcp).2
  (decideChain ctx now tracked.flow tracked.host).flow

theorem packetCallback_flows (ctx : EngineCtx) {raw : Bytes} (now : Int) (socket : RawSocket)
    {seg : Segment} (h : parseSegment raw = some seg) :
    (packetCallback ctx raw now socket).1.flows =
      (flowEvictExpired ((flowFor ctx.flows seg now).1.update (flowFor ctx.flows seg now).2
        (entryAfter ctx seg now ((flowFor ctx.flows seg now).1.get (flowFor ctx.flows seg now).2)))
        now FLOW_DEFAULT_TIMEOUT_SECONDS).1 := by
  simp only [packetCallback, h, entryAfter]

theorem entryAfter_sameFlow (ctx : EngineCtx) (seg : Segment) (now : Int) (start : FlowEntry) :
    SameFlow (entryAfter ctx seg now start) start := by
  have hsame := trackFlow_sameFlow start seg.tcp
  obtain ⟨strategy, chain, decided, hdecide⟩ := decideChain_flow ctx now
    (trackFlow start seg.tcp).2.flow (trackFlow start seg.tcp).2.host
  unfold entryAfter
  dsimp only
  rw [hdecide]
  exact ⟨hsame.inUse, hsame.key, hsame.lastSeen⟩

theorem entryAfter_reasm (ctx : EngineCtx) (seg : Segment) (now : Int) {start : FlowEntry}
    (h : start.reasm.length ≤ FLOW_REASSEMBLY_CAP) :
    (entryAfter ctx seg now start).reasm.length ≤ FLOW_REASSEMBLY_CAP := by
  obtain ⟨strategy, chain, decided, hdecide⟩ := decideChain_flow ctx now
    (trackFlow start seg.tcp).2.flow (trackFlow start seg.tcp).2.host
  unfold entryAfter
  dsimp only
  rw [hdecide]
  exact trackFlow_reasm h seg.tcp

-- One packet keeps the invariant of the flow table: the entry it rewrites is the
-- live one it has looked up.
theorem packetCallback_inv {ctx : EngineCtx} (h : FlowInv ctx.flows) (raw : Bytes) (now : Int)
    (socket : RawSocket) : FlowInv (packetCallback ctx raw now socket).1.flows := by
  cases hseg : parseSegment raw with
  | none =>
      rw [packetCallback_none ctx now socket hseg]
      exact h
  | some seg =>
      rw [packetCallback_flows ctx now socket hseg]
      have hfor := flowFor_inv h seg now
      obtain ⟨flows, slot, heq, -, -, hstart⟩ := flowFor_cases ctx.flows seg now
      rw [heq] at hfor ⊢
      have hlive : (flows.get slot).inUse = true := by
        obtain ⟨-, he, -⟩ | ⟨-, he, hfind, -⟩ := hstart
        · rw [he]
          rfl
        · rw [he]
          exact (flowFind_some hfind).2.1
      have hsame := entryAfter_sameFlow ctx seg now (flows.get slot)
      apply FlowInv.evict
      exact hfor.rewrite hlive (hsame.inUse.trans hlive) hsame.key
        (entryAfter_reasm ctx seg now (hfor.reasm slot))

theorem step_inv {ctx : EngineCtx} (h : FlowInv ctx.flows) (event : Event) :
    FlowInv (step ctx event).1.flows := by
  cases event with
  | packet raw now socket => exact packetCallback_inv h raw now socket
  | reload strategies discovered fingerprint now => exact h.invalidate
  | refresh current now =>
      simp only [step, maybeRefreshUnknownFingerprint]
      split
      · exact h
      · split <;> exact h

-- The receive loop keeps to the promise under which flow.c counts its entries.
theorem run_flowInv (strategies : StrategyConfig) (discovered : DiscoveryCache)
    (fingerprint : UInt64) (now : Int) (events : List Event) :
    FlowInv (Machine.run step (engineInit strategies discovered fingerprint now) events).1.flows := by
  refine Machine.run_invariant step (fun _ _ ctx => FlowInv ctx.flows) flowInv_init ?_ events
  intro es os ctx event h
  exact step_inv h event

-- A SYN alone contributes nothing, and its payload only to the fields that
-- describe the payload.
theorem entryAfter_reset (ctx : EngineCtx) (seg : Segment) (now : Int) :
    let entry := entryAfter ctx seg now (flowReset seg.key now)
    (seg.tcp.payload = [] → entry = flowReset seg.key now) ∧
    (entry.reasm = [] ∨ entry.reasm = seg.tcp.payload) ∧
    (entry.seqInitialized = true →
      entry.nextSeq = seg.tcp.seq + UInt32.ofNat seg.tcp.payload.length) := by
  intro entry
  obtain heq | ⟨c, heq, hne, -, hc⟩ := trackFlow_cases (flowReset seg.key now) seg.tcp
  · have hentry : entry = flowReset seg.key now := by
      simp only [entry, entryAfter, heq, decideChain, List.headD_nil, ne_eq, not_true_eq_false,
        if_false]
      rfl
    rw [hentry]
    exact ⟨fun _ => rfl, .inl rfl, by simp [flowReset, FlowEntry.zero]⟩
  · obtain ⟨strategy, chain, decided, hdecide⟩ := decideChain_flow ctx now c.flow c.host
    have hentry : entry = { c.flow with
        strategy := strategy, chain := chain, strategyDecided := decided } := by
      simp only [entry, entryAfter, heq, hdecide]
    rw [hentry]
    refine ⟨fun hnil => absurd hnil hne, ?_, fun _ => ?_⟩
    · cases hc with
      | skip _ => exact .inl rfl
      | overflow _ => exact .inl rfl
      | waiting _ _ => exact .inr rfl
      | settled _ cls host => exact .inr rfl
    · cases hc <;> rfl

-- The live entry of a key.
def Owns (table : FlowTable) (key : FlowKey) (i : Nat) : Prop :=
  (table.get i).inUse = true ∧ (table.get i).key = key

theorem bareSyn_entry {ctx : EngineCtx} (h : FlowInv ctx.flows) {raw : Bytes} (now : Int)
    (socket : RawSocket) {seg : Segment} (hseg : parseSegment raw = some seg)
    (hsyn : bareSyn seg.tcp = true) :
    let flows := (packetCallback ctx raw now socket).1.flows
    ∃ slot, Owns flows seg.key slot ∧ (∀ i, Owns flows seg.key i → i = slot) ∧
      flows.get slot = entryAfter ctx seg now (flowReset seg.key now) := by
  intro flows
  obtain ⟨table, slot, hfor, hlt, -, hstart⟩ := flowFor_cases ctx.flows seg now
  have hreset : table.get slot = flowReset seg.key now := by
    obtain ⟨-, he, -⟩ | ⟨-, -, -, hno⟩ := hstart
    · exact he
    · rw [hsyn] at hno
      cases hno
  have hflows := packetCallback_flows ctx now socket hseg
  have hsame := entryAfter_sameFlow ctx seg now (flowReset seg.key now)
  rw [hfor] at hflows
  dsimp only at hflows
  rw [hreset] at hflows
  -- The entry was seen just now, so the eviction at the end keeps it.
  have hseen : (entryAfter ctx seg now (flowReset seg.key now)).lastSeen = now := hsame.lastSeen
  have hkept : flowExpired now FLOW_DEFAULT_TIMEOUT_SECONDS
      (entryAfter ctx seg now (flowReset seg.key now)) = false := by
    simp only [flowExpired, hseen, FLOW_DEFAULT_TIMEOUT_SECONDS, sub_self]
    simp
  have hget : flows.get slot = entryAfter ctx seg now (flowReset seg.key now) := by
    show (packetCallback ctx raw now socket).1.flows.get slot = _
    rw [hflows, get_flowEvictExpired, FlowTable.get_update_self _ hlt, hkept]
    rfl
  have howns : Owns flows seg.key slot := by
    rw [Owns, hget]
    exact ⟨hsame.inUse, hsame.key⟩
  refine ⟨slot, howns, ?_, hget⟩
  intro i hi
  exact (packetCallback_inv h raw now socket).unique i slot hi.1 howns.1 (hi.2.trans howns.2.symm)

theorem bareSyn_restarts (strategies : StrategyConfig) (discovered : DiscoveryCache)
    (fingerprint : UInt64) (start : Int) (events : List Event) (raw : Bytes) (now : Int)
    (socket : RawSocket) (seg : Segment) (hseg : parseSegment raw = some seg)
    (hsyn : bareSyn seg.tcp = true) :
    let ctx := (Machine.run step (engineInit strategies discovered fingerprint start) events).1
    let flows := (packetCallback ctx raw now socket).1.flows
    -- What the same packet leaves in a table that holds nothing.
    let clean := (packetCallback { ctx with flows := flowTableInit } raw now socket).1.flows
    ∃ slot, Owns flows seg.key slot ∧ (∀ i, Owns flows seg.key i → i = slot) ∧
      (∃ i, Owns clean seg.key i ∧ clean.get i = flows.get slot) ∧
      ((flows.get slot).reasm = [] ∨ (flows.get slot).reasm = seg.tcp.payload) ∧
      ((flows.get slot).seqInitialized = true →
        (flows.get slot).nextSeq = seg.tcp.seq + UInt32.ofNat seg.tcp.payload.length) ∧
      (seg.tcp.payload = [] →
        (flows.get slot).classificationDone = false ∧ (flows.get slot).strategyDecided = false ∧
        (flows.get slot).reasm = [] ∧ (flows.get slot).seqInitialized = false) := by
  intro ctx flows clean
  have hinv : FlowInv ctx.flows := run_flowInv strategies discovered fingerprint start events
  obtain ⟨slot, howns, honly, hget⟩ := bareSyn_entry hinv now socket hseg hsyn
  obtain ⟨i, hclean, -, hgetClean⟩ :=
    @bareSyn_entry { ctx with flows := flowTableInit } flowInv_init raw now socket seg hseg hsyn
  obtain ⟨hempty, hreasm, hnext⟩ := entryAfter_reset ctx seg now
  refine ⟨slot, howns, honly, ⟨i, hclean, hgetClean.trans hget.symm⟩, ?_, ?_, ?_⟩
  · rw [hget]
    exact hreasm
  · rw [hget]
    exact hnext
  · intro hnil
    rw [hget, hempty hnil]
    exact ⟨rfl, rfl, rfl, rfl⟩

-- A SYN on the 4-tuple of helloStart.
def synBytes : Bytes :=
  [0x45, 0, 0, 40, 0x10, 0x93, 0x40, 0, 64, 6, 0, 0, 10, 0, 0, 1, 10, 0, 0, 2,
   0xC7, 0x38, 1, 187, 0, 0, 0x30, 0x39, 0, 0, 0, 0, 0x50, 0x02, 0xFF, 0xFF, 0, 0, 0, 0]

theorem bareSyn_restarts_reused :
    let ctx := (Machine.run step (engineInit strategyConfigInit discoveryCacheInit 0 0)
      [helloStart]).1
    let flows := (packetCallback ctx synBytes 1 fun _ => true).1.flows
    (ctx.flows.get 0).reasm.length = 3 ∧
    ∃ slot, (flows.get slot).key = (ctx.flows.get 0).key ∧ (flows.get slot).inUse = true ∧
      (flows.get slot).reasm = [] := by
  intro ctx flows
  have hsyn : (parseSegment synBytes).any (fun seg => bareSyn seg.tcp &&
      seg.tcp.payload == [] && seg.key == (ctx.flows.get 0).key) = true := by decide +kernel
  obtain ⟨seg, hseg, hall⟩ := (Option.any_eq_true _ _).mp hsyn
  rw [Bool.and_eq_true, Bool.and_eq_true, beq_iff_eq, beq_iff_eq] at hall
  obtain ⟨⟨hbare, hnil⟩, hkey⟩ := hall
  obtain ⟨slot, howns, -, -, -, -, hfresh⟩ := bareSyn_restarts strategyConfigInit discoveryCacheInit
    0 0 [helloStart] synBytes 1 (fun _ => true) seg hseg hbare
  exact ⟨by decide +kernel, slot, howns.2.trans hkey, howns.1, (hfresh hnil).2.2.1⟩

end DpiProxy.Engine
