import DpiProxy.Engine.Lemmas
import DpiProxy.Machine

namespace DpiProxy.Engine

open Wire Packet DpiProxy.Flow

-- The number of bare SYNs of a key. Together with the key it names the connection
-- a segment belongs to.
def isSynOf (key : FlowKey) : Event → Bool
  | .packet raw _ _ =>
      match parseSegment raw with
      | some seg => seg.key = key && bareSyn seg.tcp
      | none => false
  | _ => false

def syns (key : FlowKey) (events : List Event) : Nat := events.countP (isSynOf key)

-- Every connection assigns one byte to each sequence number, and data segments
-- carry no SYN.
def FollowsConnections (conn : FlowKey → Nat → UInt32 → UInt8) (events : List Event) : Prop :=
  ∀ before raw now socket after seg, events = before ++ .packet raw now socket :: after →
    parseSegment raw = some seg → seg.tcp.payload ≠ [] →
    seg.tcp.flags &&& TCP_FLAG_SYN = 0 ∧
    ∀ i < seg.tcp.payload.length, byte seg.tcp.payload i =
      conn seg.key (syns seg.key before) (seg.tcp.seq + UInt32.ofNat i)

-- The sequence number of the first data segment accepted since the entry in a
-- slot was created or restarted.
def noteAccepted (slot : Nat) (start : Option UInt32) (handled : Handled) : Option UInt32 :=
  match handled.flow with
  | none => start
  | some use =>
      if use.slot = slot then
        let start := if use.fresh then none else start
        if use.isNext && start.isNone then some use.segment.tcp.seq else start
      else start

def firstAccepted (slot : Nat) (trace : List Handled) : Option UInt32 :=
  trace.foldl (noteAccepted slot) none

-- A buffer that holds the bytes of one connection from `start` on, and a guard
-- that expects the byte after them.
structure Buffers (conn : UInt32 → UInt8) (start : UInt32) (flow : FlowEntry) : Prop where
  bytes : ∀ i < flow.reasm.length, byte flow.reasm i = conn (start + UInt32.ofNat i)
  next : flow.nextSeq = start + UInt32.ofNat flow.reasm.length
  cap : flow.reasm.length ≤ FLOW_REASSEMBLY_CAP

-- The state of an entry that is still being classified: nothing was accepted yet,
-- or the buffer starts at the first accepted segment.
def Collecting (conn : UInt32 → UInt8) (start : Option UInt32) (flow : FlowEntry) : Prop :=
  flow.inUse = true → flow.classificationDone = false →
    (flow.seqInitialized = false ∧ flow.reasm = [] ∧ start = none) ∨
    (flow.seqInitialized = true ∧ ∃ s, start = some s ∧ Buffers conn s flow)

theorem collecting_reset (conn : UInt32 → UInt8) (key : FlowKey) (now : Int) :
    Collecting conn none (flowReset key now) :=
  fun _ _ => .inl ⟨rfl, rfl, rfl⟩

theorem collecting_zero (conn : UInt32 → UInt8) (start : Option UInt32) :
    Collecting conn start .zero := nofun

-- The property reads only these fields of the entry.
theorem Collecting.congr {conn : UInt32 → UInt8} {start : Option UInt32} {flow flow' : FlowEntry}
    (h : Collecting conn start flow) (huse : flow'.inUse = flow.inUse)
    (hdone : flow'.classificationDone = flow.classificationDone)
    (hinit : flow'.seqInitialized = flow.seqInitialized) (hreasm : flow'.reasm = flow.reasm)
    (hnext : flow'.nextSeq = flow.nextSeq) : Collecting conn start flow' := by
  intro hu hd
  rw [hinit, hreasm]
  obtain ⟨h₁, h₂, h₃⟩ | ⟨h₁, s, h₂, hb⟩ := h (huse ▸ hu) (hdone ▸ hd)
  · exact .inl ⟨h₁, h₂, h₃⟩
  · refine .inr ⟨h₁, s, h₂, ?_, ?_, ?_⟩
    · rw [hreasm]
      exact hb.bytes
    · rw [hnext, hreasm]
      exact hb.next
    · rw [hreasm]
      exact hb.cap

-- A segment that starts where the buffer ends extends it.
theorem Buffers.extend {conn : UInt32 → UInt8} {start : UInt32} {flow : FlowEntry} {tcp : TcpView}
    (h : ∀ i < flow.reasm.length, byte flow.reasm i = conn (start + UInt32.ofNat i))
    (hseq : tcp.seq = start + UInt32.ofNat flow.reasm.length)
    (hdata : ∀ i < tcp.payload.length, byte tcp.payload i = conn (tcp.seq + UInt32.ofNat i))
    (hcap : (flow.reasm ++ tcp.payload).length ≤ FLOW_REASSEMBLY_CAP) :
    Buffers conn start { advance flow tcp with reasm := flow.reasm ++ tcp.payload } where
  bytes := by
    intro i hi
    dsimp only at hi ⊢
    rw [List.length_append] at hi
    rw [byte_append]
    by_cases hlt : i < flow.reasm.length
    · rw [if_pos hlt, h i hlt]
    · rw [if_neg hlt, hdata _ (by omega), hseq, UInt32.add_assoc, ← UInt32.ofNat_add,
        Nat.add_sub_of_le (by omega)]
  next := by
    simp only [advance]
    rw [hseq, List.length_append, UInt32.ofNat_add, UInt32.add_assoc]
  cap := hcap

-- Tracking one segment keeps the entry in this state.
theorem Collecting.track {conn : UInt32 → UInt8} {start : Option UInt32} {flow : FlowEntry}
    {tcp : TcpView} (h : Collecting conn start flow)
    (hdata : tcp.payload ≠ [] →
      ∀ i < tcp.payload.length, byte tcp.payload i = conn (tcp.seq + UInt32.ofNat i)) :
    Collecting conn (if (trackFlow flow tcp).1 && start.isNone then some tcp.seq else start)
      (trackFlow flow tcp).2.flow := by
  obtain heq | ⟨c, heq, hne, hseq, hc⟩ := trackFlow_cases flow tcp
  · rw [heq]
    exact h
  · rw [heq]
    dsimp only
    cases hc with
    | skip hskip =>
        intro _ hdone
        obtain hdone' | hnil := hskip
        · exact absurd (hdone'.symm.trans hdone) (by decide)
        · exact absurd hnil hne
    | overflow =>
        intro _ hdone
        cases hdone
    | settled =>
        intro _ hdone
        cases hdone
    | waiting hdone hcap =>
        intro huse _
        obtain ⟨hinit, hnil, hstart⟩ | ⟨hinit, s, hstart, hb⟩ := h huse hdone
        · refine .inr ⟨rfl, tcp.seq, ?_, ?_⟩
          · rw [hstart]
            rfl
          · refine Buffers.extend ?_ ?_ (hdata hne) hcap
            · rw [hnil]
              nofun
            · rw [hnil]
              exact (UInt32.add_zero _).symm
        · refine .inr ⟨rfl, s, ?_, ?_⟩
          · rw [hstart]
            rfl
          · exact Buffers.extend hb.bytes ((hseq hinit).trans hb.next) (hdata hne) hcap

-- The invariant over the events and reports so far.
structure Reassembling (conn : FlowKey → Nat → UInt32 → UInt8) (events : List Event)
    (trace : List Handled) (ctx : EngineCtx) : Prop where
  unique : KeysUnique ctx.flows
  entries : ∀ slot, Collecting (conn (ctx.flows.get slot).key (syns (ctx.flows.get slot).key events))
    (firstAccepted slot trace) (ctx.flows.get slot)

theorem syns_concat (key : FlowKey) (events : List Event) (event : Event)
    (h : isSynOf key event = false) : syns key (events ++ [event]) = syns key events := by
  simp [syns, h]

theorem firstAccepted_concat (slot : Nat) (trace : List Handled) (handled : Handled) :
    firstAccepted slot (trace ++ [handled]) =
      noteAccepted slot (firstAccepted slot trace) handled := by
  simp [firstAccepted]

theorem noteAccepted_other {slot : Nat} {start : Option UInt32} {handled : Handled} {use : FlowUse}
    (h : handled.flow = some use) (hne : use.slot ≠ slot) :
    noteAccepted slot start handled = start := by
  simp only [noteAccepted, h, hne, if_false]

section Step

variable {conn : FlowKey → Nat → UInt32 → UInt8} {events : List Event} {trace : List Handled}
variable {ctx ctx' : EngineCtx} {raw : Bytes} {now : Int} {socket : RawSocket} {seg : Segment}
variable {handled : Handled} {slot : Nat} {start entry : FlowEntry}

theorem SegmentStep.start_eq (h : SegmentStep ctx raw now socket seg ctx' handled slot start entry) :
    start.inUse = true ∧ start.key = seg.key := by
  obtain ⟨-, rfl, -⟩ | ⟨-, rfl, hfind, -⟩ := h.found
  · exact ⟨rfl, rfl⟩
  · obtain ⟨-, huse, hkey⟩ := flowFind_some hfind
    exact ⟨huse, hkey⟩

theorem SegmentStep.entry_eq (h : SegmentStep ctx raw now socket seg ctx' handled slot start entry) :
    entry.inUse = true ∧ entry.key = seg.key := by
  obtain ⟨strategy, chain, decided, rfl⟩ := h.tracked
  have hsame := trackFlow_sameFlow start seg.tcp
  obtain ⟨huse, hkey⟩ := h.start_eq
  exact ⟨hsame.inUse.trans huse, hsame.key.trans hkey⟩

-- No other live entry has the key of the segment.
theorem SegmentStep.other_key
    (h : SegmentStep ctx raw now socket seg ctx' handled slot start entry)
    (hunique : KeysUnique ctx.flows) {i : Nat} (hi : i ≠ slot)
    (huse : (ctx.flows.get i).inUse = true) : (ctx.flows.get i).key ≠ seg.key := by
  have hfind : flowFind ctx.flows seg.key = none ∨ flowFind ctx.flows seg.key = some slot := by
    obtain ⟨-, -, hfind⟩ | ⟨-, -, hfind, -⟩ := h.found
    · exact hfind
    · exact .inr hfind
  obtain hnone | hsome := hfind
  · exact flowFind_none hnone huse
  · obtain ⟨-, huse', hkey'⟩ := flowFind_some hsome
    intro hkey
    exact hi (hunique i slot huse huse' (hkey.trans hkey'.symm))

theorem SegmentStep.keysUnique
    (h : SegmentStep ctx raw now socket seg ctx' handled slot start entry)
    (hunique : KeysUnique ctx.flows) : KeysUnique ctx'.flows := by
  apply hunique.of_slot slot seg.key
  · intro i hi huse
    obtain hsame | hzero := h.others i hi
    · exact hsame
    · rw [hzero] at huse
      cases huse
  · rw [h.own]
    exact h.entry_eq.2
  · intro i hi huse
    exact h.other_key hunique hi huse

theorem isSynOf_packet (hseg : parseSegment raw = some seg) (key : FlowKey) :
    isSynOf key (.packet raw now socket) = (decide (seg.key = key) && bareSyn seg.tcp) := by
  simp only [isSynOf, hseg]

-- The entry of the segment itself. A bare SYN restarts it and carries no data, so
-- the number of the connection changes only under an empty buffer.
theorem SegmentStep.collecting
    (h : SegmentStep ctx raw now socket seg ctx' handled slot start entry)
    (hinv : Reassembling conn events trace ctx) (hseg : parseSegment raw = some seg)
    (hdata : seg.tcp.payload ≠ [] → seg.tcp.flags &&& TCP_FLAG_SYN = 0 ∧
      ∀ i < seg.tcp.payload.length, byte seg.tcp.payload i =
        conn seg.key (syns seg.key events) (seg.tcp.seq + UInt32.ofNat i)) :
    Collecting (conn entry.key (syns entry.key (events ++ [.packet raw now socket])))
      (noteAccepted slot (firstAccepted slot trace) handled) entry := by
  have hkey := h.entry_eq.2
  have hsyn : seg.tcp.payload ≠ [] → bareSyn seg.tcp = false := by
    intro hne
    simp only [bareSyn, (hdata hne).1]
    rfl
  have hsyns : bareSyn seg.tcp = false →
      syns seg.key (events ++ [.packet raw now socket]) = syns seg.key events := by
    intro hbare
    apply syns_concat
    rw [isSynOf_packet hseg, hbare, Bool.and_false]
  have hstart : Collecting (conn seg.key (syns seg.key (events ++ [.packet raw now socket])))
      (if isFresh ctx.flows seg then none else firstAccepted slot trace) start := by
    obtain ⟨hfresh, rfl, -⟩ | ⟨hold, rfl, hfind, hbare⟩ := h.found
    · rw [hfresh, if_pos rfl]
      exact collecting_reset _ _ _
    · obtain ⟨-, -, hkey'⟩ := flowFind_some hfind
      have hc := hinv.entries slot
      rw [hkey'] at hc
      rw [hsyns hbare, hold, if_neg (by decide)]
      exact hc.congr rfl rfl rfl rfl rfl
  have hdata' : seg.tcp.payload ≠ [] → ∀ i < seg.tcp.payload.length, byte seg.tcp.payload i =
      conn seg.key (syns seg.key (events ++ [.packet raw now socket]))
        (seg.tcp.seq + UInt32.ofNat i) := by
    intro hne
    rw [hsyns (hsyn hne)]
    exact (hdata hne).2
  have hnote : noteAccepted slot (firstAccepted slot trace) handled =
      if (trackFlow start seg.tcp).1 &&
        (if isFresh ctx.flows seg then none else firstAccepted slot trace).isNone then
        some seg.tcp.seq
      else if isFresh ctx.flows seg then none else firstAccepted slot trace := by
    simp only [noteAccepted, h.flow, if_true]
  rw [hkey, hnote]
  obtain ⟨strategy, chain, decided, hentry⟩ := h.tracked
  rw [hentry]
  exact (hstart.track hdata').congr rfl rfl rfl rfl rfl

theorem SegmentStep.reassembling
    (h : SegmentStep ctx raw now socket seg ctx' handled slot start entry)
    (hinv : Reassembling conn events trace ctx) (hseg : parseSegment raw = some seg)
    (hdata : seg.tcp.payload ≠ [] → seg.tcp.flags &&& TCP_FLAG_SYN = 0 ∧
      ∀ i < seg.tcp.payload.length, byte seg.tcp.payload i =
        conn seg.key (syns seg.key events) (seg.tcp.seq + UInt32.ofNat i)) :
    Reassembling conn (events ++ [.packet raw now socket]) (trace ++ [handled]) ctx' where
  unique := h.keysUnique hinv.unique
  entries := by
    intro i
    rw [firstAccepted_concat]
    by_cases hi : i = slot
    · rw [hi, h.own]
      exact h.collecting hinv hseg hdata
    · rw [noteAccepted_other h.flow (Ne.symm hi)]
      obtain hsame | hzero := h.others i hi
      · intro huse hdone
        rw [hsame] at huse hdone ⊢
        have hkey := h.other_key hinv.unique hi huse
        rw [syns_concat _ _ _ (by rw [isSynOf_packet hseg, decide_eq_false (Ne.symm hkey)]; rfl)]
        exact hinv.entries i huse hdone
      · rw [hzero]
        exact collecting_zero _ _

end Step

-- A reload clears decisions only, and it is no segment.
theorem Reassembling.reload {conn : FlowKey → Nat → UInt32 → UInt8} {events : List Event}
    {trace : List Handled} {ctx : EngineCtx} (h : Reassembling conn events trace ctx)
    (strategies : StrategyConfig) (discovered : DiscoveryCache) (fingerprint : UInt64) (now : Int) :
    Reassembling conn (events ++ [.reload strategies discovered fingerprint now]) trace
      (reloadStrategies ctx strategies discovered fingerprint now) := by
  have hget : ∀ i, ∃ strategy chain decided, (flowInvalidateDecisions ctx.flows).1.get i =
      { ctx.flows.get i with strategy := strategy, chain := chain, strategyDecided := decided } := by
    intro i
    rw [get_flowInvalidateDecisions, flowInvalidate]
    split
    · exact ⟨_, _, _, rfl⟩
    · exact ⟨_, _, _, rfl⟩
  refine ⟨?_, ?_⟩
  · apply h.unique.of_sub
    intro i hi
    obtain ⟨strategy, chain, decided, he⟩ := hget i
    simp only [reloadStrategies, he] at hi ⊢
    exact ⟨hi, trivial⟩
  · intro i
    obtain ⟨strategy, chain, decided, he⟩ := hget i
    simp only [reloadStrategies, he]
    rw [syns_concat _ _ _ rfl]
    exact (h.entries i).congr rfl rfl rfl rfl rfl

theorem Reassembling.refresh {conn : FlowKey → Nat → UInt32 → UInt8} {events : List Event}
    {trace : List Handled} {ctx : EngineCtx} (h : Reassembling conn events trace ctx)
    (current : UInt64) (now : Int) :
    Reassembling conn (events ++ [.refresh current now]) trace
      (maybeRefreshUnknownFingerprint ctx current now) := by
  have hflows : (maybeRefreshUnknownFingerprint ctx current now).flows = ctx.flows := by
    rw [maybeRefreshUnknownFingerprint]
    split_ifs <;> rfl
  refine ⟨?_, ?_⟩
  · rw [hflows]
    exact h.unique
  · intro i
    rw [hflows, syns_concat _ _ _ rfl]
    exact h.entries i

theorem FollowsConnections.init {conn : FlowKey → Nat → UInt32 → UInt8} {events : List Event}
    {event : Event} (h : FollowsConnections conn (events ++ [event])) :
    FollowsConnections conn events := by
  intro before raw now socket after seg hevents
  refine h before raw now socket (after ++ [event]) seg ?_
  rw [hevents, List.append_assoc, List.cons_append]

theorem reassembling_step {conn : FlowKey → Nat → UInt32 → UInt8} (events : List Event)
    (trace : List Handled) (ctx : EngineCtx) (event : Event)
    (h : FollowsConnections conn events → Reassembling conn events trace ctx)
    (hfollows : FollowsConnections conn (events ++ [event])) :
    Reassembling conn (events ++ [event]) (trace ++ (step ctx event).2.toList)
      (step ctx event).1 := by
  have hinv := h hfollows.init
  cases event with
  | reload strategies discovered fingerprint now =>
      simp only [step, Option.toList_none, List.append_nil]
      exact hinv.reload strategies discovered fingerprint now
  | refresh current now =>
      simp only [step, Option.toList_none, List.append_nil]
      exact hinv.refresh current now
  | packet raw now socket =>
      simp only [step, Option.toList_some]
      cases hseg : parseSegment raw with
      | none =>
          rw [packetCallback_none ctx now socket hseg]
          refine ⟨hinv.unique, ?_⟩
          intro i
          rw [firstAccepted_concat, syns_concat _ _ _ (by simp only [isSynOf, hseg])]
          exact hinv.entries i
      | some seg =>
          obtain ⟨slot, start, entry, hstep⟩ := packetCallback_some ctx now socket hseg
          exact hstep.reassembling hinv hseg (hfollows events raw now socket [] seg rfl hseg)

-- Whatever segments arrive, the buffer of a flow that is still being classified
-- holds the bytes of its connection without a gap, from the first segment accepted.
theorem run_reassembly (conn : FlowKey → Nat → UInt32 → UInt8) (strategies : StrategyConfig)
    (discovered : DiscoveryCache) (fingerprint : UInt64) (now : Int) (events : List Event)
    (hfollows : FollowsConnections conn events) (slot : Nat) :
    let last := Machine.run step (engineInit strategies discovered fingerprint now) events
    let entry := last.1.flows.get slot
    entry.inUse = true → entry.classificationDone = false → 0 < entry.reasm.length →
      ∃ start, firstAccepted slot last.2 = some start ∧
        (∀ i < entry.reasm.length, byte entry.reasm i =
          conn entry.key (syns entry.key events) (start + UInt32.ofNat i)) ∧
        entry.nextSeq = start + UInt32.ofNat entry.reasm.length ∧
        entry.reasm.length ≤ FLOW_REASSEMBLY_CAP := by
  intro last entry huse hdone hpos
  have hinv : Reassembling conn events last.2 last.1 := by
    refine Machine.run_invariant step
      (fun events trace ctx => FollowsConnections conn events → Reassembling conn events trace ctx)
      ?_ reassembling_step events hfollows
    intro _
    refine ⟨keysUnique_init, ?_⟩
    intro i
    simp only [engineInit, get_flowTableInit]
    exact collecting_zero _ _
  obtain ⟨-, hnil, -⟩ | ⟨-, start, hstart, hb⟩ := hinv.entries slot huse hdone
  · rw [hnil] at hpos
    cases hpos
  · exact ⟨start, hstart, hb.bytes, hb.next, hb.cap⟩

-- The first three bytes of a ClientHello, across the wrap of the sequence numbers.
def helloBytes : Bytes :=
  [0x45, 0, 0, 43, 0x10, 0x92, 0x40, 0, 64, 6, 0, 0, 10, 0, 0, 1, 10, 0, 0, 2,
   0xC7, 0x38, 1, 187, 0xFF, 0xFF, 0xFF, 0xFE, 0, 0, 0, 1, 0x50, 0x18, 0xFF, 0xFF, 0, 0, 0, 0,
   0x16, 3, 1]

def helloStart : Event := .packet helloBytes 0 fun _ => true

def helloConn (_ : FlowKey) (_ : Nat) (number : UInt32) : UInt8 :=
  if number = 0xFFFFFFFE then 0x16 else if number = 0xFFFFFFFF then 3 else 1

theorem helloStart_follows : FollowsConnections helloConn [helloStart] := by
  intro before raw now socket after seg hevents hseg hne
  cases before with
  | cons event before => simp at hevents
  | nil =>
      obtain ⟨hevent, -⟩ := List.cons.inj hevents
      obtain ⟨rfl, -, -⟩ := Event.packet.inj hevent
      have hall : (parseSegment helloBytes).all (fun seg => seg.tcp.flags &&& TCP_FLAG_SYN = 0 &&
          decide (∀ i < seg.tcp.payload.length, byte seg.tcp.payload i =
            helloConn seg.key 0 (seg.tcp.seq + UInt32.ofNat i))) = true := by decide +kernel
      rw [hseg, Option.all_some, Bool.and_eq_true, decide_eq_true_eq, decide_eq_true_eq] at hall
      exact hall

theorem run_reassembly_sample : ∃ start,
    firstAccepted 0 (Machine.run step (engineInit strategyConfigInit discoveryCacheInit 0 0)
      [helloStart]).2 = some start ∧
    ((Machine.run step (engineInit strategyConfigInit discoveryCacheInit 0 0)
      [helloStart]).1.flows.get 0).nextSeq = start + 3 := by
  obtain ⟨start, hstart, -, hnext, -⟩ := run_reassembly helloConn strategyConfigInit
    discoveryCacheInit 0 0 [helloStart] helloStart_follows 0 (by decide +kernel) (by decide +kernel)
    (by decide +kernel)
  have hlen : ((Machine.run step (engineInit strategyConfigInit discoveryCacheInit 0 0)
      [helloStart]).1.flows.get 0).reasm.length = 3 := by decide +kernel
  rw [hlen] at hnext
  exact ⟨start, hstart, hnext⟩

end DpiProxy.Engine
