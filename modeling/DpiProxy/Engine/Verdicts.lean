import DpiProxy.Engine.Chain
import DpiProxy.Machine

namespace DpiProxy.Engine

open Wire Packet DpiProxy.Flow

-- An entry whose classification is done stays so, and no packet of it is taken
-- for a ClientHello again.
theorem trackFlow_done {flow : FlowEntry} (h : flow.classificationDone = true) (tcp : TcpView) :
    (trackFlow flow tcp).2.flow.classificationDone = true ∧ (trackFlow flow tcp).2.cls ≠ .tls := by
  obtain heq | ⟨c, heq, -, -, hc⟩ := trackFlow_cases flow tcp
  · rw [heq]
    exact ⟨h, nofun⟩
  · rw [heq]
    cases hc with
    | skip => exact ⟨h, nofun⟩
    | overflow hdone => exact absurd (h.symm.trans hdone) (by decide)
    | waiting hdone => exact absurd (h.symm.trans hdone) (by decide)
    | settled hdone => exact absurd (h.symm.trans hdone) (by decide)

-- A packet that completes a ClientHello ends the classification and was appended.
theorem trackFlow_tls {flow : FlowEntry} {tcp : TcpView}
    (h : (trackFlow flow tcp).2.cls = .tls) :
    (trackFlow flow tcp).2.flow.classificationDone = true ∧
      (trackFlow flow tcp).2.flow.reasm = flow.reasm ++ tcp.payload := by
  obtain heq | ⟨c, heq, -, -, hc⟩ := trackFlow_cases flow tcp
  · rw [heq] at h
    cases h
  · rw [heq] at h ⊢
    cases hc with
    | skip => cases h
    | overflow => cases h
    | waiting => cases h
    | settled => exact ⟨rfl, rfl⟩

-- What holds of every handled packet.
structure Sound (handled : Handled) : Prop where
  segment : ∀ use, handled.flow = some use → parseSegment handled.raw = some use.segment
  oneVerdict : ∃ v, verdicts handled.effects = [v]
  -- Dropped: the replacements are in memory before anything is sent, and they carry
  -- the payload of the packet.
  dropped : verdicts handled.effects = [.drop] → ∃ use chain packets sent,
    handled.flow = some use ∧
    handled.effects = .chain chain :: .build packets :: (sent ++ [.verdict .drop]) ∧
    (∀ e ∈ sent, DecoySent e ∨ ReplacementSent packets e) ∧
    (AllSent handled.effects → (replacements handled.effects).Perm packets ∧
      Carries (replacements handled.effects) use.segment.tcp.seq use.segment.tcp.payload)
  -- Accepted: nothing but decoys was sent.
  accepted : verdicts handled.effects = [.accept] → ∀ tag packet ok,
    .inject tag packet ok ∈ handled.effects →
      tag = .fake ∧ ∃ template ttl, packetMakeFakeTcpV4 template ttl = .ok packet
  -- A chain runs on a packet that is the whole reassembly buffer.
  whole : ∀ chain, .chain chain ∈ handled.effects → ∃ use, handled.flow = some use ∧
    use.entry.reasm = use.segment.tcp.payload

theorem sound_accept {raw : Bytes} {flow : Option FlowUse}
    (h : ∀ use, flow = some use → parseSegment raw = some use.segment) :
    Sound ⟨raw, flow, [.verdict .accept]⟩ where
  segment := h
  oneVerdict := ⟨.accept, rfl⟩
  dropped := nofun
  accepted := by
    intro _ tag packet ok hm
    cases List.mem_singleton.mp hm
  whole := by
    intro chain hm
    cases List.mem_singleton.mp hm

-- A log whose effects are all of a kind that sets no verdict.
theorem verdicts_eq_nil {P : Effect → Prop} {log : List Effect} (hP : ∀ v, ¬P (.verdict v))
    (h : ∀ e ∈ log, P e) : verdicts log = [] := by
  induction log with
  | nil => rfl
  | cons e log ih =>
      have htail := ih fun e' he' => h e' (List.mem_cons_of_mem _ he')
      cases e with
      | verdict v => exact absurd (h _ List.mem_cons_self) (hP v)
      | inject tag packet ok => exact htail
      | chain c => exact htail
      | build packets => exact htail

theorem not_sent_verdict (packets : List Bytes) (v : Verdict) :
    ¬(DecoySent (.verdict v) ∨ ReplacementSent packets (.verdict v)) := by
  rintro (⟨decoy, ok, template, ttl, heq, -⟩ | ⟨tag, packet, ok, heq, -⟩)
  · cases heq
  · cases heq

theorem not_built_verdict (v : Verdict) :
    ¬(DecoySent (.verdict v) ∨ ∃ packets, Effect.verdict v = .build packets) := by
  rintro (⟨decoy, ok, template, ttl, heq, -⟩ | ⟨packets, heq⟩)
  · cases heq
  · cases heq

section Step

variable {ctx ctx' : EngineCtx} {raw : Bytes} {now : Int} {socket : RawSocket} {seg : Segment}
variable {handled : Handled} {slot : Nat} {start entry : FlowEntry}

-- The buffer after the packet has the packet's length, so it was empty before.
theorem SegmentStep.reasm_eq (h : SegmentStep ctx raw now socket seg ctx' handled slot start entry)
    (htls : (trackFlow start seg.tcp).2.cls = .tls)
    (hlen : entry.reasm.length = seg.tcp.payload.length) : entry.reasm = seg.tcp.payload := by
  obtain ⟨strategy, chain, decided, rfl⟩ := h.tracked
  have hreasm := (trackFlow_tls htls).2
  dsimp only at hlen ⊢
  rw [hreasm] at hlen ⊢
  rw [List.length_append] at hlen
  have hnil : start.reasm = [] := List.length_eq_zero_iff.mp (by omega)
  rw [hnil, List.nil_append]

theorem SegmentStep.sound (h : SegmentStep ctx raw now socket seg ctx' handled slot start entry)
    (hseg : parseSegment raw = some seg) : Sound handled := by
  have hsegment : ∀ use, handled.flow = some use → parseSegment handled.raw = some use.segment := by
    intro use huse
    rw [h.flow] at huse
    rw [← Option.some.inj huse, h.raw_eq]
    exact hseg
  obtain ⟨hraw, flow, effects⟩ := handled
  obtain happ := h.effects
  cases happ with
  | accepted => exact sound_accept hsegment
  | applied chain _ hv4 htls hlen hlog =>
      obtain ⟨d, hd⟩ := parseSegment_v4 hseg hv4
      rw [hd] at hlog
      obtain ⟨seg1, seg2, packets, sent, hperm, hcarries, hi, rfl⟩ := tryApplyChain_applied d hlog
      have hrep : replacements ([.chain chain] ++ ([.build [seg1, seg2]] ++ sent ++
          [.verdict .drop])) = replacements sent := by
        simp only [replacements_append, replacements, List.nil_append, List.append_nil]
      have hver : verdicts ([.chain chain] ++ ([.build [seg1, seg2]] ++ sent ++
          [.verdict .drop])) = [.drop] := by
        simp only [verdicts_append, verdicts, verdicts_eq_nil (not_sent_verdict _) hi.each,
          List.nil_append]
      refine ⟨hsegment, ⟨_, hver⟩, ?_, ?_, ?_⟩
      · intro _
        refine ⟨_, chain, [seg1, seg2], sent, h.flow, rfl, ?_, ?_⟩
        · intro e he
          obtain hdec | ⟨tag, packet, ok, heq, htag, hm⟩ := hi.each e he
          · exact .inl hdec
          · exact .inr ⟨tag, packet, ok, heq, htag, hperm.mem_iff.mp hm⟩
        · intro hall
          have hsent : AllSent sent := hall.right.left.right
          dsimp only
          rw [hrep, hi.sent hsent, hd]
          exact ⟨hperm, hcarries⟩
      · intro hacc
        exact absurd (hver.symm.trans hacc) (by decide)
      · intro _ _
        exact ⟨_, h.flow, h.reasm_eq htls hlen⟩
  | declined chain log hv4 htls hlen hlog =>
      obtain ⟨tail, rfl, htail⟩ := tryApplyChain_declined hlog
      have hver : verdicts ([.chain chain] ++ tail ++ [.verdict .accept]) = [.accept] := by
        simp only [verdicts_append, verdicts, verdicts_eq_nil not_built_verdict htail,
          List.nil_append]
      refine ⟨hsegment, ⟨_, hver⟩, ?_, ?_, ?_⟩
      · intro hdrop
        exact absurd (hver.symm.trans hdrop) (by decide)
      · intro _ tag packet ok hm
        change _ ∈ [.chain chain] ++ tail ++ [.verdict .accept] at hm
        rw [List.append_assoc, List.singleton_append, List.mem_cons, List.mem_append,
          List.mem_singleton] at hm
        obtain hm | hm | hm := hm
        · cases hm
        · obtain ⟨decoy, ok', template, ttl, heq, hbuilt⟩ | ⟨packets, heq⟩ := htail _ hm
          · obtain ⟨rfl, rfl, rfl⟩ := Effect.inject.inj heq
            exact ⟨rfl, template, ttl, hbuilt⟩
          · cases heq
        · cases hm
      · intro _ _
        exact ⟨_, h.flow, h.reasm_eq htls hlen⟩

-- The entry keeps its mark through a packet that does not start it afresh.
theorem SegmentStep.done (h : SegmentStep ctx raw now socket seg ctx' handled slot start entry)
    (hold : isFresh ctx.flows seg = false)
    (hdone : (ctx.flows.get slot).inUse = true →
      (ctx.flows.get slot).classificationDone = true) :
    entry.classificationDone = true ∧ handled.effects = [.verdict .accept] := by
  obtain ⟨hfresh, -⟩ | ⟨-, hstart, hfind, -⟩ := h.found
  · exact absurd (hfresh.symm.trans hold) (by decide)
  · obtain ⟨-, huse, -⟩ := flowFind_some hfind
    have hmark : start.classificationDone = true := by
      rw [hstart]
      exact hdone huse
    obtain ⟨hkept, hcls⟩ := trackFlow_done hmark seg.tcp
    obtain ⟨strategy, chain, decided, hentry⟩ := h.tracked
    refine ⟨by rw [hentry]; exact hkept, ?_⟩
    obtain heffects := h.effects
    generalize handled.effects = effects at heffects
    cases heffects with
    | accepted => rfl
    | applied chain _ _ htls => exact absurd htls hcls
    | declined chain _ _ htls => exact absurd htls hcls

-- A dropped packet ends the classification of its flow.
theorem SegmentStep.done_of_drop
    (h : SegmentStep ctx raw now socket seg ctx' handled slot start entry)
    (hdrop : verdicts handled.effects = [.drop]) : entry.classificationDone = true := by
  have hcls : (trackFlow start seg.tcp).2.cls = .tls := by
    obtain heffects := h.effects
    generalize handled.effects = effects at heffects hdrop
    cases heffects with
    | accepted => cases hdrop
    | applied chain _ _ htls => exact htls
    | declined chain _ _ htls => exact htls
  obtain ⟨strategy, chain, decided, hentry⟩ := h.tracked
  rw [hentry]
  exact (trackFlow_tls hcls).1

end Step

-- The packet of a flow entry was handled in a slot, and whether it made the entry afresh.
def UsesSlot (slot : Nat) (handled : Handled) : Prop :=
  ∃ use, handled.flow = some use ∧ use.slot = slot

def StartsSlot (slot : Nat) (handled : Handled) : Prop :=
  ∃ use, handled.flow = some use ∧ use.slot = slot ∧ use.fresh = true

-- A packet of the entry now in the slot was dropped. An evicted entry can only be
-- used again by a packet that starts the slot.
def Spent (slot : Nat) (trace : List Handled) : Prop :=
  ∃ before first between, trace = before ++ first :: between ∧ UsesSlot slot first ∧
    verdicts first.effects = [.drop] ∧ ∀ h ∈ between, ¬StartsSlot slot h

-- Within one incarnation of a slot a drop is followed by plain accepts only.
def OneDrop (trace : List Handled) : Prop :=
  ∀ slot before later after, trace = before ++ later :: after → Spent slot before →
    UsesSlot slot later → ¬StartsSlot slot later → later.effects = [.verdict .accept]

theorem not_spent_nil (slot : Nat) : ¬Spent slot [] := by
  rintro ⟨before, first, between, h, -⟩
  exact absurd h (by simp)

theorem spent_concat {slot : Nat} {trace : List Handled} {handled : Handled}
    (h : Spent slot (trace ++ [handled])) :
    (UsesSlot slot handled ∧ verdicts handled.effects = [.drop]) ∨
    (Spent slot trace ∧ ¬StartsSlot slot handled) := by
  obtain ⟨before, first, between, heq, huse, hdrop, hbetween⟩ := h
  rcases List.eq_nil_or_concat between with rfl | ⟨between', last, rfl⟩
  · obtain ⟨-, rfl⟩ := List.append_singleton_inj.mp heq
    exact .inl ⟨huse, hdrop⟩
  · rw [List.concat_eq_append, ← List.cons_append, ← List.append_assoc] at heq
    obtain ⟨htrace, rfl⟩ := List.append_singleton_inj.mp heq
    refine .inr ⟨⟨before, first, between', htrace, huse, hdrop, ?_⟩, ?_⟩
    · intro h' hm
      exact hbetween h' (by simp [hm])
    · exact hbetween handled (by simp)

-- The queued packets among the events.
def queued : List Event → List Bytes
  | [] => []
  | .packet raw _ _ :: events => raw :: queued events
  | _ :: events => queued events

theorem queued_append (a b : List Event) : queued (a ++ b) = queued a ++ queued b := by
  induction a with
  | nil => rfl
  | cons e a ih =>
      cases e with
      | packet raw now socket => exact congrArg (raw :: ·) ih
      | reload => exact ih
      | refresh => exact ih

-- The invariant over the events and reports so far.
structure Handling (events : List Event) (trace : List Handled) (ctx : EngineCtx) : Prop where
  answered : trace.map (·.raw) = queued events
  sound : ∀ handled ∈ trace, Sound handled
  spent : ∀ slot, Spent slot trace → (ctx.flows.get slot).inUse = true →
    (ctx.flows.get slot).classificationDone = true

section Run

variable {events : List Event} {trace : List Handled} {ctx ctx' : EngineCtx}

-- A step without a packet that keeps the entries' marks.
theorem Handling.quiet (h : Handling events trace ctx) (event : Event) (hq : queued [event] = [])
    (hkept : ∀ i, (ctx'.flows.get i).inUse = (ctx.flows.get i).inUse ∧
      (ctx'.flows.get i).classificationDone = (ctx.flows.get i).classificationDone) :
    Handling (events ++ [event]) trace ctx' where
  answered := by rw [queued_append, hq, List.append_nil, h.answered]
  sound := h.sound
  spent := by
    intro slot hspent huse
    obtain ⟨hu, hd⟩ := hkept slot
    rw [hd]
    exact h.spent slot hspent (hu ▸ huse)

theorem Handling.packet (h : Handling events trace ctx) (raw : Bytes) (now : Int)
    (socket : RawSocket) {handled : Handled} (hraw : handled.raw = raw) (hsound : Sound handled)
    (hspent : ∀ slot, Spent slot (trace ++ [handled]) → (ctx'.flows.get slot).inUse = true →
      (ctx'.flows.get slot).classificationDone = true) :
    Handling (events ++ [.packet raw now socket]) (trace ++ [handled]) ctx' where
  answered := by
    rw [List.map_append, queued_append, h.answered, List.map_singleton, hraw]
    rfl
  sound := by
    intro handled' hm
    rcases List.mem_append.mp hm with hl | hr
    · exact h.sound handled' hl
    · rw [List.mem_singleton.mp hr]
      exact hsound
  spent := hspent

theorem SegmentStep.spent {raw : Bytes} {now : Int} {socket : RawSocket} {seg : Segment}
    {handled : Handled} {slot : Nat} {start entry : FlowEntry}
    (hstep : SegmentStep ctx raw now socket seg ctx' handled slot start entry)
    (h : Handling events trace ctx) (i : Nat) (hspent : Spent i (trace ++ [handled]))
    (huse : (ctx'.flows.get i).inUse = true) :
    (ctx'.flows.get i).classificationDone = true := by
  by_cases hi : i = slot
  · subst hi
    rw [hstep.own]
    obtain ⟨-, hdrop⟩ | ⟨hbefore, hold⟩ := spent_concat hspent
    · exact hstep.done_of_drop hdrop
    · have hfresh : isFresh ctx.flows seg = false := by
        by_contra hf
        exact hold ⟨_, hstep.flow, rfl, by simpa using hf⟩
      exact (hstep.done hfresh (h.spent i hbefore)).1
  · obtain ⟨⟨use, hflow, hslot⟩, -⟩ | ⟨hbefore, -⟩ := spent_concat hspent
    · rw [hstep.flow] at hflow
      obtain rfl := Option.some.inj hflow
      exact absurd hslot.symm hi
    · obtain hsame | hzero := hstep.others i hi
      · rw [hsame] at huse ⊢
        exact h.spent i hbefore huse
      · rw [hzero] at huse
        cases huse

theorem handling_step (events : List Event) (trace : List Handled) (ctx : EngineCtx) (event : Event)
    (h : Handling events trace ctx) :
    Handling (events ++ [event]) (trace ++ (step ctx event).2.toList) (step ctx event).1 := by
  cases event with
  | reload strategies discovered fingerprint now =>
      simp only [step, Option.toList_none, List.append_nil]
      refine h.quiet _ rfl ?_
      intro i
      simp only [reloadStrategies, get_flowInvalidateDecisions, flowInvalidate]
      split
      · exact ⟨rfl, rfl⟩
      · exact ⟨rfl, rfl⟩
  | refresh current now =>
      simp only [step, Option.toList_none, List.append_nil]
      refine h.quiet _ rfl ?_
      intro i
      rw [maybeRefreshUnknownFingerprint]
      split_ifs <;> exact ⟨rfl, rfl⟩
  | packet raw now socket =>
      simp only [step, Option.toList_some]
      cases hseg : parseSegment raw with
      | none =>
          rw [packetCallback_none ctx now socket hseg]
          have hsound : Sound ⟨raw, none, [.verdict .accept]⟩ :=
            sound_accept fun use hnone => absurd hnone (by simp)
          refine h.packet raw now socket rfl hsound ?_
          intro slot hspent
          obtain ⟨-, hdrop⟩ | ⟨hbefore, -⟩ := spent_concat hspent
          · cases hdrop
          · exact h.spent slot hbefore
      | some seg =>
          obtain ⟨slot, start, entry, hstep⟩ := packetCallback_some ctx now socket hseg
          exact h.packet raw now socket hstep.raw_eq (hstep.sound hseg) (hstep.spent h)

theorem run_handling (ctx : EngineCtx) (events : List Event) :
    Handling events (Machine.run step ctx events).2 (Machine.run step ctx events).1 := by
  refine Machine.run_invariant step Handling ?_ handling_step events
  refine ⟨rfl, ?_, ?_⟩
  · intro handled hm
    exact absurd hm List.not_mem_nil
  · intro slot hspent
    exact absurd hspent (not_spent_nil slot)

-- The step of a packet of a spent entry.
theorem Handling.later_accepted (h : Handling events trace ctx) {event : Event} {later : Handled}
    (hstep : (step ctx event).2 = some later) {slot : Nat} (hspent : Spent slot trace)
    (huse : UsesSlot slot later) (hold : ¬StartsSlot slot later) :
    later.effects = [.verdict .accept] := by
  cases event with
  | reload => cases hstep
  | refresh => cases hstep
  | packet raw now socket =>
      have hlater : (packetCallback ctx raw now socket).2 = later := Option.some.inj hstep
      cases hseg : parseSegment raw with
      | none =>
          rw [packetCallback_none ctx now socket hseg] at hlater
          rw [← hlater]
      | some seg =>
          obtain ⟨slot', start, entry, hs⟩ := packetCallback_some ctx now socket hseg
          rw [hlater] at hs
          obtain ⟨use, hflow, hslot⟩ := huse
          have hflow' := hs.flow
          rw [hflow] at hflow'
          obtain rfl := Option.some.inj hflow'
          obtain rfl : slot' = slot := hslot
          have hfresh : isFresh ctx.flows seg = false := by
            by_contra hf
            exact hold ⟨_, hflow, rfl, by simpa using hf⟩
          exact (hs.done hfresh (h.spent slot' hspent)).2

end Run

-- Every queued packet gets one verdict. A drop comes after all its replacements are
-- in memory, and what is sent then carries the payload; an accept sends decoys at
-- most. Within one incarnation of a flow entry there is one drop.
theorem run_verdicts (ctx : EngineCtx) (events : List Event) :
    let trace := (Machine.run step ctx events).2
    trace.map (·.raw) = queued events ∧ (∀ handled ∈ trace, Sound handled) ∧ OneDrop trace := by
  intro trace
  have hinv := run_handling ctx events
  refine ⟨hinv.answered, hinv.sound, ?_⟩
  intro slot before later after htrace hspent huse hold
  obtain ⟨events₁, event, events₂, -, hbefore, hlater⟩ := Machine.run_split step htrace
  have hinv₁ := run_handling ctx events₁
  rw [hbefore] at hinv₁
  exact hinv₁.later_accepted hlater hspent huse hold

-- A ClientHello is dropped once; its retransmission is accepted.
example : ((Machine.run step
    (engineInit { strategyConfigInit with defaultStrategy := .split } discoveryCacheInit 0 0)
    [.packet helloPacket 0 fun _ => true, .packet helloPacket 1 fun _ => true]).2.map
      fun handled => verdicts handled.effects) = [[.drop], [.accept]] := by
  decide +kernel

end DpiProxy.Engine
