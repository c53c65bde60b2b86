import DpiProxy.Transparent.Windows.Reflection

namespace DpiProxy.Transparent.Windows

open Wire

-- The packets of a flow, in either direction.
def ofFlow (l : Listeners) (k : FlowId) (p : Pkt) : Bool :=
  match listenerService l p.header.proto p.header.srcPort with
  | some svc => listenerId p svc = k
  | none => appId p = k

def packetTime (l : Listeners) (k : FlowId) : Event → Option Int
  | .packet p _ now _ => if ofFlow l k p then some now else none
  | _ => none

-- When the last packet of a flow was handled.
def lastPacket (l : Listeners) (k : FlowId) (events : List Event) : Option Int :=
  (events.filterMap (packetTime l k)).getLast?

def isAppSyn (l : Listeners) (k : FlowId) : Event → Bool
  | .packet p _ _ _ =>
      (listenerService l p.header.proto p.header.srcPort).isNone && appId p = k && p.header.bareSyn
  | _ => false

def isClose (l : Listeners) (k : FlowId) : Event → Bool
  | .packet p _ _ _ => ofFlow l k p && p.header.closes
  | _ => false

-- No FIN or RST of the flow was handled since an application SYN of it.
def OpenSinceSyn (l : Listeners) (k : FlowId) (events : List Event) : Prop :=
  ∃ before e after, events = before ++ e :: after ∧ isAppSyn l k e = true ∧
    ∀ e' ∈ e :: after, isClose l k e' = false

-- An application SYN that finds its flow marked as closing.
def Reopens (s : Divert) : Event → Prop
  | .packet p _ _ _ => p.header.bareSyn = true ∧ ∃ f, s.entry (appId p) = some f ∧ f.closing = true
  | _ => False

theorem lastPacket_concat (l : Listeners) (k : FlowId) (events : List Event) (e : Event) :
    lastPacket l k (events ++ [e]) = (packetTime l k e).or (lastPacket l k events) := by
  rw [lastPacket, List.filterMap_append, List.getLast?_append]
  cases h : packetTime l k e with
  | none => simp [h, lastPacket]
  | some t => simp [h]

theorem openSinceSyn_concat {l : Listeners} {k : FlowId} {events : List Event} {e : Event}
    (h : OpenSinceSyn l k (events ++ [e])) :
    isClose l k e = false ∧ (isAppSyn l k e = true ∨ OpenSinceSyn l k events) := by
  obtain ⟨before, e₀, after, heq, hsyn, hopen⟩ := h
  rcases List.eq_nil_or_concat after with rfl | ⟨after', last, rfl⟩
  · obtain ⟨-, rfl⟩ := List.append_inj' heq rfl |>.imp id List.singleton_inj.mp
    exact ⟨hopen e (by simp), .inl hsyn⟩
  · rw [List.concat_eq_append] at heq hopen
    have hsplit : events ++ [e] = (before ++ e₀ :: after') ++ [last] := by simp [heq]
    obtain ⟨hevents, hlast⟩ := List.append_inj' hsplit rfl
    obtain rfl := List.singleton_inj.mp hlast
    refine ⟨hopen e (by simp), .inr ⟨before, e₀, after', hevents, hsyn, ?_⟩⟩
    intro e' he'
    apply hopen
    rcases List.mem_cons.mp he' with rfl | he'
    · exact List.mem_cons_self
    · exact List.mem_cons_of_mem _ (List.mem_append_left _ he')

theorem entry_touch_cases {s : Divert} {k k' : FlowId} {header : Header} {now : Int} {f f' : Flow}
    (hf : s.entry k = some f) (hf' : (s.touch k header now).entry k' = some f') :
    (k' = k ∧ f' = f.touch header now) ∨ (k' ≠ k ∧ s.entry k' = some f') := by
  rw [Divert.entry_touch] at hf'
  by_cases hk : k' = k
  · rw [if_pos hk, hf, Option.map_some] at hf'
    exact .inl ⟨hk, (Option.some.inj hf').symm⟩
  · rw [if_neg hk] at hf'
    exact .inr ⟨hk, hf'⟩

-- What a packet may make of the entry of its own flow.
def Touched (s : Divert) (k : FlowId) (header : Header) (now : Int) (f' : Flow) : Prop :=
  f'.last = now ∧
    (f'.closing = true → header.closes = true ∨ ∃ f, s.entry k = some f ∧ f.closing = true)

theorem touched_touch {s : Divert} {k : FlowId} {f : Flow} (hf : s.entry k = some f)
    (header : Header) (now : Int) : Touched s k header now (f.touch header now) := by
  refine ⟨rfl, fun hclosing => ?_⟩
  rcases (Bool.or_eq_true _ _).mp hclosing with hnew | hold
  · exact .inl hnew
  · exact .inr ⟨f, hf, hold⟩

-- Only its own packets change the entry of a flow.
theorem entry_handle {s : Divert} (h : DivertInv s) {p : Pkt} {outbound : Bool} {now : Int}
    {allocated : Bool} {k : FlowId} {f' : Flow}
    (hf' : (handle s p outbound now allocated).1.entry k = some f') :
    (ofFlow s.listeners k p = false ∧ s.entry k = some f') ∨
    (ofFlow s.listeners k p = true ∧ Touched s k p.header now f') := by
  cases hsvc : listenerService s.listeners p.header.proto p.header.srcPort with
  | some svc =>
      have hof : ofFlow s.listeners k p = decide (listenerId p svc = k) := by
        simp only [ofFlow, hsvc]
      cases hf : s.entry (listenerId p svc) with
      | none =>
          rw [handle_stray outbound now allocated hsvc hf] at hf'
          refine .inl ⟨?_, hf'⟩
          rw [hof, decide_eq_false_iff_not]
          rintro rfl
          exact absurd (hf.symm.trans hf') (by simp)
      | some f =>
          rw [handle_answer outbound now allocated hsvc hf] at hf'
          obtain ⟨rfl, rfl⟩ | ⟨hk, hf'⟩ := entry_touch_cases hf hf'
          · exact .inr ⟨by rw [hof, decide_eq_true rfl], touched_touch hf p.header now⟩
          · exact .inl ⟨by rw [hof, decide_eq_false (Ne.symm hk)], hf'⟩
  | none =>
      have hof : ofFlow s.listeners k p = decide (appId p = k) := by simp only [ofFlow, hsvc]
      cases hf : s.entry (appId p) with
      | some f =>
          rw [handle_app outbound now allocated (h.diverts _ f hf) hf] at hf'
          obtain ⟨rfl, rfl⟩ | ⟨hk, hf'⟩ := entry_touch_cases hf hf'
          · exact .inr ⟨by rw [hof, decide_eq_true rfl], touched_touch hf p.header now⟩
          · exact .inl ⟨by rw [hof, decide_eq_false (Ne.symm hk)], hf'⟩
      | none =>
          obtain heq | ⟨svc, f, hsome, -, -⟩ | ⟨f, -, hsome, -⟩ | ⟨-, -, -, heq⟩ :=
            handle_cases s p outbound now allocated
          · rw [heq] at hf'
            refine .inl ⟨?_, hf'⟩
            rw [hof, decide_eq_false_iff_not]
            rintro rfl
            exact absurd (hf.symm.trans hf') (by simp)
          · exact absurd (hsvc.symm.trans hsome) (by simp)
          · exact absurd (hf.symm.trans hsome) (by simp)
          · have hrec := Divert.entry_record s (appId p) (appId p) now
            rw [if_pos rfl] at hrec
            rw [heq] at hf'
            obtain ⟨rfl, rfl⟩ | ⟨hk, hf'⟩ := entry_touch_cases hrec hf'
            · refine .inr ⟨by rw [hof, decide_eq_true rfl], rfl, fun hclosing => .inl ?_⟩
              simpa [Flow.touch] using hclosing
            · rw [Divert.entry_record, if_neg (Ne.symm hk)] at hf'
              exact .inl ⟨by rw [hof, decide_eq_false (Ne.symm hk)], hf'⟩

-- The entry of a TCP flow remembers its last packet, and it is marked as closing
-- only after a FIN or RST that no application SYN has followed.
structure IdleInv (l : Listeners) (events : List Event) (s : Divert) : Prop where
  divert : DivertInv s
  listeners : s.listeners = l
  last : ∀ k f, s.entry k = some f → lastPacket l k events = some f.last
  closing : ∀ k f, s.entry k = some f → f.closing = true → ¬OpenSinceSyn l k events

theorem idleInv_install (l : Listeners) (quic : List Quic) : IdleInv l [] (tppInstall l quic) := by
  have hnone : ∀ k, (tppInstall l quic).entry k = none := by
    intro k
    simp [Divert.entry, tppInstall, Chained.lookup]
  refine ⟨divertInv_install l quic, rfl, ?_, ?_⟩
  · intro k f hf
    rw [hnone] at hf
    cases hf
  · intro k f hf
    rw [hnone] at hf
    cases hf

-- An event that is no packet keeps or removes entries.
theorem IdleInv.silent {l : Listeners} {events : List Event} {s s' : Divert} (h : IdleInv l events s)
    (hdivert : DivertInv s') (hlisteners : s'.listeners = s.listeners)
    (hsub : ∀ k f, s'.entry k = some f → s.entry k = some f) {e : Event}
    (htime : ∀ k, packetTime l k e = none) (hsyn : ∀ k, isAppSyn l k e = false) :
    IdleInv l (events ++ [e]) s' := by
  refine ⟨hdivert, hlisteners.trans h.listeners, ?_, ?_⟩
  · intro k f hf
    rw [lastPacket_concat, htime, Option.none_or]
    exact h.last k f (hsub k f hf)
  · intro k f hf hclosing hopen
    obtain ⟨-, hnew | hold⟩ := openSinceSyn_concat hopen
    · rw [hsyn] at hnew
      cases hnew
    · exact h.closing k f (hsub k f hf) hclosing hold

theorem IdleInv.packet {l : Listeners} {events : List Event} {s : Divert} (h : IdleInv l events s)
    (p : Pkt) (outbound : Bool) (now : Int) (allocated : Bool)
    (hcond : ¬Reopens s (.packet p outbound now allocated)) :
    IdleInv l (events ++ [.packet p outbound now allocated]) (handle s p outbound now allocated).1 := by
  have hl := h.listeners
  refine ⟨h.divert.handle p outbound now allocated, (handle_listeners s p _ _ _).trans hl, ?_, ?_⟩
  · intro k f' hf'
    rw [lastPacket_concat, packetTime]
    obtain ⟨hof, hf⟩ | ⟨hof, hlast, -⟩ := entry_handle h.divert hf'
    · rw [← hl, hof, if_neg (by simp), Option.none_or, hl]
      exact h.last k f' hf
    · rw [← hl, hof, if_pos rfl, Option.some_or, hlast]
  · intro k f' hf' hclosing hopen
    obtain ⟨hquiet, hopen⟩ := openSinceSyn_concat hopen
    obtain ⟨hof, hf⟩ | ⟨hof, -, htouched⟩ := entry_handle h.divert hf'
    · obtain hnew | hold := hopen
      · -- An application SYN of the flow would be one of its packets.
        simp only [isAppSyn, Bool.and_eq_true, Option.isNone_iff_eq_none, decide_eq_true_eq,
          ← hl] at hnew
        obtain ⟨⟨hsvc, hid⟩, -⟩ := hnew
        simp only [ofFlow, hsvc, hid, decide_true, Bool.true_eq_false] at hof
      · exact h.closing k f' hf hclosing hold
    · obtain hnow | ⟨f, hf, hbefore⟩ := htouched hclosing
      · simp only [isClose, ← hl, hof, hnow, Bool.true_and, Bool.true_eq_false] at hquiet
      · obtain hnew | hold := hopen
        · simp only [isAppSyn, Bool.and_eq_true, decide_eq_true_eq] at hnew
          obtain ⟨⟨-, rfl⟩, hsyn⟩ := hnew
          exact hcond ⟨hsyn, f, hf, hbefore⟩
        · exact h.closing k f hf hbefore hold

theorem idleInv_step {l : Listeners} {events : List Event} {s : Divert} (h : IdleInv l events s)
    {e : Event} (hcond : ¬Reopens s e) : IdleInv l (events ++ [e]) (step s e).1 := by
  cases e with
  | packet p outbound now allocated => exact h.packet p outbound now allocated hcond
  | sweep now =>
      refine h.silent (h.divert.step _) rfl ?_ (fun _ => rfl) (fun _ => rfl)
      intro k f hf
      rw [entry_sweep h.divert] at hf
      exact (Option.filter_eq_some_iff.mp hf).1
  | quicBlock addrs now =>
      refine h.silent (h.divert.step (.quicBlock addrs now)) rfl ?_ (fun _ => rfl) (fun _ => rfl)
      intro k f hf
      exact hf
  | quicFlush =>
      refine h.silent (h.divert.step .quicFlush) rfl ?_ (fun _ => rfl) (fun _ => rfl)
      intro k f hf
      exact hf

theorem idleInv_run (l : Listeners) (quic : List Quic) (events : List Event)
    (hcond : ∀ before e after, events = before ++ e :: after →
      ¬Reopens (Machine.run step (tppInstall l quic) before).1 e) :
    IdleInv l events (Machine.run step (tppInstall l quic) events).1 := by
  induction events using List.reverseRecOn with
  | nil => exact idleInv_install l quic
  | append_singleton events e ih =>
      rw [Machine.run_concat]
      apply idleInv_step
      · apply ih
        intro before e' after heq
        exact hcond before e' (after ++ [e]) (by simp [heq])
      · exact hcond events e [] rfl

theorem sweep_removes_idle (l : Listeners) (quic : List Quic) (events : List Event)
    (hcond : ∀ before e after, events = before ++ e :: after →
      ¬Reopens (Machine.run step (tppInstall l quic) before).1 e)
    (before after : List Event) (now : Int) (hsweep : events = before ++ .sweep now :: after)
    (k : FlowId) (htcp : k.proto = .tcp) :
    let s := (Machine.run step (tppInstall l quic) before).1
    (s.entry k).isSome = true → ((step s (.sweep now)).1.entry k).isNone = true →
    OpenSinceSyn l k before →
    ∃ t, lastPacket l k before = some t ∧ now - t > FLOW_TCP_IDLE_MS := by
  intro s hlive hgone hopen
  have hinv : IdleInv l before s := by
    refine idleInv_run l quic before fun before' e after' heq => ?_
    exact hcond before' e (after' ++ .sweep now :: after) (by simp [hsweep, heq])
  obtain ⟨f, hf⟩ := Option.isSome_iff_exists.mp hlive
  refine ⟨f.last, hinv.last k f hf, ?_⟩
  have hclosing : f.closing = false := by
    cases hc : f.closing with
    | false => rfl
    | true => exact absurd hopen (hinv.closing k f hf hc)
  have hproto : f.proto = .tcp := (congrArg FlowId.proto (Divert.entry_id hf)).trans htcp
  have hlimit : f.limit = FLOW_TCP_IDLE_MS := by
    rw [Flow.limit, hproto, hclosing]
    rfl
  rw [entry_sweep hinv.divert, hf, Option.isNone_iff_eq_none, Option.filter_eq_none_iff] at hgone
  have hover := hgone f rfl
  rw [hlimit, Bool.not_eq_true, Bool.not_eq_false', decide_eq_true_eq] at hover
  exact hover

theorem sweep_removes_idle_web :
    let l := listenersAt 1091 (by decide) (by decide)
    let s := (Machine.run step (tppInstall l []) [.packet synPkt true 0 true]).1
    ((step s (.sweep 7200001)).1.entry (appId synPkt)).isNone = true ∧
    ∃ t, lastPacket l (appId synPkt) [.packet synPkt true 0 true] = some t ∧
      7200001 - t > FLOW_TCP_IDLE_MS := by
  intro l s
  have hgone : ((step s (.sweep 7200001)).1.entry (appId synPkt)).isNone = true := by
    decide +kernel
  refine ⟨hgone, ?_⟩
  refine sweep_removes_idle l [] [.packet synPkt true 0 true, .sweep 7200001] ?_
    [.packet synPkt true 0 true] [] 7200001 rfl (appId synPkt) rfl (by decide +kernel) hgone ?_
  · intro before e after heq
    rcases before with _ | ⟨e₁, _ | ⟨e₂, before⟩⟩
    · obtain ⟨rfl, -⟩ := List.cons.inj heq
      rintro ⟨-, f, hf, -⟩
      simp [Machine.run, Divert.entry, tppInstall, Chained.lookup] at hf
    · obtain ⟨rfl, -⟩ := List.cons.inj (List.cons.inj heq).2
      exact id
    · simp at heq
  · exact ⟨[], .packet synPkt true 0 true, [], rfl, by decide +kernel, by decide +kernel⟩

def finPkt : Pkt :=
  ⟨.inet, [10, 0, 0, 5], [93, 184, 216, 34], [], .tcp ⟨htons 50000, htons 443, false, true, true,
    false, []⟩, []⟩

-- The second connection on the 4-tuple is swept 31 seconds after its SYN.
theorem reused_flow_swept :
    let l := listenersAt 1091 (by decide) (by decide)
    let events : List Event := [.packet synPkt true 0 true, .packet finPkt true 1000 true,
      .packet synPkt true 2000 true]
    let s := (Machine.run step (tppInstall l []) events).1
    (appId synPkt).proto = .tcp ∧
    (s.entry (appId synPkt)).isSome = true ∧
    ((step s (.sweep 33000)).1.entry (appId synPkt)).isNone = true ∧
    OpenSinceSyn l (appId synPkt) events ∧
    lastPacket l (appId synPkt) events = some 2000 ∧ ¬(33000 - 2000 > FLOW_TCP_IDLE_MS) := by
  intro l events s
  refine ⟨rfl, by decide +kernel, by decide +kernel, ?_, by decide +kernel, by decide⟩
  exact ⟨[.packet synPkt true 0 true, .packet finPkt true 1000 true], .packet synPkt true 2000 true,
    [], rfl, by decide +kernel, by decide +kernel⟩

end DpiProxy.Transparent.Windows
