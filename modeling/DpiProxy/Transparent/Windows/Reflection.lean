import DpiProxy.Transparent.Windows.Lemmas

namespace DpiProxy.Transparent.Windows

open Wire

-- Who sends a packet to whom; ports in network order.
structure Tuple where
  proto : Proto
  family : AddrFamily
  src : Bytes
  sport : UInt16
  dst : Bytes
  dport : UInt16
deriving DecidableEq, Repr

def Tuple.reverse (t : Tuple) : Tuple := ⟨t.proto, t.family, t.dst, t.dport, t.src, t.sport⟩

def Pkt.tuple (p : Pkt) : Tuple :=
  ⟨p.header.proto, p.family, p.src, p.header.srcPort, p.dst, p.header.dstPort⟩

-- D:p -> A:listener(svc) for the flow A:p -> D:svc.
def reflectedTuple (l : Listeners) (k : FlowId) : Tuple :=
  ⟨k.proto, k.family, k.remote, k.lport, k.localAddr, htons (listenerPort l k.oport)⟩

@[simp] theorem htons_ntohs (port : UInt16) : htons (ntohs port) = port := ntohs_htons port

@[simp] theorem Header.proto_withDstPort (h : Header) (port : UInt16) :
    (h.withDstPort port).proto = h.proto := by cases h <;> rfl

@[simp] theorem Header.srcPort_withDstPort (h : Header) (port : UInt16) :
    (h.withDstPort port).srcPort = h.srcPort := by cases h <;> rfl

@[simp] theorem Header.dstPort_withDstPort (h : Header) (port : UInt16) :
    (h.withDstPort port).dstPort = port := by cases h <;> rfl

@[simp] theorem Header.proto_withSrcPort (h : Header) (port : UInt16) :
    (h.withSrcPort port).proto = h.proto := by cases h <;> rfl

@[simp] theorem Header.srcPort_withSrcPort (h : Header) (port : UInt16) :
    (h.withSrcPort port).srcPort = port := by cases h <;> rfl

@[simp] theorem Header.dstPort_withSrcPort (h : Header) (port : UInt16) :
    (h.withSrcPort port).dstPort = h.dstPort := by cases h <;> rfl

theorem tuple_reflected (l : Listeners) (p : Pkt) :
    (reflected l p).tuple = reflectedTuple l (appId p) := by
  simp [reflected, Pkt.tuple, reflectedTuple, appId]

theorem divertible_oport {l : Listeners} {k : FlowId} (h : divertible l k = true) :
    (k.oport = 443 ∧ k.proto = .tcp) ∨ (k.oport = 53 ∧ 0 < l.dnsPort) := by
  by_cases hweb : k.oport = 443 ∧ k.proto = .tcp
  · exact .inl hweb
  · simp only [divertible, if_neg hweb, Bool.and_eq_true, decide_eq_true_eq] at h
    exact .inr h.1.2

theorem listenerPort_toNat (l : Listeners) (svc : UInt16) :
    (listenerPort l svc).toNat = if svc = 443 then l.port else l.dnsPort := by
  have h₁ := l.port_lt
  have h₂ := l.dnsPort_lt
  rw [listenerPort, UInt16.toNat_ofNat']
  split <;> omega

-- A packet from the listener of a flow's service is taken for one.
theorem listenerService_of_flow {l : Listeners} (hports : l.port ≠ l.dnsPort) {k : FlowId}
    (hdiv : divertible l k = true) {sport : UInt16} (hs : ntohs sport = listenerPort l k.oport) :
    listenerService l k.proto sport = some k.oport := by
  have hnum := listenerPort_toNat l k.oport
  rw [← hs] at hnum
  unfold listenerService
  obtain ⟨hsvc, htcp⟩ | ⟨hsvc, hdns⟩ := divertible_oport hdiv
  · rw [hsvc, if_pos rfl] at hnum
    rw [if_pos ⟨hnum, htcp⟩, hsvc]
  · rw [hsvc, if_neg (by decide)] at hnum
    have hne : ¬((ntohs sport).toNat = l.port ∧ k.proto = .tcp) := by
      rintro ⟨hport, -⟩
      exact hports (hport.symm.trans hnum)
    rw [if_neg hne, if_pos ⟨hdns, hnum⟩, hsvc]

-- The listeners' ports tell the services apart, so the flow can be read off the
-- reflected tuple.
theorem reflectedTuple_inj {l : Listeners} (hports : l.port ≠ l.dnsPort) {k₁ k₂ : FlowId}
    (h₁ : divertible l k₁ = true) (h₂ : divertible l k₂ = true)
    (h : reflectedTuple l k₁ = reflectedTuple l k₂) : k₁ = k₂ := by
  obtain ⟨proto₁, family₁, local₁, lport₁, remote₁, oport₁⟩ := k₁
  obtain ⟨proto₂, family₂, local₂, lport₂, remote₂, oport₂⟩ := k₂
  simp only [reflectedTuple, Tuple.mk.injEq] at h
  obtain ⟨rfl, rfl, rfl, rfl, rfl, hport⟩ := h
  have hsame : (listenerPort l oport₁).toNat = (listenerPort l oport₂).toNat := by
    have heq := congrArg ntohs hport
    rw [ntohs_htons, ntohs_htons] at heq
    rw [heq]
  rw [listenerPort_toNat, listenerPort_toNat] at hsame
  have hsvc : oport₁ = oport₂ := by
    obtain ⟨hs₁, -⟩ | ⟨hs₁, -⟩ := divertible_oport h₁ <;>
      obtain ⟨hs₂, -⟩ | ⟨hs₂, -⟩ := divertible_oport h₂ <;>
      dsimp only at hs₁ hs₂ <;> subst hs₁ hs₂
    · rfl
    · exact absurd hsame hports
    · exact absurd hsame.symm hports
    · rfl
  rw [hsvc]

-- Nothing but a sweep removes a flow.
theorem entry_step {s : Divert} {k : FlowId} (h : (s.entry k).isSome = true) {event : Event}
    (hevent : ∀ now, event ≠ .sweep now) : ((step s event).1.entry k).isSome = true := by
  have htouch : ∀ (s : Divert) k', (s.entry k).isSome = true → ∀ header now,
      ((s.touch k' header now).entry k).isSome = true := by
    intro s k' hs header now
    rw [Divert.entry_touch]
    split
    · rename_i hk
      rw [Option.isSome_map, ← hk]
      exact hs
    · exact hs
  cases event with
  | packet p outbound now allocated =>
      show ((handle s p outbound now allocated).1.entry k).isSome = true
      obtain heq | ⟨svc, f, -, -, heq⟩ | ⟨f, -, -, heq⟩ | ⟨-, hnone, -, heq⟩ :=
        handle_cases s p outbound now allocated
      · rw [heq]
        exact h
      · rw [heq]
        exact htouch s _ h _ _
      · rw [heq]
        exact htouch s _ h _ _
      · rw [heq]
        refine htouch _ _ ?_ _ _
        rw [Divert.entry_record]
        split
        · rfl
        · exact h
  | sweep now => exact absurd rfl (hevent now)
  | quicBlock addrs now => exact h
  | quicFlush => exact h

theorem entry_run {k : FlowId} (events : List Event) : ∀ s : Divert, (s.entry k).isSome = true →
    (∀ now, Event.sweep now ∉ events) → ((Machine.run step s events).1.entry k).isSome = true := by
  induction events with
  | nil =>
      intro s h _
      exact h
  | cons event events ih =>
      intro s h hevents
      refine ih _ (entry_step h ?_) ?_
      · intro now hnow
        exact hevents now (hnow ▸ List.mem_cons_self)
      · intro now hmem
        exact hevents now (List.mem_cons_of_mem _ hmem)

-- A packet whose flow is recorded once it was handled has been reflected.
theorem handle_recorded {s : Divert} (h : DivertInv s) {p : Pkt} {outbound : Bool} {now : Int}
    {allocated : Bool}
    (hrec : ((handle s p outbound now allocated).1.entry (appId p)).isSome = true) :
    divertible s.listeners (appId p) = true ∧
      (handle s p outbound now allocated).2 = ⟨true, reflected s.listeners p, false⟩ := by
  have hdiv : divertible s.listeners (appId p) = true := by
    obtain ⟨f, hf⟩ := Option.isSome_iff_exists.mp hrec
    have hafter := (h.handle p outbound now allocated).diverts _ f hf
    rwa [handle_listeners] at hafter
  refine ⟨hdiv, ?_⟩
  cases hf : s.entry (appId p) with
  | some f => rw [handle_app outbound now allocated hdiv hf]
  | none =>
      by_cases hfirst : (p.header.proto = .udp ∨ p.header.bareSyn = true) ∧ allocated = true
      · obtain ⟨hfirst, rfl⟩ := hfirst
        rw [handle_first outbound now hdiv hf hfirst]
      · have hlater : (p.header.proto = .tcp ∧ p.header.bareSyn = false) ∨ allocated = false := by
          cases hproto : p.header.proto <;> cases allocated <;> simp_all
        rw [handle_unrecorded outbound now allocated hdiv hf hlater, hf] at hrec
        cases hrec

-- The answer to a reflected packet goes back to the application.
theorem handle_answered {s : Divert} (h : DivertInv s)
    (hports : s.listeners.port ≠ s.listeners.dnsPort) {k : FlowId}
    (hk : (s.entry k).isSome = true) {q : Pkt}
    (hq : q.tuple = (reflectedTuple s.listeners k).reverse) (outbound : Bool) (now : Int)
    (allocated : Bool) :
    (handle s q outbound now allocated).2 = ⟨true, answered q k.oport, false⟩ := by
  obtain ⟨f, hf⟩ := Option.isSome_iff_exists.mp hk
  simp only [Pkt.tuple, reflectedTuple, Tuple.reverse, Tuple.mk.injEq] at hq
  obtain ⟨hproto, hfamily, hsrc, hsport, hdst, hdport⟩ := hq
  have hid : listenerId q k.oport = k := by
    simp only [listenerId, hproto, hfamily, hsrc, hdport, hdst]
  have hs : ntohs q.header.srcPort = listenerPort s.listeners k.oport := by
    rw [hsport, ntohs_htons]
  have hsvc : listenerService s.listeners q.header.proto q.header.srcPort = some k.oport := by
    rw [hproto]
    exact listenerService_of_flow hports (h.diverts k f hf) hs
  rw [handle_answer outbound now allocated hsvc (hid.symm ▸ hf)]

-- No packet is changed that is of no recorded flow and cannot start one.
theorem handle_unmatched {s : Divert} {p : Pkt} (outbound : Bool) (now : Int) (allocated : Bool)
    (hlistener : ∀ svc, listenerService s.listeners p.header.proto p.header.srcPort = some svc →
      s.entry (listenerId p svc) = none)
    (happ : (s.entry (appId p)).isNone = true ∨ ownPort p.header.srcPort = true)
    (hstart : ownPort p.header.srcPort = true ∨ p.header.bareSyn = false ∧
      ¬(p.header.proto = .udp ∧ ntohs p.header.dstPort = 53)) :
    ∃ sent, handle s p outbound now allocated = (s, ⟨sent, p, outbound⟩) ∧
      (sent = false → p.header.proto = .udp ∧ ntohs p.header.dstPort = 443 ∧
        quicBlocked s.quic p.family p.dst now = true) := by
  cases hsvc : listenerService s.listeners p.header.proto p.header.srcPort with
  | some svc =>
      exact ⟨true, handle_stray outbound now allocated hsvc (hlistener svc hsvc), by simp⟩
  | none =>
      cases hdiv : divertible s.listeners (appId p) with
      | false =>
          refine ⟨_, handle_other outbound now allocated hsvc hdiv, ?_⟩
          intro hdrop
          simp only [Bool.not_eq_false', Bool.and_eq_true, decide_eq_true_eq] at hdrop
          exact ⟨hdrop.1.1.1.1, hdrop.1.1.1.2, hdrop.2⟩
      | true =>
          have hown : ownPort p.header.srcPort = false := by
            rw [divertible_appId] at hdiv
            simp only [Bool.and_eq_true, Bool.not_eq_true'] at hdiv
            exact hdiv.1.2
          simp only [hown, Bool.false_eq_true, or_false, false_or] at happ hstart
          have hproto : p.header.proto = .tcp := by
            cases hproto : p.header.proto with
            | tcp => rfl
            | udp =>
                obtain ⟨-, htcp⟩ | ⟨hport, -⟩ := divertible_oport hdiv
                · exact absurd (hproto.symm.trans htcp) (by decide)
                · exact absurd ⟨hproto, hport⟩ hstart.2
          exact ⟨true, handle_unrecorded outbound now allocated hdiv
            (Option.isNone_iff_eq_none.mp happ) (.inl ⟨hproto, hstart.1⟩), by simp⟩

theorem tuple_answered {l : Listeners} {p q : Pkt}
    (hq : q.tuple = (reflectedTuple l (appId p)).reverse) :
    (answered q (ntohs p.header.dstPort)).tuple = p.tuple.reverse := by
  simp only [Pkt.tuple, reflectedTuple, appId, Tuple.reverse, Tuple.mk.injEq] at hq
  obtain ⟨hproto, hfamily, hsrc, -, hdst, hdport⟩ := hq
  simp only [Pkt.tuple, answered, Tuple.reverse, Header.proto_withSrcPort,
    Header.srcPort_withSrcPort, Header.dstPort_withSrcPort, htons_ntohs, hproto, hfamily, hsrc, hdst,
    hdport]

theorem reflection_translates (l : Listeners) (quic : List Quic) (hports : l.port ≠ l.dnsPort)
    (before : List Event) :
    let s := (Machine.run step (tppInstall l quic) before).1
    (∀ (p : Pkt) (outbound : Bool) (now : Int) (allocated : Bool),
      let after := handle s p outbound now allocated
      (after.1.entry (appId p)).isSome = true →
      ((ntohs p.header.dstPort = 443 ∧ p.header.proto = .tcp) ∨ ntohs p.header.dstPort = 53) ∧
      after.2 = ⟨true, reflected l p, false⟩ ∧
      (reflected l p).tuple = ⟨p.header.proto, p.family, p.dst, p.header.srcPort, p.src,
        htons (listenerPort l (ntohs p.header.dstPort))⟩ ∧
      ∀ (later : List Event) (q : Pkt) (outbound' : Bool) (now' : Int) (allocated' : Bool),
        let s' := (Machine.run step after.1 later).1
        q.tuple = (reflected l p).tuple.reverse →
        (∀ t, Event.sweep t ∉ later) ∨ (s'.entry (appId p)).isSome = true →
        (handle s' q outbound' now' allocated').2 =
          ⟨true, answered q (ntohs p.header.dstPort), false⟩ ∧
        (answered q (ntohs p.header.dstPort)).tuple = p.tuple.reverse) ∧
    (∀ k₁ k₂, (s.entry k₁).isSome = true → (s.entry k₂).isSome = true →
      reflectedTuple l k₁ = reflectedTuple l k₂ → k₁ = k₂) ∧
    (∀ (p : Pkt) (outbound : Bool) (now : Int) (allocated : Bool),
      (ownPort p.header.srcPort = true ∧
        listenerService l p.header.proto p.header.srcPort = none) ∨
      ((∀ svc, listenerService l p.header.proto p.header.srcPort = some svc →
          s.entry (listenerId p svc) = none) ∧
        s.entry (appId p) = none ∧ p.header.bareSyn = false ∧
        ¬(p.header.proto = .udp ∧ ntohs p.header.dstPort = 53)) →
      ∃ sent, handle s p outbound now allocated = (s, ⟨sent, p, outbound⟩) ∧
        (sent = false → p.header.proto = .udp ∧ ntohs p.header.dstPort = 443 ∧
          quicBlocked s.quic p.family p.dst now = true)) := by
  intro s
  have hinv : DivertInv s := run_divertInv l quic before
  have hl : s.listeners = l := run_listeners (tppInstall l quic) before
  refine ⟨?_, ?_, ?_⟩
  · intro p outbound now allocated after hrec
    obtain ⟨hdiv, hafter⟩ := handle_recorded hinv hrec
    rw [hl] at hdiv hafter
    refine ⟨?_, hafter, tuple_reflected l p, ?_⟩
    · obtain hweb | ⟨hdns, -⟩ := divertible_oport hdiv
      · exact .inl hweb
      · exact .inr hdns
    · intro later q outbound' now' allocated' s' hq hlive
      rw [tuple_reflected] at hq
      have hk : (s'.entry (appId p)).isSome = true := by
        obtain hnone | hlive := hlive
        · exact entry_run later after.1 hrec hnone
        · exact hlive
      have hinv' : DivertInv s' := by
        refine Machine.run_invariant step (fun _ _ s => DivertInv s)
          (hinv.handle p outbound now allocated) ?_ later
        intro es os s event h
        exact h.step event
      have hl' : s'.listeners = l := by
        rw [show s'.listeners = after.1.listeners from run_listeners after.1 later]
        exact (handle_listeners s p outbound now allocated).trans hl
      refine ⟨?_, tuple_answered hq⟩
      exact handle_answered hinv' (hl'.symm ▸ hports) hk (hl'.symm ▸ hq) outbound' now' allocated'
  · intro k₁ k₂ h₁ h₂ heq
    obtain ⟨f₁, hf₁⟩ := Option.isSome_iff_exists.mp h₁
    obtain ⟨f₂, hf₂⟩ := Option.isSome_iff_exists.mp h₂
    exact reflectedTuple_inj hports (hl ▸ hinv.diverts k₁ f₁ hf₁) (hl ▸ hinv.diverts k₂ f₂ hf₂) heq
  · intro p outbound now allocated hp
    obtain ⟨hown, hsvc⟩ | ⟨hlistener, happ, hsyn, hdns⟩ := hp
    · refine handle_unmatched outbound now allocated ?_ (.inr hown) (.inl hown)
      intro svc hsome
      rw [hl, hsvc] at hsome
      cases hsome
    · refine handle_unmatched outbound now allocated ?_ (.inl ?_) (.inr ⟨hsyn, hdns⟩)
      · rw [hl]
        exact hlistener
      · rw [happ]
        rfl

def listenersAt (port : Nat) (h₁ : 0 < port) (h₂ : port < 65536) : Listeners :=
  ⟨port, 1053, true, h₁, h₂, by decide⟩

-- 10.0.0.5 opens a connection to a server, and the listener answers.
def synPkt : Pkt :=
  ⟨.inet, [10, 0, 0, 5], [93, 184, 216, 34], [], .tcp ⟨htons 50000, htons 443, true, false, false,
    false, []⟩, []⟩

def synAckPkt (port : UInt16) : Pkt :=
  ⟨.inet, [10, 0, 0, 5], [93, 184, 216, 34], [], .tcp ⟨htons port, htons 50000, true, true, false,
    false, []⟩, []⟩

theorem reflection_translates_web :
    let l := listenersAt 1091 (by decide) (by decide)
    let after := handle (tppInstall l []) synPkt true 0 true
    (after.1.entry (appId synPkt)).isSome = true ∧
    (handle after.1 (synAckPkt 1091) true 1 true).2 =
      ⟨true, answered (synAckPkt 1091) 443, false⟩ := by
  intro l after
  have hrec : (after.1.entry (appId synPkt)).isSome = true := by decide +kernel
  have hall := (reflection_translates l [] (by decide) []).1 synPkt true 0 true hrec
  have hback := hall.2.2.2 [] (synAckPkt 1091) true 1 true (by decide +kernel) (.inl (by simp))
  exact ⟨hrec, hback.1⟩

-- A listener on a port of the daemon's own range answers from that range, and its
-- answers are rewritten.
theorem own_range_listener_rewritten :
    let l := listenersAt 45000 (by decide) (by decide)
    let after := handle (tppInstall l []) synPkt true 0 true
    ownPort (synAckPkt 45000).header.srcPort = true ∧
    (handle after.1 (synAckPkt 45000) true 1 true).2.pkt ≠ synAckPkt 45000 := by
  decide +kernel

end DpiProxy.Transparent.Windows
