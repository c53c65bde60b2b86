import DpiProxy.Transparent.Windows

namespace DpiProxy.Transparent.Windows

open Wire

theorem ntohs_toNat (port : UInt16) :
    (ntohs port).toNat = port.toNat % 256 * 256 + port.toNat / 256 := by
  have hlt := port.toNat_lt
  rw [ntohs, UInt16.toNat_ofNat', Nat.mod_eq_of_lt (by omega)]

@[simp] theorem ntohs_htons (port : UInt16) : ntohs (htons port) = port := by
  have hlt := port.toNat_lt
  apply UInt16.toNat.inj
  rw [htons, ntohs_toNat, ntohs_toNat]
  omega

-- The entry that a search for a flow finds.
def Divert.entry (s : Divert) (k : FlowId) : Option Flow :=
  Chained.lookup Flow.toFlowId FlowId.bucket s.flows k

theorem find_eq_lookup (flows : Flows) (k : FlowId) :
    k.find flows = Chained.lookup Flow.toFlowId FlowId.bucket flows k := by
  unfold FlowId.find find Chained.lookup FlowId.bucket
  congr 1
  funext f
  obtain ⟨⟨proto, family, localAddr, lport, remote, oport⟩, closing, last⟩ := f
  obtain ⟨proto', family', localAddr', lport', remote', oport'⟩ := k
  rw [Bool.eq_iff_iff]
  simp only [Option.isNone_some, Bool.false_or, Bool.and_eq_true, decide_eq_true_eq, FlowId.mk.injEq,
    Option.some.injEq]
  constructor
  · rintro ⟨⟨⟨⟨⟨rfl, rfl⟩, rfl⟩, rfl⟩, rfl⟩, rfl⟩
    exact ⟨rfl, rfl, rfl, rfl, rfl, rfl⟩
  · rintro ⟨rfl, rfl, rfl, rfl, rfl, rfl⟩
    exact ⟨⟨⟨⟨⟨rfl, rfl⟩, rfl⟩, rfl⟩, rfl⟩, rfl⟩

theorem Divert.entry_id {s : Divert} {k : FlowId} {f : Flow} (h : s.entry k = some f) :
    f.toFlowId = k := Chained.lookup_key h

-- The flow of a packet of the application, and of a packet of a service's listener.
def appId (p : Pkt) : FlowId :=
  ⟨p.header.proto, p.family, p.src, p.header.srcPort, p.dst, ntohs p.header.dstPort⟩

def listenerId (p : Pkt) (svc : UInt16) : FlowId :=
  ⟨p.header.proto, p.family, p.src, p.header.dstPort, p.dst, svc⟩

-- The packets of a flow that handle gets as far as the flow table.
def divertible (l : Listeners) (k : FlowId) : Bool :=
  (listenerService l k.proto k.lport).isNone && !ownPort k.lport &&
    (if k.oport = 443 ∧ k.proto = .tcp then
      !((k.family = .inet && privateV4 k.remote) || (k.family = .inet6 && privateV6 k.remote))
    else k.oport = 53 && decide (l.dnsPort > 0)) &&
    !(k.family = .inet6 && !l.ipv6)

theorem divertible_appId (l : Listeners) (p : Pkt) : divertible l (appId p) =
    ((listenerService l p.header.proto p.header.srcPort).isNone && !ownPort p.header.srcPort &&
      reflects l p) := by
  unfold divertible reflects
  by_cases h : ntohs p.header.dstPort = 443 ∧ p.header.proto = .tcp
  · have h' : (appId p).oport = 443 ∧ (appId p).proto = .tcp := h
    rw [if_pos h, if_pos h', Bool.and_assoc, ← Bool.not_or]
    rfl
  · have h' : ¬((appId p).oport = 443 ∧ (appId p).proto = .tcp) := h
    rw [if_neg h, if_neg h', Bool.and_assoc]
    rfl

-- A packet of the QUIC rule is of no flow.
theorem divertible_not_quic {l : Listeners} {p : Pkt} (h : divertible l (appId p) = true) :
    ¬(p.header.proto = .udp ∧ ntohs p.header.dstPort = 443) := by
  rintro ⟨hudp, hport⟩
  simp [divertible, appId, hudp, hport] at h

def Divert.touch (s : Divert) (k : FlowId) (header : Header) (now : Int) : Divert :=
  { s with flows := Chained.write Flow.toFlowId FlowId.bucket s.flows k (Flow.touch header now) }

def Divert.record (s : Divert) (k : FlowId) (now : Int) : Divert :=
  { s with
    flows := Chained.push Flow.toFlowId FlowId.bucket s.flows
      { toFlowId := k, closing := false, last := now } }

-- The packet D:p -> A:listener(svc) made of A:p -> D:svc.
def reflected (l : Listeners) (p : Pkt) : Pkt :=
  { p with
    src := p.dst
    dst := p.src
    header := p.header.withDstPort (htons (listenerPort l (ntohs p.header.dstPort))) }

-- The packet D:svc -> A:p made of A:listener(svc) -> D:p.
def answered (p : Pkt) (svc : UInt16) : Pkt :=
  { p with src := p.dst, dst := p.src, header := p.header.withSrcPort (htons svc) }

section Handle

variable {s : Divert} {p : Pkt} (outbound : Bool) (now : Int) (allocated : Bool)

theorem handle_answer {svc : UInt16} {f : Flow}
    (hsvc : listenerService s.listeners p.header.proto p.header.srcPort = some svc)
    (hf : s.entry (listenerId p svc) = some f) :
    handle s p outbound now allocated =
      (s.touch (listenerId p svc) p.header now, ⟨true, answered p svc, false⟩) := by
  have hfind : find s.flows p.header.proto p.family (some p.src) p.header.dstPort p.dst svc = some f :=
    (find_eq_lookup s.flows (listenerId p svc)).trans hf
  simp only [handle, hsvc, hfind, touchFlow, Divert.entry_id hf]
  rfl

theorem handle_stray {svc : UInt16}
    (hsvc : listenerService s.listeners p.header.proto p.header.srcPort = some svc)
    (hf : s.entry (listenerId p svc) = none) :
    handle s p outbound now allocated = (s, ⟨true, p, outbound⟩) := by
  have hfind : find s.flows p.header.proto p.family (some p.src) p.header.dstPort p.dst svc = none :=
    (find_eq_lookup s.flows (listenerId p svc)).trans hf
  simp only [handle, hsvc, hfind]

theorem handle_divertible (h : divertible s.listeners (appId p) = true) :
    handle s p outbound now allocated =
      (let k := appId p
      let flows :=
        if (k.find s.flows).isNone && (p.header.proto = .udp || p.header.bareSyn) then
          addFlow s.flows k now allocated
        else s.flows
      match k.find flows with
      | none => ({ s with flows := flows }, ⟨true, p, outbound⟩)
      | some f =>
          ({ s with flows := touchFlow flows f p.header now },
            ⟨true, reflected s.listeners p, false⟩)) := by
  have hquic := divertible_not_quic h
  rw [divertible_appId] at h
  simp only [Bool.and_eq_true, Option.isNone_iff_eq_none, Bool.not_eq_true'] at h
  obtain ⟨⟨hsvc, hown⟩, hreflects⟩ := h
  simp only [handle, hsvc, if_neg hquic, hown, hreflects]
  rfl

theorem handle_app (h : divertible s.listeners (appId p) = true) {f : Flow}
    (hf : s.entry (appId p) = some f) :
    handle s p outbound now allocated =
      (s.touch (appId p) p.header now, ⟨true, reflected s.listeners p, false⟩) := by
  have hfind : (appId p).find s.flows = some f := (find_eq_lookup _ _).trans hf
  rw [handle_divertible outbound now allocated h]
  simp only [hfind, Option.isNone_some, Bool.false_and, Bool.false_eq_true, if_false, touchFlow,
    Divert.entry_id hf]
  rfl

theorem handle_first (h : divertible s.listeners (appId p) = true) (hf : s.entry (appId p) = none)
    (hfirst : p.header.proto = .udp ∨ p.header.bareSyn = true) :
    handle s p outbound now true =
      ((s.record (appId p) now).touch (appId p) p.header now,
        ⟨true, reflected s.listeners p, false⟩) := by
  have hfind : (appId p).find s.flows = none := (find_eq_lookup _ _).trans hf
  have hadd : addFlow s.flows (appId p) now true = (s.record (appId p) now).flows := by
    simp only [addFlow, hfind, if_true]
    rfl
  have hnew : (appId p).find (s.record (appId p) now).flows =
      some { toFlowId := appId p, closing := false, last := now } := by
    rw [find_eq_lookup]
    exact (Chained.lookup_push _ _).trans (if_pos rfl)
  have hcond : (decide (p.header.proto = .udp) || p.header.bareSyn) = true := by
    rw [Bool.or_eq_true, decide_eq_true_eq]
    exact hfirst
  rw [handle_divertible outbound now true h]
  simp only [hfind, Option.isNone_none, Bool.true_and, hcond, if_true, hadd, hnew]
  rfl

theorem handle_unrecorded (h : divertible s.listeners (appId p) = true)
    (hf : s.entry (appId p) = none)
    (hlater : (p.header.proto = .tcp ∧ p.header.bareSyn = false) ∨ allocated = false) :
    handle s p outbound now allocated = (s, ⟨true, p, outbound⟩) := by
  have hfind : (appId p).find s.flows = none := (find_eq_lookup _ _).trans hf
  have hsame : (if (decide (p.header.proto = .udp) || p.header.bareSyn) = true then
      addFlow s.flows (appId p) now allocated else s.flows) = s.flows := by
    split
    · rename_i hcond
      obtain ⟨htcp, hsyn⟩ | hfailed := hlater
      · simp [htcp, hsyn] at hcond
      · simp only [addFlow, hfind, hfailed, Bool.false_eq_true, if_false]
    · rfl
  rw [handle_divertible outbound now allocated h]
  simp only [hfind, Option.isNone_none, Bool.true_and, hsame]

-- The QUIC rule drops a packet or lets it pass as it is.
theorem handle_other (hsvc : listenerService s.listeners p.header.proto p.header.srcPort = none)
    (h : divertible s.listeners (appId p) = false) :
    handle s p outbound now allocated =
      (s, ⟨!(decide (p.header.proto = .udp ∧ ntohs p.header.dstPort = 443) &&
        decide (0 < p.payload.length) && decide (byte p.payload 0 ≥ 0xC0) &&
          quicBlocked s.quic p.family p.dst now), p, outbound⟩) := by
  simp only [handle, hsvc]
  by_cases hquic : p.header.proto = .udp ∧ ntohs p.header.dstPort = 443
  · rw [if_pos hquic, decide_eq_true hquic, Bool.true_and]
  · rw [if_neg hquic, decide_eq_false hquic]
    by_cases hown : ownPort p.header.srcPort = true
    · rw [if_pos hown]
      simp
    · rw [if_neg hown]
      have hreflects : reflects s.listeners p = false := by
        rw [divertible_appId, hsvc] at h
        simpa [hown] using h
      rw [if_pos (by rw [hreflects]; rfl)]
      simp

-- What one packet does to the flow table: it leaves it alone, or one flow is
-- touched, which is there already or recorded for the packet.
theorem handle_cases (s : Divert) (p : Pkt) (outbound : Bool) (now : Int) (allocated : Bool) :
    (handle s p outbound now allocated).1 = s ∨
    (∃ svc f, listenerService s.listeners p.header.proto p.header.srcPort = some svc ∧
      s.entry (listenerId p svc) = some f ∧
      (handle s p outbound now allocated).1 = s.touch (listenerId p svc) p.header now) ∨
    (∃ f, divertible s.listeners (appId p) = true ∧ s.entry (appId p) = some f ∧
      (handle s p outbound now allocated).1 = s.touch (appId p) p.header now) ∨
    (divertible s.listeners (appId p) = true ∧ s.entry (appId p) = none ∧
      (p.header.proto = .udp ∨ p.header.bareSyn = true) ∧
      (handle s p outbound now allocated).1 =
        (s.record (appId p) now).touch (appId p) p.header now) := by
  cases hsvc : listenerService s.listeners p.header.proto p.header.srcPort with
  | some svc =>
      cases hf : s.entry (listenerId p svc) with
      | none => exact .inl (by rw [handle_stray outbound now allocated hsvc hf])
      | some f =>
          exact .inr (.inl ⟨svc, f, rfl, hf, by rw [handle_answer outbound now allocated hsvc hf]⟩)
  | none =>
      cases hdiv : divertible s.listeners (appId p) with
      | false => exact .inl (by rw [handle_other outbound now allocated hsvc hdiv])
      | true =>
          cases hf : s.entry (appId p) with
          | some f =>
              exact .inr (.inr (.inl ⟨f, rfl, rfl, by rw [handle_app outbound now allocated hdiv hf]⟩))
          | none =>
              by_cases hfirst : p.header.proto = .udp ∨ p.header.bareSyn = true
              · cases allocated with
                | true =>
                    exact .inr (.inr (.inr ⟨rfl, rfl, hfirst, by
                      rw [handle_first outbound now hdiv hf hfirst]⟩))
                | false =>
                    exact .inl (by rw [handle_unrecorded outbound now false hdiv hf (.inr rfl)])
              · rw [not_or] at hfirst
                have htcp : p.header.proto = .tcp := by
                  cases hproto : p.header.proto with
                  | tcp => rfl
                  | udp => exact absurd hproto hfirst.1
                exact .inl (by rw [handle_unrecorded outbound now allocated hdiv hf
                  (.inl ⟨htcp, by simpa using hfirst.2⟩)])

end Handle

theorem Divert.entry_touch (s : Divert) (k k' : FlowId) (header : Header) (now : Int) :
    (s.touch k header now).entry k' =
      if k' = k then (s.entry k).map (Flow.touch header now) else s.entry k' := by
  apply Chained.lookup_write
  intro f
  rfl

theorem Divert.entry_record (s : Divert) (k k' : FlowId) (now : Int) :
    (s.record k now).entry k' =
      if k = k' then some { toFlowId := k, closing := false, last := now } else s.entry k' :=
  Chained.lookup_push _ k'

-- The table is well formed, and it holds only flows that handle diverts.
structure DivertInv (s : Divert) : Prop where
  wellFormed : Chained.WellFormed Flow.toFlowId FlowId.bucket s.flows
  diverts : ∀ k f, s.entry k = some f → divertible s.listeners k = true

theorem divertInv_install (listeners : Listeners) (quic : List Quic) :
    DivertInv (tppInstall listeners quic) where
  wellFormed := Chained.wellFormed_empty
  diverts := by
    intro k f h
    simp [Divert.entry, tppInstall, Chained.lookup] at h

theorem DivertInv.touch {s : Divert} (h : DivertInv s) (k : FlowId) (header : Header) (now : Int) :
    DivertInv (s.touch k header now) where
  wellFormed := h.wellFormed.write (by intro f; rfl)
  diverts := by
    intro k' f hf
    rw [Divert.entry_touch] at hf
    split at hf
    · rename_i hk
      obtain ⟨f', hf', -⟩ := Option.map_eq_some_iff.mp hf
      rw [hk]
      exact h.diverts k f' hf'
    · exact h.diverts k' f hf

theorem DivertInv.record {s : Divert} (h : DivertInv s) {k : FlowId} (hnone : s.entry k = none)
    (hdiv : divertible s.listeners k = true) (now : Int) : DivertInv (s.record k now) where
  wellFormed := h.wellFormed.push hnone
  diverts := by
    intro k' f hf
    rw [Divert.entry_record] at hf
    split at hf
    · rename_i hk
      rw [← hk]
      exact hdiv
    · exact h.diverts k' f hf

theorem DivertInv.handle {s : Divert} (h : DivertInv s) (p : Pkt) (outbound : Bool) (now : Int)
    (allocated : Bool) : DivertInv (handle s p outbound now allocated).1 := by
  obtain heq | ⟨svc, f, -, -, heq⟩ | ⟨f, -, -, heq⟩ | ⟨hdiv, hnone, -, heq⟩ :=
    handle_cases s p outbound now allocated
  · rw [heq]
    exact h
  · rw [heq]
    exact h.touch _ _ _
  · rw [heq]
    exact h.touch _ _ _
  · rw [heq]
    exact (h.record hnone hdiv now).touch _ _ _

theorem entry_sweep {s : Divert} (h : DivertInv s) (now : Int) (k : FlowId) :
    (step s (.sweep now)).1.entry k =
      (s.entry k).filter fun f => !decide (now - f.last > f.limit) :=
  Chained.lookup_sweep h.wellFormed _ k

theorem DivertInv.step {s : Divert} (h : DivertInv s) (event : Event) :
    DivertInv (step s event).1 := by
  cases event with
  | packet p outbound now allocated => exact h.handle p outbound now allocated
  | sweep now =>
      refine ⟨h.wellFormed.sweep _, ?_⟩
      intro k f hf
      rw [entry_sweep h] at hf
      exact h.diverts k f (Option.filter_eq_some_iff.mp hf).1
  | quicBlock addrs now => exact ⟨h.wellFormed, h.diverts⟩
  | quicFlush => exact ⟨h.wellFormed, h.diverts⟩

theorem run_divertInv (listeners : Listeners) (quic : List Quic) (events : List Event) :
    DivertInv (Machine.run step (tppInstall listeners quic) events).1 := by
  refine Machine.run_invariant step (fun _ _ s => DivertInv s) (divertInv_install listeners quic)
    ?_ events
  intro es os s event h
  exact h.step event

theorem handle_listeners (s : Divert) (p : Pkt) (outbound : Bool) (now : Int) (allocated : Bool) :
    (handle s p outbound now allocated).1.listeners = s.listeners := by
  obtain heq | ⟨svc, f, -, -, heq⟩ | ⟨f, -, -, heq⟩ | ⟨-, -, -, heq⟩ :=
    handle_cases s p outbound now allocated <;>
  rw [heq] <;> rfl

theorem run_listeners (s : Divert) (events : List Event) :
    (Machine.run step s events).1.listeners = s.listeners := by
  refine Machine.run_invariant step (fun _ _ s' => s'.listeners = s.listeners) rfl ?_ events
  intro es os s' event h
  cases event with
  | packet p outbound now allocated => exact (handle_listeners s' p outbound now allocated).trans h
  | sweep now => exact h
  | quicBlock addrs now => exact h
  | quicFlush => exact h

end DpiProxy.Transparent.Windows
