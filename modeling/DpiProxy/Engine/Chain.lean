import DpiProxy.Engine.Lemmas
import DpiProxy.Packet.Delivery

namespace DpiProxy.Engine

open Wire Packet Tls

-- The packets a log offered to the raw socket, decoys apart.
def replacements : List Effect → List Bytes
  | [] => []
  | .inject tag packet _ :: log =>
      if tag = .fake then replacements log else packet :: replacements log
  | _ :: log => replacements log

def verdicts : List Effect → List Verdict
  | [] => []
  | .verdict v :: log => v :: verdicts log
  | _ :: log => verdicts log

def AllSent (log : List Effect) : Prop := ∀ tag packet ok, .inject tag packet ok ∈ log → ok = true

theorem replacements_append (a b : List Effect) :
    replacements (a ++ b) = replacements a ++ replacements b := by
  induction a with
  | nil => rfl
  | cons e a ih =>
      cases e with
      | inject tag packet ok =>
          simp only [List.cons_append, replacements, ih]
          split <;> rfl
      | chain c => exact ih
      | build packets => exact ih
      | verdict v => exact ih

theorem verdicts_append (a b : List Effect) : verdicts (a ++ b) = verdicts a ++ verdicts b := by
  induction a with
  | nil => rfl
  | cons e a ih =>
      cases e with
      | verdict v => exact congrArg (v :: ·) ih
      | inject tag packet ok => exact ih
      | chain c => exact ih
      | build packets => exact ih

theorem AllSent.left {a b : List Effect} (h : AllSent (a ++ b)) : AllSent a :=
  fun tag packet ok hm => h tag packet ok (List.mem_append_left _ hm)

theorem AllSent.right {a b : List Effect} (h : AllSent (a ++ b)) : AllSent b :=
  fun tag packet ok hm => h tag packet ok (List.mem_append_right _ hm)

-- A decoy on its way to the raw socket.
def DecoySent (e : Effect) : Prop :=
  ∃ decoy ok template ttl, e = .inject .fake decoy ok ∧ packetMakeFakeTcpV4 template ttl = .ok decoy

def ReplacementSent (packets : List Bytes) (e : Effect) : Prop :=
  ∃ tag packet ok, e = .inject tag packet ok ∧ tag ≠ .fake ∧ packet ∈ packets

-- A part of a log that sends these packets in this order, with decoys anywhere
-- between them. It may stop early, but only after a failed send.
structure Injects (packets : List Bytes) (log : List Effect) : Prop where
  each : ∀ e ∈ log, DecoySent e ∨ ReplacementSent packets e
  sent : AllSent log → replacements log = packets

namespace Injects

theorem append {packets packets' : List Bytes} {log log' : List Effect} (h : Injects packets log)
    (h' : Injects packets' log') : Injects (packets ++ packets') (log ++ log') where
  each := by
    intro e he
    rcases List.mem_append.mp he with hl | hr
    · obtain hd | ⟨tag, packet, ok, heq, htag, hm⟩ := h.each e hl
      · exact .inl hd
      · exact .inr ⟨tag, packet, ok, heq, htag, List.mem_append_left _ hm⟩
    · obtain hd | ⟨tag, packet, ok, heq, htag, hm⟩ := h'.each e hr
      · exact .inl hd
      · exact .inr ⟨tag, packet, ok, heq, htag, List.mem_append_right _ hm⟩
  sent := by
    intro hall
    rw [replacements_append, h.sent hall.left, h'.sent hall.right]

theorem single (tag : Tag) (packet : Bytes) (ok : Bool) (htag : tag ≠ .fake) :
    Injects [packet] [.inject tag packet ok] where
  each := by
    intro e he
    exact .inr ⟨tag, packet, ok, List.mem_singleton.mp he, htag, List.mem_singleton_self _⟩
  sent := by
    intro _
    simp only [replacements, htag, if_false]

-- The second packet is not tried after a failure of the first.
theorem stopped (tag : Tag) (seg1 seg2 : Bytes) (htag : tag ≠ .fake) :
    Injects [seg1, seg2] [.inject tag seg1 false] where
  each := by
    intro e he
    exact .inr ⟨tag, seg1, false, List.mem_singleton.mp he, htag, List.mem_cons_self⟩
  sent := by
    intro hall
    exact absurd (hall tag seg1 false (List.mem_singleton_self _)) (by decide)

end Injects

theorem injectPair_injects (socket : RawSocket) (log : List Effect) (tag1 tag2 : Tag)
    (seg1 seg2 : Bytes) (h₁ : tag1 ≠ .fake) (h₂ : tag2 ≠ .fake) :
    ∃ sent, injectPair socket log tag1 seg1 tag2 seg2 = log ++ sent ∧ Injects [seg1, seg2] sent := by
  unfold injectPair injectOrLog
  cases hok : socket log.length with
  | false => exact ⟨_, rfl, .stopped tag1 seg1 seg2 h₁⟩
  | true =>
      refine ⟨_, List.append_assoc _ _ _, ?_⟩
      exact (Injects.single tag1 seg1 true h₁).append (.single tag2 seg2 _ h₂)

theorem injectDecoy_injects (socket : RawSocket) (log : List Effect) (fakeTtl : UInt8)
    (template : Bytes) :
    ∃ sent, injectDecoy socket log (buildDecoy fakeTtl template) = log ++ sent ∧
      (∀ e ∈ sent, DecoySent e) ∧ Injects [] sent := by
  unfold buildDecoy
  cases h : packetMakeFakeTcpV4 template fakeTtl with
  | error e => exact ⟨[], (List.append_nil _).symm, nofun, nofun, fun _ => rfl⟩
  | ok decoy =>
      have hdecoy : ∀ e ∈ [Effect.inject .fake decoy (socket log.length)], DecoySent e := by
        intro e he
        exact ⟨decoy, _, template, fakeTtl, List.mem_singleton.mp he, h⟩
      exact ⟨_, rfl, hdecoy, fun e he => .inl (hdecoy e he), fun _ => rfl⟩

-- Every known chain shape over the two segments sends both, in one order or the other.
theorem injectSegments_injects {fakeTtl : UInt8} {socket : RawSocket} {raw : Bytes}
    {chain : StrategyChain} {seg1 seg2 : Bytes} {log log' : List Effect}
    (h : injectSegments fakeTtl socket raw chain seg1 seg2 log = some log') :
    ∃ packets sent, packets.Perm [seg1, seg2] ∧ log' = log ++ sent ∧ Injects packets sent := by
  unfold injectSegments at h
  split_ifs at h
  · obtain ⟨sent, heq, hi⟩ := injectPair_injects socket log .split1 .split2 seg1 seg2 nofun nofun
    exact ⟨_, sent, .refl _, (Option.some.inj h).symm.trans heq, hi⟩
  · obtain ⟨sent, heq, hi⟩ :=
      injectPair_injects socket log .disorder2 .disorder1 seg2 seg1 nofun nofun
    exact ⟨_, sent, .swap _ _ _, (Option.some.inj h).symm.trans heq, hi⟩
  · obtain ⟨decoys, hd, -, hdi⟩ := injectDecoy_injects socket log fakeTtl raw
    dsimp only at h
    rw [hd] at h
    obtain ⟨sent, heq, hi⟩ :=
      injectPair_injects socket (log ++ decoys) .split1 .split2 seg1 seg2 nofun nofun
    refine ⟨_, decoys ++ sent, .refl _, ?_, hdi.append hi⟩
    rw [← Option.some.inj h, heq, List.append_assoc]
  · dsimp only [injectOrLog] at h
    obtain ⟨decoys, hd, -, hdi⟩ := injectDecoy_injects socket
      (log ++ [.inject .split1 seg1 (socket log.length)]) fakeTtl seg2
    rw [hd] at h
    generalize socket (List.length (_ ++ decoys)) = ok at h
    have hfirst := Injects.single .split1 seg1 (socket log.length) nofun
    refine ⟨_, _, .refl _, ?_, (hfirst.append hdi).append (.single .split2 seg2 ok nofun)⟩
    rw [← Option.some.inj h]
    simp only [List.append_assoc]

-- The chain of IP fragmentation: cut at the point found in the payload.
theorem tryApplyChain_fragment {fakeTtl : UInt8} {socket : RawSocket} {raw : Bytes} {tcp : TcpView}
    {chain : StrategyChain} {log log' : List Effect} (hchain : chain.actions = [.fragment])
    (h : tryApplyChain fakeTtl socket raw tcp chain log = (true, log')) :
    ∃ splitOffset seg1 seg2 sent, tlsFindSniSplit tcp.payload = some splitOffset ∧
      packetFragmentIpv4 raw splitOffset = .ok (seg1, seg2) ∧ Injects [seg1, seg2] sent ∧
      log' = log ++ ([.build [seg1, seg2]] ++ sent ++ [.verdict .drop]) := by
  unfold tryApplyChain at h
  rw [if_neg (by rw [hchain]; decide)] at h
  split at h
  · cases h
  · rename_i splitOffset hsplit
    split at h
    · cases h
    · split at h
      · cases h
      · rename_i seg1 seg2 hbuilt
        obtain ⟨sent, heq, hi⟩ := injectPair_injects socket (log ++ [.build [seg1, seg2]])
          .fragment1 .fragment2 seg1 seg2 nofun nofun
        dsimp only at h
        rw [heq] at h
        refine ⟨splitOffset, seg1, seg2, sent, hsplit, hbuilt, hi, ?_⟩
        rw [← (Prod.mk.inj h).2]
        simp only [List.append_assoc]

-- The chains over TCP segments.
theorem tryApplyChain_segments {fakeTtl : UInt8} {socket : RawSocket} {raw : Bytes} {tcp : TcpView}
    {chain : StrategyChain} {log log' : List Effect} (hchain : chain.actions ≠ [.fragment])
    (h : tryApplyChain fakeTtl socket raw tcp chain log = (true, log')) :
    ∃ splitOffset seg1 seg2 packets sent, tlsFindSniSplit tcp.payload = some splitOffset ∧
      packetSplitTcpV4 raw splitOffset = .ok (seg1, seg2) ∧ packets.Perm [seg1, seg2] ∧
      Injects packets sent ∧ log' = log ++ ([.build [seg1, seg2]] ++ sent ++ [.verdict .drop]) := by
  unfold tryApplyChain at h
  split at h
  · cases h
  · split at h
    · cases h
    · rename_i splitOffset hsplit
      split at h
      · cases h
      · split at h
        · cases h
        · rename_i seg1 seg2 hbuilt
          dsimp only at h
          split at h
          · cases h
          · rename_i log₁ hinject
            obtain ⟨packets, sent, hperm, heq, hi⟩ := injectSegments_injects hinject
            refine ⟨splitOffset, seg1, seg2, packets, sent, hsplit, hbuilt, hperm, hi, ?_⟩
            rw [← (Prod.mk.inj h).2, heq]
            simp only [List.append_assoc]

-- What try_apply_chain has done when it set the verdict: both replacements were in
-- memory first, then it sent them, and it dropped the packet last.
theorem tryApplyChain_applied {fakeTtl : UInt8} {socket : RawSocket} {raw : Bytes}
    (d : Datagram raw) {chain : StrategyChain} {log log' : List Effect}
    (h : tryApplyChain fakeTtl socket raw d.tcpView chain log = (true, log')) :
    ∃ seg1 seg2 packets sent, packets.Perm [seg1, seg2] ∧ Carries packets d.seq d.payload ∧
      Injects packets sent ∧
      log' = log ++ ([.build [seg1, seg2]] ++ sent ++ [.verdict .drop]) := by
  by_cases hchain : chain.actions = [.fragment]
  · obtain ⟨splitOffset, seg1, seg2, sent, -, hbuilt, hi, hlog⟩ := tryApplyChain_fragment hchain h
    exact ⟨seg1, seg2, _, sent, .refl _, packetFragmentIpv4_carries d hbuilt, hi, hlog⟩
  · obtain ⟨splitOffset, seg1, seg2, packets, sent, -, hbuilt, hperm, hi, hlog⟩ :=
      tryApplyChain_segments hchain h
    exact ⟨seg1, seg2, packets, sent, hperm, packetSplitTcpV4_carries d hbuilt hperm, hi, hlog⟩

-- When it leaves the verdict to the caller it has sent decoys at most.
theorem tryApplyChain_declined {fakeTtl : UInt8} {socket : RawSocket} {raw : Bytes}
    {tcp : TcpView} {chain : StrategyChain} {log log' : List Effect}
    (h : tryApplyChain fakeTtl socket raw tcp chain log = (false, log')) :
    ∃ tail, log' = log ++ tail ∧ ∀ e ∈ tail, DecoySent e ∨ ∃ packets, e = .build packets := by
  have hnone : ∀ {log₁}, (false, log) = (false, log₁) → ∃ tail, log₁ = log ++ tail ∧
      ∀ e ∈ tail, DecoySent e ∨ ∃ packets, e = .build packets := by
    intro log₁ heq
    exact ⟨[], by rw [← (Prod.mk.inj heq).2, List.append_nil], nofun⟩
  unfold tryApplyChain at h
  split at h
  · obtain ⟨sent, hs, hd, -⟩ := injectDecoy_injects socket log fakeTtl raw
    exact ⟨sent, (Prod.mk.inj h).2.symm.trans hs, fun e he => .inl (hd e he)⟩
  · split at h
    · exact hnone h
    · split at h
      · exact hnone h
      · split at h
        · split at h
          · exact hnone h
          · cases h
        · split at h
          · exact hnone h
          · dsimp only at h
            split at h
            · refine ⟨_, (Prod.mk.inj h).2.symm, ?_⟩
              intro e he
              exact .inr ⟨_, List.mem_singleton.mp he⟩
            · cases h

-- A ClientHello for the name `ab.c` in one packet, with one more extension after it.
def helloPacket : Bytes :=
  [0x45, 0, 0, 109, 0x10, 0x92, 0x40, 0, 64, 6, 0, 0, 10, 0, 0, 1, 10, 0, 0, 2,
   0xC7, 0x38, 1, 187, 0, 0, 0, 1, 0, 0, 0, 1, 0x50, 0x18, 0xFF, 0xFF, 0, 0, 0, 0,
   0x16, 3, 1, 0, 64, 1, 0, 0, 60, 3, 3] ++ List.replicate 32 0 ++
  [0, 0, 2, 0x13, 0x01, 1, 0, 0, 17, 0, 0, 0, 9, 0, 7, 0, 0, 4, 97, 98, 46, 99, 0, 23, 0, 0]

end DpiProxy.Engine
