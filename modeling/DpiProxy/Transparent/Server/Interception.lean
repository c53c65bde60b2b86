import DpiProxy.Transparent.Server.Points

namespace DpiProxy.Transparent.Linux

open Interleaving
open Macos (TP_ALIVE_TIMEOUT_S)

variable {old : Option Table}

section Loaded

variable {port dnsPort : Nat} {ipv6 : Bool} {w w' : World}

theorem Ready.points (h : Ready port ipv6 dnsPort w) (hsoon : ∀ t, w.table = some t → t.Soon w.now) : Points old w := by
  refine ⟨fun t ht => .inr ?_, hsoon⟩
  obtain ⟨rfl, rfl, rfl, hdns⟩ := h.ours t ht
  refine ⟨fun _ => h.supplied.tcp, fun ⟨e, he, _⟩ => h.supplied.dns (hdns ?_)⟩
  rw [he]
  simp

-- A table of ours takes the place of the one before.
theorem Supplied.load (h : Supplied port ipv6 dnsPort w) {table : Option Table}
    (hours : ∀ t, table = some t → (t.port = port ∧ t.ipv6 = ipv6 ∧ t.dnsPort = dnsPort ∧
      (t.aliveDns ≠ none → dnsPort > 0)) ∧ t.Soon w.now) :
    Points old { w with table := table } ∧ Ready port ipv6 dnsPort { w with table := table } := by
  obtain ⟨tcp, dns⟩ := h
  have hready : Ready port ipv6 dnsPort { w with table := table } :=
    ⟨⟨tcp, fun hpos => ⟨⟨(dns hpos).1.udp, (dns hpos).1.tcp, (dns hpos).1.udpLoop, (dns hpos).1.tcpLoop⟩, fun hv6 =>
      ⟨((dns hpos).2 hv6).udp, ((dns hpos).2 hv6).tcp, ((dns hpos).2 hv6).udpLoop, ((dns hpos).2 hv6).tcpLoop⟩⟩⟩,
      fun t ht => (hours t ht).1⟩
  exact ⟨hready.points fun t ht => (hours t ht).2, hready⟩

-- What the server does from the installation on.
def Op.Keeping (port : Nat) (ipv6 : Bool) (dnsPort : Nat) : Op → Prop
  | .nft (.ruleset port' ipv6' dnsPort') => port' = port ∧ ipv6' = ipv6 ∧ dnsPort' = dnsPort
  | .nft (.heartbeat dns) => dns = decide (dnsPort > 0)
  | .nft .remove => True
  | o => o.Quiet

theorem script_keeps (h : Ready port ipv6 dnsPort w) {script : Script}
    (hkeeping : (Op.nft script).Keeping port ipv6 dnsPort)
    (hquiet : ¬(Op.nft script).Quiet) {table : Option Table} (hrun : script.run w.now w.table = some table) :
    Points old { w with table := table } ∧ Ready port ipv6 dnsPort { w with table := table } := by
  refine h.supplied.load fun t ht => ?_
  cases script with
  | ruleset port' ipv6' dnsPort' =>
      obtain ⟨rfl, rfl, rfl⟩ := hkeeping
      obtain rfl := Option.some.inj ((Option.some.inj hrun).trans ht)
      exact ⟨⟨rfl, rfl, rfl, fun hne => absurd rfl hne⟩, fun e he => absurd he (by simp)⟩
  | heartbeat dns =>
      obtain rfl : dns = decide (dnsPort > 0) := hkeeping
      cases htable : w.table with
      | none =>
          rw [htable] at hrun
          cases hrun
      | some t' =>
          rw [htable] at hrun
          obtain rfl := Option.some.inj ((Option.some.inj hrun).trans ht)
          obtain ⟨hport, hv6, hdns, -⟩ := h.ours t' htable
          refine ⟨⟨hport, hv6, hdns, fun hne => ?_⟩, fun e he => ?_⟩
          · by_contra hzero
            simp [hzero] at hne
          · have hbeat : e = w.now + TP_ALIVE_TIMEOUT_S * 1000 := by
              rcases he with he | he
              · exact (Option.some.inj he).symm
              · dsimp only at he
                split at he
                · exact (Option.some.inj he).symm
                · cases he
            exact hbeat.le
  | remove =>
      obtain rfl := Option.some.inj hrun
      cases ht
  | quicFlush | listForeign => exact absurd trivial hquiet

theorem keeping_keeps {o : Op} (hkeeping : o.Keeping port ipv6 dnsPort) {r : Reply} (hpoints : Points old w)
    (h : Ready port ipv6 dnsPort w) (hdoes : o.does r w = some w') : Points old w' ∧ Ready port ipv6 dnsPort w' := by
  by_cases hquiet : o.Quiet
  · rw [quiet_same hquiet hdoes]
    exact ⟨hpoints, h⟩
  · cases o with
    | nft script =>
        cases r with
        | yes =>
            obtain ⟨table, hrun, rfl⟩ := Option.map_eq_some_iff.mp hdoes
            exact script_keeps h hkeeping hquiet hrun
        | no =>
            obtain rfl := Option.some.inj hdoes
            exact ⟨hpoints, h⟩
        | time t => cases hdoes
    | listen | close | thread => exact hkeeping.elim
    | now | other => exact absurd trivial hquiet

end Loaded

section MainLoop

variable (port : Nat) (ipv6 lfd6 : Bool) (dnsPort : Nat)

-- A program of such operations.
def Keeping {α : Type} (x : Server α) : Prop := Only (Op.Keeping port ipv6 dnsPort) (fun _ => True) x

variable {port ipv6 lfd6 dnsPort}

theorem Keeping.bind {α β : Type} {x : Server α} {f : α → Server β} (hx : Keeping port ipv6 dnsPort x)
    (hf : ∀ a, Keeping port ipv6 dnsPort (f a)) : Keeping port ipv6 dnsPort (x >>= f) :=
  Only.bind hx fun a _ => hf a

theorem Keeping.ite {α : Type} {p : Prop} [Decidable p] {x y : Server α} (hx : Keeping port ipv6 dnsPort x)
    (hy : Keeping port ipv6 dnsPort y) : Keeping port ipv6 dnsPort (if p then x else y) :=
  Only.ite (fun _ => hx) fun _ => hy

theorem Keeping.pure {α : Type} (a : α) : Keeping port ipv6 dnsPort (Pure.pure a : Server α) := trivial

theorem Keeping.ask {o : Op} (h : o.Keeping port ipv6 dnsPort) : Keeping port ipv6 dnsPort (Linux.ask o) :=
  Keeping.bind (Only.perform h) fun _ => .pure _

theorem heartbeatNft_keeping : Keeping port ipv6 dnsPort (heartbeatNft dnsPort) := .ask rfl

theorem tppInstall_keeping : Keeping port ipv6 dnsPort (tppInstall port ipv6 dnsPort) :=
  Keeping.bind (.ask ⟨rfl, rfl, rfl⟩) fun _ => .ite heartbeatNft_keeping (.pure _)

theorem tppRefresh_keeping : Keeping port ipv6 dnsPort (tppRefresh port ipv6 dnsPort) :=
  Keeping.bind heartbeatNft_keeping fun _ => .ite (.pure _) tppInstall_keeping

theorem checks_keeping (due : Bool) : Keeping port ipv6 dnsPort (checks due) := by
  refine .ite (Keeping.bind (Keeping.bind ?_ fun _ => .ite ?_ (.pure _)) fun _ => ?_) (.pure _)
  · exact .ask trivial
  · exact .ask trivial
  · exact .ask trivial

theorem heartbeat_keeping (due : Bool) : Keeping port ipv6 dnsPort (heartbeat due port ipv6 dnsPort) := by
  refine .ite (Keeping.bind tppRefresh_keeping fun _ => Keeping.bind ?_ fun _ => ?_) (.pure _)
  · exact .ask trivial
  · exact .ask trivial

theorem acceptOne_keeping (family : AddrFamily) (listens : Bool) :
    Keeping port ipv6 dnsPort (acceptOne family listens) := by
  refine .ite (Keeping.bind ?_ fun _ => .ite ?_ (.pure _)) (.pure _)
  · exact .ask trivial
  · exact .ask trivial

theorem tpdNowMs_keeping : Keeping port ipv6 dnsPort tpdNowMs := by
  refine Keeping.bind (Only.perform trivial) fun r => ?_
  cases r <;> trivial

theorem reread_keeping (reload : Bool) : Keeping port ipv6 dnsPort (reread reload) := by
  refine .ite ?_ (.pure _)
  exact .ask trivial

theorem loopTurn_keeping (l : Loop) : Keeping port ipv6 dnsPort (loopTurn port ipv6 lfd6 dnsPort l) := by
  refine Keeping.bind (acceptOne_keeping .inet true) fun _ => ?_
  refine Keeping.bind (acceptOne_keeping .inet6 lfd6) fun _ => ?_
  refine Keeping.bind tpdNowMs_keeping fun now => ?_
  refine Keeping.bind (.ask trivial) fun event => ?_
  refine Keeping.bind (checks_keeping _) fun _ => ?_
  refine Keeping.bind (.ask trivial) fun reload => ?_
  refine Keeping.bind (reread_keeping reload) fun _ => ?_
  exact Keeping.bind (heartbeat_keeping _) fun _ => .pure _

theorem turns_keeping (n : Nat) (l : Loop) : Keeping port ipv6 dnsPort (turns port ipv6 lfd6 dnsPort n l) := by
  induction n generalizing l with
  | zero => trivial
  | succ n ih =>
      refine Keeping.bind (.ask trivial) fun _ => .ite (.pure _) ?_
      refine Keeping.bind (.ask trivial) fun _ => .ite ?_ (.pure _)
      exact Keeping.bind (loopTurn_keeping l) ih

theorem mainLoop_keeping (n : Nat) : Keeping port ipv6 dnsPort (mainLoop port ipv6 lfd6 dnsPort n) :=
  Keeping.bind tpdNowMs_keeping fun _ => Keeping.bind tpdNowMs_keeping fun _ => turns_keeping n _

theorem Keeping.triple {α : Type} {x : Server α} (h : Keeping port ipv6 dnsPort x) :
    Triple Op.does Rely (Points old) (Ready port ipv6 dnsPort) x fun _ => Ready port ipv6 dnsPort := by
  refine (h.keeps (points_others old) (ready_stable port ipv6 dnsPort) ?_).weaken (fun _ _ hw => hw) fun _ _ hw => hw.2
  exact fun o ho r w w' hpoints hready hdoes => keeping_keeps ho hpoints hready hdoes

end MainLoop

section Starting

variable {ls : List Listener} {ts : List ServerThread} {port dnsPort : Nat} {ipv6 lfd6 : Bool}

theorem Has.forwards {w : World} {family : AddrFamily} (h : Has ls ts w)
    (hls : ∀ l ∈ familyListeners family port, l ∈ ls) (hts : ∀ t ∈ familyThreads family, t ∈ ts) :
    Forwards w family port where
  udp := h.1 _ (hls _ (by simp [familyListeners]))
  tcp := h.1 _ (hls _ (by simp [familyListeners]))
  udpLoop := h.2 _ (hts _ (by simp [familyThreads]))
  tcpLoop := h.2 _ (hts _ (by simp [familyThreads]))

-- The listeners of the redirects, before there are any.
def Awaiting (old : Option Table) (port : Nat) (ipv6 : Bool) (dnsPort : Nat) (w : World) : Prop :=
  Silent old w ∧ Supplied port ipv6 dnsPort w

theorem awaiting_stable (old : Option Table) (port : Nat) (ipv6 : Bool) (dnsPort : Nat) :
    Stable Rely (Awaiting old port ipv6 dnsPort) :=
  (silent_stable old).and (supplied_stable port ipv6 dnsPort)

theorem Closed.awaiting {w : World} (h : Closed old ls ts w) (h4 : ⟨.inet, .stream, port⟩ ∈ ls)
    (h6 : ipv6 = true → ⟨.inet6, .stream, port⟩ ∈ ls) (hdns : dnsPort > 0 →
      Forwards w .inet dnsPort ∧ (ipv6 = true → Forwards w .inet6 dnsPort)) : Awaiting old port ipv6 dnsPort w :=
  ⟨h.1, ⟨h.2.1 _ h4, fun hv6 => h.2.1 _ (h6 hv6)⟩, hdns⟩

theorem startDns_awaiting (h4 : ⟨.inet, .stream, port⟩ ∈ ls) (h6 : ipv6 = true → ⟨.inet6, .stream, port⟩ ∈ ls) :
    Triple Op.does Rely (Points old) (Closed old ls ts) (startDns dnsPort ipv6) fun r =>
      Awaiting old port r.2 (if r.1 then dnsPort else 0) := by
  have hoff : ∀ w, Closed old ls ts w → Awaiting old port ipv6 0 w := fun w h =>
    h.awaiting h4 h6 fun hpos => absurd hpos (Nat.lt_irrefl 0)
  refine .ite (fun hpos => ?_) fun _ => .pure (awaiting_stable old port ipv6 0) fun w _ h => hoff w h
  refine (startFamily_started .inet dnsPort).bind (points_others old) fun v4 => ?_
  refine .ite (fun hv4 => ?_) fun hv4 => ?_
  · obtain rfl : v4 = true := hv4
    have hfirst : ∀ {ls' ts' w}, Closed old (ls' ++ (familyListeners .inet dnsPort ++ ls))
        (ts' ++ (familyThreads .inet ++ ts)) w → Forwards w .inet dnsPort := fun h =>
      h.2.forwards (fun l hl => List.mem_append_right _ (List.mem_append_left _ hl)) fun t ht =>
        List.mem_append_right _ (List.mem_append_left _ ht)
    refine .ite (fun hv6 => ?_) fun _ => ?_
    · refine Triple.bind (points_others old) (startFamily_started .inet6 dnsPort) fun v6 => ?_
      refine .pure (awaiting_stable old port v6 dnsPort) fun w _ h => ?_
      cases v6 with
      | false =>
          exact Closed.awaiting h (List.mem_append_right _ h4) (by simp) fun _ => ⟨@hfirst [] [] w h, by simp⟩
      | true =>
          refine Closed.awaiting h (List.mem_append_right _ (List.mem_append_right _ h4))
            (fun _ => List.mem_append_right _ (List.mem_append_right _ (h6 hv6))) fun _ => ⟨hfirst h, fun _ => ?_⟩
          exact h.2.forwards (fun l hl => List.mem_append_left _ hl) fun t ht => List.mem_append_left _ ht
    · refine .pure (awaiting_stable old port false dnsPort) fun w _ h => ?_
      exact Closed.awaiting h (List.mem_append_right _ h4) (by simp) fun _ => ⟨@hfirst [] [] w h, by simp⟩
  · obtain rfl : v4 = false := Bool.eq_false_iff.mpr hv4
    exact .pure (awaiting_stable old port ipv6 0) fun w _ h => hoff w h

end Starting

section Serving

variable {port dnsPort : Nat} {ipv6 lfd6 : Bool} {pre : World → Prop}

-- What holds when the server returns.
structure Ended (old : Option Table) (r : Int × Bool) (w : World) : Prop where
  removed : r.2 = true → w.table = none
  failed : r.1 = -1 → Silent old w

theorem ended_stable (old : Option Table) (r : Int × Bool) : Stable Rely (Ended old r) :=
  fun w w' h hended =>
    ⟨fun hr => none_stable w w' h (hended.removed hr), fun hr => silent_stable old w w' h (hended.failed hr)⟩

theorem verify_awaiting :
    Triple Op.does Rely (Points old) (Awaiting old port ipv6 dnsPort) tpdVerifyStart fun _ =>
      Awaiting old port ipv6 dnsPort := by
  have hstable := awaiting_stable old port ipv6 dnsPort
  refine (other_ask hstable).bind (points_others old) fun _ => .ite (fun _ => ?_) fun _ => .pure hstable fun _ _ h => h
  refine ask_triple hstable (fun _ => hstable) fun w r w' hpoints h hdoes => ?_
  cases r with
  | yes =>
      obtain rfl := Option.some.inj hdoes
      obtain ⟨hsilent, hkeeps⟩ := @silent_points _ w { w with threads := .verifier :: w.threads } h.1 hpoints rfl rfl
      refine ⟨hkeeps, hsilent, h.2.tcp, fun hpos => ?_⟩
      obtain ⟨h4, h6⟩ := h.2.dns hpos
      have hmore : ∀ {family}, Forwards w family dnsPort →
          Forwards { w with threads := .verifier :: w.threads } family dnsPort := fun hf =>
        ⟨hf.udp, hf.tcp, List.mem_cons_of_mem _ hf.udpLoop, List.mem_cons_of_mem _ hf.tcpLoop⟩
      exact ⟨hmore h4, fun hv6 => hmore (h6 hv6)⟩
  | no =>
      obtain rfl := Option.some.inj hdoes
      exact ⟨hpoints, h⟩
  | time t => cases hdoes

-- An installation that fails has not made its rules redirect.
def Installed (old : Option Table) (port : Nat) (ipv6 : Bool) (dnsPort : Nat) (b : Bool) (w : World) : Prop :=
  (b = true → Ready port ipv6 dnsPort w) ∧ (b = false → Silent old w)

theorem installed_stable (old : Option Table) (port : Nat) (ipv6 : Bool) (dnsPort : Nat) (b : Bool) :
    Stable Rely (Installed old port ipv6 dnsPort b) :=
  (ready_stable port ipv6 dnsPort).imp.and (silent_stable old).imp

theorem heartbeat_installed :
    Triple Op.does Rely (Points old) (fun w => Ready port ipv6 dnsPort w ∧ Silent old w) (heartbeatNft dnsPort)
      (Installed old port ipv6 dnsPort) := by
  refine ask_triple ((ready_stable port ipv6 dnsPort).and (silent_stable old)) (installed_stable old port ipv6 dnsPort)
    fun w r w' hpoints h hdoes => ?_
  cases r with
  | yes =>
      obtain ⟨hpoints', hready⟩ := @keeping_keeps old _ _ _ _ _ (.nft (.heartbeat _)) rfl _ hpoints h.1
        hdoes
      exact ⟨hpoints', fun _ => hready, fun h => absurd h (by simp)⟩
  | no =>
      obtain rfl := Option.some.inj hdoes
      exact ⟨hpoints, fun h => absurd h (by simp), fun _ => h.2⟩
  | time t => cases hdoes

theorem ruleset_awaiting :
    Triple Op.does Rely (Points old) (Awaiting old port ipv6 dnsPort) (ask (.nft (.ruleset port ipv6 dnsPort)))
      fun b w => (b = true → Ready port ipv6 dnsPort w) ∧ Silent old w := by
  refine ask_triple (awaiting_stable old port ipv6 dnsPort)
    (fun b => (ready_stable port ipv6 dnsPort).imp.and (silent_stable old)) fun w r w' hpoints h hdoes => ?_
  cases r with
  | yes =>
      obtain rfl := Option.some.inj hdoes
      obtain ⟨hpoints', hready⟩ := @Supplied.load old _ _ _ _ h.2 (some ⟨port, ipv6, dnsPort, none, none⟩) (by
        intro t ht
        obtain rfl := Option.some.inj ht
        exact ⟨⟨rfl, rfl, rfl, fun hne => absurd rfl hne⟩, fun e he => absurd he (by simp)⟩)
      refine ⟨hpoints', fun _ => hready, fun t ht => .inr ?_⟩
      obtain rfl := Option.some.inj ht
      exact ⟨fun ⟨e, he, _⟩ => absurd he (by simp), fun ⟨e, he, _⟩ => absurd he (by simp)⟩
  | no =>
      obtain rfl := Option.some.inj hdoes
      exact ⟨hpoints, fun h => absurd h (by simp), h.1⟩
  | time t => cases hdoes

theorem installAll_installed :
    Triple Op.does Rely (Points old) (Awaiting old port ipv6 dnsPort) (installAll port ipv6 dnsPort)
      (Installed old port ipv6 dnsPort) := by
  have hfails : ∀ {w}, Silent old w → Installed old port ipv6 dnsPort false w := fun h => ⟨by simp, fun _ => h⟩
  refine verify_awaiting.bind (points_others old) fun verifier => .ite (fun _ => ?_) fun _ => ?_
  · refine ruleset_awaiting.bind (points_others old) fun loaded => .ite (fun hloaded => ?_) fun _ => ?_
    · exact heartbeat_installed.weaken (fun w _ h => ⟨h.1 hloaded, h.2⟩) fun _ _ h => h
    · exact .pure (installed_stable old port ipv6 dnsPort false) fun w _ h => hfails h.2
  · exact .pure (installed_stable old port ipv6 dnsPort false) fun w _ h => hfails h.1

theorem remove_triple (hpre : Stable Rely pre) (hkept : ∀ w, pre w → pre { w with table := none }) :
    Triple Op.does Rely (Points old) pre tppRemove fun b w => pre w ∧ (b = true → w.table = none) := by
  refine ask_triple hpre (fun b => hpre.and none_stable.imp) fun w r w' hpoints h hdoes => ?_
  cases r with
  | yes =>
      obtain rfl := Option.some.inj hdoes
      exact ⟨⟨fun t ht => absurd ht (by simp), fun t ht => absurd ht (by simp)⟩, hkept w h, fun _ => rfl⟩
  | no =>
      obtain rfl := Option.some.inj hdoes
      exact ⟨hpoints, h, fun h => absurd h (by simp)⟩
  | time t => cases hdoes

-- The listeners are closed only where nothing is redirected to them.
theorem close_ended {l : Listener} {removed : Bool} :
    Triple Op.does Rely (Points old) (Ended old (-1, removed)) (ask (.close l)) fun _ => Ended old (-1, removed) := by
  have hstable := ended_stable old (-1, removed)
  refine ask_triple hstable (fun _ => hstable) fun w r w' hpoints h hdoes => ?_
  cases r with
  | yes =>
      obtain rfl := Option.some.inj hdoes
      obtain ⟨hsilent, hkeeps⟩ :=
        @silent_points _ w { w with listeners := w.listeners.erase l } (h.failed rfl) hpoints rfl rfl
      exact ⟨hkeeps, h.removed, fun _ => hsilent⟩
  | no | time t => cases hdoes

theorem serve_ended (n : Nat) :
    Triple Op.does Rely (Points old) (Awaiting old port ipv6 dnsPort) (serve port ipv6 lfd6 dnsPort n) (Ended old) := by
  refine (listForeign_ask (awaiting_stable old port ipv6 dnsPort)).bind (points_others old) fun _ => ?_
  refine installAll_installed.bind (points_others old) fun installed => .ite (fun hinstalled => ?_) fun hinstalled => ?_
  · have hready := ready_stable port ipv6 dnsPort
    have hnone : ∀ {removed : Bool}, Stable Rely fun w => removed = true → w.table = none := none_stable.imp
    refine Triple.weaken ?_ (fun w _ h => (h.1 hinstalled : Ready port ipv6 dnsPort w)) fun _ _ h => h
    refine (other_ask hready).bind (points_others old) fun _ => ?_
    refine (mainLoop_keeping n).triple.bind (points_others old) fun _ => ?_
    refine (remove_triple hready fun w h => (@Supplied.load old _ _ _ _ h.supplied none (by simp)).2).bind
      (points_others old) fun removed => ?_
    refine Triple.weaken ?_ (fun w _ h => h.2) fun _ _ h => h
    refine (other_ask hnone).bind (points_others old) fun _ => ?_
    refine (other_ask hnone).bind (points_others old) fun _ => ?_
    exact .pure (ended_stable old (0, removed)) fun w _ h => ⟨h, fun hcode => absurd hcode (by simp)⟩
  · refine Triple.weaken ?_ (fun w _ h => (h.2 (Bool.eq_false_iff.mpr hinstalled) : Silent old w)) fun _ _ h => h
    refine (remove_triple (silent_stable old) fun w _ t ht => absurd ht (by simp)).bind (points_others old)
      fun removed => ?_
    refine Triple.weaken ?_ (fun w _ h => (⟨h.2, fun _ => h.1⟩ : Ended old (-1, removed) w)) fun _ _ h => h
    refine close_ended.bind (points_others old) fun _ => ?_
    refine (Triple.ite (fun _ => close_ended) fun _ => .pure (ended_stable old (-1, removed)) fun _ _ h => h).bind
      (points_others old) fun _ => ?_
    exact .pure (ended_stable old (-1, removed)) fun _ _ h => h

theorem failed_ended :
    Triple Op.does Rely (Points old) (Silent old) (Pure.pure (-1, false) : Server (Int × Bool)) (Ended old) :=
  .pure (ended_stable old (-1, false)) fun w _ h => ⟨fun h => absurd h (by simp), fun _ => h⟩

theorem listenAndServe_ended (opt : Options) (n : Nat) :
    Triple Op.does Rely (Points old) (Silent old) (listenAndServe opt n) (Ended old) := by
  have hstart : ∀ w, Silent old w → Closed old [] [] w := fun w h => ⟨h, by simp, by simp⟩
  refine ((listen_closed _).weaken (fun w _ h => hstart w h) fun _ _ h => h).bind (points_others old)
    fun lfd4 => .given fun _ => ?_
  refine .ite (fun hlfd4 => ?_) fun _ => failed_ended.weaken (fun _ _ h => h.1) fun _ _ h => h
  obtain rfl : lfd4 = true := hlfd4
  refine Triple.bind (points_others old) (listen_closed _) fun lfd6 => .given fun _ => ?_
  refine Triple.bind (points_others old) (startDns_awaiting ?_ fun h => ?_) fun dns => serve_ended n
  · cases lfd6 <;> simp
  · simp [h]

theorem runTransparentServer_ended (opt : Options) (n : Nat) :
    Triple Op.does Rely (Points old) (Silent old) (runTransparentServer opt n) (Ended old) := by
  have hstable := silent_stable old
  refine (other_ask hstable).bind (points_others old) fun _ => .ite (fun _ => ?_) fun _ => failed_ended
  refine (other_ask hstable).bind (points_others old) fun _ => .ite (fun _ => ?_) fun _ => failed_ended
  refine (other_ask hstable).bind (points_others old) fun _ => ?_
  refine (other_ask hstable).bind (points_others old) fun _ => ?_
  exact (other_ask hstable).bind (points_others old) fun _ => listenAndServe_ended opt n

end Serving

-- A process has ended in w: what is left is the table, as long as nobody removes it.
structure Left (w w' : World) : Prop where
  time : w.now ≤ w'.now
  table : w'.table = w.table ∨ w'.table = none

-- Whatever fails and whatever others do in between, traffic is never redirected to a port
-- where nobody listens, and wherever the server dies all goes directly after the timeout.
theorem redirect_points {opt : Options} {n : Nat} {w₀ w : World} {rest : Server (Int × Bool)}
    (hsoon : ∀ t, w₀.table = some t → t.Soon w₀.now)
    (hreaches : Reaches Op.does Rely (runTransparentServer opt n) w₀ rest w) :
    (∀ t, w.table = some t → w₀.table = some t ∨ t.Points w) ∧
      (w₀.now + TP_ALIVE_TIMEOUT_S * 1000 ≤ w.now → ∀ t, w.table = some t → t.Points w) ∧
      (∀ w', Left w w' → w.now + TP_ALIVE_TIMEOUT_S * 1000 ≤ w'.now → ∀ t, w'.table = some t → t.Unarmed w'.now) ∧
      ∀ code removed, rest = .ret (code, removed) → (removed = true → w.table = none) ∧
        (code = -1 → ∀ t, w.table = some t → w₀.table = some t ∨ t.Unarmed w.now) := by
  have hstart : Points w₀.table w₀ := ⟨fun t ht => .inl ht, hsoon⟩
  have hended := runTransparentServer_ended opt n w₀ hstart fun t ht => .inl ht
  obtain ⟨hpoints, hkeeps⟩ := hended.reaches (points_others w₀.table) hstart hreaches
  refine ⟨hpoints.target, fun hlate t ht => ?_, fun w' hleft hlate t ht => ?_, ?_⟩
  · rcases hpoints.target t ht with hold | hnew
    · exact ((hsoon t hold).unarmed hlate).points
    · exact hnew
  · have hw : w.table = some t := by
      rcases hleft.table with hsame | hnone
      · exact hsame.symm.trans ht
      · rw [hnone] at ht
        cases ht
    exact (hpoints.soon t hw).unarmed hlate
  · rintro code removed rfl
    obtain ⟨hremoved, hfailed⟩ := hkeeps.ret (points_others w₀.table)
    exact ⟨hremoved, hfailed⟩

def startWorld : World := ⟨0, none, [], []⟩

def servedTable : Table := ⟨1091, false, 1053, some 30000, some 30000⟩

-- No listener for IPv6.
def servedWorld : World where
  now := 0
  table := some servedTable
  listeners := [⟨.inet, .stream, 1053⟩, ⟨.inet, .dgram, 1053⟩, ⟨.inet, .stream, 1091⟩]
  threads := [.verifier, .tcpLoop .inet, .udpLoop .inet]

def servedReplies : List Reply :=
  [.yes, .yes, .yes, .yes, .yes, .yes, .no, .yes, .yes, .yes, .yes, .no, .yes, .yes, .yes, .yes, .yes]

theorem redirect_points_served : servedTable.Points servedWorld ∧ servedTable.Unarmed 30000 := by
  have hreplay : ∃ rest, (runTransparentServer ⟨1091, 1053⟩ 1).replay Op.does servedReplies startWorld =
      some (rest, servedWorld) := ⟨_, rfl⟩
  obtain ⟨rest, hreplay⟩ := hreplay
  have hreaches := Reaches.replay (.start : Reaches Op.does Rely _ _ _ _) servedReplies hreplay
  obtain ⟨htarget, -, hleft, -⟩ := redirect_points (by simp [startWorld]) hreaches
  refine ⟨(htarget servedTable rfl).resolve_left (by simp [startWorld]), ?_⟩
  exact hleft { servedWorld with now := 30000 } ⟨by decide, .inl rfl⟩ (by decide) servedTable rfl

end DpiProxy.Transparent.Linux
