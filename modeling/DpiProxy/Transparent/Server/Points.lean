import DpiProxy.Transparent.Server

namespace DpiProxy.Transparent.Linux

open Interleaving
open Macos (TP_ALIVE_TIMEOUT_S)

-- What passes between two operations of the server: time, and anyone can flush our table.
structure Rely (w w' : World) : Prop where
  time : w.now ≤ w'.now
  table : w'.table = w.table ∨ w'.table = none
  listeners : w'.listeners = w.listeners
  threads : w'.threads = w.threads

-- An alive set with an element: only then do its rules redirect.
def Armed (now : Int) (expires : Option Int) : Prop := ∃ e, expires = some e ∧ now < e

def Table.Unarmed (t : Table) (now : Int) : Prop := ¬ Armed now t.alive ∧ ¬ Armed now t.aliveDns

def Table.Soon (t : Table) (now : Int) : Prop :=
  ∀ e, t.alive = some e ∨ t.aliveDns = some e → e ≤ now + TP_ALIVE_TIMEOUT_S * 1000

def Listens (w : World) (family : AddrFamily) (port : Nat) : Prop := ⟨family, .stream, port⟩ ∈ w.listeners

-- Queries to the port get to the loops of the forwarder.
structure Forwards (w : World) (family : AddrFamily) (port : Nat) : Prop where
  udp : ⟨family, .dgram, port⟩ ∈ w.listeners
  tcp : ⟨family, .stream, port⟩ ∈ w.listeners
  udpLoop : .udpLoop family ∈ w.threads
  tcpLoop : .tcpLoop family ∈ w.threads

-- What redirects to these ports need.
structure Supplied (port : Nat) (ipv6 : Bool) (dnsPort : Nat) (w : World) : Prop where
  tcp : Listens w .inet port ∧ (ipv6 = true → Listens w .inet6 port)
  dns : dnsPort > 0 → Forwards w .inet dnsPort ∧ (ipv6 = true → Forwards w .inet6 dnsPort)

structure Table.Points (t : Table) (w : World) : Prop where
  tcp : Armed w.now t.alive → Listens w .inet t.port ∧ (t.ipv6 = true → Listens w .inet6 t.port)
  dns : Armed w.now t.aliveDns → Forwards w .inet t.dnsPort ∧ (t.ipv6 = true → Forwards w .inet6 t.dnsPort)

-- The table is the one that an earlier server has left, or its redirects point at something.
structure Points (old : Option Table) (w : World) : Prop where
  target : ∀ t, w.table = some t → old = some t ∨ t.Points w
  soon : ∀ t, w.table = some t → t.Soon w.now

-- This server has no traffic redirected.
def Silent (old : Option Table) (w : World) : Prop := ∀ t, w.table = some t → old = some t ∨ t.Unarmed w.now

-- Rules are loaded for these ports, if any are.
structure Ready (port : Nat) (ipv6 : Bool) (dnsPort : Nat) (w : World) : Prop where
  supplied : Supplied port ipv6 dnsPort w
  ours : ∀ t, w.table = some t →
    t.port = port ∧ t.ipv6 = ipv6 ∧ t.dnsPort = dnsPort ∧ (t.aliveDns ≠ none → dnsPort > 0)

def Has (ls : List Listener) (ts : List ServerThread) (w : World) : Prop :=
  (∀ l ∈ ls, l ∈ w.listeners) ∧ ∀ t ∈ ts, t ∈ w.threads

-- Before the rules are loaded.
def Closed (old : Option Table) (ls : List Listener) (ts : List ServerThread) (w : World) : Prop :=
  Silent old w ∧ Has ls ts w

section Stability

variable {old : Option Table} {w w' : World}

theorem Rely.refl (w : World) : Rely w w := ⟨Int.le_refl _, .inl rfl, rfl, rfl⟩

theorem Rely.trans {w'' : World} (h : Rely w w') (h' : Rely w' w'') : Rely w w'' where
  time := h.time.trans h'.time
  table := by
    rcases h'.table with hsame | hnone
    · rw [hsame]
      exact h.table
    · exact .inr hnone
  listeners := h'.listeners.trans h.listeners
  threads := h'.threads.trans h.threads

theorem Rely.some (h : Rely w w') {t : Table} (ht : w'.table = some t) : w.table = some t := by
  rcases h.table with hsame | hnone
  · exact hsame.symm.trans ht
  · rw [hnone] at ht
    cases ht

theorem Armed.earlier {now now' : Int} {expires : Option Int} (h : Armed now' expires) (hle : now ≤ now') :
    Armed now expires := by
  obtain ⟨e, he, hlt⟩ := h
  exact ⟨e, he, lt_of_le_of_lt hle hlt⟩

theorem Table.Unarmed.later {t : Table} {now now' : Int} (h : t.Unarmed now) (hle : now ≤ now') : t.Unarmed now' :=
  ⟨fun harmed => h.1 (harmed.earlier hle), fun harmed => h.2 (harmed.earlier hle)⟩

theorem Table.Soon.later {t : Table} {now now' : Int} (h : t.Soon now) (hle : now ≤ now') : t.Soon now' := by
  intro e he
  have := h e he
  omega

-- An element is gone after its timeout.
theorem Table.Soon.unarmed {t : Table} {now now' : Int} (h : t.Soon now)
    (hle : now + TP_ALIVE_TIMEOUT_S * 1000 ≤ now') :
    t.Unarmed now' := by
  refine ⟨?_, ?_⟩
  · rintro ⟨e, he, hlt⟩
    have := h e (.inl he)
    omega
  · rintro ⟨e, he, hlt⟩
    have := h e (.inr he)
    omega

theorem Table.Unarmed.points {t : Table} (h : t.Unarmed w.now) : t.Points w :=
  ⟨fun harmed => absurd harmed h.1, fun harmed => absurd harmed h.2⟩

theorem Rely.listens (h : Rely w w') {family : AddrFamily} {port : Nat} (hl : Listens w family port) :
    Listens w' family port := by
  rw [Listens, h.listeners]
  exact hl

theorem Rely.forwards (h : Rely w w') {family : AddrFamily} {port : Nat} (hf : Forwards w family port) :
    Forwards w' family port := by
  obtain ⟨udp, tcp, udpLoop, tcpLoop⟩ := hf
  rw [← h.listeners] at udp tcp
  rw [← h.threads] at udpLoop tcpLoop
  exact ⟨udp, tcp, udpLoop, tcpLoop⟩

theorem Rely.points (h : Rely w w') {t : Table} (ht : t.Points w) : t.Points w' := by
  refine ⟨fun harmed => ?_, fun harmed => ?_⟩
  · obtain ⟨h4, h6⟩ := ht.tcp (harmed.earlier h.time)
    exact ⟨h.listens h4, fun hv6 => h.listens (h6 hv6)⟩
  · obtain ⟨h4, h6⟩ := ht.dns (harmed.earlier h.time)
    exact ⟨h.forwards h4, fun hv6 => h.forwards (h6 hv6)⟩

theorem points_others (old : Option Table) : Others Rely (Points old) where
  refl := Rely.refl
  trans := Rely.trans
  keep := by
    intro w w' h hpoints
    refine ⟨fun t ht => ?_, fun t ht => (hpoints.soon t (h.some ht)).later h.time⟩
    exact (hpoints.target t (h.some ht)).imp_right h.points

theorem silent_stable (old : Option Table) : Stable Rely (Silent old) := by
  intro w w' h hsilent t ht
  exact (hsilent t (h.some ht)).imp_right fun hun => hun.later h.time

theorem closed_stable (old : Option Table) (ls : List Listener) (ts : List ServerThread) :
    Stable Rely (Closed old ls ts) := by
  refine (silent_stable old).and fun w w' h hhas => ?_
  rw [Has, h.listeners, h.threads]
  exact hhas

theorem supplied_stable (port : Nat) (ipv6 : Bool) (dnsPort : Nat) : Stable Rely (Supplied port ipv6 dnsPort) := by
  rintro w w' h ⟨⟨h4, h6⟩, dns⟩
  refine ⟨⟨h.listens h4, fun hv6 => h.listens (h6 hv6)⟩, fun hdns => ?_⟩
  obtain ⟨hd4, hd6⟩ := dns hdns
  exact ⟨h.forwards hd4, fun hv6 => h.forwards (hd6 hv6)⟩

theorem ready_stable (port : Nat) (ipv6 : Bool) (dnsPort : Nat) : Stable Rely (Ready port ipv6 dnsPort) :=
  fun w w' h hready => ⟨supplied_stable _ _ _ w w' h hready.supplied, fun t ht => hready.ours t (h.some ht)⟩

theorem none_stable : Stable Rely fun w => w.table = none := by
  intro w w' h hnone
  rcases h.table with hsame | hnone'
  · rw [hsame, hnone]
  · exact hnone'

end Stability

section Asking

variable {old : Option Table} {pre : World → Prop}

theorem ask_triple {o : Op} {post : Bool → World → Prop} (hpre : Stable Rely pre) (hpost : ∀ b, Stable Rely (post b))
    (h : ∀ w r w', Points old w → pre w → o.does r w = some w' → Points old w' ∧ post (decide (r = .yes)) w') :
    Triple Op.does Rely (Points old) pre (ask o) post := by
  refine (Triple.perform (points_others old) hpre (fun r => hpost (decide (r = .yes))) h).bind (points_others old)
    fun r => ?_
  exact .pure (hpost _) fun w _ hr => hr

-- Operations that leave the world as it is.
def Op.Quiet : Op → Prop
  | .other _ | .now | .nft .quicFlush | .nft .listForeign => True
  | _ => False

theorem quiet_same {o : Op} (h : o.Quiet) {r : Reply} {w w' : World} (hdoes : o.does r w = some w') : w' = w := by
  cases o with
  | listen | close | thread => exact h.elim
  | other o =>
      cases r with
      | yes | no => exact (Option.some.inj hdoes).symm
      | time t => cases hdoes
  | now =>
      cases r with
      | yes | no => cases hdoes
      | time t =>
          simp only [Op.does] at hdoes
          split at hdoes
          · exact (Option.some.inj hdoes).symm
          · cases hdoes
  | nft script =>
      cases r with
      | no => exact (Option.some.inj hdoes).symm
      | time t => cases hdoes
      | yes =>
          obtain ⟨table, hrun, rfl⟩ := Option.map_eq_some_iff.mp hdoes
          cases script with
          | ruleset | heartbeat | remove => exact h.elim
          | listForeign =>
              obtain rfl := Option.some.inj hrun
              rfl
          | quicFlush =>
              cases htable : w.table with
              | none =>
                  rw [htable] at hrun
                  cases hrun
              | some t =>
                  rw [htable] at hrun
                  obtain rfl := Option.some.inj hrun
                  rw [← htable]

theorem quiet_ask {o : Op} (h : o.Quiet) (hpre : Stable Rely pre) :
    Triple Op.does Rely (Points old) pre (ask o) fun _ => pre := by
  refine ask_triple hpre (fun _ => hpre) fun w r w' hpoints hw hdoes => ?_
  rw [quiet_same h hdoes]
  exact ⟨hpoints, hw⟩

theorem other_ask {o : Other} (hpre : Stable Rely pre) :
    Triple Op.does Rely (Points old) pre (ask (.other o)) fun _ => pre :=
  quiet_ask trivial hpre

theorem listForeign_ask (hpre : Stable Rely pre) :
    Triple Op.does Rely (Points old) pre checkConflicts fun _ => pre :=
  quiet_ask trivial hpre

end Asking

section Opening

variable {old : Option Table} {ls : List Listener} {ts : List ServerThread}

-- As long as nothing is redirected listeners can come and go.
theorem silent_points {w w' : World} (hsilent : Silent old w) (hpoints : Points old w) (htable : w'.table = w.table)
    (hnow : w'.now = w.now) : Silent old w' ∧ Points old w' := by
  have hsilent' : Silent old w' := by
    intro t ht
    rw [htable] at ht
    rw [hnow]
    exact hsilent t ht
  refine ⟨hsilent', fun t ht => (hsilent' t ht).imp_right Table.Unarmed.points, fun t ht => ?_⟩
  rw [htable] at ht
  rw [hnow]
  exact hpoints.soon t ht

theorem Closed.weaken {ls' : List Listener} {ts' : List ServerThread} {w : World} (h : Closed old ls ts w)
    (hls : ∀ l ∈ ls', l ∈ ls) (hts : ∀ t ∈ ts', t ∈ ts) : Closed old ls' ts' w :=
  ⟨h.1, fun l hl => h.2.1 l (hls l hl), fun t ht => h.2.2 t (hts t ht)⟩

-- A listener that is there is not opened again.
theorem listen_closed (l : Listener) :
    Triple Op.does Rely (Points old) (Closed old ls ts) (ask (.listen l)) fun b w =>
      (b = true → l ∉ ls) ∧ Closed old (if b then l :: ls else ls) ts w := by
  refine ask_triple (closed_stable old ls ts) (fun b => (Stable.const _).and (closed_stable old _ ts))
    fun w r w' hpoints hclosed hdoes => ?_
  cases r with
  | yes =>
      simp only [Op.does] at hdoes
      split at hdoes
      · cases hdoes
      · rename_i hnew
        obtain rfl := Option.some.inj hdoes
        obtain ⟨hsilent, hkeeps⟩ :=
          @silent_points _ w { w with listeners := l :: w.listeners } hclosed.1 hpoints rfl rfl
        refine ⟨hkeeps, fun _ hl => hnew (hclosed.2.1 l hl), hsilent, fun x hx => ?_, hclosed.2.2⟩
        rcases List.mem_cons.mp hx with rfl | hx
        · exact List.mem_cons_self
        · exact List.mem_cons_of_mem _ (hclosed.2.1 x hx)
  | no =>
      obtain rfl := Option.some.inj hdoes
      exact ⟨hpoints, fun h => absurd h (by simp), hclosed⟩
  | time t => cases hdoes

theorem thread_closed (t : ServerThread) :
    Triple Op.does Rely (Points old) (Closed old ls ts) (ask (.thread t)) fun b =>
      Closed old ls (if b then t :: ts else ts) := by
  refine ask_triple (closed_stable old ls ts) (fun b => closed_stable old ls _) fun w r w' hpoints hclosed hdoes => ?_
  cases r with
  | yes =>
      obtain rfl := Option.some.inj hdoes
      obtain ⟨hsilent, hkeeps⟩ := @silent_points _ w { w with threads := t :: w.threads } hclosed.1 hpoints rfl rfl
      refine ⟨hkeeps, hsilent, hclosed.2.1, fun x hx => ?_⟩
      rcases List.mem_cons.mp hx with rfl | hx
      · exact List.mem_cons_self
      · exact List.mem_cons_of_mem _ (hclosed.2.2 x hx)
  | no =>
      obtain rfl := Option.some.inj hdoes
      exact ⟨hpoints, hclosed⟩
  | time t => cases hdoes

theorem close_closed {l : Listener} (hl : l ∉ ls) :
    Triple Op.does Rely (Points old) (Closed old ls ts) (ask (.close l)) fun _ => Closed old ls ts := by
  refine ask_triple (closed_stable old ls ts) (fun _ => closed_stable old ls ts) fun w r w' hpoints hclosed hdoes => ?_
  cases r with
  | yes =>
      obtain rfl := Option.some.inj hdoes
      obtain ⟨hsilent, hkeeps⟩ :=
        @silent_points _ w { w with listeners := w.listeners.erase l } hclosed.1 hpoints rfl rfl
      refine ⟨hkeeps, hsilent, fun x hx => ?_, hclosed.2.2⟩
      have hne : x ≠ l := fun heq => hl (heq ▸ hx)
      exact (List.mem_erase_of_ne hne).mpr (hclosed.2.1 x hx)
  | no | time t => cases hdoes

theorem closeIf_closed {opened : Bool} {l : Listener} (hl : opened = true → l ∉ ls) :
    Triple Op.does Rely (Points old) (Closed old ls ts) (closeIf opened l) fun _ => Closed old ls ts :=
  .ite (fun h => close_closed (hl h)) fun _ => .pure (closed_stable old ls ts) fun _ _ h => h

theorem stopFamily_closed {family : AddrFamily} {port : Nat} {udp tcp : Bool}
    (hudp : udp = true → ⟨family, .dgram, port⟩ ∉ ls) (htcp : tcp = true → ⟨family, .stream, port⟩ ∉ ls) :
    Triple Op.does Rely (Points old) (Closed old ls ts) (stopFamily family port udp tcp) fun b w =>
      b = false ∧ Closed old ls ts w := by
  refine (closeIf_closed hudp).bind (points_others old) fun _ => ?_
  refine (closeIf_closed htcp).bind (points_others old) fun _ => ?_
  exact .pure ((Stable.const _).and (closed_stable old ls ts)) fun _ _ h => ⟨rfl, h⟩

def familyListeners (family : AddrFamily) (port : Nat) : List Listener :=
  [⟨family, .stream, port⟩, ⟨family, .dgram, port⟩]

def familyThreads (family : AddrFamily) : List ServerThread := [.tcpLoop family, .udpLoop family]

-- A forwarder is there whole, or nothing is known of it.
def Started (old : Option Table) (ls : List Listener) (ts : List ServerThread) (family : AddrFamily) (port : Nat)
    (b : Bool) : World → Prop :=
  Closed old (if b then familyListeners family port ++ ls else ls) (if b then familyThreads family ++ ts else ts)

theorem stopFamily_started {family : AddrFamily} {port : Nat} {udp tcp : Bool}
    (hudp : udp = true → ⟨family, .dgram, port⟩ ∉ ls) (htcp : tcp = true → ⟨family, .stream, port⟩ ∉ ls) :
    Triple Op.does Rely (Points old) (Closed old ls ts) (stopFamily family port udp tcp)
      (Started old ls ts family port) := by
  refine (stopFamily_closed hudp htcp).weaken (fun _ _ h => h) ?_
  rintro b w ⟨rfl, hclosed⟩
  exact hclosed

theorem startThreads_started {family : AddrFamily} {port : Nat} (hudp : ⟨family, .dgram, port⟩ ∉ ls)
    (htcp : ⟨family, .stream, port⟩ ∉ ls) :
    Triple Op.does Rely (Points old) (Closed old (familyListeners family port ++ ls) ts) (startThreads family port)
      (Started old ls ts family port) := by
  have hless : ∀ {ts' : List ServerThread} {w : World}, (∀ t ∈ ts, t ∈ ts') →
      Closed old (familyListeners family port ++ ls) ts' w → Closed old ls ts w :=
    fun hts hclosed => hclosed.weaken (fun l hl => List.mem_append_right _ hl) hts
  refine (thread_closed _).bind (points_others old) fun udp => ?_
  cases udp with
  | false =>
      exact (stopFamily_started (fun _ => hudp) fun _ => htcp).weaken (fun _ _ h => hless (fun _ ht => ht) h)
        fun _ _ h => h
  | true =>
      refine Triple.bind (points_others old) (thread_closed _) fun tcp => ?_
      cases tcp with
      | false =>
          exact (stopFamily_started (fun h => absurd h (by simp)) fun _ => htcp).weaken
            (fun _ _ h => hless (fun _ ht => List.mem_cons_of_mem _ ht) h) fun _ _ h => h
      | true => exact .pure (closed_stable old _ _) fun _ _ h => h

theorem startFamily_started (family : AddrFamily) (port : Nat) :
    Triple Op.does Rely (Points old) (Closed old ls ts) (startFamily family port) (Started old ls ts family port) := by
  refine (listen_closed _).bind (points_others old) fun udp => .given fun hudp => ?_
  refine Triple.bind (points_others old) (listen_closed _) fun tcp => .given fun htcp => ?_
  have htcp' : tcp = true → ⟨family, .stream, port⟩ ∉ ls := by
    intro h hl
    refine htcp h ?_
    split
    · exact List.mem_cons_of_mem _ hl
    · exact hl
  refine .ite (fun hboth => ?_) fun _ => ?_
  · obtain ⟨rfl, rfl⟩ := (Bool.and_eq_true_iff).mp hboth
    exact startThreads_started (hudp rfl) (htcp' rfl)
  · refine (stopFamily_started hudp htcp').weaken (fun w _ hclosed => hclosed.weaken (fun l hl => ?_) fun _ ht => ht)
      fun _ _ h => h
    split <;> split <;> simp [hl]

end Opening

end DpiProxy.Transparent.Linux
