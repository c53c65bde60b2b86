import DpiProxy.Transparent.Macos.System

namespace DpiProxy.Transparent.Macos

open Wire Interleaving

-- What the watchdogs may have done between two operations of the daemon.
structure Rely (w w' : World) : Prop where
  anchor : ∀ part, w'.host.anchor part = true → w.host.anchor part = true
  child : ∀ p', w'.child = some p' → ∃ p, w.child = some p ∧ Same p p'
  stays : w.child.isSome = true → w'.child.isSome = true

-- The child, if it is alive.
def Child (P : Process → Prop) (w : World) : Prop := ∀ p, w.child = some p → p.dead = false → P p

def Respects (P : Process → Prop) : Prop := ∀ p p', Same p p' → P p → P p'

-- A watchdog that has been told to quit, or is no longer told anything, leaves no rules
-- behind.
def Safe (w : World) : Prop := Child (fun p => p.told.clean = true ∨ p.writer = false → w.host.Empty) w

-- pfctl does empty our anchor.
def Op.taken (o : Op) (r : Reply) (w : World) : Option World :=
  match o with
  | .flush _ => if r.ok then o.does r w else none
  | _ => o.does r w

section Stability

variable {P : Process → Prop} {w w' : World}

theorem Rely.refl (w : World) : Rely w w := ⟨fun _ h => h, fun p hp => ⟨p, hp, .refl p⟩, id⟩

theorem Rely.trans {w'' : World} (h : Rely w w') (h' : Rely w' w'') : Rely w w'' where
  anchor part hp := h.anchor part (h'.anchor part hp)
  child p'' hp := by
    obtain ⟨p', hp', hsame'⟩ := h'.child p'' hp
    obtain ⟨p, hp, hsame⟩ := h.child p' hp'
    exact ⟨p, hp, hsame.trans hsame'⟩
  stays hs := h'.stays (h.stays hs)

theorem Rely.empty (h : Rely w w') (hempty : w.host.Empty) : w'.host.Empty := by
  intro part
  cases hpart : w'.host.anchor part with
  | false => rfl
  | true => rw [← hempty part, h.anchor part hpart]

theorem child_stable (hP : Respects P) : Stable Rely (Child P) := by
  intro w w' h hchild p' hp' halive
  obtain ⟨p, hp, hsame⟩ := h.child p' hp'
  refine hP p p' hsame (hchild p hp ?_)
  cases hdead : p.dead with
  | false => rfl
  | true => exact (hsame.dead hdead).symm.trans halive

theorem parse_clean {w v : Watchdog} (h : w.parse = v.parse) : w.clean = v.clean := by
  simp only [Watchdog.parse, Prod.mk.injEq] at h
  exact h.2.2.2

theorem safe_others : Others Rely Safe where
  refl := Rely.refl
  trans := Rely.trans
  keep := by
    intro w w' h hsafe p' hp' halive htold
    obtain ⟨p, hp, hsame⟩ := h.child p' hp'
    refine h.empty (hsafe p hp ?_ ?_)
    · cases hdead : p.dead with
      | false => rfl
      | true => exact (hsame.dead hdead).symm.trans halive
    · rw [← hsame.writer, ← parse_clean hsame.told]
      exact htold

-- Parts of the anchor that are known to be empty, and what the child is like.
def At (P : Process → Prop) (parts : List Part) (w : World) : Prop :=
  Child P w ∧ ∀ part ∈ parts, w.host.anchor part = false

def ALL : List Part := [.tables, .rules, .nat]

theorem At.empty (h : At P ALL w) : w.host.Empty := by
  intro part
  exact h.2 part (by cases part <;> simp [ALL])

theorem At.weaken {P' : Process → Prop} {parts parts' : List Part} (h : At P parts w) (hP : ∀ p, P p → P' p)
    (hparts : parts' ⊆ parts) : At P' parts' w :=
  ⟨fun p hp halive => hP p (h.1 p hp halive), fun part hpart => h.2 part (hparts hpart)⟩

theorem at_stable {parts : List Part} (hP : Respects P) : Stable Rely (At P parts) := by
  intro w w' h hat
  refine ⟨child_stable hP w w' h hat.1, fun part hpart => ?_⟩
  cases hanchor : w'.host.anchor part with
  | false => rfl
  | true => rw [← hat.2 part hpart, h.anchor part hanchor]

-- A pipe to a child stands only with a child.
def Has (fd : Bool) (w : World) : Prop := fd = true → w.child.isSome = true

theorem has_stable (fd : Bool) : Stable Rely (Has fd) := fun _ _ h hhas hfd => h.stays (hhas hfd)

end Stability

section Harmless

-- Operations that do not load rules and have nothing to do with the child.
def Op.Harmless : Op → Prop
  | .load | .reap | .kill | .spawn | .send _ | .closePipe => False
  | _ => True

theorem harmless_rely {o : Op} (h : o.Harmless) (r : Reply) (w w' : World) (hdoes : o.taken r w = some w') :
    Rely w w' := by
  have hkept : ∀ host : Host, (∀ part, host.anchor part = true → w.host.anchor part = true) →
      Rely w { w with host := host } := fun host hhost => ⟨hhost, fun p hp => ⟨p, hp, .refl p⟩, id⟩
  have hwhen : ∀ (b : Bool) (host : Host), (∀ part, host.anchor part = true → w.host.anchor part = true) →
      Rely w (if b then { w with host := host } else w) := by
    intro b host hhost
    cases b with
    | true => exact hkept host hhost
    | false => exact .refl w
  cases o with
  | load | reap | kill | spawn | send | closePipe => exact h.elim
  | flush part =>
      simp only [Op.taken, Op.does] at hdoes
      split at hdoes
      · obtain rfl := Option.some.inj hdoes
        exact hkept _ (flush_shrinks w.host part).anchor
      · cases hdoes
  | loadMain | readConf | pipe =>
      obtain rfl := Option.some.inj hdoes
      exact .refl w
  | view what =>
      simp only [Op.taken, Op.does] at hdoes
      split at hdoes
      · obtain rfl := Option.some.inj hdoes
        exact .refl w
      · cases hdoes
  | readToken =>
      simp only [Op.taken, Op.does] at hdoes
      split at hdoes
      · obtain rfl := Option.some.inj hdoes
        exact .refl w
      · cases hdoes
  | enable =>
      simp only [Op.taken, Op.does] at hdoes
      split at hdoes
      · obtain rfl := Option.some.inj hdoes
        split
        · exact .refl w
        · exact hkept _ fun _ hp => hp
      · obtain rfl := Option.some.inj hdoes
        exact .refl w
  | release | writeToken | unlinkToken =>
      obtain rfl := Option.some.inj hdoes
      exact hwhen r.ok _ fun _ hp => hp

-- Programs that only look, or touch the token and its file, or empty the anchor.
theorem Only.keeps {α : Type} {x : Daemon α} {res : α → Prop} {pre : World → Prop} (h : Only Op.Harmless res x)
    (hpre : Stable Rely pre) : Triple Op.taken Rely Safe pre x fun a w => res a ∧ pre w :=
  Only.triple safe_others h hpre fun _ ho r w w' hdoes => harmless_rely ho r w w' hdoes

def Anything {α : Type} (_ : α) : Prop := True

theorem after_only {β : Type} {o : Op} {f : Reply → Daemon β} {res : β → Prop} (h : o.Harmless)
    (hnext : ∀ r, Only Op.Harmless res (f r)) : Only Op.Harmless res (perform o >>= f) :=
  ⟨h, hnext⟩

theorem anchorPresent_only : Only Op.Harmless Anything anchorPresent := by
  refine after_only trivial fun nat => .ite (fun _ => ?_) fun _ => trivial
  exact after_only trivial fun rules => trivial

theorem mainHooksPresent_only : Only Op.Harmless Anything mainHooksPresent := by
  refine after_only trivial fun nat => .ite (fun _ => ?_) fun _ => trivial
  exact after_only trivial fun rules => .ite (fun _ => trivial) fun _ => trivial

theorem ensureMainHooks_only : Only Op.Harmless Anything ensureMainHooks := by
  refine mainHooksPresent_only.bind fun found _ => .ite (fun _ => trivial) fun _ => .ite (fun _ => ?_) fun _ => trivial
  refine after_only trivial fun conf => .ite (fun _ => ?_) fun _ => trivial
  refine after_only trivial fun loaded => .ite (fun _ => ?_) fun _ => trivial
  exact mainHooksPresent_only.bind fun again _ => trivial

theorem pfEnabled_only : Only Op.Harmless Anything pfEnabled :=
  after_only trivial fun _ => trivial

theorem pfRelease_only (token : Bytes) : Only Op.Harmless Anything (pfRelease token) :=
  .ite (fun _ => after_only trivial fun _ => trivial) fun _ => trivial

theorem tokenFileForget_only (token : Bytes) : Only Op.Harmless Anything (tokenFileForget token) := by
  refine after_only trivial fun cur => .ite (fun _ => ?_) fun _ => trivial
  exact after_only trivial fun _ => trivial

theorem flushAnchor_only : Only Op.Harmless Anything flushAnchor := by
  refine after_only trivial fun _ => after_only trivial fun _ => ?_
  exact after_only trivial fun _ => trivial

theorem staleCleanup_only : Only Op.Harmless Anything staleCleanup := by
  refine flushAnchor_only.bind fun _ _ => after_only trivial fun old => .ite (fun _ => ?_) fun _ => trivial
  exact (pfRelease_only _).bind fun _ _ => tokenFileForget_only _

-- Only the token changes, and there is none if PF has not been enabled.
theorem pfEnable_only {g : Globals} (hnone : g.token.digits = []) :
    Only Op.Harmless (fun r : Bool × Globals =>
      (∃ t, r.2 = { g with token := t }) ∧ (r.1 = false → r.2.token.digits = [])) (pfEnable g) := by
  refine after_only trivial fun out => ?_
  cases tokenIn out.text with
  | none => exact ⟨⟨g.token, rfl⟩, fun _ => hnone⟩
  | some t =>
      refine .ite (fun hempty => ⟨⟨t, rfl⟩, fun _ => hempty⟩) fun _ => ?_
      exact after_only trivial fun _ => ⟨⟨t, rfl⟩, fun hfalse => absurd hfalse (by simp)⟩

-- Three runs of pfctl, and nothing is left in the anchor.
theorem flushAnchor_empties {P : Process → Prop} {parts : List Part} (hP : Respects P) :
    Triple Op.taken Rely Safe (At P parts) flushAnchor fun _ => At P ALL := by
  have hflush : ∀ (parts : List Part) (part : Part),
      Triple Op.taken Rely Safe (At P parts) (perform (.flush part)) fun _ => At P (part :: parts) := by
    intro parts part
    refine .perform safe_others (at_stable hP) (fun _ => at_stable hP) fun w r w' hsafe hat hdoes => ?_
    have hrely := harmless_rely (o := .flush part) trivial r w w' hdoes
    refine ⟨safe_others.keep w w' hrely hsafe, child_stable hP w w' hrely hat.1, ?_⟩
    intro q hq
    simp only [Op.taken, Op.does] at hdoes
    split at hdoes
    · obtain rfl := Option.some.inj hdoes
      by_cases hsame : q = part
      · simp [Host.flush, hsame]
      · rcases List.mem_cons.mp hq with rfl | hq
        · exact absurd rfl hsame
        · simp [Host.flush, hat.2 q hq]
    · cases hdoes
  refine (hflush parts .nat).bind safe_others fun _ => (hflush _ .rules).bind safe_others fun _ => ?_
  refine (hflush _ .tables).bind safe_others fun _ => ?_
  refine .pure (at_stable hP) fun w _ hat => hat.weaken (fun _ h => h) ?_
  intro part hpart
  simp only [ALL, List.mem_cons, List.not_mem_nil, or_false] at hpart ⊢
  rcases hpart with rfl | rfl | rfl <;> simp

end Harmless

section Link

-- A watchdog that the daemon talks to, that knows this token and is not to quit.
structure Linked (g : Globals) (token : Bytes) (p : Process) : Prop where
  pid : g.wdPid = true
  fd : g.wdFd = true
  writer : p.writer = true
  ready : p.told.Ready
  clean : p.told.clean = false
  token : token ≠ [] → cstr p.told.token = token

theorem linked_respects (g : Globals) (token : Bytes) : Respects (Linked g token) := by
  intro p p' hsame h
  have htold := hsame.told
  simp only [Watchdog.parse, Prod.mk.injEq] at htold
  obtain ⟨htoken, -, hidle, hclean⟩ := htold
  exact ⟨h.pid, h.fd, hsame.writer.trans h.writer, ⟨by rw [htoken]; exact h.ready.buffer, hidle.trans h.ready.idle⟩,
    hclean.trans h.clean, fun hne => by rw [htoken]; exact h.token hne⟩

theorem Linked.forget {g : Globals} {token : Bytes} {p : Process} (h : Linked g token p) : Linked g [] p :=
  ⟨h.pid, h.fd, h.writer, h.ready, h.clean, fun hne => absurd rfl hne⟩

-- Only what has to do with the watchdog changes.
def Globals.relink (g : Globals) (pid fd : Bool) : Globals := { g with wdPid := pid, wdFd := fd }

-- What the daemon knows of its watchdog.
def Knows (g : Globals) (token : Bytes) (w : World) : Prop := Child (Linked g token) w ∧ Has g.wdFd w

theorem knows_stable (g : Globals) (token : Bytes) : Stable Rely (Knows g token) :=
  (child_stable (linked_respects g token)).and (has_stable g.wdFd)

-- Without a pipe or without a process id there is no living child.
theorem nobody_of_unlinked {g : Globals} {token : Bytes} {w : World} (h : Child (Linked g token) w)
    (hnone : g.wdPid = false ∨ g.wdFd = false) : Child (fun _ => False) w := by
  intro p hp halive
  obtain ⟨hpid, hfd, -⟩ := h p hp halive
  rcases hnone with hno | hno
  · exact absurd (hno.symm.trans hpid) (by simp)
  · exact absurd (hno.symm.trans hfd) (by simp)

theorem nobody_respects : Respects fun _ => False := fun _ _ _ h => h

theorem Linked.safe {g : Globals} {token : Bytes} {w : World} (h : Child (Linked g token) w) : Safe w := by
  intro p hp halive htold
  obtain ⟨-, -, hwriter, -, hclean, -⟩ := h p hp halive
  rcases htold with hquit | hclosed
  · exact absurd (hclean.symm.trans hquit) (by simp)
  · exact absurd (hclosed.symm.trans hwriter) (by simp)

theorem told_send (p : Process) (bytes : Bytes) :
    Process.told { p with pipe := p.pipe ++ bytes } = bytes.foldl (Watchdog.byte 0) p.told :=
  List.foldl_append

-- A message is read whole, behind all that has been sent before.
theorem linked_send {g : Globals} {token : Bytes} {p : Process} (m : Message) (h : Linked g token p)
    (hquit : m ≠ .quit) :
    Linked g (m.renames token) { p with pipe := p.pipe ++ m.bytes } := by
  obtain ⟨hready, htoken, hclean⟩ := @message_read p.told 0 m h.ready
  refine ⟨h.pid, h.fd, h.writer, ?_, ?_, fun hne => ?_⟩
  · rw [told_send]
    exact hready
  · rw [told_send, hclean, h.clean, decide_eq_false hquit]
    rfl
  · rw [told_send, htoken]
    cases m with
    | token t => rfl
    | beat => exact h.token hne
    | quit => exact absurd rfl hquit

-- The child gets the message, or is no more.
theorem send_cases {w w' : World} {bytes : Bytes} {r : Reply} (h : (Op.send bytes).taken r w = some w') :
    (r.ok = true ∧ ∃ p, w.child = some p ∧ p.dead = false ∧
        w' = { w with child := some { p with pipe := p.pipe ++ bytes } }) ∨
      (r.ok = false ∧ w' = w ∧ ∀ p, w.child = some p → p.dead = true) := by
  simp only [Op.taken, Op.does] at h
  split at h
  · rename_i hnone
    split at h
    · cases h
    · rename_i hok
      obtain rfl := Option.some.inj h
      exact .inr ⟨Bool.not_eq_true _ ▸ hok, rfl, fun p hp => absurd (hnone.symm.trans hp) (by simp)⟩
  · rename_i p hp
    split at h
    · rename_i hdead
      split at h
      · cases h
      · rename_i hok
        obtain rfl := Option.some.inj h
        refine .inr ⟨Bool.not_eq_true _ ▸ hok, rfl, fun q hq => ?_⟩
        obtain rfl := Option.some.inj (hp.symm.trans hq)
        exact hdead
    · rename_i hdead
      split at h
      · rename_i hok
        obtain rfl := Option.some.inj h
        exact .inl ⟨hok.1, p, hp, Bool.not_eq_true _ ▸ hdead, rfl⟩
      · cases h

theorem closePipe_spec {parts : List Part} :
    Triple Op.taken Rely Safe (At (fun _ => False) parts) (perform .closePipe) fun _ => At (fun _ => False) parts := by
  refine .perform safe_others (at_stable nobody_respects) (fun _ => at_stable nobody_respects)
    fun w r w' _ hat hdoes => ?_
  obtain rfl := Option.some.inj hdoes
  have hnobody : Child (fun _ => False) { w with child := w.child.map fun p => { p with writer := false } } := by
    intro p hp halive
    obtain ⟨q, hq, rfl⟩ := Option.map_eq_some_iff.mp hp
    exact hat.1 q hq halive
  exact ⟨fun p hp halive => (hnobody p hp halive).elim, hnobody, hat.2⟩

theorem wdSend_spec (m : Message) (hquit : m ≠ .quit) (g : Globals) (token : Bytes) :
    Triple Op.taken Rely Safe (Child (Linked g token)) (wdSend m g)
      fun g' w => (∃ fd, g' = g.relink g.wdPid fd) ∧ Knows g' (m.renames token) w := by
  have hstable : ∀ r : Reply, Stable Rely fun w =>
      (r.ok = true → Knows g (m.renames token) w) ∧ (r.ok = false → Child (fun _ => False) w) := fun r =>
    (Stable.imp (knows_stable g _)).and (Stable.imp (child_stable nobody_respects))
  refine .ite (fun hfd => ?_) fun hfd => ?_
  · refine Triple.bind safe_others (.perform safe_others (child_stable (linked_respects g token)) hstable
      fun w r w' hsafe hchild hdoes => ?_) fun r =>
      .ite (fun hok => ?_) fun hok => ?_
    · rcases send_cases hdoes with ⟨hok, p, hp, halive, rfl⟩ | ⟨hok, rfl, hdead⟩
      · have hsent : Child (Linked g (m.renames token))
            { w with child := some { p with pipe := p.pipe ++ m.bytes } } := by
          intro q hq _
          obtain rfl := Option.some.inj hq
          exact linked_send m (hchild p hp halive) hquit
        exact ⟨Linked.safe hsent, fun _ => ⟨hsent, fun _ => rfl⟩, fun hno => absurd (hok.symm.trans hno) (by simp)⟩
      · refine ⟨hsafe, fun hyes => absurd (hok.symm.trans hyes) (by simp), fun _ p hp halive => ?_⟩
        exact absurd ((hdead p hp).symm.trans halive) (by simp)
    · exact .pure ((Stable.const _).and (knows_stable g _)) fun w _ hpost => ⟨⟨g.wdFd, rfl⟩, hpost.1 hok⟩
    · refine (@closePipe_spec []).weaken (fun w _ hpost => ⟨hpost.2 (Bool.not_eq_true _ ▸ hok), by simp⟩)
        (fun _ _ h => h) |>.bind safe_others fun _ => ?_
      refine .pure ((Stable.const _).and (knows_stable _ _)) fun w _ hat => ⟨⟨false, rfl⟩, ?_, fun hno => by cases hno⟩
      exact fun p hp halive => (hat.1 p hp halive).elim
  · refine .pure ((Stable.const _).and (knows_stable g _)) fun w _ hchild =>
      ⟨⟨g.wdFd, rfl⟩, ?_, fun hyes => absurd hyes hfd⟩
    have hnobody := nobody_of_unlinked hchild (.inr (Bool.not_eq_true _ ▸ hfd))
    exact fun p hp halive => (hnobody p hp halive).elim

theorem wdSendToken_spec (g : Globals) (token : Bytes) :
    Triple Op.taken Rely Safe (Knows g token) (wdSendToken g)
      fun g' w => (∃ fd, g' = g.relink g.wdPid fd) ∧ Knows g' g.token.digits w := by
  refine .ite (fun hnone => ?_) fun _ => ?_
  · refine .pure ((Stable.const _).and (knows_stable g _)) fun w _ hknows => ⟨⟨g.wdFd, rfl⟩, ?_, hknows.2⟩
    rw [hnone]
    exact fun p hp halive => (hknows.1 p hp halive).forget
  · exact (wdSend_spec (.token g.token) (by simp) g token).weaken (fun _ _ h => h.1) fun _ _ h => h

-- The child is reaped when it is dead, and not before.
theorem reap_cases {w w' : World} {r : Reply} (h : Op.reap.taken r w = some w') :
    (r.ok = true ∧ w'.child = none ∧ w'.host = w.host) ∨ (r.ok = false ∧ w' = w) := by
  simp only [Op.taken, Op.does] at h
  split at h
  · rename_i hnone
    split at h
    · rename_i hok
      obtain rfl := Option.some.inj h
      exact .inl ⟨hok, hnone, rfl⟩
    · cases h
  · split at h
    · cases hok : r.ok with
      | true =>
          rw [hok, if_pos rfl] at h
          obtain rfl := Option.some.inj h
          exact .inl ⟨rfl, rfl, rfl⟩
      | false =>
          rw [hok, if_neg (by simp)] at h
          obtain rfl := Option.some.inj h
          exact .inr ⟨rfl, rfl⟩
    · cases h

theorem wdReap_spec {P : Process → Prop} (hP : Respects P) (parts : List Part) (sleeps : Nat) (g : Globals) :
    Triple Op.taken Rely Safe (At (fun p => g.wdPid = true ∧ P p) parts) (wdReap sleeps g)
      fun g' w => (∃ pid, g' = g.relink pid g.wdFd) ∧ At (fun p => g'.wdPid = true ∧ P p) parts w := by
  have hrespects : ∀ g : Globals, Respects fun p => g.wdPid = true ∧ P p :=
    fun g p p' hsame h => ⟨h.1, hP p p' hsame h.2⟩
  have hstays : ∀ g' : Globals, Stable Rely fun w => (∃ pid, g' = g.relink pid g.wdFd) ∧
      At (fun p => g'.wdPid = true ∧ P p) parts w := fun g' =>
    (Stable.const _).and (at_stable (hrespects g'))
  have hreap : Triple Op.taken Rely Safe (At (fun p => g.wdPid = true ∧ P p) parts) (perform .reap) fun r w =>
      (r.ok = true → At (fun _ => False) parts w) ∧ (r.ok = false → At (fun p => g.wdPid = true ∧ P p) parts w) := by
    refine .perform safe_others (at_stable (hrespects g)) (fun r => ?_) fun w r w' hsafe hat hdoes => ?_
    · exact (Stable.imp (at_stable nobody_respects)).and (Stable.imp (at_stable (hrespects g)))
    · rcases reap_cases hdoes with ⟨hok, hnone, hhost⟩ | ⟨hok, rfl⟩
      · have hnobody : ∀ p, w'.child = some p → False := fun p hp => absurd (hnone.symm.trans hp) (by simp)
        refine ⟨fun p hp => (hnobody p hp).elim, fun _ => ⟨fun p hp _ => hnobody p hp, ?_⟩, fun hno => ?_⟩
        · rw [hhost]
          exact hat.2
        · exact absurd (hok.symm.trans hno) (by simp)
      · exact ⟨hsafe, fun hyes => absurd (hok.symm.trans hyes) (by simp), fun _ => hat⟩
  induction sleeps with
  | zero =>
      refine .ite (fun _ => hreap.bind safe_others fun r => .ite (fun hok => ?_) fun hok => ?_) fun hpid => ?_
      · exact .pure (hstays _) fun w _ h =>
          ⟨⟨false, rfl⟩, (h.1 hok).weaken (fun _ hno => hno.elim) (List.Subset.refl _)⟩
      · exact .pure (hstays _) fun w _ h => ⟨⟨g.wdPid, rfl⟩, h.2 (Bool.not_eq_true _ ▸ hok)⟩
      · exact .pure (hstays _) fun w _ h => ⟨⟨g.wdPid, rfl⟩, h⟩
  | succ sleeps ih =>
      refine .ite (fun _ => hreap.bind safe_others fun r => .ite (fun hok => ?_) fun hok => ?_) fun hpid => ?_
      · exact .pure (hstays _) fun w _ h =>
          ⟨⟨false, rfl⟩, (h.1 hok).weaken (fun _ hno => hno.elim) (List.Subset.refl _)⟩
      · exact ih.weaken (fun w _ h => h.2 (Bool.not_eq_true _ ▸ hok)) fun _ _ h => h
      · exact .pure (hstays _) fun w _ h => ⟨⟨g.wdPid, rfl⟩, h⟩

theorem fresh_linked (g : Globals) {stack : Bytes} (h : stack.length = 31) :
    Linked (g.relink true true) [] (.fresh stack) :=
  ⟨rfl, rfl, rfl, start_ready h, rfl, fun hne => absurd rfl hne⟩

theorem wdSpawn_spec (g : Globals) (hfd : g.wdFd = false) :
    Triple Op.taken Rely Safe (At (fun _ => False) []) (wdSpawn g)
      fun g' w => (∃ pid fd, g' = g.relink pid fd) ∧ Knows g' g.token.digits w := by
  have hnone : ∀ (pid : Bool) (w : World), At (fun _ => False) [] w → Knows (g.relink pid g.wdFd) g.token.digits w :=
    fun pid w hat => ⟨fun p hp halive => (hat.1 p hp halive).elim, fun hyes => absurd (hfd.symm.trans hyes) (by simp)⟩
  have hspawn : Triple Op.taken Rely Safe (At (fun _ => False) []) (perform .spawn) fun r w =>
      (r.ok = true → Knows (g.relink true true) [] w) ∧ (r.ok = false → At (fun _ => False) [] w) := by
    refine .perform safe_others (at_stable nobody_respects) (fun r => ?_) fun w r w' hsafe hat hdoes => ?_
    · exact (Stable.imp (knows_stable _ _)).and (Stable.imp (at_stable nobody_respects))
    · simp only [Op.taken, Op.does] at hdoes
      split at hdoes
      · rename_i hok
        split at hdoes
        · rename_i hstack
          obtain rfl := Option.some.inj hdoes
          have hchild : Child (Linked (g.relink true true) [])
              { w with child := some (.fresh r.text), orphans := w.orphans ++ w.child.toList } := by
            intro p hp _
            obtain rfl := Option.some.inj hp
            exact fresh_linked g hstack
          exact ⟨Linked.safe hchild, fun _ => ⟨hchild, fun _ => rfl⟩, fun hno => absurd (hok.symm.trans hno) (by simp)⟩
        · cases hdoes
      · rename_i hok
        obtain rfl := Option.some.inj hdoes
        exact ⟨hsafe, fun hyes => absurd hyes hok, fun _ => hat⟩
  have hpipe : Triple Op.taken Rely Safe (At (fun _ => False) []) (perform .pipe) fun _ => At (fun _ => False) [] := by
    refine .perform safe_others (at_stable nobody_respects) (fun _ => at_stable nobody_respects)
      fun w r w' hsafe hat hdoes => ?_
    obtain rfl := Option.some.inj hdoes
    exact ⟨hsafe, hat⟩
  refine hpipe.bind safe_others fun p =>
    .ite (fun _ => hspawn.bind safe_others fun rc => .ite (fun hok => ?_) fun hok => ?_) fun _ => ?_
  · refine (wdSendToken_spec (g.relink true true) []).weaken (fun w _ h => h.1 hok) fun g' w h => ⟨?_, h.2⟩
    obtain ⟨fd, rfl⟩ := h.1
    exact ⟨true, fd, rfl⟩
  · exact .pure ((Stable.const _).and (knows_stable _ _)) fun w _ h =>
      ⟨⟨false, g.wdFd, rfl⟩, hnone false w (h.2 (Bool.not_eq_true _ ▸ hok))⟩
  · exact .pure ((Stable.const _).and (knows_stable _ _)) fun w _ h => ⟨⟨g.wdPid, g.wdFd, rfl⟩, hnone g.wdPid w h⟩

theorem kill_spec {P : Process → Prop} {parts : List Part} (hP : Respects P) :
    Triple Op.taken Rely Safe (At P parts) (perform .kill) fun _ => At (fun _ => False) parts := by
  refine .perform safe_others (at_stable hP) (fun _ => at_stable nobody_respects) fun w r w' _ hat hdoes => ?_
  obtain rfl := Option.some.inj hdoes
  have hnobody : Child (fun _ => False) { w with child := w.child.map fun p => { p with dead := true } } := by
    intro p hp halive
    obtain ⟨q, -, rfl⟩ := Option.map_eq_some_iff.mp hp
    exact absurd halive (by simp)
  exact ⟨fun p hp halive => (hnobody p hp halive).elim, hnobody, hat.2⟩

theorem wdClose_spec (g : Globals) {parts : List Part} :
    Triple Op.taken Rely Safe (At (fun _ => False) parts) (wdClose g)
      fun g' w => g' = g.relink g.wdPid false ∧ At (fun _ => False) parts w := by
  refine .ite (fun _ => closePipe_spec.bind safe_others fun _ => ?_) fun hfd => ?_
  · exact .pure ((Stable.const _).and (at_stable nobody_respects)) fun w _ hat => ⟨rfl, hat⟩
  · refine .pure ((Stable.const _).and (at_stable nobody_respects)) fun w _ hat => ⟨?_, hat⟩
    rw [Globals.relink, ← (Bool.not_eq_true _).mp hfd]

-- After SIGKILL nothing is left of the child, reaped or not.
theorem wdKill_spec (g : Globals) {P : Process → Prop} {parts : List Part} (hP : Respects P) :
    Triple Op.taken Rely Safe (At (fun p => g.wdPid = true ∧ P p) parts) (wdKill g)
      fun g' w => (∃ pid, g' = g.relink pid g.wdFd) ∧ At (fun _ => False) parts w := by
  have hrespects : Respects fun p => g.wdPid = true ∧ P p := fun p p' hsame h => ⟨h.1, hP p p' hsame h.2⟩
  refine .ite (fun _ => (kill_spec hrespects).bind safe_others fun _ => ?_) fun hpid => ?_
  · exact (wdReap_spec nobody_respects parts 50 g).weaken
      (fun w _ hat => hat.weaken (fun _ hno => hno.elim) (List.Subset.refl _))
      fun g' w h => ⟨h.1, h.2.weaken (fun _ hno => hno.2) (List.Subset.refl _)⟩
  · exact .pure ((Stable.const _).and (at_stable nobody_respects)) fun w _ hat =>
      ⟨⟨g.wdPid, rfl⟩, hat.weaken (fun _ h => hpid h.1) (List.Subset.refl _)⟩

theorem wdRestart_spec (g : Globals) :
    Triple Op.taken Rely Safe (At (fun _ => False) []) (wdRestart g)
      fun g' w => (∃ pid fd, g' = g.relink pid fd) ∧ Knows g' g.token.digits w := by
  refine (wdClose_spec g).bind safe_others fun g₁ => .given fun hg₁ => ?_
  obtain rfl := hg₁
  have hkill : Triple Op.taken Rely Safe (At (fun _ => False) []) (wdKill (g.relink g.wdPid false)) fun g' w =>
      (∃ pid, g' = (g.relink g.wdPid false).relink pid false) ∧ At (fun _ => False) [] w :=
    (wdKill_spec _ nobody_respects).weaken
      (fun w _ hat => hat.weaken (fun _ hno => hno.elim) (List.Subset.refl _)) fun _ _ h => h
  refine hkill.bind safe_others fun g₂ => .given fun hg₂ => ?_
  obtain ⟨pid, rfl⟩ := hg₂
  exact wdSpawn_spec ((g.relink g.wdPid false).relink pid false) rfl

-- After a heartbeat the daemon has a watchdog that knows its token, or could not start one.
theorem wdBeat_spec (g : Globals) :
    Triple Op.taken Rely Safe (Child (Linked g g.token.digits)) (wdBeat g)
      fun g' w => (∃ pid fd, g' = g.relink pid fd) ∧ Knows g' g.token.digits w := by
  have hreap : Triple Op.taken Rely Safe (Child (Linked g g.token.digits)) (wdReap 0 g) fun g' w =>
      (∃ pid, g' = g.relink pid g.wdFd) ∧ Child (Linked g' g.token.digits) w := by
    refine (wdReap_spec (linked_respects g g.token.digits) [] 0 g).weaken
      (fun w _ h => ⟨fun p hp halive => ⟨(h p hp halive).pid, h p hp halive⟩, by simp⟩) fun g' w h => ⟨h.1, ?_⟩
    obtain ⟨⟨pid, rfl⟩, hat, -⟩ := h
    intro p hp halive
    obtain ⟨hpid, hlinked⟩ := hat p hp halive
    exact ⟨hpid, hlinked.fd, hlinked.writer, hlinked.ready, hlinked.clean, hlinked.token⟩
  refine hreap.bind safe_others fun g₁ => .given fun hg₁ => ?_
  obtain ⟨pid, rfl⟩ := hg₁
  have hping : Triple Op.taken Rely Safe (Child (Linked (g.relink pid g.wdFd) g.token.digits))
      (wdPing (g.relink pid g.wdFd)) fun g' w =>
        (∃ fd, g' = g.relink pid fd) ∧ Child (Linked g' g.token.digits) w ∧ (g'.wdPid = true → Has g'.wdFd w) := by
    refine .ite (fun _ => ?_) fun hpid => ?_
    · exact (wdSend_spec .beat (by simp) _ _).weaken (fun _ _ h => h) fun g' w h => ⟨h.1, h.2.1, fun _ => h.2.2⟩
    · refine .pure ((Stable.const _).and ((child_stable (linked_respects _ _)).and (Stable.imp (has_stable _))))
        fun w _ h => ⟨⟨g.wdFd, rfl⟩, h, fun hyes => absurd hyes hpid⟩
  refine hping.bind safe_others fun g₂ => .given fun hg₂ => ?_
  obtain ⟨fd, rfl⟩ := hg₂
  refine .ite (fun hboth => ?_) fun hnot => ?_
  · rw [Bool.and_eq_true] at hboth
    exact .pure ((Stable.const _).and (knows_stable _ _)) fun w _ h => ⟨⟨pid, fd, rfl⟩, h.1, h.2 hboth.1⟩
  · have hnone : pid = false ∨ fd = false := by
      cases pid with
      | false => exact .inl rfl
      | true => exact .inr (by simpa [Globals.relink] using hnot)
    refine (wdRestart_spec (g.relink pid fd)).weaken (fun w _ h => ⟨nobody_of_unlinked h.1 hnone, by simp⟩)
      fun g' w h => ⟨?_, h.2⟩
    obtain ⟨pid', fd', rfl⟩ := h.1
    exact ⟨pid', fd', rfl⟩

-- Where the anchor is empty the watchdog may be told to quit, and lose its pipe.
def Quits (g : Globals) (w : World) : Prop := At (fun _ => g.wdPid = true) ALL w

theorem quits_stable (g : Globals) : Stable Rely (Quits g) := at_stable fun _ _ _ h => h

theorem Quits.safe {g : Globals} {w : World} (h : Quits g w) : Safe w := fun _ _ _ _ => At.empty h

theorem quits_close (g : Globals) : Triple Op.taken Rely Safe (Quits g) (perform .closePipe) fun _ => Quits g := by
  refine .perform safe_others (quits_stable g) (fun _ => quits_stable g) fun w r w' _ hquits hdoes => ?_
  obtain rfl := Option.some.inj hdoes
  have hquits' : Quits g { w with child := w.child.map fun p => { p with writer := false } } := by
    refine ⟨fun p hp halive => ?_, hquits.2⟩
    obtain ⟨q, hq, rfl⟩ := Option.map_eq_some_iff.mp hp
    exact hquits.1 q hq halive
  exact ⟨hquits'.safe, hquits'⟩

theorem quit_spec (g : Globals) (token : Bytes) :
    Triple Op.taken Rely Safe (At (Linked g token) ALL) (wdSend .quit g)
      fun g' w => (∃ fd, g' = g.relink g.wdPid fd) ∧ Quits g w := by
  have hsent : Triple Op.taken Rely Safe (At (Linked g token) ALL) (perform (.send Message.quit.bytes))
      fun _ => Quits g := by
    refine .perform safe_others (at_stable (linked_respects g token)) (fun _ => quits_stable g)
      fun w r w' _ hat hdoes => ?_
    have hquits : Quits g w' := by
      rcases send_cases hdoes with ⟨-, p, hp, halive, rfl⟩ | ⟨-, rfl, -⟩
      · exact ⟨fun _ _ _ => (hat.1 p hp halive).pid, hat.2⟩
      · exact hat.weaken (fun p h => h.pid) (List.Subset.refl _)
    exact ⟨hquits.safe, hquits⟩
  refine .ite (fun _ => hsent.bind safe_others fun r => .ite (fun _ => ?_) fun _ => ?_) fun _ => ?_
  · exact .pure ((Stable.const _).and (quits_stable g)) fun w _ h => ⟨⟨g.wdFd, rfl⟩, h⟩
  · exact (quits_close g).bind safe_others fun _ =>
      .pure ((Stable.const _).and (quits_stable g)) fun w _ h => ⟨⟨false, rfl⟩, h⟩
  · exact .pure ((Stable.const _).and (quits_stable g)) fun w _ hat =>
      ⟨⟨g.wdFd, rfl⟩, hat.weaken (fun p h => h.pid) (List.Subset.refl _)⟩

theorem wdClose_quits (g : Globals) : Triple Op.taken Rely Safe (Quits g) (wdClose g)
    fun g' w => g' = g.relink g.wdPid false ∧ Quits g w := by
  refine .ite (fun _ => (quits_close g).bind safe_others fun _ => ?_) fun hfd => ?_
  · exact .pure ((Stable.const _).and (quits_stable g)) fun w _ h => ⟨rfl, h⟩
  · refine .pure ((Stable.const _).and (quits_stable g)) fun w _ h => ⟨?_, h⟩
    rw [Globals.relink, ← (Bool.not_eq_true _).mp hfd]

-- wd_stop leaves no living child, whether it has gone by itself or not.
theorem wdStop_spec (g : Globals) (token : Bytes) :
    Triple Op.taken Rely Safe (At (Linked g token) ALL) (wdStop g)
      fun g' w => (∃ pid, g' = g.relink pid false) ∧ At (fun _ => False) ALL w := by
  have hany : Respects fun _ => True := fun _ _ _ h => h
  refine (quit_spec g token).bind safe_others fun g₁ => .given fun hg₁ => ?_
  obtain ⟨fd, rfl⟩ := hg₁
  refine (wdClose_quits (g.relink g.wdPid fd)).bind safe_others fun g₂ => .given fun hg₂ => ?_
  obtain rfl := hg₂
  have hreap := (wdReap_spec hany ALL 100 (g.relink g.wdPid false)).weaken
    (fun w _ (h : Quits g w) => h.weaken (fun _ hpid => ⟨hpid, trivial⟩) (List.Subset.refl _)) fun _ _ h => h
  refine hreap.bind safe_others fun g₃ => .given fun hg₃ => ?_
  obtain ⟨pid, rfl⟩ := hg₃
  exact wdKill_spec _ hany

end Link

section Calls

-- What stands between two calls: the watchdog, if there is one and it is alive, knows the
-- token of the daemon, and is not to quit.
def Idle (g : Globals) (w : World) : Prop := Knows g g.token.digits w

theorem idle_stable (g : Globals) : Stable Rely (Idle g) := knows_stable g _

theorem linked_congr {g g' : Globals} (hpid : g'.wdPid = g.wdPid) (hfd : g'.wdFd = g.wdFd) (token : Bytes) :
    Linked g' token = Linked g token := by
  funext p
  refine propext ⟨fun h => ?_, fun h => ?_⟩
  · exact ⟨hpid ▸ h.pid, hfd ▸ h.fd, h.writer, h.ready, h.clean, h.token⟩
  · exact ⟨hpid.trans h.pid, hfd.trans h.fd, h.writer, h.ready, h.clean, h.token⟩

theorem knows_congr {g g' : Globals} {token : Bytes} {w : World} (h : Knows g token w) (hpid : g'.wdPid = g.wdPid)
    (hfd : g'.wdFd = g.wdFd) : Knows g' token w := by
  rw [Knows, linked_congr hpid hfd, hfd]
  exact h

theorem idle_congr {g g' : Globals} {w : World} (h : Idle g w) (hpid : g'.wdPid = g.wdPid) (hfd : g'.wdFd = g.wdFd)
    (htoken : g'.token = g.token) : Idle g' w := by
  rw [Idle, htoken]
  exact knows_congr h hpid hfd

theorem Knows.forget {g : Globals} {token : Bytes} {w : World} (h : Knows g token w) : Knows g [] w :=
  ⟨fun p hp halive => (h.1 p hp halive).forget, h.2⟩

theorem installed_spec (g : Globals) :
    Triple Op.taken Rely Safe (Idle g) (installed g) fun r w => Idle r.2 w := by
  refine (Only.keeps anchorPresent_only (idle_stable g)).bind safe_others fun present => ?_
  have hseen : ∀ w, Idle g w → Idle { g with seenEnabled := true, seenAnchor := present } w :=
    fun w h => idle_congr h rfl rfl rfl
  refine Triple.bind safe_others ((wdBeat_spec { g with seenEnabled := true, seenAnchor := present }).weaken
    (fun w _ h => (hseen w h.2).1) fun _ _ h => h) fun g' => .given fun hg' => ?_
  obtain ⟨pid, fd, rfl⟩ := hg'
  exact .pure (idle_stable _) fun _ _ h => h

theorem dropToken_only (g : Globals) : Only Op.Harmless
    (fun g' : Globals => ∃ t, g' = { g with token := t } ∧ t.digits = []) (dropToken g) := by
  refine .ite (fun _ => (pfRelease_only _).bind fun _ _ => ⟨noToken, rfl, rfl⟩) fun hnone => ?_
  exact ⟨g.token, rfl, not_not.mp hnone⟩

theorem firstCleanup_only (g : Globals) : Only Op.Harmless
    (fun g' : Globals => ∃ done, g' = { g with staleDone := done }) (firstCleanup g) :=
  .ite (fun _ => ⟨g.staleDone, rfl⟩) fun _ => staleCleanup_only.bind fun _ _ => ⟨true, rfl⟩

theorem releaseToken_only (g : Globals) : Only Op.Harmless
    (fun g' : Globals => ∃ t, g' = { g with token := t } ∧ t.digits = []) (releaseToken g) := by
  refine .ite (fun _ => (pfRelease_only _).bind fun _ _ => (tokenFileForget_only _).bind fun _ _ => ⟨noToken, rfl, rfl⟩)
    fun hnone => ?_
  exact ⟨g.token, rfl, not_not.mp hnone⟩

theorem installEnable_spec (g : Globals) :
    Triple Op.taken Rely Safe (Idle g) (installEnable g) fun r w => Idle r.2 w := by
  refine ((Only.keeps (dropToken_only g) (idle_stable g)).bind safe_others fun g₁ => .given fun hg₁ => ?_)
  obtain ⟨t, rfl, hnone⟩ := hg₁
  refine Triple.bind safe_others ((Only.keeps (@pfEnable_only { g with token := t } hnone)
    (knows_stable g [])).weaken (fun w _ h => h.forget) fun _ _ h => h) fun enabled => .given fun henabled => ?_
  obtain ⟨⟨t', ht'⟩, hfailed⟩ := henabled
  have hpid : enabled.2.wdPid = g.wdPid := by rw [ht']
  have hfd : enabled.2.wdFd = g.wdFd := by rw [ht']
  refine .ite (fun _ => ?_) fun hno => ?_
  · refine Triple.bind safe_others ((wdSendToken_spec enabled.2 []).weaken (fun w _ h => knows_congr h hpid hfd)
      fun _ _ h => h) fun g₂ => .given fun hg₂ => ?_
    obtain ⟨fd, rfl⟩ := hg₂
    exact installed_spec _
  · refine (Only.keeps flushAnchor_only (knows_stable g [])).bind safe_others fun _ => ?_
    refine .pure (idle_stable _) fun w _ h => ?_
    rw [Idle, hfailed (Bool.not_eq_true _ ▸ hno)]
    exact knows_congr h.2 hpid hfd

theorem load_spec (g : Globals) :
    Triple Op.taken Rely Safe (Idle g) (perform .load) fun _ => Idle g := by
  refine .perform safe_others (idle_stable g) (fun _ => idle_stable g) fun w r w' hsafe hidle hdoes => ?_
  obtain rfl := Option.some.inj hdoes
  cases r.ok with
  | false => exact ⟨hsafe, hidle⟩
  | true => exact ⟨Linked.safe hidle.1, hidle⟩

theorem installLoad_spec (g : Globals) :
    Triple Op.taken Rely Safe (Idle g) (installLoad g) fun r w => Idle r.2 w := by
  refine (Only.keeps flushAnchor_only (idle_stable g)).bind safe_others fun _ => .given fun _ => ?_
  refine (load_spec g).bind safe_others fun loaded =>
    .ite (fun _ => .ite (fun _ => installEnable_spec g) fun _ => ?_) fun _ => ?_
  · refine (Only.keeps pfEnabled_only (idle_stable g)).bind safe_others fun enabled => .given fun _ => ?_
    exact .ite (fun _ => installed_spec g) fun _ => installEnable_spec g
  · exact .pure (idle_stable g) fun _ _ h => h

theorem tppInstall_spec (g : Globals) :
    Triple Op.taken Rely Safe (Idle g) (tppInstall g) fun r w => Idle r.2 w := by
  refine (Only.keeps (firstCleanup_only _) (idle_stable g)).bind safe_others fun g₁ => .given fun hg₁ => ?_
  obtain ⟨done, rfl⟩ := hg₁
  refine (Only.keeps ensureMainHooks_only (idle_stable g)).bind safe_others fun hooks => .given fun _ => ?_
  refine .ite (fun _ => ?_) fun _ => ?_
  · exact (installLoad_spec _).weaken (fun w _ h => idle_congr h rfl rfl rfl) fun _ _ h => h
  · exact .pure (idle_stable _) fun w _ h => idle_congr h rfl rfl rfl

theorem tppRefresh_spec (g : Globals) :
    Triple Op.taken Rely Safe (Idle g) (tppRefresh g) fun r w => Idle r.2 w := by
  refine Triple.bind safe_others ((wdBeat_spec g).weaken (fun w _ h => h.1) fun _ _ h => h) fun g₁ =>
    .given fun hg₁ => ?_
  obtain ⟨pid, fd, rfl⟩ := hg₁
  have hidle := idle_stable (g.relink pid fd)
  refine (Only.keeps pfEnabled_only hidle).bind safe_others fun enabled => .given fun _ => ?_
  refine (Only.keeps anchorPresent_only hidle).bind safe_others fun anchor => .given fun _ => ?_
  refine (Only.keeps mainHooksPresent_only hidle).bind safe_others fun hooks => .given fun _ => ?_
  refine .ite (fun _ => .pure (idle_stable _) fun w _ h => idle_congr h rfl rfl rfl) fun _ => ?_
  refine Triple.bind safe_others
    ((tppInstall_spec _).weaken (fun w _ h => idle_congr h rfl rfl rfl) fun _ _ h => h) fun r => ?_
  exact .pure (idle_stable _) fun _ _ h => h

-- When tpp_remove returns nothing is loaded, no token is kept, and no watchdog is left.
theorem tppRemove_spec (g : Globals) :
    Triple Op.taken Rely Safe (Idle g) (tppRemove g)
      fun g' w => g'.token.digits = [] ∧ g'.wdFd = false ∧ At (fun _ => False) ALL w := by
  have hempties := (flushAnchor_empties (linked_respects g g.token.digits)).weaken
    (fun w _ (h : Idle g w) => (⟨h.1, by simp⟩ : At _ [] w)) fun _ _ h => h
  refine hempties.bind safe_others fun _ => ?_
  refine (Only.keeps (releaseToken_only g) (at_stable (linked_respects g _))).bind safe_others fun g₁ =>
    .given fun hg₁ => ?_
  obtain ⟨t, rfl, hnone⟩ := hg₁
  have hsame : Linked { g with token := t } g.token.digits = Linked g g.token.digits :=
    @linked_congr g { g with token := t } rfl rfl _
  have hstop := wdStop_spec { g with token := t } g.token.digits
  rw [hsame] at hstop
  refine hstop.bind safe_others fun g₂ => .given fun hg₂ => ?_
  obtain ⟨pid, rfl⟩ := hg₂
  refine (Only.keeps pfEnabled_only (at_stable nobody_respects)).bind safe_others fun enabled => .given fun _ => ?_
  exact .pure ((Stable.const _).and ((Stable.const _).and (at_stable nobody_respects))) fun w _ h => ⟨hnone, rfl, h⟩

theorem call_spec (c : Call) (g : Globals) :
    Triple Op.taken Rely Safe (Idle g) (c.run g) fun g' w => Idle g' w := by
  cases c with
  | install => exact (tppInstall_spec g).bind safe_others fun r => .pure (idle_stable _) fun _ _ h => h
  | refresh => exact (tppRefresh_spec g).bind safe_others fun r => .pure (idle_stable _) fun _ _ h => h
  | remove =>
      refine (tppRemove_spec g).weaken (fun _ _ h => h) fun g' w h => ⟨fun p hp halive => ?_, fun hfd => ?_⟩
      · exact (h.2.2.1 p hp halive).elim
      · exact absurd (h.2.1.symm.trans hfd) (by simp)

end Calls

end DpiProxy.Transparent.Macos
