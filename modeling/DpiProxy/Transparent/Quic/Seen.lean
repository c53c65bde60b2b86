import DpiProxy.Transparent.Quic.Lemmas

namespace DpiProxy.Transparent.Quic

-- note finds the address, and not past half the timeout.
def recent (seen : Seen) (a : Addr) (now : Int) : Prop :=
  ∃ e ∈ seen.entries, e.addr = a ∧ now - e.addedAt < TP_QUIC_BLOCK_TIMEOUT_S / 2

instance (seen : Seen) (a : Addr) (now : Int) : Decidable (recent seen a now) :=
  inferInstanceAs (Decidable (∃ e ∈ seen.entries, _ ∧ _))

-- Some thread still has to add the address.
def Pending (tasks : List Task) (a : Addr) : Prop := ∃ t ∈ tasks, a ∈ t.fresh

instance (tasks : List Task) (a : Addr) : Decidable (Pending tasks a) :=
  inferInstanceAs (Decidable (∃ t ∈ tasks, _))

def Blocked (platform : List (Addr × Int)) (a : Addr) (since : Int) : Prop :=
  ∃ p ∈ platform, p.1 = a ∧ since ≤ p.2

section Steps

variable (s : State)

theorem step_note (i : Nat) : step s (.note i) = (s, none) ∨
    ∃ t a todo, s.tasks[i]? = some t ∧ t.todo = a :: todo ∧
      step s (.note i) = (noteTurn s i t a todo, none) := by
  cases ht : s.tasks[i]? with
  | none =>
      left
      simp only [step, ht]
  | some t =>
      cases htodo : t.todo with
      | nil =>
          left
          simp only [step, ht, htodo]
      | cons a todo =>
          right
          exact ⟨t, a, todo, rfl, htodo, by simp only [step, ht, htodo]⟩

theorem step_blocked (i : Nat) : step s (.blocked i) = (s, none) ∨
    ∃ t, s.tasks[i]? = some t ∧ step s (.blocked i) = (returned s i t, none) := by
  cases ht : s.tasks[i]? with
  | none =>
      left
      simp only [step, ht]
  | some t =>
      by_cases hdone : t.todo = []
      · exact .inr ⟨t, rfl, by simp only [step, ht, if_pos hdone]⟩
      · left
        simp only [step, ht, if_neg hdone]

theorem step_send (i : Nat) : step s (.send i) = (s, none) ∨
    ∃ t, s.tasks[i]? = some t ∧ t.todo = [] ∧ t.fresh = [] ∧
      step s (.send i) = (s.setTask i { t with sent := none },
        t.sent.map fun reply => ⟨t.query, reply, s.platform, s.now⟩) := by
  cases ht : s.tasks[i]? with
  | none =>
      left
      simp only [step, ht]
  | some t =>
      by_cases hdone : t.todo = [] ∧ t.fresh = []
      · exact .inr ⟨t, rfl, hdone.1, hdone.2, by simp only [step, ht, if_pos hdone]⟩
      · left
        simp only [step, ht, if_neg hdone]

-- A recent address is left out, any other is noted as new.
theorem noteTurn_cases (i : Nat) (t : Task) (a : Addr) (todo : List Addr) :
    (recent s.seen a s.clock ∧ noteTurn s i t a todo = { s with
      tasks := s.tasks.set i ⟨todo, t.fresh, t.noted ++ [(a, (blockedAt s.platform a).getD s.now)],
        t.query, t.sent⟩ }) ∨
    ∃ seen, (∀ e ∈ seen.entries, e = ⟨a, s.clock⟩ ∨ e ∈ s.seen.entries) ∧
      noteTurn s i t a todo = { s with
        seen := seen
        flushed := s.flushed.map fun stale => stale.filter (· ≠ a)
        tasks := s.tasks.set i
          ⟨todo, t.fresh ++ [a], t.noted ++ [(a, s.now)], t.query, t.sent⟩ } := by
  unfold noteTurn
  obtain ⟨heq, hrecent⟩ | ⟨hadd, hentries⟩ := note_cases s.seen a s.clock
  · left
    simp only [heq, Bool.false_eq_true, if_false]
    exact ⟨hrecent, trivial⟩
  · right
    simp only [hadd, if_true]
    exact ⟨_, hentries, rfl⟩

end Steps

-- The platform's set has the address.
def State.Has (s : State) (a : Addr) : Prop := a ∈ s.platform.map Prod.fst

instance (s : State) (a : Addr) : Decidable (s.Has a) :=
  inferInstanceAs (Decidable (a ∈ s.platform.map Prod.fst))

theorem Blocked.has {s : State} {a : Addr} {since : Int} (h : Blocked s.platform a since) : s.Has a := by
  obtain ⟨p, hp, ha, -⟩ := h
  exact List.mem_map.mpr ⟨p, hp, ha⟩

theorem State.Has.mono {s s' : State} {a : Addr} (h : s.Has a) (hplatform : s.platform ⊆ s'.platform) :
    s'.Has a :=
  List.map_subset _ hplatform h

theorem Blocked.mono {platform platform' : List (Addr × Int)} {a : Addr} {since since' : Int}
    (h : Blocked platform a since) (hplatform : platform ⊆ platform') (hsince : since' ≤ since) :
    Blocked platform' a since' := by
  obtain ⟨p, hp, ha, hle⟩ := h
  exact ⟨p, hplatform hp, ha, hsince.trans hle⟩

-- The platform's set has the address from the time of the last call on.
theorem State.Has.blocked {s : State} {a : Addr} (h : s.Has a) (now : Int) :
    Blocked s.platform a ((blockedAt s.platform a).getD now) := by
  obtain ⟨p, hp, rfl⟩ := List.mem_map.mp h
  cases hfind : s.platform.find? fun q => q.1 = p.1 with
  | none => exact absurd (decide_eq_true rfl) (List.find?_eq_none.mp hfind p hp)
  | some q =>
      refine ⟨q, List.mem_of_find?_eq_some hfind, by simpa using List.find?_some hfind, ?_⟩
      rw [blockedAt, hfind]
      exact le_rfl

theorem blockedAt_le {platform : List (Addr × Int)} {now : Int} (h : ∀ p ∈ platform, p.2 ≤ now)
    (a : Addr) : (blockedAt platform a).getD now ≤ now := by
  rw [blockedAt]
  cases hfind : platform.find? fun q => q.1 = a with
  | none => exact le_rfl
  | some q => exact h q (List.mem_of_find?_eq_some hfind)

-- What a thread has to add stays so while only threads change that keep theirs.
theorem Pending.set {tasks : List Task} {i : Nat} {t u : Task} (ht : tasks[i]? = some t)
    (hfresh : t.fresh ⊆ u.fresh) {a : Addr} (h : Pending tasks a) : Pending (tasks.set i u) a := by
  obtain ⟨t', ht', ha⟩ := h
  obtain ⟨j, hj⟩ := List.getElem?_of_mem ht'
  by_cases hij : i = j
  · subst hij
    obtain rfl := Option.some.inj (ht.symm.trans hj)
    exact ⟨u, List.mem_set (List.getElem?_eq_some_iff.mp ht).1 u, hfresh ha⟩
  · exact ⟨t', List.mem_of_getElem? (by rw [List.getElem?_set_ne hij]; exact hj), ha⟩

-- When one thread is done, what is left to add is some other thread's.
theorem Pending.of_done {tasks : List Task} {i : Nat} {t u : Task} (ht : tasks[i]? = some t)
    {a : Addr} (h : Pending tasks a) : a ∈ t.fresh ∨ Pending (tasks.set i u) a := by
  obtain ⟨t', ht', ha⟩ := h
  obtain ⟨j, hj⟩ := List.getElem?_of_mem ht'
  by_cases hij : i = j
  · subst hij
    obtain rfl := Option.some.inj (ht.symm.trans hj)
    exact .inl ha
  · refine .inr ⟨t', List.mem_of_getElem? (i := j) ?_, ha⟩
    rw [List.getElem?_set_ne hij]
    exact hj

-- A state that comes after another without a flush between them.
structure Later (s s' : State) : Prop where
  now : s.now ≤ s'.now
  platform : s.platform ⊆ s'.platform
  has : ∀ a, s'.Has a → s.Has a ∨ Blocked s'.platform a s.now
  pending : ∀ a, Pending s.tasks a → Pending s'.tasks a ∨ s'.Has a

theorem Later.same {s s' : State} (hnow : s.now ≤ s'.now) (hplatform : s'.platform = s.platform)
    (htasks : s'.tasks = s.tasks) : Later s s' := by
  refine ⟨hnow, hplatform ▸ List.Subset.refl _, fun a ha => .inl ?_, fun a ha => .inl ?_⟩
  · rwa [State.Has, ← hplatform]
  · rwa [htasks]

theorem later_addTask (s : State) (t : Task) : Later s { s with tasks := s.tasks ++ [t] } := by
  refine ⟨le_rfl, List.Subset.refl _, fun a ha => .inl ha, fun a ha => .inl ?_⟩
  obtain ⟨t', ht', hfresh⟩ := ha
  exact ⟨t', List.mem_append_left _ ht', hfresh⟩

theorem returned_platform (s : State) (i : Nat) (t : Task) :
    s.platform ⊆ (returned s i t).platform :=
  List.subset_append_right _ _

theorem returned_blocked (s : State) (i : Nat) (t : Task) {a : Addr} {since : Int}
    (ha : a ∈ t.fresh) (hsince : since ≤ s.now) : Blocked (returned s i t).platform a since :=
  ⟨(a, s.now), List.mem_append_left _ (List.mem_map.mpr ⟨a, ha, rfl⟩), rfl, hsince⟩

theorem later_setTask {s : State} {i : Nat} {t u : Task} (ht : s.tasks[i]? = some t)
    (hfresh : t.fresh ⊆ u.fresh) : Later s (s.setTask i u) :=
  ⟨le_rfl, List.Subset.refl _, fun _ ha => .inl ha, fun _ ha => .inl (ha.set ht hfresh)⟩

theorem noteTurn_later {s : State} {i : Nat} {t : Task} (ht : s.tasks[i]? = some t) (a : Addr)
    (todo : List Addr) : Later s (noteTurn s i t a todo) := by
  obtain ⟨-, heq⟩ | ⟨seen, -, heq⟩ := noteTurn_cases s i t a todo <;> rw [heq]
  · exact later_setTask ht (List.Subset.refl _)
  · exact ⟨le_rfl, List.Subset.refl _, fun _ ha => .inl ha,
      fun _ ha => .inl (ha.set ht (List.subset_append_left _ _))⟩

theorem returned_later {s : State} {i : Nat} {t : Task} (ht : s.tasks[i]? = some t) :
    Later s (returned s i t) := by
  refine ⟨le_rfl, returned_platform s i t, fun a ha => ?_, fun a ha => ?_⟩
  · obtain ⟨p, hp, rfl⟩ := List.mem_map.mp ha
    rcases List.mem_append.mp hp with hp | hp
    · obtain ⟨a, hfresh, rfl⟩ := List.mem_map.mp hp
      exact .inr (returned_blocked s i t hfresh le_rfl)
    · exact .inl (List.mem_map_of_mem hp)
  · obtain hfresh | hpending := ha.of_done ht
    · exact .inr (returned_blocked s i t hfresh le_rfl).has
    · exact .inl hpending

-- tpp_quic_block has not returned later than now.
theorem step_past {s : State} (h : ∀ p ∈ s.platform, p.2 ≤ s.now) (e : Event) :
    ∀ p ∈ (step s e).1.platform, p.2 ≤ (step s e).1.now := by
  cases e with
  | answer job => exact h
  | connection a => exact h
  | note i =>
      obtain heq | ⟨t, a, todo, -, -, heq⟩ := step_note s i <;> rw [heq]
      · exact h
      · obtain ⟨-, heq⟩ | ⟨seen, -, heq⟩ := noteTurn_cases s i t a todo <;> rw [heq] <;> exact h
  | blocked i =>
      obtain heq | ⟨t, -, heq⟩ := step_blocked s i <;> rw [heq]
      · exact h
      · intro p hp
        rcases List.mem_append.mp hp with hp | hp
        · obtain ⟨a, -, rfl⟩ := List.mem_map.mp hp
          exact le_rfl
        · exact h p hp
  | send i =>
      obtain heq | ⟨t, -, -, -, heq⟩ := step_send s i <;> rw [heq] <;> exact h
  | flush =>
      cases hflushed : s.flushed with
      | none =>
          simp only [step, hflushed]
          exact fun p hp => absurd hp List.not_mem_nil
      | some _ =>
          simp only [step, hflushed]
          exact h
  | forget => cases hflushed : s.flushed <;> simpa only [step, hflushed] using h
  | tick seconds =>
      intro p hp
      have hle := h p hp
      dsimp only [step]
      omega
  | setClock offset => exact h

-- What the table has is older than the flush, some thread's to add, or the platform
-- has it from then on.
structure SeenInv (s : State) : Prop where
  lead : s.offset ≤ s.lead
  past : ∀ e ∈ s.seen.entries, e.addedAt ≤ s.now + s.lead
  blocked : ∀ e ∈ s.seen.entries, e.addr ∈ s.flushed.getD [] ∨ Pending s.tasks e.addr ∨
    Blocked s.platform e.addr (e.addedAt - s.lead)

theorem seenInv_init (now offset : Int) : SeenInv (init now offset) :=
  ⟨le_rfl, by simp [init, Seen.empty], by simp [init, Seen.empty]⟩

section Step

variable {s : State} (h : SeenInv s)

include h

-- The threads may change as long as what is to be added stays so.
theorem SeenInv.of_tasks {tasks : List Task} (hpending : ∀ a, Pending s.tasks a → Pending tasks a) :
    SeenInv { s with tasks := tasks } := by
  refine ⟨h.lead, h.past, fun e he => ?_⟩
  exact (h.blocked e he).imp_right fun hrest => hrest.imp_left (hpending e.addr)

theorem SeenInv.addTask (t : Task) : SeenInv { s with tasks := s.tasks ++ [t] } := by
  refine h.of_tasks fun a hpending => ?_
  obtain ⟨t', ht', ha⟩ := hpending
  exact ⟨t', List.mem_append_left _ ht', ha⟩

theorem SeenInv.noteTurn {i : Nat} {t : Task} (ht : s.tasks[i]? = some t) (a : Addr)
    (todo : List Addr) : SeenInv (noteTurn s i t a todo) := by
  obtain ⟨-, heq⟩ | ⟨seen, hentries, heq⟩ := noteTurn_cases s i t a todo <;> rw [heq]
  · refine h.of_tasks fun b hpending => hpending.set ht ?_
    exact fun _ hb => hb
  · have hlead := h.lead
    have hclock : s.clock = s.now + s.offset := rfl
    refine ⟨hlead, fun e he => ?_, fun e he => ?_⟩
    · obtain rfl | he := hentries e he
      · dsimp only
        omega
      · exact h.past e he
    · by_cases haddr : e.addr = a
      · exact .inr (.inl ⟨_, List.mem_set (List.getElem?_eq_some_iff.mp ht).1 _, by simp [haddr]⟩)
      · have hold : e ∈ s.seen.entries := (hentries e he).resolve_left fun heq => haddr (by rw [heq])
        obtain hstale | hpending | hblocked := h.blocked e hold
        · refine .inl ?_
          cases hflushed : s.flushed with
          | none => simp [hflushed] at hstale
          | some stale => simpa [hflushed, haddr] using hstale
        · exact .inr (.inl (hpending.set ht (List.subset_append_left _ _)))
        · exact .inr (.inr hblocked)

-- tpp_quic_block has returned for all that the thread had to add.
theorem SeenInv.returned {i : Nat} {t : Task} (ht : s.tasks[i]? = some t) :
    SeenInv (returned s i t) := by
  refine ⟨h.lead, h.past, fun e he => ?_⟩
  have hpast := h.past e he
  by_cases hfresh : e.addr ∈ t.fresh
  · exact .inr (.inr (returned_blocked s i t hfresh (by dsimp only [Quic.returned]; omega)))
  · obtain hstale | hpending | hblocked := h.blocked e he
    · refine .inl ?_
      cases hflushed : s.flushed with
      | none => simp [hflushed] at hstale
      | some stale => simpa [Quic.returned, hflushed, hfresh] using hstale
    · exact .inr (.inl ((hpending.of_done ht).resolve_left hfresh))
    · exact .inr (.inr (hblocked.mono (returned_platform s i t) le_rfl))

theorem SeenInv.step (e : Event) : SeenInv (step s e).1 := by
  cases e with
  | answer job => exact h.addTask _
  | connection a => exact h.addTask _
  | note i =>
      obtain heq | ⟨t, a, todo, ht, -, heq⟩ := step_note s i <;> rw [heq]
      · exact h
      · exact h.noteTurn ht a todo
  | blocked i =>
      obtain heq | ⟨t, ht, heq⟩ := step_blocked s i <;> rw [heq]
      · exact h
      · exact h.returned ht
  | send i =>
      obtain heq | ⟨t, ht, -, -, heq⟩ := step_send s i <;> rw [heq]
      · exact h
      · refine h.of_tasks fun a hpending => hpending.set ht ?_
        exact fun _ ha => ha
  | flush =>
      cases hflushed : s.flushed with
      | none =>
          simp only [Quic.step, hflushed]
          exact ⟨h.lead, h.past, fun e he => .inl (List.mem_map.mpr ⟨e, he, rfl⟩)⟩
      | some _ =>
          simp only [Quic.step, hflushed]
          exact h
  | forget =>
      cases hflushed : s.flushed with
      | none =>
          simp only [Quic.step, hflushed]
          exact h
      | some _ =>
          simp only [Quic.step, hflushed]
          exact ⟨h.lead, by simp [Seen.empty], by simp [Seen.empty]⟩
  | tick seconds =>
      refine ⟨h.lead, fun e he => ?_, h.blocked⟩
      have hpast := h.past e he
      dsimp only [Quic.step] at hpast ⊢
      omega
  | setClock offset =>
      refine ⟨le_max_right _ _, fun e he => ?_, fun e he => ?_⟩
      · have hpast := h.past e he
        dsimp only [Quic.step] at hpast ⊢
        omega
      · refine (h.blocked e he).imp_right fun hrest => hrest.imp_right fun hblocked => ?_
        exact hblocked.mono (List.Subset.refl _) (by dsimp only [Quic.step]; omega)

end Step

theorem seenInv_run (now offset : Int) (events : List Event) :
    SeenInv (Machine.run step (init now offset) events).1 :=
  Machine.run_invariant step (fun _ _ s => SeenInv s) (seenInv_init now offset)
    (fun _ _ _ e h => h.step e) events

-- What note leaves out is older than the flush, some thread's to add, or was added less
-- than half the timeout ago, and as much longer ago as the clock was set back.
theorem recent_blocked (now offset : Int) (events : List Event) (a : Addr) :
    let s := (Machine.run step (init now offset) events).1
    recent s.seen a s.clock → a ∈ s.flushed.getD [] ∨ Pending s.tasks a ∨
      ∃ p ∈ s.platform, p.1 = a ∧ s.now - p.2 < TP_QUIC_BLOCK_TIMEOUT_S / 2 + (s.lead - s.offset) := by
  intro s hrecent
  obtain ⟨e, he, rfl, hage⟩ := hrecent
  refine ((seenInv_run now offset events).blocked e he).imp_right fun hrest =>
    hrest.imp_right fun hblocked => ?_
  obtain ⟨p, hp, haddr, hsince⟩ := hblocked
  have hclock : s.clock = s.now + s.offset := rfl
  have hlead : e.addedAt - s.lead ≤ p.2 := hsince
  exact ⟨p, hp, haddr, by omega⟩

end DpiProxy.Transparent.Quic
