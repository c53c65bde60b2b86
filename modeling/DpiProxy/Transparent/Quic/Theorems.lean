import DpiProxy.Transparent.Quic.Seen

namespace DpiProxy.Transparent.Quic

open Wire Dns

-- The addresses that a thread is about to give its client.
def Task.answers (t : Task) : List Addr :=
  match t.sent with
  | none => []
  | some reply => protectedAddrs t.query reply

-- A step that keeps the promise to the clients. An address that a worker leaves out
-- though it is noted from before a flush, and one of a reply that waits when a flush
-- comes, is still some thread's to add. A reply is sent when no thread has an address of
-- it to add any more, or one only adds it again, and not as late as the timeout after the
-- calls that it relies on.
def Keeps (s : State) : Event → Prop
  | .note i => ∀ t ∈ s.tasks[i]?, ∀ a ∈ t.todo.head?, a ∈ t.answers →
      recent s.seen a s.clock → a ∈ s.flushed.getD [] → Pending s.tasks a
  | .flush => s.flushed = none → ∀ t ∈ s.tasks, ∀ x ∈ t.noted, x.1 ∈ t.answers →
      Pending s.tasks x.1
  | .send i => ∀ t ∈ s.tasks[i]?, t.todo = [] → t.fresh = [] → ∀ x ∈ t.noted,
      x.1 ∈ t.answers → (Pending s.tasks x.1 → s.Has x.1) ∧ s.now - x.2 < TP_QUIC_BLOCK_TIMEOUT_S
  | _ => True

instance (s : State) (e : Event) : Decidable (Keeps s e) := by
  cases e <;> unfold Keeps <;> infer_instance

instance (x : Sent) : Decidable x.Protected :=
  inferInstanceAs (Decidable (∀ a ∈ _, ∃ p ∈ _, _ ∧ _))

-- What is true of an address that a thread has noted, and of the time with it.
structure Relies (s : State) (t : Task) (x : Addr × Int) : Prop where
  past : x.2 ≤ s.now
  added : x.1 ∈ t.answers → Pending s.tasks x.1 ∨ s.Has x.1
  since : x.1 ∉ t.fresh → s.Has x.1 → Blocked s.platform x.1 x.2

structure TaskInv (s : State) (t : Task) : Prop where
  covered : ∀ a ∈ t.answers, a ∈ t.todo ∨ ∃ x ∈ t.noted, x.1 = a
  relies : ∀ x ∈ t.noted, Relies s t x

structure QuicInv (s : State) : Prop where
  seen : SeenInv s
  past : ∀ p ∈ s.platform, p.2 ≤ s.now
  tasks : ∀ t ∈ s.tasks, TaskInv s t

theorem Relies.later {s s' : State} {t t' : Task} {x : Addr × Int} (h : Relies s t x)
    (hlater : Later s s') (hanswers : t'.answers ⊆ t.answers) (hfresh : t.fresh ⊆ t'.fresh) :
    Relies s' t' x := by
  refine ⟨h.past.trans hlater.now, fun ha => ?_, fun hx hhas => ?_⟩
  · obtain hpending | hhas := h.added (hanswers ha)
    · exact hlater.pending x.1 hpending
    · exact .inr (hhas.mono hlater.platform)
  · obtain hbefore | hnew := hlater.has x.1 hhas
    · exact (h.since (fun hmem => hx (hfresh hmem)) hbefore).mono hlater.platform le_rfl
    · exact hnew.mono (List.Subset.refl _) h.past

theorem TaskInv.later {s s' : State} {t : Task} (h : TaskInv s t) (hlater : Later s s') :
    TaskInv s' t :=
  ⟨h.covered, fun x hx => (h.relies x hx).later hlater (List.Subset.refl _) (List.Subset.refl _)⟩

-- A thread that begins has all its addresses still to note.
theorem TaskInv.begin {s : State} {t : Task} (hnoted : t.noted = [])
    (hcovered : ∀ a ∈ t.answers, a ∈ t.todo) : TaskInv s t :=
  ⟨fun a ha => .inl (hcovered a ha), by simp [hnoted]⟩

-- A worker has all the addresses of its reply to note.
theorem TaskInv.answer (s : State) (job : Job) :
    TaskInv s (blockAnswer job.answered.noted job.query job.answered.sent) := by
  refine .begin rfl fun a ha => ?_
  unfold Task.answers blockAnswer at ha
  cases hsent : job.answered.sent with
  | none => simp only [hsent, List.not_mem_nil] at ha
  | some reply =>
      simp only [hsent] at ha
      exact answer_noted hsent a ha

-- A thread goes on to its next address.
theorem TaskInv.note {s s' : State} {t : Task} {a : Addr} {since : Int} {todo fresh : List Addr}
    (h : TaskInv s t) (htodo : t.todo = a :: todo) (hlater : Later s s') (hfresh : t.fresh ⊆ fresh)
    (ha : Relies s' ⟨todo, fresh, t.noted ++ [(a, since)], t.query, t.sent⟩ (a, since)) :
    TaskInv s' ⟨todo, fresh, t.noted ++ [(a, since)], t.query, t.sent⟩ := by
  refine ⟨fun b hb => ?_, fun x hx => ?_⟩
  · obtain hleft | ⟨x, hx, rfl⟩ := h.covered b hb
    · rw [htodo] at hleft
      rcases List.mem_cons.mp hleft with rfl | hleft
      · exact .inr ⟨(b, since), by simp, rfl⟩
      · exact .inl hleft
    · exact .inr ⟨x, List.mem_append_left _ hx, rfl⟩
  · rcases List.mem_append.mp hx with hx | hx
    · exact (h.relies x hx).later hlater (List.Subset.refl _) hfresh
    · obtain rfl := List.mem_singleton.mp hx
      exact ha

-- A thread that has sent its reply owes nothing.
theorem TaskInv.sent {s s' : State} {t : Task} (h : TaskInv s t) (hlater : Later s s') :
    TaskInv s' { t with sent := none } := by
  refine ⟨fun a ha => ?_, fun x hx => (h.relies x hx).later hlater ?_ (List.Subset.refl _)⟩
  · cases ha
  · exact List.nil_subset _

section Step

variable {s : State} {i : Nat} {t : Task} {a : Addr} {todo : List Addr}

-- An address that the table has is some thread's to add, or the platform has it.
theorem QuicInv.left (h : QuicInv s) (ht : s.tasks[i]? = some t) (htodo : t.todo = a :: todo)
    (hkeeps : Keeps s (.note i)) (hrecent : recent s.seen a s.clock) (hanswers : a ∈ t.answers) :
    Pending s.tasks a ∨ s.Has a := by
  obtain ⟨e, he, rfl, -⟩ := id hrecent
  obtain hstale | hrest := h.seen.blocked e he
  · exact .inl (hkeeps t ht e.addr (by rw [htodo]; rfl) hanswers hrecent hstale)
  · exact hrest.imp_right Blocked.has

theorem QuicInv.noteTurn (h : QuicInv s) (ht : s.tasks[i]? = some t) (htodo : t.todo = a :: todo)
    (hkeeps : Keeps s (.note i)) : ∀ t' ∈ (noteTurn s i t a todo).tasks,
      TaskInv (noteTurn s i t a todo) t' := by
  have hlater := noteTurn_later ht a todo
  have htask := h.tasks t (List.mem_of_getElem? ht)
  intro t' ht'
  obtain ⟨hrecent, heq⟩ | ⟨seen, -, heq⟩ := noteTurn_cases s i t a todo <;> rw [heq] at ht' hlater ⊢
  · rcases List.mem_or_eq_of_mem_set ht' with ht' | rfl
    · exact (h.tasks t' ht').later hlater
    · refine htask.note htodo hlater (List.Subset.refl _) ⟨?_, fun hanswers => ?_, fun _ hhas => ?_⟩
      · exact blockedAt_le h.past a
      · obtain hpending | hhas := h.left ht htodo hkeeps hrecent hanswers
        · exact hlater.pending a hpending
        · exact .inr hhas
      · exact hhas.blocked s.now
  · rcases List.mem_or_eq_of_mem_set ht' with ht' | rfl
    · exact (h.tasks t' ht').later hlater
    · refine htask.note htodo hlater (List.subset_append_left _ _) ⟨le_rfl, fun _ => .inl ?_, fun hno => ?_⟩
      · exact ⟨_, List.mem_set (List.getElem?_eq_some_iff.mp ht).1 _, by simp⟩
      · exact absurd (by simp) hno

-- A thread whose call of tpp_quic_block has returned relies on it from now on.
theorem QuicInv.returned (h : QuicInv s) (ht : s.tasks[i]? = some t) :
    ∀ t' ∈ (returned s i t).tasks, TaskInv (returned s i t) t' := by
  have hlater := returned_later ht
  have htask := h.tasks t (List.mem_of_getElem? ht)
  intro t' ht'
  rcases List.mem_or_eq_of_mem_set ht' with ht' | rfl
  · exact (h.tasks t' ht').later hlater
  refine ⟨fun a ha => (htask.covered a ha).imp_right fun hnoted => ?_, fun x hx => ?_⟩
  · obtain ⟨x, hx, rfl⟩ := hnoted
    exact ⟨_, List.mem_map_of_mem hx, by split <;> rfl⟩
  · obtain ⟨y, hy, rfl⟩ := List.mem_map.mp hx
    by_cases hfresh : y.1 ∈ t.fresh
    · simp only [if_pos hfresh]
      have hblocked : Blocked (Quic.returned s i t).platform y.1 s.now :=
        returned_blocked s i t hfresh le_rfl
      exact ⟨le_rfl, fun _ => .inr hblocked.has, fun _ _ => hblocked⟩
    · simp only [if_neg hfresh]
      have hy := htask.relies y hy
      refine ⟨hy.past, fun hanswers => ?_, fun _ hhas => ?_⟩
      · exact ((hy.later hlater (List.Subset.refl _) (List.Subset.refl _)).added hanswers)
      · exact (hy.later hlater (List.Subset.refl _) (List.Subset.refl _)).since hfresh hhas

-- The reply of a thread with nothing left to add gives no address that is not blocked.
theorem QuicInv.answered (h : QuicInv s) (ht : s.tasks[i]? = some t) (htodo : t.todo = [])
    (hfresh : t.fresh = []) (hkeeps : Keeps s (.send i)) {reply : Bytes}
    (hreply : t.sent = some reply) : Sent.Protected ⟨t.query, reply, s.platform, s.now⟩ := by
  intro a ha
  have hanswers : a ∈ t.answers := by
    rw [Task.answers, hreply]
    exact ha
  have htask := h.tasks t (List.mem_of_getElem? ht)
  obtain hleft | ⟨x, hx, rfl⟩ := htask.covered a hanswers
  · rw [htodo] at hleft
    cases hleft
  · obtain ⟨hwaits, hsoon⟩ := hkeeps t ht htodo hfresh x hx hanswers
    have hrelies := htask.relies x hx
    have hhas : s.Has x.1 := (hrelies.added hanswers).elim hwaits id
    obtain ⟨p, hp, haddr, hsince⟩ := hrelies.since (by simp [hfresh]) hhas
    refine ⟨p, hp, haddr, ?_⟩
    dsimp only
    omega

theorem QuicInv.addTask (h : QuicInv s) (ht : TaskInv { s with tasks := s.tasks ++ [t] } t) :
    ∀ t' ∈ s.tasks ++ [t], TaskInv { s with tasks := s.tasks ++ [t] } t' := by
  intro t' ht'
  rcases List.mem_append.mp ht' with ht' | ht'
  · exact (h.tasks t' ht').later (later_addTask s t)
  · obtain rfl := List.mem_singleton.mp ht'
    exact ht

-- The platform has nothing any more, and what is waited for is still to be added.
theorem QuicInv.flushed (h : QuicInv s) (hnone : s.flushed = none) (hkeeps : Keeps s .flush)
    (stale : List Addr) : ∀ t ∈ s.tasks, TaskInv { s with platform := [], flushed := some stale } t := by
  intro t ht
  have htask := h.tasks t ht
  refine ⟨htask.covered, fun x hx => ⟨(htask.relies x hx).past, fun ha => ?_, fun _ hhas => ?_⟩⟩
  · exact .inl (hkeeps hnone t ht x hx ha)
  · exact absurd hhas List.not_mem_nil

end Step

-- The threads' part of the invariant; the table's part needs no promise.
theorem QuicInv.tasks_step {s : State} (h : QuicInv s) (e : Event) (hkeeps : Keeps s e) :
    ∀ t ∈ (step s e).1.tasks, TaskInv (step s e).1 t := by
  cases e with
  | answer job => exact h.addTask (.answer _ job)
  | connection a => exact h.addTask (.begin rfl fun b hb => by cases hb)
  | note i =>
      obtain heq | ⟨t, a, todo, ht, htodo, heq⟩ := step_note s i <;> rw [heq]
      · exact h.tasks
      · exact h.noteTurn ht htodo hkeeps
  | blocked i =>
      obtain heq | ⟨t, ht, heq⟩ := step_blocked s i <;> rw [heq]
      · exact h.tasks
      · exact h.returned ht
  | send i =>
      obtain heq | ⟨t, ht, -, -, heq⟩ := step_send s i <;> rw [heq]
      · exact h.tasks
      · have hlater : Later s (s.setTask i { t with sent := none }) :=
          later_setTask ht fun _ ha => ha
        intro t' ht'
        rcases List.mem_or_eq_of_mem_set ht' with ht' | rfl
        · exact (h.tasks t' ht').later hlater
        · exact (h.tasks t (List.mem_of_getElem? ht)).sent hlater
  | flush =>
      cases hflushed : s.flushed with
      | none =>
          simp only [Quic.step, hflushed]
          exact h.flushed hflushed hkeeps _
      | some _ =>
          simp only [Quic.step, hflushed]
          exact h.tasks
  | forget =>
      cases hflushed : s.flushed with
      | none =>
          simp only [Quic.step, hflushed]
          exact h.tasks
      | some _ =>
          simp only [Quic.step, hflushed]
          exact fun t ht => (h.tasks t ht).later (.same le_rfl rfl rfl)
  | tick seconds =>
      refine fun t ht => (h.tasks t ht).later (.same ?_ rfl rfl)
      dsimp only [Quic.step]
      omega
  | setClock offset => exact fun t ht => (h.tasks t ht).later (.same le_rfl rfl rfl)

theorem QuicInv.step {s : State} (h : QuicInv s) (e : Event) (hkeeps : Keeps s e) :
    QuicInv (step s e).1 :=
  ⟨h.seen.step e, step_past h.past e, h.tasks_step e hkeeps⟩

end DpiProxy.Transparent.Quic
