import DpiProxy.Machine
import DpiProxy.Transparent.Macos.Calls

namespace DpiProxy.Transparent.Macos

open Wire Interleaving

def System.next (s : System) (e : Event) : System × Option Unit := (s.step e, none)

instance (h : Host) : Decidable h.Empty :=
  decidable_of_iff (h.anchor .nat = false ∧ h.anchor .rules = false ∧ h.anchor .tables = false)
    ⟨fun ⟨hnat, hrules, htables⟩ part => by cases part <;> assumption, fun h => ⟨h _, h _, h _⟩⟩

def Chore.isFlush : Chore → Bool
  | .flush _ => true
  | _ => false

-- A watchdog that has not begun to exit.
def Process.Alive (p : Process) : Prop := p.dead = false ∧ p.exits = false

instance (p : Process) : Decidable p.Alive := inferInstanceAs (Decidable (_ ∧ _))

-- pfctl empties our anchor when it is told to; nobody kills a watchdog that has lost its
-- daemon; and the daemon does not die where rules are loaded and no watchdog is alive.
def Fair (s : System) : Event → Prop
  | .reply r =>
      match s.daemon with
      | some (.act (.flush _) _) => r.ok = true
      | _ => True
  | .orphan i m =>
      m ≠ .kill ∧ ∀ p ∈ s.world.orphans[i]?, ∀ c ∈ p.chores.head?, c.isFlush = true → m ≠ .chore false
  | .die => s.world.host.Empty ∨ ∃ p ∈ s.world.child, p.Alive
  | _ => True

instance (s : System) (e : Event) : Decidable (Fair s e) := by
  unfold Fair
  split
  · split <;> infer_instance
  · infer_instance
  · infer_instance
  · infer_instance

section Owes

-- What a watchdog that has lost its daemon will still do.
structure Owes (c : Chore) (p : Process) : Prop where
  alive : p.dead = false
  exits : p.exits = true → c ∈ p.chores
  clean : p.exits = false → p.told.clean = false ∧ c ∈ wdCleanup (cstr p.told.token)

variable {p p' : Process} {h h' : Host} {c : Chore}

theorem flush_cleanup (part : Part) (token : Bytes) : .flush part ∈ wdCleanup token := by
  refine List.mem_append_left _ ?_
  cases part <;> simp [anchorFlush]

theorem cleanup_ne_nil (token : Bytes) : (wdCleanup token).isEmpty = false := by
  rw [wdCleanup, anchorFlush]
  rfl

theorem owes_turn {t : Turn} (hmove : p.move h (.turn t) = some (p', h'))
    (hterm : (∀ token, c ∈ wdCleanup token) ∨ t.term = false) (howes : Owes c p) : Owes c p' := by
  simp only [Process.move] at hmove
  split at hmove
  · rename_i hcan
    obtain ⟨-, hexits, -, hheard⟩ := hcan
    obtain ⟨rfl, -⟩ := Prod.mk.inj (Option.some.inj hmove)
    obtain ⟨hclean, hc⟩ := howes.clean hexits
    have hsame := turn_told hheard
    by_cases hended : t.heard = .ended
    · rw [hended] at hheard
      have htold : p.told = p.self := by
        rw [Process.told, hheard.1]
        rfl
      rw [htold] at hclean hc
      have hturn : p.self.turn t = ⟨p.self, wdCleanup (cstr p.self.token), true⟩ := by
        unfold Watchdog.turn
        rw [hended, hclean]
        rfl
      rw [hturn]
      exact ⟨by rw [cleanup_ne_nil]; rfl, fun _ => hc, fun hno => absurd hno (by simp)⟩
    · cases hsig : t.term with
      | true =>
          obtain ⟨hexits', hchores⟩ := @turn_term p.self t hended hsig
          have hall := hterm.resolve_right (by simp [hsig])
          refine ⟨?_, fun _ => ?_, fun hno => absurd (hexits'.symm.trans hno) (by simp)⟩
          · rw [hchores, cleanup_ne_nil, Bool.and_false]
          · rw [hchores]
            exact hall _
      | false =>
          have hexits' : (p.self.turn t).exits = false := by
            rw [turn_goes hended hsig]
            dsimp only
            split <;> rfl
          refine ⟨by rw [hexits']; rfl, fun hyes => absurd (hexits'.symm.trans hyes) (by simp), fun _ => ?_⟩
          simp only [Watchdog.parse, Prod.mk.injEq] at hsame
          obtain ⟨htoken, -, -, hclean'⟩ := hsame
          simp only [Process.told] at hclean hc ⊢
          rw [hclean', htoken]
          exact ⟨hclean, hc⟩
  · cases hmove

-- A chore is done, or still to be done.
theorem owes_chore {ok : Bool} (hmove : p.move h (.chore ok) = some (p', h')) (howes : Owes c p) :
    Owes c p' ∨ (p.exits = true ∧ p.chores.head? = some c ∧ h' = (h.chore ok c).1 ∧
      ∀ d ∈ (h.chore ok c).2, Owes d p') := by
  simp only [Process.move] at hmove
  split at hmove
  · cases hmove
  · rename_i first rest hchores
    rw [howes.alive, if_neg (by simp)] at hmove
    obtain ⟨rfl, rfl⟩ := Prod.mk.inj (Option.some.inj hmove)
    cases hexits : p.exits with
    | false => exact .inl ⟨rfl, fun hyes => absurd hyes Bool.false_ne_true, fun _ => howes.clean hexits⟩
    | true =>
        have hmem := howes.exits hexits
        rw [hchores] at hmem
        have hleft : ∀ d, d ∈ (h.chore ok first).2 ++ rest → ∀ p' : Process,
            p'.chores = (h.chore ok first).2 ++ rest → p'.exits = true →
            p'.dead = (true && ((h.chore ok first).2 ++ rest).isEmpty) → Owes d p' := by
          intro d hd p' hchores' hexits' hdead
          refine ⟨?_, fun _ => hchores' ▸ hd, fun hno => absurd (hexits'.symm.trans hno) (by simp)⟩
          rw [hdead, Bool.true_and, List.isEmpty_eq_false_iff]
          exact List.ne_nil_of_mem hd
        rcases List.mem_cons.mp hmem with rfl | hrest
        · exact .inr ⟨rfl, by rw [hchores]; rfl, rfl, fun d hd =>
            hleft d (List.mem_append_left _ hd) _ rfl rfl rfl⟩
        · exact .inl (hleft c (List.mem_append_right _ hrest) _ rfl rfl rfl)

end Owes

section Running

-- The daemon is in a program that keeps `Safe` and ends with `post`.
def Running (post : Globals → World → Prop) (s : System) : Prop :=
  ∀ x, s.daemon = some x → Safe s.world ∧ Keeps Op.taken Rely Safe post x s.world

variable {post : Globals → World → Prop} {s : System}

theorem reply_running {r : Reply} (hfair : Fair s (.reply r)) (h : Running post s) :
    Running post (s.step (.reply r)) := by
  simp only [System.step]
  split
  · rename_i o k hdaemon
    split
    · rename_i w hdoes
      have htaken : o.taken r s.world = some w := by
        simp only [Fair, hdaemon] at hfair
        cases o with
        | flush part =>
            rw [Op.taken, if_pos hfair]
            exact hdoes
        | _ => exact hdoes
      obtain ⟨-, hkeeps⟩ := h _ hdaemon
      obtain ⟨hsafe, hk⟩ := hkeeps.act safe_others htaken
      intro x hx
      obtain rfl := Option.some.inj hx
      exact ⟨hsafe, hk⟩
    · exact h
  · exact h

theorem rely_child {w : World} {p p' : Process} {h' : Host} {m : Move} (hp : w.child = some p)
    (hmove : p.move w.host m = some (p', h')) : Rely w { w with host := h', child := some p' } := by
  obtain ⟨hsame, hshrinks⟩ := move_same hmove
  refine ⟨hshrinks.anchor, fun q hq => ⟨p, hp, ?_⟩, fun _ => rfl⟩
  obtain rfl := Option.some.inj hq
  exact hsame

theorem rely_orphan {w : World} {p p' : Process} {h' : Host} {m : Move} {orphans : List Process}
    (hmove : p.move w.host m = some (p', h')) : Rely w { w with host := h', orphans := orphans } :=
  ⟨(move_same hmove).2.anchor, fun q hq => ⟨q, hq, .refl q⟩, id⟩

theorem child_running (m : Move) (h : Running post s) : Running post (s.step (.child m)) := by
  simp only [System.step]
  split
  · rename_i p hp
    split
    · rename_i p' h' hmove
      have hrely := rely_child hp hmove
      intro x hx
      obtain ⟨hsafe, hkeeps⟩ := h x hx
      exact ⟨safe_others.keep _ _ hrely hsafe, hkeeps.later safe_others hrely⟩
    · exact h
  · exact h

theorem orphan_running (i : Nat) (m : Move) (h : Running post s) : Running post (s.step (.orphan i m)) := by
  simp only [System.step]
  split
  · rename_i p hp
    split
    · rename_i p' h' hmove
      have hrely := @rely_orphan s.world p p' h' m (s.world.orphans.set i p') hmove
      intro x hx
      obtain ⟨hsafe, hkeeps⟩ := h x hx
      exact ⟨safe_others.keep _ _ hrely hsafe, hkeeps.later safe_others hrely⟩
    · exact h
  · exact h

end Running

section Runs

-- The daemon, while there is one, keeps what its calls promise; without one, what is still
-- loaded is flushed by a watchdog.
structure Guarded (s : System) : Prop where
  daemon : Running Idle s
  child : s.daemon = none → s.world.child = none
  owed : s.daemon = none → ∀ part, s.world.host.anchor part = true → ∃ p ∈ s.world.orphans, Owes (.flush part) p

theorem boot_guarded : Guarded boot where
  daemon x h := by cases h
  child _ := rfl
  owed _ part h := by cases h

-- Nothing is said about the time after the daemon while there is one.
theorem guarded_running {s : System} {x : Daemon Globals} (hx : s.daemon = some x) (h : Running Idle s) : Guarded s :=
  ⟨h, fun hno => absurd (hx.symm.trans hno) (by simp), fun hno => absurd (hx.symm.trans hno) (by simp)⟩

theorem start_guarded {s : System} (h : Guarded s) : Guarded (s.step .start) := by
  simp only [System.step]
  split
  · rename_i hnone
    have hchild := h.child hnone
    refine guarded_running rfl fun x hx => ?_
    obtain rfl := Option.some.inj hx
    refine ⟨fun p hp => absurd (hchild.symm.trans hp) (by simp), fun w hrely => ⟨fun p hp => ?_, fun hno => ?_⟩⟩
    · obtain ⟨q, hq, -⟩ := hrely.child p hp
      exact absurd (hchild.symm.trans hq) (by simp)
    · exact absurd hno (by simp [Globals.start])
  · exact h

theorem call_guarded {s : System} (c : Call) (h : Guarded s) : Guarded (s.step (.call c)) := by
  simp only [System.step]
  split
  · rename_i g hdaemon
    obtain ⟨hsafe, hkeeps⟩ := h.daemon _ hdaemon
    refine guarded_running rfl fun x hx => ?_
    obtain rfl := Option.some.inj hx
    exact ⟨hsafe, call_spec c g s.world hsafe (hkeeps.ret safe_others)⟩
  · exact h

theorem reply_guarded {s : System} {r : Reply} (hfair : Fair s (.reply r)) (h : Guarded s) :
    Guarded (s.step (.reply r)) := by
  have hrunning := reply_running hfair h.daemon
  simp only [System.step] at hrunning ⊢
  split
  · rename_i o k hdaemon
    simp only [hdaemon] at hrunning
    split
    · rename_i w hdoes
      simp only [hdoes] at hrunning
      exact guarded_running rfl hrunning
    · exact h
  · exact h

-- A watchdog that has lost its daemon where rules are loaded has not been told to quit.
theorem die_guarded {s : System} (hfair : Fair s .die) (h : Guarded s) : Guarded (s.step .die) := by
  simp only [System.step]
  split
  · rename_i x hdaemon
    obtain ⟨hsafe, -⟩ := h.daemon _ hdaemon
    refine ⟨fun x hx => absurd hx (by simp), fun _ => rfl, fun _ part hpart => ?_⟩
    rcases hfair with hempty | ⟨p, hp, halive, hexits⟩
    · exact absurd ((hempty part).symm.trans hpart) (by simp)
    · have hclean : p.told.clean = false := by
        cases hclean : p.told.clean with
        | false => rfl
        | true => exact absurd ((hsafe p hp halive (.inl hclean) part).symm.trans hpart) (by simp)
      refine ⟨{ p with writer := false }, ?_, halive, fun hyes => ?_, fun _ => ⟨hclean, flush_cleanup part _⟩⟩
      · rw [World.lose, Option.mem_def.mp hp]
        exact List.mem_append_right _ (List.mem_singleton.mpr rfl)
      · exact absurd (hexits.symm.trans hyes) (by simp)
  · exact h

theorem child_guarded {s : System} (m : Move) (h : Guarded s) : Guarded (s.step (.child m)) := by
  have hrunning := child_running m h.daemon
  simp only [System.step] at hrunning ⊢
  split
  · rename_i p hp
    simp only [hp] at hrunning
    split
    · rename_i p' h' hmove
      simp only [hmove] at hrunning
      refine ⟨hrunning, fun hno => ?_, fun hno => ?_⟩
      · exact absurd ((h.child hno).symm.trans hp) (by simp)
      · exact absurd ((h.child hno).symm.trans hp) (by simp)
    · exact h
  · exact h

-- An orphan that moves still owes what it owed, or the part is empty.
theorem owed_move {p p' : Process} {h h' : Host} {m : Move} {part : Part} (hmove : p.move h m = some (p', h'))
    (hkill : m ≠ .kill) (hflush : ∀ c ∈ p.chores.head?, c.isFlush = true → m ≠ .chore false)
    (howes : Owes (.flush part) p) (hpart : h'.anchor part = true) : Owes (.flush part) p' := by
  cases m with
  | kill => exact absurd rfl hkill
  | turn t => exact owes_turn hmove (.inl (flush_cleanup part)) howes
  | chore ok =>
      rcases owes_chore hmove howes with howes' | ⟨-, hhead, rfl, -⟩
      · exact howes'
      · cases ok with
        | false => exact absurd rfl (hflush _ hhead rfl)
        | true => simp [Host.chore, Host.flush] at hpart

theorem set_mem {orphans : List Process} {i : Nat} {p p' q : Process} (hi : orphans[i]? = some p) (hq : q ∈ orphans) :
    q = p ∨ q ∈ orphans.set i p' := by
  obtain ⟨j, hj⟩ := List.mem_iff_getElem?.mp hq
  by_cases hij : i = j
  · obtain rfl := hij
    exact .inl (Option.some.inj (hj.symm.trans hi))
  · refine .inr (List.mem_iff_getElem?.mpr ⟨j, ?_⟩)
    rw [List.getElem?_set_ne hij]
    exact hj

theorem orphan_guarded {s : System} {i : Nat} {m : Move} (hfair : Fair s (.orphan i m)) (h : Guarded s) :
    Guarded (s.step (.orphan i m)) := by
  have hrunning := orphan_running i m h.daemon
  obtain ⟨hkill, hflush⟩ := hfair
  simp only [System.step] at hrunning ⊢
  split
  · rename_i p hp
    simp only [hp] at hrunning
    split
    · rename_i p' h' hmove
      simp only [hmove] at hrunning
      refine ⟨hrunning, h.child, fun hno part hpart => ?_⟩
      obtain ⟨q, hq, howes⟩ := h.owed hno part ((move_same hmove).2.anchor part hpart)
      have hlt : i < s.world.orphans.length := (List.getElem?_eq_some_iff.mp hp).1
      rcases @set_mem s.world.orphans i p p' q hp hq with rfl | hset
      · exact ⟨p', List.mem_set hlt p', owed_move hmove hkill (hflush q hp) howes hpart⟩
      · exact ⟨q, hset, howes⟩
    · exact h
  · exact h

theorem next_guarded (s : System) (e : Event) (h : Guarded s) (hfair : Fair s e) : Guarded (s.next e).1 := by
  cases e with
  | start => exact start_guarded h
  | call c => exact call_guarded c h
  | reply r => exact reply_guarded hfair h
  | die => exact die_guarded hfair h
  | child m => exact child_guarded m h
  | orphan i m => exact orphan_guarded hfair h

theorem run_guarded {events : List Event} (hfair : Machine.Along System.next Fair boot events) :
    Guarded (Machine.run System.next boot events).1 :=
  Machine.run_along_state System.next Fair Guarded next_guarded boot_guarded hfair

end Runs

-- A daemon that is killed after it has installed its rules.
def installedRun : List Event :=
  let done : Event := .reply ⟨true, []⟩
  let prints : List Char → Event := fun text => .reply ⟨true, ascii text⟩
  [.start, .call .install, done, done, done, .reply ⟨false, []⟩, prints RDR_ANCHOR, prints ANCHOR, done, done,
    done, done, prints (TOKEN ++ ['7', '7']), done, prints RDR, prints ROUTE_TO, done, .reply ⟨true, List.replicate 31 9⟩, done]

def cleanupRun : List Event :=
  [.orphan 0 (.turn ⟨.data [116, 55, 55], 0, false, 0⟩), .orphan 0 (.turn ⟨.data [10], 0, false, 0⟩),
    .orphan 0 (.turn ⟨.ended, 0, false, 0⟩), .orphan 0 (.chore true), .orphan 0 (.chore true), .orphan 0 (.chore true),
    .orphan 0 (.chore true), .orphan 0 (.chore true), .orphan 0 (.chore true)]

section Release

-- A watchdog without a daemon that nobody stops, and whose chores succeed.
def Move.Smooth : Move → Prop
  | .turn t => t.term = false
  | .chore ok => ok = true
  | .kill => False

def Event.Smooth (e : Event) : Prop := ∃ i m, e = .orphan i m ∧ m.Smooth

-- The reference and its record are given back, or will be.
structure Settled (token : Bytes) (s : System) : Prop where
  guarded : Guarded s
  daemon : s.daemon = none
  refs : token ∉ s.world.host.refs ∨ ∃ p ∈ s.world.orphans, Owes (.release token) p
  file : tokenRead (s.world.host.file.getD []) ≠ token ∨
    ∃ p ∈ s.world.orphans, Owes (.forget token) p ∨ Owes .unlink p

variable {token : Bytes}

theorem tokenRead_nil : tokenRead [] = [] := rfl

theorem move_refs {p p' : Process} {h h' : Host} {m : Move} (hmove : p.move h m = some (p', h')) (hsmooth : m.Smooth)
    (howes : Owes (.release token) p) : token ∉ h'.refs ∨ Owes (.release token) p' := by
  cases m with
  | kill => exact hsmooth.elim
  | turn t => exact .inr (owes_turn hmove (.inr hsmooth) howes)
  | chore ok =>
      obtain rfl := hsmooth
      rcases owes_chore hmove howes with howes' | ⟨-, -, rfl, -⟩
      · exact .inr howes'
      · exact .inl (by simp [Host.chore, Host.release])

theorem move_file {p p' : Process} {h h' : Host} {m : Move} (hne : token ≠ []) (hmove : p.move h m = some (p', h'))
    (hsmooth : m.Smooth) (howes : Owes (.forget token) p ∨ Owes .unlink p) :
    tokenRead (h'.file.getD []) ≠ token ∨ Owes (.forget token) p' ∨ Owes .unlink p' := by
  cases m with
  | kill => exact hsmooth.elim
  | turn t =>
      rcases howes with howes | howes
      · exact .inr (.inl (owes_turn hmove (.inr hsmooth) howes))
      · exact .inr (.inr (owes_turn hmove (.inr hsmooth) howes))
  | chore ok =>
      obtain rfl := hsmooth
      rcases howes with howes | howes
      · rcases owes_chore hmove howes with howes' | ⟨-, -, hsame, hleads⟩
        · exact .inr (.inl howes')
        · obtain rfl : h' = h := hsame
          by_cases hcur : tokenRead (h'.file.getD []) = token
          · refine .inr (.inr (hleads .unlink ?_))
            simp [Host.chore, hcur, hne]
          · exact .inl hcur
      · rcases owes_chore hmove howes with howes' | ⟨-, -, rfl, -⟩
        · exact .inr (.inr howes')
        · refine .inl ?_
          rw [show ((h.chore true .unlink).1.file.getD []) = [] from rfl, tokenRead_nil]
          exact hne.symm

theorem smooth_fair {s : System} {e : Event} (h : e.Smooth) : Fair s e := by
  obtain ⟨i, m, rfl, hsmooth⟩ := h
  refine ⟨?_, fun _ _ _ _ _ => ?_⟩
  · rintro rfl
    exact hsmooth
  · rintro rfl
    exact absurd hsmooth (by simp [Move.Smooth])

theorem next_settled (hne : token ≠ []) (s : System) (e : Event) (h : Settled token s) (hsmooth : e.Smooth) :
    Settled token (s.next e).1 := by
  have hguarded := next_guarded s e h.guarded (smooth_fair hsmooth)
  obtain ⟨i, m, rfl, hm⟩ := hsmooth
  obtain ⟨-, hdaemon, hrefs, hfile⟩ := h
  simp only [System.next, System.step] at hguarded ⊢
  split
  · rename_i p hp
    split
    · rename_i p' h' hmove
      simp only [hp, hmove] at hguarded
      obtain ⟨-, hshrinks⟩ := move_same hmove
      have hlt : i < s.world.orphans.length := (List.getElem?_eq_some_iff.mp hp).1
      have hmem : p' ∈ s.world.orphans.set i p' := List.mem_set hlt p'
      refine ⟨hguarded, hdaemon, ?_, ?_⟩
      · rcases hrefs with hno | ⟨q, hq, howes⟩
        · exact .inl fun hin => hno (hshrinks.refs hin)
        · rcases @set_mem s.world.orphans i p p' q hp hq with rfl | hset
          · exact (move_refs hmove hm howes).imp id fun howes' => ⟨p', hmem, howes'⟩
          · exact .inr ⟨q, hset, howes⟩
      · rcases hfile with hno | ⟨q, hq, howes⟩
        · refine .inl ?_
          rcases hshrinks.file with hsame | hnone
          · dsimp only
            rw [hsame]
            exact hno
          · dsimp only
            rw [hnone]
            exact hne.symm
        · rcases @set_mem s.world.orphans i p p' q hp hq with rfl | hset
          · exact (move_file hne hmove hm howes).imp id fun howes' => ⟨p', hmem, howes'⟩
          · exact .inr ⟨q, hset, howes⟩
    · rename_i hmove
      exact ⟨by simpa only [hp, hmove] using hguarded, hdaemon, hrefs, hfile⟩
  · rename_i hp
    exact ⟨by simpa only [hp] using hguarded, hdaemon, hrefs, hfile⟩

theorem along_smooth {events : List Event} (h : ∀ e ∈ events, e.Smooth) (s : System) :
    Machine.Along System.next (fun _ e => e.Smooth) s events := by
  induction events generalizing s with
  | nil => trivial
  | cons e events ih =>
      exact ⟨h e List.mem_cons_self, ih (fun e' he' => h e' (List.mem_cons_of_mem _ he')) _⟩

theorem die_settled {s : System} {g : Globals} {p : Process} (h : Guarded s) (hidle : s.daemon = some (.ret g))
    (hp : s.world.child = some p) (halive : p.Alive) (hne : g.token.digits ≠ []) :
    Settled g.token.digits (s.next .die).1 := by
  obtain ⟨-, hkeeps⟩ := h.daemon _ hidle
  obtain ⟨hlinked, -⟩ := hkeeps.ret safe_others
  obtain ⟨-, -, -, -, hclean, htoken⟩ := hlinked p hp halive.1
  have hguarded := next_guarded s .die h (.inr ⟨p, hp, halive⟩)
  have hstep : (s.next .die).1 = ⟨s.world.lose, none⟩ := by
    rw [System.next, System.step, hidle]
  rw [hstep] at hguarded ⊢
  have howes : ∀ c, c ∈ wdCleanup g.token.digits → Owes c { p with writer := false } := by
    intro c hc
    refine ⟨halive.1, fun hyes => absurd (halive.2.symm.trans hyes) (by simp), fun _ => ⟨hclean, ?_⟩⟩
    rw [← htoken hne] at hc
    exact hc
  have hmem : { p with writer := false } ∈ s.world.lose.orphans := by
    rw [World.lose, hp]
    exact List.mem_append_right _ (List.mem_singleton.mpr rfl)
  refine ⟨hguarded, rfl, .inr ⟨_, hmem, howes _ ?_⟩, .inr ⟨_, hmem, .inl (howes _ ?_)⟩⟩
  · simp [wdCleanup, anchorFlush, hne]
  · simp [wdCleanup, anchorFlush, hne]

end Release

-- A daemon that dies between two calls, while its watchdog is alive: when that has done its
-- work no rules are left, the reference to PF is released and its record is gone.
theorem idle_death_releases {events after : List Event} (hfair : Machine.Along System.next Fair boot events)
    {g : Globals} {p : Process} (hidle : (Machine.run System.next boot events).1.daemon = some (.ret g))
    (hp : (Machine.run System.next boot events).1.world.child = some p) (halive : p.Alive)
    (htoken : g.token.digits ≠ []) (hafter : ∀ e ∈ after, e.Smooth) :
    let s := (Machine.run System.next boot (events ++ .die :: after)).1
    (∀ p ∈ s.world.orphans, p.dead = true) →
      s.world.host.Empty ∧ g.token.digits ∉ s.world.host.refs ∧
        tokenRead (s.world.host.file.getD []) ≠ g.token.digits := by
  have hdied := die_settled (run_guarded hfair) hidle hp halive htoken
  have hsettled := Machine.run_along_state System.next (fun _ e => e.Smooth) (Settled g.token.digits)
    (next_settled htoken) hdied (along_smooth hafter _)
  intro s hdead
  have hs : s = (Machine.run System.next ((Machine.run System.next boot events).1.next .die).1 after).1 := by
    change (Machine.run System.next boot (events ++ .die :: after)).1 = _
    rw [Machine.run_append]
    rfl
  rw [← hs] at hsettled
  obtain ⟨hguarded, hnone, hrefs, hfile⟩ := hsettled
  refine ⟨fun part => ?_, hrefs.resolve_right ?_, hfile.resolve_right ?_⟩
  · cases hpart : s.world.host.anchor part with
    | false => rfl
    | true =>
        obtain ⟨q, hq, howes⟩ := hguarded.owed hnone part hpart
        exact absurd ((hdead q hq).symm.trans howes.alive) (by simp)
  · rintro ⟨q, hq, howes⟩
    exact absurd ((hdead q hq).symm.trans howes.alive) (by simp)
  · rintro ⟨q, hq, howes | howes⟩
    · exact absurd ((hdead q hq).symm.trans howes.alive) (by simp)
    · exact absurd ((hdead q hq).symm.trans howes.alive) (by simp)

theorem cleanupRun_smooth : ∀ e ∈ cleanupRun, e.Smooth := by
  simp [cleanupRun, Event.Smooth, Move.Smooth]

theorem idle_death_releases_killed :
    (Machine.run System.next boot installedRun).1.world.host.refs = [[55, 55]] ∧
      [55, 55] ∉ (Machine.run System.next boot (installedRun ++ .die :: cleanupRun)).1.world.host.refs :=
  ⟨by decide +kernel,
    (@idle_death_releases installedRun cleanupRun (by decide +kernel)
      ⟨.ofBytes [55, 55], true, true, true, true, true, true, false⟩
      ⟨.start (List.replicate 31 9) 0, [116, 55, 55, 10], true, [], false, false⟩ rfl rfl (by decide) (by decide)
      cleanupRun_smooth (by decide +kernel)).2.1⟩

section Remove

-- The daemon is in one call.
def Event.inside : Event → Bool
  | .reply _ | .child _ | .orphan _ _ => true
  | _ => false

def Removed (g : Globals) (w : World) : Prop :=
  g.token.digits = [] ∧ g.wdFd = false ∧ At (fun _ => False) ALL w

end Remove

end DpiProxy.Transparent.Macos
