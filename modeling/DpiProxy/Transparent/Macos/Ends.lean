import DpiProxy.Transparent.Macos.System

namespace DpiProxy.Transparent.Macos

open Wire

-- Something that a watchdog does by itself, and that changes it.
def Stirs (p p' : Process) : Prop := ∃ h m h', m ≠ .kill ∧ p.move h m = some (p', h') ∧ p' ≠ p

-- A watchdog that exits has something left to do, or is gone.
def Process.Sound (p : Process) : Prop := p.exits = true → p.dead = false → p.chores ≠ []

def Chore.weight : Chore → Nat
  | .forget _ => 2
  | _ => 1

def weights (chores : List Chore) : Nat := (chores.map Chore.weight).sum

def Turned.cost (r : Turned) : Nat :=
  weights r.chores + (if r.self.flushed then 0 else 4) + if r.exits then 0 else 7

-- A byte outweighs what it can bring about.
def Process.rank (p : Process) : Nat :=
  8 * p.pipe.length + weights p.chores + (if p.self.flushed then 0 else 4) + if p.exits then 0 else 7

section Rank

variable {p p' : Process} {h h' : Host} {m : Move}

theorem weights_cleanup (token : Bytes) : weights (wdCleanup token) ≤ 6 := by
  unfold wdCleanup
  split <;> simp [weights, anchorFlush, Chore.weight]

theorem weights_append (xs ys : List Chore) : weights (xs ++ ys) = weights xs + weights ys := by
  rw [weights, List.map_append, List.sum_append]
  rfl

theorem weights_chore (h : Host) (ok : Bool) (c : Chore) : weights (h.chore ok c).2 < c.weight := by
  cases c with
  | forget token =>
      simp only [Host.chore]
      split <;> simp [weights, Chore.weight]
  | flush | release | unlink => simp [Host.chore, weights, Chore.weight]

theorem chore_rank {ok : Bool} (hmove : p.move h (.chore ok) = some (p', h')) : p'.rank < p.rank := by
  simp only [Process.move] at hmove
  split at hmove
  · cases hmove
  · rename_i c rest hchores
    split at hmove
    · cases hmove
    · obtain ⟨rfl, -⟩ := Prod.mk.inj (Option.some.inj hmove)
      have hlt := weights_chore h ok c
      have hsum : weights p.chores = c.weight + weights rest := by
        rw [hchores, weights, List.map_cons, List.sum_cons]
        rfl
      simp only [Process.rank, weights_append, hsum]
      omega

theorem flag_le (b : Bool) : (if b then 0 else 4) ≤ 4 := by
  cases b <;> simp

theorem ended_cost (w : Watchdog) {t : Turn} (hended : t.heard = .ended) :
    (w.turn t).cost < (⟨w, [], false⟩ : Turned).cost := by
  have hweights := weights_cleanup (cstr w.token)
  have hnone : weights [] = 0 := rfl
  unfold Watchdog.turn
  rw [hended]
  dsimp only
  split <;> simp only [Turned.cost, hnone, if_true, Bool.false_eq_true, if_false] <;> omega

theorem heard_cost (w : Watchdog) {t : Turn} (hheard : t.heard ≠ .ended) : (w.turn t).cost ≤ 11 := by
  cases hterm : t.term with
  | true =>
      obtain ⟨hexits, hchores⟩ := @turn_term w t hheard hterm
      have hweights := weights_cleanup (cstr (w.turn t).self.token)
      have hflag := flag_le (w.turn t).self.flushed
      rw [Turned.cost, hexits, hchores, if_pos rfl]
      omega
  | false =>
      rw [turn_goes hheard hterm]
      dsimp only
      split
      · simp [Turned.cost, weights, anchorFlush, Chore.weight]
      · have hflag := flag_le (t.heard.bytes.foldl (Watchdog.byte t.beat) w).flushed
        simp only [Turned.cost, weights, List.map_nil, List.sum_nil, Bool.false_eq_true, if_false]
        omega

-- A turn that hears nothing changes nothing, or sets the mark that the anchor is empty.
theorem nothing_cost (w : Watchdog) {t : Turn} (hnothing : t.heard = .nothing) :
    w.turn t = ⟨w, [], false⟩ ∨ (w.turn t).cost < (⟨w, [], false⟩ : Turned).cost := by
  have hheard : t.heard ≠ .ended := by simp [hnothing]
  have hnone : weights [] = 0 := rfl
  cases hterm : t.term with
  | true =>
      right
      obtain ⟨hexits, hchores⟩ := @turn_term w t hheard hterm
      have hself : (w.turn t).self = w := by
        unfold Watchdog.turn
        rw [hnothing, hterm]
        rfl
      have hweights := weights_cleanup (cstr w.token)
      rw [Turned.cost, hexits, hchores, hself, if_pos rfl]
      simp only [Turned.cost, hnone, Bool.false_eq_true, if_false]
      omega
  | false =>
      have hfold : t.heard.bytes.foldl (Watchdog.byte t.beat) w = w := by
        rw [hnothing]
        rfl
      rw [turn_goes hheard hterm]
      dsimp only
      rw [hfold]
      by_cases hdue : (!w.flushed && decide (t.now - w.last > TP_ALIVE_TIMEOUT_S * 1000)) = true
      · right
        rw [if_pos hdue]
        rw [Bool.and_eq_true, Bool.not_eq_true'] at hdue
        simp [Turned.cost, weights, anchorFlush, Chore.weight, hdue.1]
      · exact .inl (if_neg hdue)

theorem turn_rank {t : Turn} (hmove : p.move h (.turn t) = some (p', h')) :
    (t.heard = .nothing ∧ p' = p) ∨ p'.rank < p.rank := by
  simp only [Process.move] at hmove
  split at hmove
  · rename_i hcan
    obtain ⟨hdead, hexits, hchores, hheard⟩ := hcan
    obtain ⟨rfl, -⟩ := Prod.mk.inj (Option.some.inj hmove)
    have hrank : p.rank = 8 * p.pipe.length + (⟨p.self, [], false⟩ : Turned).cost := by
      simp only [Process.rank, Turned.cost, hchores, hexits, Bool.false_eq_true, if_false]
      omega
    have hrank' : ∀ (pipe : Bytes) (dead : Bool),
        (⟨(p.self.turn t).self, pipe, p.writer, (p.self.turn t).chores, (p.self.turn t).exits, dead⟩ : Process).rank =
          8 * pipe.length + (p.self.turn t).cost := fun pipe dead => by
      simp only [Process.rank, Turned.cost]
      omega
    cases hcase : t.heard with
    | ended =>
        right
        have hcost := ended_cost p.self hcase
        rw [hrank, hrank']
        simp only [Heard.bytes, List.length_nil, List.drop_zero]
        omega
    | nothing =>
        rcases nothing_cost p.self hcase with hsame | hcost
        · refine .inl ⟨rfl, ?_⟩
          rw [hsame]
          cases p
          simp only at hdead hexits hchores
          rw [hdead, hexits, hchores]
          rfl
        · right
          rw [hrank, hrank']
          simp only [Heard.bytes, List.length_nil, List.drop_zero]
          omega
    | data bytes =>
        right
        rw [hcase] at hheard
        obtain ⟨hne, -, hbegins⟩ := hheard
        have hpos := List.length_pos_of_ne_nil hne
        have hle := hbegins.length_le
        have hcost := heard_cost p.self (show t.heard ≠ .ended by simp [hcase])
        have hflag : 7 ≤ (⟨p.self, [], false⟩ : Turned).cost := by
          simp [Turned.cost]
        rw [hrank, hrank']
        simp only [Heard.bytes, List.length_drop]
        omega
  · cases hmove

theorem stirs_rank (hstirs : Stirs p p') : p'.rank < p.rank := by
  obtain ⟨h, m, h', hkill, hmove, hother⟩ := hstirs
  cases m with
  | kill => exact absurd rfl hkill
  | chore ok => exact chore_rank hmove
  | turn t => exact (turn_rank hmove).resolve_left fun hsame => hother hsame.2

end Rank

section Enabled

variable {p p' : Process} {h h' : Host} {m : Move}

theorem fresh_sound (stack : Bytes) : (Process.fresh stack).Sound := fun hyes => absurd hyes Bool.false_ne_true

theorem move_sound (hmove : p.move h m = some (p', h')) : p'.Sound := by
  cases m with
  | kill =>
      obtain ⟨rfl, -⟩ := Prod.mk.inj (Option.some.inj hmove)
      exact fun _ halive => absurd halive (by simp)
  | turn t =>
      simp only [Process.move] at hmove
      split at hmove
      · obtain ⟨rfl, -⟩ := Prod.mk.inj (Option.some.inj hmove)
        rintro hexits hdead hnil
        dsimp only at hexits hdead hnil
        rw [hexits, hnil] at hdead
        exact absurd hdead (by simp)
      · cases hmove
  | chore ok =>
      simp only [Process.move] at hmove
      split at hmove
      · cases hmove
      · split at hmove
        · cases hmove
        · obtain ⟨rfl, -⟩ := Prod.mk.inj (Option.some.inj hmove)
          rintro hexits hdead hnil
          dsimp only at hexits hdead hnil
          rw [hexits, hnil] at hdead
          exact absurd hdead (by simp)

theorem stirs_of_rank (hkill : m ≠ .kill) (hmove : p.move h m = some (p', h')) (hrank : p'.rank < p.rank) :
    Stirs p p' := by
  refine ⟨h, m, h', hkill, hmove, fun hsame => ?_⟩
  rw [hsame] at hrank
  exact absurd hrank (Nat.lt_irrefl _)

-- A watchdog without a daemon can always do the next thing.
theorem orphan_stirs (hsound : p.Sound) (hwriter : p.writer = false) (halive : p.dead = false) (h : Host) :
    ∃ p', Stirs p p' := by
  cases hchores : p.chores with
  | cons c rest =>
      have hmove : ∃ r, p.move h (.chore true) = some r := by
        rw [Process.move, hchores]
        simp only [halive]
        exact ⟨_, rfl⟩
      obtain ⟨⟨p', h'⟩, hmove⟩ := hmove
      exact ⟨p', stirs_of_rank (by simp) hmove (chore_rank hmove)⟩
  | nil =>
      have hexits : p.exits = false := by
        cases hexits : p.exits with
        | false => rfl
        | true => exact absurd hchores (hsound hexits halive)
      have hgo : ∀ t : Turn, p.CanHear t.heard → t.heard ≠ .nothing → ∃ p', Stirs p p' := by
        intro t hcan hsome
        have hmove : ∃ r, p.move h (.turn t) = some r := by
          rw [Process.move, if_pos ⟨halive, hexits, hchores, hcan⟩]
          exact ⟨_, rfl⟩
        obtain ⟨⟨p', h'⟩, hmove⟩ := hmove
        exact ⟨p', stirs_of_rank (by simp) hmove ((turn_rank hmove).resolve_left fun hno => hsome hno.1)⟩
      cases hpipe : p.pipe with
      | nil => exact hgo ⟨.ended, 0, false, 0⟩ ⟨hpipe, hwriter⟩ (by simp)
      | cons b rest =>
          refine hgo ⟨.data [b], 0, false, 0⟩ ⟨by simp, by simp, ?_⟩ (by simp)
          rw [hpipe]
          exact ⟨rest, rfl⟩

end Enabled

-- Whatever else happens to PF and to the token file: a watchdog without a daemon does no more
-- than so many things, and it does not stop before it has exited.
theorem orphan_ends {p : Process} (hsound : p.Sound) (hwriter : p.writer = false) (steps : Nat → Process) (n : Nat)
    (hbegin : steps 0 = p) (hsteps : ∀ i < n, Stirs (steps i) (steps (i + 1))) :
    n ≤ 8 * p.pipe.length + weights p.chores + 11 ∧ ((∀ p', ¬Stirs (steps n) p') → (steps n).dead = true) := by
  have hrun : ∀ i ≤ n, (steps i).rank + i ≤ p.rank ∧ (steps i).Sound ∧ (steps i).writer = false := by
    intro i hi
    induction i with
    | zero =>
        rw [hbegin]
        exact ⟨Nat.le_refl _, hsound, hwriter⟩
    | succ i ih =>
        obtain ⟨hle, hsound', hwriter'⟩ := ih (by omega)
        have hstir := hsteps i (by omega)
        have hless := stirs_rank hstir
        obtain ⟨h, m, h', -, hmove, -⟩ := hstir
        exact ⟨by omega, move_sound hmove, (move_same hmove).1.writer.trans hwriter'⟩
  obtain ⟨hle, hsound', hwriter'⟩ := hrun n (Nat.le_refl n)
  constructor
  · have hflag := flag_le p.self.flushed
    have hrank : p.rank ≤ 8 * p.pipe.length + weights p.chores + 11 := by
      rw [Process.rank]
      cases p.exits
      · rw [if_neg Bool.false_ne_true]
        omega
      · rw [if_pos rfl]
        omega
    omega
  · intro hstuck
    cases hdead : (steps n).dead with
    | true => rfl
    | false =>
        obtain ⟨p', hstir⟩ := orphan_stirs hsound' hwriter' hdead ⟨fun _ => false, [], none⟩
        exact absurd hstir (hstuck p')

-- In the middle of a flush after a silence, with a beat in the pipe, when its daemon goes.
def lost (flushed : Bool) (pipe : Bytes) (chores : List Chore) (exits dead : Bool) : Process :=
  ⟨{ Watchdog.start (List.replicate 31 0) 0 with flushed := flushed }, pipe, false, chores, exits, dead⟩

def lostSteps : Nat → Process
  | 0 => lost true [98] [.flush .tables] false false
  | 1 => lost true [98] [] false false
  | 2 => lost false [] [] false false
  | 3 => lost false [] anchorFlush true false
  | 4 => lost false [] [.flush .rules, .flush .tables] true false
  | 5 => lost false [] [.flush .tables] true false
  | _ => lost false [] [] true true

theorem lostSteps_stir : ∀ i < 6, Stirs (lostSteps i) (lostSteps (i + 1)) := by
  have h : Host := ⟨fun _ => false, [], none⟩
  intro i hi
  match i, hi with
  | 0, _ => exact ⟨h, .chore false, h, by simp, rfl, by decide⟩
  | 1, _ => exact ⟨h, .turn ⟨.data [98], 0, false, 0⟩, h, by simp, rfl, by decide⟩
  | 2, _ => exact ⟨h, .turn ⟨.ended, 0, false, 0⟩, h, by simp, rfl, by decide⟩
  | 3, _ => exact ⟨h, .chore false, h, by simp, rfl, by decide⟩
  | 4, _ => exact ⟨h, .chore false, h, by simp, rfl, by decide⟩
  | 5, _ => exact ⟨h, .chore false, h, by simp, rfl, by decide⟩

theorem orphan_ends_silent : 6 ≤ 8 * 1 + weights [.flush .tables] + 11 :=
  (orphan_ends (fun hyes => absurd hyes (by decide)) rfl lostSteps 6 rfl lostSteps_stir).1

end DpiProxy.Transparent.Macos
