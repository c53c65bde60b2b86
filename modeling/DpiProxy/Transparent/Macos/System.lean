import DpiProxy.Transparent.Macos.Pf

namespace DpiProxy.Transparent.Macos

open Wire Interleaving

-- What a watchdog does next, or SIGKILL.
inductive Move where
  | turn (t : Turn)
  | chore (ok : Bool)
  | kill
deriving DecidableEq, Repr

-- A chore that is done, and what it leads to.
def Host.chore (h : Host) (ok : Bool) : Chore → Host × List Chore
  | .flush part => (if ok then h.flush part else h, [])
  | .release token => (if ok then h.release token else h, [])
  | .forget token =>
      let cur := tokenRead (h.file.getD [])
      (h, if cur ≠ [] ∧ cur = token then [.unlink] else [])
  | .unlink => (if ok then { h with file := none } else h, [])

-- A read gets a part of what is in the pipe, and the end only when nothing is left and
-- nobody can write.
def Process.CanHear (p : Process) : Heard → Prop
  | .nothing => True
  | .data bytes => bytes ≠ [] ∧ bytes.length ≤ 256 ∧ bytes <+: p.pipe
  | .ended => p.pipe = [] ∧ p.writer = false

instance (p : Process) (heard : Heard) : Decidable (p.CanHear heard) := by
  unfold Process.CanHear
  split <;> infer_instance

def Process.move (p : Process) (h : Host) (m : Move) : Option (Process × Host) :=
  match m with
  | .kill => some ({ p with dead := true }, h)
  | .turn t =>
      if p.dead = false ∧ p.exits = false ∧ p.chores = [] ∧ p.CanHear t.heard then
        let r := p.self.turn t
        some
          ({ p with
              self := r.self
              pipe := p.pipe.drop t.heard.bytes.length
              chores := r.chores
              exits := r.exits
              dead := r.exits && r.chores.isEmpty }, h)
      else none
  | .chore ok =>
      match p.chores with
      | [] => none
      | c :: rest =>
          if p.dead then none
          else
            let r := h.chore ok c
            some ({ p with chores := r.2 ++ rest, dead := p.exits && (r.2 ++ rest).isEmpty }, r.1)

inductive Call where
  | install
  | refresh
  | remove
deriving DecidableEq, Repr

def Call.run (g : Globals) : Call → Daemon Globals
  | .install => do
      let r ← tppInstall g
      pure r.2
  | .refresh => do
      let r ← tppRefresh g
      pure r.2
  | .remove => tppRemove g

-- The daemon is gone, or somewhere in its program; between two calls the program is at its
-- end.
structure System where
  world : World
  daemon : Option (Daemon Globals)

inductive Event where
  | start
  | call (c : Call)
  | reply (r : Reply)
  | die
  | child (m : Move)
  | orphan (i : Nat) (m : Move)
deriving DecidableEq, Repr

-- The daemon's end of the pipe closes with it.
def World.lose (w : World) : World :=
  { w with child := none, orphans := w.orphans ++ (w.child.map fun p => { p with writer := false }).toList }

-- An event that is not possible changes nothing.
def System.step (s : System) : Event → System
  | .start =>
      match s.daemon with
      | none => { s with daemon := some (.ret .start) }
      | some _ => s
  | .call c =>
      match s.daemon with
      | some (.ret g) => { s with daemon := some (c.run g) }
      | _ => s
  | .reply r =>
      match s.daemon with
      | some (.act o k) =>
          match o.does r s.world with
          | some w => ⟨w, some (k r)⟩
          | none => s
      | _ => s
  | .die =>
      match s.daemon with
      | some _ => ⟨s.world.lose, none⟩
      | none => s
  | .child m =>
      match s.world.child with
      | some p =>
          match p.move s.world.host m with
          | some (p, h) => { s with world := { s.world with host := h, child := some p } }
          | none => s
      | none => s
  | .orphan i m =>
      match s.world.orphans[i]? with
      | some p =>
          match p.move s.world.host m with
          | some (p, h) => { s with world := { s.world with host := h, orphans := s.world.orphans.set i p } }
          | none => s
      | none => s

def System.run (s : System) (events : List Event) : System := events.foldl System.step s

def boot : System := ⟨⟨⟨fun _ => false, [], none⟩, none, []⟩, none⟩

-- All that is in the pipe, read.
def Process.told (p : Process) : Watchdog := p.pipe.foldl (Watchdog.byte 0) p.self

section Moves

-- A watchdog forgets nothing of what it is told, and does not come back.
structure Same (p p' : Process) : Prop where
  writer : p'.writer = p.writer
  dead : p.dead = true → p'.dead = true
  told : p'.told.parse = p.told.parse

theorem Same.refl (p : Process) : Same p p := ⟨rfl, id, rfl⟩

theorem Same.trans {p p' p'' : Process} (h : Same p p') (h' : Same p' p'') : Same p p'' :=
  ⟨h'.writer.trans h.writer, fun hd => h'.dead (h.dead hd), h'.told.trans h.told⟩

-- Watchdogs only take away.
structure Shrinks (h h' : Host) : Prop where
  anchor : ∀ part, h'.anchor part = true → h.anchor part = true
  refs : h'.refs ⊆ h.refs
  file : h'.file = h.file ∨ h'.file = none

theorem Shrinks.refl (h : Host) : Shrinks h h := ⟨fun _ hp => hp, List.Subset.refl _, .inl rfl⟩

theorem Shrinks.trans {h h' h'' : Host} (hs : Shrinks h h') (hs' : Shrinks h' h'') : Shrinks h h'' where
  anchor part hp := hs.anchor part (hs'.anchor part hp)
  refs := List.Subset.trans hs'.refs hs.refs
  file := by
    rcases hs'.file with hsame | hnone
    · rw [hsame]
      exact hs.file
    · exact .inr hnone

theorem flush_shrinks (h : Host) (part : Part) : Shrinks h (h.flush part) where
  anchor p hp := by
    unfold Host.flush at hp
    dsimp only at hp
    split at hp
    · cases hp
    · exact hp
  refs := List.Subset.refl _
  file := .inl rfl

theorem chore_shrinks (h : Host) (ok : Bool) (c : Chore) : Shrinks h (h.chore ok c).1 := by
  cases c with
  | flush part =>
      cases ok with
      | true => exact flush_shrinks h part
      | false => exact .refl h
  | release token =>
      cases ok with
      | true => exact ⟨fun _ hp => hp, fun _ ht => List.mem_of_mem_filter ht, .inl rfl⟩
      | false => exact .refl h
  | forget token => exact .refl h
  | unlink =>
      cases ok with
      | true => exact ⟨fun _ hp => hp, List.Subset.refl _, .inr rfl⟩
      | false => exact .refl h

variable {p p' : Process} {h h' : Host} {m : Move}

-- What is read is no longer in the pipe.
theorem CanHear.cut {heard : Heard} (hcan : p.CanHear heard) :
    p.pipe = heard.bytes ++ p.pipe.drop heard.bytes.length := by
  cases heard with
  | nothing => rfl
  | ended => rfl
  | data bytes =>
      obtain ⟨rest, hrest⟩ := hcan.2.2
      rw [← hrest]
      simp [Heard.bytes]

theorem turn_told {t : Turn} (hcan : p.CanHear t.heard) :
    ((p.pipe.drop t.heard.bytes.length).foldl (Watchdog.byte 0) (p.self.turn t).self).parse = p.told.parse := by
  have hread : (p.self.turn t).self.parse = (t.heard.bytes.foldl (Watchdog.byte 0) p.self).parse := by
    by_cases hended : t.heard = .ended
    · unfold Watchdog.turn
      rw [hended]
      rfl
    · exact turn_parse t hended
  have hcut := CanHear.cut hcan
  rw [bytes_parse 0 _ hread, ← List.foldl_append, ← hcut]
  rfl

theorem move_same (hmove : p.move h m = some (p', h')) : Same p p' ∧ Shrinks h h' := by
  cases m with
  | kill =>
      obtain ⟨rfl, rfl⟩ := Prod.mk.inj (Option.some.inj hmove)
      exact ⟨⟨rfl, fun _ => rfl, rfl⟩, .refl h⟩
  | turn t =>
      simp only [Process.move] at hmove
      split at hmove
      · rename_i hcan
        obtain ⟨hdead, -, -, hheard⟩ := hcan
        obtain ⟨rfl, rfl⟩ := Prod.mk.inj (Option.some.inj hmove)
        exact ⟨⟨rfl, fun hd => absurd (hdead.symm.trans hd) (by simp), turn_told hheard⟩, .refl h⟩
      · cases hmove
  | chore ok =>
      simp only [Process.move] at hmove
      split at hmove
      · cases hmove
      · split at hmove
        · cases hmove
        · rename_i c rest _ hdead
          obtain ⟨rfl, rfl⟩ := Prod.mk.inj (Option.some.inj hmove)
          exact ⟨⟨rfl, fun hd => absurd hd hdead, rfl⟩, chore_shrinks h ok c⟩

end Moves

end DpiProxy.Transparent.Macos
