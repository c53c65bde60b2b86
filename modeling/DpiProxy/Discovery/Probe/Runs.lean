import DpiProxy.Discovery.Probe

namespace DpiProxy.Discovery

open Wire Interleaving

-- What passes between two operations of the prober: its children end, and while the engine
-- runs it can set up its table.
structure ProbeRely (w w' : ProbeWorld) : Prop where
  time : w.now ≤ w'.now
  room : w'.room = w.room
  file : w'.file = w.file
  fds : w'.fds = w.fds
  said : w'.said = w.said
  engine : w'.engine = w.engine ∨ w.engine = .running ∧ w'.engine = .ended
  openssl : w'.openssl = w.openssl ∨ w.openssl = .running ∧ w'.openssl = .ended
  table : w'.table = w.table ∨ w.engine = .running ∨ w'.table = false

inductive Life where
  | absent
  | alive
  | over
deriving DecidableEq, Repr

def Child.life : Child → Life
  | .none => .absent
  | .running | .ended => .alive
  | .reaped => .over

-- What the prober itself decides of the world.
structure Stage where
  room : Nat
  file : Option Bytes
  fds : Int
  engine : Life
  openssl : Life
  said : Bytes
deriving DecidableEq, Repr

def ProbeWorld.stage (w : ProbeWorld) : Stage := ⟨w.room, w.file, w.fds, w.engine.life, w.openssl.life, w.said⟩

-- An engine has its configuration, and openssl an engine.
structure Stage.Ok (text : Bytes) (s : Stage) : Prop where
  engine : s.engine = .alive → s.file = some (text.take s.room)
  openssl : s.openssl = .alive → s.engine = .alive

def Served (text : Bytes) (w : ProbeWorld) : Prop := w.stage.Ok text

section Rely

variable {w w' w'' : ProbeWorld}

theorem life_keeps {c c' : Child} (h : c' = c ∨ c = .running ∧ c' = .ended) : c'.life = c.life := by
  rcases h with rfl | ⟨rfl, rfl⟩
  · rfl
  · rfl

theorem child_trans {c c' c'' : Child} (h : c' = c ∨ c = .running ∧ c' = .ended)
    (h' : c'' = c' ∨ c' = .running ∧ c'' = .ended) : c'' = c ∨ c = .running ∧ c'' = .ended := by
  rcases h with rfl | ⟨rfl, rfl⟩
  · exact h'
  · rcases h' with rfl | ⟨h', -⟩
    · exact .inr ⟨rfl, rfl⟩
    · cases h'

theorem ProbeRely.stage (h : ProbeRely w w') : w'.stage = w.stage := by
  simp only [ProbeWorld.stage, h.room, h.file, h.fds, h.said, life_keeps h.engine, life_keeps h.openssl]

theorem ProbeRely.refl (w : ProbeWorld) : ProbeRely w w :=
  ⟨Int.le_refl _, rfl, rfl, rfl, rfl, .inl rfl, .inl rfl, .inl rfl⟩

theorem ProbeRely.trans (h : ProbeRely w w') (h' : ProbeRely w' w'') : ProbeRely w w'' where
  time := h.time.trans h'.time
  room := h'.room.trans h.room
  file := h'.file.trans h.file
  fds := h'.fds.trans h.fds
  said := h'.said.trans h.said
  engine := child_trans h.engine h'.engine
  openssl := child_trans h.openssl h'.openssl
  table := by
    rcases h'.table with hsame | hrunning | hgone
    · rw [hsame]
      exact h.table
    · rcases h.engine with hsame | ⟨hrunning', -⟩
      · exact .inr (.inl (hsame ▸ hrunning))
      · exact .inr (.inl hrunning')
    · exact .inr (.inr hgone)

theorem probe_others (text : Bytes) : Others ProbeRely (Served text) where
  refl := ProbeRely.refl
  trans := ProbeRely.trans
  keep := by
    intro w w' h hserved
    rw [Served, h.stage]
    exact hserved

def At (s : Stage) (w : ProbeWorld) : Prop := w.stage = s

theorem at_stable (s : Stage) : Stable ProbeRely (At s) := fun _ _ h hat => h.stage.trans hat

end Rely

section Asking

-- What an operation does to the stage, when it succeeds.
def ProbeOp.after : ProbeOp → Stage → Stage
  | .mkstemp, s => { s with file := some [], fds := s.fds + 1 }
  | .write text, s => { s with file := some (text.take s.room) }
  | .close, s => { s with fds := s.fds - 1 }
  | .unlink, s => { s with file := none }
  | .fork .engine, s => { s with engine := .alive }
  | .fork .openssl, s => { s with openssl := .alive }
  | .pipe, s => { s with fds := s.fds + 2 }
  | .waitNohang .engine, s | .wait .engine, s => { s with engine := .over }
  | .waitNohang .openssl, s | .wait .openssl, s => { s with openssl := .over }
  | _, s => s

-- Those that have no failure.
def ProbeOp.Sure : ProbeOp → Prop
  | .write _ | .close | .unlink | .sleep | .wait _ | .kill _ _ => True
  | _ => False

def ProbeOp.Reads : ProbeOp → Prop
  | .read _ | .now => True
  | _ => False

variable {text : Bytes} {s : Stage}

theorem does_yes {o : ProbeOp} {w w' : ProbeWorld} (hdoes : o.does .yes w = some w') : w'.stage = o.after w.stage := by
  cases o with
  | now | read => cases hdoes
  | fdopen | sleep | kill | write | close | unlink | pipe | nftRemove =>
      obtain rfl := Option.some.inj hdoes
      rfl
  | mkstemp =>
      simp only [ProbeOp.does, Option.ite_none_right_eq_some, Option.some.injEq] at hdoes
      obtain ⟨-, rfl⟩ := hdoes
      rfl
  | fork who | waitNohang who | wait who =>
      simp only [ProbeOp.does, Option.ite_none_right_eq_some, Option.some.injEq] at hdoes
      obtain ⟨-, rfl⟩ := hdoes
      cases who <;> rfl

theorem does_no {o : ProbeOp} {w w' : ProbeWorld} (hdoes : o.does .no w = some w') : w' = w ∧ ¬o.Sure := by
  cases o with
  | mkstemp | fdopen | fork | pipe | read | waitNohang | nftRemove => exact ⟨(Option.some.inj hdoes).symm, id⟩
  | write | close | unlink | sleep | now | wait | kill => cases hdoes

theorem ask_at {o : ProbeOp} (hasks : ¬o.Reads) (hok : s.Ok text → (o.after s).Ok text) :
    Triple ProbeOp.does ProbeRely (Served text) (At s) (ask o) fun b w =>
      (b = false → ¬o.Sure) ∧ At (if b then o.after s else s) w := by
  have hpost : ∀ b : Bool, Stable ProbeRely fun w => (b = false → ¬o.Sure) ∧ At (if b then o.after s else s) w :=
    fun b => (Stable.const _).and (at_stable _)
  refine (Triple.perform (probe_others text) (at_stable s) (fun r => hpost (decide (r = .yes))) ?_).bind
    (probe_others text) fun r => .pure (hpost _) fun w _ hr => hr
  intro w r w' hserved hat hdoes
  rw [At] at hat
  cases r with
  | yes =>
      have hafter := does_yes hdoes
      rw [hat] at hafter
      rw [Served, hat] at hserved
      refine ⟨?_, by simp, hafter⟩
      rw [Served, hafter]
      exact hok hserved
  | no =>
      obtain ⟨rfl, hsure⟩ := does_no hdoes
      exact ⟨hserved, fun _ => hsure, hat⟩
  | again | data | time =>
      cases o with
      | read | now => exact absurd trivial hasks
      | mkstemp | fdopen | write | close | unlink | fork | sleep | pipe | waitNohang | wait | kill | nftRemove =>
          cases hdoes

theorem ask_sure {o : ProbeOp} (hsure : o.Sure) (hasks : ¬o.Reads) (hok : s.Ok text → (o.after s).Ok text) :
    Triple ProbeOp.does ProbeRely (Served text) (At s) (ask o) fun _ => At (o.after s) := by
  refine (ask_at hasks hok).weaken (fun _ _ h => h) fun b w h => ?_
  cases b with
  | false => exact absurd hsure (h.1 rfl)
  | true => exact h.2

-- The first operation of a program, that succeeds.
theorem then_sure {α : Type} {o : ProbeOp} {f : Bool → Prober α} {post : α → ProbeWorld → Prop} (hsure : o.Sure)
    (hasks : ¬o.Reads) (hok : s.Ok text → (o.after s).Ok text)
    (hnext : ∀ b, Triple ProbeOp.does ProbeRely (Served text) (At (o.after s)) (f b) post) :
    Triple ProbeOp.does ProbeRely (Served text) (At s) (ask o >>= f) post :=
  (ask_sure hsure hasks hok).bind (probe_others text) hnext

-- One that may fail.
theorem then_ask {α : Type} {o : ProbeOp} {f : Bool → Prober α} {post : α → ProbeWorld → Prop}
    (hasks : ¬o.Reads) (hok : s.Ok text → (o.after s).Ok text)
    (hyes : Triple ProbeOp.does ProbeRely (Served text) (At (o.after s)) (f true) post)
    (hno : Triple ProbeOp.does ProbeRely (Served text) (At s) (f false) post) :
    Triple ProbeOp.does ProbeRely (Served text) (At s) (ask o >>= f) post := by
  refine (ask_at hasks hok).bind (probe_others text) fun b => .given fun _ => ?_
  cases b with
  | false => exact hno
  | true => exact hyes

theorem then_now {α : Type} {f : Int → Prober α} {post : α → ProbeWorld → Prop}
    (hnext : ∀ t, Triple ProbeOp.does ProbeRely (Served text) (At s) (f t) post) :
    Triple ProbeOp.does ProbeRely (Served text) (At s) (nowMs >>= f) post := by
  have hnow : Triple ProbeOp.does ProbeRely (Served text) (At s) nowMs fun _ => At s := by
    refine (Triple.perform (probe_others text) (at_stable s) (fun _ => at_stable s) ?_).bind (probe_others text)
      fun r => ?_
    · intro w r w' hserved hat hdoes
      cases r with
      | time t =>
          simp only [ProbeOp.does, Option.ite_none_right_eq_some, Option.some.injEq] at hdoes
          obtain ⟨-, rfl⟩ := hdoes
          exact ⟨hserved, hat⟩
      | yes | no | again | data => cases hdoes
    · cases r with
      | time t | yes | no | again | data => exact .pure (at_stable s) fun _ _ h => h
  exact hnow.bind (probe_others text) hnext

theorem pure_at {α : Type} {a : α} {post : α → ProbeWorld → Prop} (hpost : Stable ProbeRely (post a))
    (h : ∀ w, At s w → post a w) : Triple ProbeOp.does ProbeRely (Served text) (At s) (pure a : Prober α) post :=
  .pure hpost fun w _ hat => h w hat

end Asking

section Programs

variable {text : Bytes} {s : Stage} {timeoutMs : Int} {n : Nat}

theorem writeTempConfig_at (hengine : s.engine = .absent) (hopenssl : s.openssl = .absent) (hfile : s.file = none) :
    Triple ProbeOp.does ProbeRely (Served text) (At s) (writeTempConfig text) fun b =>
      At (if b then { s with file := some (text.take s.room) } else s) := by
  obtain ⟨room, file, fds, engine, openssl, said⟩ := s
  obtain rfl : engine = .absent := hengine
  obtain rfl : openssl = .absent := hopenssl
  obtain rfl : file = none := hfile
  have hok : ∀ {file fds}, Stage.Ok text ⟨room, file, fds, .absent, .absent, said⟩ :=
    ⟨fun h => absurd h (by simp), fun h => absurd h (by simp)⟩
  have hfds : fds + 1 - 1 = fds := by omega
  refine then_ask id (fun _ => hok) ?_ (pure_at (at_stable _) fun _ h => h)
  refine then_ask id (fun _ => hok) ?_ ?_
  · refine then_sure trivial id (fun _ => hok) fun _ => ?_
    refine then_sure trivial id (fun _ => hok) fun _ => ?_
    refine pure_at (at_stable _) fun w h => ?_
    simp only [ProbeOp.after, hfds] at h
    exact h
  · refine then_sure trivial id (fun _ => hok) fun _ => ?_
    refine then_sure trivial id (fun _ => hok) fun _ => ?_
    refine pure_at (at_stable _) fun w h => ?_
    simp only [ProbeOp.after, hfds] at h
    exact h

-- What the read says is behind what has been said before.
def Heard (s : Stage) (buf : Bytes) : ProbeWorld → Prop := At { s with said := s.said ++ buf }

theorem readMore_heard (buf : Bytes) :
    Triple ProbeOp.does ProbeRely (Served text) (Heard s buf) (readMore buf) fun more => Heard s more.1 := by
  have hstable : ∀ buf, Stable ProbeRely (Heard s buf) := fun buf => at_stable _
  refine (Triple.perform (probe_others text) (hstable buf) (fun r => hstable (match r with
    | .data b => buf ++ b
    | _ => buf)) ?_).bind (probe_others text) fun r => ?_
  · intro w r w' hserved hheard hdoes
    cases r with
    | data b =>
        simp only [ProbeOp.does, Option.ite_none_right_eq_some, Option.some.injEq] at hdoes
        obtain ⟨-, rfl⟩ := hdoes
        refine ⟨⟨hserved.engine, hserved.openssl⟩, ?_⟩
        rw [Heard, At, ← List.append_assoc]
        rw [Heard, At] at hheard
        have hsaid := congrArg Stage.said hheard
        have hrest := congrArg (fun t : Stage => { t with said := s.said ++ buf ++ b }) hheard
        have happend : w.said ++ b = s.said ++ buf ++ b := congrArg (· ++ b) hsaid
        simpa only [ProbeWorld.stage, happend] using hrest
    | no | again =>
        obtain rfl := Option.some.inj hdoes
        exact ⟨hserved, hheard⟩
    | yes | time => cases hdoes
  · cases r with
    | data b | no | again | yes | time => exact .pure (hstable _) fun _ _ h => h

theorem readLoop_heard (deadline : Int) (n : Nat) (buf : Bytes) :
    Triple ProbeOp.does ProbeRely (Served text) (Heard s buf) (readLoop deadline n buf) (Heard s) := by
  have hstable : ∀ buf, Stable ProbeRely (Heard s buf) := fun buf => at_stable _
  induction n generalizing buf with
  | zero => exact .pure (hstable buf) fun _ _ h => h
  | succ n ih =>
      refine then_now fun now => .ite (fun _ => ?_) fun _ => .pure (hstable buf) fun _ _ h => h
      refine (readMore_heard buf).bind (probe_others text) fun more => ?_
      exact .ite (fun _ => ih more.1) fun _ => .pure (hstable more.1) fun _ _ h => h

theorem killAndWait_at {who : Who} (hok : s.Ok text → ((ProbeOp.wait who).after s).Ok text) :
    Triple ProbeOp.does ProbeRely (Served text) (At s) (killAndWait who) fun _ => At ((ProbeOp.wait who).after s) :=
  then_sure trivial id id fun _ => ask_sure trivial id hok

theorem reapOrKill_at {who : Who} (hok : s.Ok text → ((ProbeOp.wait who).after s).Ok text) :
    Triple ProbeOp.does ProbeRely (Served text) (At s) (reapOrKill who) fun _ => At ((ProbeOp.wait who).after s) := by
  have hsame : (ProbeOp.waitNohang who).after s = (ProbeOp.wait who).after s := by cases who <;> rfl
  refine then_ask id (hsame ▸ hok) ?_ (killAndWait_at hok)
  rw [hsame]
  exact pure_at (at_stable _) fun _ h => h

theorem waitLoop_at (deadline : Int) (hok : s.Ok text → ((ProbeOp.wait .engine).after s).Ok text) :
    Triple ProbeOp.does ProbeRely (Served text) (At s) (waitLoop deadline n) fun gone =>
      At (if gone then (ProbeOp.wait .engine).after s else s) := by
  induction n with
  | zero => exact pure_at (at_stable _) fun _ h => h
  | succ n ih =>
      refine then_now fun now => .ite (fun _ => ?_) fun _ => pure_at (at_stable _) fun _ h => h
      refine then_ask id hok (pure_at (at_stable _) fun _ h => h) ?_
      exact then_sure trivial id id fun _ => ih

theorem stopScopedEngine_at (hok : s.Ok text → ((ProbeOp.wait .engine).after s).Ok text) :
    Triple ProbeOp.does ProbeRely (Served text) (At s) (stopScopedEngine timeoutMs n) fun _ =>
      At ((ProbeOp.wait .engine).after s) := by
  refine then_sure trivial id id fun _ => then_now fun now => ?_
  refine (waitLoop_at _ hok).bind (probe_others text) fun gone => ?_
  cases gone with
  | true => exact pure_at (at_stable _) fun _ h => h
  | false => exact killAndWait_at hok

-- openssl is gone, and a success is what it has said.
def Checked (s : Stage) (result : ProbeResult) (w : ProbeWorld) : Prop :=
  ∃ out openssl, openssl ≠ .alive ∧ At { s with openssl := openssl, said := s.said ++ out } w ∧
    (result = .success → probeClassifyOpensslOutput (cstr out) = .success)

theorem checked_stable (s : Stage) (result : ProbeResult) : Stable ProbeRely (Checked s result) := by
  rintro w w' h ⟨out, openssl, hne, hat, hsuccess⟩
  exact ⟨out, openssl, hne, at_stable _ w w' h hat, hsuccess⟩

theorem checked_localError {w : ProbeWorld} (hopenssl : s.openssl = .absent) (h : At s w) :
    Checked s .localError w := by
  refine ⟨[], .absent, by simp, ?_, fun h => absurd h (by simp)⟩
  rw [List.append_nil, ← hopenssl]
  exact h

theorem checkOutput_checked (hengine : s.engine = .alive) (hfile : s.file = some (text.take s.room)) :
    Triple ProbeOp.does ProbeRely (Served text) (At { s with fds := s.fds + 2, openssl := .alive })
      (checkOutput timeoutMs n) (Checked s) := by
  obtain ⟨room, file, fds, engine, openssl, said⟩ := s
  obtain rfl : engine = .alive := hengine
  obtain rfl : file = some (text.take room) := hfile
  have hok : ∀ {fds openssl said}, Stage.Ok text ⟨room, some (text.take room), fds, .alive, openssl, said⟩ :=
    ⟨fun _ => rfl, fun _ => rfl⟩
  refine then_sure trivial id (fun _ => hok) fun _ => then_now fun now => ?_
  have hstart : ∀ w, At ⟨room, some (text.take room), fds + 2 - 1, .alive, .alive, said⟩ w →
      Heard ⟨room, some (text.take room), fds + 2 - 1, .alive, .alive, said⟩ [] w := by
    intro w h
    rw [Heard, List.append_nil]
    exact h
  refine ((readLoop_heard _ n []).weaken (fun w _ h => hstart w h) fun _ _ h => h).bind (probe_others text)
    fun buf => ?_
  refine then_sure trivial id (fun _ => hok) fun _ => ?_
  refine (reapOrKill_at fun _ => hok).bind (probe_others text) fun _ => ?_
  refine pure_at (checked_stable _ _) fun w h => ⟨buf, .over, by simp, ?_, id⟩
  have hfds : fds + 2 - 1 - 1 = fds := by omega
  simp only [ProbeOp.after, hfds] at h
  exact h

theorem runOpensslCheck_checked (hengine : s.engine = .alive) (hopenssl : s.openssl = .absent)
    (hfile : s.file = some (text.take s.room)) :
    Triple ProbeOp.does ProbeRely (Served text) (At s) (runOpensslCheck timeoutMs n) (Checked s) := by
  have hok : ∀ {fds openssl}, Stage.Ok text { s with fds := fds, openssl := openssl } :=
    ⟨fun _ => hfile, fun _ => hengine⟩
  refine then_ask id (fun _ => hok) ?_ (pure_at (checked_stable _ _) fun w h => checked_localError hopenssl h)
  refine then_ask id (fun _ => hok) (checkOutput_checked hengine hfile) ?_
  refine then_sure trivial id (fun _ => hok) fun _ => then_sure trivial id (fun _ => hok) fun _ => ?_
  refine pure_at (checked_stable _ _) fun w h => checked_localError hopenssl ?_
  have hfds : s.fds + 2 - 1 - 1 = s.fds := by omega
  simp only [ProbeOp.after, hfds] at h
  exact h

-- Once the engine is gone its table does not come back.
def Removed (s : Stage) (removed : Bool) (w : ProbeWorld) : Prop := At s w ∧ (removed = true → w.table = false)

theorem removed_stable (hgone : s.engine ≠ .alive) (removed : Bool) : Stable ProbeRely (Removed s removed) := by
  rintro w w' h ⟨hat, htable⟩
  refine ⟨at_stable s w w' h hat, fun hremoved => ?_⟩
  rcases h.table with hsame | hrunning | hnone
  · exact hsame.trans (htable hremoved)
  · refine absurd ?_ hgone
    rw [← congrArg Stage.engine hat, ProbeWorld.stage, hrunning]
    rfl
  · exact hnone

theorem nftRemove_removed (hgone : s.engine ≠ .alive) :
    Triple ProbeOp.does ProbeRely (Served text) (At s) (ask .nftRemove) (Removed s) := by
  refine (Triple.perform (probe_others text) (at_stable s) (fun r => removed_stable hgone (decide (r = .yes))) ?_).bind
    (probe_others text) fun r => .pure (removed_stable hgone _) fun _ _ h => h
  intro w r w' hserved hat hdoes
  cases r with
  | yes =>
      obtain rfl := Option.some.inj hdoes
      exact ⟨hserved, hat, fun _ => rfl⟩
  | no =>
      obtain rfl := Option.some.inj hdoes
      exact ⟨hserved, hat, fun h => absurd h (by simp)⟩
  | again | data | time => cases hdoes

theorem unlink_removed (hgone : s.engine ≠ .alive) (hopenssl : s.openssl ≠ .alive) (removed : Bool) :
    Triple ProbeOp.does ProbeRely (Served text) (Removed s removed) (ask .unlink) fun _ =>
      Removed { s with file := none } removed := by
  have hnext : Stable ProbeRely (Removed { s with file := none } removed) := removed_stable (by exact hgone) removed
  refine (Triple.perform (probe_others text) (removed_stable hgone removed) (fun _ => hnext) ?_).bind
    (probe_others text) fun r => .pure hnext fun _ _ h => h
  rintro w r w' hserved ⟨hat, htable⟩ hdoes
  cases r with
  | yes =>
      have hafter := does_yes hdoes
      rw [hat] at hafter
      refine ⟨?_, hafter, ?_⟩
      · rw [Served, hafter]
        exact ⟨fun h => absurd h hgone, fun h => absurd h hopenssl⟩
      · obtain rfl := Option.some.inj hdoes
        exact htable
  | no | again | data | time => cases hdoes

-- What holds when the prober returns.
def Done (s : Stage) (r : ProbeResult × Bool) (w : ProbeWorld) : Prop :=
  ∃ out engine openssl, engine ≠ .alive ∧ openssl ≠ .alive ∧
    Removed { s with file := none, engine := engine, openssl := openssl, said := s.said ++ out } r.2 w ∧
    (r.1 = .success → engine = .over ∧ probeClassifyOpensslOutput (cstr out) = .success)

theorem done_stable (s : Stage) (r : ProbeResult × Bool) : Stable ProbeRely (Done s r) := by
  rintro w w' h ⟨out, engine, openssl, hengine, hopenssl, hremoved, hsuccess⟩
  exact ⟨out, engine, openssl, hengine, hopenssl, removed_stable (by exact hengine) r.2 w w' h hremoved, hsuccess⟩

theorem done_localError {w : ProbeWorld} (hengine : s.engine = .absent) (hopenssl : s.openssl = .absent)
    (hfile : s.file = none) (h : At s w) : Done s (.localError, false) w := by
  refine ⟨[], .absent, .absent, by simp, by simp, ⟨?_, fun h => absurd h (by simp)⟩, fun h => absurd h (by simp)⟩
  obtain ⟨room, file, fds, engine, openssl, said⟩ := s
  obtain rfl : engine = .absent := hengine
  obtain rfl : openssl = .absent := hopenssl
  obtain rfl : file = none := hfile
  rw [List.append_nil]
  exact h

theorem probeViaLiveEngine_done {domain : Bytes} {candidate : StrategyChain} {fakeTtl : UInt8}
    (hengine : s.engine = .absent) (hopenssl : s.openssl = .absent) (hfile : s.file = none) :
    Triple ProbeOp.does ProbeRely (Served (tempConfig domain candidate fakeTtl)) (At s)
      (probeViaLiveEngine domain candidate timeoutMs fakeTtl n) (Done s) := by
  refine (writeTempConfig_at hengine hopenssl hfile).bind (probe_others _) fun written => ?_
  cases written with
  | false => exact pure_at (done_stable _ _) fun w h => done_localError hengine hopenssl hfile h
  | true =>
      refine then_ask id (fun _ => ⟨fun _ => rfl, fun _ => rfl⟩) ?_ ?_
      · refine then_sure trivial id id fun _ => ?_
        refine (runOpensslCheck_checked (s := { s with
          file := some ((tempConfig domain candidate fakeTtl).take s.room)
          engine := .alive }) rfl hopenssl rfl).bind (probe_others _) fun result => ?_
        rintro w hserved ⟨out, openssl, hne, hat, hsuccess⟩
        have hok : ∀ {file fds said}, Stage.Ok (tempConfig domain candidate fakeTtl)
            ⟨s.room, file, fds, .over, openssl, said⟩ := ⟨fun h => absurd h (by simp), fun h => absurd h hne⟩
        refine Triple.bind (probe_others _) (stopScopedEngine_at fun _ => hok) (fun _ => ?_) w hserved hat
        refine Triple.bind (probe_others _) (nftRemove_removed (by simp [ProbeOp.after])) fun removed => ?_
        refine Triple.bind (probe_others _) (unlink_removed (by simp [ProbeOp.after]) hne removed) fun _ => ?_
        refine .pure (done_stable _ _) fun w _ h => ⟨out, .over, openssl, by simp, hne, h, fun hr => ⟨rfl, hsuccess hr⟩⟩
      · refine then_sure trivial id (fun _ => ⟨fun h => absurd (hengine.symm.trans h) (by simp), fun h =>
          absurd (hopenssl.symm.trans h) (by simp)⟩) fun _ => ?_
        refine pure_at (done_stable _ _) fun w h => done_localError hengine hopenssl hfile ?_
        rw [At] at h
        rw [At, h]
        obtain ⟨room, file, fds, engine, openssl, said⟩ := s
        obtain rfl : file = none := hfile
        rfl

end Programs

theorem life_gone {c : Child} (h : c.life ≠ .alive) : c = .none ∨ c = .reaped := by
  cases c with
  | none => exact .inl rfl
  | reaped => exact .inr rfl
  | running | ended => exact absurd rfl h

-- Whatever fails and whenever its children end, the engine of a probe never runs without
-- its configuration, and the probe leaves nothing of its own behind.
theorem probe_leaves_nothing {domain : Bytes} {candidate : StrategyChain} {timeoutMs : Int} {fakeTtl : UInt8} {n : Nat}
    {w₀ w : ProbeWorld} {rest : Prober (ProbeResult × Bool)}
    (hfresh : w₀.file = none ∧ w₀.engine = .none ∧ w₀.openssl = .none)
    (hreaches : Reaches ProbeOp.does ProbeRely (probeViaLiveEngine domain candidate timeoutMs fakeTtl n) w₀ rest w) :
    (w.engine = .running → w.file = some ((tempConfig domain candidate fakeTtl).take w.room)) ∧
      (w.openssl = .running → w.engine = .running ∨ w.engine = .ended) ∧
      ∀ result removed, rest = .ret (result, removed) →
        w.file = none ∧ w.fds = w₀.fds ∧ (w.engine = .none ∨ w.engine = .reaped) ∧
          (w.openssl = .none ∨ w.openssl = .reaped) ∧ (removed = true → w.table = false) ∧
          (result = .success → w.engine = .reaped ∧
            ∃ out, w.said = w₀.said ++ out ∧ Search.find verifiedMark (cstr out) ≠ none) := by
  obtain ⟨hfile, hengine, hopenssl⟩ := hfresh
  have hstart : Served (tempConfig domain candidate fakeTtl) w₀ := by
    rw [Served, ProbeWorld.stage, hengine, hopenssl]
    exact ⟨fun h => absurd h (by simp [Child.life]), fun h => absurd h (by simp [Child.life])⟩
  have hlife : w₀.engine.life = .absent ∧ w₀.openssl.life = .absent := by
    rw [hengine, hopenssl]
    exact ⟨rfl, rfl⟩
  obtain ⟨hserved, hkeeps⟩ := (probeViaLiveEngine_done hlife.1 hlife.2 hfile w₀ hstart rfl).reaches (probe_others _)
    hstart hreaches
  refine ⟨fun hrunning => hserved.engine ?_, fun hrunning => ?_, ?_⟩
  · rw [ProbeWorld.stage, hrunning]
    rfl
  · have halive : w.engine.life = .alive := hserved.openssl (by
      rw [ProbeWorld.stage, hrunning]
      rfl)
    cases hc : w.engine with
    | running => exact .inl rfl
    | ended => exact .inr rfl
    | none | reaped =>
        rw [hc] at halive
        cases halive
  · rintro result removed rfl
    obtain ⟨out, engine, openssl, hne, hne', ⟨hat, htable⟩, hsuccess⟩ := hkeeps.ret (probe_others _)
    have hengineLife : w.engine.life = engine := congrArg Stage.engine hat
    have hopensslLife : w.openssl.life = openssl := congrArg Stage.openssl hat
    refine ⟨congrArg Stage.file hat, congrArg Stage.fds hat, life_gone (hengineLife ▸ hne),
      life_gone (hopensslLife ▸ hne'), htable, fun hr => ?_⟩
    obtain ⟨hover, hclass⟩ := hsuccess hr
    refine ⟨?_, out, congrArg Stage.said hat, fun hnone => ?_⟩
    · rcases life_gone (hengineLife ▸ hne) with hc | hc
      · rw [hc, hover] at hengineLife
        cases hengineLife
      · exact hc
    · rw [probeClassifyOpensslOutput] at hclass
      split_ifs at hclass

def verifiedOutput : Bytes := connectedMark ++ verifiedMark

def freshProbe : ProbeWorld := ⟨0, 4096, none, 3, .none, .none, [], false⟩

-- Both children have ended when they are waited for, and the engine's table is still there.
def endedProbe : ProbeWorld where
  now := 500
  room := 4096
  file := some ((tempConfig [97] (.single .fake) 8).take 4096)
  fds := 3
  engine := .ended
  openssl := .ended
  said := verifiedOutput
  table := true

def heardProbe : ProbeWorld :=
  { endedProbe with now := 0, engine := .running, openssl := .running, table := false }

def leftProbe : ProbeWorld := { endedProbe with file := none, engine := .reaped, openssl := .reaped, table := false }

theorem probe_leaves_nothing_verified :
    leftProbe.file = none ∧ leftProbe.fds = freshProbe.fds ∧ leftProbe.engine = .reaped ∧
      ∃ out, leftProbe.said = freshProbe.said ++ out ∧ Search.find verifiedMark (cstr out) ≠ none := by
  have hfirst : ∃ rest, (probeViaLiveEngine [97] (.single .fake) 6000 8 1).replay ProbeOp.does
      [.yes, .yes, .yes, .yes, .yes, .yes, .yes, .yes, .yes, .time 0, .time 0, .data verifiedOutput, .yes] freshProbe =
        some (rest, heardProbe) ∧
      rest.replay ProbeOp.does [.yes, .yes, .time 500, .time 500, .yes, .yes, .yes] endedProbe =
        some (.ret (.success, true), leftProbe) := ⟨_, rfl, rfl⟩
  obtain ⟨rest, hreplay, hend⟩ := hfirst
  have hstarted := Reaches.replay (.start : Reaches ProbeOp.does ProbeRely _ _ _ _) _ hreplay
  have hended : ProbeRely heardProbe endedProbe :=
    ⟨by decide, rfl, rfl, rfl, rfl, .inr ⟨rfl, rfl⟩, .inr ⟨rfl, rfl⟩, .inr (.inl rfl)⟩
  have hreaches := (hstarted.others hended).replay _ hend
  obtain ⟨-, -, hdone⟩ := probe_leaves_nothing ⟨rfl, rfl, rfl⟩ hreaches
  obtain ⟨hfile, hfds, -, -, -, hsuccess⟩ := hdone _ _ rfl
  exact ⟨hfile, hfds, hsuccess rfl⟩

end DpiProxy.Discovery
