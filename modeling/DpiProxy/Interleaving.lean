import Mathlib.Init

namespace Interleaving

-- A program among other parties: it performs an operation and goes on by the reply.
inductive Prog (ω ρ α : Type) where
  | ret (a : α)
  | act (o : ω) (k : ρ → Prog ω ρ α)

variable {ω ρ σ α β : Type}

def Prog.bind (f : α → Prog ω ρ β) : Prog ω ρ α → Prog ω ρ β
  | .ret a => f a
  | .act o k => .act o fun r => (k r).bind f

instance : Monad (Prog ω ρ) where
  pure := .ret
  bind x f := x.bind f

def perform (o : ω) : Prog ω ρ ρ := .act o .ret

-- `does o r s` is the state after an operation that gets the reply r in s, and none if it
-- cannot get it. `rely` is what the other parties may have done between two operations.
variable (does : ω → ρ → σ → Option σ) (rely : σ → σ → Prop)

-- Whatever the others do, the program keeps `inv` at every operation and returns with `post`.
def Keeps (inv : σ → Prop) (post : α → σ → Prop) : Prog ω ρ α → σ → Prop
  | .ret a, s => ∀ s', rely s s' → post a s'
  | .act o k, s => ∀ s', rely s s' → ∀ r s'', does o r s' = some s'' → inv s'' ∧ Keeps inv post (k r) s''

def Stable (p : σ → Prop) : Prop := ∀ s s', rely s s' → p s → p s'

def Triple (inv pre : σ → Prop) (x : Prog ω ρ α) (post : α → σ → Prop) : Prop :=
  ∀ s, inv s → pre s → Keeps does rely inv post x s

-- Where a program and its state get to from x and s.
inductive Reaches (x : Prog ω ρ α) (s : σ) : Prog ω ρ α → σ → Prop where
  | start : Reaches x s x s
  | others {y : Prog ω ρ α} {s' s'' : σ} (h : Reaches x s y s') (hs : rely s' s'') : Reaches x s y s''
  | act {o : ω} {k : ρ → Prog ω ρ α} {r : ρ} {s' s'' : σ} (h : Reaches x s (.act o k) s')
      (hdoes : does o r s' = some s'') : Reaches x s (k r) s''

-- The others may do nothing, and they may go on.
structure Others (inv : σ → Prop) : Prop where
  refl : ∀ s, rely s s
  trans : ∀ {s s' s''}, rely s s' → rely s' s'' → rely s s''
  keep : Stable rely inv

variable {does rely} {inv pre : σ → Prop} {post : α → σ → Prop} {next : β → σ → Prop}

section Steps

variable (others : Others rely inv)

include others

theorem Keeps.later {x : Prog ω ρ α} {s s' : σ} (h : Keeps does rely inv post x s) (hs : rely s s') :
    Keeps does rely inv post x s' := by
  cases x with
  | ret a => exact fun s'' hs' => h s'' (others.trans hs hs')
  | act o k => exact fun s'' hs' => h s'' (others.trans hs hs')

theorem Keeps.act {o : ω} {k : ρ → Prog ω ρ α} {s s' : σ} {r : ρ} (h : Keeps does rely inv post (.act o k) s)
    (hdoes : does o r s = some s') : inv s' ∧ Keeps does rely inv post (k r) s' :=
  h s (others.refl s) r s' hdoes

theorem Keeps.ret {a : α} {s : σ} (h : Keeps does rely inv post (.ret a : Prog ω ρ α) s) : post a s :=
  h s (others.refl s)

theorem Keeps.reaches {x y : Prog ω ρ α} {s s' : σ} (h : Keeps does rely inv post x s) (hinv : inv s)
    (hreaches : Reaches does rely x s y s') : inv s' ∧ Keeps does rely inv post y s' := by
  induction hreaches with
  | start => exact ⟨hinv, h⟩
  | others _ hs ih => exact ⟨others.keep _ _ hs ih.1, ih.2.later others hs⟩
  | act _ hdoes ih => exact ih.2.act others hdoes

theorem Keeps.bind {x : Prog ω ρ α} {f : α → Prog ω ρ β} {s : σ} (h : Keeps does rely inv post x s) (hinv : inv s)
    (hnext : ∀ a, Triple does rely inv (post a) (f a) next) : Keeps does rely inv next (x >>= f) s := by
  induction x generalizing s with
  | ret a => exact hnext a s hinv (Keeps.ret others h)
  | act o k ih =>
      intro s' hs r s'' hdoes
      obtain ⟨hinv', hk⟩ := h s' hs r s'' hdoes
      exact ⟨hinv', ih r hk hinv'⟩

theorem Triple.bind {x : Prog ω ρ α} {f : α → Prog ω ρ β} (h : Triple does rely inv pre x post)
    (hnext : ∀ a, Triple does rely inv (post a) (f a) next) : Triple does rely inv pre (x >>= f) next :=
  fun s hinv hpre => (h s hinv hpre).bind others hinv hnext

theorem Triple.perform {o : ω} {post : ρ → σ → Prop} (hpre : Stable rely pre) (hpost : ∀ r, Stable rely (post r))
    (h : ∀ s r s', inv s → pre s → does o r s = some s' → inv s' ∧ post r s') :
    Triple does rely inv pre (perform o) post := by
  intro s hinv hs s' hothers r s'' hdoes
  obtain ⟨hinv', hr⟩ := h s' r s'' (others.keep s s' hothers hinv) (hpre s s' hothers hs) hdoes
  exact ⟨hinv', fun s''' hothers' => hpost r s'' s''' hothers' hr⟩

end Steps

theorem Triple.pure {a : α} (hpost : Stable rely (post a)) (h : ∀ s, inv s → pre s → post a s) :
    Triple does rely inv pre (Pure.pure a : Prog ω ρ α) post :=
  fun s hinv hpre s' hothers => hpost s s' hothers (h s hinv hpre)

theorem Keeps.weaken {x : Prog ω ρ α} {s : σ} {post' : α → σ → Prop} (h : Keeps does rely inv post x s)
    (hpost : ∀ a s, post a s → post' a s) : Keeps does rely inv post' x s := by
  induction x generalizing s with
  | ret a => exact fun s' hs => hpost a s' (h s' hs)
  | act o k ih =>
      intro s' hs r s'' hdoes
      obtain ⟨hinv, hk⟩ := h s' hs r s'' hdoes
      exact ⟨hinv, ih r hk⟩

theorem Triple.weaken {x : Prog ω ρ α} {pre' : σ → Prop} {post' : α → σ → Prop} (h : Triple does rely inv pre x post)
    (hpre : ∀ s, inv s → pre' s → pre s) (hpost : ∀ a s, post a s → post' a s) :
    Triple does rely inv pre' x post' :=
  fun s hinv hs => (h s hinv (hpre s hinv hs)).weaken hpost

theorem Triple.ite {p : Prop} [Decidable p] {x y : Prog ω ρ α} (hthen : p → Triple does rely inv pre x post)
    (helse : ¬p → Triple does rely inv pre y post) : Triple does rely inv pre (if p then x else y) post := by
  split
  · rename_i hp
    exact hthen hp
  · rename_i hp
    exact helse hp

-- What is known apart from the state.
theorem Triple.given {p : Prop} {x : Prog ω ρ α} (h : p → Triple does rely inv pre x post) :
    Triple does rely inv (fun s => p ∧ pre s) x post :=
  fun s hinv hpre => h hpre.1 s hinv hpre.2

section Replay

-- A program that gets these replies one after the other, and none if it cannot get one.
def Prog.replay (does : ω → ρ → σ → Option σ) : List ρ → Prog ω ρ α → σ → Option (Prog ω ρ α × σ)
  | [], x, s => some (x, s)
  | r :: rs, .act o k, s => (does o r s).bind fun s' => replay does rs (k r) s'
  | _ :: _, .ret _, _ => none

theorem Reaches.replay {x y z : Prog ω ρ α} {s s' s'' : σ} (h : Reaches does rely x s y s') (rs : List ρ)
    (hreplay : y.replay does rs s' = some (z, s'')) : Reaches does rely x s z s'' := by
  induction rs generalizing y s' with
  | nil =>
      obtain ⟨rfl, rfl⟩ := Prod.mk.inj (Option.some.inj hreplay)
      exact h
  | cons r rs ih =>
      cases y with
      | ret a => cases hreplay
      | act o k =>
          obtain ⟨t, hdoes, hrest⟩ := Option.bind_eq_some_iff.mp hreplay
          exact ih (h.act hdoes) hrest

end Replay

section Only

-- A program that performs no other operations than these.
def Only (allowed : ω → Prop) (res : α → Prop) : Prog ω ρ α → Prop
  | .ret a => res a
  | .act o k => allowed o ∧ ∀ r, Only allowed res (k r)

variable {allowed : ω → Prop} {mid : α → Prop} {res : β → Prop}

theorem Only.bind {x : Prog ω ρ α} {f : α → Prog ω ρ β} (h : Only allowed mid x)
    (hnext : ∀ a, mid a → Only allowed res (f a)) : Only allowed res (x >>= f) := by
  induction x with
  | ret a => exact hnext a h
  | act o k ih => exact ⟨h.1, fun r => ih r (h.2 r)⟩

theorem Only.perform {o : ω} (h : allowed o) : Only allowed (fun _ : ρ => True) (perform o) := ⟨h, fun _ => trivial⟩

theorem Only.ite {p : Prop} [Decidable p] {x y : Prog ω ρ β} (hthen : p → Only allowed res x)
    (helse : ¬p → Only allowed res y) : Only allowed res (if p then x else y) := by
  split
  · rename_i hp
    exact hthen hp
  · rename_i hp
    exact helse hp

-- What each of the operations keeps, the program keeps.
theorem Only.keeps (others : Others rely inv) {x : Prog ω ρ β} (h : Only allowed res x) (hpre : Stable rely pre)
    (hstep : ∀ o, allowed o → ∀ r s s', inv s → pre s → does o r s = some s' → inv s' ∧ pre s') :
    Triple does rely inv pre x fun b s => res b ∧ pre s := by
  induction x with
  | ret b => exact fun s hinv hs s' hothers => ⟨h, hpre s s' hothers hs⟩
  | act o k ih =>
      intro s hinv hs s' hothers r s'' hdoes
      obtain ⟨hinv', hs'⟩ := hstep o h.1 r s' s'' (others.keep s s' hothers hinv) (hpre s s' hothers hs) hdoes
      exact ⟨hinv', ih r (h.2 r) s'' hinv' hs'⟩

-- Operations that do no more than the other parties may do leave what is stable.
theorem Only.triple (others : Others rely inv) {x : Prog ω ρ β} (h : Only allowed res x) (hpre : Stable rely pre)
    (hallowed : ∀ o, allowed o → ∀ r s s', does o r s = some s' → rely s s') :
    Triple does rely inv pre x fun b s => res b ∧ pre s := by
  refine h.keeps others hpre fun o ho r s s' hinv hs hdoes => ?_
  have hrely := hallowed o ho r s s' hdoes
  exact ⟨others.keep s s' hrely hinv, hpre s s' hrely hs⟩

end Only

section Stable

theorem Stable.const (p : Prop) : Stable rely fun _ => p := fun _ _ _ h => h

theorem Stable.and {p q : σ → Prop} (hp : Stable rely p) (hq : Stable rely q) : Stable rely fun s => p s ∧ q s :=
  fun s s' hs h => ⟨hp s s' hs h.1, hq s s' hs h.2⟩

theorem Stable.imp {p : Prop} {q : σ → Prop} (hq : Stable rely q) : Stable rely fun s => p → q s :=
  fun s s' hs h hp => hq s s' hs (h hp)

end Stable

end Interleaving
