import Mathlib.Data.List.Basic

namespace Copy

variable {α : Type}

-- What a one-way copier does to its source and its target. A write may take a part of
-- what is left of the last read.
inductive Call (α : Type) where
  | read (xs : List α)
  | wrote (xs : List α)
  | eof
  | shut
  | readFailed
  | writeFailed
deriving DecidableEq, Repr

-- What a copier has read and not written yet, or how it has come to its end.
inductive State (α : Type) where
  | copying (left : List α)
  | ended
  | shut
  | broken (left : List α)

def State.left : State α → List α
  | .copying left => left
  | .ended => []
  | .shut => []
  | .broken left => left

inductive Step : State α → Call α → State α → Prop where
  | read (xs : List α) : Step (.copying []) (.read xs) (.copying xs)
  | wrote (xs left : List α) : Step (.copying (xs ++ left)) (.wrote xs) (.copying left)
  | eof : Step (.copying []) .eof .ended
  | shut : Step .ended .shut .shut
  | readFailed : Step (.copying []) .readFailed (.broken [])
  | writeFailed (left : List α) : Step (.copying left) .writeFailed (.broken left)

inductive Run : State α → List (Call α) → State α → Prop where
  | nil (s : State α) : Run s [] s
  | cons {s s' s'' : State α} {c : Call α} {calls : List (Call α)} (h : Step s c s') (rest : Run s' calls s'') :
      Run s (c :: calls) s''

def Call.bytesRead : Call α → List α
  | .read xs => xs
  | _ => []

def Call.bytesWritten : Call α → List α
  | .wrote xs => xs
  | _ => []

def bytesRead (calls : List (Call α)) : List α := calls.flatMap Call.bytesRead

def bytesWritten (calls : List (Call α)) : List α := calls.flatMap Call.bytesWritten

section Written

variable (xs : List α) (calls calls' : List (Call α))

@[simp] theorem bytesWritten_nil : bytesWritten ([] : List (Call α)) = [] := rfl

@[simp] theorem bytesWritten_read : bytesWritten (.read xs :: calls) = bytesWritten calls := rfl

@[simp] theorem bytesWritten_wrote : bytesWritten (.wrote xs :: calls) = xs ++ bytesWritten calls := rfl

@[simp] theorem bytesWritten_eof : bytesWritten (.eof :: calls) = bytesWritten calls := rfl

@[simp] theorem bytesWritten_shut : bytesWritten (.shut :: calls) = bytesWritten calls := rfl

@[simp] theorem bytesWritten_readFailed : bytesWritten (.readFailed :: calls) = bytesWritten calls := rfl

@[simp] theorem bytesWritten_writeFailed : bytesWritten (.writeFailed :: calls) = bytesWritten calls := rfl

@[simp] theorem bytesWritten_append :
    bytesWritten (calls ++ calls') = bytesWritten calls ++ bytesWritten calls' := List.flatMap_append

@[simp] theorem bytesWritten_map_wrote (writes : List (List α)) :
    bytesWritten (writes.map Call.wrote) = writes.flatten := by
  induction writes with
  | nil => rfl
  | cons xs writes ih => rw [List.map_cons, bytesWritten_wrote, List.flatten_cons, ih]

end Written

section Run

variable {s s' s'' : State α} {calls calls' : List (Call α)}

theorem Run.append (h : Run s calls s') (h' : Run s' calls' s'') : Run s (calls ++ calls') s'' := by
  induction h with
  | nil => exact h'
  | cons hstep _ ih => exact .cons hstep (ih h')

theorem Run.split (h : Run s (calls ++ calls') s'') : ∃ s', Run s calls s' ∧ Run s' calls' s'' := by
  induction calls generalizing s with
  | nil => exact ⟨s, .nil s, h⟩
  | cons c calls ih =>
      rw [List.cons_append] at h
      cases h with
      | cons hstep hrest =>
          obtain ⟨s', hfirst, hsecond⟩ := ih hrest
          exact ⟨s', .cons hstep hfirst, hsecond⟩

-- Nothing is lost, doubled or exchanged.
theorem Run.kept (h : Run s calls s') : s.left ++ bytesRead calls = bytesWritten calls ++ s'.left := by
  induction h with
  | nil s => simp [bytesRead]
  | cons hstep _ ih =>
      cases hstep <;>
        simpa [State.left, bytesRead, Call.bytesRead] using ih

theorem Run.written_prefix (h : Run (.copying []) calls s) : bytesWritten calls <+: bytesRead calls :=
  ⟨s.left, h.kept.symm⟩

theorem Run.all_written (h : Run (.copying []) calls s) (hleft : s.left = []) :
    bytesWritten calls = bytesRead calls := by
  have hkept := h.kept
  rw [hleft, List.append_nil] at hkept
  exact hkept.symm

-- After the end of its source a copier reads no more.
theorem Run.ended (h : Run s calls s') (hs : s = .ended ∨ s = .shut) :
    (s' = .ended ∨ s' = .shut) ∧ .eof ∉ calls := by
  induction h with
  | nil s => exact ⟨hs, List.not_mem_nil⟩
  | cons hstep hrest ih =>
      cases hstep with
      | shut =>
          obtain ⟨hend, hnone⟩ := ih (.inr rfl)
          exact ⟨hend, by simp [hnone]⟩
      | read | wrote | eof | readFailed | writeFailed => simp at hs

theorem Run.of_eof (h : Run s calls s') (heof : .eof ∈ calls) : s' = .ended ∨ s' = .shut := by
  induction h with
  | nil => simp at heof
  | cons hstep hrest ih =>
      cases hstep with
      | eof => exact (hrest.ended (.inl rfl)).1
      | read | wrote | shut | readFailed | writeFailed => exact ih (by simpa using heof)

-- A copier comes to an end by the end of its source only, and breaks by an error only.
theorem Run.origin (h : Run s calls s') (hs : ∃ left, s = .copying left) :
    (s' = .ended ∨ s' = .shut → .eof ∈ calls) ∧
      ∀ left, s' = .broken left → .readFailed ∈ calls ∧ left = [] ∨ .writeFailed ∈ calls := by
  induction h with
  | nil s =>
      obtain ⟨left, rfl⟩ := hs
      simp
  | cons hstep hrest ih =>
      cases hstep with
      | read | wrote =>
          obtain ⟨hends, hbreaks⟩ := ih ⟨_, rfl⟩
          simpa using ⟨hends, hbreaks⟩
      | eof =>
          refine ⟨fun _ => List.mem_cons_self, fun left hbroken => ?_⟩
          rcases (hrest.ended (.inl rfl)).1 with rfl | rfl <;> cases hbroken
      | shut => simp at hs
      | readFailed =>
          cases hrest with
          | nil => simp
          | cons hnext _ => cases hnext
      | writeFailed =>
          cases hrest with
          | nil => simp
          | cons hnext _ => cases hnext

-- The target is shut only when its source has ended and all of it is written.
theorem Run.before_shut (h : Run (.copying []) (calls ++ [.shut]) s) :
    .eof ∈ calls ∧ bytesWritten calls = bytesRead calls := by
  obtain ⟨s', hbefore, hshut⟩ := h.split
  cases hshut with
  | cons hstep hrest =>
      cases hstep with
      | shut => exact ⟨(hbefore.origin ⟨[], rfl⟩).1 (.inl rfl), hbefore.all_written rfl⟩

end Run

end Copy
