import Mathlib.Data.List.Basic

namespace Wire.Chunks

variable {α ρ : Type} (verdict : List α → Option ρ)

-- A reader that collects chunks until its bytes have a verdict.
def read (acc : List α) : List (List α) → Option ρ
  | [] => none
  | chunk :: chunks =>
      match verdict (acc ++ chunk) with
      | some r => some r
      | none => read (acc ++ chunk) chunks

-- A verdict over the bytes so far is not changed by the bytes that follow.
def Stable (stream : List α) : Prop :=
  ∀ p rest r, p ≠ [] → p ++ rest = stream → verdict p = some r → verdict stream = some r

variable {verdict} {stream : List α}

theorem read_eq (hstable : Stable verdict stream) {acc : List α} {chunks : List (List α)}
    (hstream : acc ++ chunks.flatten = stream) (hnone : verdict acc = none)
    (hne : ∀ chunk ∈ chunks, chunk ≠ []) : read verdict acc chunks = verdict stream := by
  induction chunks generalizing acc with
  | nil =>
      rw [List.flatten_nil, List.append_nil] at hstream
      rw [read, ← hstream, hnone]
  | cons chunk chunks ih =>
      rw [List.flatten_cons, ← List.append_assoc] at hstream
      have hchunk : acc ++ chunk ≠ [] := by
        simp [hne chunk List.mem_cons_self]
      rw [read]
      cases hv : verdict (acc ++ chunk) with
      | some r => exact (hstable _ _ r hchunk hstream hv).symm
      | none => exact ih hstream hv fun c hc => hne c (List.mem_cons_of_mem _ hc)

-- Every chunking of the stream is read like the whole stream.
theorem read_flatten (hstable : Stable verdict stream) {chunks : List (List α)}
    (hstream : chunks.flatten = stream) (hne : ∀ chunk ∈ chunks, chunk ≠ [])
    (hsome : stream ≠ []) : read verdict [] chunks = verdict stream := by
  cases chunks with
  | nil => exact absurd hstream.symm hsome
  | cons chunk chunks =>
      rw [List.flatten_cons] at hstream
      rw [read, List.nil_append]
      cases hv : verdict chunk with
      | some r => exact (hstable _ _ r (hne chunk List.mem_cons_self) hstream hv).symm
      | none => exact read_eq hstable hstream hv fun c hc => hne c (List.mem_cons_of_mem _ hc)

-- The verdict of a chunking is the verdict of a beginning of the stream.
theorem read_some {acc : List α} {chunks : List (List α)} {r : ρ}
    (hne : ∀ chunk ∈ chunks, chunk ≠ []) (h : read verdict acc chunks = some r) :
    ∃ p rest, p ≠ [] ∧ p ++ rest = acc ++ chunks.flatten ∧ verdict p = some r := by
  induction chunks generalizing acc with
  | nil => cases h
  | cons chunk chunks ih =>
      rw [read] at h
      rw [List.flatten_cons, ← List.append_assoc]
      cases hv : verdict (acc ++ chunk) with
      | some r' =>
          rw [hv] at h
          refine ⟨acc ++ chunk, chunks.flatten, ?_, rfl, hv.trans h⟩
          simp [hne chunk List.mem_cons_self]
      | none =>
          rw [hv] at h
          exact ih (fun c hc => hne c (List.mem_cons_of_mem _ hc)) h

-- Without a verdict at the end there was none on the way.
theorem read_none {acc : List α} {chunks : List (List α)} (h : read verdict acc chunks = none)
    (hsome : chunks ≠ []) : verdict (acc ++ chunks.flatten) = none := by
  induction chunks generalizing acc with
  | nil => exact absurd rfl hsome
  | cons chunk chunks ih =>
      rw [read] at h
      rw [List.flatten_cons, ← List.append_assoc]
      cases hv : verdict (acc ++ chunk) with
      | some r' =>
          rw [hv] at h
          cases h
      | none =>
          rw [hv] at h
          cases chunks with
          | nil => rwa [List.flatten_nil, List.append_nil]
          | cons c cs => exact ih h (List.cons_ne_nil _ _)

theorem nil_of_flatten {chunks : List (List α)} (hne : ∀ chunk ∈ chunks, chunk ≠ [])
    (h : chunks.flatten = []) : chunks = [] := by
  cases chunks with
  | nil => rfl
  | cons chunk chunks =>
      rw [List.flatten_cons] at h
      exact absurd (List.append_eq_nil_iff.mp h).1 (hne chunk List.mem_cons_self)

-- A chunking has the answer of the whole if every beginning with a verdict has it.
theorem read_agrees {d : ρ}
    (h : ∀ p rest r, p ≠ [] → p ++ rest = stream → verdict p = some r → r = (verdict stream).getD d)
    {chunks : List (List α)} (hne : ∀ chunk ∈ chunks, chunk ≠ []) (hstream : chunks.flatten = stream)
    (hsome : stream ≠ []) : (read verdict [] chunks).getD d = (verdict stream).getD d := by
  cases hr : read verdict [] chunks with
  | some r =>
      obtain ⟨p, rest, hp, heq, hv⟩ := read_some hne hr
      rw [List.nil_append, hstream] at heq
      exact h p rest r hp heq hv
  | none =>
      have hchunks : chunks ≠ [] := by
        rintro rfl
        exact hsome hstream.symm
      have hnone := read_none hr hchunks
      rw [List.nil_append, hstream] at hnone
      rw [hnone]

variable (verdict) (stream) in
-- All chunkings give one answer exactly when every beginning that has a verdict
-- has the answer of the whole; `d` is the answer without a verdict.
theorem agree_iff (d : ρ) :
    (∀ chunks chunks' : List (List α), (∀ chunk ∈ chunks, chunk ≠ []) →
      (∀ chunk ∈ chunks', chunk ≠ []) → chunks.flatten = stream → chunks'.flatten = stream →
      (read verdict [] chunks).getD d = (read verdict [] chunks').getD d) ↔
    ∀ p rest r, p ≠ [] → p ++ rest = stream → verdict p = some r → r = (verdict stream).getD d := by
  have hwhole : stream ≠ [] → read verdict [] [stream] = verdict stream := by
    intro _
    rw [read, List.nil_append]
    cases verdict stream <;> rfl
  constructor
  · intro h p rest r hp hstream hv
    have hsome : stream ≠ [] := by
      rw [← hstream]
      simp [hp]
    have hread : read verdict [] (p :: if rest = [] then [] else [rest]) = some r := by
      rw [read, List.nil_append, hv]
    have hsame := h (p :: if rest = [] then [] else [rest]) [stream] ?_ ?_ ?_ ?_
    · rwa [hread, hwhole hsome] at hsame
    · intro chunk hc
      rcases List.mem_cons.mp hc with rfl | hc
      · exact hp
      · split at hc
        · cases hc
        · rename_i hrest
          rw [List.mem_singleton.mp hc]
          exact hrest
    · intro chunk hc
      rw [List.mem_singleton.mp hc]
      exact hsome
    · rw [← hstream]
      split
      · rename_i hrest
        simp [hrest]
      · simp
    · simp
  · intro h chunks chunks' hne hne' hstream hstream'
    by_cases hsome : stream = []
    · rw [nil_of_flatten hne (hstream.trans hsome), nil_of_flatten hne' (hstream'.trans hsome)]
    · rw [read_agrees h hne hstream hsome, read_agrees h hne' hstream' hsome]

-- Some bytes in chunks of the given sizes, as far as these go.
def cut : List Nat → List α → List (List α)
  | [], _ => []
  | size :: sizes, stream =>
      if size = 0 ∨ stream = [] then cut sizes stream else stream.take size :: cut sizes (stream.drop size)

theorem cut_nil (sizes : List Nat) : cut sizes ([] : List α) = [] := by
  induction sizes with
  | nil => rfl
  | cons size sizes ih => rw [cut, if_pos (.inr rfl), ih]

theorem cut_flatten (sizes : List Nat) (stream : List α) : (cut sizes stream).flatten <+: stream := by
  induction sizes generalizing stream with
  | nil => exact List.nil_prefix
  | cons size sizes ih =>
      rw [cut]
      split
      · exact ih stream
      · obtain ⟨tail, htail⟩ := ih (stream.drop size)
        refine ⟨tail, ?_⟩
        rw [List.flatten_cons, List.append_assoc, htail, List.take_append_drop]

theorem cut_ne_nil (sizes : List Nat) (stream : List α) : ∀ chunk ∈ cut sizes stream, chunk ≠ [] := by
  induction sizes generalizing stream with
  | nil => exact fun chunk hc => absurd hc List.not_mem_nil
  | cons size sizes ih =>
      rw [cut]
      split
      · exact ih stream
      · rename_i hsome
        rw [not_or] at hsome
        intro chunk hc
        rcases List.mem_cons.mp hc with rfl | hc
        · rw [Ne, List.take_eq_nil_iff, not_or]
          exact hsome
        · exact ih _ chunk hc

end Wire.Chunks
