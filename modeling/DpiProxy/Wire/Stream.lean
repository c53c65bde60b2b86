import Mathlib.Data.Set.Basic
import Mathlib.Data.UInt

namespace Wire.Stream

-- What a TCP receiver learns from a segment: which sequence numbers carry the
-- start of the stream, a data byte, or the end of the stream.
inductive Fact (β : Type) where
  | syn (number : UInt32)
  | data (number : UInt32) (value : β)
  | fin (number : UInt32)
deriving DecidableEq

structure Segment (β : Type) where
  seq : UInt32
  syn : Bool
  fin : Bool
  data : List β

variable {β : Type}

namespace Segment

-- SYN occupies one sequence number before the data.
def first (s : Segment β) : UInt32 := if s.syn then s.seq + 1 else s.seq

def facts (s : Segment β) : Set (Fact β) :=
  {f | (s.syn = true ∧ f = .syn s.seq) ∨
    (∃ i b, s.data[i]? = some b ∧ f = .data (s.first + UInt32.ofNat i) b) ∨
    (s.fin = true ∧ f = .fin (s.first + UInt32.ofNat s.data.length))}

-- Cutting the data after n bytes while copying every flag to both halves.
def takeData (s : Segment β) (n : Nat) : Segment β := { s with data := s.data.take n }

def dropData (s : Segment β) (n : Nat) : Segment β :=
  { s with seq := s.seq + UInt32.ofNat n, data := s.data.drop n }

theorem ofNat_ne (a b : Nat) (ha : a < 2 ^ 32) (hb : b < 2 ^ 32) (h : a ≠ b) :
    UInt32.ofNat a ≠ UInt32.ofNat b := by
  intro he
  have ht := congrArg UInt32.toNat he
  rw [UInt32.toNat_ofNat_of_lt' ha, UInt32.toNat_ofNat_of_lt' hb] at ht
  exact h ht

-- The first half ends where the second begins, so a copied FIN appears too early.
theorem fin_not_mem (s : Segment β) (n : Nat) (hn : n < s.data.length)
    (hl : s.data.length < 2 ^ 32) : .fin (s.first + UInt32.ofNat n) ∉ s.facts := by
  rintro (⟨-, h⟩ | ⟨i, b, -, h⟩ | ⟨-, h⟩)
  · cases h
  · cases h
  · have he := add_left_cancel (Fact.fin.inj h)
    exact ofNat_ne n s.data.length (by omega) hl (by omega) he

theorem syn_not_mem (s : Segment β) (n : Nat) (h₁ : 0 < n) (h₂ : n < 2 ^ 32) :
    .syn (s.seq + UInt32.ofNat n) ∉ s.facts := by
  rintro (⟨-, h⟩ | ⟨i, b, -, h⟩ | ⟨-, h⟩)
  · have he : s.seq + UInt32.ofNat n = s.seq + UInt32.ofNat 0 := by simpa using Fact.syn.inj h
    exact ofNat_ne n 0 h₂ (by omega) (by omega) (add_left_cancel he)
  · cases h
  · cases h

theorem data_mem_iff (s : Segment β) (number : UInt32) (b : β) :
    .data number b ∈ s.facts ↔ ∃ i, s.data[i]? = some b ∧ number = s.first + UInt32.ofNat i := by
  constructor
  · rintro (⟨-, h⟩ | ⟨i, c, hc, h⟩ | ⟨-, h⟩)
    · cases h
    · cases h
      exact ⟨i, hc, rfl⟩
    · cases h
  · rintro ⟨i, hi, rfl⟩
    exact .inr (.inl ⟨i, b, hi, rfl⟩)

-- The data bytes keep their places under every combination of flags.
theorem data_mem_split_iff (s : Segment β) (n : Nat) (number : UInt32) (b : β) :
    (.data number b ∈ (s.takeData n).facts ∨ .data number b ∈ (s.dropData n).facts) ↔
      .data number b ∈ s.facts := by
  have hfirst : (s.dropData n).first = s.first + UInt32.ofNat n := by
    simp only [first, dropData]
    by_cases hsyn : s.syn = true
    · simp only [hsyn, ite_true, add_right_comm]
    · simp [hsyn]
  simp only [data_mem_iff, hfirst]
  simp only [takeData, dropData, first]
  constructor
  · rintro (⟨i, hi, rfl⟩ | ⟨i, hi, rfl⟩)
    · rw [List.getElem?_take] at hi
      split at hi
      · exact ⟨i, hi, rfl⟩
      · cases hi
    · refine ⟨n + i, by simpa using hi, ?_⟩
      rw [UInt32.ofNat_add, add_assoc]
  · rintro ⟨i, hi, rfl⟩
    by_cases h : i < n
    · exact .inl ⟨i, by rw [List.getElem?_take_of_lt h]; exact hi, rfl⟩
    · refine .inr ⟨i - n, ?_, ?_⟩
      · rw [List.getElem?_drop, Nat.add_sub_of_le (by omega)]
        exact hi
      · rw [add_assoc, ← UInt32.ofNat_add, Nat.add_sub_of_le (by omega)]

-- Cutting a segment and copying its flags keeps its meaning exactly when it
-- carries neither flag that occupies sequence space.
theorem facts_split_iff (s : Segment β) (n : Nat) (h₁ : 0 < n) (h₂ : n < s.data.length)
    (hl : s.data.length < 2 ^ 32) :
    (s.takeData n).facts ∪ (s.dropData n).facts = s.facts ↔ s.syn = false ∧ s.fin = false := by
  constructor
  · intro h
    constructor
    · by_contra hsyn
      have hm : .syn (s.seq + UInt32.ofNat n) ∈ (s.dropData n).facts :=
        .inl ⟨by simpa [dropData] using hsyn, rfl⟩
      exact syn_not_mem s n h₁ (by omega) (h ▸ Set.mem_union_right _ hm)
    · by_contra hfin
      have hlen : (s.takeData n).data.length = n := by
        simp only [takeData, List.length_take]
        omega
      have hm : .fin (s.first + UInt32.ofNat n) ∈ (s.takeData n).facts := by
        refine .inr (.inr ⟨by simpa [takeData] using hfin, ?_⟩)
        rw [hlen]
        rfl
      exact fin_not_mem s n h₂ hl (h ▸ Set.mem_union_left _ hm)
  · rintro ⟨hsyn, hfin⟩
    have htake : (s.takeData n).syn = false ∧ (s.takeData n).fin = false := ⟨hsyn, hfin⟩
    have hdrop : (s.dropData n).syn = false ∧ (s.dropData n).fin = false := ⟨hsyn, hfin⟩
    ext f
    cases f with
    | syn number => simp [facts, hsyn, htake, hdrop]
    | fin number => simp [facts, hfin, htake, hdrop]
    | data number b => exact data_mem_split_iff s n number b

end Segment

end Wire.Stream
