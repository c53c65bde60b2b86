import Mathlib.Data.List.Dedup
import Mathlib.Data.List.Forall2
import Mathlib.Logic.ExistsUnique

namespace Wire

-- A piece of a datagram: its place, whether more pieces follow, and its bytes.
structure Fragment (β : Type) where
  offset : Nat
  more : Bool
  data : List β
deriving DecidableEq, Repr

variable {β : Type}

def Fragment.Covers (f : Fragment β) (i : Nat) : Prop :=
  f.offset ≤ i ∧ i < f.offset + f.data.length

-- RFC 791 reassembly: every piece is put at its place, the piece without more
-- pieces fixes the length, and each position is filled by exactly one piece.
structure Reassembles (frags : List (Fragment β)) (payload : List β) : Prop where
  complete : ∃ f ∈ frags, f.more = false
  ends : ∀ f ∈ frags, f.more = false → f.offset + f.data.length = payload.length
  placed : ∀ f ∈ frags, ∀ i b, f.data[i]? = some b → payload[f.offset + i]? = some b
  once : ∀ i < payload.length, ∃! k : Nat, ∃ f : Fragment β, frags[k]? = some f ∧ f.Covers i

namespace Reassembles

theorem length_eq {frags : List (Fragment β)} {p q : List β} (hp : Reassembles frags p)
    (hq : Reassembles frags q) : p.length = q.length := by
  obtain ⟨f, hf, hm⟩ := hp.complete
  exact (hp.ends f hf hm).symm.trans (hq.ends f hf hm)

theorem unique {frags : List (Fragment β)} {p q : List β} (hp : Reassembles frags p)
    (hq : Reassembles frags q) : p = q := by
  apply List.ext_getElem?
  intro i
  by_cases hi : i < p.length
  · obtain ⟨k, ⟨f, hk, hlow, hup⟩, -⟩ := hp.once i hi
    have hmem := List.mem_of_getElem? hk
    have hj : i - f.offset < f.data.length := by omega
    have hget := List.getElem?_eq_getElem hj
    have h₁ := hp.placed f hmem _ _ hget
    have h₂ := hq.placed f hmem _ _ hget
    rw [Nat.add_sub_of_le hlow] at h₁ h₂
    rw [h₁, h₂]
  · have hl := hp.length_eq hq
    rw [List.getElem?_eq_none (by omega), List.getElem?_eq_none (by omega)]

-- Two pieces cut at one place reassemble to the whole.
theorem pair (payload : List β) (n : Nat) (hn : n ≤ payload.length) :
    Reassembles [⟨0, true, payload.take n⟩, ⟨n, false, payload.drop n⟩] payload where
  complete := ⟨⟨n, false, payload.drop n⟩, by simp, rfl⟩
  ends := by
    intro f hf hm
    rcases List.mem_pair.mp hf with rfl | rfl
    · cases hm
    · simp only [List.length_drop]
      omega
  placed := by
    intro f hf i b hb
    rcases List.mem_pair.mp hf with rfl | rfl
    · rw [List.getElem?_take] at hb
      split at hb
      · simpa using hb
      · cases hb
    · simpa using hb
  once := by
    intro i hi
    by_cases h : i < n
    · refine ⟨0, ⟨_, rfl, Nat.zero_le _, by simp; omega⟩, ?_⟩
      rintro k ⟨f, hk, hlow, -⟩
      match k with
      | 0 => rfl
      | 1 =>
          obtain rfl := Option.some.inj hk
          exact absurd hlow (by simp; omega)
      | k + 2 => simp at hk
    · refine ⟨1, ⟨_, rfl, by simp; omega, by simp; omega⟩, ?_⟩
      rintro k ⟨f, hk, -, hup⟩
      match k with
      | 0 =>
          obtain rfl := Option.some.inj hk
          exact absurd hup (by simp; omega)
      | 1 => rfl
      | k + 2 => simp at hk

theorem iff_eq {frags : List (Fragment β)} {p : List β} (h : Reassembles frags p) (q : List β) :
    Reassembles frags q ↔ q = p := by
  constructor
  · intro hq
    exact hq.unique h
  · rintro rfl
    exact h

end Reassembles

section Delivery

variable {α κ : Type} [DecidableEq κ] (key : α → κ) (piece : α → Fragment β)

-- An unfragmented datagram.
def Fragment.whole (f : Fragment β) : Bool := f.offset == 0 && !f.more

def pieces (packets : List α) : List α := packets.filter fun p => !(piece p).whole

-- What the IP layer hands up for the packets that arrived: the unfragmented ones
-- as they are, and one datagram for each key under which fragments arrived.
def Delivers (packets : List α) (payloads : List (List β)) : Prop :=
  ∃ joined, List.Forall₂
      (fun k p => Reassembles (((pieces piece packets).filter (key · = k)).map piece) p)
      ((pieces piece packets).map key).dedup joined ∧
    payloads = (packets.filter fun p => (piece p).whole).map (piece · |>.data) ++ joined

theorem Delivers.unique {packets : List α} {p q : List (List β)}
    (hp : Delivers key piece packets p) (hq : Delivers key piece packets q) : p = q := by
  obtain ⟨joined, hj, rfl⟩ := hp
  obtain ⟨joined', hj', rfl⟩ := hq
  have heq : joined = joined' :=
    List.right_unique_forall₂' (fun _ _ _ h h' => h.unique h') hj hj'
  rw [heq]

theorem Delivers.whole {packets : List α} (h : ∀ p ∈ packets, (piece p).whole = true) :
    Delivers key piece packets (packets.map (piece · |>.data)) := by
  have hnone : pieces piece packets = [] := by
    rw [pieces, List.filter_eq_nil_iff]
    intro p hp
    rw [h p hp]
    decide
  have hall : packets.filter (fun p => (piece p).whole) = packets := List.filter_eq_self.mpr h
  refine ⟨[], ?_, ?_⟩
  · rw [hnone]
    exact .nil
  · rw [hall, List.append_nil]

-- Two fragments of one datagram.
theorem Delivers.pair {a b : α} {payload : List β} (ha : (piece a).whole = false)
    (hb : (piece b).whole = false) (hkey : key a = key b)
    (h : Reassembles [piece a, piece b] payload) :
    Delivers key piece [a, b] [payload] := by
  have hpieces : pieces piece [a, b] = [a, b] := by
    rw [pieces, List.filter_cons_of_pos (by rw [ha]; rfl), List.filter_cons_of_pos (by rw [hb]; rfl),
      List.filter_nil]
  refine ⟨[payload], ?_, ?_⟩
  · rw [hpieces]
    simp only [List.map_cons, List.map_nil, hkey]
    rw [List.dedup_cons_of_mem (by simp), List.dedup_cons_of_notMem (by simp), List.dedup_nil]
    refine .cons ?_ .nil
    simpa [hkey] using h
  · simp [ha, hb]

end Delivery

end Wire
