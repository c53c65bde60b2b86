import DpiProxy.Wire.Bytes
import Mathlib.Algebra.BigOperators.Group.List.Basic

namespace Wire.OnesComplement

-- The 16-bit big-endian words of a buffer. An odd last byte is padded with zero.
def words : Bytes → List Nat
  | a :: b :: rest => (a.toNat * 256 + b.toNat) :: words rest
  | [a] => [a.toNat * 256]
  | [] => []

-- Addition of 16-bit words with end-around carry.
def add (a b : Nat) : Nat := (a + b) % 65536 + (a + b) / 65536

def sum (ws : List Nat) : Nat := ws.foldl add 0

-- The check of RFC 1071: the sum over all words, checksum included, has only 1 bits.
def Verifies (b : Bytes) : Prop := sum (words b) = 0xFFFF

instance (b : Bytes) : Decidable (Verifies b) := inferInstanceAs (Decidable (_ = _))

-- The checksum of RFC 1071, in unbounded integers.
def checksum (b : Bytes) : Nat := 0xFFFF - sum (words b)

-- A sequence of buffers whose cuts fall between two words.
def EvenButLast : List Bytes → Prop
  | [] => True
  | [_] => True
  | b :: rest => b.length % 2 = 0 ∧ EvenButLast rest

-- The 16-bit representative that end-around carry leaves for an unbounded sum.
-- Zero stands for itself only. Every other multiple of 65535 becomes 65535.
def norm (n : Nat) : Nat := if n = 0 then 0 else (n - 1) % 65535 + 1

theorem norm_le (n : Nat) : norm n ≤ 65535 := by
  unfold norm
  split <;> omega

theorem norm_of_le (n : Nat) (h : n ≤ 65535) : norm n = n := by
  unfold norm
  split <;> omega

theorem norm_eq_ones_iff (n : Nat) : norm n = 65535 ↔ 0 < n ∧ n % 65535 = 0 := by
  unfold norm
  split <;> omega

theorem add_eq_norm (a b : Nat) (ha : a ≤ 65535) (hb : b ≤ 65535) : add a b = norm (a + b) := by
  unfold add norm
  split <;> omega

theorem norm_norm_add (a b : Nat) : norm (norm a + b) = norm (a + b) := by
  unfold norm
  split_ifs <;> omega

-- Folding the upper half of a wider sum into its lower half keeps the representative.
theorem norm_fold (n : Nat) : norm (n % 65536 + n / 65536) = norm n := by
  have h : n = n / 65536 * 65536 + n % 65536 := by omega
  unfold norm
  split_ifs <;> omega

theorem words_le (b : Bytes) : ∀ w ∈ words b, w ≤ 65535 := by
  intro w hw
  induction b using words.induct with
  | case1 x y rest ih =>
      have hx := x.toNat_lt
      have hy := y.toNat_lt
      rcases List.mem_cons.mp hw with rfl | hw
      · omega
      · exact ih hw
  | case2 x =>
      have hx := x.toNat_lt
      simp only [words, List.mem_singleton] at hw
      omega
  | case3 => simp [words] at hw

theorem words_sum_le (b : Bytes) : (words b).sum ≤ (b.length + 1) / 2 * 65535 := by
  induction b using words.induct with
  | case1 x y rest ih =>
      have hx := x.toNat_lt
      have hy := y.toNat_lt
      simp only [words, List.sum_cons, List.length_cons]
      omega
  | case2 x =>
      have hx := x.toNat_lt
      simp [words]
      omega
  | case3 => simp [words]

-- Words of a concatenation, when the cut falls between two words.
theorem words_append (a b : Bytes) (h : a.length % 2 = 0) : words (a ++ b) = words a ++ words b := by
  induction a using words.induct with
  | case1 x y rest ih =>
      simp only [List.length_cons] at h
      simp [words, ih (by omega)]
  | case2 x => simp at h
  | case3 => simp [words]

theorem words_flatten_sum {bufs : List Bytes} (h : EvenButLast bufs) :
    (words bufs.flatten).sum = (bufs.map fun b => (words b).sum).sum := by
  induction bufs with
  | nil => simp [words]
  | cons b rest ih =>
      cases rest with
      | nil => simp
      | cons next rest =>
          rw [List.flatten_cons, words_append _ _ h.1, List.sum_append, ih h.2]
          simp only [List.map_cons, List.sum_cons]

theorem foldl_add_eq_norm (ws : List Nat) (acc : Nat) (hacc : acc ≤ 65535)
    (hws : ∀ w ∈ ws, w ≤ 65535) : ws.foldl add acc = norm (acc + ws.sum) := by
  induction ws generalizing acc with
  | nil => simp [norm_of_le acc hacc]
  | cons w ws ih =>
      have hw := hws w List.mem_cons_self
      have hadd := add_eq_norm acc w hacc hw
      have hstep := ih (add acc w) (hadd ▸ norm_le _) (fun v hv => hws v (List.mem_cons_of_mem _ hv))
      rw [List.foldl_cons, hstep, hadd, norm_norm_add, List.sum_cons, Nat.add_assoc]

theorem sum_words (b : Bytes) : sum (words b) = norm (words b).sum := by
  have h := foldl_add_eq_norm (words b) 0 (by omega) (words_le b)
  rwa [Nat.zero_add] at h

-- A buffer verifies exactly when its plain word sum is a positive multiple of 65535.
theorem verifies_iff (b : Bytes) :
    Verifies b ↔ 0 < (words b).sum ∧ (words b).sum % 65535 = 0 := by
  rw [Verifies, sum_words, norm_eq_ones_iff]

theorem checksum_eq (b : Bytes) : checksum b = 65535 - norm (words b).sum := by
  rw [checksum, sum_words]

theorem checksum_eq_zero_iff (b : Bytes) : checksum b = 0 ↔ Verifies b := by
  have hle := norm_le (words b).sum
  rw [checksum_eq, Verifies, sum_words]
  omega

-- Completing a sum with the complement of its representative gives all ones.
theorem norm_add_complement (n : Nat) : norm (n + (65535 - norm n)) = 65535 := by
  rw [norm_eq_ones_iff]
  unfold norm
  split_ifs <;> omega

-- Complementing a word of a sum that is a multiple of 65535 keeps it one only for
-- the two representations of zero.
theorem norm_complement_iff (rest field : Nat) (hrest : 0 < rest) (hfield : field ≤ 65535)
    (h : norm (rest + field) = 65535) :
    norm (rest + (65535 - field)) = 65535 ↔ field = 0 ∨ field = 65535 := by
  rw [norm_eq_ones_iff] at h ⊢
  have hdvd := Nat.dvd_of_mod_eq_zero h.2
  have hsum : rest + (65535 - field) + 2 * field = rest + field + 65535 := by omega
  constructor
  · rintro ⟨-, hc⟩
    have htwice : 65535 ∣ 2 * field := by
      apply (Nat.dvd_add_right (Nat.dvd_of_mod_eq_zero hc)).mp
      rw [hsum]
      exact Nat.dvd_add hdvd (Nat.dvd_refl _)
    obtain ⟨c, hc⟩ := Nat.Coprime.dvd_of_dvd_mul_left (by decide) htwice
    clear h hsum hdvd htwice
    omega
  · rintro (rfl | rfl)
    · exact ⟨by omega, Nat.mod_eq_zero_of_dvd (Nat.dvd_add hdvd (Nat.dvd_refl _))⟩
    · exact ⟨hrest, Nat.mod_eq_zero_of_dvd ((Nat.dvd_add_left (Nat.dvd_refl _)).mp hdvd)⟩

-- The word sum of a buffer around one 16-bit field at an even offset.
theorem words_sum_split (b : Bytes) (i : Nat) (hi : i % 2 = 0) (hl : i + 2 ≤ b.length) :
    (words b).sum = (words (b.take i)).sum + be16 b i + (words (b.drop (i + 2))).sum := by
  have hsplit : b = b.take i ++ (byte b i :: byte b (i + 1) :: b.drop (i + 2)) := by
    have h₁ : b.drop i = byte b i :: b.drop (i + 1) := by
      rw [byte_eq_getElem b i (by omega), List.drop_eq_getElem_cons (by omega)]
    have h₂ : b.drop (i + 1) = byte b (i + 1) :: b.drop (i + 2) := by
      rw [byte_eq_getElem b (i + 1) (by omega), List.drop_eq_getElem_cons (by omega)]
    rw [← h₂, ← h₁, List.take_append_drop]
  have hlen : (b.take i).length % 2 = 0 := by
    rw [List.length_take]
    omega
  conv_lhs => rw [hsplit]
  rw [words_append _ _ hlen, List.sum_append, words, List.sum_cons, be16]
  omega

end Wire.OnesComplement
