import Mathlib.Data.List.Basic
import Mathlib.Tactic.NormNum

namespace Wire

-- A byte buffer together with its length. Reads outside the buffer return 0.
-- The modelled code checks the length before it reads, so this value is never used.
abbrev Bytes := List UInt8

def byte (b : Bytes) (i : Nat) : UInt8 := b.getD i 0

-- Network byte order fields.
def be16 (b : Bytes) (i : Nat) : Nat := (byte b i).toNat * 256 + (byte b (i + 1)).toNat

def be32 (b : Bytes) (i : Nat) : UInt32 := UInt32.ofNat (be16 b i * 65536 + be16 b (i + 2))

def slice (b : Bytes) (offset len : Nat) : Bytes := (b.drop offset).take len

-- The two bytes of a 16-bit field. A larger number is truncated as the C casts do.
def hi8 (n : Nat) : UInt8 := UInt8.ofNat (n / 256)

def lo8 (n : Nat) : UInt8 := UInt8.ofNat n

def put16 (b : Bytes) (i n : Nat) : Bytes := (b.set i (hi8 n)).set (i + 1) (lo8 n)

def put32 (b : Bytes) (i : Nat) (n : UInt32) : Bytes :=
  put16 (put16 b i (n.toNat / 65536)) (i + 2) (n.toNat % 65536)

theorem hi8_toNat (n : Nat) (h : n < 65536) : (hi8 n).toNat = n / 256 := by
  simp only [hi8, UInt8.toNat_ofNat']
  omega

theorem lo8_toNat (n : Nat) : (lo8 n).toNat = n % 256 := by
  simp [lo8]

-- What holds of the 256 values holds of every byte.
theorem forall_byte {P : UInt8 → Prop} (h : ∀ n < 256, P (UInt8.ofNat n)) (c : UInt8) : P c := by
  have hc := h c.toNat c.toNat_lt
  rwa [UInt8.ofNat_toNat] at hc

theorem forall_of_all {P : UInt8 → Prop} [DecidablePred P] {b : Bytes}
    (h : b.all (fun c => decide (P c)) = true) : ∀ c ∈ b, P c :=
  fun c hc => of_decide_eq_true (List.all_eq_true.mp h c hc)

theorem be16_lt (b : Bytes) (i : Nat) : be16 b i < 65536 := by
  have h₁ := (byte b i).toNat_lt
  have h₂ := (byte b (i + 1)).toNat_lt
  unfold be16
  omega

theorem byte_eq_getElem (b : Bytes) (i : Nat) (h : i < b.length) : byte b i = b[i] := by
  simp [byte, h]

-- Two buffers of one length are equal when every byte is.
theorem ext_byte {a b : Bytes} (hl : a.length = b.length)
    (h : ∀ i < a.length, byte a i = byte b i) : a = b := by
  apply List.ext_getElem hl
  intro i ha hb
  rw [← byte_eq_getElem a i ha, ← byte_eq_getElem b i hb]
  exact h i ha

theorem byte_append (a b : Bytes) (i : Nat) :
    byte (a ++ b) i = if i < a.length then byte a i else byte b (i - a.length) := by
  simp only [byte, List.getD_eq_getElem?_getD, List.getElem?_append]
  split <;> rfl

theorem byte_take (b : Bytes) (n i : Nat) :
    byte (b.take n) i = if i < n then byte b i else 0 := by
  simp only [byte, List.getD_eq_getElem?_getD, List.getElem?_take]
  split <;> simp

theorem byte_drop (b : Bytes) (n i : Nat) : byte (b.drop n) i = byte b (n + i) := by
  simp [byte, List.getD_eq_getElem?_getD]

theorem byte_slice (b : Bytes) (offset len i : Nat) (h : i < len) :
    byte (slice b offset len) i = byte b (offset + i) := by
  simp [slice, byte_take, byte_drop, h]

theorem be16_slice (b : Bytes) (offset len i : Nat) (h : i + 1 < len) :
    be16 (slice b offset len) i = be16 b (offset + i) := by
  unfold be16
  rw [byte_slice _ _ _ _ (by omega), byte_slice _ _ _ _ h, Nat.add_assoc]

theorem be32_slice (b : Bytes) (offset len i : Nat) (h : i + 3 < len) :
    be32 (slice b offset len) i = be32 b (offset + i) := by
  unfold be32
  rw [be16_slice _ _ _ _ (by omega), be16_slice _ _ _ _ (by omega), Nat.add_assoc]

theorem length_slice (b : Bytes) (offset len : Nat) :
    (slice b offset len).length = min len (b.length - offset) := by
  simp [slice]

theorem length_slice_of_le (b : Bytes) (offset len : Nat) (h : offset + len ≤ b.length) :
    (slice b offset len).length = len := by
  rw [length_slice]
  omega

theorem drop_slice (b : Bytes) (offset len n : Nat) :
    (slice b offset len).drop n = slice b (offset + n) (len - n) := by
  simp only [slice, List.drop_take, List.drop_drop]

theorem slice_drop (b : Bytes) (n offset len : Nat) :
    slice (b.drop n) offset len = slice b (n + offset) len := by
  simp only [slice, List.drop_drop]

theorem be16_drop (b : Bytes) (n i : Nat) : be16 (b.drop n) i = be16 b (n + i) := by
  simp only [be16, byte_drop, Nat.add_assoc]

theorem take_slice (b : Bytes) (offset len n : Nat) (h : n ≤ len) :
    (slice b offset len).take n = slice b offset n := by
  simp only [slice, List.take_take]
  congr 1
  omega

-- Adjacent slices join.
theorem slice_append_slice (b : Bytes) (offset len len' : Nat) :
    slice b offset len ++ slice b (offset + len) len' = slice b offset (len + len') := by
  simp only [slice, List.take_add, List.drop_drop]

theorem slice_append_drop (b : Bytes) (offset len : Nat) :
    slice b offset len ++ b.drop (offset + len) = b.drop offset := by
  rw [slice, ← List.drop_drop, List.take_append_drop]

theorem slice_to_end (b : Bytes) (offset len : Nat) (h : b.length ≤ offset + len) :
    slice b offset len = b.drop offset := by
  rw [slice, List.take_of_length_le (by rw [List.length_drop]; omega)]

@[simp] theorem length_put16 (b : Bytes) (i n : Nat) : (put16 b i n).length = b.length := by
  simp [put16]

@[simp] theorem length_put32 (b : Bytes) (i : Nat) (n : UInt32) :
    (put32 b i n).length = b.length := by
  simp [put32]

-- Another body behind the first bytes of a buffer.
section Head

variable {raw : Bytes} {n : Nat}

theorem length_take_append (h : n ≤ raw.length) (body : Bytes) : (raw.take n ++ body).length = n + body.length := by
  rw [List.length_append, List.length_take_of_le h]

theorem byte_take_append (h : n ≤ raw.length) (body : Bytes) {j : Nat} (hj : j < n) :
    byte (raw.take n ++ body) j = byte raw j := by
  rw [byte_append, List.length_take_of_le h, if_pos hj, byte_take, if_pos hj]

theorem drop_take_append (h : n ≤ raw.length) (body : Bytes) : (raw.take n ++ body).drop n = body :=
  List.drop_left' (List.length_take_of_le h)

end Head

theorem byte_set (b : Bytes) (i j : Nat) (v : UInt8) :
    byte (b.set i v) j = if i = j ∧ j < b.length then v else byte b j := by
  simp only [byte, List.getD_eq_getElem?_getD, List.getElem?_set]
  by_cases hij : i = j
  · subst hij
    by_cases hl : i < b.length <;> simp [hl]
  · simp [hij]

theorem byte_put16_of_ne (b : Bytes) (i n j : Nat) (h₁ : j ≠ i) (h₂ : j ≠ i + 1) :
    byte (put16 b i n) j = byte b j := by
  simp [put16, byte_set, Ne.symm h₁, Ne.symm h₂]

theorem be16_put16 (b : Bytes) (i n : Nat) (hn : n < 65536) (hl : i + 1 < b.length) :
    be16 (put16 b i n) i = n := by
  have h₁ : byte (put16 b i n) i = hi8 n := by
    simp [put16, byte_set, show i < b.length by omega]
  have h₂ : byte (put16 b i n) (i + 1) = lo8 n := by
    simp [put16, byte_set, hl]
  rw [be16, h₁, h₂, hi8_toNat n hn, lo8_toNat]
  omega

theorem be16_put16_self (b : Bytes) (i : Nat) (n : UInt16) (hl : i + 1 < b.length) :
    be16 (put16 b i n.toNat) i = n.toNat :=
  be16_put16 b i n.toNat n.toNat_lt hl

theorem be16_put16_of_ne (b : Bytes) (i n j : Nat) (h : j + 1 < i ∨ i + 1 < j) :
    be16 (put16 b i n) j = be16 b j := by
  unfold be16
  rw [byte_put16_of_ne _ _ _ _ (by omega) (by omega), byte_put16_of_ne _ _ _ _ (by omega) (by omega)]

theorem be32_put16_of_ne (b : Bytes) (i n j : Nat) (h : j + 3 < i ∨ i + 1 < j) :
    be32 (put16 b i n) j = be32 b j := by
  unfold be32
  rw [be16_put16_of_ne _ _ _ _ (by omega), be16_put16_of_ne _ _ _ _ (by omega)]

theorem byte_put32_of_ne (b : Bytes) (i : Nat) (n : UInt32) (j : Nat) (h : j < i ∨ i + 3 < j) :
    byte (put32 b i n) j = byte b j := by
  unfold put32
  rw [byte_put16_of_ne _ _ _ _ (by omega) (by omega), byte_put16_of_ne _ _ _ _ (by omega) (by omega)]

theorem be32_put32 (b : Bytes) (i : Nat) (n : UInt32) (hl : i + 3 < b.length) :
    be32 (put32 b i n) i = n := by
  have hn := n.toNat_lt
  unfold put32 be32
  rw [be16_put16_of_ne _ _ _ _ (by omega), be16_put16 _ _ _ (by omega) (by omega),
    be16_put16 _ _ _ (by omega) (by simp; omega)]
  have h : n.toNat / 65536 * 65536 + n.toNat % 65536 = n.toNat := by omega
  rw [h, UInt32.ofNat_toNat]

theorem be16_put32_of_ne (b : Bytes) (i : Nat) (n : UInt32) (j : Nat) (h : j + 1 < i ∨ i + 3 < j) :
    be16 (put32 b i n) j = be16 b j := by
  unfold be16
  rw [byte_put32_of_ne _ _ _ _ (by omega), byte_put32_of_ne _ _ _ _ (by omega)]

-- A field write does not touch the bytes on either side of it.
theorem take_put16 (b : Bytes) (i n m : Nat) (h : m ≤ i) : (put16 b i n).take m = b.take m := by
  simp only [put16]
  rw [List.take_set_of_le (by omega), List.take_set_of_le h]

theorem drop_put16 (b : Bytes) (i n m : Nat) (h : i + 2 ≤ m) :
    (put16 b i n).drop m = b.drop m := by
  simp only [put16]
  rw [List.drop_set_of_lt (by omega), List.drop_set_of_lt (by omega)]

theorem drop_put32 (b : Bytes) (i : Nat) (n : UInt32) (m : Nat) (h : i + 4 ≤ m) :
    (put32 b i n).drop m = b.drop m := by
  unfold put32
  rw [drop_put16 _ _ _ _ (by omega), drop_put16 _ _ _ _ (by omega)]

theorem slice_put16 (b : Bytes) (i n offset len : Nat) (h : offset + len ≤ i ∨ i + 2 ≤ offset) :
    slice (put16 b i n) offset len = slice b offset len := by
  rcases h with h | h
  · simp only [slice, List.take_drop, take_put16 b i n (offset + len) h]
  · rw [slice, drop_put16 b i n offset h, slice]

end Wire
