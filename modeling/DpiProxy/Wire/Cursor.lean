import DpiProxy.Wire.Bytes

namespace Wire

def u16 (n : Nat) : Bytes := [hi8 n, lo8 n]

def u32 (n : UInt32) : Bytes := u16 (n.toNat / 65536) ++ u16 (n.toNat % 65536)

-- A block of bytes behind its length, in one byte and in two.
def vector8 (block : Bytes) : Bytes := lo8 block.length :: block

def vector16 (block : Bytes) : Bytes := u16 block.length ++ block

@[simp] theorem length_u16 (n : Nat) : (u16 n).length = 2 := rfl

@[simp] theorem length_u32 (n : UInt32) : (u32 n).length = 4 := rfl

@[simp] theorem length_vector8 (block : Bytes) : (vector8 block).length = 1 + block.length :=
  Nat.add_comm _ _

@[simp] theorem length_vector16 (block : Bytes) : (vector16 block).length = 2 + block.length := by
  rw [vector16, List.length_append, length_u16]

section Cursor

-- What a reader finds at a place where the rest of the buffer is known.
variable {b rest : Bytes} {pos : Nat}

theorem byte_at {c : UInt8} (h : b.drop pos = c :: rest) : byte b pos = c := by
  have hfirst := byte_drop b pos 0
  rw [h, Nat.add_zero] at hfirst
  exact hfirst.symm

theorem be16_at {n : Nat} (hn : n < 65536) (h : b.drop pos = u16 n ++ rest) : be16 b pos = n := by
  have hfirst := be16_drop b pos 0
  rw [h, Nat.add_zero] at hfirst
  rw [← hfirst, be16]
  show (hi8 n).toNat * 256 + (lo8 n).toNat = n
  rw [hi8_toNat n hn, lo8_toNat]
  omega

theorem drop_at {front : Bytes} (h : b.drop pos = front ++ rest) : b.drop (pos + front.length) = rest := by
  rw [← List.drop_drop, h, List.drop_left]

theorem be32_at {n : UInt32} (h : b.drop pos = u32 n ++ rest) : be32 b pos = n := by
  have hlt := n.toNat_lt
  rw [u32, List.append_assoc] at h
  have hlow := drop_at h
  rw [length_u16] at hlow
  rw [be32, be16_at (by omega) h, be16_at (by omega) hlow]
  apply UInt32.toNat.inj
  rw [UInt32.toNat_ofNat']
  omega

-- What is found lies in the buffer.
theorem lt_length_at {c : UInt8} (h : b.drop pos = c :: rest) : pos < b.length := by
  have hcount := congrArg List.length h
  rw [List.length_drop, List.length_cons] at hcount
  omega

theorem le_length_at {front : Bytes} (hne : 0 < front.length) (h : b.drop pos = front ++ rest) :
    pos + front.length ≤ b.length := by
  have hcount := congrArg List.length h
  rw [List.length_drop, List.length_append] at hcount
  omega

theorem slice_at {front : Bytes} (h : b.drop pos = front ++ rest) : slice b pos front.length = front := by
  rw [slice, h, List.take_left]

theorem vector8_at {block : Bytes} (hn : block.length < 256) (h : b.drop pos = vector8 block ++ rest) :
    (byte b pos).toNat = block.length ∧ b.drop (pos + 1 + block.length) = rest := by
  have hlen : (lo8 block.length).toNat = block.length := by
    rw [lo8_toNat, Nat.mod_eq_of_lt hn]
  have hafter := drop_at h
  rw [length_vector8, ← Nat.add_assoc] at hafter
  exact ⟨by rw [byte_at h, hlen], hafter⟩

theorem vector16_at {block : Bytes} (hn : block.length < 65536) (h : b.drop pos = vector16 block ++ rest) :
    be16 b pos = block.length ∧ b.drop (pos + 2) = block ++ rest ∧
      b.drop (pos + 2 + block.length) = rest := by
  rw [vector16, List.append_assoc] at h
  have hblock := drop_at h
  rw [length_u16] at hblock
  exact ⟨be16_at hn h, hblock, drop_at hblock⟩

end Cursor

end Wire
