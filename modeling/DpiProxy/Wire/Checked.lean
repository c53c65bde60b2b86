import DpiProxy.Wire.Bytes

namespace Wire

-- Reads that fail outside of the buffer.
def readByte (b : Bytes) (i : Nat) : Option UInt8 := b[i]?

def readBe16 (b : Bytes) (i : Nat) : Option Nat := do
  return (← readByte b i).toNat * 256 + (← readByte b (i + 1)).toNat

def readBe32 (b : Bytes) (i : Nat) : Option UInt32 := do
  return UInt32.ofNat ((← readBe16 b i) * 65536 + (← readBe16 b (i + 2)))

def readSlice (b : Bytes) (offset len : Nat) : Option Bytes :=
  if offset + len ≤ b.length then some (slice b offset len) else none

variable {b : Bytes} {i : Nat}

theorem readByte_eq (h : i < b.length) : readByte b i = some (byte b i) := by
  rw [readByte, List.getElem?_eq_getElem h, byte_eq_getElem b i h]

theorem readBe16_eq (h : i + 2 ≤ b.length) : readBe16 b i = some (be16 b i) := by
  simp [readBe16, readByte_eq (show i < b.length by omega), readByte_eq (show i + 1 < b.length by omega), be16]

theorem readBe32_eq (h : i + 4 ≤ b.length) : readBe32 b i = some (be32 b i) := by
  simp [readBe32, readBe16_eq (show i + 2 ≤ b.length by omega), readBe16_eq (show i + 2 + 2 ≤ b.length by omega), be32]

theorem readSlice_eq {len : Nat} (h : i + len ≤ b.length) : readSlice b i len = some (slice b i len) :=
  if_pos h

end Wire
