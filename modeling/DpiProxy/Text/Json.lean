import DpiProxy.Text.Scan

namespace Json

open Wire CText

-- The bytes of a code point in UTF-8.
def utf8 (n : Nat) : Bytes :=
  if n < 0x80 then [UInt8.ofNat n]
  else if n < 0x800 then [UInt8.ofNat (0xC0 + n / 64), UInt8.ofNat (0x80 + n % 64)]
  else if n < 0x10000 then
    [UInt8.ofNat (0xE0 + n / 4096), UInt8.ofNat (0x80 + n / 64 % 64), UInt8.ofNat (0x80 + n % 64)]
  else
    [UInt8.ofNat (0xF0 + n / 262144), UInt8.ofNat (0x80 + n / 4096 % 64),
      UInt8.ofNat (0x80 + n / 64 % 64), UInt8.ofNat (0x80 + n % 64)]

-- The four hexadecimal digits of an escaped UTF-16 code unit.
def codeUnit (digits : Bytes) : Option Nat :=
  if digits.all (isDigit 16) then some (number 16 (digits.map value)) else none

-- What a backslash and one more character stand for.
def shortEscape (c : UInt8) : Option UInt8 :=
  if c = 34 ∨ c = 92 ∨ c = 47 then some c
  else if c = 98 then some 8
  else if c = 102 then some 12
  else if c = 110 then some 10
  else if c = 114 then some 13
  else if c = 116 then some 9
  else none

-- Quotes, backslashes and control characters do not stand for themselves.
def isPlain (c : UInt8) : Bool := c ≠ 34 ∧ c ≠ 92 ∧ 32 ≤ c

def isHigh (unit : Nat) : Bool := 0xD800 ≤ unit && unit < 0xDC00

def isLow (unit : Nat) : Bool := 0xDC00 ≤ unit && unit < 0xE000

def surrogates (high low : Nat) : Nat := 0x10000 + (high - 0xD800) * 0x400 + (low - 0xDC00)

-- What the text between the quotes of a string literal stands for, none where it is
-- no such text. Bytes outside of ASCII stand for themselves.
def decode : Bytes → Option Bytes
  | [] => some []
  | 92 :: 117 :: a :: b :: c :: d :: rest => do
      let unit ← codeUnit [a, b, c, d]
      if isHigh unit then
        match rest with
        | 92 :: 117 :: e :: f :: g :: h :: rest => do
            let low ← codeUnit [e, f, g, h]
            guard (isLow low)
            return utf8 (surrogates unit low) ++ (← decode rest)
        | _ => none
      else
        guard (!isLow unit)
        return utf8 unit ++ (← decode rest)
  | 92 :: c :: rest => do
      return (← shortEscape c) :: (← decode rest)
  | c :: rest => do
      guard (isPlain c)
      return c :: (← decode rest)

section Decode

variable {rest : Bytes}

theorem decode_plain {c : UInt8} (h : isPlain c = true) :
    decode (c :: rest) = (decode rest).map (c :: ·) := by
  have hc : c ≠ 92 := by
    rintro rfl
    cases h
  rw [decode, h]
  · cases decode rest <;> rfl
  all_goals simp [hc]

theorem decode_short {c e : UInt8} (h : shortEscape c = some e) :
    decode (92 :: c :: rest) = (decode rest).map (e :: ·) := by
  have hc : c ≠ 117 := by
    rintro rfl
    cases h
  rw [decode, h]
  · cases decode rest <;> rfl
  all_goals simp [hc]

-- The escape of a code unit that is no part of a surrogate pair.
theorem decode_unit {a b c d : UInt8} {unit : Nat} (h : codeUnit [a, b, c, d] = some unit)
    (hhigh : isHigh unit = false) (hlow : isLow unit = false) (rest : Bytes) :
    decode (92 :: 117 :: a :: b :: c :: d :: rest) = (decode rest).map (utf8 unit ++ ·) := by
  rw [decode, h]
  simp only [Option.bind_eq_bind, Option.bind_some, hhigh, hlow]
  cases decode rest <;> rfl

-- A code unit in four digits.
theorem codeUnit_digits {n : Nat} (h : n < 65536) :
    codeUnit ((lastDigits 16 4 n).map digitChar) = some n := by
  have hlt := lastDigits_lt 16 (by omega) 4 n
  rw [codeUnit, if_pos (List.all_eq_true.mpr (isDigit_digitChar le_rfl hlt)), map_value_digitChar hlt,
    number_lastDigits, Nat.mod_eq_of_lt (show n < 16 ^ 4 from h)]

-- The escape of a control character by its code.
theorem decode_control (c : UInt8) (h : c < 0x20) :
    decode (92 :: 117 :: (lastDigits 16 4 c.toNat).map digitChar ++ rest) =
      (decode rest).map (c :: ·) := by
  have hsmall : c.toNat < 32 := h
  have hhigh : isHigh c.toNat = false := by
    rw [isHigh, decide_eq_false (by omega), Bool.false_and]
  have hlow : isLow c.toNat = false := by
    rw [isLow, decide_eq_false (by omega), Bool.false_and]
  have hutf : utf8 c.toNat = [c] := by
    rw [utf8, if_pos (by omega), UInt8.ofNat_toNat]
  have hdecode := decode_unit (codeUnit_digits (n := c.toNat) (by omega)) hhigh hlow rest
  rw [hutf] at hdecode
  exact hdecode

end Decode

-- A surrogate pair between two plain characters.
example : decode (97 :: [92, 117, 100, 56, 51, 68, 92, 117, 68, 101, 48, 48] ++ [98]) =
    some [97, 0xF0, 0x9F, 0x98, 0x80, 98] := by
  decide +kernel

end Json
