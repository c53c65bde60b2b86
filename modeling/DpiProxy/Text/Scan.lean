import DpiProxy.Wire.Bytes
import Mathlib.Data.Nat.Digits.Defs
import Mathlib.Data.Nat.Digits.Lemmas
import Mathlib.Data.List.TakeWhile

namespace CText

open Wire

-- The directives of sscanf and snprintf that a line of a text file needs, as the C
-- library documents them.
section Scan

def isspace (c : UInt8) : Bool := c == 32 || (9 ≤ c && c ≤ 13)

def skipSpace (b : Bytes) : Bytes := b.dropWhile isspace

-- %<width>s
def scanString (width : Nat) (b : Bytes) : Option (Bytes × Bytes) :=
  let start := skipSpace b
  let token := (start.takeWhile fun c => !isspace c).take width
  if token = [] then none else some (token, start.drop token.length)

-- A byte that is no digit has a value above every base.
def value (c : UInt8) : Nat :=
  if 48 ≤ c ∧ c ≤ 57 then c.toNat - 48
  else if 97 ≤ c ∧ c ≤ 102 then c.toNat - 87
  else if 65 ≤ c ∧ c ≤ 70 then c.toNat - 55
  else 99

def isDigit (base : Nat) (c : UInt8) : Bool := value c < base

def number (base : Nat) (digits : List Nat) : Nat := digits.foldl (fun n d => n * base + d) 0

def scanSign : Bytes → Bool × Bytes
  | 43 :: b => (false, b)
  | 45 :: b => (true, b)
  | b => (false, b)

def dropHexMark : Bytes → Bytes
  | 48 :: 120 :: b => b
  | 48 :: 88 :: b => b
  | b => b

-- The digits of a number and what follows them; none without a digit.
def scanDigits (base : Nat) (b : Bytes) : Option (Nat × Bytes) :=
  let digits := b.takeWhile (isDigit base)
  if digits = [] then none
  else some (number base (digits.map value), b.drop digits.length)

def ULLONG_MAX : Nat := 18446744073709551615
def LLONG_MAX : Int := 9223372036854775807
def LLONG_MIN : Int := -9223372036854775808

-- %llx, with the saturation of strtoull
def scanHex (b : Bytes) : Option (UInt64 × Bytes) :=
  let signed := scanSign (skipSpace b)
  match scanDigits 16 (dropHexMark signed.2) with
  | none => none
  | some (n, rest) =>
      if ULLONG_MAX < n then some (UInt64.ofNat ULLONG_MAX, rest)
      else some (if signed.1 then -UInt64.ofNat n else UInt64.ofNat n, rest)

-- The value of strtoll
def scanLong (b : Bytes) : Option (Int × Bytes) :=
  let signed := scanSign (skipSpace b)
  match scanDigits 10 signed.2 with
  | none => none
  | some (n, rest) =>
      let v : Int := if signed.1 then -n else n
      some (if v < LLONG_MIN then LLONG_MIN else if LLONG_MAX < v then LLONG_MAX else v, rest)

-- %lld
def scanInt64 (b : Bytes) : Option (Int64 × Bytes) :=
  (scanLong b).map fun r => (Int64.ofInt r.1, r.2)

-- %d
def scanInt32 (b : Bytes) : Option (Int32 × Bytes) :=
  (scanLong b).map fun r => (Int32.ofInt r.1, r.2)

end Scan

section Print

def digitChar (d : Nat) : UInt8 := if d < 10 then UInt8.ofNat (48 + d) else UInt8.ofNat (87 + d)

-- The last `width` digits of a number.
def lastDigits (base : Nat) : Nat → Nat → List Nat
  | 0, _ => []
  | width + 1, n => lastDigits base width (n / base) ++ [n % base]

-- %016llx
def printHex16 (v : UInt64) : Bytes := (lastDigits 16 16 v.toNat).map digitChar

def printNat (n : Nat) : Bytes :=
  if n = 0 then [48] else (Nat.digits 10 n).reverse.map digitChar

-- %d and %lld
def printInt (v : Int) : Bytes := if v < 0 then 45 :: printNat v.natAbs else printNat v.natAbs

end Print

-- A token ends where the text stops having a property.
def Stops (q : UInt8 → Bool) (rest : Bytes) : Prop := ∀ c, rest.head? = some c → q c = false

theorem stops_blank {q : UInt8 → Bool} (h : q 32 = false) (b : Bytes) : Stops q (32 :: b) := by
  intro c hc
  rw [← Option.some.inj hc]
  exact h

theorem takeWhile_stops {q : UInt8 → Bool} {token rest : Bytes} (hall : ∀ c ∈ token, q c = true)
    (hstop : Stops q rest) : (token ++ rest).takeWhile q = token := by
  rw [List.takeWhile_append_of_pos hall]
  cases rest with
  | nil => simp
  | cons c rest =>
      rw [List.takeWhile_cons, hstop c rfl]
      simp

theorem skipSpace_of_stops {b : Bytes} (h : Stops isspace b) : skipSpace b = b := by
  cases b with
  | nil => rfl
  | cons c b =>
      rw [skipSpace, List.dropWhile_cons, h c rfl]
      rfl

theorem scanString_append {width : Nat} {token rest : Bytes} (hne : token ≠ [])
    (hall : ∀ c ∈ token, isspace c = false) (hwidth : token.length ≤ width)
    (hrest : Stops (fun c => !isspace c) rest) :
    scanString width (token ++ rest) = some (token, rest) := by
  have hstart : skipSpace (token ++ rest) = token ++ rest := by
    apply skipSpace_of_stops
    intro c hc
    cases token with
    | nil => exact absurd rfl hne
    | cons c' token => exact hall c (Option.some.inj hc ▸ List.mem_cons_self)
  have htoken : (token ++ rest).takeWhile (fun c => !isspace c) = token := by
    apply takeWhile_stops _ hrest
    intro c hc
    rw [hall c hc]
    rfl
  rw [scanString, hstart]
  rw [htoken, List.take_of_length_le hwidth, if_neg hne, List.drop_left]

theorem scanString_some {width : Nat} {b token rest : Bytes}
    (h : scanString width b = some (token, rest)) :
    token ≠ [] ∧ token.length ≤ width ∧ ∀ c ∈ token, isspace c = false ∧ c ∈ b := by
  unfold scanString at h
  dsimp only at h
  split_ifs at h with hnil
  obtain ⟨rfl, -⟩ := Prod.mk.inj (Option.some.inj h)
  refine ⟨hnil, List.length_take_le _ _, fun c hc => ?_⟩
  have hmem := List.mem_of_mem_take hc
  refine ⟨?_, (List.dropWhile_sublist _).subset ((List.takeWhile_sublist _).subset hmem)⟩
  have hword := List.mem_takeWhile_imp hmem
  simpa using hword

-- A blank between two directives.
theorem scanString_space (width : Nat) (b : Bytes) : scanString width (32 :: b) = scanString width b := rfl

theorem scanHex_space (b : Bytes) : scanHex (32 :: b) = scanHex b := rfl

theorem scanLong_space (b : Bytes) : scanLong (32 :: b) = scanLong b := rfl

theorem scanLong_blanks {spaces : Bytes} (hspaces : ∀ c ∈ spaces, isspace c = true) (b : Bytes) :
    scanLong (spaces ++ b) = scanLong b := by
  have hskip : skipSpace (spaces ++ b) = skipSpace b := List.dropWhile_append_of_pos hspaces
  rw [scanLong, scanLong, hskip]

theorem scanDigits_append (base : Nat) {digits rest : Bytes} (hne : digits ≠ [])
    (hall : ∀ c ∈ digits, isDigit base c = true) (hrest : Stops (isDigit base) rest) :
    scanDigits base (digits ++ rest) = some (number base (digits.map value), rest) := by
  rw [scanDigits, takeWhile_stops hall hrest, if_neg hne, List.drop_left]

theorem value_digitChar : ∀ d < 16, value (digitChar d) = d := by decide

theorem number_append (base : Nat) (digits : List Nat) (d : Nat) :
    number base (digits ++ [d]) = number base digits * base + d := by
  rw [number, List.foldl_append]
  rfl

theorem number_lastDigits (base width n : Nat) : number base (lastDigits base width n) = n % base ^ width := by
  induction width generalizing n with
  | zero =>
      rw [pow_zero, Nat.mod_one]
      rfl
  | succ width ih =>
      rw [lastDigits, number_append, ih, pow_succ', Nat.mod_mul, Nat.mul_comm, Nat.add_comm]

theorem lastDigits_lt (base : Nat) (hbase : 0 < base) (width n : Nat) :
    ∀ d ∈ lastDigits base width n, d < base := by
  induction width generalizing n with
  | zero => exact fun d hd => absurd hd List.not_mem_nil
  | succ width ih =>
      intro d hd
      rcases List.mem_append.mp hd with hd | hd
      · exact ih _ d hd
      · rw [List.mem_singleton.mp hd]
        exact Nat.mod_lt _ hbase

theorem length_lastDigits (base width n : Nat) : (lastDigits base width n).length = width := by
  induction width generalizing n with
  | zero => rfl
  | succ width ih => rw [lastDigits, List.length_append, ih, List.length_singleton]

theorem printHex16_length (v : UInt64) : (printHex16 v).length = 16 := by
  rw [printHex16, List.length_map, length_lastDigits]

theorem number_digits (n : Nat) : number 10 (Nat.digits 10 n).reverse = n := by
  rw [number, List.foldl_reverse]
  conv_rhs => rw [← Nat.ofDigits_digits 10 n, Nat.ofDigits_eq_foldr]
  congr 1
  funext d m
  simp only [Nat.cast_id]
  omega

-- Printed digits are read back as the number they stand for.
theorem map_value_digitChar {digits : List Nat} (h : ∀ d ∈ digits, d < 16) :
    (digits.map digitChar).map value = digits := by
  rw [List.map_map]
  conv_rhs => rw [← List.map_id digits]
  exact List.map_congr_left fun d hd => value_digitChar d (h d hd)

theorem isDigit_digitChar {base : Nat} {digits : List Nat} (hbase : base ≤ 16)
    (h : ∀ d ∈ digits, d < base) : ∀ c ∈ digits.map digitChar, isDigit base c = true := by
  intro c hc
  obtain ⟨d, hd, rfl⟩ := List.mem_map.mp hc
  have hlt := h d hd
  rw [isDigit, value_digitChar d (by omega)]
  exact decide_eq_true hlt

-- No digit is a blank, a sign or the mark of a hexadecimal number.
theorem digit_plain (c : UInt8) (h : isDigit 16 c = true) :
    isspace c = false ∧ c ≠ 43 ∧ c ≠ 45 ∧ c ≠ 120 ∧ c ≠ 88 := by
  revert c
  exact forall_byte (by decide +kernel)

theorem scanSign_digit {b : Bytes} (h : ∀ c, b.head? = some c → isDigit 16 c = true) :
    scanSign (skipSpace b) = (false, b) := by
  have hskip : skipSpace b = b := skipSpace_of_stops fun c hc => (digit_plain c (h c hc)).1
  rw [hskip]
  cases b with
  | nil => rfl
  | cons c b =>
      obtain ⟨-, hplus, hminus, -⟩ := digit_plain c (h c rfl)
      unfold scanSign
      split
      · rename_i heq
        exact absurd (List.cons.inj heq).1 hplus
      · rename_i heq
        exact absurd (List.cons.inj heq).1 hminus
      · rfl

theorem dropHexMark_digits {c d : UInt8} (b : Bytes) (hd : isDigit 16 d = true) :
    dropHexMark (c :: d :: b) = c :: d :: b := by
  obtain ⟨-, -, -, hx, hX⟩ := digit_plain d hd
  unfold dropHexMark
  split
  · rename_i heq
    exact absurd (List.cons.inj (List.cons.inj heq).2).1 hx
  · rename_i heq
    exact absurd (List.cons.inj (List.cons.inj heq).2).1 hX
  · rfl

theorem scanHex_print (v : UInt64) {rest : Bytes} (hrest : Stops (isDigit 16) rest) :
    scanHex (printHex16 v ++ rest) = some (v, rest) := by
  have hlt := lastDigits_lt 16 (by omega) 16 v.toNat
  have hall : ∀ c ∈ printHex16 v, isDigit 16 c = true := isDigit_digitChar le_rfl hlt
  have hlen := printHex16_length v
  have hnumber : number 16 ((printHex16 v).map value) = v.toNat := by
    rw [printHex16, map_value_digitChar hlt, number_lastDigits]
    exact Nat.mod_eq_of_lt v.toNat_lt
  have hdigits := scanDigits_append 16 (List.ne_nil_of_length_pos (by omega)) hall hrest
  have hsign : scanSign (skipSpace (printHex16 v ++ rest)) = (false, printHex16 v ++ rest) := by
    apply scanSign_digit
    intro c hc
    rw [List.head?_append_of_ne_nil _ (List.ne_nil_of_length_pos (by omega))] at hc
    exact hall c (List.mem_of_head? hc)
  have hmark : dropHexMark (printHex16 v ++ rest) = printHex16 v ++ rest := by
    match hp : printHex16 v, hlen with
    | c :: d :: b, _ => exact dropHexMark_digits (b ++ rest) (hall d (by rw [hp]; simp))
  rw [scanHex, hsign]
  dsimp only
  rw [hmark, hdigits, hnumber]
  dsimp only
  have hmax := v.toNat_lt
  rw [if_neg (by unfold ULLONG_MAX; omega), if_neg Bool.false_ne_true, UInt64.ofNat_toNat]

theorem printNat_digits (n : Nat) :
    printNat n ≠ [] ∧ (∀ c ∈ printNat n, isDigit 10 c = true) ∧ number 10 ((printNat n).map value) = n := by
  by_cases hzero : n = 0
  · subst hzero
    decide +kernel
  · have hlt : ∀ d ∈ (Nat.digits 10 n).reverse, d < 10 := by
      intro d hd
      exact Nat.digits_lt_base (by omega) (List.mem_reverse.mp hd)
    rw [printNat, if_neg hzero]
    refine ⟨?_, isDigit_digitChar (by omega) hlt, ?_⟩
    · simpa [Nat.digits_ne_nil_iff_ne_zero] using hzero
    · rw [map_value_digitChar fun d hd => (hlt d hd).trans (by omega), number_digits]

theorem printNat_inj {m n : Nat} : printNat m = printNat n ↔ m = n := by
  constructor
  · intro h
    rw [← (printNat_digits m).2.2, h, (printNat_digits n).2.2]
  · exact congrArg printNat

theorem scanLong_print {v : Int} (hmin : LLONG_MIN ≤ v) (hmax : v ≤ LLONG_MAX) {rest : Bytes}
    (hrest : Stops (isDigit 10) rest) : scanLong (printInt v ++ rest) = some (v, rest) := by
  obtain ⟨hne, hall, hnumber⟩ := printNat_digits v.natAbs
  have hdigits := scanDigits_append 10 hne hall hrest
  rw [hnumber] at hdigits
  have hsign : scanSign (skipSpace (printInt v ++ rest)) = (decide (v < 0), printNat v.natAbs ++ rest) := by
    by_cases hneg : v < 0
    · rw [printInt, if_pos hneg, decide_eq_true hneg]
      rfl
    · rw [printInt, if_neg hneg, decide_eq_false hneg]
      apply scanSign_digit
      intro c hc
      rw [List.head?_append_of_ne_nil _ hne] at hc
      have hten := hall c (List.mem_of_head? hc)
      rw [isDigit, decide_eq_true_eq] at hten ⊢
      omega
  rw [scanLong, hsign]
  dsimp only
  rw [hdigits]
  dsimp only
  have hvalue : (if decide (v < 0) = true then -(v.natAbs : Int) else v.natAbs) = v := by
    by_cases hneg : v < 0
    · rw [decide_eq_true hneg, if_pos rfl]
      omega
    · rw [decide_eq_false hneg, if_neg Bool.false_ne_true]
      omega
  rw [hvalue, if_neg (by omega), if_neg (by omega)]

theorem printNat_length {n k : Nat} (hk : 0 < k) (h : n < 10 ^ k) : (printNat n).length ≤ k := by
  by_cases hzero : n = 0
  · rw [printNat, if_pos hzero]
    exact hk
  · rw [printNat, if_neg hzero, List.length_map, List.length_reverse]
    exact (Nat.digits_length_le_iff (by omega) n).mpr h

theorem printInt_length {v : Int} {k : Nat} (hk : 0 < k) (h : v.natAbs < 10 ^ k) :
    (printInt v).length ≤ k + 1 := by
  have hlen := printNat_length hk h
  unfold printInt
  split
  · rw [List.length_cons]
    omega
  · omega

-- An int64_t takes at most 20 bytes, and they give it back.
theorem printInt64_length (v : Int64) : (printInt v.toInt).length ≤ 20 := by
  have hlo := v.le_toInt
  have hhi := v.toInt_lt
  exact printInt_length (k := 19) (by omega) (by omega)

theorem scanInt64_print (v : Int64) {rest : Bytes} (hrest : Stops (isDigit 10) rest) :
    scanInt64 (printInt v.toInt ++ rest) = some (v, rest) := by
  have hlo := v.le_toInt
  have hhi := v.toInt_lt
  rw [scanInt64, scanLong_print (by unfold LLONG_MIN; omega) (by unfold LLONG_MAX; omega) hrest,
    Option.map_some, Int64.ofInt_toInt]

-- What a directive writes has neither a blank nor a NUL in it.
def Plain (b : Bytes) : Prop := ∀ c ∈ b, isspace c = false ∧ c ≠ 0

-- It ends neither a string nor a line.
theorem Plain.clean {b : Bytes} (h : Plain b) : ∀ c ∈ b, c ≠ 0 ∧ c ≠ 10 := by
  intro c hc
  refine ⟨(h c hc).2, ?_⟩
  rintro rfl
  exact absurd (h 10 hc).1 (by decide)

theorem plain_digits {base : Nat} {b : Bytes} (hbase : base ≤ 16) (h : ∀ c ∈ b, isDigit base c = true) :
    Plain b := by
  intro c hc
  have hdigit : isDigit 16 c = true := by
    have hvalue := h c hc
    rw [isDigit, decide_eq_true_eq] at hvalue ⊢
    omega
  refine ⟨(digit_plain c hdigit).1, ?_⟩
  rintro rfl
  exact absurd hdigit (by decide)

theorem printHex16_plain (v : UInt64) : Plain (printHex16 v) :=
  plain_digits le_rfl (isDigit_digitChar le_rfl (lastDigits_lt 16 (by omega) 16 v.toNat))

theorem printInt_plain (v : Int) : Plain (printInt v) := by
  have hnat : Plain (printNat v.natAbs) := plain_digits (by omega) (printNat_digits v.natAbs).2.1
  unfold printInt
  split
  · intro c hc
    rcases List.mem_cons.mp hc with rfl | hc
    · decide
    · exact hnat c hc
  · exact hnat

end CText
