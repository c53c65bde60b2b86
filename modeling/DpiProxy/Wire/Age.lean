import DpiProxy.Text.Scan

namespace Wire

open CText

section Age

variable {now past : Int64}

-- An age that fits is the difference.
theorem toInt_age (h : past ≤ now) (hfits : now.toInt - past.toInt ≤ LLONG_MAX) :
    (now - past).toInt = now.toInt - past.toInt := by
  rw [Int64.le_iff_toInt_le] at h
  unfold LLONG_MAX at hfits
  rw [Int64.toInt_sub]
  apply Int.bmod_eq_of_le <;> omega

-- A larger one wraps to a negative number.
theorem wrapped_age (hlarge : LLONG_MAX < now.toInt - past.toInt) : past ≤ now ∧ now - past < 0 := by
  have hlo := past.le_toInt
  have hhi := now.toInt_lt
  unfold LLONG_MAX at hlarge
  constructor
  · rw [Int64.le_iff_toInt_le]
    omega
  · have hwrap : (now - past).toInt = now.toInt - past.toInt - 2 ^ 64 := by
      rw [Int64.toInt_sub, ← Int.sub_bmod_right]
      apply Int.bmod_eq_of_le <;> omega
    rw [Int64.lt_iff_toInt_lt, hwrap, Int64.toInt_zero]
    omega

-- An age that a limit allows passes the comparison.
theorem age_le {limit : Int64} (h : past ≤ now) (hage : now.toInt - past.toInt ≤ limit.toInt) :
    now - past ≤ limit := by
  have hmax := limit.toInt_lt
  rw [Int64.le_iff_toInt_le, toInt_age h]
  · exact hage
  · unfold LLONG_MAX
    omega

end Age

end Wire
