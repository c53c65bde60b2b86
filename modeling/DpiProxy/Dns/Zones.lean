import DpiProxy.Dns.Local
import DpiProxy.Text.Labels

namespace DpiProxy.Dns

open Wire Labels

-- The test for a dot in the right place and the zone behind it.
theorem behind_dot_iff {name zone : Bytes} : (∃ front, name = front ++ DOT :: zone) ↔
    zone.length < name.length ∧ byte name (name.length - zone.length - 1) = DOT ∧
      name.drop (name.length - zone.length) = zone := by
  rw [behind_sep_iff]
  refine and_congr_right fun hlt => ?_
  have hi : name.length - zone.length - 1 < name.length := by omega
  rw [List.getElem?_eq_getElem hi, Option.some_inj, byte_eq_getElem _ _ hi]

theorem not_behind_of_length {name zone : Bytes} (h : name.length ≤ zone.length) :
    ¬ ∃ front, name = front ++ DOT :: zone := by
  rintro ⟨front, rfl⟩
  rw [List.length_append, List.length_cons] at h
  omega

theorem inZone_iff {name zone : Bytes} : inZone name zone = true ↔ Under DOT name zone := by
  rw [inZone, Under]
  by_cases hlen : name.length = zone.length
  · rw [if_pos hlen, beq_iff_eq, or_iff_left (not_behind_of_length hlen.le)]
  · have hne : name ≠ zone := fun heq => hlen (congrArg List.length heq)
    rw [if_neg hlen, or_iff_right hne, behind_dot_iff]
    simp only [Bool.and_eq_true, decide_eq_true_eq, beq_iff_eq, gt_iff_lt, and_assoc]

end DpiProxy.Dns
