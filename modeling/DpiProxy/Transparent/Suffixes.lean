import DpiProxy.Dns.Zones
import DpiProxy.Strategy.Lookup
import DpiProxy.Transparent.Dnsfwd.Theorems

namespace DpiProxy.Transparent

open Wire Dns Labels

-- The labels of a name, letters in lower case.
def foldedLabels (name : Bytes) : List Bytes := (name.splitOn DOT).map (List.map tolower)

theorem tolower_eq_dot (c : UInt8) : tolower c = DOT ↔ c = DOT := tolower_eq_iff c (by decide)

theorem under_folded_iff {name zone : Bytes} :
    Under DOT (name.map tolower) (zone.map tolower) ↔ foldedLabels zone <:+ foldedLabels name := by
  rw [under_iff_splitOn, splitOn_map tolower tolower_eq_dot, splitOn_map tolower tolower_eq_dot]
  rfl

-- A dot and a zone, in a name of any case.
theorem behind_dot_folded_iff {name zone : Bytes} :
    (∃ front, name.map tolower = front ++ DOT :: zone.map tolower) ↔
      zone.length < name.length ∧ byte name (name.length - zone.length - 1) = DOT ∧
        ieq (name.drop (name.length - zone.length)) zone = true := by
  rw [behind_dot_iff, List.length_map, List.length_map, ieq_iff, List.map_drop]
  refine and_congr_right fun hlt => and_congr_left fun _ => ?_
  have hi : name.length - zone.length - 1 < name.length := by omega
  rw [byte_eq_getElem _ _ hi, byte_eq_getElem _ _ (by rwa [List.length_map]), List.getElem_map,
    tolower_eq_dot]

theorem suffixMatch_under {name zone : Bytes} :
    suffixMatch name (DOT :: zone) = true ↔ Under DOT (name.map tolower) (zone.map tolower) := by
  rw [suffixMatch_iff]
  constructor
  · rintro ⟨_, hzone, hsame | ⟨front, hbelow⟩⟩
    · obtain rfl := (List.cons.inj hzone).2
      exact .inl hsame
    · exact .inr ⟨front, hbelow.symm⟩
  · rintro (hsame | ⟨front, hbelow⟩)
    · exact ⟨zone, rfl, .inl hsame⟩
    · exact ⟨zone, rfl, .inr ⟨front, hbelow.symm⟩⟩

-- What tp_host_listed asks of one entry of the list.
def entryMatches (host domain : Bytes) : Bool :=
  (host.length == domain.length && ieq host domain) ||
    (decide (host.length > domain.length) &&
      byte host (host.length - domain.length - 1) == DOT &&
      ieq (host.drop (host.length - domain.length)) domain)

theorem tpHostListed_eq (host : Bytes) : tpHostListed host = gListed.any (entryMatches (stripDots host)) :=
  rfl

theorem entryMatches_iff {host zone : Bytes} :
    entryMatches host zone = true ↔ Under DOT (host.map tolower) (zone.map tolower) := by
  rw [entryMatches, Under, behind_dot_folded_iff]
  simp only [Bool.or_eq_true, Bool.and_eq_true, decide_eq_true_eq, beq_iff_eq, gt_iff_lt, and_assoc, ieq_iff]
  refine or_congr_left (and_iff_right_of_imp fun heq => ?_)
  have hlen := congrArg List.length heq
  simpa using hlen

section LookAlike

variable {zone front tail : Bytes} {c : UInt8}

-- A name that ends in the characters of a zone behind something other than a dot.
theorem not_under_lookAlike (hc : c ≠ DOT) (htail : tail.map tolower = zone.map tolower) :
    ¬ Under DOT ((front ++ c :: tail).map tolower) (zone.map tolower) := by
  rw [List.map_append, List.map_cons, htail]
  exact not_under_append fun hdot => hc ((tolower_eq_dot c).mp hdot)

theorem stripDots_lookAlike (hzone : ∀ label ∈ zone.splitOn DOT, label ≠ [])
    (htail : tail.map tolower = zone.map tolower) : stripDots (front ++ c :: tail) = front ++ c :: tail := by
  apply stripDots_eq
  have hne : tail ≠ [] := by
    rintro rfl
    exact ne_nil_of_labels hzone (List.map_eq_nil_iff.mp htail.symm)
  rw [List.append_cons, List.getLast?_append_of_ne_nil _ hne]
  intro hlast
  have hfold := congrArg List.getLast? htail
  rw [List.getLast?_map, List.getLast?_map, hlast, Option.map_some, (tolower_eq_dot DOT).mpr rfl] at hfold
  obtain ⟨d, hd, hdot⟩ := Option.map_eq_some_iff.mp hfold.symm
  exact getLast?_of_labels hzone (hd.trans (congrArg some ((tolower_eq_dot d).mp hdot)))

end LookAlike

theorem suffix_matchers_agree (name zone : Bytes) :
    (suffixMatch name (DOT :: zone) = true ↔ foldedLabels zone <:+ foldedLabels name) ∧
    (entryMatches (stripDots name) zone = true ↔
      foldedLabels zone <:+ foldedLabels (stripDots name)) ∧
    (inZone name zone = true ↔ zone.splitOn DOT <:+ name.splitOn DOT) ∧
    (tpHostListed name = true ↔
      ∃ domain ∈ gListed, foldedLabels domain <:+ foldedLabels (stripDots name)) ∧
    ((∀ label ∈ zone.splitOn DOT, label ≠ []) →
      ∀ front c tail, c ≠ DOT → tail.map tolower = zone.map tolower → name = front ++ c :: tail →
        suffixMatch name (DOT :: zone) = false ∧ entryMatches (stripDots name) zone = false ∧
        inZone name zone = false) := by
  refine ⟨suffixMatch_under.trans under_folded_iff, entryMatches_iff.trans under_folded_iff,
    inZone_iff.trans under_iff_splitOn, ?_, ?_⟩
  · rw [tpHostListed_eq, List.any_eq_true]
    exact exists_congr fun domain => and_congr_right fun _ => entryMatches_iff.trans under_folded_iff
  · rintro hzone front c tail hc htail rfl
    have hnot := @not_under_lookAlike zone front tail c hc htail
    simp only [← Bool.not_eq_true]
    refine ⟨fun h => hnot (suffixMatch_under.mp h), fun h => hnot ?_, fun h => hnot ?_⟩
    · rw [stripDots_lookAlike hzone htail] at h
      exact entryMatches_iff.mp h
    · have hmap := (inZone_iff.mp h).map tolower
      rwa [(tolower_eq_dot DOT).mpr rfl] at hmap

end DpiProxy.Transparent
