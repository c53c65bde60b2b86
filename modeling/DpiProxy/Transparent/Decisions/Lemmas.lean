import DpiProxy.Transparent.Decisions

namespace DpiProxy.Transparent

open Wire

-- What an entry is found by: the host without regard to case, the network and the
-- address family.
abbrev DecisionKey := Bytes × UInt64 × Int32

def keyOf (host : Bytes) (fp : UInt64) (family : Int32) : DecisionKey :=
  (host.map tolower, fp, family)

def TpDecision.key (e : TpDecision) : DecisionKey := keyOf e.host e.fingerprint e.family

theorem matches_iff (e : TpDecision) (host : Bytes) (fp : UInt64) (family : Int32) :
    (e.fingerprint = fp ∧ e.family = family ∧ ieq e.host host = true) ↔ e.key = keyOf host fp family := by
  rw [ieq_iff, TpDecision.key, keyOf, keyOf, Prod.mk.injEq, Prod.mk.injEq]
  constructor
  · rintro ⟨hf, hfam, hh⟩
    exact ⟨hh, hf, hfam⟩
  · rintro ⟨hh, hf, hfam⟩
    exact ⟨hf, hfam, hh⟩

section Find

variable {d : TpDecisions} {host : Bytes} {fp : UInt64} {family : Int32}

theorem find_some {i : Nat} (h : find d host fp family = some i) :
    d.entries[i]? = some (d.entry i) ∧ (d.entry i).key = keyOf host fp family := by
  obtain ⟨hi, hmatch, -⟩ := List.findIdx?_eq_some_iff_getElem.mp h
  have hentry : d.entry i = d.entries[i] := by
    rw [TpDecisions.entry, List.getD_eq_getElem?_getD, List.getElem?_eq_getElem hi, Option.getD_some]
  refine ⟨by rw [hentry, List.getElem?_eq_getElem hi], ?_⟩
  rw [hentry, ← matches_iff]
  exact of_decide_eq_true hmatch

theorem find_none (h : find d host fp family = none) :
    ∀ e ∈ d.entries, e.key ≠ keyOf host fp family := by
  intro e he hkey
  have hno := List.findIdx?_eq_none_iff.mp h e he
  rw [decide_eq_false_iff_not] at hno
  exact hno ((matches_iff e host fp family).mpr hkey)

end Find

-- What storing an entry does: it updates the entry of the key, or appends a new one,
-- or puts the new one in the place of an entry that was validated longest ago.
inductive Put (before after : List TpDecision) (cap cap' : Nat) (e : TpDecision) : Prop where
  | update (front : List TpDecision) (old : TpDecision) (back : List TpDecision)
      (hbefore : before = front ++ old :: back) (hkey : old.key = e.key)
      (hafter : after = front ++ { old with step := e.step, validatedAt := e.validatedAt } :: back)
      (hcap : cap' = cap)
  | append (hnew : ∀ x ∈ before, x.key ≠ e.key) (hafter : after = before ++ [e])
      (hroom : before.length < cap ∨ cap < TP_DECISIONS_MAX) (hcap : cap ≤ cap')
      (hmost : cap' = cap ∨ cap' ≤ TP_DECISIONS_MAX) (hsize : cap ≤ before.length → cap < cap')
  | evict (hnew : ∀ x ∈ before, x.key ≠ e.key) (hfull : TP_DECISIONS_MAX ≤ cap ∧ cap ≤ before.length)
      (front : List TpDecision) (victim : TpDecision) (back : List TpDecision)
      (hbefore : before = front ++ victim :: back)
      (holdest : ∀ x ∈ before, victim.validatedAt ≤ x.validatedAt)
      (hafter : after = front ++ e :: back) (hcap : cap' = cap)

theorem putEntry_put (d : TpDecisions) (host : Bytes) (fp : UInt64) (family : Int32) (step : TpStep)
    (validatedAt : Int64) :
    Put d.entries (putEntry d host fp family step validatedAt).entries d.cap
      (putEntry d host fp family step validatedAt).cap ⟨host, fp, family, step, validatedAt⟩ := by
  unfold putEntry
  split
  · rename_i i hfind
    obtain ⟨hi, hkey⟩ := find_some hfind
    obtain ⟨front, back, hbefore, -, hset⟩ := Table.split_at hi
    exact .update front (d.entry i) back hbefore hkey (hset _) rfl
  · rename_i hfind
    have hnew := find_none hfind
    have hset : ∀ e : TpDecision,
        (d.entries ++ [TpDecision.zero]).set d.entries.length e = d.entries ++ [e] := by
      intro e
      rw [List.set_append_right _ _ le_rfl, Nat.sub_self]
      rfl
    unfold newSlot
    by_cases hroom : d.entries.length < d.cap
    · rw [if_pos hroom]
      exact .append hnew (hset _) (.inl hroom) le_rfl (.inl rfl) fun hfull => absurd hroom (by omega)
    by_cases hgrow : d.cap < TP_DECISIONS_MAX
    · rw [if_neg hroom, if_pos hgrow]
      unfold TP_DECISIONS_MAX at hgrow
      refine .append hnew (hset _) (.inr hgrow) ?_ (.inr ?_) fun _ => ?_
      · dsimp only [TP_DECISIONS_MAX]
        split_ifs <;> omega
      · dsimp only [TP_DECISIONS_MAX]
        split_ifs <;> omega
      · dsimp only [TP_DECISIONS_MAX]
        split_ifs <;> omega
    · rw [if_neg hroom, if_neg hgrow]
      have hne : d.entries ≠ [] := by
        intro hnil
        rw [hnil, List.length_nil] at hroom
        unfold TP_DECISIONS_MAX at hgrow
        omega
      obtain ⟨victim, hvictim, hleast⟩ := Table.minIndex_spec (fun e => e.validatedAt.toInt) hne
      obtain ⟨front, back, hbefore, -, hput⟩ := Table.split_at hvictim
      exact .evict hnew (by omega) front victim back hbefore
        (fun x hx => Int64.le_iff_toInt_le.mpr (hleast x hx)) (hput _) rfl

section Tables

variable (d : TpDecisions) (host : Bytes) (fp : UInt64) (family : Int32) (now : Int64)

theorem clearCooldown_used {i : Nat} {c : TpCooldown} (h : (clearCooldown d host).cooldown[i]? = some c)
    (hused : c.host ≠ []) : d.cooldown[i]? = some c := by
  unfold clearCooldown at h
  split at h
  · exact h
  · rename_i j _
    unfold setCooldown at h
    rw [List.getElem?_set] at h
    split at h
    · split at h
      · exact absurd (congrArg TpCooldown.host (Option.some.inj h)).symm hused
      · cases h
    · exact h

theorem clearCooldown_directBad : (clearCooldown d host).directBad = d.directBad := by
  unfold clearCooldown
  split <;> rfl

theorem putEntry_tables (step : TpStep) (validatedAt : Int64) :
    (putEntry d host fp family step validatedAt).cooldown = d.cooldown ∧
      (putEntry d host fp family step validatedAt).directBad = d.directBad := by
  unfold putEntry
  split
  · exact ⟨rfl, rfl⟩
  · unfold newSlot
    dsimp only
    split
    · exact ⟨rfl, rfl⟩
    · split
      · exact ⟨rfl, rfl⟩
      · exact ⟨rfl, rfl⟩

-- A success ends a cooldown and leaves the other tables alone.
theorem success_tables (step : TpStep) :
    (tpDecisionSuccess d host fp family now step).cooldown = (clearCooldown d host).cooldown ∧
      (tpDecisionSuccess d host fp family now step).directBad = d.directBad := by
  rw [← clearCooldown_directBad d host]
  unfold tpDecisionSuccess
  dsimp only
  split
  · exact ⟨rfl, rfl⟩
  · split
    · split
      · exact ⟨rfl, rfl⟩
      · exact ⟨rfl, rfl⟩
    · split
      · exact ⟨rfl, rfl⟩
      · exact putEntry_tables (clearCooldown d host) host fp family step now

theorem failure_tables :
    (tpDecisionFailure d host fp family now).cooldown =
        (if host.length < STRATEGY_DOMAIN_MAX then
          d.cooldown.set (cooldownSlot d host now) ⟨host, now + TP_COOLDOWN_SECONDS⟩
        else d.cooldown) ∧
      (tpDecisionFailure d host fp family now).directBad = d.directBad := by
  unfold tpDecisionFailure
  dsimp only
  by_cases hlen : host.length < STRATEGY_DOMAIN_MAX
  · simp only [if_pos hlen]
    split <;> exact ⟨rfl, rfl⟩
  · simp only [if_neg hlen]
    split <;> exact ⟨rfl, rfl⟩

theorem mark_tables :
    (tpDirectBadMark d host fp family now).cooldown = d.cooldown ∧
      (tpDirectBadMark d host fp family now).directBad =
        if fp = NETFP_UNKNOWN ∨ host.length ≥ STRATEGY_DOMAIN_MAX then d.directBad
        else d.directBad.set (markSlot d host fp family now)
          ⟨host, fp, family, now + TP_DIRECT_BAD_TTL_SECONDS⟩ := by
  unfold tpDirectBadMark
  split <;> exact ⟨rfl, rfl⟩

end Tables

end DpiProxy.Transparent
