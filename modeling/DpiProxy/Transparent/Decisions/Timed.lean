import DpiProxy.Table.Timed
import DpiProxy.Transparent.Decisions.Theorems

namespace DpiProxy.Transparent

open Wire
open Table (TimedOp Live Refines AtMost)

-- The key of a slot; a slot with an empty host is free.
def TpCooldown.key (c : TpCooldown) : Option Bytes := if c.host = [] then none else some (c.host.map tolower)

def TpMark.key (m : TpMark) : Option DecisionKey :=
  if m.host = [] then none else some (keyOf m.host m.fingerprint m.family)

section Slots

variable {α κ : Type} {key : α → Option κ} {expires : α → Int64}

-- The three ways in which a slot is chosen.
theorem slotFor_spec (expires : α → Int64) {own : Option Nat} (free : α → Bool) {table : List α} (hne : table ≠ [])
    (hown : ∀ i, own = some i → ∃ x, table[i]? = some x) :
    ∃ x, table[slotFor own free expires table]? = some x ∧
      (own = some (slotFor own free expires table) ∨
        own = none ∧ (free x = true ∨ ∀ z ∈ table, free z = false)) := by
  unfold slotFor
  cases own with
  | some i =>
      obtain ⟨x, hx⟩ := hown i rfl
      exact ⟨x, hx, .inl rfl⟩
  | none =>
      cases hfree : table.findIdx? free with
      | some i =>
          obtain ⟨hi, hx, -⟩ := List.findIdx?_eq_some_iff_getElem.mp hfree
          exact ⟨table[i], List.getElem?_eq_getElem hi, .inr ⟨rfl, .inl hx⟩⟩
      | none =>
          obtain ⟨x, hx, -⟩ := Table.minIndex_spec (fun x => (expires x).toInt) hne
          exact ⟨x, hx, .inr ⟨rfl, .inr (List.findIdx?_eq_none_iff.mp hfree)⟩⟩

variable [DecidableEq κ] {After After' : Int → Prop} {m : κ → Option Int} {k : κ}

-- Writing to the chosen slot puts the key.
theorem refines_slotFor {own : Option Nat} {free : α → Bool} {table : List α} {now : Int64} {y : α} {expiry : Int}
    (h : Refines key (fun x => (expires x).toInt) After table m) (hne : table ≠ [])
    (hsome : ∀ i, own = some i → ∃ x, table[i]? = some x ∧ key x = some k)
    (hnone : own = none → ∀ x ∈ table, key x ≠ some k)
    (hfree : ∀ x, free x = true ↔ key x = none ∨ expires x ≤ now)
    (hnow : After now.toInt) (hlater : ∀ now', After' now' → After now' ∧ now.toInt ≤ now')
    (hexpiry : now.toInt < expiry) (hkey : key y = some k) (hexpires : (expires y).toInt = expiry)
    (hroom : AtMost table.length (Live ((TimedOp.put k expiry).apply m) now.toInt)) :
    Refines key (fun x => (expires x).toInt) After' (table.set (slotFor own free expires table) y)
      ((TimedOp.put k expiry).apply m) := by
  have hown : ∀ i, own = some i → ∃ x, table[i]? = some x := by
    intro i hi
    obtain ⟨x, hx, -⟩ := hsome i hi
    exact ⟨x, hx⟩
  obtain ⟨x, hx, hchosen⟩ := slotFor_spec expires free hne hown
  obtain ⟨front, back, htable, -, hset⟩ := Table.split_at hx
  rw [hset]
  rw [htable] at h hroom
  apply h.write hnow hlater hexpiry hkey hexpires _ hroom
  rw [← htable]
  rcases hchosen with hi | ⟨habsent, hslot⟩
  · obtain ⟨x', hx', hk⟩ := hsome _ hi
    rw [hx] at hx'
    exact .inl (Option.some.inj hx' ▸ hk)
  · refine .inr ⟨hnone habsent, ?_⟩
    rcases hslot with hslot | hfull
    · exact ((hfree x).mp hslot).imp_right fun hle => .inl (Int64.le_iff_toInt_le.mp hle)
    · refine .inr (.inr fun z hz => ?_)
      have hno : ¬ (key z = none ∨ expires z ≤ now) := by
        rw [← hfree, hfull z hz]
        exact Bool.false_ne_true
      obtain ⟨hkey, hlive⟩ := not_or.mp hno
      rw [Int64.le_iff_toInt_le] at hlive
      exact ⟨hkey, by omega⟩

end Slots

section Find

variable {d : TpDecisions} {host : Bytes} {fp : UInt64} {family : Int32}

theorem cooldown_key (c : TpCooldown) (host : Bytes) :
    (c.host ≠ [] ∧ ieq c.host host = true) ↔ c.key = some (host.map tolower) := by
  unfold TpCooldown.key
  by_cases hnil : c.host = [] <;> simp [hnil, ieq_iff]

theorem mark_key (m : TpMark) (host : Bytes) (fp : UInt64) (family : Int32) :
    (m.host ≠ [] ∧ m.fingerprint = fp ∧ m.family = family ∧ ieq m.host host = true) ↔
      m.key = some (keyOf host fp family) := by
  unfold TpMark.key keyOf
  by_cases hnil : m.host = []
  · simp [hnil]
  · simp only [hnil, ieq_iff, ne_eq, not_false_eq_true, true_and, if_false, Option.some.injEq, Prod.mk.injEq]
    tauto

theorem cooldownFind_some {i : Nat} (h : cooldownFind d host = some i) :
    ∃ c, d.cooldown[i]? = some c ∧ c.key = some (host.map tolower) := by
  obtain ⟨hi, hmatch, -⟩ := List.findIdx?_eq_some_iff_getElem.mp h
  exact ⟨d.cooldown[i], List.getElem?_eq_getElem hi, (cooldown_key _ host).mp (of_decide_eq_true hmatch)⟩

theorem cooldownFind_none (h : cooldownFind d host = none) :
    ∀ c ∈ d.cooldown, c.key ≠ some (host.map tolower) := by
  intro c hc hkey
  have hno := List.findIdx?_eq_none_iff.mp h c hc
  exact of_decide_eq_false hno ((cooldown_key c host).mpr hkey)

theorem markFind_some {i : Nat} (h : markFind d host fp family = some i) :
    ∃ m, d.directBad[i]? = some m ∧ m.key = some (keyOf host fp family) := by
  obtain ⟨hi, hmatch, -⟩ := List.findIdx?_eq_some_iff_getElem.mp h
  exact ⟨d.directBad[i], List.getElem?_eq_getElem hi, (mark_key _ host fp family).mp (of_decide_eq_true hmatch)⟩

theorem markFind_none (h : markFind d host fp family = none) :
    ∀ m ∈ d.directBad, m.key ≠ some (keyOf host fp family) := by
  intro m hm hkey
  have hno := List.findIdx?_eq_none_iff.mp h m hm
  exact of_decide_eq_false hno ((mark_key m host fp family).mpr hkey)

end Find

-- What the calls do to the map of cooldowns and to the map of marks.
def StoreCall.cooldownOp : StoreCall → Option (TimedOp Bytes)
  | .success host _ _ _ _ => some (.drop (host.map tolower))
  | .failure host _ _ now => some (.put (host.map tolower) (now.toInt + TP_COOLDOWN_SECONDS.toInt))
  | .directBadMark _ _ _ _ => none
  | .networkChanged => some .clear

def StoreCall.markOp : StoreCall → Option (TimedOp DecisionKey)
  | .success _ _ _ _ _ => none
  | .failure _ _ _ _ => none
  | .directBadMark host fp family now =>
      if fp = NETFP_UNKNOWN then none
      else some (.put (keyOf host fp family) (now.toInt + TP_DIRECT_BAD_TTL_SECONDS.toInt))
  | .networkChanged => some .clear

def applyOps {κ : Type} [DecidableEq κ] (ops : List (TimedOp κ)) : κ → Option Int :=
  ops.foldl TimedOp.apply fun _ => none

def StoreCall.now? : StoreCall → Option Int64
  | .success _ _ _ now _ => some now
  | .failure _ _ _ now => some now
  | .directBadMark _ _ _ now => some now
  | .networkChanged => none

def StoreCall.host? : StoreCall → Option Bytes
  | .success host _ _ _ _ => some host
  | .failure host _ _ _ => some host
  | .directBadMark host _ _ _ => some host
  | .networkChanged => none

-- The time at which what a call stores expires.
def StoreCall.expiry? : StoreCall → Option Int
  | .failure _ _ _ now => some (now.toInt + TP_COOLDOWN_SECONDS.toInt)
  | .directBadMark _ _ _ now => some (now.toInt + TP_DIRECT_BAD_TTL_SECONDS.toInt)
  | _ => none

theorem toInt_add_expiry {now : Int64} (ttl : Int64) (httl : 0 ≤ ttl.toInt)
    (hmax : now.toInt + ttl.toInt ≤ CText.LLONG_MAX) :
    (now + ttl).toInt = now.toInt + ttl.toInt := by
  have hmin := now.le_toInt
  unfold CText.LLONG_MAX at hmax
  rw [Int64.toInt_add]
  apply Int.bmod_eq_of_le <;> omega

-- A time that is not before any of the calls.
def After (calls : List StoreCall) (now : Int) : Prop := ∀ t ∈ calls.filterMap StoreCall.now?, t.toInt ≤ now

theorem after_concat {calls : List StoreCall} {c : StoreCall} {now : Int} :
    After (calls ++ [c]) now ↔ After calls now ∧ ∀ t, c.now? = some t → t.toInt ≤ now := by
  simp only [After, List.filterMap_append, List.mem_append, or_imp, forall_and]
  cases hc : c.now? <;> simp [hc]

-- What a statement about a run of calls asks of its last call.
structure NextCall (calls : List StoreCall) (c : StoreCall) : Prop where
  ordered : ∀ t, c.now? = some t → After calls t.toInt
  host : ∀ host, c.host? = some host → host ≠ [] ∧ host.length < STRATEGY_DOMAIN_MAX
  expiry : ∀ expiry, c.expiry? = some expiry → expiry ≤ CText.LLONG_MAX

section Step

variable {d : TpDecisions} {calls : List StoreCall} {c : StoreCall}

def CooldownInv (calls : List StoreCall) (d : TpDecisions) : Prop :=
  Refines TpCooldown.key (fun c => c.expires.toInt) (After calls) d.cooldown
    (applyOps (calls.filterMap StoreCall.cooldownOp))

def MarksInv (calls : List StoreCall) (d : TpDecisions) : Prop :=
  Refines TpMark.key (fun m => m.expires.toInt) (After calls) d.directBad
    (applyOps (calls.filterMap StoreCall.markOp))

theorem applyOps_concat {κ : Type} [DecidableEq κ] (f : StoreCall → Option (TimedOp κ)) (calls : List StoreCall)
    (c : StoreCall) :
    applyOps ((calls ++ [c]).filterMap f) =
      match f c with
      | some op => op.apply (applyOps (calls.filterMap f))
      | none => applyOps (calls.filterMap f) := by
  rw [List.filterMap_append, applyOps, List.foldl_append]
  cases hop : f c <;> simp [hop, applyOps]

theorem cooldown_step (h : CooldownInv calls d) (hnext : NextCall calls c)
    (hroom : ∀ t, c.now? = some t →
      AtMost TP_COOLDOWN_MAX (Live (applyOps ((calls ++ [c]).filterMap StoreCall.cooldownOp)) t.toInt)) :
    CooldownInv (calls ++ [c]) (c.apply d) := by
  have hlater : ∀ now, After (calls ++ [c]) now → After calls now := fun now hnow => (after_concat.mp hnow).1
  unfold CooldownInv at h ⊢
  rw [applyOps_concat] at hroom ⊢
  cases c with
  | success host fp family now step =>
      change Refines _ _ _ (tpDecisionSuccess d host fp family now step).cooldown _
      rw [(success_tables d host fp family now step).1]
      apply Refines.mono _ hlater
      unfold clearCooldown
      split
      · rename_i hfind
        exact h.absent (cooldownFind_none hfind)
      · rename_i i hfind
        obtain ⟨x, hx, hkey⟩ := cooldownFind_some hfind
        obtain ⟨front, back, htable, -, hset⟩ := Table.split_at hx
        change Refines _ _ _ (d.cooldown.set i _) _
        rw [hset]
        rw [htable] at h
        exact h.free hkey (by simp [TpCooldown.key])
  | failure host fp family now =>
      obtain ⟨hne, hlen⟩ := hnext.host host rfl
      have hexpires := toInt_add_expiry TP_COOLDOWN_SECONDS (by decide) (hnext.expiry _ rfl)
      change Refines _ _ _ (tpDecisionFailure d host fp family now).cooldown _
      rw [(failure_tables d host fp family now).1, if_pos hlen]
      have hsize := d.cooldownSize
      refine refines_slotFor h (List.ne_nil_of_length_pos (by rw [hsize]; decide))
        (fun i => cooldownFind_some) cooldownFind_none ?_ (hnext.ordered now rfl) ?_ (by
          have : (0 : Int) < TP_COOLDOWN_SECONDS.toInt := by decide
          omega) (by simp [TpCooldown.key, hne]) hexpires (by rw [hsize]; exact hroom now rfl)
      · intro x
        by_cases hnil : x.host = [] <;> simp [TpCooldown.key, hnil]
      · intro now' hnow'
        exact ⟨hlater now' hnow', (after_concat.mp hnow').2 now rfl⟩
  | directBadMark host fp family now =>
      change Refines _ _ _ (tpDirectBadMark d host fp family now).cooldown _
      rw [(mark_tables d host fp family now).1]
      exact h.mono hlater
  | networkChanged =>
      refine Table.refines_empty fun x hx => ?_
      rw [List.eq_of_mem_replicate hx]
      rfl

theorem marks_step (h : MarksInv calls d) (hnext : NextCall calls c)
    (hroom : ∀ t, c.now? = some t →
      AtMost TP_DIRECT_BAD_MAX (Live (applyOps ((calls ++ [c]).filterMap StoreCall.markOp)) t.toInt)) :
    MarksInv (calls ++ [c]) (c.apply d) := by
  have hlater : ∀ now, After (calls ++ [c]) now → After calls now := fun now hnow => (after_concat.mp hnow).1
  unfold MarksInv at h ⊢
  rw [applyOps_concat] at hroom ⊢
  cases c with
  | success host fp family now step =>
      change Refines _ _ _ (tpDecisionSuccess d host fp family now step).directBad _
      rw [(success_tables d host fp family now step).2]
      exact h.mono hlater
  | failure host fp family now =>
      change Refines _ _ _ (tpDecisionFailure d host fp family now).directBad _
      rw [(failure_tables d host fp family now).2]
      exact h.mono hlater
  | directBadMark host fp family now =>
      obtain ⟨hne, hlen⟩ := hnext.host host rfl
      have hexpires := toInt_add_expiry TP_DIRECT_BAD_TTL_SECONDS (by decide) (hnext.expiry _ rfl)
      change Refines _ _ _ (tpDirectBadMark d host fp family now).directBad _
      unfold tpDirectBadMark
      rw [StoreCall.markOp] at hroom ⊢
      by_cases hfp : fp = NETFP_UNKNOWN
      · rw [if_pos (.inl hfp), if_pos hfp]
        exact h.mono hlater
      · rw [if_neg (by simp [hfp, hlen]), if_neg hfp]
        rw [if_neg hfp] at hroom
        have hsize := d.directBadSize
        refine refines_slotFor h (List.ne_nil_of_length_pos (by rw [hsize]; decide))
          (fun i => markFind_some) markFind_none ?_ (hnext.ordered now rfl) ?_ (by
            have : (0 : Int) < TP_DIRECT_BAD_TTL_SECONDS.toInt := by decide
            omega) (by simp [TpMark.key, hne]) hexpires (by rw [hsize]; exact hroom now rfl)
        · intro x
          by_cases hnil : x.host = [] <;> simp [TpMark.key, hnil]
        · intro now' hnow'
          exact ⟨hlater now' hnow', (after_concat.mp hnow').2 now rfl⟩
  | networkChanged =>
      refine Table.refines_empty fun x hx => ?_
      rw [List.eq_of_mem_replicate hx]
      rfl

end Step

section Spec

-- The calls that a query about the cooldown of a host looks at.
def StoreCall.affects (host : Bytes) : StoreCall → Bool
  | .success host' _ _ _ _ => ieq host' host
  | .failure host' _ _ _ => ieq host' host
  | .directBadMark _ _ _ _ => false
  | .networkChanged => true

-- The last of these calls is a failure less than TP_COOLDOWN_SECONDS ago.
def InCooldown (calls : List StoreCall) (host : Bytes) (now : Int) : Prop :=
  ∃ host' fp family t, calls.reverse.find? (·.affects host) = some (.failure host' fp family t) ∧
    now < t.toInt + TP_COOLDOWN_SECONDS.toInt

def StoreCall.isChange : StoreCall → Bool
  | .networkChanged => true
  | _ => false

-- The calls since the last network change, the latest first.
def sinceChange (calls : List StoreCall) : List StoreCall := calls.reverse.takeWhile fun c => !c.isChange

def Marked (calls : List StoreCall) (host : Bytes) (fp : UInt64) (family : Int32) (now : Int) : Prop :=
  fp ≠ NETFP_UNKNOWN ∧ ∃ host' t, .directBadMark host' fp family t ∈ sinceChange calls ∧ ieq host' host = true ∧
    now < t.toInt + TP_DIRECT_BAD_TTL_SECONDS.toInt

theorem inCooldown_concat {calls : List StoreCall} {c : StoreCall} {host : Bytes} {now : Int} :
    InCooldown (calls ++ [c]) host now ↔
      if c.affects host then
        ∃ host' fp family t, c = .failure host' fp family t ∧ now < t.toInt + TP_COOLDOWN_SECONDS.toInt
      else InCooldown calls host now := by
  unfold InCooldown
  rw [List.reverse_append, List.reverse_singleton, List.singleton_append, List.find?_cons]
  cases c.affects host <;> simp

theorem sinceChange_concat (calls : List StoreCall) (c : StoreCall) :
    sinceChange (calls ++ [c]) = if c.isChange then [] else c :: sinceChange calls := by
  unfold sinceChange
  rw [List.reverse_append, List.reverse_singleton, List.singleton_append, List.takeWhile_cons]
  cases c.isChange <;> rfl

theorem map_tolower_idem (b : Bytes) : (b.map tolower).map tolower = b.map tolower := by
  have hbyte : ∀ c, tolower (tolower c) = tolower c := forall_byte (by decide +kernel)
  simp [hbyte]

theorem ieq_lower (a b : Bytes) : ieq a (b.map tolower) = ieq a b := by
  rw [Bool.eq_iff_iff, ieq_iff, ieq_iff, map_tolower_idem]

-- A key that a host has.
theorem eq_lower_iff {k host : Bytes} (hk : k.map tolower = k) : k = host.map tolower ↔ ieq host k = true := by
  rw [ieq_iff, hk]
  exact eq_comm

theorem live_cooldown (calls : List StoreCall) (now : Int) (k : Bytes) :
    Live (applyOps (calls.filterMap StoreCall.cooldownOp)) now k ↔ k.map tolower = k ∧ InCooldown calls k now := by
  induction calls using List.reverseRecOn with
  | nil => simp [applyOps, Live, InCooldown]
  | append_singleton calls c ih =>
      rw [applyOps_concat, inCooldown_concat]
      cases c with
      | success host fp family t step =>
          simp only [StoreCall.cooldownOp, Table.live_drop, ih, StoreCall.affects]
          by_cases hk : k.map tolower = k
          · rw [ne_eq, eq_lower_iff hk]
            by_cases hieq : ieq host k = true <;> simp [hk, hieq]
          · simp [hk]
      | failure host fp family t =>
          simp only [StoreCall.cooldownOp, Table.live_put, ih, StoreCall.affects]
          by_cases hk : k.map tolower = k
          · rw [if_congr (eq_lower_iff hk) rfl rfl]
            by_cases hieq : ieq host k = true <;> simp [hk, hieq]
          · have hne : k ≠ host.map tolower := by
              rintro rfl
              exact hk (map_tolower_idem host)
            simp [hk, hne]
      | directBadMark host fp family t => simp [StoreCall.cooldownOp, ih, StoreCall.affects]
      | networkChanged => simp [StoreCall.cooldownOp, StoreCall.affects]

theorem eq_keyOf_iff {k : DecisionKey} {host : Bytes} {fp : UInt64} {family : Int32}
    (hk : k.1.map tolower = k.1) :
    k = keyOf host fp family ↔ ieq host k.1 = true ∧ fp = k.2.1 ∧ family = k.2.2 := by
  obtain ⟨host', fp', family'⟩ := k
  rw [keyOf, Prod.mk.injEq, Prod.mk.injEq, eq_lower_iff hk, eq_comm (a := fp'), eq_comm (a := family')]

-- Of several marks for one key the last one lives longest.
theorem live_marks {calls : List StoreCall} (hordered : (calls.filterMap StoreCall.now?).Pairwise (· ≤ ·))
    (now : Int) (k : DecisionKey) :
    Live (applyOps (calls.filterMap StoreCall.markOp)) now k ↔
      k.1.map tolower = k.1 ∧ Marked calls k.1 k.2.1 k.2.2 now := by
  induction calls using List.reverseRecOn with
  | nil => simp [applyOps, Live, Marked, sinceChange]
  | append_singleton calls c ih =>
      rw [List.filterMap_append, List.pairwise_append] at hordered
      have ih := ih hordered.1
      unfold Marked at ih ⊢
      rw [applyOps_concat, sinceChange_concat]
      cases c with
      | success host fp family t step => simp [StoreCall.markOp, StoreCall.isChange, ih]
      | failure host fp family t => simp [StoreCall.markOp, StoreCall.isChange, ih]
      | networkChanged => simp [StoreCall.markOp, StoreCall.isChange]
      | directBadMark host fp family t =>
          have hearlier : ∀ host' fp' family' t', .directBadMark host' fp' family' t' ∈ sinceChange calls →
              t'.toInt ≤ t.toInt := by
            intro host' fp' family' t' hmem
            have hcall := List.mem_reverse.mp ((List.takeWhile_sublist _).subset hmem)
            have hle := hordered.2.2 t' (List.mem_filterMap.mpr ⟨_, hcall, rfl⟩) t (by simp [StoreCall.now?])
            exact Int64.le_iff_toInt_le.mp hle
          simp only [StoreCall.markOp, StoreCall.isChange, Bool.false_eq_true, if_false, List.mem_cons,
            StoreCall.directBadMark.injEq]
          by_cases hfp : fp = NETFP_UNKNOWN
          · rw [if_pos hfp]
            refine ih.trans (and_congr_right fun _ => and_congr_right fun hknown => ?_)
            constructor
            · rintro ⟨host', t', hmem, hmark⟩
              exact ⟨host', t', .inr hmem, hmark⟩
            · rintro ⟨host', t', ⟨-, hsame, -⟩ | hmem, hmark⟩
              · exact absurd (hsame.trans hfp) hknown
              · exact ⟨host', t', hmem, hmark⟩
          · rw [if_neg hfp]
            dsimp only
            rw [Table.live_put, ih]
            by_cases hk : k.1.map tolower = k.1
            · rw [if_congr (eq_keyOf_iff hk) rfl rfl, and_iff_right hk, and_iff_right hk]
              by_cases hown : ieq host k.1 = true ∧ fp = k.2.1 ∧ family = k.2.2
              · obtain ⟨hieq, rfl, rfl⟩ := hown
                rw [if_pos ⟨hieq, rfl, rfl⟩]
                constructor
                · intro hlive
                  exact ⟨hfp, host, t, .inl ⟨rfl, rfl, rfl, rfl⟩, hieq, hlive⟩
                · rintro ⟨-, host', t', ⟨-, -, -, rfl⟩ | hmem, -, hlive⟩
                  · exact hlive
                  · have := hearlier _ _ _ _ hmem
                    omega
              · rw [if_neg hown]
                refine and_congr_right fun _ => ?_
                constructor
                · rintro ⟨host', t', hmem, hmark⟩
                  exact ⟨host', t', .inr hmem, hmark⟩
                · rintro ⟨host', t', ⟨rfl, hfp', hfamily, rfl⟩ | hmem, hmark⟩
                  · exact absurd ⟨hmark.1, hfp'.symm, hfamily.symm⟩ hown
                  · exact ⟨host', t', hmem, hmark⟩
            · have hne : k ≠ keyOf host fp family := by
                rintro rfl
                exact hk (map_tolower_idem host)
              simp [hk, hne]

end Spec

section Run

variable {d : TpDecisions} {calls : List StoreCall}

theorem inCooldown_iff (h : CooldownInv calls d) {now : Int64} (hnow : After calls now.toInt) (host : Bytes) :
    tpInCooldown d host now = true ↔ InCooldown calls host now.toInt := by
  have hspec : InCooldown calls host now.toInt ↔
      Live (applyOps (calls.filterMap StoreCall.cooldownOp)) now.toInt (host.map tolower) := by
    have hsame : ∀ c : StoreCall, c.affects (host.map tolower) = c.affects host := by
      intro c
      cases c <;> simp [StoreCall.affects, ieq_lower]
    rw [live_cooldown, map_tolower_idem, and_iff_right rfl, InCooldown, InCooldown]
    simp only [hsame]
  rw [hspec, tpInCooldown]
  cases hfind : cooldownFind d host with
  | none =>
      refine iff_of_false Bool.false_ne_true ?_
      rw [← h.held _ _ hnow]
      rintro ⟨c, hc, hkey, -⟩
      exact cooldownFind_none hfind c hc hkey
  | some i =>
      obtain ⟨c, hc, hkey⟩ := cooldownFind_some hfind
      dsimp only
      rw [← h.first hnow hc hkey, List.getD_eq_getElem?_getD, hc, Option.getD_some]
      simp [Int64.lt_iff_toInt_lt]

theorem directBad_iff (h : MarksInv calls d) (hordered : (calls.filterMap StoreCall.now?).Pairwise (· ≤ ·))
    {now : Int64} (hnow : After calls now.toInt) (host : Bytes) (fp : UInt64) (family : Int32) :
    tpDirectBad d host fp family now = true ↔ Marked calls host fp family now.toInt := by
  have hspec : Marked calls host fp family now.toInt ↔
      Live (applyOps (calls.filterMap StoreCall.markOp)) now.toInt (keyOf host fp family) := by
    rw [live_marks hordered, keyOf, map_tolower_idem, and_iff_right rfl, Marked, Marked]
    simp only [ieq_lower]
  rw [hspec, tpDirectBad]
  by_cases hfp : fp = NETFP_UNKNOWN
  · rw [if_pos hfp, ← hspec]
    exact iff_of_false Bool.false_ne_true fun hmark => hmark.1 hfp
  · rw [if_neg hfp]
    cases hfind : markFind d host fp family with
    | none =>
        refine iff_of_false Bool.false_ne_true ?_
        rw [← h.held _ _ hnow]
        rintro ⟨m, hm, hkey, -⟩
        exact markFind_none hfind m hm hkey
    | some i =>
        obtain ⟨m, hm, hkey⟩ := markFind_some hfind
        dsimp only
        rw [← h.first hnow hm hkey, List.getD_eq_getElem?_getD, hm, Option.getD_some]
        simp [Int64.lt_iff_toInt_lt]

-- Hosts, without regard to case, that are in cooldown at one time.
def CoolingAtMost (n : Nat) (calls : List StoreCall) (now : Int) : Prop :=
  ∀ hosts : List Bytes, (hosts.map (·.map tolower)).Nodup → (∀ host ∈ hosts, InCooldown calls host now) →
    hosts.length ≤ n

def MarkedAtMost (n : Nat) (calls : List StoreCall) (now : Int) : Prop :=
  ∀ marks : List DecisionKey, (marks.map fun k => keyOf k.1 k.2.1 k.2.2).Nodup →
    (∀ k ∈ marks, Marked calls k.1 k.2.1 k.2.2 now) → marks.length ≤ n

theorem cooling_keys {n : Nat} {now : Int} (h : CoolingAtMost n calls now) :
    AtMost n (Live (applyOps (calls.filterMap StoreCall.cooldownOp)) now) := by
  intro keys hnodup hlive
  have hspec := fun k hk => (live_cooldown calls now k).mp (hlive k hk)
  apply h keys _ fun k hk => (hspec k hk).2
  rwa [List.map_congr_left fun k hk => (hspec k hk).1, List.map_id']

theorem marked_keys {n : Nat} {now : Int} (hordered : (calls.filterMap StoreCall.now?).Pairwise (· ≤ ·))
    (h : MarkedAtMost n calls now) : AtMost n (Live (applyOps (calls.filterMap StoreCall.markOp)) now) := by
  intro keys hnodup hlive
  have hspec := fun k hk => (live_marks hordered now k).mp (hlive k hk)
  apply h keys _ fun k hk => (hspec k hk).2
  have hsame : ∀ k ∈ keys, keyOf k.1 k.2.1 k.2.2 = k := by
    intro k hk
    rw [keyOf, (hspec k hk).1]
  rwa [List.map_congr_left hsame, List.map_id']

-- The tables of cooldowns and marks are what the calls so far say of each host, as long
-- as there are never more live ones than slots.
theorem tables_refine_calls (calls : List StoreCall)
    (hhosts : ∀ c ∈ calls, ∀ host, c.host? = some host → host ≠ [] ∧ host.length < STRATEGY_DOMAIN_MAX)
    (hordered : (calls.filterMap StoreCall.now?).Pairwise (· ≤ ·))
    (hexpiry : ∀ c ∈ calls, ∀ expiry, c.expiry? = some expiry → expiry ≤ CText.LLONG_MAX)
    (hroom : ∀ es c es' t, calls = es ++ c :: es' → c.now? = some t →
      CoolingAtMost TP_COOLDOWN_MAX (es ++ [c]) t.toInt ∧ MarkedAtMost TP_DIRECT_BAD_MAX (es ++ [c]) t.toInt)
    (now : Int64) (hnow : ∀ t ∈ calls.filterMap StoreCall.now?, t ≤ now) :
    (∀ host, tpInCooldown (calls.foldl StoreCall.apply tpDecisionsInit) host now = true ↔
      InCooldown calls host now.toInt) ∧
    (∀ host fp family, tpDirectBad (calls.foldl StoreCall.apply tpDecisionsInit) host fp family now = true ↔
      Marked calls host fp family now.toInt) := by
  have hrun : CooldownInv calls (calls.foldl StoreCall.apply tpDecisionsInit) ∧
      MarksInv calls (calls.foldl StoreCall.apply tpDecisionsInit) := by
    clear hnow
    induction calls using List.reverseRecOn with
    | nil =>
        have hcooldown : CooldownInv [] tpDecisionsInit := by
          refine Table.refines_empty (m := fun _ => none) fun c hc => ?_
          rw [List.eq_of_mem_replicate hc]
          rfl
        have hmarks : MarksInv [] tpDecisionsInit := by
          refine Table.refines_empty (m := fun _ => none) fun m hm => ?_
          rw [List.eq_of_mem_replicate hm]
          rfl
        exact ⟨hcooldown, hmarks⟩
    | append_singleton calls c ih =>
        have hsplit := hordered
        rw [List.filterMap_append, List.pairwise_append] at hsplit
        obtain ⟨hcooldown, hmarks⟩ := ih (fun x hx => hhosts x (List.mem_append_left _ hx)) hsplit.1
          (fun x hx => hexpiry x (List.mem_append_left _ hx))
          (fun es x es' t h => hroom es x (es' ++ [c]) t (by rw [h]; simp))
        have hc : c ∈ calls ++ [c] := List.mem_append_right _ (List.mem_singleton_self c)
        have hnext : NextCall calls c := by
          refine ⟨?_, hhosts c hc, hexpiry c hc⟩
          intro t ht t' ht'
          exact Int64.le_iff_toInt_le.mp (hsplit.2.2 t' ht' t (by simp [ht]))
        rw [List.foldl_append, List.foldl_cons, List.foldl_nil]
        have hlast := fun t ht => hroom calls c [] t rfl ht
        exact ⟨cooldown_step hcooldown hnext fun t ht => cooling_keys (hlast t ht).1,
          marks_step hmarks hnext fun t ht => marked_keys hordered (hlast t ht).2⟩
  have hafter : After calls now.toInt := fun t ht => Int64.le_iff_toInt_le.mp (hnow t ht)
  exact ⟨inCooldown_iff hrun.1 hafter, directBad_iff hrun.2 hordered hafter⟩

-- A run has no more keys than calls.
theorem length_le_calls {κ : Type} {keys : List κ} (hnodup : keys.Nodup) (key : StoreCall → Option κ)
    (hcall : ∀ k ∈ keys, ∃ c ∈ calls, key c = some k) : keys.length ≤ calls.length := by
  have hsub : keys ⊆ calls.filterMap key := fun k hk => List.mem_filterMap.mpr (hcall k hk)
  exact (List.subperm_of_subset hnodup hsub).length_le.trans (List.length_filterMap_le _ _)

theorem coolingAtMost_calls (calls : List StoreCall) (now : Int) : CoolingAtMost calls.length calls now := by
  intro hosts hnodup hcooling
  rw [← List.length_map]
  apply length_le_calls hnodup fun c => c.host?.map (·.map tolower)
  intro k hk
  obtain ⟨host, hhost, rfl⟩ := List.mem_map.mp hk
  obtain ⟨host', fp, family, t, hfind, -⟩ := hcooling host hhost
  refine ⟨_, List.mem_reverse.mp (List.mem_of_find?_eq_some hfind), ?_⟩
  have haffects := List.find?_some hfind
  exact congrArg some ((ieq_iff _ _).mp haffects)

def StoreCall.markKey : StoreCall → Option DecisionKey
  | .directBadMark host fp family _ => some (keyOf host fp family)
  | _ => none

theorem markedAtMost_calls (calls : List StoreCall) (now : Int) : MarkedAtMost calls.length calls now := by
  intro marks hnodup hmarked
  rw [← List.length_map]
  apply length_le_calls hnodup StoreCall.markKey
  intro key hkey
  obtain ⟨k, hk, rfl⟩ := List.mem_map.mp hkey
  obtain ⟨-, host, t, hmem, hieq, -⟩ := hmarked k hk
  refine ⟨_, List.mem_reverse.mp ((List.takeWhile_sublist _).subset hmem), ?_⟩
  rw [StoreCall.markKey, keyOf, keyOf, (ieq_iff _ _).mp hieq]

def sampleHost : Bytes := ascii ['b', '.', 'o', 'r', 'g']

def sampleCalls : List StoreCall :=
  [.directBadMark sampleHost 7 4 1000, .failure sampleHost 7 4 1000]

theorem tables_refine_calls_sample :
    (tpInCooldown (sampleCalls.foldl StoreCall.apply tpDecisionsInit) sampleHost 1059 = true ↔
      InCooldown sampleCalls sampleHost 1059) ∧
    (tpDirectBad (sampleCalls.foldl StoreCall.apply tpDecisionsInit) sampleHost 7 4 1059 = true ↔
      Marked sampleCalls sampleHost 7 4 1059) := by
  have hall := tables_refine_calls sampleCalls (by simp [sampleCalls, StoreCall.host?]; decide)
    (by simp [sampleCalls, StoreCall.now?]) (by simp [sampleCalls, StoreCall.expiry?]; decide)
    (by
      intro es c es' t h _
      have hlen : (es ++ [c]).length ≤ 2 := by
        have := congrArg List.length h
        simp only [sampleCalls, List.length_cons, List.length_nil, List.length_append] at this ⊢
        omega
      exact ⟨fun hosts hnodup hcooling =>
          (coolingAtMost_calls _ _ hosts hnodup hcooling).trans (hlen.trans (by decide)),
        fun marks hnodup hmarked => (markedAtMost_calls _ _ marks hnodup hmarked).trans (hlen.trans (by decide))⟩)
    1059 (by simp [sampleCalls, StoreCall.now?])
  exact ⟨hall.1 sampleHost, hall.2 sampleHost 7 4⟩

-- An expiry after the last second of an int64_t wraps.
theorem lastSecond_no_cooldown :
    InCooldown [.failure sampleHost 7 4 Int64.maxValue] sampleHost Int64.maxValue.toInt ∧
      tpInCooldown ([StoreCall.failure sampleHost 7 4 Int64.maxValue].foldl StoreCall.apply tpDecisionsInit) sampleHost
        Int64.maxValue = false := by
  refine ⟨⟨sampleHost, 7, 4, Int64.maxValue, rfl, by decide⟩, by decide +kernel⟩

end Run

end DpiProxy.Transparent
