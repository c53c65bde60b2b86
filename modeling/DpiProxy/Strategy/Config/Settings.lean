import DpiProxy.Strategy.Config
import DpiProxy.Strategy.Chain.Theorems

namespace DpiProxy

open Wire
open Transparent (STRATEGY_DOMAIN_MAX textLines strategyFromName)

-- What a line can set.
inductive Setting where
  | default (s : Strategy)
  | fakeTtl (ttl : UInt8)
  | rule (r : StrategyRule)
deriving DecidableEq, Repr

def Setting.default? : Setting → Option Strategy
  | .default s => some s
  | _ => none

def Setting.fakeTtl? : Setting → Option UInt8
  | .fakeTtl ttl => some ttl
  | _ => none

def Setting.rule? : Setting → Option StrategyRule
  | .rule r => some r
  | _ => none

-- Empty, a comment or a section header.
def NoSetting (line : Bytes) : Prop :=
  line = [] ∨ byte line 0 = HASH ∨ byte line 0 = SEMICOLON ∨ byte line 0 = BRACKET

instance (line : Bytes) : Decidable (NoSetting line) := by unfold NoSetting; infer_instance

def topSetting (key value : Bytes) : Option Setting :=
  if ieq key fakeTtlKey then (fakeTtlOf value).map .fakeTtl
  else if ieq key defaultKey then (strategyFromName value).map .default
  else none

def domainSetting (key value : Bytes) : Option Setting :=
  if key.length < STRATEGY_DOMAIN_MAX then (chainOf value).map fun chain => .rule ⟨key, chain⟩ else none

-- The setting a trimmed line stands for in its section.
def lineSetting (inDomains : Bool) (line : Bytes) : Option Setting :=
  if NoSetting line then none
  else (parseKv line).bind fun kv => if inDomains then domainSetting kv.1 kv.2 else topSetting kv.1 kv.2

-- The section behind a trimmed line.
def nextSection (inDomains : Bool) (line : Bytes) : Bool :=
  if byte line 0 = BRACKET then ieq line domainsHeader else inDomains

def settings : Bool → List Bytes → List Setting
  | _, [] => []
  | inDomains, text :: lines =>
      (lineSetting inDomains (configLine text)).toList ++
        settings (nextSection inDomains (configLine text)) lines

def sectionAfter (inDomains : Bool) (lines : List Bytes) : Bool :=
  lines.foldl (fun b text => nextSection b (configLine text)) inDomains

def applySetting (cfg : StrategyConfig) : Setting → StrategyConfig
  | .default s => { cfg with defaultStrategy := s }
  | .fakeTtl ttl => { cfg with fakeTtl := ttl }
  | .rule r => (setDomainRule cfg r.domain r.chain).getD cfg

theorem settings_append (inDomains : Bool) (front back : List Bytes) :
    settings inDomains (front ++ back) =
      settings inDomains front ++ settings (sectionAfter inDomains front) back := by
  induction front generalizing inDomains with
  | nil => rfl
  | cons text front ih => rw [List.cons_append, settings, settings, ih, List.append_assoc]; rfl

-- The key of a rule is its domain in lower case.
def ruleKey (r : StrategyRule) : Bytes := r.domain.map tolower

def setChain (chain : StrategyChain) (r : StrategyRule) : StrategyRule := { r with chain := chain }

def putRule (rules : List StrategyRule) (r : StrategyRule) : List StrategyRule :=
  Table.put ruleKey StrategyRule.chain setChain STRATEGY_MAX_DOMAINS rules r

theorem ieq_eq_decide (a b : Bytes) : ieq a b = decide (a.map tolower = b.map tolower) := by
  rw [Bool.eq_iff_iff, ieq_iff, decide_eq_true_iff]

theorem setDomainRule_put (cfg : StrategyConfig) {r : StrategyRule}
    (hlen : r.domain.length < STRATEGY_DOMAIN_MAX) :
    ((setDomainRule cfg r.domain r.chain).getD cfg).rules = putRule cfg.rules r := by
  have hany : (cfg.rules.any fun x => ieq x.domain r.domain) = true ↔ ruleKey r ∈ cfg.rules.map ruleKey := by
    simp [ieq_iff, ruleKey]
  unfold setDomainRule putRule Table.put
  by_cases hmem : ruleKey r ∈ cfg.rules.map ruleKey
  · have hsame : (fun x : StrategyRule => ieq x.domain r.domain) =
        fun x => decide (ruleKey x = ruleKey r) := by
      funext x
      exact ieq_eq_decide x.domain r.domain
    rw [if_pos (hany.mpr hmem), if_pos hmem, ← hsame]
    rfl
  · rw [if_neg fun h => hmem (hany.mp h), if_neg hmem]
    by_cases hroom : cfg.rules.length < STRATEGY_MAX_DOMAINS
    · rw [dif_neg (by omega), if_pos hroom]
      rfl
    · rw [dif_pos (by omega), if_neg hroom]
      rfl

-- A domain that does not fit matches no rule, as the rules are, and is not added.
theorem setDomainRule_long {cfg : StrategyConfig}
    (hrules : ∀ r ∈ cfg.rules, r.domain.length < STRATEGY_DOMAIN_MAX) {domain : Bytes}
    (hlen : STRATEGY_DOMAIN_MAX ≤ domain.length) (chain : StrategyChain) :
    setDomainRule cfg domain chain = none := by
  have hany : ¬ (cfg.rules.any fun x => ieq x.domain domain) = true := by
    intro h
    obtain ⟨r, hr, hieq⟩ := List.any_eq_true.mp h
    have hsame := congrArg List.length ((ieq_iff _ _).mp hieq)
    rw [List.length_map, List.length_map] at hsame
    have := hrules r hr
    omega
  rw [setDomainRule, if_neg hany, dif_pos (.inr hlen)]

def ShortDomains (cfg : StrategyConfig) : Prop := ∀ r ∈ cfg.rules, r.domain.length < STRATEGY_DOMAIN_MAX

-- What the parser guarantees of one setting.
def Setting.Valid : Setting → Prop
  | .default _ => True
  | .fakeTtl ttl => 1 ≤ ttl.toNat
  | .rule r => r.domain.length < STRATEGY_DOMAIN_MAX ∧ strategyChainIsSafe r.chain = true

theorem fakeTtlOf_pos {value : Bytes} {ttl : UInt8} (h : fakeTtlOf value = some ttl) : 1 ≤ ttl.toNat := by
  unfold fakeTtlOf at h
  split at h
  · exact absurd h (by simp)
  · rename_i n rest hscan
    split_ifs at h with hrange
    obtain rfl := Option.some.inj h
    rw [UInt8.toNat_ofNat']
    omega

theorem topSetting_valid {key value : Bytes} {s : Setting} (h : topSetting key value = some s) : s.Valid := by
  unfold topSetting at h
  split_ifs at h
  · obtain ⟨ttl, httl, rfl⟩ := Option.map_eq_some_iff.mp h
    exact fakeTtlOf_pos httl
  · obtain ⟨s, -, rfl⟩ := Option.map_eq_some_iff.mp h
    trivial

theorem domainSetting_valid {key value : Bytes} {s : Setting} (h : domainSetting key value = some s) :
    s.Valid := by
  unfold domainSetting at h
  split_ifs at h with hlen
  obtain ⟨chain, hchain, rfl⟩ := Option.map_eq_some_iff.mp h
  exact ⟨hlen, (chainOf_some hchain).2.1⟩

theorem lineSetting_valid {inDomains : Bool} {line : Bytes} {s : Setting}
    (h : lineSetting inDomains line = some s) : s.Valid := by
  unfold lineSetting at h
  by_cases hno : NoSetting line
  · rw [if_pos hno] at h
    exact absurd h (by simp)
  · rw [if_neg hno] at h
    obtain ⟨kv, -, hkv⟩ := Option.bind_eq_some_iff.mp h
    cases inDomains with
    | false => exact topSetting_valid hkv
    | true => exact domainSetting_valid hkv

theorem settings_valid (inDomains : Bool) (lines : List Bytes) : ∀ s ∈ settings inDomains lines, s.Valid := by
  induction lines generalizing inDomains with
  | nil => exact fun s hs => absurd hs List.not_mem_nil
  | cons text lines ih =>
      intro s hs
      rcases List.mem_append.mp hs with hs | hs
      · exact lineSetting_valid (Option.mem_toList.mp hs)
      · exact ih _ s hs

theorem applySetting_short {cfg : StrategyConfig} (hcfg : ShortDomains cfg) {s : Setting} (hs : s.Valid) :
    ShortDomains (applySetting cfg s) := by
  cases s with
  | default s => exact hcfg
  | fakeTtl ttl => exact hcfg
  | rule r =>
      intro x hx
      rw [applySetting, setDomainRule_put cfg hs.1] at hx
      rcases Table.mem_put hx with hx | rfl | ⟨y, hy, rfl⟩
      · exact hcfg x hx
      · exact hs.1
      · exact hcfg y hy

theorem parseTop_cfg (p : ConfigParse) (key value : Bytes) :
    (parseTop p key value).cfg = (topSetting key value).toList.foldl applySetting p.cfg ∧
      (parseTop p key value).inDomains = p.inDomains := by
  unfold parseTop tryParseFakeTtl topSetting
  by_cases httl : ieq key fakeTtlKey = true
  · simp only [httl, Bool.not_true, Bool.false_eq_true, if_false, if_true]
    cases fakeTtlOf value <;> exact ⟨rfl, rfl⟩
  · simp only [httl, Bool.not_false, if_true]
    by_cases hdefault : ieq key defaultKey = true
    · simp only [hdefault, if_true]
      cases strategyFromName value <;> exact ⟨rfl, rfl⟩
    · simp only [hdefault]
      exact ⟨rfl, rfl⟩

theorem parseDomain_cfg {p : ConfigParse} (hp : ShortDomains p.cfg) (key value : Bytes) :
    (parseDomain p key value).cfg = (domainSetting key value).toList.foldl applySetting p.cfg ∧
      (parseDomain p key value).inDomains = p.inDomains := by
  unfold parseDomain domainSetting
  cases chainOf value with
  | none =>
      rw [Option.map_none, ite_self]
      exact ⟨rfl, rfl⟩
  | some chain =>
      by_cases hlen : key.length < STRATEGY_DOMAIN_MAX
      · simp only [hlen, if_true, Option.map_some, Option.toList_some, List.foldl_cons, List.foldl_nil,
          applySetting]
        cases setDomainRule p.cfg key chain <;> exact ⟨rfl, rfl⟩
      · simp only [hlen, setDomainRule_long hp (Nat.le_of_not_lt hlen)]
        exact ⟨rfl, rfl⟩

-- A turn of the loop sets what its line stands for, and nothing else.
theorem parseConfigLine_step {p : ConfigParse} (hp : ShortDomains p.cfg) (text : Bytes) :
    (parseConfigLine p text).cfg =
        (lineSetting p.inDomains (configLine text)).toList.foldl applySetting p.cfg ∧
      (parseConfigLine p text).inDomains = nextSection p.inDomains (configLine text) := by
  unfold parseConfigLine nextSection
  generalize configLine text = line
  dsimp only
  by_cases hbracket : byte line 0 = BRACKET
  · have hplain : ¬ (line = [] ∨ byte line 0 = HASH ∨ byte line 0 = SEMICOLON) := by
      rintro (rfl | h | h)
      · exact absurd hbracket (by decide)
      · exact absurd (hbracket.symm.trans h) (by decide)
      · exact absurd (hbracket.symm.trans h) (by decide)
    have hno : NoSetting line := .inr (.inr (.inr hbracket))
    rw [if_neg hplain, if_pos hbracket, if_pos hbracket, lineSetting, if_pos hno]
    exact ⟨rfl, rfl⟩
  rw [if_neg hbracket, if_neg hbracket]
  by_cases hplain : line = [] ∨ byte line 0 = HASH ∨ byte line 0 = SEMICOLON
  · have hno : NoSetting line := by
      unfold NoSetting
      tauto
    rw [if_pos hplain, lineSetting, if_pos hno]
    exact ⟨rfl, rfl⟩
  have hno : ¬ NoSetting line := by
    unfold NoSetting
    tauto
  rw [if_neg hplain, lineSetting, if_neg hno]
  cases parseKv line with
  | none => exact ⟨rfl, rfl⟩
  | some kv =>
      obtain ⟨key, value⟩ := kv
      rw [Option.bind_some]
      cases hsection : p.inDomains with
      | false =>
          have hstep := parseTop_cfg p key value
          rwa [hsection] at hstep
      | true =>
          have hstep := parseDomain_cfg hp key value
          rwa [hsection] at hstep

theorem applySettings_short {cfg : StrategyConfig} (hcfg : ShortDomains cfg) {ss : List Setting}
    (hss : ∀ s ∈ ss, s.Valid) : ShortDomains (ss.foldl applySetting cfg) := by
  induction ss generalizing cfg with
  | nil => exact hcfg
  | cons s ss ih =>
      exact ih (applySetting_short hcfg (hss s List.mem_cons_self))
        fun s' hs' => hss s' (List.mem_cons_of_mem _ hs')

-- The loop over the lines applies their settings in order.
theorem parseConfigLines_eq (lines : List Bytes) {p : ConfigParse} (hp : ShortDomains p.cfg) :
    (lines.foldl parseConfigLine p).cfg = (settings p.inDomains lines).foldl applySetting p.cfg ∧
      (lines.foldl parseConfigLine p).inDomains = sectionAfter p.inDomains lines := by
  induction lines generalizing p with
  | nil => exact ⟨rfl, rfl⟩
  | cons text lines ih =>
      obtain ⟨hcfg, hsection⟩ := parseConfigLine_step hp text
      have hshort : ShortDomains (parseConfigLine p text).cfg := by
        rw [hcfg]
        exact applySettings_short hp fun s hs => lineSetting_valid (Option.mem_toList.mp hs)
      obtain ⟨hrest, hafter⟩ := ih hshort
      rw [List.foldl_cons, hrest, hafter, hcfg, hsection, settings, List.foldl_append]
      exact ⟨rfl, rfl⟩

theorem strategyConfigParse_settings {cfg : StrategyConfig} (hcfg : ShortDomains cfg) (text : Bytes) :
    (strategyConfigParse cfg text).1 = (settings false (textLines text)).foldl applySetting cfg :=
  (parseConfigLines_eq (textLines text) (p := ⟨cfg, false, 0⟩) hcfg).1

end DpiProxy
