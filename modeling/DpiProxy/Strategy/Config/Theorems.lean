import DpiProxy.Strategy.Config.Settings

namespace DpiProxy

open Wire
open Transparent (STRATEGY_DOMAIN_MAX textLines)

-- The settings of a text and the rules among them, in the order of the lines.
def textSettings (text : Bytes) : List Setting := settings false (textLines text)

def textRules (text : Bytes) : List StrategyRule := (textSettings text).filterMap Setting.rule?

theorem setDomainRule_frame (cfg : StrategyConfig) (domain : Bytes) (chain : StrategyChain) :
    ((setDomainRule cfg domain chain).getD cfg).defaultStrategy = cfg.defaultStrategy ∧
      ((setDomainRule cfg domain chain).getD cfg).fakeTtl = cfg.fakeTtl := by
  unfold setDomainRule
  split
  · exact ⟨rfl, rfl⟩
  · split <;> exact ⟨rfl, rfl⟩

theorem applySettings_default (ss : List Setting) (cfg : StrategyConfig) :
    (ss.foldl applySetting cfg).defaultStrategy =
      (ss.filterMap Setting.default?).getLastD cfg.defaultStrategy := by
  induction ss generalizing cfg with
  | nil => rfl
  | cons s ss ih =>
      rw [List.foldl_cons, ih, List.filterMap_cons]
      cases s with
      | default s => exact List.getLastD_cons.symm
      | fakeTtl ttl => rfl
      | rule r => rw [applySetting, (setDomainRule_frame _ _ _).1]; rfl

theorem applySettings_fakeTtl (ss : List Setting) (cfg : StrategyConfig) :
    (ss.foldl applySetting cfg).fakeTtl = (ss.filterMap Setting.fakeTtl?).getLastD cfg.fakeTtl := by
  induction ss generalizing cfg with
  | nil => rfl
  | cons s ss ih =>
      rw [List.foldl_cons, ih, List.filterMap_cons]
      cases s with
      | default s => rfl
      | fakeTtl ttl => exact List.getLastD_cons.symm
      | rule r => rw [applySetting, (setDomainRule_frame _ _ _).2]; rfl

theorem applySettings_rules {ss : List Setting} (hss : ∀ s ∈ ss, s.Valid) (cfg : StrategyConfig) :
    (ss.foldl applySetting cfg).rules = (ss.filterMap Setting.rule?).foldl putRule cfg.rules := by
  induction ss generalizing cfg with
  | nil => rfl
  | cons s ss ih =>
      rw [List.foldl_cons, ih fun s' hs' => hss s' (List.mem_cons_of_mem _ hs'), List.filterMap_cons]
      cases s with
      | default s => rfl
      | fakeTtl ttl => rfl
      | rule r =>
          have hr : (Setting.rule r).Valid := hss _ List.mem_cons_self
          rw [applySetting, setDomainRule_put cfg hr.1]
          rfl

theorem init_short : ShortDomains strategyConfigInit := fun _ hr => absurd hr List.not_mem_nil

theorem parse_rules (text : Bytes) :
    (strategyConfigParse strategyConfigInit text).1.rules = (textRules text).foldl putRule [] := by
  rw [strategyConfigParse_settings init_short, applySettings_rules (settings_valid _ _)]
  rfl

theorem textRules_valid (text : Bytes) :
    ∀ r ∈ textRules text, r.domain.length < STRATEGY_DOMAIN_MAX ∧ strategyChainIsSafe r.chain = true := by
  intro r hr
  obtain ⟨s, hs, hrule⟩ := List.mem_filterMap.mp hr
  have hvalid := settings_valid _ _ s hs
  cases s with
  | default s => exact absurd hrule (by simp [Setting.rule?])
  | fakeTtl ttl => exact absurd hrule (by simp [Setting.rule?])
  | rule r' => exact Option.some.inj hrule ▸ hvalid

theorem ruleKey_setChain (chain : StrategyChain) (r : StrategyRule) :
    ruleKey (setChain chain r) = ruleKey r := rfl

theorem chain_setChain (chain : StrategyChain) (r : StrategyRule) : (setChain chain r).chain = chain := rfl

theorem parse_keys_nodup (text : Bytes) :
    ((strategyConfigParse strategyConfigInit text).1.rules.map ruleKey).Nodup := by
  rw [parse_rules]
  exact Table.puts_nodup ruleKey_setChain STRATEGY_MAX_DOMAINS (textRules text)

theorem parse_rules_valid (text : Bytes) :
    ∀ r ∈ (strategyConfigParse strategyConfigInit text).1.rules,
      r.domain.length < STRATEGY_DOMAIN_MAX ∧ strategyChainIsSafe r.chain = true := by
  rw [parse_rules]
  exact Table.puts_forall STRATEGY_MAX_DOMAINS (textRules_valid text)
    fun r hr _ hx => ⟨hx.1, (textRules_valid text r hr).2⟩

theorem parse_default (text : Bytes) :
    (strategyConfigParse strategyConfigInit text).1.defaultStrategy =
      ((textSettings text).filterMap Setting.default?).getLastD .pass := by
  rw [strategyConfigParse_settings init_short, applySettings_default]
  rfl

theorem parse_fakeTtl (text : Bytes) : 1 ≤ (strategyConfigParse strategyConfigInit text).1.fakeTtl.toNat := by
  rw [strategyConfigParse_settings init_short, applySettings_fakeTtl, List.getLastD_eq_getLast?]
  cases hlast : ((settings false (textLines text)).filterMap Setting.fakeTtl?).getLast? with
  | none => decide
  | some ttl =>
      obtain ⟨s, hs, httl⟩ := List.mem_filterMap.mp (List.mem_of_getLast? hlast)
      have hvalid := settings_valid _ _ s hs
      cases s with
      | default s => exact absurd httl (by simp [Setting.fakeTtl?])
      | fakeTtl ttl' => exact Option.some.inj httl ▸ hvalid
      | rule r => exact absurd httl (by simp [Setting.fakeTtl?])

-- A lookup by name is one by key.
theorem find?_domain (rules : List StrategyRule) (domain : Bytes) :
    (rules.find? fun r => ieq r.domain domain).map (·.chain) =
      Table.lookup ruleKey StrategyRule.chain rules (domain.map tolower) := by
  have hsame : (fun r : StrategyRule => ieq r.domain domain) =
      fun r => decide (ruleKey r = domain.map tolower) := by
    funext r
    exact ieq_eq_decide r.domain domain
  rw [hsame]
  rfl

theorem strategyConfigParse_wellFormed (text : Bytes) :
    let cfg := (strategyConfigParse strategyConfigInit text).1
    cfg.rules.length ≤ STRATEGY_MAX_DOMAINS ∧
    cfg.rules.Pairwise (fun r r' => ieq r.domain r'.domain = false) ∧
    (∀ r ∈ cfg.rules, r.domain.length < STRATEGY_DOMAIN_MAX ∧ strategyChainIsSafe r.chain = true) ∧
    1 ≤ cfg.fakeTtl.toNat ∧ cfg.fakeTtl.toNat ≤ 255 ∧
    cfg.defaultStrategy = ((textSettings text).filterMap Setting.default?).getLastD .pass ∧
    (((textRules text).map ruleKey).dedup.length ≤ STRATEGY_MAX_DOMAINS →
      ∀ domain, (cfg.rules.find? fun r => ieq r.domain domain).map (·.chain) =
        ((textRules text).reverse.find? fun r => ieq r.domain domain).map (·.chain)) := by
  intro cfg
  refine ⟨cfg.bounded, ?_, parse_rules_valid text, parse_fakeTtl text, ?_, ?_, ?_⟩
  · refine (List.pairwise_map.mp (parse_keys_nodup text)).imp fun hne => ?_
    rw [ieq_eq_decide]
    exact decide_eq_false hne
  · have := cfg.fakeTtl.toNat_lt
    omega
  · exact parse_default text
  · intro hroom domain
    rw [find?_domain, find?_domain, parse_rules]
    exact Table.lookup_puts ruleKey_setChain chain_setChain STRATEGY_MAX_DOMAINS hroom _

end DpiProxy
