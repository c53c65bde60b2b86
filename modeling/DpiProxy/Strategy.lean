import DpiProxy.Wire.Bytes
import Mathlib.Data.List.TakeWhile

namespace DpiProxy

open Wire

-- A char buffer read as a C string.
def cstr (b : Bytes) : Bytes := b.takeWhile (· ≠ 0)

theorem cstr_eq_self {b : Bytes} (h : (0 : UInt8) ∉ b) : cstr b = b := by
  rw [cstr, List.takeWhile_eq_self_iff]
  intro c hc
  exact decide_eq_true fun hzero => h (hzero ▸ hc)

theorem nul_notMem_cstr (b : Bytes) : (0 : UInt8) ∉ cstr b := by
  intro h
  exact absurd (List.mem_takeWhile_imp h) (by decide)

theorem cstr_append {b : Bytes} (h : (0 : UInt8) ∉ b) (rest : Bytes) : cstr (b ++ rest) = b ++ cstr rest := by
  rw [cstr, List.takeWhile_append_of_pos]
  · rfl
  · intro c hc
    exact decide_eq_true fun hzero => h (hzero ▸ hc)

def ascii (s : List Char) : Bytes := s.map fun c => UInt8.ofNat c.toNat

def tolower (c : UInt8) : UInt8 := if 65 ≤ c ∧ c ≤ 90 then c + 32 else c

-- No byte below the letters comes from another byte.
theorem tolower_eq_iff (c : UInt8) {d : UInt8} (hd : d < 65) : tolower c = d ↔ c = d := by
  unfold tolower
  split
  · rename_i hupper
    simp only [UInt8.le_iff_toNat_le, UInt8.lt_iff_toNat_lt, UInt8.reduceToNat] at hupper hd
    simp only [← UInt8.toNat_inj, UInt8.toNat_add, UInt8.reduceToNat]
    omega
  · rfl

def ieq : Bytes → Bytes → Bool
  | [], [] => true
  | a :: as, b :: bs => if tolower a ≠ tolower b then false else ieq as bs
  | _, _ => false

theorem ieq_iff (a b : Bytes) : ieq a b = true ↔ a.map tolower = b.map tolower := by
  induction a generalizing b with
  | nil => cases b <;> simp [ieq]
  | cons x a ih =>
      cases b with
      | nil => simp [ieq]
      | cons y b =>
          rw [ieq, List.map_cons, List.map_cons, List.cons.injEq]
          by_cases hxy : tolower x = tolower y
          · rw [if_neg (not_not.mpr hxy), ih b, and_iff_right hxy]
          · rw [if_pos hxy]
            exact iff_of_false Bool.false_ne_true fun h => hxy h.1

def DOT : UInt8 := 46

def suffixMatch (domain suffix : Bytes) : Bool :=
  if suffix.length = 0 ∨ byte suffix 0 ≠ DOT ∨ suffix.length > domain.length + 1 then false
  else if suffix.length = domain.length + 1 then ieq domain (suffix.drop 1)
  else ieq (domain.drop (domain.length - suffix.length)) suffix

inductive Strategy where
  | pass
  | split
  | disorder
  | fake
  | fragment
  | tlsrec
  | tlsrecSplit
deriving DecidableEq, Repr

def STRATEGY_MAX_DOMAINS : Nat := 256
def STRATEGY_CHAIN_MAX : Nat := 2
def STRATEGY_DEFAULT_FAKE_TTL : UInt8 := 8

-- actions[0 .. action_count) of t_strategy_chain.
structure StrategyChain where
  actions : List Strategy
  bounded : actions.length ≤ STRATEGY_CHAIN_MAX
deriving DecidableEq, Repr

-- A chain of zeroed memory has no action; its actions[0] reads as PASS.
def StrategyChain.primary (chain : StrategyChain) : Strategy := chain.actions.headD .pass

def StrategyChain.zero : StrategyChain := ⟨[], by decide⟩

def StrategyChain.single (s : Strategy) : StrategyChain := ⟨[s], by simp [STRATEGY_CHAIN_MAX]⟩

structure StrategyRule where
  domain : Bytes
  chain : StrategyChain
deriving DecidableEq, Repr

structure StrategyConfig where
  defaultStrategy : Strategy
  rules : List StrategyRule
  fakeTtl : UInt8
  bounded : rules.length ≤ STRATEGY_MAX_DOMAINS
deriving DecidableEq, Repr

def strategyConfigInit : StrategyConfig where
  defaultStrategy := .pass
  rules := []
  fakeTtl := STRATEGY_DEFAULT_FAKE_TTL
  bounded := by decide

-- Exact rules first, then suffix rules, each in config order.
def strategyHasExplicitRule (cfg : StrategyConfig) (domain : Bytes) : Option StrategyChain :=
  match cfg.rules.find? (fun r => byte r.domain 0 != DOT && ieq r.domain domain) with
  | some r => some r.chain
  | none =>
      (cfg.rules.find? fun r => byte r.domain 0 == DOT && suffixMatch domain r.domain).map (·.chain)

abbrev NETFP_UNKNOWN : UInt64 := 0

def DISCOVERY_CACHE_MAX : Nat := 256
def DISCOVERY_CACHE_DEFAULT_TTL_SECONDS : Int64 := 24 * 3600

structure DiscoveryCacheEntry where
  domain : Bytes
  chain : StrategyChain
  fingerprint : UInt64
  validatedAt : Int64
deriving DecidableEq, Repr

structure DiscoveryCache where
  entries : List DiscoveryCacheEntry
  bounded : entries.length ≤ DISCOVERY_CACHE_MAX
deriving DecidableEq, Repr

def discoveryCacheInit : DiscoveryCache := ⟨[], by decide⟩

-- The first entry for the domain decides; a later one is not looked at.
def discoveryCacheLookup (cache : DiscoveryCache) (domain : Bytes) (currentFingerprint : UInt64)
    (ttlSeconds now : Int64) : Option DiscoveryCacheEntry :=
  if currentFingerprint = NETFP_UNKNOWN then none
  else
    match cache.entries.find? (fun e => ieq e.domain domain) with
    | none => none
    | some e =>
        if e.fingerprint ≠ currentFingerprint then none
        -- A time far in the past makes the difference wrap.
        else if now - e.validatedAt > ttlSeconds then none
        -- The clock went backwards.
        else if now < e.validatedAt then none
        else some e

inductive StrategySource where
  | manual
  | auto
  | default
deriving DecidableEq, Repr

def strategyResolveChain (cfg : StrategyConfig) (cache : DiscoveryCache) (fingerprint : UInt64)
    (now : Int64) (domain : Bytes) : StrategySource × StrategyChain × Option DiscoveryCacheEntry :=
  match strategyHasExplicitRule cfg domain with
  | some chain => (.manual, chain, none)
  | none =>
      match discoveryCacheLookup cache domain fingerprint DISCOVERY_CACHE_DEFAULT_TTL_SECONDS now with
      | some entry => (.auto, entry.chain, some entry)
      | none => (.default, .single cfg.defaultStrategy, none)

end DpiProxy
