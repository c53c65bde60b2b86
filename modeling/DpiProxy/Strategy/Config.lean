import DpiProxy.Strategy.Chain
import DpiProxy.Table.Keyed
import Mathlib.Data.List.DropRight

namespace DpiProxy

open Wire CText
open Transparent (STRATEGY_DOMAIN_MAX LF textLines strategyFromName)

def EQUALS : UInt8 := 61
def HASH : UInt8 := 35
def SEMICOLON : UInt8 := 59
def BRACKET : UInt8 := 91

-- In front only spaces and tabs are cut, behind also carriage returns.
def trim (s : Bytes) : Bytes :=
  (s.dropWhile fun c => c == 32 || c == 9).rdropWhile fun c => c == 32 || c == 9 || c == 13

-- The key and the value of a line; none is a return of -1.
def parseKv (line : Bytes) : Option (Bytes × Bytes) :=
  if EQUALS ∉ line then none
  else
    let name := line.takeWhile (· ≠ EQUALS)
    let key := trim name
    let value := trim (line.drop (name.length + 1))
    if key = [] ∨ value = [] then none else some (key, value)

-- none is a return of -1.
def setDomainRule (cfg : StrategyConfig) (domain : Bytes) (chain : StrategyChain) : Option StrategyConfig :=
  if cfg.rules.any fun r => ieq r.domain domain then
    some { cfg with
      rules := Table.modifyFirst (fun r => ieq r.domain domain) (fun r => { r with chain := chain }) cfg.rules
      bounded := by rw [Table.length_modifyFirst]; exact cfg.bounded }
  else if h : cfg.rules.length ≥ STRATEGY_MAX_DOMAINS ∨ domain.length ≥ STRATEGY_DOMAIN_MAX then none
  else
    some { cfg with
      rules := cfg.rules ++ [⟨domain, chain⟩]
      bounded := by rw [List.length_append, List.length_singleton]; omega }

def fakeTtlKey : Bytes := ascii ['f', 'a', 'k', 'e', '_', 't', 't', 'l']
def defaultKey : Bytes := ascii ['d', 'e', 'f', 'a', 'u', 'l', 't']
def domainsHeader : Bytes := ascii ['[', 'd', 'o', 'm', 'a', 'i', 'n', 's', ']']

-- What fake_ttl takes from a value. Without a digit strtol leaves its end at the start
-- of the value and returns 0.
def fakeTtlOf (value : Bytes) : Option UInt8 :=
  match scanLong value with
  | none => none
  | some (ttl, rest) => if rest ≠ [] ∨ ttl < 1 ∨ ttl > 255 then none else some (UInt8.ofNat ttl.toNat)

-- 0 for another key, 1 for a fake_ttl that is taken, -1 for one that is not.
def tryParseFakeTtl (cfg : StrategyConfig) (key value : Bytes) : Int × StrategyConfig :=
  if !ieq key fakeTtlKey then (0, cfg)
  else
    match fakeTtlOf value with
    | none => (-1, cfg)
    | some ttl => (1, { cfg with fakeTtl := ttl })

-- The locals of strategy_config_parse between two lines.
structure ConfigParse where
  cfg : StrategyConfig
  inDomains : Bool
  skipped : Nat
deriving DecidableEq, Repr

def ConfigParse.skip (p : ConfigParse) : ConfigParse := { p with skipped := p.skipped + 1 }

-- sizeof(line) in strategy_config_parse.
def CONFIG_LINE_SIZE : Nat := 512

-- A line as the loop sees it: cut to the buffer, ended by a NUL and trimmed.
def configLine (line : Bytes) : Bytes := trim (cstr (line.take (CONFIG_LINE_SIZE - 1)))

-- A key and a value outside of [domains].
def parseTop (p : ConfigParse) (key value : Bytes) : ConfigParse :=
  let ttl := tryParseFakeTtl p.cfg key value
  if ttl.1 = 1 then { p with cfg := ttl.2 }
  else if ttl.1 < 0 then p.skip
  else if ieq key defaultKey then
    match strategyFromName value with
    | some parsed => { p with cfg := { p.cfg with defaultStrategy := parsed } }
    | none => p.skip
  else p.skip

-- A key and a value in [domains].
def parseDomain (p : ConfigParse) (key value : Bytes) : ConfigParse :=
  match chainOf value with
  | none => p.skip
  | some chain =>
      match setDomainRule p.cfg key chain with
      | none => p.skip
      | some cfg => { p with cfg := cfg }

-- One turn of the loop, at a line of the text.
def parseConfigLine (p : ConfigParse) (text : Bytes) : ConfigParse :=
  let line := configLine text
  if line = [] ∨ byte line 0 = HASH ∨ byte line 0 = SEMICOLON then p
  else if byte line 0 = BRACKET then
    let inDomains := ieq line domainsHeader
    ⟨p.cfg, inDomains, if !inDomains then p.skipped + 1 else p.skipped⟩
  else
    match parseKv line with
    | none => p.skip
    | some (key, value) => if !p.inDomains then parseTop p key value else parseDomain p key value

-- The configuration and the lines skipped.
def strategyConfigParse (cfg : StrategyConfig) (text : Bytes) : StrategyConfig × Nat :=
  let p := (textLines text).foldl parseConfigLine ⟨cfg, false, 0⟩
  (p.cfg, p.skipped)

def strategyChainForDomain (cfg : StrategyConfig) (domain : Bytes) : StrategyChain :=
  match strategyHasExplicitRule cfg domain with
  | some chain => chain
  | none => .single cfg.defaultStrategy

def strategyForDomain (cfg : StrategyConfig) (domain : Bytes) : Strategy :=
  (strategyChainForDomain cfg domain).primary

end DpiProxy
