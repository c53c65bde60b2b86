import DpiProxy.Machine
import DpiProxy.Strategy.Config
import DpiProxy.Discovery.Ladder
import DpiProxy.Discovery.Cache

namespace DpiProxy.MainPacket

open Wire Discovery

-- sizeof(buf) in load_strategy_config_from_disk.
def CONFIG_BUF_SIZE : Nat := 8192

def loadStrategyConfigFromDisk (file : Option Bytes) : StrategyConfig :=
  match file with
  | none => strategyConfigInit
  | some text => (strategyConfigParse strategyConfigInit (text.take (CONFIG_BUF_SIZE - 1))).1

-- What a run of the program finds: strategy.conf, the network, the time, if the cache file
-- cannot be read, what the n-th call of the prober gives, the buffer and the calls of a save.
structure Setting where
  config : Option Bytes
  fingerprint : UInt64
  now : Int64
  readError : Bool
  prober : Nat → StrategyChain → ProbeResult
  buf : Bytes
  ops : SaveOps

inductive Command where
  | showStrategy (domain : Bytes)
  | probe (domain : Bytes) (force : Bool)
  | status
  | exportProfile
  -- with what is in the file that the path names
  | importProfile (file : Option Bytes)
deriving DecidableEq, Repr

inductive Report where
  | strategy (domain : Bytes) (source : StrategySource) (chain : StrategyChain) (validatedAgo : Option Int64)
  | manual (domain : Bytes) (chain : StrategyChain)
  | cached (domain : Bytes) (chain : StrategyChain) (validatedAgo : Int64)
  | selected (domain : Bytes) (chain : StrategyChain) (saved : Bool)
  | failed (domain : Bytes) (last : ProbeResult)
  | status (overrides : List StrategyRule) (fresh : List (Bytes × StrategyChain × Int64))
  | exported (count : Nat) (text : Bytes)
  | imported (count skipped : Nat)
  | unreadable
  | unsaved
deriving DecidableEq, Repr

namespace Setting

variable (x : Setting) (file : Option Bytes)

def loadDiscoveryCacheFromDisk : DiscoveryCache := (discoveryCacheLoadFile file x.readError).2

def saveDiscoveryCacheToDisk (cache : DiscoveryCache) : Int × Option Bytes :=
  discoveryCacheSaveFile cache x.buf x.ops file

def lookup (cache : DiscoveryCache) (domain : Bytes) : Option DiscoveryCacheEntry :=
  discoveryCacheLookup cache domain x.fingerprint DISCOVERY_CACHE_DEFAULT_TTL_SECONDS x.now

def validatedAgo (e : DiscoveryCacheEntry) : Int64 := x.now - e.validatedAt

-- discovery_run with the calls of the prober counted.
def discover : Option StrategyChain × ProbeResult :=
  let run := discoveryRun (fun n chain => (x.prober n chain, n + 1)) 0
  (run.1, run.2.1)

def cmdShowStrategy (domain : Bytes) : Report :=
  let cfg := loadStrategyConfigFromDisk x.config
  let cache := x.loadDiscoveryCacheFromDisk file
  let resolved := strategyResolveChain cfg cache x.fingerprint x.now domain
  .strategy domain resolved.1 resolved.2.1 (resolved.2.2.map x.validatedAgo)

def cmdProbe (domain : Bytes) (force : Bool) : Option Bytes × Report :=
  let cfg := loadStrategyConfigFromDisk x.config
  match strategyHasExplicitRule cfg domain with
  | some chain => (file, .manual domain chain)
  | none =>
      let cache := x.loadDiscoveryCacheFromDisk file
      match if force then none else x.lookup cache domain with
      | some entry => (file, .cached domain entry.chain (x.validatedAgo entry))
      | none =>
          match x.discover with
          | (none, last) => (file, .failed domain last)
          | (some chain, _) =>
              let cache := (discoveryCacheSet cache domain chain x.fingerprint x.now).2
              let saved := x.saveDiscoveryCacheToDisk file cache
              -- a save that fails is only a warning
              (saved.2, .selected domain chain (decide (0 ≤ saved.1)))

def cmdStatus : Report :=
  let cfg := loadStrategyConfigFromDisk x.config
  let cache := x.loadDiscoveryCacheFromDisk file
  .status cfg.rules (cache.entries.filterMap fun e =>
    (x.lookup cache e.domain).map fun entry => (entry.domain, entry.chain, x.validatedAgo entry))

def cmdExportProfile : Report :=
  let cache := x.loadDiscoveryCacheFromDisk file
  let written := discoveryCacheSerialize cache x.buf
  .exported cache.entries.length (written.2.take written.1)

def cmdImportProfile (profile : Option Bytes) : Option Bytes × Report :=
  match profile with
  | none => (file, .unreadable)
  | some text =>
      let cache := x.loadDiscoveryCacheFromDisk file
      let parsed := discoveryCacheParse cache (text.take (FILE_BUF_SIZE - 1))
      let saved := x.saveDiscoveryCacheToDisk file parsed.1
      (saved.2, if saved.1 < 0 then .unsaved else .imported parsed.1.entries.length parsed.2)

end Setting

-- One run of the program: the cache file that it leaves, and what it prints.
def step (file : Option Bytes) (run : Command × Setting) : Option Bytes × Option Report :=
  match run.1 with
  | .showStrategy domain => (file, some (run.2.cmdShowStrategy file domain))
  | .probe domain force =>
      let done := run.2.cmdProbe file domain force
      (done.1, some done.2)
  | .status => (file, some (run.2.cmdStatus file))
  | .exportProfile => (file, some (run.2.cmdExportProfile file))
  | .importProfile profile =>
      let done := run.2.cmdImportProfile file profile
      (done.1, some done.2)

-- The cached strategies that a report is about: the domain, the chain and its age.
def Report.cachedStrategies : Report → List (Bytes × StrategyChain × Int64)
  | .strategy domain .auto chain (some ago) => [(domain, chain, ago)]
  | .cached domain chain ago => [(domain, chain, ago)]
  | .status _ fresh => fresh
  | _ => []

end DpiProxy.MainPacket
