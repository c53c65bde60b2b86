import DpiProxy.Strategy.Config

namespace DpiProxy.Discovery

open Wire CText
open Transparent (STRATEGY_DOMAIN_MAX LF textLines)

-- 0 or -1, and the cache after the call.
def discoveryCacheSet (cache : DiscoveryCache) (domain : Bytes) (chain : StrategyChain) (fingerprint : UInt64)
    (now : Int64) : Int × DiscoveryCache :=
  if cache.entries.any fun e => ieq e.domain domain then
    (0, {
      entries := Table.modifyFirst (fun e => ieq e.domain domain)
        (fun e => { e with chain := chain, fingerprint := fingerprint, validatedAt := now }) cache.entries
      bounded := by rw [Table.length_modifyFirst]; exact cache.bounded })
  else if h : cache.entries.length ≥ DISCOVERY_CACHE_MAX ∨ domain.length ≥ STRATEGY_DOMAIN_MAX then (-1, cache)
  else
    (0, {
      entries := cache.entries ++ [⟨domain, chain, fingerprint, now⟩]
      bounded := by rw [List.length_append, List.length_singleton]; omega })

-- The arguments of a call of discovery_cache_set.
structure SetCall where
  domain : Bytes
  chain : StrategyChain
  fingerprint : UInt64
  now : Int64
deriving DecidableEq, Repr

def SetCall.run (cache : DiscoveryCache) (c : SetCall) : Int × DiscoveryCache :=
  discoveryCacheSet cache c.domain c.chain c.fingerprint c.now

def SetCall.apply (cache : DiscoveryCache) (c : SetCall) : DiscoveryCache := (c.run cache).2

def sets (calls : List SetCall) : DiscoveryCache := calls.foldl SetCall.apply discoveryCacheInit

-- snprintf(out + pos, out_size - pos, text): what fits of the text, and a NUL. Without
-- room nothing is written.
def snprintf (out : Bytes) (pos : Nat) (text : Bytes) : Bytes :=
  if pos < out.length then
    let kept := text.take (out.length - pos - 1)
    out.take pos ++ (kept ++ 0 :: out.drop (pos + kept.length + 1))
  else out

-- sizeof(chain_desc) in discovery_cache_serialize.
def CHAIN_DESC_SIZE : Nat := 64

-- What the buffer held before does not show in its string.
def chainDesc (chain : StrategyChain) : Bytes :=
  cstr (strategyChainDescribe chain (List.replicate CHAIN_DESC_SIZE 0))

def entryLine (e : DiscoveryCacheEntry) : Bytes :=
  e.domain ++ 32 :: (printHex16 e.fingerprint ++ 32 :: (printInt e.validatedAt.toInt ++ 32 ::
    (chainDesc e.chain ++ [LF])))

-- One turn of the loop: the buffer and `pos`, which counts what did not fit, too.
def serializeTurn (acc : Bytes × Nat) (e : DiscoveryCacheEntry) : Bytes × Nat :=
  (snprintf acc.1 acc.2 (entryLine e), acc.2 + (entryLine e).length)

-- `out` is the caller's buffer as the call finds it, out_size its length.
def discoveryCacheSerialize (cache : DiscoveryCache) (out : Bytes) : Nat × Bytes :=
  let written := cache.entries.foldl serializeTurn (out, 0)
  (if written.2 ≥ out.length then 0 else written.2, written.1)

-- Here only the end is trimmed.
def trim (s : Bytes) : Bytes := s.rdropWhile fun c => c == 32 || c == 9 || c == 13 || c == LF

-- sizeof(line) in discovery_cache_parse.
def LINE_SIZE : Nat := 512

-- A line as the loop sees it: cut to the buffer, ended by a NUL and trimmed.
def cacheLine (line : Bytes) : Bytes := trim (cstr (line.take (LINE_SIZE - 1)))

-- The four fields of a line; none when sscanf does not convert all of them.
def scanFields (line : Bytes) : Option (Bytes × Bytes × Bytes × Bytes) := do
  let (domain, line) ← scanString 255 line
  let (fpHex, line) ← scanString 31 line
  let (tsDec, line) ← scanString 31 line
  let (chainStr, _) ← scanString 63 line
  some (domain, fpHex, tsDec, chainStr)

-- The call that a line asks for; none is a line that is skipped before the call.
def lineCall (line : Bytes) : Option SetCall := do
  let (domain, fpHex, tsDec, chainStr) ← scanFields line
  let (fp, _) ← scanHex fpHex
  let (ts, _) ← scanInt64 tsDec
  let chain ← chainOf chainStr
  some ⟨domain, chain, fp, ts⟩

-- One turn of the loop: the cache and the lines skipped so far.
def parseTurn (acc : DiscoveryCache × Nat) (text : Bytes) : DiscoveryCache × Nat :=
  let line := cacheLine text
  if line = [] ∨ byte line 0 = HASH ∨ byte line 0 = SEMICOLON then acc
  else
    match lineCall line with
    | none => (acc.1, acc.2 + 1)
    | some c => ((c.run acc.1).2, if (c.run acc.1).1 < 0 then acc.2 + 1 else acc.2)

def discoveryCacheParse (cache : DiscoveryCache) (text : Bytes) : DiscoveryCache × Nat :=
  (textLines text).foldl parseTurn (cache, 0)

-- sizeof(buf) in discovery_cache_load_file and discovery_cache_save_file.
def FILE_BUF_SIZE : Nat := 16384

-- `file` is what is on the disk, none where there is no file. A cache that was there
-- before the call is gone.
def discoveryCacheLoadFile (file : Option Bytes) (readError : Bool) : Int × DiscoveryCache :=
  match file with
  | none => (0, discoveryCacheInit)
  | some text =>
      if readError then (-1, discoveryCacheInit)
      else (0, (discoveryCacheParse discoveryCacheInit (text.take (FILE_BUF_SIZE - 1))).1)

-- How the calls of a save end: `room` is how much fwrite gets to the file.
structure SaveOps where
  opens : Bool
  room : Nat
  closes : Bool
deriving DecidableEq, Repr

-- `buf` is the buffer as the call finds it. The file after the call comes second.
def discoveryCacheSaveFile (cache : DiscoveryCache) (buf : Bytes) (ops : SaveOps) (file : Option Bytes) :
    Int × Option Bytes :=
  let serialized := discoveryCacheSerialize cache buf
  if serialized.1 = 0 ∧ cache.entries.length > 0 then (-1, file)
  else if !ops.opens then (-1, file)
  else if ops.room < serialized.1 then (-1, some (serialized.2.take ops.room))
  else (if ops.closes then 0 else -1, some (serialized.2.take serialized.1))

end DpiProxy.Discovery
