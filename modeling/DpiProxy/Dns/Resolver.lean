import DpiProxy.Dns.Message
import DpiProxy.Table

namespace DpiProxy.Dns

open Wire

def DNS_MAX_SERVERS : Nat := 12
def DNS_CACHE_SIZE : Nat := 256
def DNS_SERVER_FAIL_LIMIT : UInt32 := 3
def DNS_SERVER_BACKOFF_SECONDS : Int := 60

structure ServerHealth where
  consecutiveFailures : UInt32
  skipUntil : Int
  queries : UInt64
  failures : UInt64
deriving DecidableEq, Repr

-- An empty slot has the empty name.
structure CacheEntry where
  name : Bytes
  qtype : UInt16
  status : DnsStatus
  answer : DnsAnswer
  expiresAt : Int
  lastUsed : Int
deriving DecidableEq, Repr

def CacheEntry.zero : CacheEntry := ⟨[], 0, .ok, ⟨[], 0⟩, 0, 0⟩

-- health is health[0 .. server_count) of the source.
structure Resolver where
  health : List ServerHealth
  cache : List CacheEntry
  nextId : UInt16
  cacheHits : UInt64
  cacheMisses : UInt64
  servers_le : health.length ≤ DNS_MAX_SERVERS
  cache_size : cache.length = DNS_CACHE_SIZE

-- One round trip: none is a local error, and no bytes are a timeout.
abbrev Transport := Nat → Bytes → Option Bytes

def dnsResolverInit (serverCount : Nat) (idSeed : UInt16) : Resolver where
  health := List.replicate (min serverCount DNS_MAX_SERVERS) ⟨0, 0, 0, 0⟩
  cache := List.replicate DNS_CACHE_SIZE .zero
  nextId := idSeed
  cacheHits := 0
  cacheMisses := 0
  servers_le := by
    rw [List.length_replicate]
    exact Nat.min_le_right _ _
  cache_size := List.length_replicate

def dnsResolverHealthy (r : Resolver) (now : Int) : Bool :=
  r.health.any fun h => decide (h.skipUntil ≤ now)

def Resolver.setCache (r : Resolver) (i : Nat) (e : CacheEntry) : Resolver :=
  { r with
    cache := r.cache.set i e
    cache_size := by rw [List.length_set, r.cache_size] }

def Resolver.entry (r : Resolver) (i : Nat) : CacheEntry := r.cache.getD i .zero

def cacheFind (r : Resolver) (name : Bytes) (qtype : UInt16) : Option Nat :=
  r.cache.findIdx? fun e => e.name ≠ [] && e.qtype = qtype && ieq e.name name

-- The slot for an answer: that of the name, an empty or expired one, or the one
-- used longest ago.
def storeSlot (r : Resolver) (name : Bytes) (qtype : UInt16) (now : Int) : Nat :=
  match cacheFind r name qtype with
  | some i => i
  | none =>
      match r.cache.findIdx? fun e => e.name = [] || decide (e.expiresAt ≤ now) with
      | some i => i
      | none => Table.minIndex CacheEntry.lastUsed r.cache

def clampTtl (status : DnsStatus) (answer : DnsAnswer) : UInt32 :=
  let ttl := if status = .ok then answer.ttl else DNS_NEGATIVE_TTL
  let ttl := if ttl < DNS_TTL_MIN then DNS_TTL_MIN else ttl
  if ttl > DNS_TTL_MAX then DNS_TTL_MAX else ttl

def cacheStore (r : Resolver) (name : Bytes) (qtype : UInt16) (status : DnsStatus)
    (answer : DnsAnswer) (now : Int) : Resolver :=
  if name.length ≥ DNS_NAME_MAX then r
  else
    let ttl := clampTtl status answer
    r.setCache (storeSlot r name qtype now)
      { name := name
        qtype := qtype
        status := status
        answer := { answer with ttl := ttl }
        expiresAt := now + ttl.toNat
        lastUsed := now }

def ServerHealth.result (h : ServerHealth) (ok : Bool) (now : Int) : ServerHealth :=
  let h := { h with queries := h.queries + 1 }
  if ok then { h with consecutiveFailures := 0, skipUntil := 0 }
  else
    let fails := h.consecutiveFailures + 1
    { h with
      failures := h.failures + 1
      consecutiveFailures := fails
      skipUntil :=
        if fails ≥ DNS_SERVER_FAIL_LIMIT then now + DNS_SERVER_BACKOFF_SECONDS else h.skipUntil }

def serverResult (r : Resolver) (idx : Nat) (ok : Bool) (now : Int) : Resolver :=
  { r with
    health := r.health.modify idx fun h => h.result ok now
    servers_le := by rw [List.length_modify]; exact r.servers_le }

def DnsStatus.usable : DnsStatus → Bool
  | .ok | .nodata | .nxdomain => true
  | _ => false

-- Healthy servers in list order, then backed-off ones.
def serverOrder (r : Resolver) (now : Int) : List Nat :=
  let backedOff := fun i => (r.health[i]?).any fun h => decide (h.skipUntil > now)
  (List.range r.health.length).filter (fun i => !backedOff i) ++
    (List.range r.health.length).filter backedOff

-- `sent` is the call of the transport; only proofs look at it.
structure Queried where
  status : DnsStatus
  answer : DnsAnswer
  sent : Option (Nat × Bytes)
deriving DecidableEq, Repr

def queryServer (transport : Transport) (idx : Nat) (id : UInt16) (name : Bytes) (qtype : UInt16)
    (out : DnsAnswer) : Queried :=
  match dnsBuildQuery id name qtype 512 with
  | none => ⟨.errMalformed, out, none⟩
  | some query =>
      match transport idx query with
      | none => ⟨.errServfail, out, some (idx, query)⟩
      | some [] => ⟨.errTimeout, out, some (idx, query)⟩
      | some reply =>
          let parsed := dnsParseResponse reply id name qtype
          ⟨parsed.1, parsed.2, some (idx, query)⟩

-- `calls` are the calls of the transport in order; only proofs look at them.
structure Resolved where
  resolver : Resolver
  status : DnsStatus
  answer : DnsAnswer
  calls : List (Nat × Bytes)

-- The walk over the servers of `order`.
def resolveLoop (transport : Transport) (name : Bytes) (qtype : UInt16) (now : Int) :
    List Nat → UInt16 → Resolver → DnsAnswer → Resolved
  | [], _, r, out => ⟨r, .errAllFailed, { out with addrs := [] }, []⟩
  | idx :: order, id, r, out =>
      let q := queryServer transport idx id name qtype out
      let r := serverResult r idx q.status.usable now
      if q.status.usable then
        ⟨cacheStore r name qtype q.status q.answer now, q.status, q.answer, q.sent.toList⟩
      else
        let rest := resolveLoop transport name qtype now order (id + 1) r q.answer
        { rest with calls := q.sent.toList ++ rest.calls }

def dnsResolve (transport : Transport) (r : Resolver) (name : Bytes) (qtype : UInt16) (now : Int)
    (out : DnsAnswer) : Resolved :=
  match (cacheFind r name qtype).filter fun i => decide ((r.entry i).expiresAt > now) with
  | some i =>
      let hit := r.entry i
      ⟨{ r.setCache i { hit with lastUsed := now } with cacheHits := r.cacheHits + 1 },
        hit.status, hit.answer, []⟩
  | none =>
      resolveLoop transport name qtype now (serverOrder r now) r.nextId
        { r with
          cacheMisses := r.cacheMisses + 1
          nextId := r.nextId + UInt16.ofNat r.health.length } out

structure Exchanged where
  resolver : Resolver
  reply : Option Bytes
  calls : List (Nat × Bytes)

-- A reply to the query that is not the server's own failure.
def acceptsReply (query reply : Bytes) : Bool :=
  reply ≠ [] && replyMatches query reply && byte reply 3 &&& 0x0F != 2 &&
    byte reply 3 &&& 0x0F != 5

def exchangeLoop (transport : Transport) (query : Bytes) (now : Int) :
    List Nat → Resolver → Exchanged
  | [], r => ⟨r, none, []⟩
  | idx :: order, r =>
      let got := (transport idx query).filter (acceptsReply query)
      let r := serverResult r idx got.isSome now
      match got with
      | some reply => ⟨r, some reply, [(idx, query)]⟩
      | none =>
          let rest := exchangeLoop transport query now order r
          { rest with calls := (idx, query) :: rest.calls }

def dnsExchange (transport : Transport) (r : Resolver) (query : Bytes) (now : Int) : Exchanged :=
  if query.length < 12 ∨ questionLen query = none then ⟨r, none, []⟩
  else exchangeLoop transport query now (serverOrder r now) r

end DpiProxy.Dns
