import DpiProxy.Discovery.Cache
import DpiProxy.Strategy.Config.Theorems
import DpiProxy.Wire.Age

namespace DpiProxy.Discovery

open Wire CText
open Transparent (STRATEGY_DOMAIN_MAX)

-- The key of an entry is its domain in lower case; the rest is its value.
def entryKey (e : DiscoveryCacheEntry) : Bytes := e.domain.map tolower

def entryValue (e : DiscoveryCacheEntry) : StrategyChain × UInt64 × Int64 :=
  (e.chain, e.fingerprint, e.validatedAt)

def setValue (v : StrategyChain × UInt64 × Int64) (e : DiscoveryCacheEntry) : DiscoveryCacheEntry :=
  ⟨e.domain, v.1, v.2.1, v.2.2⟩

@[simp] theorem entryKey_setValue (v : StrategyChain × UInt64 × Int64) (e : DiscoveryCacheEntry) :
    entryKey (setValue v e) = entryKey e := rfl

@[simp] theorem entryValue_setValue (v : StrategyChain × UInt64 × Int64) (e : DiscoveryCacheEntry) :
    entryValue (setValue v e) = v := rfl

def putEntry (entries : List DiscoveryCacheEntry) (e : DiscoveryCacheEntry) : List DiscoveryCacheEntry :=
  Table.put entryKey entryValue setValue DISCOVERY_CACHE_MAX entries e

def SetCall.entry (c : SetCall) : DiscoveryCacheEntry := ⟨c.domain, c.chain, c.fingerprint, c.now⟩

def SetCall.Fits (c : SetCall) : Prop := c.domain.length < STRATEGY_DOMAIN_MAX

instance (c : SetCall) : Decidable c.Fits := by unfold SetCall.Fits; infer_instance

def ShortEntries (cache : DiscoveryCache) : Prop := ∀ e ∈ cache.entries, e.domain.length < STRATEGY_DOMAIN_MAX

section Set

variable {cache : DiscoveryCache} {c : SetCall}

theorem any_ieq_iff (cache : DiscoveryCache) (domain : Bytes) :
    (cache.entries.any fun e => ieq e.domain domain) = true ↔ domain.map tolower ∈ cache.entries.map entryKey := by
  simp [ieq_iff, entryKey]

-- A set of a domain that fits puts an entry; 0 is returned if the domain is there or
-- has room.
theorem set_put (cache : DiscoveryCache) (hfits : c.Fits) :
    (c.apply cache).entries = putEntry cache.entries c.entry ∧
      (entryKey c.entry ∈ cache.entries.map entryKey ∨ cache.entries.length < DISCOVERY_CACHE_MAX →
        (c.run cache).1 = 0) := by
  unfold SetCall.Fits at hfits
  unfold SetCall.apply SetCall.run discoveryCacheSet putEntry Table.put
  have hany := any_ieq_iff cache c.domain
  change _ ↔ entryKey c.entry ∈ cache.entries.map entryKey at hany
  by_cases hmem : entryKey c.entry ∈ cache.entries.map entryKey
  · have hsame : (fun e : DiscoveryCacheEntry => ieq e.domain c.domain) =
        fun e => decide (entryKey e = entryKey c.entry) := by
      funext e
      exact ieq_eq_decide e.domain c.domain
    rw [if_pos (hany.mpr hmem), if_pos hmem, ← hsame]
    exact ⟨rfl, fun _ => rfl⟩
  · rw [if_neg fun h => hmem (hany.mp h), if_neg hmem]
    by_cases hroom : cache.entries.length < DISCOVERY_CACHE_MAX
    · rw [dif_neg (by omega), if_pos hroom]
      exact ⟨rfl, fun _ => rfl⟩
    · rw [dif_pos (by omega), if_neg hroom]
      exact ⟨rfl, fun h => (h.elim hmem hroom).elim⟩

-- A domain that does not fit is refused.
theorem set_long (hshort : ShortEntries cache) (hfits : ¬ c.Fits) : c.apply cache = cache := by
  unfold SetCall.Fits at hfits
  have hany : ¬ (cache.entries.any fun e => ieq e.domain c.domain) = true := by
    intro h
    obtain ⟨e, he, hieq⟩ := List.any_eq_true.mp h
    have hlen := congrArg List.length ((ieq_iff _ _).mp hieq)
    have := hshort e he
    simp only [List.length_map] at hlen
    omega
  rw [SetCall.apply, SetCall.run, discoveryCacheSet, if_neg hany, dif_pos (by omega)]

-- What is kept by the calls of a run is put entry by entry.
theorem sets_spec (calls : List SetCall) :
    ShortEntries (sets calls) ∧
      (sets calls).entries = ((calls.filter (·.Fits)).map SetCall.entry).foldl putEntry [] := by
  induction calls using List.reverseRecOn with
  | nil => exact ⟨fun e he => absurd he List.not_mem_nil, rfl⟩
  | append_singleton calls c ih =>
      obtain ⟨hshort, hentries⟩ := ih
      have hstep : sets (calls ++ [c]) = c.apply (sets calls) := by
        simp [sets]
      rw [hstep, List.filter_append, List.map_append, List.foldl_append, ← hentries]
      by_cases hfits : c.Fits
      · have hput := (set_put (sets calls) hfits).1
        refine ⟨?_, ?_⟩
        · intro e he
          rw [hput] at he
          rcases Table.mem_put he with he | rfl | ⟨e', he', rfl⟩
          · exact hshort e he
          · exact hfits
          · exact hshort e' he'
        · rw [hput]
          simp [hfits]
      · rw [set_long hshort hfits]
        refine ⟨hshort, ?_⟩
        simp [hfits]

theorem sets_keys_nodup (calls : List SetCall) : ((sets calls).entries.map entryKey).Nodup := by
  rw [(sets_spec calls).2]
  exact Table.puts_nodup entryKey_setValue DISCOVERY_CACHE_MAX _

end Set

section Lookup

-- A lookup is one by key, and then looks at the network and the age.
theorem lookup_key (cache : DiscoveryCache) (domain : Bytes) {fp : UInt64} (hknown : fp ≠ NETFP_UNKNOWN)
    (ttl now : Int64) :
    (discoveryCacheLookup cache domain fp ttl now).map entryValue =
      (Table.lookup entryKey entryValue cache.entries (domain.map tolower)).filter
        (fun v => v.2.1 = fp ∧ now - v.2.2 ≤ ttl ∧ v.2.2 ≤ now) := by
  have hsame : (fun e : DiscoveryCacheEntry => ieq e.domain domain) =
      fun e => decide (entryKey e = domain.map tolower) := by
    funext e
    exact ieq_eq_decide e.domain domain
  rw [discoveryCacheLookup, if_neg hknown, hsame, Table.lookup]
  cases cache.entries.find? fun e => decide (entryKey e = domain.map tolower) with
  | none => rfl
  | some e =>
      simp only [Option.map_some, Option.filter_some, entryValue]
      by_cases hfp : e.fingerprint = fp
      · by_cases hold : now - e.validatedAt ≤ ttl
        · by_cases hclock : e.validatedAt ≤ now
          · simp [hfp, hold, hclock, entryValue]
          · simp [hfp, hold, hclock, Int64.not_le.mp hclock]
        · simp [hfp, hold, Int64.not_le.mp hold]
      · simp [hfp]

-- What an entry of the table was set by: the last call for its domain.
theorem lookup_sets {calls : List SetCall}
    (hroom : ((calls.map fun c => c.domain.map tolower).dedup).length ≤ DISCOVERY_CACHE_MAX) (domain : Bytes) :
    Table.lookup entryKey entryValue (sets calls).entries (domain.map tolower) =
      ((calls.filter (·.Fits)).reverse.find? fun c => ieq c.domain domain).map fun c => entryValue c.entry := by
  have hkeys : (((calls.filter (·.Fits)).map SetCall.entry).map entryKey).dedup.length ≤ DISCOVERY_CACHE_MAX := by
    have hsub : (((calls.filter (·.Fits)).map SetCall.entry).map entryKey).dedup ⊆
        (calls.map fun c => c.domain.map tolower).dedup := by
      intro k hk
      simp only [List.mem_dedup, List.mem_map, List.mem_filter] at hk ⊢
      obtain ⟨e, ⟨c, ⟨hc, -⟩, rfl⟩, rfl⟩ := hk
      exact ⟨c, hc, rfl⟩
    exact Nat.le_trans (List.subperm_of_subset (List.nodup_dedup _) hsub).length_le hroom
  rw [(sets_spec calls).2]
  unfold putEntry
  rw [Table.lookup_puts entryKey_setValue entryValue_setValue DISCOVERY_CACHE_MAX hkeys, Table.lookup,
    ← List.map_reverse, List.find?_map, Option.map_map]
  congr 2
  funext c
  exact (ieq_eq_decide c.domain domain).symm

-- The network of a pair is forgotten: there are no more domains than pairs.
theorem domains_le_pairs (calls : List SetCall) :
    (calls.map fun c => c.domain.map tolower).dedup.length ≤
      (calls.map fun c => (c.domain.map tolower, c.fingerprint)).dedup.length := by
  have hsub : (calls.map fun c => c.domain.map tolower).dedup ⊆
      (calls.map fun c => (c.domain.map tolower, c.fingerprint)).dedup.map Prod.fst := by
    intro k hk
    simp only [List.mem_dedup, List.mem_map] at hk ⊢
    obtain ⟨c, hc, rfl⟩ := hk
    exact ⟨_, ⟨c, hc, rfl⟩, rfl⟩
  have hle := (List.subperm_of_subset (List.nodup_dedup _) hsub).length_le
  rwa [List.length_map] at hle

-- The last set of a domain that fits is what the cache holds for it.
theorem lookup_last {before after : List SetCall} {c : SetCall}
    (hroom : (((before ++ c :: after).map fun x => (x.domain.map tolower, x.fingerprint)).dedup).length ≤
      DISCOVERY_CACHE_MAX)
    (hfits : c.Fits) (hlast : ∀ x ∈ after, ieq x.domain c.domain = false) :
    Table.lookup entryKey entryValue (sets (before ++ c :: after)).entries (c.domain.map tolower) =
      some (entryValue c.entry) := by
  have hself : ieq c.domain c.domain = true := (ieq_iff _ _).mpr rfl
  have hafter : (after.filter (·.Fits)).reverse.find? (fun x => ieq x.domain c.domain) = none := by
    rw [List.find?_eq_none]
    intro x hx
    rw [List.mem_reverse, List.mem_filter] at hx
    rw [hlast x hx.1]
    exact Bool.false_ne_true
  rw [lookup_sets ((domains_le_pairs _).trans hroom), List.filter_append, List.filter_cons,
    if_pos (decide_eq_true hfits), List.reverse_append, List.reverse_cons, List.append_assoc,
    List.find?_append, hafter, Option.none_or, List.singleton_append, List.find?_cons, hself]
  rfl

-- The last set for a domain and a network is found as long as the domain is not set for
-- another network behind it. Then it is overwritten.
theorem discoveryCacheLookup_last (before after : List SetCall) (c : SetCall)
    (hroom : (((before ++ c :: after).map fun x => (x.domain.map tolower, x.fingerprint)).dedup).length ≤
      DISCOVERY_CACHE_MAX)
    (hfits : c.domain.length < STRATEGY_DOMAIN_MAX) (hknown : c.fingerprint ≠ NETFP_UNKNOWN)
    (hlast : ∀ x ∈ after, ¬ (ieq x.domain c.domain = true ∧ x.fingerprint = c.fingerprint))
    (domain : Bytes) (hsame : ieq domain c.domain = true) (ttl now : Int64) (hnow : c.now ≤ now)
    (hage : now.toInt - c.now.toInt ≤ ttl.toInt) :
    ((∀ x ∈ after, ieq x.domain c.domain = false) →
      (discoveryCacheLookup (sets (before ++ c :: after)) domain c.fingerprint ttl now).map (·.chain) =
        some c.chain) ∧
    ((∃ x ∈ after, ieq x.domain c.domain = true) →
      discoveryCacheLookup (sets (before ++ c :: after)) domain c.fingerprint ttl now = none) := by
  have hlower : domain.map tolower = c.domain.map tolower := (ieq_iff _ _).mp hsame
  have hkey := lookup_key (sets (before ++ c :: after)) domain hknown ttl now
  rw [hlower] at hkey
  constructor
  · intro hnone
    have hfresh := age_le hnow hage
    rw [lookup_last hroom hfits hnone, Option.filter_some, if_pos (by simp [entryValue, SetCall.entry, hnow, hfresh])]
      at hkey
    obtain ⟨e, he, hvalue⟩ := Option.map_eq_some_iff.mp hkey
    rw [he, Option.map_some]
    exact congrArg some (congrArg Prod.fst hvalue)
  · intro hsome
    -- the last of the sets behind it
    obtain ⟨x, hx⟩ : ∃ x, after.reverse.find? (fun x => ieq x.domain c.domain) = some x := by
      apply Option.isSome_iff_exists.mp
      rw [List.find?_isSome]
      simpa using hsome
    obtain ⟨hdomain, back, front, hsplit, hback⟩ := List.find?_eq_some_iff_append.mp hx
    have hafter : after = front.reverse ++ x :: back.reverse := by
      rw [← List.reverse_reverse after, hsplit]
      simp
    have hxkey : x.domain.map tolower = c.domain.map tolower := (ieq_iff _ _).mp hdomain
    have hxfits : x.Fits := by
      have hlen := congrArg List.length hxkey
      simp only [List.length_map] at hlen
      unfold SetCall.Fits
      omega
    have hwhole : before ++ c :: after = (before ++ c :: front.reverse) ++ x :: back.reverse := by
      rw [hafter]
      simp
    have hxlast : ∀ y ∈ back.reverse, ieq y.domain x.domain = false := by
      intro y hy
      have hno := hback y (List.mem_reverse.mp hy)
      rw [ieq_eq_decide] at hno ⊢
      rw [hxkey]
      simpa using hno
    have hother : x.fingerprint ≠ c.fingerprint := by
      intro hfp
      refine hlast x ?_ ⟨hdomain, hfp⟩
      rw [hafter]
      simp
    rw [hwhole] at hroom hkey
    rw [← hxkey, lookup_last hroom hxfits hxlast, Option.filter_some,
      if_neg (by simp [entryValue, SetCall.entry, hother])] at hkey
    rw [hwhole]
    exact Option.map_eq_none_iff.mp hkey

-- One domain on two networks.
def domainAt (fingerprint : UInt64) (s : Strategy) (now : Int64) : SetCall :=
  ⟨ascii ['a', '.', 'c', 'o', 'm'], .single s, fingerprint, now⟩

theorem discoveryCacheLookup_last_network :
    (discoveryCacheLookup (sets [domainAt 2 .fake 1000, domainAt 1 .split 1060]) (ascii ['A', '.', 'c', 'o', 'm']) 1
        DISCOVERY_CACHE_DEFAULT_TTL_SECONDS 2000).map (·.chain) = some (.single .split) ∧
      discoveryCacheLookup (sets [domainAt 1 .split 1000, domainAt 2 .fake 1060]) (ascii ['A', '.', 'c', 'o', 'm']) 1
        DISCOVERY_CACHE_DEFAULT_TTL_SECONDS 2000 = none := by
  constructor
  · exact (discoveryCacheLookup_last [domainAt 2 .fake 1000] [] (domainAt 1 .split 1060) (by decide) (by decide)
      (by decide) (by simp) _ (by decide) _ _ (by decide) (by decide)).1 (by simp)
  · exact (discoveryCacheLookup_last [] [domainAt 2 .fake 1060] (domainAt 1 .split 1000) (by decide) (by decide)
      (by decide) (by decide) _ (by decide) _ _ (by decide) (by decide)).2 (by decide)

-- Two sets for two networks, and one for a domain of 256 bytes.
theorem otherNetwork_overwrites :
    (([domainAt 1 .split 1000, domainAt 2 .fake 1060].map fun x => (x.domain.map tolower, x.fingerprint)).dedup.length ≤
        DISCOVERY_CACHE_MAX ∧
      discoveryCacheLookup (sets [domainAt 1 .split 1000, domainAt 2 .fake 1060]) (ascii ['a', '.', 'c', 'o', 'm']) 1
        DISCOVERY_CACHE_DEFAULT_TTL_SECONDS 1060 = none) ∧
    discoveryCacheLookup (sets [⟨List.replicate 256 97, .single .split, 1, 1000⟩]) (List.replicate 256 97) 1
      DISCOVERY_CACHE_DEFAULT_TTL_SECONDS 1000 = none := by
  decide +kernel

end Lookup

end DpiProxy.Discovery
