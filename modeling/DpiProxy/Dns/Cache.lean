import DpiProxy.Dns.Calls

namespace DpiProxy.Dns

open Wire

-- What an answer is cached under: the name without regard to case, and the type.
abbrev CacheKey := Bytes × UInt16

def cacheKey (name : Bytes) (qtype : UInt16) : CacheKey := (name.map tolower, qtype)

def CacheEntry.key (e : CacheEntry) : CacheKey := cacheKey e.name e.qtype

def Report.key (rep : Report) : CacheKey := cacheKey rep.name rep.qtype

-- The calls that got an answer from a server, and those that got one at all.
def Report.exchanged (rep : Report) : Bool := rep.status.usable && rep.calls != []

def lastExchange (history : List Report) (k : CacheKey) : Option Report :=
  (history.filter fun rep => decide (rep.key = k) && rep.exchanged).getLast?

def lastUse (history : List Report) (k : CacheKey) : Option Report :=
  (history.filter fun rep => decide (rep.key = k) && rep.status.usable).getLast?

-- How long an answer is kept: its TTL, or that of negative answers, in the bounds.
def lifetime (status : DnsStatus) (answer : DnsAnswer) : Nat :=
  let ttl := if status = .ok then answer.ttl.toNat else DNS_NEGATIVE_TTL.toNat
  max DNS_TTL_MIN.toNat (min ttl DNS_TTL_MAX.toNat)

-- What a slot keeps of an exchange.
structure CacheEntry.Holds (e : CacheEntry) (rep : Report) : Prop where
  key : e.key = rep.key
  status : e.status = rep.status
  addrs : e.answer.addrs = rep.answer.addrs
  expires : e.expiresAt = rep.now + lifetime rep.status rep.answer

theorem clampTtl_toNat (status : DnsStatus) (answer : DnsAnswer) :
    (clampTtl status answer).toNat = lifetime status answer := by
  have hmin : DNS_TTL_MIN.toNat = 30 := rfl
  have hmax : DNS_TTL_MAX.toNat = 3600 := rfl
  unfold clampTtl lifetime
  rw [show (if status = .ok then answer.ttl.toNat else DNS_NEGATIVE_TTL.toNat) =
    (if status = .ok then answer.ttl else DNS_NEGATIVE_TTL).toNat by split <;> rfl]
  generalize (if status = .ok then answer.ttl else DNS_NEGATIVE_TTL) = ttl
  dsimp only
  split_ifs with h₁ h₂ h₂ <;> simp only [UInt32.lt_iff_toNat_lt, gt_iff_lt] at h₁ h₂ <;> omega

section Slots

variable (r : Resolver)

theorem getElem?_cache {i : Nat} (hi : i < DNS_CACHE_SIZE) : r.cache[i]? = some (r.entry i) := by
  have hlt : i < r.cache.length := by rw [r.cache_size]; exact hi
  rw [Resolver.entry, List.getD_eq_getElem?_getD, List.getElem?_eq_getElem hlt, Option.getD_some]

theorem lt_of_entry {i : Nat} (h : (r.entry i).name ≠ []) : i < DNS_CACHE_SIZE := by
  by_contra hge
  have hnone : r.cache[i]? = none := List.getElem?_eq_none (by rw [r.cache_size]; omega)
  rw [Resolver.entry, List.getD_eq_getElem?_getD, hnone] at h
  exact h rfl

theorem cacheFind_pred (e : CacheEntry) (name : Bytes) (qtype : UInt16) :
    (e.name ≠ [] && e.qtype = qtype && ieq e.name name) = true ↔
      e.name ≠ [] ∧ e.key = cacheKey name qtype := by
  simp only [Bool.and_eq_true, decide_eq_true_eq, ieq_iff, CacheEntry.key, cacheKey, Prod.mk.injEq]
  constructor
  · rintro ⟨⟨hne, htype⟩, hname⟩
    exact ⟨hne, hname, htype⟩
  · rintro ⟨hne, hname, htype⟩
    exact ⟨⟨hne, htype⟩, hname⟩

variable {r} {name : Bytes} {qtype : UInt16}

-- A slot that the search for a property of entries returns has it.
theorem findSlot_some {p : CacheEntry → Bool} {i : Nat} (h : r.cache.findIdx? p = some i) :
    i < DNS_CACHE_SIZE ∧ p (r.entry i) = true := by
  obtain ⟨hlt, hp, -⟩ := List.findIdx?_eq_some_iff_getElem.mp h
  have hi : i < DNS_CACHE_SIZE := by rw [← r.cache_size]; exact hlt
  have hget := getElem?_cache r hi
  rw [List.getElem?_eq_getElem hlt] at hget
  rw [← Option.some.inj hget]
  exact ⟨hi, hp⟩

theorem findSlot_none {p : CacheEntry → Bool} (h : r.cache.findIdx? p = none) {i : Nat}
    (hi : i < DNS_CACHE_SIZE) : p (r.entry i) = false :=
  List.findIdx?_eq_none_iff.mp h _ (List.mem_of_getElem? (getElem?_cache r hi))

theorem cacheFind_some {i : Nat} (h : cacheFind r name qtype = some i) :
    i < DNS_CACHE_SIZE ∧ (r.entry i).name ≠ [] ∧ (r.entry i).key = cacheKey name qtype := by
  obtain ⟨hi, hp⟩ := findSlot_some h
  exact ⟨hi, (cacheFind_pred _ _ _).mp hp⟩

theorem cacheFind_none (h : cacheFind r name qtype = none) {i : Nat} (hi : (r.entry i).name ≠ []) :
    (r.entry i).key ≠ cacheKey name qtype := by
  intro hkey
  have hp := findSlot_none h (lt_of_entry r hi)
  rw [(cacheFind_pred _ _ _).mpr ⟨hi, hkey⟩] at hp
  cases hp

-- The slot for an answer is that of its key, or a free one, or when there is none
-- the one used longest ago.
theorem storeSlot_cases (r : Resolver) (name : Bytes) (qtype : UInt16) (now : Int) :
    storeSlot r name qtype now < DNS_CACHE_SIZE ∧
    ((cacheFind r name qtype = some (storeSlot r name qtype now)) ∨
      (cacheFind r name qtype = none ∧
        ((r.entry (storeSlot r name qtype now)).name = [] ∨
          (r.entry (storeSlot r name qtype now)).expiresAt ≤ now)) ∨
      (cacheFind r name qtype = none ∧
        ∀ j < DNS_CACHE_SIZE, (r.entry j).name ≠ [] ∧ now < (r.entry j).expiresAt ∧
          (r.entry (storeSlot r name qtype now)).lastUsed ≤ (r.entry j).lastUsed)) := by
  unfold storeSlot
  cases hfind : cacheFind r name qtype with
  | some i => exact ⟨(cacheFind_some hfind).1, .inl rfl⟩
  | none =>
      dsimp only
      cases hfree : r.cache.findIdx? fun e => e.name = [] || decide (e.expiresAt ≤ now) with
      | some i =>
          obtain ⟨hi, hp⟩ := findSlot_some hfree
          rw [Bool.or_eq_true, decide_eq_true_eq, decide_eq_true_eq] at hp
          exact ⟨hi, .inr (.inl ⟨rfl, hp⟩)⟩
      | none =>
          have hne : r.cache ≠ [] := by
            intro hnil
            have hsize := r.cache_size
            rw [hnil] at hsize
            cases hsize
          obtain ⟨m, hm, hleast⟩ := Table.minIndex_spec CacheEntry.lastUsed hne
          have hlt : Table.minIndex CacheEntry.lastUsed r.cache < DNS_CACHE_SIZE := by
            rw [← r.cache_size]
            exact (List.getElem?_eq_some_iff.mp hm).1
          rw [getElem?_cache r hlt] at hm
          obtain rfl := Option.some.inj hm
          refine ⟨hlt, .inr (.inr ⟨rfl, fun j hj => ?_⟩)⟩
          have hp := findSlot_none hfree hj
          rw [Bool.or_eq_false_iff, decide_eq_false_iff_not, decide_eq_false_iff_not] at hp
          exact ⟨hp.1, by omega, hleast _ (List.mem_of_getElem? (getElem?_cache r hj))⟩

end Slots

-- The cache has nothing for a call that has not expired.
def Missed (r : Resolver) (rep : Report) : Prop :=
  ∀ i, cacheFind r rep.name rep.qtype = some i → (r.entry i).expiresAt ≤ rep.now

-- What one call of dns_resolve does to the cache: it uses an entry that has not
-- expired, or gets no answer and leaves the cache alone, or stores an answer.
inductive CacheStep (r : Resolver) (rep : Report) (r' : Resolver) : Prop where
  | hit (i : Nat) (hfind : cacheFind r rep.name rep.qtype = some i)
      (hlive : rep.now < (r.entry i).expiresAt) (hstatus : rep.status = (r.entry i).status)
      (hanswer : rep.answer = (r.entry i).answer) (hcalls : rep.calls = [])
      (hentry : ∀ j, r'.entry j =
        if j = i then { r.entry i with lastUsed := rep.now } else r.entry j)
  | failed (hmissed : Missed r rep) (hstatus : rep.status = .errAllFailed)
      (haddrs : rep.answer.addrs = [])
      (hentry : ∀ j, r'.entry j = r.entry j)
  | long (hmissed : Missed r rep) (hlong : DNS_NAME_MAX ≤ rep.name.length)
      (husable : rep.status.usable = true)
      (hcount : rep.answer.addrs ≠ [] ↔ rep.status = .ok) (hcalls : rep.calls ≠ [])
      (hentry : ∀ j, r'.entry j = r.entry j)
  | stored (slot : Nat) (hslot : slot = storeSlot r rep.name rep.qtype rep.now)
      (hmissed : Missed r rep) (hname : rep.name ≠ []) (hshort : rep.name.length < DNS_NAME_MAX)
      (husable : rep.status.usable = true) (hcount : rep.answer.addrs ≠ [] ↔ rep.status = .ok)
      (hcalls : rep.calls ≠ [])
      (hentry : ∀ j, r'.entry j =
        if j = slot then
          ⟨rep.name, rep.qtype, rep.status, { rep.answer with ttl := clampTtl rep.status rep.answer },
            rep.now + (clampTtl rep.status rep.answer).toNat, rep.now⟩
        else r.entry j)

end DpiProxy.Dns
