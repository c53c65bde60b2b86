import DpiProxy.Dns.Cache

namespace DpiProxy.Dns

open Wire

-- Every entry holds the latest answer for its key and the time it was used last, and
-- no other entry has its key.
structure CacheInv (history : List Report) (r : Resolver) : Prop where
  counts : ∀ rep ∈ history, rep.answer.addrs ≠ [] ↔ rep.status = .ok
  unique : ∀ i j, (r.entry i).name ≠ [] → (r.entry j).name ≠ [] →
    (r.entry i).key = (r.entry j).key → i = j
  short : ∀ i, (r.entry i).name.length < DNS_NAME_MAX
  latest : ∀ i, (r.entry i).name ≠ [] →
    ∃ rep, lastExchange history (r.entry i).key = some rep ∧ (r.entry i).Holds rep
  used : ∀ i, (r.entry i).name ≠ [] →
    ∃ rep, lastUse history (r.entry i).key = some rep ∧ (r.entry i).lastUsed = rep.now

theorem getLast?_filter_concat {α : Type} (p : α → Bool) (xs : List α) (x : α) :
    ((xs ++ [x]).filter p).getLast? = if p x then some x else (xs.filter p).getLast? := by
  rw [List.filter_append]
  by_cases hp : p x = true
  · rw [if_pos hp, List.filter_cons_of_pos hp, List.filter_nil, List.getLast?_concat]
  · rw [if_neg hp, List.filter_cons_of_neg hp, List.filter_nil, List.append_nil]

theorem lastExchange_concat (history : List Report) (rep : Report) (k : CacheKey) :
    lastExchange (history ++ [rep]) k =
      if decide (rep.key = k) && rep.exchanged then some rep else lastExchange history k :=
  getLast?_filter_concat _ history rep

theorem lastUse_concat (history : List Report) (rep : Report) (k : CacheKey) :
    lastUse (history ++ [rep]) k =
      if decide (rep.key = k) && rep.status.usable then some rep else lastUse history k :=
  getLast?_filter_concat _ history rep

theorem lastExchange_mem {history : List Report} {k : CacheKey} {rep : Report}
    (h : lastExchange history k = some rep) : rep ∈ history ∧ rep.key = k ∧ rep.exchanged = true := by
  have hmem := List.mem_filter.mp (List.mem_of_getLast? h)
  rw [Bool.and_eq_true, decide_eq_true_eq] at hmem
  exact hmem

section Step

variable {history : List Report} {r r' : Resolver} {rep : Report}

-- A call that leaves the entries of other keys alone.
theorem CacheInv.keep (h : CacheInv history r) (hentry : ∀ j, r'.entry j = r.entry j)
    (hcount : rep.answer.addrs ≠ [] ↔ rep.status = .ok)
    (hother : ∀ i, (r.entry i).name ≠ [] → (r.entry i).key = rep.key → rep.status.usable = false) :
    CacheInv (history ++ [rep]) r' := by
  refine ⟨?_, ?_, ?_, ?_, ?_⟩
  · intro rep' hrep'
    rcases List.mem_append.mp hrep' with hold | hnew
    · exact h.counts rep' hold
    · rw [List.mem_singleton.mp hnew]
      exact hcount
  · intro i j
    rw [hentry, hentry]
    exact h.unique i j
  · intro i
    rw [hentry]
    exact h.short i
  · intro i
    rw [hentry]
    intro hi
    rw [lastExchange_concat, if_neg]
    · exact h.latest i hi
    · rw [Bool.and_eq_true, decide_eq_true_eq, Report.exchanged, Bool.and_eq_true]
      rintro ⟨hkey, husable, -⟩
      rw [hother i hi hkey.symm] at husable
      cases husable
  · intro i
    rw [hentry]
    intro hi
    rw [lastUse_concat, if_neg]
    · exact h.used i hi
    · rw [Bool.and_eq_true, decide_eq_true_eq]
      rintro ⟨hkey, husable⟩
      rw [hother i hi hkey.symm] at husable
      cases husable

theorem CacheInv.hit (h : CacheInv history r) {i : Nat}
    (hfind : cacheFind r rep.name rep.qtype = some i) (hstatus : rep.status = (r.entry i).status)
    (hanswer : rep.answer = (r.entry i).answer) (hcalls : rep.calls = [])
    (hentry : ∀ j, r'.entry j =
      if j = i then { r.entry i with lastUsed := rep.now } else r.entry j) :
    CacheInv (history ++ [rep]) r' := by
  obtain ⟨-, hne, hkey⟩ := cacheFind_some hfind
  obtain ⟨latest, hlatest, -, hlstatus, hladdrs, -⟩ := h.latest i hne
  obtain ⟨hlmem, -, hlexchanged⟩ := lastExchange_mem hlatest
  have husable : rep.status.usable = true := by
    rw [hstatus, hlstatus]
    exact (Bool.and_eq_true _ _ |>.mp hlexchanged).1
  have hsame : ∀ j, (r'.entry j).name = (r.entry j).name ∧ (r'.entry j).key = (r.entry j).key := by
    intro j
    rw [hentry]
    split
    · rename_i hj
      rw [hj]
      exact ⟨rfl, rfl⟩
    · exact ⟨rfl, rfl⟩
  have hno : rep.exchanged = false := by
    rw [Report.exchanged, hcalls]
    simp
  refine ⟨?_, ?_, ?_, ?_, ?_⟩
  · intro rep' hrep'
    rcases List.mem_append.mp hrep' with hold | hnew
    · exact h.counts rep' hold
    · rw [List.mem_singleton.mp hnew, hanswer, hstatus, hladdrs, hlstatus]
      exact h.counts latest hlmem
  · intro a b
    rw [(hsame a).1, (hsame b).1, (hsame a).2, (hsame b).2]
    exact h.unique a b
  · intro j
    rw [(hsame j).1]
    exact h.short j
  · intro j
    rw [(hsame j).1, (hsame j).2, lastExchange_concat, hno, Bool.and_false, if_neg (by simp)]
    intro hj
    obtain ⟨rep', hrep', hdata⟩ := h.latest j hj
    refine ⟨rep', hrep', ?_⟩
    rw [hentry]
    split
    · -- Only the time of its last use is new.
      rename_i heq
      rw [← heq]
      exact ⟨hdata.key, hdata.status, hdata.addrs, hdata.expires⟩
    · exact hdata
  · intro j
    rw [(hsame j).1, (hsame j).2, lastUse_concat, husable, Bool.and_true]
    intro hj
    rw [hentry]
    by_cases hji : j = i
    · rw [if_pos hji, hji, hkey, if_pos (by simp [Report.key])]
      exact ⟨rep, rfl, rfl⟩
    · rw [if_neg hji, if_neg]
      · exact h.used j hj
      · rw [decide_eq_true_eq]
        intro hrep
        exact hji (h.unique j i hj hne (hrep.symm.trans hkey.symm))

-- The slot of a key, or a slot for a key that no entry has.
theorem CacheInv.other_slot (h : CacheInv history r) {name : Bytes} {qtype : UInt16} {now : Int}
    {j : Nat} (hj : j ≠ storeSlot r name qtype now) (hne : (r.entry j).name ≠ []) :
    (r.entry j).key ≠ cacheKey name qtype := by
  obtain ⟨-, hfind | ⟨hnone, -⟩ | ⟨hnone, -⟩⟩ := storeSlot_cases r name qtype now
  · obtain ⟨-, hslot, hkey⟩ := cacheFind_some hfind
    intro hsame
    exact hj (h.unique j _ hne hslot (hsame.trans hkey.symm))
  · exact cacheFind_none hnone hne
  · exact cacheFind_none hnone hne

theorem CacheInv.stored (h : CacheInv history r) (hshort : rep.name.length < DNS_NAME_MAX)
    (husable : rep.status.usable = true) (hcount : rep.answer.addrs ≠ [] ↔ rep.status = .ok)
    (hcalls : rep.calls ≠ []) (hentry : ∀ j, r'.entry j =
      if j = storeSlot r rep.name rep.qtype rep.now then
        ⟨rep.name, rep.qtype, rep.status, { rep.answer with ttl := clampTtl rep.status rep.answer },
          rep.now + (clampTtl rep.status rep.answer).toNat, rep.now⟩
      else r.entry j) :
    CacheInv (history ++ [rep]) r' := by
  have hexchanged : rep.exchanged = true := by
    rw [Report.exchanged, husable]
    simpa using hcalls
  have hother : ∀ j, j ≠ storeSlot r rep.name rep.qtype rep.now → (r.entry j).name ≠ [] →
      rep.key ≠ (r.entry j).key :=
    fun j hj hne hkey => h.other_slot hj hne hkey.symm
  refine ⟨?_, ?_, ?_, ?_, ?_⟩
  · intro rep' hrep'
    rcases List.mem_append.mp hrep' with hold | hnew
    · exact h.counts rep' hold
    · rw [List.mem_singleton.mp hnew]
      exact hcount
  · intro a b
    rw [hentry, hentry]
    split_ifs with ha hb hb
    · intro _ _ _
      rw [ha, hb]
    · intro _ hb' hkey
      exact absurd hkey (hother b hb hb')
    · intro ha' _ hkey
      exact absurd hkey.symm (hother a ha ha')
    · exact h.unique a b
  · intro j
    rw [hentry]
    split
    · exact hshort
    · exact h.short j
  · intro j
    rw [hentry, lastExchange_concat, hexchanged, Bool.and_true]
    split_ifs with hj hkey hkey
    · intro _
      refine ⟨rep, rfl, rfl, rfl, rfl, ?_⟩
      rw [clampTtl_toNat]
    · intro _
      exact absurd (decide_eq_true rfl) hkey
    · intro hne
      exact absurd (of_decide_eq_true hkey) (hother j hj hne)
    · exact h.latest j
  · intro j
    rw [hentry, lastUse_concat, husable, Bool.and_true]
    split_ifs with hj hkey hkey
    · intro _
      exact ⟨rep, rfl, rfl⟩
    · intro _
      exact absurd (decide_eq_true rfl) hkey
    · intro hne
      exact absurd (of_decide_eq_true hkey) (hother j hj hne)
    · exact h.used j

theorem CacheInv.step (h : CacheInv history r) (hstep : CacheStep r rep r') :
    CacheInv (history ++ [rep]) r' := by
  cases hstep with
  | hit i hfind hlive hstatus hanswer hcalls hentry => exact h.hit hfind hstatus hanswer hcalls hentry
  | failed hmissed hstatus haddrs hentry =>
      refine h.keep hentry ?_ ?_
      · rw [haddrs, hstatus]
        simp
      · intro _ _ _
        rw [hstatus]
        rfl
  | long hmissed hlong husable hcount hcalls hentry =>
      refine h.keep hentry hcount ?_
      intro i _ hkey
      -- A key of this length is in no slot.
      have hlen := congrArg (fun k : CacheKey => k.1.length) hkey
      simp only [CacheEntry.key, Report.key, cacheKey, List.length_map] at hlen
      have hshort := h.short i
      omega
  | stored slot hslot hmissed hname hshort husable hcount hcalls hentry =>
      subst hslot
      exact h.stored hshort husable hcount hcalls hentry

end Step

section Spec

variable {history : List Report} {r r' : Resolver} {rep : Report}

-- The search finds the entry of a key.
theorem CacheInv.find (h : CacheInv history r) {i : Nat} (hi : (r.entry i).name ≠ [])
    (hkey : (r.entry i).key = rep.key) : cacheFind r rep.name rep.qtype = some i := by
  cases hfind : cacheFind r rep.name rep.qtype with
  | none => exact absurd hkey (cacheFind_none hfind hi)
  | some j =>
      obtain ⟨-, hj, hjkey⟩ := cacheFind_some hfind
      rw [h.unique i j hi hj (hkey.trans hjkey.symm)]

theorem CacheInv.answers (h : CacheInv history r) (hstep : CacheStep r rep r') {i : Nat}
    (hi : (r.entry i).name ≠ []) (hkey : (r.entry i).key = rep.key)
    (hlive : rep.now < (r.entry i).expiresAt) :
    rep.calls = [] ∧ rep.status = (r.entry i).status ∧ rep.answer = (r.entry i).answer := by
  have hfound := h.find hi hkey
  have hnot : ¬Missed r rep := by
    intro hmissed
    have hexpired := hmissed i hfound
    omega
  cases hstep with
  | hit j hfind hlive hstatus hanswer hcalls hentry =>
      obtain rfl := Option.some.inj (hfound.symm.trans hfind)
      exact ⟨hcalls, hstatus, hanswer⟩
  | failed hmissed hstatus haddrs hentry => exact absurd hmissed hnot
  | long hmissed hlong husable hcount hcalls hentry => exact absurd hmissed hnot
  | stored slot hslot hmissed hname hshort husable hcount hcalls hentry => exact absurd hmissed hnot

theorem CacheStep.kept (hstep : CacheStep r rep r') (hexchanged : rep.exchanged = true)
    (hshort : rep.name.length < DNS_NAME_MAX) : ∃ i, (r'.entry i).name ≠ [] ∧ (r'.entry i).Holds rep := by
  rw [Report.exchanged, Bool.and_eq_true, bne_iff_ne] at hexchanged
  cases hstep with
  | hit i hfind hlive hstatus hanswer hcalls hentry => exact absurd hcalls hexchanged.2
  | failed hmissed hstatus haddrs hentry =>
      rw [hstatus] at hexchanged
      cases hexchanged.1
  | long hmissed hlong husable hcount hcalls hentry => omega
  | stored slot hslot hmissed hname hshort husable hcount hcalls hentry =>
      refine ⟨slot, ?_⟩
      rw [hentry, if_pos rfl]
      refine ⟨hname, rfl, rfl, rfl, ?_⟩
      rw [clampTtl_toNat]

end Spec

end DpiProxy.Dns
