import DpiProxy.Flow.Theorems

namespace DpiProxy.Flow

-- The scan ends with an entry seen no later than the best so far and no later than
-- any of the entries it still had before it.
theorem findOldest_le (table : FlowTable) (l : List FlowEntry) (i oldest : Nat)
    (hl : table.entries.drop i = l) :
    (table.get (findOldest l i oldest (table.get oldest).lastSeen)).lastSeen ≤
        (table.get oldest).lastSeen ∧
      ∀ j, i ≤ j → j < FLOW_TABLE_MAX →
        (table.get (findOldest l i oldest (table.get oldest).lastSeen)).lastSeen ≤
          (table.get j).lastSeen := by
  induction l generalizing i oldest with
  | nil =>
      have hlen := List.drop_eq_nil_iff.mp hl
      rw [table.size] at hlen
      exact ⟨le_rfl, fun j hij hj => by omega⟩
  | cons e rest ih =>
      have hlt : i < table.entries.length := by
        by_contra hge
        rw [List.drop_eq_nil_of_le (by omega)] at hl
        cases hl
      rw [List.drop_eq_getElem_cons hlt, List.cons.injEq] at hl
      have hget : table.get i = e := (table.getElem_entries hlt).symm.trans hl.1
      rw [findOldest]
      by_cases hless : e.lastSeen < (table.get oldest).lastSeen
      · obtain ⟨hbest, hrest⟩ := ih (i + 1) i hl.2
        rw [if_pos hless, ← hget]
        rw [← hget] at hless
        refine ⟨hbest.trans hless.le, fun j hij hj => ?_⟩
        rcases hij.eq_or_lt with rfl | hij
        · exact hbest
        · exact hrest j hij hj
      · obtain ⟨hbest, hrest⟩ := ih (i + 1) oldest hl.2
        rw [if_neg hless]
        rw [← hget] at hless
        refine ⟨hbest, fun j hij hj => ?_⟩
        rcases hij.eq_or_lt with rfl | hij
        · exact hbest.trans (not_lt.mp hless)
        · exact hrest j hij hj

-- The slot for a new flow: a free one if there is any, else one seen longest ago.
theorem findFreeOrOldest_spec (table : FlowTable) :
    (table.get (findFreeOrOldest table)).inUse = false ∨
      (∀ j < FLOW_TABLE_MAX, (table.get j).inUse = true) ∧
        ∀ j < FLOW_TABLE_MAX,
          (table.get (findFreeOrOldest table)).lastSeen ≤ (table.get j).lastSeen := by
  rw [findFreeOrOldest]
  cases hfree : table.entries.findIdx? (fun e => !e.inUse) with
  | some i =>
      obtain ⟨hlt, hp, -⟩ := List.findIdx?_eq_some_iff_getElem.mp hfree
      rw [table.getElem_entries hlt] at hp
      exact .inl (by simpa using hp)
  | none =>
      have hall := List.findIdx?_eq_none_iff.mp hfree
      obtain ⟨hbest, hrest⟩ := findOldest_le table (table.entries.drop 1) 1 0 rfl
      refine .inr ⟨fun j hj => ?_, fun j hj => ?_⟩
      · have hp := hall _ (List.mem_of_getElem? (table.get_of_lt hj))
        simpa using hp
      · cases j with
        | zero => exact hbest
        | succ j => exact hrest (j + 1) (by omega) hj

-- An entry seen at `now` is not expired at `now`, and eviction keeps what is not expired.
theorem evict_keeps_seen_now {table : FlowTable} {i : Nat} {now timeout : Int} (ht : 0 ≤ timeout)
    (h : (table.get i).lastSeen = now) :
    (flowEvictExpired table now timeout).1.get i = table.get i := by
  have hfresh : flowExpired now timeout (table.get i) = false := by
    simp [flowExpired, h, ht]
  rw [get_flowEvictExpired, hfresh, if_neg (by simp)]

section Lookup

variable {table : FlowTable} {key : FlowKey}

theorem flowFind_of_live (h : FlowInv table) {i : Nat} (hi : (table.get i).inUse = true)
    (hkey : (table.get i).key = key) : flowFind table key = some i := by
  cases hfind : flowFind table key with
  | some j =>
      obtain ⟨-, hj, hkj⟩ := flowFind_some hfind
      rw [h.unique i j hi hj (hkey.trans hkj.symm)]
  | none => exact absurd hkey (flowFind_none hfind hi)

theorem flowFind_of_missing (hmissing : ∀ i, (table.get i).inUse = true → (table.get i).key ≠ key) :
    flowFind table key = none := by
  cases hfind : flowFind table key with
  | some j =>
      obtain ⟨-, hj, hkj⟩ := flowFind_some hfind
      exact absurd hkj (hmissing j hj)
  | none => rfl

-- The key has a live entry: the entry is touched and nothing else happens.
theorem lookup_live (h : FlowInv table) (now : Int) {i : Nat} (hi : (table.get i).inUse = true)
    (hkey : (table.get i).key = key) :
    flowLookupOrCreate table key now = (table.update i { table.get i with lastSeen := now }, i) := by
  rw [flowLookupOrCreate, flowFind_of_live h hi hkey]

-- The key has none: the slot that is free or was seen longest ago starts over for it.
theorem lookup_missing (now : Int)
    (hmissing : ∀ i, (table.get i).inUse = true → (table.get i).key ≠ key) :
    flowLookupOrCreate table key now =
      ({ table.update (findFreeOrOldest table) (flowReset key now) with
          liveCount := if !(table.get (findFreeOrOldest table)).inUse then table.liveCount + 1
            else table.liveCount }, findFreeOrOldest table) := by
  rw [flowLookupOrCreate, flowFind_of_missing hmissing]

end Lookup

-- packet_callback reads and rewrites the entry it got until it evicts at the same time, and
-- what it writes there leaves last_seen at `now`.
theorem lookup_touches_one_slot {table : FlowTable} (h : FlowInv table) (key : FlowKey) (now : Int)
    {timeout : Int} (ht : 0 ≤ timeout) :
    let after := (flowLookupOrCreate table key now).1
    let flow := (flowLookupOrCreate table key now).2
    flow < FLOW_TABLE_MAX ∧
    (∀ i, (table.get i).inUse = true → (table.get i).key = key →
      flow = i ∧ after.get flow = { table.get i with lastSeen := now } ∧
      after.liveCount = table.liveCount) ∧
    ((∀ i, (table.get i).inUse = true → (table.get i).key ≠ key) →
      ((table.get flow).inUse = false ∨
        (∀ j < FLOW_TABLE_MAX, (table.get j).inUse = true) ∧
          ∀ j < FLOW_TABLE_MAX, (table.get flow).lastSeen ≤ (table.get j).lastSeen) ∧
      after.get flow = flowReset key now ∧ (after.get flow).reasm = [] ∧
      (after.get flow).strategyDecided = false ∧ (after.get flow).classificationDone = false ∧
      after.liveCount =
        if !(table.get flow).inUse then table.liveCount + 1 else table.liveCount) ∧
    (∀ j ≠ flow, after.get j = table.get j) ∧
    (after.get flow).inUse = true ∧ (after.get flow).key = key ∧
    (flowEvictExpired after now timeout).1.get flow = after.get flow ∧
    ∀ e : FlowEntry, e.lastSeen = now →
      (flowEvictExpired (after.update flow e) now timeout).1.get flow = e := by
  by_cases hlive : ∃ i, (table.get i).inUse = true ∧ (table.get i).key = key
  · obtain ⟨i, hi, hkey⟩ := hlive
    have hlt := table.lt_of_inUse hi
    have hself := table.get_update_self hlt { table.get i with lastSeen := now }
    rw [lookup_live h now hi hkey]
    refine ⟨hlt, fun j hj hkj => ?_, fun hmissing => absurd hkey (hmissing i hi),
      fun j hj => table.get_update_of_ne hj _, by rw [hself]; exact hi, by rw [hself]; exact hkey,
      evict_keeps_seen_now ht (by rw [hself]), fun e he => ?_⟩
    · rw [h.unique j i hj hi (hkj.trans hkey.symm)]
      exact ⟨rfl, hself, rfl⟩
    · have hnew := FlowTable.get_update_self (table.update i { table.get i with lastSeen := now }) hlt e
      rw [evict_keeps_seen_now ht (by rw [hnew, he]), hnew]
  · have hmissing : ∀ i, (table.get i).inUse = true → (table.get i).key ≠ key :=
      fun i hi hkey => hlive ⟨i, hi, hkey⟩
    have hlt := findFreeOrOldest_lt table
    rw [lookup_missing now hmissing]
    intro after flow
    have hself : after.get flow = flowReset key now := table.get_update_self hlt _
    refine ⟨hlt, fun i hi hkey => absurd hkey (hmissing i hi), fun _ => ?_,
      fun j hj => table.get_update_of_ne hj _, by rw [hself]; rfl, by rw [hself]; rfl,
      evict_keeps_seen_now ht (by rw [hself]; rfl), fun e he => ?_⟩
    · rw [hself]
      exact ⟨findFreeOrOldest_spec table, rfl, rfl, rfl, rfl, rfl⟩
    · have hnew := FlowTable.get_update_self after hlt e
      rw [evict_keeps_seen_now ht (by rw [hnew, he]), hnew]

theorem lookup_touches_one_slot_first :
    let key : FlowKey := ⟨4, List.replicate 16 1, List.replicate 16 2, 40000, 443⟩
    FlowInv flowTableInit ∧ (0 : Int) ≤ 30 ∧
    (flowLookupOrCreate flowTableInit key 10).1.get (flowLookupOrCreate flowTableInit key 10).2 =
      flowReset key 10 := by
  intro key
  have hempty : ∀ i, (flowTableInit.get i).inUse = true → (flowTableInit.get i).key ≠ key := by
    intro i hi
    rw [get_flowTableInit] at hi
    cases hi
  exact ⟨flowInv_init, by simp,
    ((lookup_touches_one_slot flowInv_init key 10 (show (0 : Int) ≤ 30 by simp)).2.2.1 hempty).2.1⟩

end DpiProxy.Flow
