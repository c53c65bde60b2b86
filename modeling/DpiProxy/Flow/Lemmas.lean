import DpiProxy.Flow

namespace DpiProxy.Flow

open Wire

theorem flowKeyEqual_iff (a b : FlowKey) : flowKeyEqual a b = true ↔ a = b := by
  cases a
  cases b
  simp only [flowKeyEqual, FlowKey.mk.injEq]
  split_ifs <;> grind

namespace FlowTable

variable (table : FlowTable)

theorem getElem_entries {i : Nat} (h : i < table.entries.length) : table.entries[i] = table.get i := by
  rw [FlowTable.get, List.getD_eq_getElem?_getD, List.getElem?_eq_getElem h, Option.getD_some]

theorem get_of_lt {i : Nat} (h : i < FLOW_TABLE_MAX) :
    table.entries[i]? = some (table.get i) := by
  have hlt : i < table.entries.length := by rw [table.size]; exact h
  rw [List.getElem?_eq_getElem hlt, getElem_entries]

theorem get_of_ge {i : Nat} (h : FLOW_TABLE_MAX ≤ i) : table.get i = .zero := by
  have hle : table.entries.length ≤ i := by rw [table.size]; exact h
  rw [FlowTable.get, List.getD_eq_getElem?_getD, List.getElem?_eq_none hle, Option.getD_none]

-- Only a slot of the table can hold a live entry.
theorem lt_of_inUse {i : Nat} (h : (table.get i).inUse = true) : i < FLOW_TABLE_MAX := by
  by_contra hge
  rw [table.get_of_ge (by omega)] at h
  cases h

@[simp] theorem get_update_self {i : Nat} (h : i < FLOW_TABLE_MAX) (e : FlowEntry) :
    (table.update i e).get i = e := by
  have hlt : i < table.entries.length := by rw [table.size]; exact h
  simp only [FlowTable.get, FlowTable.update, List.getD_eq_getElem?_getD, List.getElem?_set_self hlt,
    Option.getD_some]

@[simp] theorem get_update_of_ne {i j : Nat} (h : j ≠ i) (e : FlowEntry) :
    (table.update i e).get j = table.get j := by
  simp only [FlowTable.get, FlowTable.update, List.getD_eq_getElem?_getD,
    List.getElem?_set_ne (Ne.symm h)]

end FlowTable

theorem get_flowTableInit (i : Nat) : flowTableInit.get i = .zero := by
  rw [FlowTable.get, List.getD_eq_getElem?_getD, flowTableInit]
  by_cases h : i < FLOW_TABLE_MAX
  · rw [List.getElem?_replicate_of_lt h, Option.getD_some]
  · rw [List.getElem?_eq_none (by rw [List.length_replicate]; omega), Option.getD_none]

theorem flowFind_some {table : FlowTable} {key : FlowKey} {i : Nat}
    (h : flowFind table key = some i) :
    i < FLOW_TABLE_MAX ∧ (table.get i).inUse = true ∧ (table.get i).key = key := by
  obtain ⟨hlt, hp, -⟩ := List.findIdx?_eq_some_iff_getElem.mp h
  have hmax : i < FLOW_TABLE_MAX := table.size ▸ hlt
  rw [table.getElem_entries hlt, Bool.and_eq_true, flowKeyEqual_iff] at hp
  exact ⟨hmax, hp⟩

theorem flowFind_none {table : FlowTable} {key : FlowKey} (h : flowFind table key = none) {i : Nat}
    (hi : (table.get i).inUse = true) : (table.get i).key ≠ key := by
  intro hkey
  have hmem := List.mem_of_getElem? (table.get_of_lt (table.lt_of_inUse hi))
  have hp := List.findIdx?_eq_none_iff.mp h _ hmem
  rw [hi, Bool.true_and] at hp
  exact Bool.false_ne_true (hp.symm.trans ((flowKeyEqual_iff _ _).mpr hkey))

theorem findOldest_lt (l : List FlowEntry) : ∀ (i oldest : Nat) (seen : Int), oldest < i →
    findOldest l i oldest seen < i + l.length := by
  induction l with
  | nil =>
      intro i oldest seen h
      exact h
  | cons e rest ih =>
      intro i oldest seen h
      rw [findOldest, List.length_cons]
      split
      · have := ih (i + 1) i e.lastSeen (by omega)
        omega
      · have := ih (i + 1) oldest seen (by omega)
        omega

theorem findFreeOrOldest_lt (table : FlowTable) : findFreeOrOldest table < FLOW_TABLE_MAX := by
  have hsize := table.size
  rw [findFreeOrOldest]
  split
  · rename_i i hi
    obtain ⟨hlt, -⟩ := List.findIdx?_eq_some_iff_getElem.mp hi
    omega
  · have hlt := findOldest_lt (table.entries.drop 1) 1 0 (table.get 0).lastSeen (by omega)
    have hpos : 0 < FLOW_TABLE_MAX := by decide
    rw [List.length_drop] at hlt
    omega

-- What flow_lookup_or_create can do: touch the live entry of the key, or put a
-- fresh entry in one slot.
theorem flowLookupOrCreate_cases (table : FlowTable) (key : FlowKey) (now : Int) :
    (∃ i, flowFind table key = some i ∧ flowLookupOrCreate table key now =
      (table.update i { table.get i with lastSeen := now }, i)) ∨
    (flowFind table key = none ∧ ∃ i < FLOW_TABLE_MAX, ∃ liveCount,
      flowLookupOrCreate table key now =
        ({ table.update i (flowReset key now) with liveCount := liveCount }, i)) := by
  rw [flowLookupOrCreate]
  cases h : flowFind table key with
  | some i => exact .inl ⟨i, rfl, rfl⟩
  | none => exact .inr ⟨rfl, findFreeOrOldest table, findFreeOrOldest_lt table, _, rfl⟩

@[simp] theorem get_withLiveCount (table : FlowTable) (n : UInt64) (i : Nat) :
    FlowTable.get { table with liveCount := n } i = table.get i := rfl

-- An eviction zeroes the expired entries and keeps the others.
theorem get_flowEvictExpired (table : FlowTable) (now timeout : Int) (i : Nat) :
    (flowEvictExpired table now timeout).1.get i =
      if flowExpired now timeout (table.get i) then .zero else table.get i := by
  by_cases h : i < FLOW_TABLE_MAX
  · have hget := table.get_of_lt h
    simp only [flowEvictExpired, FlowTable.get, List.getD_eq_getElem?_getD, List.getElem?_map] at hget ⊢
    rw [hget]
    rfl
  · have hz := table.get_of_ge (i := i) (by omega)
    rw [FlowTable.get_of_ge _ (by omega), hz]
    split <;> rfl

theorem get_flowInvalidateDecisions (table : FlowTable) (i : Nat) :
    (flowInvalidateDecisions table).1.get i = flowInvalidate (table.get i) := by
  by_cases h : i < FLOW_TABLE_MAX
  · have hget := table.get_of_lt h
    simp only [flowInvalidateDecisions, FlowTable.get, List.getD_eq_getElem?_getD,
      List.getElem?_map] at hget ⊢
    rw [hget]
    rfl
  · rw [FlowTable.get_of_ge _ (by omega), FlowTable.get_of_ge _ (by omega)]
    rfl

-- The sequence guard refuses a segment, or takes it and expects the byte after it.
theorem flowSeqIsNext_cases (flow : FlowEntry) (seq : UInt32) (payloadLen : Nat) :
    flowSeqIsNext flow seq payloadLen = (false, flow) ∨
    (payloadLen ≠ 0 ∧ (flow.seqInitialized = true → seq = flow.nextSeq) ∧
      flowSeqIsNext flow seq payloadLen = (true, { flow with
        seqInitialized := true
        nextSeq := seq + UInt32.ofNat payloadLen })) := by
  unfold flowSeqIsNext
  by_cases hlen : payloadLen = 0
  · rw [if_pos hlen]
    exact .inl rfl
  · rw [if_neg hlen]
    cases hinit : flow.seqInitialized with
    | false => exact .inr ⟨hlen, nofun, rfl⟩
    | true =>
        by_cases hseq : seq = flow.nextSeq
        · refine .inr ⟨hlen, fun _ => hseq, ?_⟩
          rw [if_neg (by simp), if_neg (by simp [hseq]), hseq, ← hinit]
        · rw [if_neg (by simp), if_pos hseq]
          exact .inl rfl

-- No two live entries share a key.
def KeysUnique (table : FlowTable) : Prop :=
  ∀ i j, (table.get i).inUse = true → (table.get j).inUse = true →
    (table.get i).key = (table.get j).key → i = j

theorem keysUnique_init : KeysUnique flowTableInit := by
  intro i j hi
  rw [get_flowTableInit] at hi
  cases hi

-- Dropping live entries or changing other fields keeps the keys apart.
theorem KeysUnique.of_sub {table table' : FlowTable} (h : KeysUnique table)
    (hsub : ∀ i, (table'.get i).inUse = true →
      (table.get i).inUse = true ∧ (table.get i).key = (table'.get i).key) : KeysUnique table' := by
  intro i j hi hj hkey
  obtain ⟨hi', hki⟩ := hsub i hi
  obtain ⟨hj', hkj⟩ := hsub j hj
  exact h i j hi' hj' (hki.trans (hkey.trans hkj.symm))

-- Writing an entry whose key no other live entry holds.
theorem KeysUnique.of_slot {table table' : FlowTable} (h : KeysUnique table) (slot : Nat)
    (key : FlowKey)
    (hother : ∀ i ≠ slot, (table'.get i).inUse = true → table'.get i = table.get i)
    (hkey : (table'.get slot).key = key)
    (hnew : ∀ i ≠ slot, (table.get i).inUse = true → (table.get i).key ≠ key) :
    KeysUnique table' := by
  intro i j hi hj hij
  by_cases his : i = slot
  · by_cases hjs : j = slot
    · rw [his, hjs]
    · have hsame := hother j hjs hj
      rw [his, hkey, hsame] at hij
      exact absurd hij.symm (hnew j hjs (hsame ▸ hj))
  · have hsame := hother i his hi
    by_cases hjs : j = slot
    · rw [hjs, hkey, hsame] at hij
      exact absurd hij (hnew i his (hsame ▸ hi))
    · have hsame' := hother j hjs hj
      rw [hsame, hsame'] at hij
      exact h i j (hsame ▸ hi) (hsame' ▸ hj) hij

end DpiProxy.Flow
