import DpiProxy.Flow.Lemmas

namespace DpiProxy.Flow

open Wire

-- The calls of flow.h on one table. A flow pointer is the index of its entry.
inductive Call where
  | lookupOrCreate (key : FlowKey) (now : Int)
  | evictExpired (now timeoutSeconds : Int)
  | restart (flow : Nat) (now : Int)
  | reasmAppend (flow : Nat) (data : Bytes)
  | seqIsNext (flow : Nat) (seq : UInt32) (payloadLen : Nat)
  | invalidateDecisions

def apply (table : FlowTable) : Call → FlowTable
  | .lookupOrCreate key now => (flowLookupOrCreate table key now).1
  | .evictExpired now timeoutSeconds => (flowEvictExpired table now timeoutSeconds).1
  | .restart flow now => table.update flow (flowRestart (table.get flow) now)
  | .reasmAppend flow data =>
      table.update flow ((flowReasmAppend (table.get flow) data).getD (table.get flow))
  | .seqIsNext flow seq payloadLen =>
      table.update flow (flowSeqIsNext (table.get flow) seq payloadLen).2
  | .invalidateDecisions => (flowInvalidateDecisions table).1

-- A flow pointer comes from flow_lookup_or_create and its entry is still live:
-- packet_callback uses the one it has just got, before it evicts anything.
def OnLiveFlow (table : FlowTable) : Call → Prop
  | .restart flow _ => (table.get flow).inUse = true
  | .reasmAppend flow _ => (table.get flow).inUse = true
  | .seqIsNext flow _ _ => (table.get flow).inUse = true
  | _ => True

def CallsOnLiveFlows (table : FlowTable) : List Call → Prop
  | [] => True
  | call :: calls => OnLiveFlow table call ∧ CallsOnLiveFlows (apply table call) calls

def liveEntries (table : FlowTable) : Nat := table.entries.countP (·.inUse)

structure FlowInv (table : FlowTable) : Prop where
  live : table.liveCount.toNat = liveEntries table
  unique : KeysUnique table
  unused : ∀ i, (table.get i).inUse = false → table.get i = .zero
  reasm : ∀ i, (table.get i).reasm.length ≤ FLOW_REASSEMBLY_CAP

theorem liveEntries_le (table : FlowTable) : liveEntries table ≤ FLOW_TABLE_MAX := by
  have hle := List.countP_le_length (p := fun e : FlowEntry => e.inUse) (l := table.entries)
  rwa [table.size] at hle

theorem flowInv_init : FlowInv flowTableInit where
  live := by
    simp only [liveEntries, flowTableInit, List.countP_replicate]
    rfl
  unique := keysUnique_init
  unused := fun i _ => get_flowTableInit i
  reasm := by
    intro i
    rw [get_flowTableInit]
    exact Nat.zero_le _

-- Writing one slot changes the number of live entries by what it held and what it
-- holds now.
theorem liveEntries_update (table : FlowTable) {i : Nat} (hi : i < FLOW_TABLE_MAX) (e : FlowEntry) :
    liveEntries (table.update i e) + (if (table.get i).inUse then 1 else 0) =
      liveEntries table + (if e.inUse then 1 else 0) := by
  have hlt : i < table.entries.length := by rw [table.size]; exact hi
  have hget := table.getElem_entries hlt
  have hpos : (table.get i).inUse = true → 0 < liveEntries table := by
    intro huse
    exact List.countP_pos_iff.mpr ⟨_, List.getElem_mem hlt, by rw [hget, huse]⟩
  have hset := List.countP_set (p := fun e : FlowEntry => e.inUse) (a := e) hlt
  rw [hget] at hset
  rw [show liveEntries (table.update i e) = _ from hset, show table.entries.countP _ = liveEntries table
    from rfl]
  split_ifs with h₁ h₂ <;> grind

-- An entry rewritten in place: still live, with its key, and with a buffer in bounds.
theorem FlowInv.rewrite {table : FlowTable} (h : FlowInv table) {i : Nat} {e : FlowEntry}
    (hlive : (table.get i).inUse = true) (huse : e.inUse = true) (hkey : e.key = (table.get i).key)
    (hcap : e.reasm.length ≤ FLOW_REASSEMBLY_CAP) : FlowInv (table.update i e) := by
  have hlt := table.lt_of_inUse hlive
  have hget : ∀ j, (table.update i e).get j = if j = i then e else table.get j := by
    intro j
    by_cases hj : j = i
    · rw [if_pos hj, hj, FlowTable.get_update_self _ hlt]
    · rw [if_neg hj, FlowTable.get_update_of_ne _ hj]
  constructor
  · have hcount := liveEntries_update table hlt e
    rw [hlive, huse] at hcount
    exact h.live.trans (Nat.add_right_cancel hcount).symm
  · refine h.unique.of_sub fun j hj => ?_
    rw [hget] at hj ⊢
    by_cases hji : j = i
    · rw [if_pos hji, hji]
      exact ⟨hlive, hkey.symm⟩
    · rw [if_neg hji] at hj ⊢
      exact ⟨hj, rfl⟩
  · intro j hj
    rw [hget] at hj ⊢
    by_cases hji : j = i
    · rw [if_pos hji, huse] at hj
      cases hj
    · rw [if_neg hji] at hj ⊢
      exact h.unused j hj
  · intro j
    rw [hget]
    split
    · exact hcap
    · exact h.reasm j

-- A fresh entry in a free slot makes one more live entry; in a slot taken from
-- another flow it makes none.
theorem FlowInv.create {table : FlowTable} (h : FlowInv table) {key : FlowKey}
    (hnone : flowFind table key = none) (now : Int) {slot : Nat} (hlt : slot < FLOW_TABLE_MAX) :
    FlowInv { table.update slot (flowReset key now) with
      liveCount := if !(table.get slot).inUse then table.liveCount + 1 else table.liveCount } := by
  have hself := FlowTable.get_update_self table hlt (flowReset key now)
  have hother : ∀ j ≠ slot, (table.update slot (flowReset key now)).get j = table.get j :=
    fun j hj => FlowTable.get_update_of_ne table hj _
  constructor
  · have hcount := liveEntries_update table hlt (flowReset key now)
    have hmax := liveEntries_le (table.update slot (flowReset key now))
    have hlive := h.live
    have hroom : (4096 : Nat) = FLOW_TABLE_MAX := rfl
    show (if !(table.get slot).inUse then table.liveCount + 1 else table.liveCount).toNat =
      liveEntries (table.update slot (flowReset key now))
    rw [show (flowReset key now).inUse = true from rfl, if_pos rfl] at hcount
    cases huse : (table.get slot).inUse with
    | false =>
        rw [huse, if_neg (by simp)] at hcount
        rw [Bool.not_false, if_pos rfl, UInt64.toNat_add, UInt64.toNat_one]
        omega
    | true =>
        rw [huse, if_pos rfl] at hcount
        rw [Bool.not_true, if_neg (by simp)]
        omega
  · refine h.unique.of_slot slot key (fun j hj _ => ?_) ?_ (fun j _ hj => flowFind_none hnone hj)
    · rw [get_withLiveCount, hother j hj]
    · rw [get_withLiveCount, hself]
      rfl
  · intro j hj
    rw [get_withLiveCount] at hj ⊢
    by_cases hjs : j = slot
    · rw [hjs, hself] at hj
      cases hj
    · rw [hother j hjs] at hj ⊢
      exact h.unused j hj
  · intro j
    rw [get_withLiveCount]
    by_cases hjs : j = slot
    · rw [hjs, hself]
      exact Nat.zero_le _
    · rw [hother j hjs]
      exact h.reasm j

theorem FlowInv.lookup {table : FlowTable} (h : FlowInv table) (key : FlowKey) (now : Int) :
    FlowInv (flowLookupOrCreate table key now).1 := by
  rw [flowLookupOrCreate]
  cases hfind : flowFind table key with
  | some i =>
      obtain ⟨-, hlive, -⟩ := flowFind_some hfind
      exact h.rewrite hlive hlive rfl (h.reasm i)
  | none => exact h.create hfind now (findFreeOrOldest_lt table)

-- What an eviction zeroes is live, so the counter cannot fall below zero.
theorem liveEntries_evict (table : FlowTable) (now timeout : Int) :
    liveEntries (flowEvictExpired table now timeout).1 + (flowEvictExpired table now timeout).2 =
      liveEntries table := by
  simp only [liveEntries, flowEvictExpired, List.countP_map]
  induction table.entries with
  | nil => rfl
  | cons e rest ih =>
      simp only [List.countP_cons, Function.comp_apply]
      have hzero : FlowEntry.zero.inUse = false := rfl
      cases huse : e.inUse <;> cases hexp : decide (now - e.lastSeen > timeout) <;>
        simp only [flowExpired, huse, hexp, Bool.and_true, Bool.and_false, hzero, if_true,
          Bool.false_eq_true, if_false] at ih ⊢ <;> omega

theorem FlowInv.evict {table : FlowTable} (h : FlowInv table) (now timeout : Int) :
    FlowInv (flowEvictExpired table now timeout).1 := by
  constructor
  · have hcount := liveEntries_evict table now timeout
    have hmax := liveEntries_le table
    have hroom : (4096 : Nat) = FLOW_TABLE_MAX := rfl
    have hlive := h.live
    generalize hn : (flowEvictExpired table now timeout).2 = n at hcount
    have hless : (flowEvictExpired table now timeout).1.liveCount = table.liveCount - UInt64.ofNat n := by
      rw [← hn]
      rfl
    have hsmall : (UInt64.ofNat n).toNat = n := by
      rw [UInt64.toNat_ofNat']
      exact Nat.mod_eq_of_lt (by omega)
    rw [hless, UInt64.toNat_sub_of_le _ _ (UInt64.le_iff_toNat_le.mpr (by omega)), hsmall]
    omega
  · refine h.unique.of_sub fun i hi => ?_
    rw [get_flowEvictExpired] at hi ⊢
    split at hi
    · cases hi
    · rename_i hexp
      rw [if_neg hexp]
      exact ⟨hi, rfl⟩
  · intro i hi
    rw [get_flowEvictExpired] at hi ⊢
    split
    · rfl
    · rename_i hexp
      rw [if_neg hexp] at hi
      exact h.unused i hi
  · intro i
    rw [get_flowEvictExpired]
    split
    · exact Nat.zero_le _
    · exact h.reasm i

theorem flowInvalidate_inUse (e : FlowEntry) : (flowInvalidate e).inUse = e.inUse := by
  unfold flowInvalidate
  split <;> rfl

theorem flowInvalidate_key (e : FlowEntry) : (flowInvalidate e).key = e.key := by
  unfold flowInvalidate
  split <;> rfl

theorem flowInvalidate_reasm (e : FlowEntry) : (flowInvalidate e).reasm = e.reasm := by
  unfold flowInvalidate
  split <;> rfl

theorem FlowInv.invalidate {table : FlowTable} (h : FlowInv table) :
    FlowInv (flowInvalidateDecisions table).1 := by
  constructor
  · have hsame : ((fun e : FlowEntry => e.inUse) ∘ flowInvalidate) = fun e => e.inUse :=
      funext flowInvalidate_inUse
    simp only [liveEntries, flowInvalidateDecisions, List.countP_map, hsame]
    exact h.live
  · refine h.unique.of_sub fun i hi => ?_
    rw [get_flowInvalidateDecisions] at hi ⊢
    exact ⟨flowInvalidate_inUse _ ▸ hi, (flowInvalidate_key _).symm⟩
  · intro i hi
    rw [get_flowInvalidateDecisions, flowInvalidate_inUse] at hi
    rw [get_flowInvalidateDecisions, h.unused i hi]
    rfl
  · intro i
    rw [get_flowInvalidateDecisions, flowInvalidate_reasm]
    exact h.reasm i

theorem flowSeqIsNext_entry (flow : FlowEntry) (seq : UInt32) (payloadLen : Nat) :
    (flowSeqIsNext flow seq payloadLen).2.inUse = flow.inUse ∧
    (flowSeqIsNext flow seq payloadLen).2.key = flow.key ∧
    (flowSeqIsNext flow seq payloadLen).2.reasm = flow.reasm := by
  obtain h | ⟨-, -, h⟩ := flowSeqIsNext_cases flow seq payloadLen
  · rw [h]
    exact ⟨rfl, rfl, rfl⟩
  · rw [h]
    exact ⟨rfl, rfl, rfl⟩

theorem flowInv_apply {table : FlowTable} (h : FlowInv table) {call : Call}
    (hlive : OnLiveFlow table call) : FlowInv (apply table call) := by
  cases call with
  | lookupOrCreate key now => exact h.lookup key now
  | evictExpired now timeoutSeconds => exact h.evict now timeoutSeconds
  | restart flow now => exact h.rewrite hlive rfl rfl (Nat.zero_le _)
  | reasmAppend flow data =>
      simp only [apply, flowReasmAppend]
      split
      · exact h.rewrite hlive hlive rfl (h.reasm flow)
      · rename_i hfits
        refine h.rewrite hlive hlive rfl ?_
        rw [Option.getD_some, List.length_append]
        omega
  | seqIsNext flow seq payloadLen =>
      obtain ⟨huse, hkey, hreasm⟩ := flowSeqIsNext_entry (table.get flow) seq payloadLen
      refine h.rewrite hlive (huse.trans hlive) hkey ?_
      rw [hreasm]
      exact h.reasm flow
  | invalidateDecisions => exact h.invalidate

theorem flowInv_foldl (calls : List Call) : ∀ table : FlowTable, FlowInv table →
    CallsOnLiveFlows table calls → FlowInv (calls.foldl apply table) := by
  induction calls with
  | nil =>
      intro table h _
      exact h
  | cons call calls ih =>
      intro table h hcalls
      exact ih (apply table call) (flowInv_apply h hcalls.1) hcalls.2

theorem calls_keep_table {calls : List Call} (hcalls : CallsOnLiveFlows flowTableInit calls) :
    let table := calls.foldl apply flowTableInit
    table.liveCount.toNat = (table.entries.filter (·.inUse)).length ∧
    table.liveCount.toNat ≤ FLOW_TABLE_MAX ∧
    (∀ i j, (table.get i).inUse = true → (table.get j).inUse = true →
      (table.get i).key = (table.get j).key → i = j) ∧
    (∀ e ∈ table.entries, e.inUse = false → e = .zero) ∧
    ∀ e ∈ table.entries, e.reasm.length ≤ FLOW_REASSEMBLY_CAP := by
  intro table
  have hinv : FlowInv table := flowInv_foldl calls flowTableInit flowInv_init hcalls
  have hmem : ∀ e ∈ table.entries, ∃ i, table.get i = e := by
    intro e he
    obtain ⟨i, hlt, rfl⟩ := List.mem_iff_getElem.mp he
    exact ⟨i, (table.getElem_entries hlt).symm⟩
  refine ⟨?_, ?_, hinv.unique, ?_, ?_⟩
  · rw [← List.countP_eq_length_filter]
    exact hinv.live
  · rw [hinv.live]
    exact liveEntries_le table
  · intro e he huse
    obtain ⟨i, rfl⟩ := hmem e he
    exact hinv.unused i huse
  · intro e he
    obtain ⟨i, rfl⟩ := hmem e he
    exact hinv.reasm i

-- A flow that is created, fills its buffer, is restarted and expires.
theorem calls_keep_table_lifetime :
    let key : FlowKey := ⟨4, List.replicate 16 1, List.replicate 16 2, 40000, 443⟩
    let calls : List Call := [.lookupOrCreate key 10, .seqIsNext 0 7 3, .reasmAppend 0 [1, 2, 3],
      .restart 0 20, .lookupOrCreate key 30, .invalidateDecisions, .evictExpired 61 30]
    CallsOnLiveFlows flowTableInit calls ∧
    ((calls.foldl apply flowTableInit).liveCount.toNat ≤ FLOW_TABLE_MAX) := by
  intro key calls
  have hlive : CallsOnLiveFlows flowTableInit calls := by
    refine ⟨trivial, ?_, ?_, ?_, trivial, trivial, trivial, trivial⟩
    · show (FlowTable.get _ 0).inUse = true
      decide +kernel
    · show (FlowTable.get _ 0).inUse = true
      decide +kernel
    · show (FlowTable.get _ 0).inUse = true
      decide +kernel
  exact ⟨hlive, (calls_keep_table hlive).2.1⟩

end DpiProxy.Flow
