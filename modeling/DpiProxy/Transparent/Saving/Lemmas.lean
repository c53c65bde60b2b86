import DpiProxy.Transparent.Saving

namespace DpiProxy.Transparent.Saving

open Wire CText

section Scan

theorem lineEntry_scanned {line : Bytes} {e : TpDecision} (hnul : 0 ∉ line)
    (h : lineEntry line = some e) : Scanned e := by
  obtain ⟨hknown, hdirect, hstream⟩ := lineEntry_fields h
  simp only [lineEntry, scanLine, Option.bind_eq_bind, Option.bind_eq_some_iff,
    Option.guard_eq_some'] at h
  obtain ⟨fields, ⟨⟨host, rest⟩, hhost, _, -, _, -, _, -, _, -, _, -, hfields⟩,
    -, ⟨hfamily, -⟩, _, -, -, -, _, -, -, -, he⟩ := h
  obtain rfl := Option.some.inj hfields
  obtain rfl := Option.some.inj he
  obtain ⟨hne, hlen, hplain⟩ := scanString_some hhost
  refine ⟨hne, Nat.lt_succ_of_le hlen, fun c hc => ?_, hfamily, hknown, hstream, hdirect⟩
  refine ⟨(hplain c hc).1, ?_⟩
  rintro rfl
  exact hnul (hplain 0 hc).2

theorem lineText_nul (line : Bytes) : 0 ∉ lineText line := by
  intro hmem
  have hcstr := (List.dropWhile_sublist _).subset hmem
  have hne := List.mem_takeWhile_imp hcstr
  exact absurd hne (by simp)

theorem plain_tolower (c : UInt8) :
    isspace (tolower c) = isspace c ∧ (tolower c = 0 ↔ c = 0) := by
  revert c
  exact forall_byte (by decide +kernel)

-- A host that differs in case only is read as well.
theorem scanned_congr {x e : TpDecision} (h : Scanned e) (hkey : x.key = e.key)
    (hstep : x.step = e.step) : Scanned x := by
  obtain ⟨hhost, hrest⟩ := Prod.mk.inj hkey
  obtain ⟨hfp, hfamily⟩ := Prod.mk.inj hrest
  have hlen : x.host.length = e.host.length := by
    have hcount := congrArg List.length hhost
    rwa [List.length_map, List.length_map] at hcount
  refine ⟨?_, hlen ▸ h.fits, fun c hc => ?_, hfamily ▸ h.family, hfp ▸ h.known, hstep ▸ h.streams,
    hstep ▸ h.noDirect⟩
  · rw [← List.length_pos_iff, hlen, List.length_pos_iff]
    exact h.nonempty
  · have hmem : tolower c ∈ e.host.map tolower := hhost ▸ List.mem_map_of_mem hc
    obtain ⟨b, hb, hfold⟩ := List.mem_map.mp hmem
    obtain ⟨hspace, hnul⟩ := h.plain b hb
    rw [← (plain_tolower c).1, ne_eq, ← (plain_tolower c).2, ← hfold, (plain_tolower b).1,
      (plain_tolower b).2]
    exact ⟨hspace, hnul⟩

end Scan

section Updates

variable {d : TpDecisions}

theorem apply_scanned {u : Update} (hputs : ∀ e, u.Puts e → Scanned e)
    (h : ∀ e ∈ d.entries, Scanned e) : ∀ e ∈ (u.apply d).entries, Scanned e := by
  intro x hx
  obtain hx | ⟨e, he, hkey, hstep, -⟩ := (update_effect d u).mem hx
  · exact h x hx
  · exact scanned_congr (hputs e he) hkey hstep

theorem puts_read {line : Bytes} {e : TpDecision} (h : (Update.read line).Puts e) : Scanned e :=
  lineEntry_scanned (lineText_nul line) h.2

-- A file is read line by line.
theorem parse_updates (d : TpDecisions) (text : Bytes) : (tpDecisionsParse d text).1 =
    Update.apply (((textLines text).map Update.read).foldl Update.apply d) .loaded := by
  have happly := apply_eq_updates d (.parse text)
  rw [Call.apply, Call.updates, List.foldl_append] at happly
  exact happly

theorem parse_entries_eq (d : TpDecisions) (text : Bytes) : (tpDecisionsParse d text).1.entries =
    (((textLines text).map Update.read).foldl Update.apply d).entries := by
  rw [parse_updates]
  rfl

-- Reading a file keeps what every update keeps.
theorem parse_keeps (P : TpDecisions → Prop)
    (hread : ∀ d line, P d → P (Update.apply d (.read line)))
    (hloaded : ∀ d, P d → P (Update.apply d .loaded)) (text : Bytes) (h : P d) :
    P (tpDecisionsParse d text).1 := by
  rw [parse_updates]
  refine hloaded _ ?_
  generalize textLines text = lines
  induction lines generalizing d with
  | nil => exact h
  | cons line lines ih =>
      rw [List.map_cons, List.foldl_cons]
      exact ih (hread d line h)

theorem parse_inv (text : Bytes) (h : DecisionsInv d) : DecisionsInv (tpDecisionsParse d text).1 :=
  parse_keeps DecisionsInv (fun _ line => apply_inv (.read line)) (fun _ => apply_inv .loaded) text h

theorem parse_scanned (text : Bytes) (h : ∀ e ∈ d.entries, Scanned e) :
    ∀ e ∈ (tpDecisionsParse d text).1.entries, Scanned e :=
  parse_keeps (fun d => ∀ e ∈ d.entries, Scanned e)
    (fun _ _ h => apply_scanned (fun _ => puts_read) h) (fun _ h => h) text h

-- A new entry goes behind the others while the store is not full.
theorem putEntry_new_entries (h : DecisionsInv d) {host : Bytes} {fp : UInt64} {family : Int32}
    (hfind : find d host fp family = none) (step : TpStep) (validatedAt : Int64) :
    (putEntry d host fp family step validatedAt).entries =
      if d.entries.length < TP_DECISIONS_MAX then
        d.entries ++ [⟨host, fp, family, step, validatedAt⟩]
      else d.entries.set (Table.minIndex (·.validatedAt.toInt) d.entries)
        ⟨host, fp, family, step, validatedAt⟩ := by
  have hcount := h.count
  have hcapacity := h.capacity
  have hset : ∀ e : TpDecision,
      (d.entries ++ [TpDecision.zero]).set d.entries.length e = d.entries ++ [e] := by
    intro e
    rw [List.set_append_right _ _ le_rfl, Nat.sub_self]
    rfl
  unfold putEntry newSlot
  rw [hfind]
  dsimp only
  by_cases hroom : d.entries.length < d.cap
  · rw [if_pos hroom, if_pos (by omega)]
    exact hset _
  by_cases hgrow : d.cap < TP_DECISIONS_MAX
  · have hmax : d.entries.length < TP_DECISIONS_MAX := by omega
    rw [if_neg hroom, if_pos hgrow, if_pos hmax]
    exact hset _
  · rw [if_neg hroom, if_neg hgrow, if_neg (by omega)]

-- What a line of the file does to any store.
def put (d : TpDecisions) (e : TpDecision) : TpDecisions :=
  putEntry d e.host e.fingerprint e.family e.step e.validatedAt

theorem read_cases (line : Bytes) : (∀ d, Update.apply d (.read line) = d) ∨
    ∃ e, ∀ d, Update.apply d (.read line) = put d e := by
  by_cases hskip : (lineText line).headD 0 = 0 ∨ (lineText line).headD 0 = 35
  · left
    intro d
    rw [Update.apply, parseOne, if_pos hskip]
  · cases he : lineEntry (lineText line) with
    | none =>
        left
        intro d
        rw [Update.apply, parseOne, if_neg hskip, parseLine, he]
    | some e =>
        right
        refine ⟨e, fun d => ?_⟩
        rw [Update.apply, parseOne, if_neg hskip, parseLine, he]
        rfl

theorem find_congr {d' : TpDecisions} (heq : d.entries = d'.entries) (host : Bytes) (fp : UInt64)
    (family : Int32) : find d host fp family = find d' host fp family := by
  rw [find, find, heq]

-- The entries of a store decide what becomes of them.
theorem put_congr {d' : TpDecisions} (h : DecisionsInv d) (h' : DecisionsInv d')
    (heq : d.entries = d'.entries) (e : TpDecision) : (put d e).entries = (put d' e).entries := by
  have hfind := find_congr heq e.host e.fingerprint e.family
  unfold put
  cases hfind' : find d' e.host e.fingerprint e.family with
  | none =>
      rw [putEntry_new_entries h (hfind.trans hfind'), putEntry_new_entries h' hfind', heq]
  | some i =>
      unfold putEntry
      rw [hfind, hfind']
      dsimp only
      rw [TpDecisions.entry, TpDecisions.entry, heq]

theorem parse_congr {d' : TpDecisions} (h : DecisionsInv d) (h' : DecisionsInv d')
    (heq : d.entries = d'.entries) (text : Bytes) :
    (tpDecisionsParse d text).1.entries = (tpDecisionsParse d' text).1.entries := by
  rw [parse_entries_eq, parse_entries_eq]
  generalize textLines text = lines
  induction lines generalizing d d' with
  | nil => exact heq
  | cons line lines ih =>
      rw [List.map_cons, List.foldl_cons, List.foldl_cons]
      refine ih (apply_inv _ h) (apply_inv _ h') ?_
      obtain hskipped | ⟨e, hput⟩ := read_cases line
      · rw [hskipped, hskipped]
        exact heq
      · rw [hput, hput]
        exact put_congr h h' heq e

-- A call that does not mark the store has left the entries alone.
theorem store_dirty (d : TpDecisions) (call : StoreCall) :
    (call.apply d).dirty = true ∨
      ((call.apply d).entries = d.entries ∧ (call.apply d).dirty = d.dirty) := by
  have hcooldown : ∀ host, (clearCooldown d host).dirty = d.dirty := by
    intro host
    unfold clearCooldown
    split <;> rfl
  cases call with
  | success host fp family now step =>
      show (tpDecisionSuccess d host fp family now step).dirty = true ∨ _
      have hsame := And.intro (clearCooldown_entries d host).1 (hcooldown host)
      unfold StoreCall.apply tpDecisionSuccess
      dsimp only
      split
      · exact .inr hsame
      · split
        · split
          · exact .inr hsame
          · exact .inl rfl
        · split
          · exact .inr hsame
          · exact .inl rfl
  | failure host fp family now =>
      unfold StoreCall.apply tpDecisionFailure
      dsimp only
      split
      · exact .inr ⟨by split <;> rfl, by split <;> rfl⟩
      · exact .inl rfl
  | directBadMark host fp family now =>
      unfold StoreCall.apply tpDirectBadMark
      dsimp only
      split <;> exact .inr ⟨rfl, rfl⟩
  | networkChanged => exact .inr ⟨rfl, rfl⟩

end Updates

end DpiProxy.Transparent.Saving
