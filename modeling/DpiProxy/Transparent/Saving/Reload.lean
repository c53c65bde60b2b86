import DpiProxy.Transparent.Saving.Lemmas

namespace DpiProxy.Transparent.Saving

open Wire CText

-- What a decision is about, as it is spelled.
def name (e : TpDecision) : Bytes × UInt64 × Int32 := (e.host, e.fingerprint, e.family)

theorem entry_getElem {d : TpDecisions} {i : Nat} (hi : i < d.entries.length) :
    d.entry i = d.entries[i] := by
  rw [TpDecisions.entry, List.getD_eq_getElem?_getD, List.getElem?_eq_getElem hi, Option.getD_some]

section Put

variable {d d' : TpDecisions} (e : TpDecision)

theorem put_some {i : Nat} (hfind : find d e.host e.fingerprint e.family = some i) :
    (put d e).entries =
      d.entries.set i { d.entry i with step := e.step, validatedAt := e.validatedAt } := by
  rw [put, putEntry, hfind]

theorem put_none (h : DecisionsInv d) (hfind : find d e.host e.fingerprint e.family = none)
    (hroom : d.entries.length < TP_DECISIONS_MAX) : (put d e).entries = d.entries ++ [e] := by
  rw [put, putEntry_new_entries h hfind, if_pos hroom]

theorem put_length (h : DecisionsInv d) : d.entries.length ≤ (put d e).entries.length := by
  cases hfind : find d e.host e.fingerprint e.family with
  | some i => rw [put_some e hfind, List.length_set]
  | none =>
      rw [put, putEntry_new_entries h hfind]
      split
      · rw [List.length_append]
        omega
      · rw [List.length_set]

-- While there is room, a decision keeps its place and its spelling.
theorem put_names (h : DecisionsInv d) (hroom : d.entries.length < TP_DECISIONS_MAX) :
    d.entries.map name <+: (put d e).entries.map name := by
  cases hfind : find d e.host e.fingerprint e.family with
  | some i =>
      have hi : i < d.entries.length := (List.findIdx?_eq_some_iff_getElem.mp hfind).1
      have hsame : name { d.entry i with step := e.step, validatedAt := e.validatedAt } = name d.entries[i] := by
        rw [entry_getElem hi]
        rfl
      have hkept : (d.entries.map name).set i (name d.entries[i]) = d.entries.map name := by
        rw [← List.map_set, List.set_getElem_self]
      rw [put_some e hfind, List.map_set, hsame, hkept]
  | none =>
      rw [put_none e h hfind hroom, List.map_append]
      exact List.prefix_append _ _

-- A store that is ahead looks for a decision where the other one does, and then behind it.
theorem find_ahead {rest : List TpDecision} (hrest : d'.entries ++ rest = d.entries) (host : Bytes)
    (fp : UInt64) (family : Int32) : find d host fp family = (find d' host fp family).or
      ((rest.findIdx? fun x => x.fingerprint = fp ∧ x.family = family ∧ ieq x.host host).map
        (· + d'.entries.length)) := by
  rw [find, ← hrest, List.findIdx?_append]
  rfl

-- A decision that is next where the other store has not got it yet is written over.
theorem put_next {x : TpDecision} {rest : List TpDecision} (hrest : d'.entries ++ x :: rest = d.entries)
    (hfind' : find d' e.host e.fingerprint e.family = none) (hname : name x = name e) :
    (put d e).entries = d'.entries ++ e :: rest := by
  obtain ⟨hhost, hname'⟩ := Prod.mk.inj hname
  obtain ⟨hfp, hfamily⟩ := Prod.mk.inj hname'
  have hfirst : (x :: rest).findIdx? (fun x => x.fingerprint = e.fingerprint ∧
      x.family = e.family ∧ ieq x.host e.host) = some 0 := by
    rw [List.findIdx?_cons, if_pos]
    simp [hhost, hfp, hfamily, (ieq_iff e.host e.host).mpr rfl]
  have hfind : find d e.host e.fingerprint e.family = some d'.entries.length := by
    rw [find_ahead hrest, hfind', hfirst, Option.none_or, Option.map_some, Nat.zero_add]
  have hx : d.entry d'.entries.length = x := by
    rw [TpDecisions.entry, ← hrest, List.getD_eq_getElem?_getD,
      List.getElem?_append_right le_rfl, Nat.sub_self]
    rfl
  have hentry : { x with step := e.step, validatedAt := e.validatedAt } = e := by
    rw [hhost, hfp, hfamily]
  rw [put_some e hfind, hx, hentry, ← hrest, List.set_append_right _ _ le_rfl, Nat.sub_self,
    List.set_cons_zero]

-- A store that is ahead of another one, as far as the decisions go that are still to come,
-- stays ahead.
theorem put_ahead {names : List (Bytes × UInt64 × Int32)} (h : DecisionsInv d) (h' : DecisionsInv d')
    (hahead : d'.entries <+: d.entries) (hnames : d.entries.map name <+: names)
    (hnext : (put d' e).entries.map name <+: names) (hroom : names.length < TP_DECISIONS_MAX) :
    (put d' e).entries <+: (put d e).entries ∧ (put d e).entries.map name <+: names := by
  obtain ⟨rest, hrest⟩ := hahead
  have hlen : d.entries.length < TP_DECISIONS_MAX := by
    have hle := hnames.length_le
    rw [List.length_map] at hle
    omega
  cases hfind' : find d' e.host e.fingerprint e.family with
  | some i =>
      -- Both have the decision, at one place.
      have hi : i < d'.entries.length := (List.findIdx?_eq_some_iff_getElem.mp hfind').1
      have hfind : find d e.host e.fingerprint e.family = some i := by
        rw [find_ahead hrest, hfind', Option.some_or]
      have hentry : d.entry i = d'.entry i := by
        rw [TpDecisions.entry, TpDecisions.entry, ← hrest, List.getD_eq_getElem?_getD,
          List.getD_eq_getElem?_getD, List.getElem?_append_left hi]
      have hsame : (put d e).entries.map name = d.entries.map name :=
        ((put_names e h hlen).eq_of_length (by rw [put_some e hfind, List.map_set, List.length_set])).symm
      rw [hsame]
      refine ⟨?_, hnames⟩
      rw [put_some e hfind', put_some e hfind, hentry, ← hrest, List.set_append_left _ _ hi]
      exact List.prefix_append _ _
  | none =>
      have hlen' : d'.entries.length < TP_DECISIONS_MAX := by
        rw [← hrest, List.length_append] at hlen
        omega
      rw [put_none e h' hfind' hlen'] at hnext ⊢
      cases rest with
      | nil =>
          rw [List.append_nil] at hrest
          have hfind := (find_congr hrest.symm e.host e.fingerprint e.family).trans hfind'
          rw [put_none e h hfind hlen, ← hrest]
          exact ⟨List.prefix_rfl, hnext⟩
      | cons x rest =>
          -- The one that is ahead has it next, since both have the same names.
          rw [← hrest, List.map_append, List.map_cons] at hnames
          have hname : name x = name e := by
            have hx := List.append_cons (d'.entries.map name) (name x) _ ▸ hnames
            rw [List.map_append] at hnext
            have hboth := List.prefix_of_prefix_length_le ((List.prefix_append _ _).trans hx) hnext (by simp)
            have heq := hboth.eq_of_length (by simp)
            exact (List.cons.inj (List.append_cancel_left heq)).1
          rw [put_next e hrest hfind' hname, List.map_append, List.map_cons, ← hname]
          exact ⟨⟨rest, List.append_assoc _ _ _⟩, hnames⟩

end Put

section Lines

variable {d d' : TpDecisions}

theorem lines_names (h : DecisionsInv d) (lines : List Bytes)
    (hroom : ((lines.map Update.read).foldl Update.apply d).entries.length < TP_DECISIONS_MAX) :
    d.entries.map name <+: ((lines.map Update.read).foldl Update.apply d).entries.map name := by
  induction lines generalizing d with
  | nil => exact List.prefix_rfl
  | cons line lines ih =>
      rw [List.map_cons, List.foldl_cons] at hroom ⊢
      have hrest := ih (apply_inv (.read line) h) hroom
      obtain hskipped | ⟨e, hput⟩ := read_cases line
      · rw [hskipped] at hrest ⊢
        exact hrest
      · rw [hput] at hroom hrest ⊢
        have hlen := put_length e h
        have hle := hrest.length_le
        rw [List.length_map, List.length_map] at hle
        exact (put_names e h (by omega)).trans hrest

theorem lines_ahead (h : DecisionsInv d) (h' : DecisionsInv d') (lines : List Bytes)
    (hahead : d'.entries <+: d.entries)
    (hnames : d.entries.map name <+: ((lines.map Update.read).foldl Update.apply d').entries.map name)
    (hroom : ((lines.map Update.read).foldl Update.apply d').entries.length < TP_DECISIONS_MAX) :
    ((lines.map Update.read).foldl Update.apply d).entries =
      ((lines.map Update.read).foldl Update.apply d').entries := by
  induction lines generalizing d d' with
  | nil =>
      have hle := hnames.length_le
      rw [List.length_map, List.length_map] at hle
      exact (hahead.eq_of_length_le hle).symm
  | cons line lines ih =>
      rw [List.map_cons, List.foldl_cons] at hnames hroom
      rw [List.map_cons, List.foldl_cons, List.foldl_cons]
      have hinv := apply_inv (.read line) h
      have hinv' := apply_inv (.read line) h'
      have hgrow := lines_names hinv' lines hroom
      obtain hskipped | ⟨e, hput⟩ := read_cases line
      · rw [hskipped] at hnames hroom ⊢
        rw [hskipped]
        exact ih h h' hahead hnames hroom
      · rw [hput] at hinv
        rw [hput] at hnames hroom hinv' hgrow ⊢
        rw [hput]
        obtain ⟨hahead', hnames'⟩ := put_ahead e h h' hahead hnames hgrow (by rwa [List.length_map])
        exact ih hinv hinv' hahead' hnames' hroom

end Lines

-- A file that is read into a store with the first of its own decisions, or with all of
-- them, gives what it gives to an empty one.
theorem reload_entries {d : TpDecisions} (h : DecisionsInv d) (text : Bytes)
    (hnames : d.entries.map name <+: (fileEntries (some text)).map name)
    (hroom : (fileEntries (some text)).length < TP_DECISIONS_MAX) :
    (tpDecisionsParse d text).1.entries = fileEntries (some text) := by
  rw [fileEntries, parse_entries_eq] at hnames hroom ⊢
  rw [parse_entries_eq]
  exact lines_ahead h init_inv (textLines text) List.nil_prefix hnames hroom

end DpiProxy.Transparent.Saving
