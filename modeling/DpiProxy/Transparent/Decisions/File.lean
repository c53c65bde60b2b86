import DpiProxy.Transparent.Hello
import DpiProxy.Transparent.Decisions.Theorems
import DpiProxy.Transparent.Plan.Lemmas
import Mathlib.Data.List.TakeWhile

namespace DpiProxy.Transparent

open Wire CText

-- What parse_hello lets through as a name, in the buffer it has for one.
def Hostname (host : Bytes) : Prop :=
  host ≠ [] ∧ host.length < STRATEGY_DOMAIN_MAX ∧ ∀ c ∈ host, isHostChar c = true

instance (host : Bytes) : Decidable (Hostname host) := inferInstanceAs (Decidable (_ ∧ _))

-- An entry that parse_line can read.
structure Scanned (e : TpDecision) : Prop where
  nonempty : e.host ≠ []
  fits : e.host.length < STRATEGY_DOMAIN_MAX
  plain : Plain e.host
  family : e.family = 4 ∨ e.family = 6
  known : e.fingerprint ≠ NETFP_UNKNOWN
  streams : IsStream e.step.strategy
  noDirect : ¬(e.step.target = .original ∧ e.step.strategy = .pass)

-- An entry that a line of the file can hold: it does not look like a comment.
structure Writable (e : TpDecision) : Prop extends Scanned e where
  noMark : e.host.head? ≠ some 35

section Line

variable {e : TpDecision}

-- The line of an entry without its line feed.
def entryText (e : TpDecision) : Bytes :=
  e.host ++ 32 :: (printHex16 e.fingerprint ++ 32 :: (printInt e.family.toInt ++ 32 ::
    (strategyName e.step.strategy ++ 32 :: (tpTargetName e.step.target ++ 32 ::
      printInt e.validatedAt.toInt))))

theorem entryLine_eq (e : TpDecision) : entryLine e = entryText e ++ [LF] := by
  simp only [entryLine, entryText, List.append_assoc, List.cons_append]

theorem hostChar_plain (c : UInt8) (h : isHostChar c = true) :
    isspace c = false ∧ c ≠ 0 ∧ c ≠ 35 := by
  revert c
  exact forall_byte (by decide +kernel)

theorem space_not_blank (c : UInt8) (h : isspace c = false) : isBlank c = false := by
  revert c
  exact forall_byte (by decide +kernel)

theorem strategyName_word (s : Strategy) :
    strategyName s ≠ [] ∧ Plain (strategyName s) ∧ (strategyName s).length ≤ 12 := by
  unfold Plain
  cases s <;> decide +kernel

theorem tpTargetName_word (t : TpTarget) :
    tpTargetName t ≠ [] ∧ Plain (tpTargetName t) ∧ (tpTargetName t).length ≤ 8 := by
  unfold Plain
  cases t <;> decide +kernel

theorem family_text (h : e.family = 4 ∨ e.family = 6) : (printInt e.family.toInt).length = 1 := by
  rcases h with h | h <;> rw [h] <;> decide

theorem entryText_length (h : Writable e) : (entryText e).length ≤ 317 := by
  have hhost := h.fits
  have hfp := printHex16_length e.fingerprint
  have hfamily := family_text h.family
  have hstrategy := (strategyName_word e.step.strategy).2.2
  have htarget := (tpTargetName_word e.step.target).2.2
  have htime := printInt64_length e.validatedAt
  unfold STRATEGY_DOMAIN_MAX at hhost
  simp only [entryText, List.length_append, List.length_cons]
  omega

-- No byte of a line is a NUL or ends the line.
theorem entryText_bytes (h : Writable e) : ∀ c ∈ entryText e, c ≠ 0 ∧ c ≠ LF := by
  have hblank : (32 : UInt8) ≠ 0 ∧ (32 : UInt8) ≠ LF := by decide
  intro c hc
  simp only [entryText, List.mem_append, List.mem_cons] at hc
  rcases hc with hc | rfl | hc | rfl | hc | rfl | hc | rfl | hc | rfl | hc
  · exact h.plain.clean c hc
  · exact hblank
  · exact (printHex16_plain _).clean c hc
  · exact hblank
  · exact (printInt_plain _).clean c hc
  · exact hblank
  · exact (strategyName_word _).2.1.clean c hc
  · exact hblank
  · exact (tpTargetName_word _).2.1.clean c hc
  · exact hblank
  · exact (printInt_plain _).clean c hc

theorem scanLine_entryText (h : Writable e) :
    scanLine (entryText e) = some (e.host, e.fingerprint, e.family, strategyName e.step.strategy,
      tpTargetName e.step.target, e.validatedAt) := by
  have hword : ∀ {b : Bytes}, Plain b → ∀ c ∈ b, isspace c = false := fun hb c hc => (hb c hc).1
  obtain ⟨hsne, hsplain, hslen⟩ := strategyName_word e.step.strategy
  obtain ⟨htne, htplain, htlen⟩ := tpTargetName_word e.step.target
  have hfmin := e.family.le_toInt
  have hfmax := e.family.toInt_lt
  have hblank : ∀ b : Bytes, Stops (fun c => !isspace c) (32 :: b) := stops_blank (by decide)
  unfold scanLine entryText
  rw [scanString_append h.nonempty (hword h.plain) (Nat.le_of_lt_succ h.fits) (hblank _)]
  simp only [Option.bind_eq_bind, Option.bind_some, scanHex_space]
  rw [scanHex_print _ (stops_blank (by decide) _)]
  simp only [Option.bind_some, scanInt32, scanLong_space]
  rw [scanLong_print (by unfold LLONG_MIN; omega) (by unfold LLONG_MAX; omega)
    (stops_blank (by decide) _)]
  simp only [Option.map_some, Option.bind_some, scanString_space, Int32.ofInt_toInt]
  rw [scanString_append hsne (hword hsplain) (by omega) (hblank _)]
  simp only [Option.bind_some, scanString_space]
  rw [scanString_append htne (hword htplain) (by omega) (hblank _)]
  simp only [Option.bind_some, scanInt64, scanLong_space]
  have hlast : scanInt64 (printInt e.validatedAt.toInt ++ []) = some (e.validatedAt, []) :=
    scanInt64_print _ fun c hc => absurd hc (by simp)
  rw [List.append_nil, scanInt64] at hlast
  rw [hlast]
  simp only [Option.bind_some]

theorem strategyFromName_name {s : Strategy} : strategyFromName (strategyName s) = some s := by
  cases s <;> decide

theorem target_of_name (t : TpTarget) :
    ([TpTarget.original, .trusted].find? fun t' => tpTargetName t = tpTargetName t') = some t := by
  cases t <;> decide

theorem lineEntry_entryText (h : Writable e) : lineEntry (entryText e) = some e := by
  unfold lineEntry
  rw [scanLine_entryText h]
  simp only [Option.bind_eq_bind, Option.bind_some, strategyFromName_name, target_of_name]
  have hstreams := h.streams
  unfold IsStream at hstreams
  rw [guard, if_pos ⟨h.family, h.known⟩, guard, if_pos hstreams, guard, if_pos h.noDirect]
  rfl

theorem entryText_head (h : Writable e) :
    ∃ c rest, entryText e = c :: rest ∧ c ≠ 0 ∧ c ≠ 35 ∧ isBlank c = false := by
  cases hhost : e.host with
  | nil => exact absurd hhost h.nonempty
  | cons c host =>
      obtain ⟨hspace, hnul⟩ := h.plain c (hhost ▸ List.mem_cons_self)
      have hmark : c ≠ 35 := by
        rintro rfl
        exact h.noMark (by rw [hhost]; rfl)
      rw [entryText, hhost]
      exact ⟨c, _, rfl, hnul, hmark, space_not_blank c hspace⟩

-- The line buffer holds the line of an entry, and nothing of it is taken away.
theorem lineText_entryText (h : Writable e) : lineText (entryText e) = entryText e := by
  have hlen := entryText_length h
  have hcstr : cstr (entryText e) = entryText e :=
    cstr_eq_self fun hnul => (entryText_bytes h 0 hnul).1 rfl
  obtain ⟨c, rest, heq, -, -, hblank⟩ := entryText_head h
  rw [lineText, List.take_of_length_le (by unfold LINE_SIZE; omega), hcstr, heq,
    List.dropWhile_cons, if_neg (by rw [hblank]; exact Bool.false_ne_true)]

theorem parseOne_entryText (d : TpDecisions) (h : Writable e) :
    parseOne d (entryText e) =
      (putEntry d e.host e.fingerprint e.family e.step e.validatedAt, false) := by
  obtain ⟨c, rest, heq, hnul, hmark, -⟩ := entryText_head h
  have hhead : ¬((entryText e).headD 0 = 0 ∨ (entryText e).headD 0 = 35) := by
    rw [heq]
    exact not_or.mpr ⟨hnul, hmark⟩
  rw [parseOne, lineText_entryText h, if_neg hhead, parseLine, lineEntry_entryText h]

end Line

section Write

theorem serializeEntries_ok (outSize : Nat) (entries : List TpDecision) (out : Bytes)
    (hall : ∀ e ∈ entries, Writable e)
    (hroom : out.length + entries.length * (STRATEGY_DOMAIN_MAX + 96) < outSize) :
    serializeEntries outSize out entries = some (out ++ entries.flatMap entryLine) := by
  induction entries generalizing out with
  | nil => rw [serializeEntries, List.flatMap_nil, List.append_nil]
  | cons e entries ih =>
      have hlen := entryText_length (hall e List.mem_cons_self)
      have hline : (entryLine e).length ≤ 318 := by
        rw [entryLine_eq, List.length_append, List.length_singleton]
        omega
      rw [List.length_cons, STRATEGY_DOMAIN_MAX] at hroom
      rw [serializeEntries, if_neg (by omega), ih _ fun x hx => hall x (List.mem_cons_of_mem e hx)]
      · rw [List.flatMap_cons, List.append_assoc]
      · rw [List.length_append, STRATEGY_DOMAIN_MAX]
        omega

theorem serialize_ok {d : TpDecisions} (hall : ∀ e ∈ d.entries, Writable e) :
    tpDecisionsSerialize d (saveSize d) = some (fileHeader ++ d.entries.flatMap entryLine) := by
  have hheader : fileHeader.length < 128 := by decide
  rw [tpDecisionsSerialize, if_neg (by unfold saveSize; omega)]
  exact serializeEntries_ok _ _ _ hall (by unfold saveSize; omega)

end Write

section Read

theorem textLines_entries {entries : List TpDecision} (hall : ∀ e ∈ entries, Writable e) :
    textLines (entries.flatMap entryLine) = entries.map entryText := by
  induction entries with
  | nil => rw [List.flatMap_nil, List.map_nil, textLines, if_pos rfl]
  | cons e entries ih =>
      have hbytes := entryText_bytes (hall e List.mem_cons_self)
      rw [List.flatMap_cons, entryLine_eq, List.append_assoc, List.singleton_append,
        textLines_line fun c hc => (hbytes c hc).2, List.map_cons,
        ih fun x hx => hall x (List.mem_cons_of_mem e hx)]

theorem putEntry_new {d : TpDecisions} {e : TpDecision}
    (hroom : d.entries.length < TP_DECISIONS_MAX) (hnew : ∀ x ∈ d.entries, x.key ≠ e.key) :
    (putEntry d e.host e.fingerprint e.family e.step e.validatedAt).entries = d.entries ++ [e] := by
  cases putEntry_put d e.host e.fingerprint e.family e.step e.validatedAt with
  | update front old back hbefore hkey hafter =>
      refine absurd hkey (hnew old ?_)
      rw [hbefore]
      exact List.mem_append_right _ List.mem_cons_self
  | append _ hafter => exact hafter
  | evict _ hfull => omega

-- The entries of a file are appended one after the other: their keys are new, and a
-- store has room for them.
theorem parseTurns_entries (entries : List TpDecision) (d : TpDecisions) (skipped : Nat)
    (hall : ∀ e ∈ entries, Writable e)
    (hunique : ((d.entries ++ entries).map TpDecision.key).Nodup)
    (hsize : (d.entries ++ entries).length ≤ TP_DECISIONS_MAX) :
    ((entries.map entryText).foldl parseTurn (d, skipped)).1.entries = d.entries ++ entries ∧
      ((entries.map entryText).foldl parseTurn (d, skipped)).2 = skipped := by
  induction entries generalizing d with
  | nil => exact ⟨(List.append_nil _).symm, rfl⟩
  | cons e entries ih =>
      have hone := parseOne_entryText d (hall e List.mem_cons_self)
      have hnew : ∀ x ∈ d.entries, x.key ≠ e.key := by
        rw [List.map_append, List.nodup_append] at hunique
        exact fun x hx => hunique.2.2 x.key (List.mem_map_of_mem hx) e.key List.mem_cons_self
      have hroom : d.entries.length < TP_DECISIONS_MAX := by
        rw [List.length_append, List.length_cons] at hsize
        omega
      have hput := putEntry_new hroom hnew
      have hsplit : d.entries ++ e :: entries = (d.entries ++ [e]) ++ entries := by simp
      have hturn : parseTurn (d, skipped) (entryText e) =
          (putEntry d e.host e.fingerprint e.family e.step e.validatedAt, skipped) := by
        rw [parseTurn, hone]
        rfl
      rw [List.map_cons, List.foldl_cons, hturn, hsplit, ← hput]
      rw [hsplit, ← hput] at hunique hsize
      exact ih _ (fun x hx => hall x (List.mem_cons_of_mem e hx)) hunique hsize

theorem parse_entries {d : TpDecisions} (hinv : DecisionsInv d) (hall : ∀ e ∈ d.entries, Writable e) :
    (tpDecisionsParse tpDecisionsInit (fileHeader ++ d.entries.flatMap entryLine)).1.entries =
        d.entries ∧
      (tpDecisionsParse tpDecisionsInit (fileHeader ++ d.entries.flatMap entryLine)).2 = 0 := by
  obtain ⟨header, hheader, hbytes, hcomment⟩ : ∃ header, fileHeader = header ++ [LF] ∧
      (∀ c ∈ header, c ≠ LF) ∧ (lineText header).headD 0 = 35 :=
    ⟨fileHeader.dropLast, by decide +kernel, by decide +kernel, by decide +kernel⟩
  have hlines : textLines (fileHeader ++ d.entries.flatMap entryLine) =
      header :: d.entries.map entryText := by
    rw [hheader, List.append_assoc, List.singleton_append, textLines_line hbytes,
      textLines_entries hall]
  have hskip : parseTurn (tpDecisionsInit, 0) header = (tpDecisionsInit, 0) := by
    rw [parseTurn, parseOne, if_pos (.inr hcomment)]
    rfl
  have hturns := parseTurns_entries d.entries tpDecisionsInit 0 hall hinv.unique
    (hinv.count.trans hinv.capacity)
  rw [tpDecisionsParse, hlines, parseLines, List.foldl_cons, hskip]
  exact hturns

end Read

section Reachable

-- A t_tp_step is direct, tlsrec or tlsrec-split. The lines of a file are checked.
def StoreCall.Streams : StoreCall → Prop
  | .success _ _ _ _ step => IsStream step.strategy
  | _ => True

def Update.Streams : Update → Prop
  | .store call => call.Streams
  | _ => True

def Call.Streams : Call → Prop
  | .store call => call.Streams
  | .parse _ => True

theorem puts_streams {u : Update} {e : TpDecision} (h : u.Puts e) (hu : u.Streams) :
    IsStream e.step.strategy := by
  cases u with
  | read line => exact (lineEntry_fields h.2).2.2
  | loaded => exact h.elim
  | store call =>
      cases call with
      | success host fp family now step =>
          obtain ⟨-, -, rfl⟩ := h
          exact hu
      | failure host fp family now => exact h.elim
      | directBadMark host fp family now => exact h.elim
      | networkChanged => exact h.elim

theorem apply_streams {d : TpDecisions} {u : Update} (hu : u.Streams)
    (h : ∀ e ∈ d.entries, IsStream e.step.strategy) :
    ∀ e ∈ (u.apply d).entries, IsStream e.step.strategy := by
  intro x hx
  rcases (update_effect d u).mem hx with hx | ⟨e, hputs, -, hstep, -⟩
  · exact h x hx
  · rw [hstep]
    exact puts_streams hputs hu

theorem updates_streams (us : List Update) (h : ∀ u ∈ us, u.Streams) :
    ∀ e ∈ (us.foldl Update.apply tpDecisionsInit).entries, IsStream e.step.strategy := by
  induction us using List.reverseRecOn with
  | nil => exact fun e he => absurd he List.not_mem_nil
  | append_singleton us u ih =>
      rw [List.foldl_append]
      exact apply_streams (h u (by simp)) (ih fun x hx => h x (List.mem_append_left _ hx))

theorem call_updates_streams {c : Call} (h : c.Streams) : ∀ u ∈ c.updates, u.Streams := by
  cases c with
  | parse text =>
      intro u hu
      rcases List.mem_append.mp hu with hu | hu
      · obtain ⟨line, -, rfl⟩ := List.mem_map.mp hu
        exact trivial
      · rw [List.mem_singleton.mp hu]
        exact trivial
  | store call =>
      intro u hu
      rw [List.mem_singleton.mp hu]
      exact h

end Reachable

theorem updates_roundtrip {us : List Update} (hus : ∀ u ∈ us, u.Streams) {d : TpDecisions}
    (hd : d = us.foldl Update.apply tpDecisionsInit) (hhost : ∀ e ∈ d.entries, Hostname e.host)
    (hfamily : ∀ e ∈ d.entries, e.family = 4 ∨ e.family = 6) :
    ∃ text, tpDecisionsSerialize d (saveSize d) = some text ∧
      (tpDecisionsParse tpDecisionsInit text).2 = 0 ∧
      (tpDecisionsParse tpDecisionsInit text).1.entries = d.entries := by
  have hinv : DecisionsInv d := hd ▸ updates_inv us
  have hstreams : ∀ e ∈ d.entries, IsStream e.step.strategy := hd ▸ updates_streams us hus
  have hall : ∀ e ∈ d.entries, Writable e := by
    intro e he
    obtain ⟨hne, hlen, hchars⟩ := hhost e he
    refine ⟨⟨hne, hlen, fun c hc => ?_, hfamily e he, hinv.known e he, hstreams e he,
      hinv.noDirect e he⟩, fun hmark => ?_⟩
    · exact ⟨(hostChar_plain c (hchars c hc)).1, (hostChar_plain c (hchars c hc)).2.1⟩
    · exact (hostChar_plain 35 (hchars 35 (List.mem_of_mem_head? hmark))).2.2 rfl
  obtain ⟨hentries, hskipped⟩ := parse_entries hinv hall
  exact ⟨_, serialize_ok hall, hskipped, hentries⟩

-- A store whose steps are stream steps is written into the buffer of save_decisions
-- and read back entry by entry.
theorem decisions_roundtrip (calls : List Call) (hcalls : ∀ c ∈ calls, c.Streams) (d : TpDecisions)
    (hd : d = calls.foldl Call.apply tpDecisionsInit) (hhost : ∀ e ∈ d.entries, Hostname e.host)
    (hfamily : ∀ e ∈ d.entries, e.family = 4 ∨ e.family = 6) :
    ∃ text, tpDecisionsSerialize d (saveSize d) = some text ∧
      (tpDecisionsParse tpDecisionsInit text).2 = 0 ∧
      (tpDecisionsParse tpDecisionsInit text).1.entries = d.entries := by
  rw [run_eq_updates] at hd
  refine updates_roundtrip (fun u hu => ?_) hd hhost hfamily
  obtain ⟨c, hc, hu⟩ := List.mem_flatMap.mp hu
  exact call_updates_streams (hcalls c hc) u hu

theorem decisions_roundtrip_run :
    ∃ text, tpDecisionsSerialize (Call.apply tpDecisionsInit
        (.store (.success (ascii ['a', '.', 'b']) 7 4 (-100) ⟨.original, .tlsrec⟩))) 480 = some text ∧
      (tpDecisionsParse tpDecisionsInit text).2 = 0 ∧
      (tpDecisionsParse tpDecisionsInit text).1.entries =
        [⟨ascii ['a', '.', 'b'], 7, 4, ⟨.original, .tlsrec⟩, -100⟩] := by
  refine decisions_roundtrip
    [.store (.success (ascii ['a', '.', 'b']) 7 4 (-100) ⟨.original, .tlsrec⟩)] ?_ _ rfl ?_ ?_
  · intro c hc
    rw [List.mem_singleton.mp hc]
    exact .inr (.inl rfl)
  · decide +kernel
  · decide +kernel

end DpiProxy.Transparent
