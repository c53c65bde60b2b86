import DpiProxy.Transparent.Decisions.Theorems
import DpiProxy.Wire.Age

namespace DpiProxy.Transparent

open Wire CText

-- What a lookup returns is younger than the lifetime, and the subtraction in fresh, if it
-- is reached, stays in the range of an int64_t.
structure ExactLookup (d : TpDecisions) (host : Bytes) (fp : UInt64) (family : Int32) (now : Int64) : Prop where
  returned : ∀ e, tpDecisionLookup d host fp family now = some e →
    0 ≤ now.toInt - e.validatedAt.toInt ∧ now.toInt - e.validatedAt.toInt < TP_DECISION_TTL_SECONDS.toInt ∧
      e.fingerprint = fp ∧ fp ≠ NETFP_UNKNOWN
  inRange : ∀ i, find d host fp family = some i → fp ≠ NETFP_UNKNOWN → now ≥ (d.entry i).validatedAt →
    LLONG_MIN ≤ now.toInt - (d.entry i).validatedAt.toInt ∧ now.toInt - (d.entry i).validatedAt.toInt ≤ LLONG_MAX

theorem tpDecisionLookup_some {d : TpDecisions} {host : Bytes} {fp : UInt64} {family : Int32} {now : Int64}
    {e : TpDecision} :
    tpDecisionLookup d host fp family now = some e ↔
      ∃ i, find d host fp family = some i ∧ fresh (d.entry i) fp now = true ∧ d.entry i = e := by
  unfold tpDecisionLookup
  cases find d host fp family with
  | none => simp
  | some i => cases hfresh : fresh (d.entry i) fp now <;> simp [hfresh]

-- A store with unique keys: one entry decides.
theorem exactLookup_iff {d : TpDecisions} (hinv : DecisionsInv d) (host : Bytes) (fp : UInt64) (family : Int32)
    (now : Int64) :
    ExactLookup d host fp family now ↔
      ∀ e ∈ d.entries, e.key = keyOf host fp family → now.toInt - e.validatedAt.toInt ≤ LLONG_MAX := by
  constructor
  · intro h e he hkey
    by_contra hlarge
    have hclock := (wrapped_age (not_le.mp hlarge)).1
    cases hfind : find d host fp family with
    | none => exact find_none hfind e he hkey
    | some i =>
        obtain ⟨hi, hikey⟩ := find_some hfind
        have hentry : d.entry i = e :=
          List.inj_on_of_nodup_map hinv.unique (List.mem_of_getElem? hi) he (hikey.trans hkey.symm)
        have hknown : fp ≠ NETFP_UNKNOWN := by
          rw [← show e.fingerprint = fp from congrArg (fun k : DecisionKey => k.2.1) hkey]
          exact hinv.known e he
        have hin := (h.inRange i hfind hknown (by rw [hentry]; exact hclock)).2
        rw [hentry] at hin
        exact hlarge hin
  · intro h
    constructor
    · intro e he
      obtain ⟨i, hfind, hfresh, rfl⟩ := tpDecisionLookup_some.mp he
      obtain ⟨hi, hkey⟩ := find_some hfind
      obtain ⟨hknown, hfp, hclock, hage⟩ := of_decide_eq_true hfresh
      have hexact := toInt_age hclock (h _ (List.mem_of_getElem? hi) hkey)
      rw [Int64.lt_iff_toInt_lt, hexact] at hage
      rw [ge_iff_le, Int64.le_iff_toInt_le] at hclock
      exact ⟨by omega, hage, hfp, hknown⟩
    · intro i hfind _ hclock
      obtain ⟨hi, hkey⟩ := find_some hfind
      rw [ge_iff_le, Int64.le_iff_toInt_le] at hclock
      refine ⟨?_, h _ (List.mem_of_getElem? hi) hkey⟩
      unfold LLONG_MIN
      omega

theorem parse_inv (text : Bytes) : DecisionsInv (tpDecisionsParse tpDecisionsInit text).1 := by
  have hrun := run_eq_updates [.parse text] tpDecisionsInit
  rw [List.foldl_cons, List.foldl_nil] at hrun
  change (tpDecisionsParse tpDecisionsInit text).1 = _ at hrun
  rw [hrun]
  exact updates_inv _

-- The entry of a loaded text is judged by its age unless it is older than an int64_t can
-- tell.
theorem lookup_exact_iff (text host : Bytes) (fp : UInt64) (family : Int32) (now : Int64) :
    ExactLookup (tpDecisionsParse tpDecisionsInit text).1 host fp family now ↔
      ∀ e ∈ (tpDecisionsParse tpDecisionsInit text).1.entries, e.key = keyOf host fp family →
        now.toInt - e.validatedAt.toInt ≤ LLONG_MAX :=
  exactLookup_iff (parse_inv text) host fp family now

-- "a.b 7 4 tlsrec original -9223372036854775808"
def ancientText : Bytes :=
  ascii ['a', '.', 'b', ' ', '7', ' ', '4', ' ', 't', 'l', 's', 'r', 'e', 'c', ' ', 'o', 'r', 'i', 'g', 'i', 'n',
    'a', 'l', ' ', '-', '9', '2', '2', '3', '3', '7', '2', '0', '3', '6', '8', '5', '4', '7', '7', '5', '8', '0', '8']

theorem ancientEntry_fresh :
    ∃ e, tpDecisionLookup (tpDecisionsParse tpDecisionsInit ancientText).1 (ascii ['a', '.', 'b']) 7 4 1700000000 =
        some e ∧
      ¬ (1700000000 - e.validatedAt.toInt < TP_DECISION_TTL_SECONDS.toInt) ∧
      LLONG_MAX < 1700000000 - e.validatedAt.toInt := by
  refine ⟨⟨ascii ['a', '.', 'b'], 7, 4, ⟨.original, .tlsrec⟩, Int64.minValue⟩, ?_, ?_, ?_⟩
  · decide +kernel
  · decide
  · decide

end DpiProxy.Transparent
