import DpiProxy.Strategy.Chain

namespace DpiProxy

open Wire
open Transparent (strategyName strategyFromName)

theorem strategyName_word (s : Strategy) :
    (strategyName s).map tolower = strategyName s ∧ (strategyName s).length ≤ 12 ∧
      strategyName s ≠ [] ∧ PLUS ∉ strategyName s ∧ (0 : UInt8) ∉ strategyName s := by
  cases s <;> decide

theorem strategyFromName_iff {name : Bytes} {s : Strategy} :
    strategyFromName name = some s ↔ name.map tolower = strategyName s := by
  constructor
  · intro h
    have hieq := List.find?_some h
    rw [ieq_iff, (strategyName_word s).1] at hieq
    exact hieq
  · intro h
    have hself : strategyFromName (strategyName s) = some s := by cases s <;> decide
    rw [← hself, strategyFromName, strategyFromName]
    congr 1
    funext t
    rw [Bool.eq_iff_iff, ieq_iff, ieq_iff, h, (strategyName_word s).1]

theorem strategyFromName_long {name : Bytes} (h : 12 < name.length) : strategyFromName name = none := by
  cases hname : strategyFromName name with
  | none => rfl
  | some s =>
      have hlen := congrArg List.length (strategyFromName_iff.mp hname)
      have hword := (strategyName_word s).2.1
      rw [List.length_map] at hlen
      omega

-- What follows the first name in the text of a chain.
def chainTail (actions : List Strategy) : Bytes := actions.flatMap fun s => PLUS :: strategyName s

def chainText : List Strategy → Bytes
  | [] => []
  | s :: actions => strategyName s ++ chainTail actions

theorem chainTail_cons (s : Strategy) (actions : List Strategy) :
    chainTail (s :: actions) = PLUS :: chainText (s :: actions) := rfl

-- A rest that begins with a plus, or is empty.
def AtPlus (rest : Bytes) : Prop := ∀ c, rest.head? = some c → c = PLUS

theorem takeWhile_token {token rest : Bytes} (htoken : PLUS ∉ token) (hrest : AtPlus rest) :
    (token ++ rest).takeWhile (· ≠ PLUS) = token := by
  apply CText.takeWhile_stops
  · intro c hc
    exact decide_eq_true fun heq => htoken (heq ▸ hc)
  · intro c hc
    rw [hrest c hc]
    decide

-- One turn of the loop: `token` is what stands before the next plus. A token that does
-- not fit its buffer is longer than every name.
theorem chainLoop_token {token tail : Bytes} (htoken : PLUS ∉ token) (htail : AtPlus tail)
    (room : Nat) :
    (chainLoop (room + 1) (token ++ tail)).map Subtype.val =
      (strategyFromName token).bind fun parsed =>
        if tail = [] then some [parsed]
        else ((chainLoop room (tail.drop 1)).map Subtype.val).map (parsed :: ·) := by
  rw [chainLoop, takeWhile_token htoken htail]
  by_cases hfits : token.length ≤ TOKEN_SIZE - 1
  · have hrest : ¬ (tail ≠ [] ∧ byte tail 0 ≠ PLUS) := by
      rintro ⟨hne, hhead⟩
      cases tail with
      | nil => exact hne rfl
      | cons c tail => exact hhead (htail c rfl)
    rw [List.take_of_length_le hfits, List.drop_left, if_neg hrest]
    by_cases hnil : token = []
    · subst hnil
      rfl
    · rw [if_neg hnil]
      cases strategyFromName token with
      | none => rfl
      | some parsed =>
          rw [Option.bind_some]
          dsimp only
          by_cases hend : tail = []
          · rw [if_pos hend, if_pos hend]
            rfl
          · rw [if_neg hend, if_neg hend, Option.map_map, Option.map_map]
            rfl
  · unfold TOKEN_SIZE at hfits
    have hlen : (token.take (TOKEN_SIZE - 1)).length = 63 := by
      rw [List.length_take]
      unfold TOKEN_SIZE
      omega
    have hlong : 63 < token.length := by omega
    -- the 64th byte of the token is neither the end nor a plus
    have hrest : (token ++ tail).drop 63 = token[63] :: (token.drop 64 ++ tail) := by
      rw [List.drop_append_of_le_length (by omega), List.drop_eq_getElem_cons (by omega)]
      rfl
    have hplus : token[63] ≠ PLUS := fun heq => htoken (heq ▸ List.getElem_mem _)
    rw [hlen, hrest, if_pos ⟨List.cons_ne_nil _ _, hplus⟩, strategyFromName_long (by omega)]
    rfl

theorem plus_notMem_lower {b : Bytes} (h : PLUS ∉ b) : PLUS ∉ b.map tolower := by
  intro hmem
  obtain ⟨c, hc, hplus⟩ := List.mem_map.mp hmem
  exact h ((tolower_eq_iff c (by decide)).mp hplus ▸ hc)

-- A text is cut at its first plus in one way.
theorem cut_at_plus {token tail name rest : Bytes} (htoken : PLUS ∉ token) (htail : AtPlus tail)
    (hname : PLUS ∉ name) (hrest : AtPlus rest) :
    token ++ tail = name ++ rest ↔ token = name ∧ tail = rest := by
  constructor
  · intro h
    have htokens := congrArg (List.takeWhile (· ≠ PLUS)) h
    rw [takeWhile_token htoken htail, takeWhile_token hname hrest] at htokens
    subst htokens
    exact ⟨rfl, List.append_cancel_left h⟩
  · rintro ⟨rfl, rfl⟩
    rfl

theorem chainTail_atPlus (actions : List Strategy) : AtPlus (chainTail actions) := by
  intro c hc
  cases actions with
  | nil => exact absurd hc (by simp [chainTail])
  | cons s actions => exact (Option.some.inj hc).symm

-- The loop accepts the texts of up to `room` actions, in any case.
theorem chainLoop_iff (room : Nat) (s : Bytes) (actions : List Strategy) :
    (chainLoop room s).map Subtype.val = some actions ↔
      actions ≠ [] ∧ actions.length ≤ room ∧ s.map tolower = chainText actions := by
  induction room generalizing s actions with
  | zero =>
      constructor
      · intro h
        exact absurd h (by simp [chainLoop])
      · rintro ⟨hne, hlen, -⟩
        exact absurd (List.length_eq_zero_iff.mp (Nat.le_zero.mp hlen)) hne
  | succ room ih =>
      obtain ⟨token, tail, rfl, htoken, htail⟩ : ∃ token tail, s = token ++ tail ∧ PLUS ∉ token ∧
          AtPlus tail := by
        refine ⟨s.takeWhile (· ≠ PLUS), s.dropWhile (· ≠ PLUS), List.takeWhile_append_dropWhile.symm, ?_, ?_⟩
        · intro hplus
          exact absurd (List.mem_takeWhile_imp hplus) (by decide)
        · intro c hc
          have hstop := List.head?_dropWhile_not (· ≠ PLUS) s
          rw [hc] at hstop
          simpa using hstop
      have hlower : AtPlus (tail.map tolower) := by
        intro c hc
        rw [List.head?_map] at hc
        obtain ⟨c', hc', rfl⟩ := Option.map_eq_some_iff.mp hc
        exact (tolower_eq_iff c' (by decide)).mpr (htail c' hc')
      rw [chainLoop_token htoken htail, Option.bind_eq_some_iff]
      cases actions with
      | nil =>
          refine iff_of_false ?_ fun h => h.1 rfl
          rintro ⟨parsed, -, h⟩
          split at h
          · exact absurd h (by simp)
          · exact absurd h (by simp)
      | cons a actions =>
          have htext : (token ++ tail).map tolower = chainText (a :: actions) ↔
              token.map tolower = strategyName a ∧ tail.map tolower = chainTail actions := by
            rw [List.map_append, chainText]
            exact cut_at_plus (plus_notMem_lower htoken) hlower (strategyName_word a).2.2.2.1
              (chainTail_atPlus actions)
          have hrest : (if tail = [] then some [a]
              else ((chainLoop room (tail.drop 1)).map Subtype.val).map (a :: ·)) = some (a :: actions) ↔
              actions.length ≤ room ∧ tail.map tolower = chainTail actions := by
            cases tail with
            | nil => cases actions <;> simp [chainTail]
            | cons c tail =>
                obtain rfl := htail c rfl
                have hplus : tolower PLUS = PLUS := by decide
                rw [if_neg (List.cons_ne_nil _ _), Option.map_eq_some_iff, List.map_cons, hplus]
                simp only [List.drop_one, List.tail_cons, ih, List.cons.injEq, true_and, exists_eq_right]
                cases actions with
                | nil => simp [chainTail]
                | cons b actions => simp [chainTail_cons]
          rw [htext, List.length_cons, Nat.succ_le_succ_iff, and_iff_right (List.cons_ne_nil _ _)]
          constructor
          · rintro ⟨parsed, hname, h⟩
            have heq : parsed = a := by
              split at h
              · exact (List.cons.inj (Option.some.inj h)).1
              · obtain ⟨actions', -, h⟩ := Option.map_eq_some_iff.mp h
                exact (List.cons.inj h).1
            subst heq
            exact ⟨(hrest.mp h).1, strategyFromName_iff.mp hname, (hrest.mp h).2⟩
          · rintro ⟨hlen, hname, htail⟩
            exact ⟨a, strategyFromName_iff.mpr hname, hrest.mpr ⟨hlen, htail⟩⟩

-- The grammar of a domain value.
def chainTexts : List (Bytes × StrategyChain) :=
  (([.pass, .split, .disorder, .fake, .fragment, .tlsrec, .tlsrecSplit] : List Strategy).map fun s =>
    (strategyName s, .single s)) ++
  [(ascii ['f', 'a', 'k', 'e', '+', 's', 'p', 'l', 'i', 't'], ⟨[.fake, .split], by decide⟩),
   (ascii ['s', 'p', 'l', 'i', 't', '+', 'f', 'a', 'k', 'e'], ⟨[.split, .fake], by decide⟩),
   (ascii ['s', 'p', 'l', 'i', 't', '+', 'd', 'i', 's', 'o', 'r', 'd', 'e', 'r'], .single .disorder)]

theorem strategyChainIsSafe_iff (chain : StrategyChain) :
    strategyChainIsSafe chain = true ↔ chain.actions.length = 1 ∨ chain.actions = [.fake, .split] ∨
      chain.actions = [.split, .fake] := by
  unfold strategyChainIsSafe chainMatches
  constructor
  · intro h
    split_ifs at h with hone htwo hfirst hsecond
    · exact .inl hone
    · exact .inr (.inl (of_decide_eq_true hfirst))
    · exact .inr (.inr (of_decide_eq_true hsecond))
  · rintro (h | h | h)
    · rw [if_pos h]
    · simp [h]
    · simp [h]

theorem acceptChain_cases {chain chain' : StrategyChain} (h : acceptChain chain = some chain') :
    (chain.actions = [.split, .disorder] ∧ chain' = .single .disorder) ∨
      (strategyChainIsSafe chain = true ∧ chain' = chain) := by
  unfold acceptChain at h
  dsimp only at h
  by_cases hnorm : chain.actions = [.split, .disorder]
  · rw [if_pos hnorm] at h
    exact .inl ⟨hnorm, (Option.some.inj h).symm⟩
  · rw [if_neg hnorm] at h
    split_ifs at h with hsafe
    exact .inr ⟨by simpa using hsafe, (Option.some.inj h).symm⟩

theorem safe_mem_chainTexts {chain : StrategyChain} (h : strategyChainIsSafe chain = true) :
    (chainText chain.actions, chain) ∈ chainTexts := by
  have hactions := (strategyChainIsSafe_iff chain).mp h
  clear h
  obtain ⟨actions, hbound⟩ := chain
  rcases hactions with hone | rfl | rfl
  · obtain ⟨a, rfl⟩ := List.length_eq_one_iff.mp hone
    clear hone
    cases a <;> decide +revert
  · decide +revert
  · decide +revert

theorem chainTexts_accepted {t : Bytes × StrategyChain} (ht : t ∈ chainTexts) :
    ∃ actions, ∃ hlen : actions.length ≤ STRATEGY_CHAIN_MAX,
      actions ≠ [] ∧ t.1 = chainText actions ∧ acceptChain ⟨actions, hlen⟩ = some t.2 := by
  rcases List.mem_append.mp ht with ht | ht
  · obtain ⟨s, -, rfl⟩ := List.mem_map.mp ht
    refine ⟨[s], by simp [STRATEGY_CHAIN_MAX], by simp, by simp [chainText, chainTail], ?_⟩
    cases s <;> rfl
  · simp only [List.mem_cons, List.not_mem_nil, or_false] at ht
    rcases ht with rfl | rfl | rfl
    · exact ⟨[.fake, .split], le_rfl, by simp, by decide, rfl⟩
    · exact ⟨[.split, .fake], le_rfl, by simp, by decide, rfl⟩
    · exact ⟨[.split, .disorder], le_rfl, by simp, by decide, rfl⟩

theorem chainOf_iff {s : Bytes} {chain : StrategyChain} :
    chainOf s = some chain ↔ (s.map tolower, chain) ∈ chainTexts := by
  constructor
  · intro h
    unfold chainOf at h
    split at h
    · exact absurd h (by simp)
    · rename_i actions hloop
      obtain ⟨actions, hbound⟩ := actions
      obtain ⟨-, -, htext⟩ := (chainLoop_iff STRATEGY_CHAIN_MAX s actions).mp (by rw [hloop]; rfl)
      rw [htext]
      rcases acceptChain_cases h with ⟨rfl, rfl⟩ | ⟨hsafe, rfl⟩
      · decide
      · exact safe_mem_chainTexts hsafe
  · intro h
    obtain ⟨actions, hlen, hne, htext, haccept⟩ := chainTexts_accepted h
    have hmap := (chainLoop_iff STRATEGY_CHAIN_MAX s actions).mpr ⟨hne, hlen, htext⟩
    obtain ⟨⟨actions', hlen'⟩, hloop, hval⟩ := Option.map_eq_some_iff.mp hmap
    obtain rfl : actions' = actions := hval
    simp only [chainOf, hloop]
    exact haccept

theorem take_append_take {α : Type} (n : Nat) (a b : List α) : (a.take n ++ b).take n = (a ++ b).take n := by
  rw [List.take_append, List.take_append, List.take_take, Nat.min_self, List.length_take]
  congr 2
  omega

-- One action behind the first: the plus and the name, as far as there is room.
theorem describeLoop_tail {bufSize i : Nat} (hi : 0 < i) (actions : List Strategy) {text : Bytes}
    (htext : text.length ≤ bufSize - 1) :
    describeLoop bufSize i text actions = (text ++ chainTail actions).take (bufSize - 1) := by
  induction actions generalizing i text with
  | nil => rw [describeLoop, chainTail, List.flatMap_nil, List.append_nil, List.take_of_length_le htext]
  | cons s actions ih =>
      have hplus : (if 0 < i ∧ text.length + 1 < bufSize then text ++ [PLUS] else text) =
          (text ++ [PLUS]).take (bufSize - 1) := by
        by_cases hroom : text.length + 1 < bufSize
        · rw [if_pos ⟨hi, hroom⟩, List.take_of_length_le]
          rw [List.length_append, List.length_singleton]
          omega
        · rw [if_neg fun h => hroom h.2, List.take_append_of_le_length (by omega),
            List.take_of_length_le htext]
      have hname : ∀ b : Bytes, b.length ≤ bufSize - 1 →
          b ++ (strategyName s).take (bufSize - 1 - b.length) = (b ++ strategyName s).take (bufSize - 1) := by
        intro b hb
        rw [List.take_append, List.take_of_length_le hb]
      rw [describeLoop, hplus, hname _ (List.length_take_le _ _), ih (Nat.succ_pos i) (List.length_take_le _ _),
        take_append_take, List.append_assoc, take_append_take, chainTail_cons, chainText]
      simp

theorem describeLoop_eq (bufSize : Nat) (actions : List Strategy) :
    describeLoop bufSize 0 [] actions = (chainText actions).take (bufSize - 1) := by
  cases actions with
  | nil => simp [describeLoop, chainText]
  | cons s actions =>
      rw [describeLoop, if_neg fun h => absurd h.1 (Nat.lt_irrefl 0), List.nil_append, List.length_nil,
        Nat.sub_zero, describeLoop_tail Nat.one_pos actions (List.length_take_le _ _), take_append_take,
        chainText]

theorem nul_notMem_chainText (actions : List Strategy) : (0 : UInt8) ∉ chainText actions := by
  cases actions with
  | nil => exact List.not_mem_nil
  | cons s actions =>
      intro hmem
      rcases List.mem_append.mp hmem with hmem | hmem
      · exact (strategyName_word s).2.2.2.2 hmem
      · obtain ⟨s', -, hmem⟩ := List.mem_flatMap.mp hmem
        rcases List.mem_cons.mp hmem with hplus | hmem
        · exact absurd hplus (by decide)
        · exact (strategyName_word s').2.2.2.2 hmem

theorem strategyChainDescribe_text (chain : StrategyChain) {buf : Bytes} (hbuf : buf ≠ []) :
    cstr (strategyChainDescribe chain buf) = (chainText chain.actions).take (buf.length - 1) := by
  have hlen : ¬ buf.length = 0 := fun h => hbuf (List.length_eq_zero_iff.mp h)
  have hnul : (0 : UInt8) ∉ (chainText chain.actions).take (buf.length - 1) := fun h =>
    nul_notMem_chainText chain.actions (List.mem_of_mem_take h)
  rw [strategyChainDescribe, if_neg hlen, describeLoop_eq, cstr_append hnul, cstr,
    List.takeWhile_cons_of_neg (by decide), List.append_nil]

theorem chainTexts_lower : ∀ t ∈ chainTexts, t.1.map tolower = t.1 := by decide

theorem chainOf_text {s : Bytes} {t : Bytes × StrategyChain} (ht : t ∈ chainTexts) (h : ieq s t.1 = true) :
    chainOf s = some t.2 := by
  rw [ieq_iff, chainTexts_lower t ht] at h
  rw [chainOf_iff, h]
  exact ht

theorem chainOf_some {s : Bytes} {chain : StrategyChain} (h : chainOf s = some chain) :
    (∃ t ∈ chainTexts, ieq s t.1 = true) ∧ strategyChainIsSafe chain = true ∧
      chainOf ((chainText chain.actions).take 63) = some chain := by
  have hmem := chainOf_iff.mp h
  have htable : ∀ t ∈ chainTexts, strategyChainIsSafe t.2 = true ∧
      chainOf ((chainText t.2.actions).take 63) = some t.2 := by decide +kernel
  refine ⟨⟨_, hmem, ?_⟩, htable _ hmem⟩
  rw [ieq_iff, chainTexts_lower _ hmem]

-- The value of a domain rule: one of the ten texts in any case, and nothing else.
theorem strategyChainFromString_grammar (s : Bytes) (out : StrategyChain) :
    ((strategyChainFromString s out).1 = 0 ↔ ∃ t ∈ chainTexts, ieq (cstr s) t.1 = true) ∧
    (∀ t ∈ chainTexts, ieq (cstr s) t.1 = true →
      strategyChainFromString s out = (0, t.2) ∧ strategyChainIsSafe t.2 = true) ∧
    ((¬ ∃ t ∈ chainTexts, ieq (cstr s) t.1 = true) → strategyChainFromString s out = (-1, out)) ∧
    (∀ chain, strategyChainFromString s out = (0, chain) → ∀ (buf : Bytes) (out' : StrategyChain),
      buf.length = 64 → strategyChainFromString (strategyChainDescribe chain buf) out' = (0, chain)) := by
  cases h : chainOf (cstr s) with
  | none =>
      have hfail : strategyChainFromString s out = (-1, out) := by rw [strategyChainFromString, h]
      have hno : ¬ ∃ t ∈ chainTexts, ieq (cstr s) t.1 = true := by
        rintro ⟨t, ht, hieq⟩
        exact absurd (h.symm.trans (chainOf_text ht hieq)) (by simp)
      rw [hfail]
      refine ⟨iff_of_false (by simp) hno, ?_, fun _ => rfl, ?_⟩
      · intro t ht hieq
        exact absurd ⟨t, ht, hieq⟩ hno
      · intro chain hchain
        exact absurd (Prod.mk.inj hchain).1 (by decide)
  | some chain =>
      have hok : strategyChainFromString s out = (0, chain) := by rw [strategyChainFromString, h]
      obtain ⟨hex, hsafe, hround⟩ := chainOf_some h
      rw [hok]
      refine ⟨iff_of_true rfl hex, ?_, fun hno => absurd hex hno, ?_⟩
      · intro t ht hieq
        obtain rfl := Option.some.inj (h.symm.trans (chainOf_text ht hieq))
        exact ⟨rfl, hsafe⟩
      · intro chain' hchain buf out' hbuf
        obtain rfl := (Prod.mk.inj hchain).2
        have hne : buf ≠ [] := List.ne_nil_of_length_pos (by omega)
        rw [strategyChainFromString, strategyChainDescribe_text chain hne, hbuf, hround]

end DpiProxy
