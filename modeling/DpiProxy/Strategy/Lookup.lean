import DpiProxy.Strategy.Config.Theorems

namespace DpiProxy

open Wire

-- A rule ".zone" stands for the zone itself and for every name below it.
def Covers (suffix domain : Bytes) : Prop :=
  ∃ zone, suffix = DOT :: zone ∧
    (domain.map tolower = zone.map tolower ∨ suffix.map tolower <:+ domain.map tolower)

def Exact (r : StrategyRule) (domain : Bytes) : Prop := byte r.domain 0 ≠ DOT ∧ ieq r.domain domain = true

-- A suffix rule for the domain, and none is longer.
structure Longest (cfg : StrategyConfig) (domain : Bytes) (r : StrategyRule) : Prop where
  mem : r ∈ cfg.rules
  covers : Covers r.domain domain
  longest : ∀ r' ∈ cfg.rules, Covers r'.domain domain → r'.domain.length ≤ r.domain.length

-- The documented precedence: the exact rule, else the longest suffix rule, else the
-- default.
inductive ChainFor (cfg : StrategyConfig) (domain : Bytes) : StrategyChain → Prop
  | exact (r : StrategyRule) (hmem : r ∈ cfg.rules) (hexact : Exact r domain) : ChainFor cfg domain r.chain
  | suffix (r : StrategyRule) (hnone : ∀ r' ∈ cfg.rules, ¬ Exact r' domain) (hr : Longest cfg domain r) :
      ChainFor cfg domain r.chain
  | default (hnone : ∀ r ∈ cfg.rules, ¬ Exact r domain)
      (hsuffix : ∀ r ∈ cfg.rules, ¬ Covers r.domain domain) : ChainFor cfg domain (.single cfg.defaultStrategy)

theorem suffix_iff_drop (a b : Bytes) :
    a.map tolower <:+ b.map tolower ↔ ieq (b.drop (b.length - a.length)) a = true := by
  rw [ieq_iff, List.suffix_iff_eq_drop, List.length_map, List.length_map, List.map_drop]
  exact eq_comm

theorem suffixMatch_iff (domain suffix : Bytes) : suffixMatch domain suffix = true ↔ Covers suffix domain := by
  cases suffix with
  | nil =>
      refine iff_of_false (by simp [suffixMatch]) ?_
      rintro ⟨zone, hzone, -⟩
      exact absurd hzone (by simp)
  | cons c zone =>
      have hcovers : Covers (c :: zone) domain ↔
          c = DOT ∧
            (domain.map tolower = zone.map tolower ∨ (c :: zone).map tolower <:+ domain.map tolower) := by
        constructor
        · rintro ⟨zone', hzone, h⟩
          obtain ⟨rfl, rfl⟩ := List.cons.inj hzone
          exact ⟨rfl, h⟩
        · rintro ⟨rfl, h⟩
          exact ⟨zone, rfl, h⟩
      have hbelow : (c :: zone).map tolower <:+ domain.map tolower → zone.length + 1 ≤ domain.length := by
        intro h
        simpa using h.length_le
      have hself : domain.map tolower = zone.map tolower → domain.length = zone.length := by
        intro h
        simpa using congrArg List.length h
      have hhead : byte (c :: zone) 0 = c := rfl
      rw [hcovers, suffixMatch, hhead, List.length_cons]
      by_cases hout : c ≠ DOT ∨ zone.length + 1 > domain.length + 1
      · rw [if_pos (.inr hout)]
        refine iff_of_false Bool.false_ne_true ?_
        rintro ⟨hdot, h | h⟩
        · have := hself h
          exact hout.elim (fun hne => hne hdot) fun hlen => by omega
        · have := hbelow h
          exact hout.elim (fun hne => hne hdot) fun hlen => by omega
      · obtain ⟨hdot, hlen⟩ := not_or.mp hout
        rw [not_not] at hdot
        rw [if_neg (by simp [hdot, hlen]), and_iff_right hdot]
        by_cases heq : zone.length + 1 = domain.length + 1
        · rw [if_pos heq, List.drop_one, List.tail_cons, ieq_iff]
          exact ⟨.inl, fun h => h.elim id fun h => absurd (hbelow h) (by omega)⟩
        · rw [if_neg heq, ← List.length_cons, ← suffix_iff_drop]
          exact ⟨.inr, fun h => h.elim (fun h => absurd (hself h) (by omega)) id⟩

-- Suffix rules of one length for one domain have the same key.
theorem covers_unique {a b domain : Bytes} (ha : Covers a domain) (hb : Covers b domain)
    (hlen : a.length = b.length) : a.map tolower = b.map tolower := by
  obtain ⟨zone, rfl, hzone⟩ := ha
  obtain ⟨zone', rfl, hzone'⟩ := hb
  have hzones : zone.length = zone'.length := by simpa using hlen
  rcases hzone with h | h
  · rcases hzone' with h' | h'
    · rw [List.map_cons, List.map_cons, ← h, h']
    · have hle := h'.length_le
      have heq := congrArg List.length h
      simp only [List.length_map, List.length_cons] at hle heq
      omega
  · rcases hzone' with h' | h'
    · have hle := h.length_le
      have heq := congrArg List.length h'
      simp only [List.length_map, List.length_cons] at hle heq
      omega
    · exact (List.suffix_of_suffix_length_le h h' (by simp [hzones])).eq_of_length (by simp [hzones])

section Lookup

variable {cfg : StrategyConfig} (hkeys : (cfg.rules.map ruleKey).Nodup)

include hkeys in
theorem longest_unique {domain : Bytes} {r r' : StrategyRule} (h : Longest cfg domain r)
    (h' : Longest cfg domain r') : r = r' := by
  apply List.inj_on_of_nodup_map hkeys h.mem h'.mem
  apply covers_unique h.covers h'.covers
  exact Nat.le_antisymm (h'.longest r h.mem h.covers) (h.longest r' h'.mem h'.covers)

theorem exists_longest {domain : Bytes} {r : StrategyRule} (hr : r ∈ cfg.rules)
    (hcovers : Covers r.domain domain) : ∃ r', Longest cfg domain r' := by
  have hmem : ∀ x, x ∈ cfg.rules.filter (fun x => suffixMatch domain x.domain) ↔
      x ∈ cfg.rules ∧ Covers x.domain domain := by
    intro x
    rw [List.mem_filter, suffixMatch_iff]
  have hne : cfg.rules.filter (fun x => suffixMatch domain x.domain) ≠ [] :=
    List.ne_nil_of_mem ((hmem r).mpr ⟨hr, hcovers⟩)
  obtain ⟨m, hm, hleast⟩ := Table.minIndex_spec (fun x : StrategyRule => -(x.domain.length : Int)) hne
  obtain ⟨hm, hmcovers⟩ := (hmem m).mp (List.mem_of_getElem? hm)
  refine ⟨m, hm, hmcovers, fun x hx hxcovers => ?_⟩
  have := hleast x ((hmem x).mpr ⟨hx, hxcovers⟩)
  omega

-- The two loops: the first exact rule, else the first suffix rule that matches.
theorem strategyChainForDomain_cases (cfg : StrategyConfig) (domain : Bytes) :
    (∃ r ∈ cfg.rules, Exact r domain ∧ strategyChainForDomain cfg domain = r.chain) ∨
    ((∀ r ∈ cfg.rules, ¬ Exact r domain) ∧
      match cfg.rules.find? (fun r => suffixMatch domain r.domain) with
      | some r => strategyChainForDomain cfg domain = r.chain
      | none => strategyChainForDomain cfg domain = .single cfg.defaultStrategy) := by
  have hsuffix : (fun r : StrategyRule => byte r.domain 0 == DOT && suffixMatch domain r.domain) =
      fun r => suffixMatch domain r.domain := by
    funext r
    rw [Bool.eq_iff_iff, Bool.and_eq_true, beq_iff_eq, and_iff_right_iff_imp, suffixMatch_iff]
    rintro ⟨zone, hzone, -⟩
    rw [hzone]
    rfl
  unfold strategyChainForDomain strategyHasExplicitRule
  rw [hsuffix]
  cases hexact : cfg.rules.find? (fun r => byte r.domain 0 != DOT && ieq r.domain domain) with
  | some r =>
      left
      have hr := List.find?_some hexact
      rw [Bool.and_eq_true, bne_iff_ne] at hr
      exact ⟨r, List.mem_of_find?_eq_some hexact, hr, rfl⟩
  | none =>
      right
      refine ⟨fun r hr hexact' => ?_, ?_⟩
      · have hno := List.find?_eq_none.mp hexact r hr
        rw [Bool.and_eq_true, bne_iff_ne] at hno
        exact hno hexact'
      · cases cfg.rules.find? (fun r => suffixMatch domain r.domain) with
        | some r => rfl
        | none => rfl

-- In front of the longest suffix rule for the domain stands a shorter one, the first of
-- all, and its chain is another.
def Shadowed (cfg : StrategyConfig) (domain : Bytes) : Prop :=
  ∃ front r back r', cfg.rules = front ++ r :: back ∧ (∀ x ∈ front, ¬ Covers x.domain domain) ∧
    Covers r.domain domain ∧ r' ∈ back ∧ Longest cfg domain r' ∧ r'.chain ≠ r.chain

theorem first_suffix {cfg : StrategyConfig} {domain : Bytes} {r : StrategyRule} :
    cfg.rules.find? (fun r => suffixMatch domain r.domain) = some r ↔
      Covers r.domain domain ∧ ∃ front back, cfg.rules = front ++ r :: back ∧
        ∀ x ∈ front, ¬ Covers x.domain domain := by
  simp only [List.find?_eq_some_iff_append, ← suffixMatch_iff, Bool.not_eq_true', Bool.not_eq_true]

theorem not_shadowed_iff {cfg : StrategyConfig} {domain : Bytes} {r : StrategyRule}
    (hfirst : cfg.rules.find? (fun r => suffixMatch domain r.domain) = some r) :
    ¬ Shadowed cfg domain ↔ ∀ r', Longest cfg domain r' → r'.chain = r.chain := by
  constructor
  · intro hno r' hlongest
    by_contra hne
    obtain ⟨hcovers, front, back, hrules, hfront⟩ := first_suffix.mp hfirst
    have hmem := hlongest.mem
    rw [hrules] at hmem
    rcases List.mem_append.mp hmem with hmem | hmem
    · exact hfront r' hmem hlongest.covers
    · rcases List.mem_cons.mp hmem with rfl | hmem
      · exact hne rfl
      · exact hno ⟨front, r, back, r', hrules, hfront, hcovers, hmem, hlongest, hne⟩
  · rintro h ⟨front, r₂, back, r', hrules, hfront, hcovers, -, hlongest, hne⟩
    have hsecond := first_suffix.mpr ⟨hcovers, front, back, hrules, hfront⟩
    obtain rfl := Option.some.inj (hfirst.symm.trans hsecond)
    exact hne (h r' hlongest)

include hkeys in
theorem chainFor_iff (domain : Bytes) :
    ChainFor cfg domain (strategyChainForDomain cfg domain) ↔
      (∃ r ∈ cfg.rules, Exact r domain) ∨ ¬ Shadowed cfg domain := by
  rcases strategyChainForDomain_cases cfg domain with ⟨r, hr, hexact, hchain⟩ | ⟨hnone, hrest⟩
  · rw [hchain]
    exact iff_of_true (.exact r hr hexact) (.inl ⟨r, hr, hexact⟩)
  · cases hfirst : cfg.rules.find? (fun r => suffixMatch domain r.domain) with
    | none =>
        rw [hfirst] at hrest
        have hsuffix : ∀ r ∈ cfg.rules, ¬ Covers r.domain domain := by
          intro r hr hcovers
          exact List.find?_eq_none.mp hfirst r hr ((suffixMatch_iff _ _).mpr hcovers)
        rw [hrest]
        refine iff_of_true (.default hnone hsuffix) (.inr ?_)
        rintro ⟨front, r, back, r', -, -, -, -, hlongest, -⟩
        exact hsuffix r' hlongest.mem hlongest.covers
    | some r =>
        rw [hfirst] at hrest
        have hmem := List.mem_of_find?_eq_some hfirst
        have hcovers := (first_suffix.mp hfirst).1
        rw [hrest, not_shadowed_iff hfirst]
        constructor
        · intro h
          right
          generalize r.chain = chain at h ⊢
          cases h with
          | exact r' hr' hexact => exact absurd hexact (hnone r' hr')
          | suffix r' _ hlongest =>
              intro r₂ hr₂
              rw [longest_unique hkeys hr₂ hlongest]
          | default _ hsuffix => exact absurd hcovers (hsuffix r hmem)
        · rintro (⟨r', hr', hexact⟩ | h)
          · exact absurd hexact (hnone r' hr')
          · obtain ⟨r', hlongest⟩ := exists_longest hmem hcovers
            rw [← h r' hlongest]
            exact .suffix r' hnone hlongest

end Lookup

-- Rule lookup in a parsed configuration follows the precedence exactly where an exact
-- rule decides or no shorter suffix rule shadows the longest one.
theorem strategyChainForDomain_precedence_iff (text domain : Bytes) :
    let cfg := (strategyConfigParse strategyConfigInit text).1
    ChainFor cfg domain (strategyChainForDomain cfg domain) ↔
      (∃ r ∈ cfg.rules, Exact r domain) ∨ ¬ Shadowed cfg domain :=
  chainFor_iff (parse_keys_nodup text) domain

-- A lookup never gives an empty chain, so actions[0] is there to be read.
theorem strategyForDomain_first (text domain : Bytes) :
    let cfg := (strategyConfigParse strategyConfigInit text).1
    strategyChainIsSafe (strategyChainForDomain cfg domain) = true ∧
      ∃ rest, (strategyChainForDomain cfg domain).actions = strategyForDomain cfg domain :: rest := by
  intro cfg
  have hvalid : ∀ r ∈ cfg.rules, strategyChainIsSafe r.chain = true := fun r hr =>
    (parse_rules_valid text r hr).2
  have hsafe : strategyChainIsSafe (strategyChainForDomain cfg domain) = true := by
    rcases strategyChainForDomain_cases cfg domain with ⟨r, hr, -, hchain⟩ | ⟨-, hrest⟩
    · rw [hchain]
      exact hvalid r hr
    · split at hrest
      · rename_i r hfirst
        rw [hrest]
        exact hvalid r (List.mem_of_find?_eq_some hfirst)
      · rw [hrest]
        rfl
  refine ⟨hsafe, ?_⟩
  unfold strategyForDomain StrategyChain.primary
  generalize strategyChainForDomain cfg domain = chain at hsafe ⊢
  cases hactions : chain.actions with
  | nil => exact absurd hsafe (by simp [strategyChainIsSafe, hactions])
  | cons s rest => exact ⟨rest, rfl⟩

-- "[domains]\n.com = split\n.example.com = fake\n"
def nestedRules : Bytes :=
  domainsHeader ++ [10] ++ ascii ['.', 'c', 'o', 'm', ' ', '=', ' ', 's', 'p', 'l', 'i', 't'] ++ [10] ++
    ascii ['.', 'e', 'x', 'a', 'm', 'p', 'l', 'e', '.', 'c', 'o', 'm', ' ', '=', ' ', 'f', 'a', 'k', 'e'] ++
      [10]

-- "a.example.com"
def nestedDomain : Bytes := ascii ['a', '.', 'e', 'x', 'a', 'm', 'p', 'l', 'e', '.', 'c', 'o', 'm']

theorem nestedRules_shadowed :
    let cfg := (strategyConfigParse strategyConfigInit nestedRules).1
    strategyChainForDomain cfg nestedDomain = .single .split ∧
      ¬ ChainFor cfg nestedDomain (strategyChainForDomain cfg nestedDomain) := by
  intro cfg
  have hfirst : strategyChainForDomain cfg nestedDomain = .single .split := by decide +kernel
  have hlong : ∃ r ∈ cfg.rules, suffixMatch nestedDomain r.domain = true ∧ r.chain = .single .fake ∧
      ∀ r' ∈ cfg.rules, r'.domain.length ≤ r.domain.length := by decide +kernel
  have hnone : ∀ r ∈ cfg.rules, ¬ (byte r.domain 0 ≠ DOT ∧ ieq r.domain nestedDomain = true) := by
    decide +kernel
  refine ⟨hfirst, fun h => ?_⟩
  obtain ⟨r, hr, hmatch, hfake, hmax⟩ := hlong
  have hlongest : Longest cfg nestedDomain r :=
    ⟨hr, (suffixMatch_iff _ _).mp hmatch, fun r' hr' _ => hmax r' hr'⟩
  rw [hfirst] at h
  generalize hchain : StrategyChain.single .split = chain at h
  cases h with
  | exact r' hr' hexact => exact hnone r' hr' hexact
  | suffix r' _ hr' =>
      rw [longest_unique (parse_keys_nodup nestedRules) hr' hlongest, hfake] at hchain
      exact absurd hchain (by decide)
  | default _ hsuffix => exact hsuffix r hr hlongest.covers

end DpiProxy
