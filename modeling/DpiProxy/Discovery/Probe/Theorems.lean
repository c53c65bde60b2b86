import DpiProxy.Discovery.Probe
import DpiProxy.MainPacket.Commands

namespace DpiProxy.Discovery

open Wire CText Interleaving
open Transparent (STRATEGY_DOMAIN_MAX LF textLines strategyName textLines_line)

section Lines

theorem blank_isspace : ∀ c : UInt8, (c == 32 || c == 9 || c == 13) = true → isspace c = true :=
  forall_byte (by decide +kernel)

theorem not_blank {c : UInt8} (h : isspace c = false) : (c == 32 || c == 9 || c == 13) = false := by
  cases hblank : c == 32 || c == 9 || c == 13 with
  | false => rfl
  | true => exact (blank_isspace c hblank).symm.trans h

theorem trim_of_ends {l : Bytes} (hhead : ∀ c ∈ l.head?, isspace c = false)
    (hlast : ∀ c ∈ l.getLast?, isspace c = false) : DpiProxy.trim l = l := by
  have hdrop : l.dropWhile (fun c => c == 32 || c == 9) = l := by
    cases l with
    | nil => rfl
    | cons c l =>
        have hc := not_blank (hhead c rfl)
        rw [Bool.or_eq_false_iff] at hc
        rw [List.dropWhile_cons_of_neg (by simpa using hc.1)]
  rw [DpiProxy.trim, hdrop, List.rdropWhile_eq_self_iff]
  intro hne hblank
  rw [not_blank (hlast _ (List.getLast?_eq_some_getLast hne))] at hblank
  cases hblank

variable {key value word : Bytes}

theorem trim_plain (hplain : Plain word) : DpiProxy.trim word = word :=
  trim_of_ends (fun c hc => (hplain c (List.mem_of_mem_head? hc)).1) fun c hc =>
    (hplain c (List.mem_of_getLast? hc)).1

theorem trim_before (hplain : Plain word) : DpiProxy.trim (32 :: word) = word := by
  have hdrop : (32 :: word).dropWhile (fun c => c == 32 || c == 9) = word.dropWhile fun c => c == 32 || c == 9 := rfl
  rw [DpiProxy.trim, hdrop]
  exact trim_plain hplain

theorem trim_behind (hne : word ≠ []) (hplain : Plain word) : DpiProxy.trim (word ++ [32]) = word := by
  have hdrop : (word ++ [32]).dropWhile (fun c => c == 32 || c == 9) = word ++ [32] := by
    cases word with
    | nil => exact absurd rfl hne
    | cons c word =>
        have hc := not_blank (hplain c List.mem_cons_self).1
        rw [Bool.or_eq_false_iff] at hc
        rw [List.cons_append, List.dropWhile_cons_of_neg (by simpa using hc.1)]
  have htrim := trim_plain hplain
  rw [DpiProxy.trim] at htrim
  rw [DpiProxy.trim, hdrop, List.rdropWhile_concat_pos _ _ _ (by decide), List.rdropWhile_eq_self_iff]
  intro _ hblank
  rw [not_blank (hplain _ (List.getLast_mem hne)).1] at hblank
  cases hblank

-- A key in front of an assignment.
structure Keyable (key : Bytes) : Prop where
  ne : key ≠ []
  plain : Plain key
  noEquals : EQUALS ∉ key
  first : byte key 0 ≠ HASH ∧ byte key 0 ≠ SEMICOLON ∧ byte key 0 ≠ BRACKET
  short : key.length < STRATEGY_DOMAIN_MAX

theorem parseKv_assign (hkey : Keyable key) (hne : value ≠ []) (hplain : Plain value) :
    parseKv (key ++ assign ++ value) = some (key, value) := by
  have hline : key ++ assign ++ value = (key ++ [32]) ++ EQUALS :: 32 :: value := by
    simp [assign, ascii, EQUALS]
  have hname : (key ++ assign ++ value).takeWhile (· ≠ EQUALS) = key ++ [32] := by
    rw [hline]
    apply takeWhile_stops
    · intro c hc
      rcases List.mem_append.mp hc with hc | hc
      · exact decide_eq_true fun heq => hkey.noEquals (heq ▸ hc)
      · rw [List.mem_singleton.mp hc]
        rfl
    · intro c hc
      rw [← Option.some.inj hc]
      rfl
  have hdrop : (key ++ assign ++ value).drop ((key ++ [32]).length + 1) = 32 :: value := by
    rw [hline, List.drop_append, List.drop_of_length_le (Nat.le_succ _)]
    simp
  have hmem : EQUALS ∈ key ++ assign ++ value := by
    rw [hline]
    simp
  simp only [parseKv, hname, hdrop, trim_behind hkey.ne hkey.plain, trim_before hplain, hmem, hkey.ne, hne, not_true,
    or_false, if_false]

theorem configLine_assign (hkey : Keyable key) (hne : value ≠ []) (hplain : Plain value)
    (hlen : key.length + value.length ≤ 500) : configLine (key ++ assign ++ value) = key ++ assign ++ value := by
  have hnul : (0 : UInt8) ∉ key ++ assign ++ value := by
    intro hmem
    rcases List.mem_append.mp hmem with hmem | hmem
    · rcases List.mem_append.mp hmem with hmem | hmem
      · exact (hkey.plain _ hmem).2 rfl
      · exact absurd hmem (by decide)
    · exact (hplain _ hmem).2 rfl
  have hshort : (key ++ assign ++ value).length ≤ CONFIG_LINE_SIZE - 1 := by
    rw [List.length_append, List.length_append]
    show key.length + 3 + value.length ≤ 511
    omega
  rw [configLine, List.take_of_length_le hshort, cstr_eq_self hnul]
  apply trim_of_ends
  · intro c hc
    obtain ⟨d, rest, rfl⟩ := List.exists_cons_of_ne_nil hkey.ne
    obtain rfl := Option.some.inj hc
    exact (hkey.plain _ List.mem_cons_self).1
  · intro c hc
    rw [List.getLast?_append_of_ne_nil _ hne] at hc
    exact (hplain c (List.mem_of_getLast? hc)).1

-- A line of the form that write_temp_config prints is read for what it says.
theorem settings_assign (hkey : Keyable key) (hne : value ≠ []) (hplain : Plain value)
    (hlen : key.length + value.length ≤ 500) (inDomains : Bool) (lines : List Bytes) :
    settings inDomains ((key ++ assign ++ value) :: lines) =
      (if inDomains then domainSetting key value else topSetting key value).toList ++ settings inDomains lines := by
  have hbyte : byte (key ++ assign ++ value) 0 = byte key 0 := by
    obtain ⟨d, rest, rfl⟩ := List.exists_cons_of_ne_nil hkey.ne
    rfl
  have hsetting : ¬NoSetting (key ++ assign ++ value) := by
    rw [NoSetting, hbyte]
    rintro (hnil | hhash | hsemicolon | hbracket)
    · simp [hkey.ne] at hnil
    · exact hkey.first.1 hhash
    · exact hkey.first.2.1 hsemicolon
    · exact hkey.first.2.2 hbracket
  rw [settings, configLine_assign hkey hne hplain hlen, lineSetting, if_neg hsetting,
    parseKv_assign hkey hne hplain, Option.bind_some, nextSection, hbyte, if_neg hkey.first.2.2]

end Lines

section Config

variable {domain name : Bytes} {candidate : StrategyChain} {fakeTtl : UInt8}

theorem fakeTtlOf_print (httl : 1 ≤ fakeTtl.toNat) : fakeTtlOf (printNat fakeTtl.toNat) = some fakeTtl := by
  have hlt := fakeTtl.toNat_lt
  have hprint : printInt (fakeTtl.toNat : Int) = printNat fakeTtl.toNat := by
    rw [printInt, if_neg (by omega)]
    rfl
  have hend : Stops (isDigit 10) [] := fun c hc => absurd hc (by simp)
  have hscan := scanLong_print (v := (fakeTtl.toNat : Int)) (by unfold LLONG_MIN; omega)
    (by unfold LLONG_MAX; omega) hend
  rw [List.append_nil, hprint] at hscan
  rw [fakeTtlOf, hscan]
  have hgood : ¬(([] : Bytes) ≠ [] ∨ (fakeTtl.toNat : Int) < 1 ∨ (fakeTtl.toNat : Int) > 255) := by
    rintro (h | h | h)
    · exact h rfl
    · omega
    · omega
  simp only [if_neg hgood, Int.toNat_natCast, UInt8.ofNat_toNat]

theorem keyable_key {key : Bytes} (h : key = defaultKey ∨ key = fakeTtlKey) : Keyable key := by
  have hplain : ∀ c ∈ defaultKey ++ fakeTtlKey, isspace c = false ∧ c ≠ 0 ∧ c ≠ EQUALS := forall_of_all (by decide)
  rcases h with rfl | rfl
  · exact ⟨by decide, fun c hc => And.imp_right And.left (hplain c (List.mem_append_left _ hc)),
      by decide, by decide, by decide⟩
  · exact ⟨by decide, fun c hc => And.imp_right And.left (hplain c (List.mem_append_right _ hc)),
      by decide, by decide, by decide⟩

theorem plain_lf {b : Bytes} (h : Plain b) : ∀ c ∈ b, c ≠ LF := by
  rintro c hc rfl
  exact absurd (h _ hc).1 (by decide)

theorem assign_lf {key value : Bytes} (hkey : Plain key) (hvalue : Plain value) :
    ∀ c ∈ key ++ assign ++ value, c ≠ LF := by
  intro c hc
  rcases List.mem_append.mp hc with hc | hc
  · rcases List.mem_append.mp hc with hc | hc
    · exact plain_lf hkey c hc
    · have hassign : ∀ c ∈ assign, c ≠ LF := forall_of_all (by decide)
      exact hassign c hc
  · exact plain_lf hvalue c hc

theorem tempConfig_settings (hkey : Keyable domain) (hsafe : strategyChainIsSafe candidate = true)
    (httl : 1 ≤ fakeTtl.toNat) :
    settings false (textLines (tempConfig domain candidate fakeTtl)) =
      [.default .pass, .fakeTtl fakeTtl, .rule ⟨domain, candidate⟩] := by
  obtain ⟨hchain, hne, hplain, hlen⟩ := chainDesc_safe hsafe
  obtain ⟨hdigits, hall, -⟩ := printNat_digits fakeTtl.toNat
  have hnumber : Plain (printNat fakeTtl.toNat) := plain_digits (by decide) hall
  have hnumberLen : (printNat fakeTtl.toNat).length ≤ 10 := by
    have hbyte : ∀ n < 256, (printNat n).length ≤ 10 := by decide +kernel
    exact hbyte _ fakeTtl.toNat_lt
  have hpass : Plain (strategyName .pass) := by
    have hall : ∀ c ∈ strategyName .pass, isspace c = false ∧ c ≠ 0 := forall_of_all (by decide)
    exact hall
  have hdefault := keyable_key (.inl rfl : defaultKey = defaultKey ∨ defaultKey = fakeTtlKey)
  have hfake := keyable_key (.inr rfl : fakeTtlKey = defaultKey ∨ fakeTtlKey = fakeTtlKey)
  have hheader : ∀ c ∈ domainsHeader, c ≠ LF := forall_of_all (by decide)
  have hlines : textLines (tempConfig domain candidate fakeTtl) =
      [defaultKey ++ assign ++ strategyName .pass, fakeTtlKey ++ assign ++ printNat fakeTtl.toNat, [], domainsHeader,
        domain ++ assign ++ chainDesc candidate] := by
    have hend : textLines [] = [] := by
      rw [textLines, if_pos rfl]
    rw [tempConfig, textLines_line (assign_lf hdefault.plain hpass), textLines_line (assign_lf hfake.plain hnumber)]
    rw [show LF :: (domainsHeader ++ LF :: (domain ++ assign ++ chainDesc candidate ++ [LF])) =
      [] ++ LF :: (domainsHeader ++ LF :: (domain ++ assign ++ chainDesc candidate ++ [LF])) from rfl,
      textLines_line (fun c hc => absurd hc List.not_mem_nil), textLines_line hheader,
      textLines_line (assign_lf hkey.plain hplain), hend]
  have hsection : lineSetting false (configLine []) = none ∧ nextSection false (configLine []) = false ∧
      lineSetting false (configLine domainsHeader) = none ∧ nextSection false (configLine domainsHeader) = true := by
    decide +kernel
  have hshort := hkey.short
  rw [hlines, settings_assign hdefault (by decide) hpass (by decide), settings_assign hfake hdigits hnumber
    (by rw [show fakeTtlKey.length = 8 from rfl]; omega), settings, settings, hsection.1, hsection.2.1, hsection.2.2.1,
    hsection.2.2.2, settings_assign hkey hne hplain (by unfold STRATEGY_DOMAIN_MAX at hshort; omega)]
  have htop : topSetting fakeTtlKey (printNat fakeTtl.toNat) = some (.fakeTtl fakeTtl) := by
    rw [topSetting, if_pos (by decide), fakeTtlOf_print httl]
    rfl
  have hdefaultSetting : topSetting defaultKey (strategyName .pass) = some (.default .pass) := by decide
  have hrule : domainSetting domain (chainDesc candidate) = some (.rule ⟨domain, candidate⟩) := by
    rw [domainSetting, if_pos hkey.short, hchain]
    rfl
  simp [htop, hdefaultSetting, hrule, settings]

theorem tempConfig_loaded (hkey : Keyable domain) (hsafe : strategyChainIsSafe candidate = true)
    (httl : 1 ≤ fakeTtl.toNat) :
    (loadStrategyConfig (some (tempConfig domain candidate fakeTtl))).defaultStrategy = .pass ∧
      (loadStrategyConfig (some (tempConfig domain candidate fakeTtl))).fakeTtl = fakeTtl ∧
      (loadStrategyConfig (some (tempConfig domain candidate fakeTtl))).rules = [⟨domain, candidate⟩] := by
  have hlen : (tempConfig domain candidate fakeTtl).length ≤ ENGINE_CONFIG_SIZE - 1 := by
    obtain ⟨-, -, -, hchain⟩ := chainDesc_safe hsafe
    have hbyte : ∀ n < 256, (printNat n).length ≤ 10 := by decide +kernel
    have hnumber := hbyte _ fakeTtl.toNat_lt
    have hshort := hkey.short
    simp only [tempConfig, List.length_append, List.length_cons, List.length_nil]
    rw [show defaultKey.length = 7 from rfl, show assign.length = 3 from rfl,
      show (strategyName .pass).length = 4 from rfl, show fakeTtlKey.length = 8 from rfl,
      show domainsHeader.length = 9 from rfl]
    unfold STRATEGY_DOMAIN_MAX at hshort
    unfold ENGINE_CONFIG_SIZE
    omega
  rw [loadStrategyConfig, List.take_of_length_le hlen, strategyConfigParse_settings init_short,
    tempConfig_settings hkey hsafe httl]
  simp only [List.foldl_cons, List.foldl_nil, applySetting]
  have hput : ∀ cfg : StrategyConfig, cfg.rules = [] → ∃ cfg', setDomainRule cfg domain candidate = some cfg' ∧
      cfg'.defaultStrategy = cfg.defaultStrategy ∧ cfg'.fakeTtl = cfg.fakeTtl ∧ cfg'.rules = [⟨domain, candidate⟩] := by
    intro cfg hrules
    have hroom : ¬(cfg.rules.length ≥ STRATEGY_MAX_DOMAINS ∨ domain.length ≥ STRATEGY_DOMAIN_MAX) := by
      rw [hrules, not_or]
      exact ⟨by decide, Nat.not_le.mpr hkey.short⟩
    rw [setDomainRule, if_neg (by rw [hrules]; simp), dif_neg hroom]
    exact ⟨_, rfl, rfl, rfl, by simp [hrules]⟩
  obtain ⟨cfg', hset, hdefault, hfake, hrules⟩ := hput
    { strategyConfigInit with defaultStrategy := .pass, fakeTtl := fakeTtl } rfl
  rw [hset]
  exact ⟨hdefault, hfake, hrules⟩

theorem explicit_self {cfg : StrategyConfig} (hrules : cfg.rules = [⟨domain, candidate⟩]) (hne : domain ≠ [])
    (hname : ieq name domain = true) : strategyHasExplicitRule cfg name = some candidate := by
  have hback : ieq domain name = true := by
    rw [ieq_iff] at hname ⊢
    exact hname.symm
  have hlen : domain.length = name.length := by
    have := congrArg List.length ((ieq_iff _ _).mp hname)
    simpa using this.symm
  rw [strategyHasExplicitRule, hrules]
  by_cases hdot : byte domain 0 = DOT
  · have hcovers : suffixMatch name domain = true := by
      rw [suffixMatch, if_neg, if_neg (by omega), hlen, Nat.sub_self]
      · exact hname
      · rintro (h | h | h)
        · exact hne (List.length_eq_zero_iff.mp h)
        · exact h hdot
        · omega
    simp [hdot, hcovers]
  · simp [hdot, hback]

theorem explicit_other {cfg : StrategyConfig} (hrules : cfg.rules = [⟨domain, candidate⟩]) (hdot : byte domain 0 ≠ DOT)
    (hname : ieq name domain = false) : strategyHasExplicitRule cfg name = none := by
  have hback : ieq domain name = false := by
    rw [Bool.eq_false_iff, Ne, ieq_iff] at hname ⊢
    exact fun h => hname h.symm
  rw [strategyHasExplicitRule, hrules]
  simp [hdot, hback]

-- What the engine of a probe loads: `file` is the user's strategy.conf.
def probeConfig (file : Option Bytes) (domain : Bytes) (candidate : StrategyChain) : StrategyConfig :=
  loadStrategyConfig (some (tempConfig domain candidate (MainPacket.loadStrategyConfigFromDisk file).fakeTtl))

theorem fakeTtl_pos (file : Option Bytes) : 1 ≤ (MainPacket.loadStrategyConfigFromDisk file).fakeTtl.toNat := by
  cases file with
  | none => decide
  | some text => exact parse_fakeTtl _

-- The engine of a probe applies the candidate to the domain, whatever is cached, with the
-- user's fake_ttl. Every other name it treats as one without a configuration does.
theorem probeConfig_resolves (hkey : Keyable domain) (hladder : candidate ∈ discoveryLadder) (file : Option Bytes)
    (cache : DiscoveryCache) (fp : UInt64) (now : Int64) (name : Bytes) :
    (probeConfig file domain candidate).fakeTtl = (MainPacket.loadStrategyConfigFromDisk file).fakeTtl ∧
      (ieq name domain = true →
        strategyResolveChain (probeConfig file domain candidate) cache fp now name = (.manual, candidate, none)) ∧
      (byte domain 0 ≠ DOT → ieq name domain = false →
        strategyResolveChain (probeConfig file domain candidate) cache fp now name =
          strategyResolveChain strategyConfigInit cache fp now name) := by
  have hsafe : ∀ chain ∈ discoveryLadder, strategyChainIsSafe chain = true := by decide
  obtain ⟨hdefault, hfake, hrules⟩ := tempConfig_loaded hkey (hsafe candidate hladder) (fakeTtl_pos file)
  refine ⟨hfake, fun hname => ?_, fun hdot hname => ?_⟩
  · rw [strategyResolveChain, probeConfig, explicit_self hrules hkey.ne hname]
  · rw [strategyResolveChain, strategyResolveChain, probeConfig, explicit_other hrules hdot hname, hdefault]
    rfl

theorem probeConfig_resolves_fake :
    strategyResolveChain (probeConfig none (ascii ['a', '.', 'b']) (.single .fake)) discoveryCacheInit 7 0
        (ascii ['A', '.', 'b']) = (.manual, .single .fake, none) ∧
      strategyResolveChain (probeConfig none (ascii ['a', '.', 'b']) (.single .fake)) discoveryCacheInit 7 0
        (ascii ['c', '.', 'b']) = (.default, .single .pass, none) := by
  have hplain : ∀ c ∈ ascii ['a', '.', 'b'], isspace c = false ∧ c ≠ 0 := forall_of_all (by decide)
  have hkey : Keyable (ascii ['a', '.', 'b']) := ⟨by decide, hplain, by decide, by decide, by decide⟩
  have hladder : StrategyChain.single .fake ∈ discoveryLadder := by decide
  have hsame := probeConfig_resolves hkey hladder none discoveryCacheInit 7 0 (ascii ['A', '.', 'b'])
  have hother := probeConfig_resolves hkey hladder none discoveryCacheInit 7 0 (ascii ['c', '.', 'b'])
  exact ⟨hsame.2.1 (by decide), (hother.2.2 (by decide) (by decide)).trans (by decide)⟩

end Config

end DpiProxy.Discovery
