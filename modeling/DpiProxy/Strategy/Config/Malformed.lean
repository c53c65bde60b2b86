import DpiProxy.Strategy.Config.Theorems

namespace DpiProxy

open Wire
open Transparent (LF textLines textLines_line textLines_last textLines_append)

-- The whole line, trimmed, is no blank, comment or header and sets nothing in its
-- section.
def Malformed (inDomains : Bool) (line : Bytes) : Prop :=
  ¬ NoSetting (trim line) ∧ lineSetting inDomains (trim line) = none

instance (inDomains : Bool) (line : Bytes) : Decidable (Malformed inDomains line) := by
  unfold Malformed; infer_instance

-- A line stands between the end of the line before it and its own end.
def StartsLine (before : Bytes) : Prop := before = [] ∨ before.getLast? = some LF

def EndsLine (rest : Bytes) : Prop := rest = [] ∨ rest.head? = some LF

theorem textLines_middle {before line rest : Bytes} (hbefore : StartsLine before) (hline : LF ∉ line)
    (hne : line ≠ []) (hrest : EndsLine rest) :
    textLines (before ++ line ++ rest) = textLines before ++ line :: textLines (rest.drop 1) := by
  have hbytes : ∀ c ∈ line, c ≠ LF := fun c hc heq => hline (heq ▸ hc)
  rw [List.append_assoc, textLines_append hbefore]
  congr 1
  cases rest with
  | nil => rw [List.append_nil, textLines_last hbytes hne, List.drop_nil, textLines, if_pos rfl]
  | cons c rest =>
      have hc : c = LF := by
        rcases hrest with h | h
        · exact absurd h (by simp)
        · exact Option.some.inj h
      rw [hc, textLines_line hbytes, List.drop_one, List.tail_cons]

theorem prefix_byte {a b : Bytes} (h : a <+: b) (hne : a ≠ []) : byte a 0 = byte b 0 := by
  obtain ⟨t, rfl⟩ := h
  cases a with
  | nil => exact absurd rfl hne
  | cons c a => rfl

-- A text and its beginning are trimmed to the same first byte, where something is left
-- of both.
theorem trim_head {p l : Bytes} (hbegin : p <+: l) (hp : trim p ≠ []) (hl : trim l ≠ []) :
    byte (trim p) 0 = byte (trim l) 0 := by
  have hfront : (p.dropWhile fun c => c == 32 || c == 9) ≠ [] := by
    intro hnil
    rw [trim, hnil] at hp
    exact hp rfl
  have hdrop : (p.dropWhile fun c => c == 32 || c == 9) <+: (l.dropWhile fun c => c == 32 || c == 9) := by
    obtain ⟨t, rfl⟩ := hbegin
    rw [List.dropWhile_append, if_neg (by simpa using hfront)]
    exact List.prefix_append _ _
  have hkept : ∀ b : Bytes, trim b <+: b.dropWhile fun c => c == 32 || c == 9 := by
    intro b
    exact List.rdropWhile_prefix _ _
  calc byte (trim p) 0 = byte (p.dropWhile fun c => c == 32 || c == 9) 0 := prefix_byte (hkept p) hp
    _ = byte (l.dropWhile fun c => c == 32 || c == 9) 0 := prefix_byte hdrop hfront
    _ = byte (trim l) 0 := (prefix_byte (hkept l) hl).symm

theorem configLine_begins (line : Bytes) : ∃ p, p <+: line ∧ configLine line = trim p := by
  have hread : line.take (CONFIG_LINE_SIZE - 1) <+: line := List.take_prefix _ _
  have htext : cstr (line.take (CONFIG_LINE_SIZE - 1)) <+: line.take (CONFIG_LINE_SIZE - 1) :=
    List.takeWhile_prefix _
  exact ⟨_, htext.trans hread, rfl⟩

-- A line that is no header is not taken for one.
theorem malformed_section {inDomains : Bool} {line : Bytes} (h : Malformed inDomains line) :
    nextSection inDomains (configLine line) = inDomains := by
  rw [nextSection, if_neg]
  intro hbracket
  obtain ⟨p, hbegin, hp⟩ := configLine_begins line
  have hne : trim p ≠ [] := by
    rw [← hp]
    rintro hnil
    rw [hnil] at hbracket
    exact absurd hbracket (by decide)
  have hwhole : trim line ≠ [] := fun hnil => h.1 (.inl hnil)
  rw [hp, trim_head hbegin hne hwhole] at hbracket
  exact h.1 (.inr (.inr (.inr hbracket)))

-- The settings of a text with a malformed line in it.
theorem settings_middle {before line rest : Bytes} {inDomains : Bool} (hbefore : StartsLine before)
    (hsection : sectionAfter false (textLines before) = inDomains) (hline : LF ∉ line)
    (hmal : Malformed inDomains line) (hrest : EndsLine rest) :
    textSettings (before ++ line ++ rest) =
      textSettings before ++ ((lineSetting inDomains (configLine line)).toList ++
        settings inDomains (textLines (rest.drop 1))) := by
  have hne : line ≠ [] := by
    rintro rfl
    exact hmal.1 (.inl rfl)
  rw [textSettings, textLines_middle hbefore hline hne hrest, settings_append, hsection, settings,
    malformed_section hmal]
  rfl

theorem settings_deleted {before : Bytes} (rest : Bytes) {inDomains : Bool} (hbefore : StartsLine before)
    (hsection : sectionAfter false (textLines before) = inDomains) :
    textSettings (before ++ rest.drop 1) =
      textSettings before ++ settings inDomains (textLines (rest.drop 1)) := by
  rw [textSettings, textLines_append hbefore, settings_append, hsection]
  rfl

-- Deleting the line, at every place where it can stand in its section, changes nothing.
def Inert (inDomains : Bool) (line : Bytes) : Prop :=
  ∀ before rest : Bytes, StartsLine before → EndsLine rest →
    sectionAfter false (textLines before) = inDomains →
    (strategyConfigParse strategyConfigInit (before ++ line ++ rest)).1 =
      (strategyConfigParse strategyConfigInit (before ++ rest.drop 1)).1

theorem inert_of_none {inDomains : Bool} {line : Bytes} (hline : LF ∉ line) (hmal : Malformed inDomains line)
    (hnone : lineSetting inDomains (configLine line) = none) : Inert inDomains line := by
  intro before rest hbefore hrest hsection
  rw [strategyConfigParse_settings init_short, strategyConfigParse_settings init_short, ← textSettings,
    ← textSettings, settings_middle hbefore hsection hline hmal hrest,
    settings_deleted rest hbefore hsection, hnone]
  rfl

-- An inert line does not change what the text before it has set.
theorem inert_apply {inDomains : Bool} {line : Bytes} (hline : LF ∉ line) (hmal : Malformed inDomains line)
    {s : Setting} (hs : lineSetting inDomains (configLine line) = some s) (hinert : Inert inDomains line)
    (before : Bytes) (hbefore : StartsLine before)
    (hsection : sectionAfter false (textLines before) = inDomains) :
    applySetting (strategyConfigParse strategyConfigInit before).1 s =
      (strategyConfigParse strategyConfigInit before).1 := by
  have h := hinert before [] hbefore (.inl rfl) hsection
  rw [strategyConfigParse_settings init_short, ← textSettings,
    settings_middle hbefore hsection hline hmal (.inl rfl), hs, List.foldl_append] at h
  rw [List.drop_nil, List.append_nil, textLines, if_pos rfl] at h
  rw [strategyConfigParse_settings init_short] at h ⊢
  exact h

-- In its section a line sets either a rule, or the default or the fake_ttl.
theorem lineSetting_section {inDomains : Bool} {line : Bytes} {s : Setting}
    (h : lineSetting inDomains line = some s) :
    match inDomains with
    | true => ∃ r, s = .rule r
    | false => (∃ st, s = .default st) ∨ ∃ ttl, s = .fakeTtl ttl := by
  unfold lineSetting at h
  by_cases hno : NoSetting line
  · rw [if_pos hno] at h
    exact absurd h (by simp)
  · rw [if_neg hno] at h
    obtain ⟨kv, -, hkv⟩ := Option.bind_eq_some_iff.mp h
    cases inDomains with
    | false =>
        have htop : topSetting kv.1 kv.2 = some s := hkv
        unfold topSetting at htop
        split_ifs at htop
        · obtain ⟨ttl, -, rfl⟩ := Option.map_eq_some_iff.mp htop
          exact .inr ⟨ttl, rfl⟩
        · obtain ⟨st, -, rfl⟩ := Option.map_eq_some_iff.mp htop
          exact .inl ⟨st, rfl⟩
    | true =>
        have hdomain : domainSetting kv.1 kv.2 = some s := hkv
        unfold domainSetting at hdomain
        split_ifs at hdomain
        obtain ⟨chain, -, rfl⟩ := Option.map_eq_some_iff.mp hdomain
        exact ⟨⟨kv.1, chain⟩, rfl⟩

-- "default = split\n"
def splitDefault : Bytes :=
  defaultKey ++ ascii [' ', '=', ' ', 's', 'p', 'l', 'i', 't'] ++ [LF]

-- "fake_ttl = 9\n"
def nineTtl : Bytes := fakeTtlKey ++ ascii [' ', '=', ' ', '9'] ++ [LF]

-- A malformed line is inert exactly where what the buffer holds of it sets nothing.
theorem malformed_inert_iff (inDomains : Bool) (line : Bytes) (hline : LF ∉ line)
    (hmal : Malformed inDomains line) :
    Inert inDomains line ↔ lineSetting inDomains (configLine line) = none := by
  constructor
  · intro hinert
    cases hs : lineSetting inDomains (configLine line) with
    | none => rfl
    | some s =>
        exfalso
        have happly := inert_apply hline hmal hs hinert
        have hsection := lineSetting_section hs
        cases inDomains with
        | true =>
            obtain ⟨r, rfl⟩ := hsection
            have hvalid : (Setting.rule r).Valid := lineSetting_valid hs
            have h := happly (domainsHeader ++ [LF]) (.inr (by decide)) (by decide +kernel)
            have hempty : (strategyConfigParse strategyConfigInit (domainsHeader ++ [LF])).1.rules = [] := by
              decide +kernel
            have hrules := congrArg StrategyConfig.rules h
            rw [applySetting, setDomainRule_put _ hvalid.1, hempty] at hrules
            exact absurd hrules (List.cons_ne_nil _ _)
        | false =>
            have hinit := happly [] (.inl rfl) (by decide +kernel)
            rcases hsection with ⟨st, rfl⟩ | ⟨ttl, rfl⟩
            · have hsplit := happly splitDefault (.inr (by decide)) (by decide +kernel)
              have h := congrArg StrategyConfig.defaultStrategy hinit
              have h' := congrArg StrategyConfig.defaultStrategy hsplit
              exact absurd (h.symm.trans h') (by decide +kernel)
            · have hnine := happly nineTtl (.inr (by decide)) (by decide +kernel)
              have h := congrArg StrategyConfig.fakeTtl hinit
              have h' := congrArg StrategyConfig.fakeTtl hnine
              exact absurd (h.symm.trans h') (by decide +kernel)
  · exact inert_of_none hline hmal

-- "default = turbo"
def turboLine : Bytes := defaultKey ++ ascii [' ', '=', ' ', 't', 'u', 'r', 'b', 'o']

theorem malformed_inert_iff_sample : Inert false turboLine :=
  (malformed_inert_iff false turboLine (by decide) (by decide +kernel)).mpr (by decide +kernel)

-- "a.com = split", blanks up to the end of the buffer and "junk" behind it.
def longLine : Bytes :=
  ascii ['a', '.', 'c', 'o', 'm', ' ', '=', ' ', 's', 'p', 'l', 'i', 't'] ++ List.replicate 498 32 ++
    ascii ['j', 'u', 'n', 'k']

theorem longLine_taken :
    Malformed true longLine ∧
      (strategyConfigParse strategyConfigInit (domainsHeader ++ [LF] ++ longLine)).1 ≠
        (strategyConfigParse strategyConfigInit (domainsHeader ++ [LF])).1 := by
  decide +kernel

-- A line that fits the buffer and has no NUL in it is judged whole.
theorem configLine_whole {line : Bytes} (hlen : line.length ≤ CONFIG_LINE_SIZE - 1)
    (hnul : (0 : UInt8) ∉ line) : configLine line = trim line := by
  rw [configLine, List.take_of_length_le hlen, cstr_eq_self hnul]

theorem short_malformed_inert {inDomains : Bool} {line : Bytes} (hlen : line.length ≤ CONFIG_LINE_SIZE - 1)
    (hnul : (0 : UInt8) ∉ line) (hline : LF ∉ line) (hmal : Malformed inDomains line) :
    Inert inDomains line := by
  apply inert_of_none hline hmal
  rw [configLine_whole hlen hnul]
  exact hmal.2

end DpiProxy
