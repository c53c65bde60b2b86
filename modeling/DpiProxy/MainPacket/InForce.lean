import DpiProxy.MainPacket.History

namespace DpiProxy.MainPacket

open Wire CText Discovery
open Transparent (STRATEGY_DOMAIN_MAX LF textLines)

-- What the cache has for a domain.
def valueOf (cache : DiscoveryCache) (domain : Bytes) : Option (StrategyChain × UInt64 × Int64) :=
  Table.lookup entryKey entryValue cache.entries (domain.map tolower)

-- What a run that reads the file finds for a domain.
def inForce (file : Option Bytes) (domain : Bytes) : Option (StrategyChain × UInt64 × Int64) :=
  valueOf (discoveryCacheLoadFile file false).2 domain

section Reload

variable {P : SetCall → Prop} {cache : DiscoveryCache}

-- The entries that look like comments are not read back; all others are.
theorem reload (h : Sound P cache) :
    (discoveryCacheParse discoveryCacheInit (cacheText cache)).1.entries =
      cache.entries.filter fun e => !isComment e.domain := by
  have hskip : ∀ entries : List DiscoveryCacheEntry, (∀ e ∈ entries, Stored e) → ∀ acc : DiscoveryCache × Nat,
      (entries.map entryText).foldl parseTurn acc =
        ((entries.filter fun e => !isComment e.domain).map entryText).foldl parseTurn acc := by
    intro entries hall
    induction entries with
    | nil => exact fun acc => rfl
    | cons e entries ih =>
        intro acc
        have hrest := ih fun x hx => hall x (List.mem_cons_of_mem e hx)
        rw [List.map_cons, List.foldl_cons, hrest, List.filter_cons]
        cases hmark : isComment e.domain with
        | true =>
            have hcomment := cacheLine_comment (hall e List.mem_cons_self) hmark
            have hsame : parseTurn acc (entryText e) = acc := by
              rw [parseTurn, if_pos]
              exact .inr (by simpa [isComment] using hcomment)
            rw [hsame, Bool.not_true, if_neg Bool.false_ne_true]
        | false => rfl
  have hsub : List.Sublist (cache.entries.filter fun e => !isComment e.domain) cache.entries := List.filter_sublist
  have hstored : ∀ e ∈ cache.entries.filter fun e => !isComment e.domain, Storable e := by
    intro e he
    rw [List.mem_filter] at he
    exact (h.kept e he.1).toStored.storable (by simpa using he.2)
  rw [discoveryCacheParse, cacheText, textLines_stored fun e he => (h.kept e he).toStored,
    hskip _ fun e he => (h.kept e he).toStored]
  exact (parseTurns_entries _ discoveryCacheInit 0 hstored ((hsub.map entryKey).nodup h.single)
    (hsub.length_le.trans cache.bounded)).1

theorem isComment_lower {a b : Bytes} (h : a.map tolower = b.map tolower) : isComment a = isComment b := by
  have hmark : ∀ c d : UInt8, tolower c = tolower d → (c = HASH ↔ d = HASH) ∧ (c = SEMICOLON ↔ d = SEMICOLON) := by
    have hself : ∀ c : UInt8, (tolower c = HASH ↔ c = HASH) ∧ (tolower c = SEMICOLON ↔ c = SEMICOLON) :=
      forall_byte (by decide +kernel)
    intro c d hcd
    rw [← (hself c).1, ← (hself d).1, ← (hself c).2, ← (hself d).2, hcd]
    exact ⟨.rfl, .rfl⟩
  cases a with
  | nil =>
      rw [List.map_nil, eq_comm, List.map_eq_nil_iff] at h
      rw [h]
  | cons c a =>
      cases b with
      | nil => cases h
      | cons d b =>
          obtain ⟨hhash, hsemicolon⟩ := hmark c d (List.cons.inj h).1
          simp only [isComment, byte, List.getD_cons_zero, hhash, hsemicolon]

theorem inForce_saved (h : Sound P cache) (hfits : (cacheText cache).length < FILE_BUF_SIZE) {domain : Bytes}
    (hplain : isComment domain = false) : inForce (some (cacheText cache)) domain = valueOf cache domain := by
  rw [inForce, discoveryCacheLoadFile, if_neg Bool.false_ne_true, List.take_of_length_le (by omega), valueOf,
    reload h, Table.lookup, List.find?_filter, valueOf, Table.lookup]
  congr 2
  funext e
  by_cases hkey : entryKey e = domain.map tolower
  · have hmark : isComment e.domain = false := (isComment_lower hkey).trans hplain
    simp [hmark]
  · simp [hkey]

end Reload

section Sets

variable {P : SetCall → Prop} {cache : DiscoveryCache} {c : SetCall} {domain : Bytes}

theorem valueOf_other (h : Sound P cache) (hother : ieq c.domain domain = false) :
    valueOf (c.apply cache) domain = valueOf cache domain := by
  rw [ieq_eq_decide] at hother
  have hkey : entryKey c.entry ≠ domain.map tolower := of_decide_eq_false hother
  by_cases hfits : c.Fits
  · rw [valueOf, (set_put cache hfits).1, putEntry]
    by_cases hroom : entryKey c.entry ∈ cache.entries.map entryKey ∨ cache.entries.length < DISCOVERY_CACHE_MAX
    · rw [Table.lookup_put entryKey_setValue entryValue_setValue hroom, if_neg hkey, valueOf]
    · rw [not_or] at hroom
      rw [Table.put, if_neg hroom.1, if_neg hroom.2, valueOf]
  · rw [set_long (fun e he => (h.kept e he).fits) hfits]

theorem valueOf_set (hfits : c.Fits)
    (hroom : valueOf cache c.domain ≠ none ∨ cache.entries.length < DISCOVERY_CACHE_MAX) :
    valueOf (c.apply cache) c.domain = some (entryValue c.entry) := by
  have hput : entryKey c.entry ∈ cache.entries.map entryKey ∨ cache.entries.length < DISCOVERY_CACHE_MAX := by
    refine hroom.imp_left fun hsome => ?_
    by_contra hnot
    exact hsome (Table.lookup_eq_none.mpr hnot)
  rw [valueOf, (set_put cache hfits).1, putEntry, Table.lookup_put entryKey_setValue entryValue_setValue hput]
  exact if_pos rfl

-- The lines of a text about other domains change nothing for one.
theorem valueOf_parse {text : Bytes} (h : Sound P cache) (hP : ∀ c, P c)
    (hother : ∀ c, InText text c → ieq c.domain domain = false) :
    valueOf (discoveryCacheParse cache text).1 domain = valueOf cache domain := by
  have hlines : ∀ lines : List Bytes, (∀ line ∈ lines, line ∈ textLines text) → ∀ acc : DiscoveryCache × Nat,
      Sound P acc.1 → valueOf (lines.foldl parseTurn acc).1 domain = valueOf acc.1 domain := by
    intro lines hall
    induction lines with
    | nil => exact fun acc hacc => rfl
    | cons line lines ih =>
        intro acc hacc
        have hturn : Sound P (parseTurn acc line).1 ∧ valueOf (parseTurn acc line).1 domain = valueOf acc.1 domain := by
          rw [parseTurn]
          split
          · exact ⟨hacc, rfl⟩
          · rename_i hline
            rw [not_or, not_or] at hline
            cases hcall : lineCall (cacheLine line) with
            | none => exact ⟨hacc, rfl⟩
            | some c =>
                obtain ⟨hword, hsafe⟩ := lineCall_word hcall
                have hc : InText text c :=
                  ⟨line, hall line List.mem_cons_self, by simpa [isComment] using hline.2, hcall⟩
                exact ⟨set_sound hacc (hP c) hword hsafe, valueOf_other hacc (hother c hc)⟩
        rw [List.foldl_cons, ih (fun l hl => hall l (List.mem_cons_of_mem _ hl)) _ hturn.1, hturn.2]
  exact hlines _ (fun line hl => hl) _ h

end Sets

section Runs

variable {file : Option Bytes} {run : Command × Setting} {domain : Bytes}

theorem load_any (file : Option Bytes) (readError : Bool) :
    Sound (fun _ => True) (discoveryCacheLoadFile file readError).2 :=
  load_sound (fun _ _ _ _ => trivial) readError

-- A run that gives no set for the domain leaves what is in force for it.
theorem inForce_step (hplain : isComment domain = false) (hother : ∀ c, Gives run c → ieq c.domain domain = false)
    (hread : run.2.readError = false) (hword : Word run) (hwhole : Whole run) :
    inForce (step file run).1 domain = inForce file domain := by
  obtain ⟨command, x⟩ := run
  have hcache : Sound (fun _ => True) (x.loadDiscoveryCacheFromDisk file) := load_any file x.readError
  have hload : valueOf (x.loadDiscoveryCacheFromDisk file) domain = inForce file domain := by
    rw [Setting.loadDiscoveryCacheFromDisk, hread]
    rfl
  have hsave : ∀ cache : DiscoveryCache, Sound (fun _ => True) cache → valueOf cache domain = inForce file domain →
      inForce (discoveryCacheSaveFile cache x.buf x.ops file).2 domain = inForce file domain := by
    intro cache hsound hvalue
    rcases save_cases cache file hwhole.1 hwhole.2 with ⟨-, hold⟩ | ⟨hnew, hfits⟩
    · rw [hold]
    · rw [hnew, inForce_saved hsound hfits hplain, hvalue]
  cases command with
  | showStrategy name => rfl
  | status => rfl
  | exportProfile => rfl
  | probe name force =>
      simp only [step, Setting.cmdProbe]
      split
      · rfl
      · split
        · rfl
        · split
          · rfl
          · rename_i chain last hfound
            have hchain : x.discover.1 = some chain := by rw [hfound]
            refine hsave _ (set_sound (c := ⟨name, chain, x.fingerprint, x.now⟩) hcache trivial (hword name force rfl)
              (discover_safe hchain)) ?_
            exact (valueOf_other (c := ⟨name, chain, x.fingerprint, x.now⟩) hcache
              (hother _ (.inl ⟨force, rfl, hchain, rfl, rfl⟩))).trans hload
  | importProfile profile =>
      simp only [step, Setting.cmdImportProfile]
      split
      · rfl
      · rename_i text
        refine hsave _ (parse_sound hcache fun _ _ => trivial) ?_
        exact (valueOf_parse hcache (fun _ => trivial) fun c hc => hother c (.inr ⟨text, rfl, hc⟩)).trans hload

theorem inForce_run (hplain : isComment domain = false) {runs : List (Command × Setting)}
    (hother : ∀ r ∈ runs, ∀ c, Gives r c → ieq c.domain domain = false) (hread : ∀ r ∈ runs, r.2.readError = false)
    (hwords : ∀ r ∈ runs, Word r) (hwhole : ∀ r ∈ runs, Whole r) :
    inForce (Machine.run step file runs).1 domain = inForce file domain := by
  refine Machine.run_along_state step (fun _ r => r ∈ runs) (fun f => inForce f domain = inForce file domain)
    (fun s r hs hr => ?_) rfl (Machine.along_of_forall step (fun _ r hr => hr) file)
  exact (inForce_step hplain (hother r hr) (hread r hr) (hwords r hr) (hwhole r hr)).trans hs

-- What a probe has selected and saved is in force then, if the cache had room for it.
theorem inForce_selected {x : Setting} {force : Bool} {name : Bytes} {chain : StrategyChain}
    (hplain : isComment domain = false) (hword : domain ≠ [] ∧ Plain domain) (hwhole : Whole (.probe domain force, x))
    (hfits : domain.length < STRATEGY_DOMAIN_MAX)
    (hroom : valueOf (x.loadDiscoveryCacheFromDisk file) domain ≠ none ∨
      (x.loadDiscoveryCacheFromDisk file).entries.length < DISCOVERY_CACHE_MAX)
    (hreport : (step file (.probe domain force, x)).2 = some (.selected name chain true)) :
    inForce (step file (.probe domain force, x)).1 domain = some (chain, x.fingerprint, x.now) := by
  have hcache : Sound (fun _ => True) (x.loadDiscoveryCacheFromDisk file) := load_any file x.readError
  simp only [step, Setting.cmdProbe] at hreport ⊢
  split at hreport
  · cases hreport
  · split at hreport
    · cases hreport
    · rename_i hnone
      split at hreport
      · cases hreport
      · rename_i found last hfound
        simp only [Option.some.injEq, Report.selected.injEq, decide_eq_true_eq] at hreport
        obtain ⟨rfl, rfl, hsaved⟩ := hreport
        have hchain : x.discover.1 = some found := by rw [hfound]
        have hset := set_sound (c := ⟨domain, found, x.fingerprint, x.now⟩) hcache trivial hword (discover_safe hchain)
        have hvalue := valueOf_set (c := ⟨domain, found, x.fingerprint, x.now⟩) hfits hroom
        rcases save_cases (SetCall.apply (x.loadDiscoveryCacheFromDisk file) ⟨domain, found, x.fingerprint, x.now⟩) file
          hwhole.1 hwhole.2 with ⟨hfailed, -⟩ | ⟨hnew, hsize⟩
        · exact absurd hsaved (not_le.mpr hfailed)
        · refine (congrArg (fun f => inForce f domain) hnew).trans ?_
          rw [inForce_saved hset hsize hplain, hvalue]
          rfl

-- What is in force is found on the same network for a day.
theorem lookup_inForce {y : Setting} {cache : DiscoveryCache} {asked : Bytes} {chain : StrategyChain} {time : Int64}
    (hvalue : valueOf cache domain = some (chain, y.fingerprint, time)) (hasked : ieq asked domain = true)
    (hknown : y.fingerprint ≠ NETFP_UNKNOWN) (htime : time ≤ y.now)
    (hage : y.now.toInt - time.toInt ≤ DISCOVERY_CACHE_DEFAULT_TTL_SECONDS.toInt) :
    ∃ e, y.lookup cache asked = some e ∧ e.chain = chain ∧ y.validatedAgo e = y.now - time := by
  have hkey := lookup_key cache asked hknown DISCOVERY_CACHE_DEFAULT_TTL_SECONDS y.now
  have hfresh := age_le htime hage
  rw [(ieq_iff _ _).mp hasked, ← valueOf, hvalue, Option.filter_some, if_pos (by simp [htime, hfresh])] at hkey
  obtain ⟨e, he, hentry⟩ := Option.map_eq_some_iff.mp hkey
  obtain ⟨hchain, -, hvalidated⟩ := by simpa only [entryValue, Prod.mk.injEq] using hentry
  exact ⟨e, he, hchain, by rw [Setting.validatedAgo, hvalidated]⟩

-- The engine's rule gives what is in force, and a probe is not made.
theorem shown_inForce {y : Setting} {asked : Bytes} {chain : StrategyChain} {time : Int64}
    (hvalue : inForce file domain = some (chain, y.fingerprint, time)) (hasked : ieq asked domain = true)
    (hreads : y.readError = false)
    (hmanual : strategyHasExplicitRule (loadStrategyConfigFromDisk y.config) asked = none)
    (hknown : y.fingerprint ≠ NETFP_UNKNOWN) (htime : time ≤ y.now)
    (hage : y.now.toInt - time.toInt ≤ DISCOVERY_CACHE_DEFAULT_TTL_SECONDS.toInt) :
    (step file (.showStrategy asked, y)).2 = some (.strategy asked .auto chain (some (y.now - time))) ∧
      step file (.probe asked false, y) = (file, some (.cached asked chain (y.now - time))) := by
  have hload : valueOf (y.loadDiscoveryCacheFromDisk file) domain = some (chain, y.fingerprint, time) := by
    rw [Setting.loadDiscoveryCacheFromDisk, hreads]
    exact hvalue
  obtain ⟨e, hlookup, hchain, hago⟩ := lookup_inForce hload hasked hknown htime hage
  constructor
  · have hresolve := hlookup
    rw [Setting.lookup] at hresolve
    simp only [step, Setting.cmdShowStrategy, strategyResolveChain, hmanual, hresolve, Option.map_some, hchain, hago]
  · simp only [step, Setting.cmdProbe, hmanual, Bool.false_eq_true, if_false, hlookup, hchain, hago]

end Runs

-- A run that brings nothing for a domain and reads the file.
structure Quiet (domain : Bytes) (run : Command × Setting) : Prop where
  word : Word run
  whole : Whole run
  reads : run.2.readError = false
  other : ∀ c, Gives run c → ieq c.domain domain = false

-- A chain that a probe has selected and saved is the one that the engine's rule gives for the
-- domain on this network for a day, and no probe is made again, whatever other domains the
-- runs between probe or import. The save has to have room for the domain.
theorem selected_stays {file : Option Bytes} {x : Setting} {force : Bool} {domain name : Bytes} {chain : StrategyChain}
    (hplain : isComment domain = false) (hword : domain ≠ [] ∧ Plain domain) (hwhole : Whole (.probe domain force, x))
    (hfits : domain.length < STRATEGY_DOMAIN_MAX)
    (hroom : valueOf (x.loadDiscoveryCacheFromDisk file) domain ≠ none ∨
      (x.loadDiscoveryCacheFromDisk file).entries.length < DISCOVERY_CACHE_MAX)
    (hreport : (step file (.probe domain force, x)).2 = some (.selected name chain true))
    {later : List (Command × Setting)} (hquiet : ∀ r ∈ later, Quiet domain r)
    {y : Setting} {asked : Bytes} (hasked : ieq asked domain = true) (hreads : y.readError = false)
    (hmanual : strategyHasExplicitRule (loadStrategyConfigFromDisk y.config) asked = none)
    (hnetwork : y.fingerprint = x.fingerprint) (hknown : x.fingerprint ≠ NETFP_UNKNOWN)
    (htime : x.now ≤ y.now)
    (hage : y.now.toInt - x.now.toInt ≤ DISCOVERY_CACHE_DEFAULT_TTL_SECONDS.toInt) :
    let left := (Machine.run step (step file (.probe domain force, x)).1 later).1
    (step left (.showStrategy asked, y)).2 =
        some (.strategy asked .auto chain (some (y.now - x.now))) ∧
      step left (.probe asked false, y) = (left, some (.cached asked chain (y.now - x.now))) := by
  intro left
  have hvalue : inForce left domain = some (chain, y.fingerprint, x.now) := by
    rw [hnetwork, ← inForce_selected hplain hword hwhole hfits hroom hreport]
    exact inForce_run hplain (fun r hr => (hquiet r hr).other) (fun r hr => (hquiet r hr).reads)
      (fun r hr => (hquiet r hr).word) fun r hr => (hquiet r hr).whole
  exact shown_inForce hvalue hasked hreads hmanual (hnetwork ▸ hknown) htime hage

-- A machine on which the prober accepts FAKE, the third candidate, at once.
def homeSetting : Setting where
  config := none
  fingerprint := 7
  now := 1000
  readError := false
  prober := fun _ chain => if chain = .single .fake then .success else .remoteRejected
  buf := List.replicate FILE_BUF_SIZE 0
  ops := ⟨true, FILE_BUF_SIZE, true⟩

def aDomain : Bytes := ascii ['a', '.', 'c', 'o', 'm']

def bDomain : Bytes := ascii ['b', '.', 'c', 'o', 'm']

theorem aDomain_word : aDomain ≠ [] ∧ Plain aDomain :=
  ⟨by simp [aDomain, ascii], by simp [aDomain, Plain, ascii, isspace]⟩

theorem homeSetting_whole (command : Command) : Whole (command, homeSetting) :=
  ⟨List.length_replicate, fun _ => Nat.le_refl _⟩

theorem homeSetting_selects :
    (step none (.probe aDomain false, homeSetting)).2 = some (.selected aDomain (.single .fake) true) := by
  have hrule : strategyHasExplicitRule (loadStrategyConfigFromDisk homeSetting.config) aDomain = none := rfl
  have hlookup : homeSetting.lookup discoveryCacheInit aDomain = none := rfl
  have hfound : homeSetting.discover = (some (.single .fake), .success) := rfl
  have hsave : discoveryCacheSaveFile (discoveryCacheSet discoveryCacheInit aDomain (.single .fake) 7 1000).2
      homeSetting.buf ⟨true, FILE_BUF_SIZE, true⟩ none = (0, some (cacheText _)) :=
    save_whole _ none (homeSetting_whole .status).1 (by decide +kernel) (by decide) rfl (Nat.le_refl _) rfl
  have hcache : homeSetting.loadDiscoveryCacheFromDisk none = discoveryCacheInit := rfl
  simp only [step, Setting.cmdProbe, hrule, Bool.false_eq_true, if_false, hlookup, hfound, hcache,
    Setting.saveDiscoveryCacheToDisk]
  rw [show homeSetting.fingerprint = 7 from rfl, show homeSetting.now = 1000 from rfl,
    show homeSetting.ops = ⟨true, FILE_BUF_SIZE, true⟩ from rfl, hsave]
  rfl

theorem selected_stays_other :
    let probed := (step none (.probe aDomain false, homeSetting)).1
    let left := (Machine.run step probed [(.probe bDomain true, homeSetting)]).1
    (step left (.showStrategy aDomain, { homeSetting with now := 1100 })).2 =
        some (.strategy aDomain .auto (.single .fake) (some 100)) ∧
      step left (.probe aDomain false, { homeSetting with now := 1100 }) =
        (left, some (.cached aDomain (.single .fake) 100)) := by
  refine selected_stays (x := homeSetting) (y := { homeSetting with now := 1100 }) (by decide) aDomain_word
    (homeSetting_whole _) (by decide) (.inr (by decide)) homeSetting_selects ?_ (ieq_refl _) rfl rfl rfl
    (by decide) (by decide) (by decide)
  intro r hr
  obtain rfl := List.mem_singleton.mp hr
  refine ⟨?_, homeSetting_whole _, rfl, ?_⟩
  · intro domain force h
    obtain ⟨rfl, -⟩ := Command.probe.inj h
    exact ⟨by simp [bDomain, ascii], by simp [bDomain, Plain, ascii, isspace]⟩
  · rintro c (⟨force, h, -⟩ | ⟨text, h, -⟩)
    · obtain ⟨hdomain, -⟩ := Command.probe.inj h
      rw [← hdomain]
      decide
    · cases h

-- A cached strategy that a run reports has been found on the same network, at most a day ago
-- as an int64_t counts it: a probe of the domain has ended with it, or a line of an imported
-- file or of the first one is about it.
theorem cachedStrategies_origin (file : Option Bytes) (runs : List (Command × Setting)) (run : Command × Setting)
    (hwords : ∀ r ∈ runs, Word r) (hwhole : ∀ r ∈ runs, Whole r) {report : Report}
    (hreport : (step (Machine.run step file runs).1 run).2 = some report) :
    ∀ domain chain ago, (domain, chain, ago) ∈ report.cachedStrategies →
      run.2.fingerprint ≠ NETFP_UNKNOWN ∧
        ∃ c, ((∃ r ∈ runs, Gives r c) ∨ ∃ text, file = some text ∧ InText (text.take (FILE_BUF_SIZE - 1)) c) ∧
          ieq c.domain domain = true ∧ c.chain = chain ∧ c.fingerprint = run.2.fingerprint ∧ Aged run.2 c ago := by
  let origin : SetCall → Prop := fun c =>
    (∃ r ∈ runs, Gives r c) ∨ ∃ text, file = some text ∧ InText (text.take (FILE_BUF_SIZE - 1)) c
  let P : SetCall → Prop := fun c => ∃ o, origin o ∧ Same o c
  have hself : ∀ c, Same c c := fun c => ⟨ieq_refl _, rfl, rfl, rfl⟩
  have hsame : ∀ c c', P c → Same c c' → P c' := by
    rintro c c' ⟨o, ho, hdomain, hchain, hfp, htime⟩ ⟨hdomain', hchain', hfp', htime'⟩
    exact ⟨o, ho, ieq_trans hdomain hdomain', hchain.trans hchain', hfp.trans hfp', htime.trans htime'⟩
  have hstart : FileSound P file := fun text htext c hc => ⟨c, .inr ⟨text, htext, hc⟩, hself c⟩
  have hsound : FileSound P (Machine.run step file runs).1 := by
    refine Machine.run_along_state step (fun _ r => r ∈ runs) (FileSound P) (fun s r hs hr => ?_) hstart
      (Machine.along_of_forall step (fun _ r hr => hr) file)
    exact step_sound hs hsame (fun c hc => ⟨c, .inl ⟨r, hr, hc⟩, hself c⟩) (hwords r hr) (hwhole r hr)
  intro domain chain ago hmem
  obtain ⟨hknown, c, ⟨o, ho, hdomain', hchain', hfp', htime'⟩, hdomain, hchain, hfp, haged⟩ :=
    report_kept hsound hreport hmem
  obtain ⟨hpast, hprinted, hrecent⟩ := haged
  rw [← htime'] at hpast hprinted hrecent
  exact ⟨hknown, o, ho, ieq_trans hdomain' hdomain, hchain'.trans hchain, hfp'.trans hfp, hpast, hprinted, hrecent⟩

-- "a.com 7 -9223372036854775808 split"
def ancientText : Bytes :=
  aDomain ++ ascii [' ', '7', ' ', '-', '9', '2', '2', '3', '3', '7', '2', '0', '3', '6', '8', '5', '4', '7', '7', '5',
    '8', '0', '8', ' ', 's', 'p', 'l', 'i', 't']

-- A line that is older than an int64_t can tell is reported.
example : (step (some ancientText) (.showStrategy aDomain, { homeSetting with now := 1700000000 })).2 =
    some (.strategy aDomain .auto (.single .split) (some (1700000000 - Int64.minValue))) := by
  decide +kernel

theorem cachedStrategies_origin_probe :
    ∃ c, ((∃ r ∈ [(Command.probe aDomain false, homeSetting)], Gives r c) ∨
        ∃ text : Bytes, none = some text ∧ InText (text.take (FILE_BUF_SIZE - 1)) c) ∧
      ieq c.domain aDomain = true ∧ c.chain = .single .fake ∧ c.fingerprint = 7 ∧
      Aged { homeSetting with now := 1100 } c 100 := by
  have hforce : inForce (step none (.probe aDomain false, homeSetting)).1 aDomain = some (.single .fake, 7, 1000) :=
    inForce_selected (by decide) aDomain_word (homeSetting_whole _) (by decide) (.inr (by decide)) homeSetting_selects
  have hreport := (shown_inForce (y := { homeSetting with now := 1100 }) hforce (ieq_refl _) rfl rfl (by decide)
    (by decide) (by decide)).1
  have hrun : (Machine.run step none [(.probe aDomain false, homeSetting)]).1 =
      (step none (.probe aDomain false, homeSetting)).1 := by
    rw [Machine.run, Machine.run]
  rw [← hrun] at hreport
  have horigin := cachedStrategies_origin none [(.probe aDomain false, homeSetting)]
    (.showStrategy aDomain, { homeSetting with now := 1100 }) ?_ ?_ hreport aDomain (.single .fake) 100
    (List.mem_singleton.mpr rfl)
  · exact horigin.2
  · intro r hr domain force h
    rw [List.mem_singleton.mp hr] at h
    obtain ⟨rfl, -⟩ := Command.probe.inj h
    exact aDomain_word
  · intro r hr
    rw [List.mem_singleton.mp hr]
    exact homeSetting_whole _

end DpiProxy.MainPacket
