import DpiProxy.MainPacket.Commands
import DpiProxy.Discovery.Cache.File

namespace DpiProxy.MainPacket

open Wire CText Discovery
open Transparent (STRATEGY_DOMAIN_MAX LF textLines textLines_line)

section Stored

-- An entry as a set stores it. Its domain can look like a comment.
structure Stored (e : DiscoveryCacheEntry) : Prop where
  nonempty : e.domain ≠ []
  plain : Plain e.domain
  safe : strategyChainIsSafe e.chain = true
  fits : e.domain.length < STRATEGY_DOMAIN_MAX

def isComment (line : Bytes) : Bool := byte line 0 = HASH ∨ byte line 0 = SEMICOLON

variable {e : DiscoveryCacheEntry}

theorem Stored.storable (h : Stored e) (hmark : isComment e.domain = false) : Storable e := by
  refine ⟨⟨h.nonempty, h.plain, fun c hc => ?_, h.safe⟩, h.fits⟩
  obtain ⟨first, domain, hdomain⟩ := List.exists_cons_of_ne_nil h.nonempty
  rw [hdomain] at hc hmark
  obtain rfl := Option.some.inj hc
  simpa [isComment, byte] using hmark

-- The line of an entry depends on its domain in its first field only.
theorem entryText_clean (h : Stored e) : ∀ c ∈ entryText e, c ≠ 0 ∧ c ≠ LF := by
  have hother : Storable { e with domain := [97] } :=
    Stored.storable ⟨by simp, by simp [Plain, isspace], h.safe, by simp [STRATEGY_DOMAIN_MAX]⟩
      (show isComment [97] = false by decide)
  have htail := entryText_bytes hother
  intro c hc
  rw [entryText] at hc
  rcases List.mem_append.mp hc with hc | hc
  · exact h.plain.clean c hc
  · exact htail c (List.mem_append_right [97] hc)

theorem textLines_stored {entries : List DiscoveryCacheEntry} (hall : ∀ e ∈ entries, Stored e) :
    textLines (entries.flatMap entryLine) = entries.map entryText := by
  induction entries with
  | nil => simp [textLines]
  | cons e entries ih =>
      have hclean := entryText_clean (hall e List.mem_cons_self)
      rw [List.flatMap_cons, entryLine_eq, List.append_assoc, List.singleton_append,
        textLines_line fun c hc => (hclean c hc).2, List.map_cons, ih fun x hx => hall x (List.mem_cons_of_mem e hx)]

-- A line keeps its first byte.
theorem cacheLine_comment (h : Stored e) (hmark : isComment e.domain = true) :
    isComment (cacheLine (entryText e)) = true := by
  obtain ⟨first, domain, hdomain⟩ := List.exists_cons_of_ne_nil h.nonempty
  have hfirst := h.plain first (by rw [hdomain]; exact List.mem_cons_self)
  have hblank : (first == 32 || first == 9 || first == 13 || first == LF) = false := by
    have hall : ∀ c : UInt8, isspace c = false → (c == 32 || c == 9 || c == 13 || c == LF) = false :=
      forall_byte (by decide +kernel)
    exact hall first hfirst.1
  have htrim : ∀ rest : Bytes, ∃ rest', Discovery.trim (first :: rest) = first :: rest' := by
    intro rest
    obtain ⟨tail, htail⟩ := List.rdropWhile_prefix (fun c => c == 32 || c == 9 || c == 13 || c == LF) (first :: rest)
    rw [Discovery.trim]
    cases hkept : List.rdropWhile (fun c => c == 32 || c == 9 || c == 13 || c == LF) (first :: rest) with
    | nil =>
        have hgone := List.rdropWhile_eq_nil_iff.mp hkept first List.mem_cons_self
        rw [hblank] at hgone
        exact absurd hgone (by simp)
    | cons c rest' =>
        rw [hkept] at htail
        obtain ⟨rfl, -⟩ := List.cons.inj htail
        exact ⟨rest', rfl⟩
  have htext : ∃ rest, cacheLine (entryText e) = first :: rest := by
    rw [cacheLine, entryText, hdomain, List.cons_append, LINE_SIZE, List.take_succ_cons, cstr, List.takeWhile_cons,
      if_pos (by simpa using hfirst.2)]
    exact htrim _
  obtain ⟨rest, hrest⟩ := htext
  rw [hrest]
  rw [hdomain] at hmark
  simpa [isComment, byte] using hmark

end Stored

section Kept

-- P holds of the sets that a cache is made of: with a domain in another case it is the same.
variable (P : SetCall → Prop)

-- An entry with such a set behind it.
structure Kept (e : DiscoveryCacheEntry) : Prop extends Stored e where
  origin : ∃ c, P c ∧ ieq c.domain e.domain = true ∧ c.chain = e.chain ∧ c.fingerprint = e.fingerprint ∧
    c.now = e.validatedAt

structure Sound (cache : DiscoveryCache) : Prop where
  kept : ∀ e ∈ cache.entries, Kept P e
  single : (cache.entries.map entryKey).Nodup

-- The sets that the lines of a text ask for.
def InText (text : Bytes) (c : SetCall) : Prop :=
  ∃ line ∈ textLines text, isComment (cacheLine line) = false ∧ lineCall (cacheLine line) = some c

variable {P} {cache : DiscoveryCache} {c : SetCall}

theorem ieq_refl (domain : Bytes) : ieq domain domain = true := (ieq_iff _ _).mpr rfl

theorem ieq_trans {a b c : Bytes} (hab : ieq a b = true) (hbc : ieq b c = true) : ieq a c = true :=
  (ieq_iff _ _).mpr (((ieq_iff _ _).mp hab).trans ((ieq_iff _ _).mp hbc))

theorem init_sound : Sound P discoveryCacheInit := ⟨fun _ he => absurd he List.not_mem_nil, List.nodup_nil⟩

-- A set that stands for itself keeps the cache sound, if there is room for it or not.
theorem set_sound (h : Sound P cache) (hc : P c) (hword : c.domain ≠ [] ∧ Plain c.domain)
    (hsafe : strategyChainIsSafe c.chain = true) : Sound P (c.apply cache) := by
  by_cases hfits : c.Fits
  · have hput := (set_put cache hfits).1
    refine ⟨fun e he => ?_, ?_⟩
    · rw [hput] at he
      unfold putEntry Table.put at he
      split at he
      · -- the entry keeps its domain, which is that of the set in another case
        rcases Table.mem_modifyFirst_where he with he | ⟨x, hx, hkey, rfl⟩
        · exact h.kept e he
        · obtain ⟨⟨hne, hplain, -, hlen⟩, -⟩ := h.kept x hx
          refine ⟨⟨hne, hplain, hsafe, hlen⟩, c, hc, ?_, rfl, rfl, rfl⟩
          exact (ieq_iff _ _).mpr (of_decide_eq_true hkey).symm
      · split at he
        · rcases List.mem_append.mp he with he | he
          · exact h.kept e he
          · rw [List.mem_singleton.mp he]
            exact ⟨⟨hword.1, hword.2, hsafe, hfits⟩, c, hc, ieq_refl _, rfl, rfl, rfl⟩
        · exact h.kept e he
    · rw [hput]
      exact Table.put_nodup entryKey_setValue DISCOVERY_CACHE_MAX _ h.single
  · rw [set_long (fun e he => (h.kept e he).fits) hfits]
    exact h

theorem chainOf_safe {s : Bytes} {chain : StrategyChain} (h : chainOf s = some chain) :
    strategyChainIsSafe chain = true := by
  unfold chainOf at h
  split at h
  · cases h
  · unfold acceptChain at h
    dsimp only at h
    split_ifs at h with hsafe hunsafe
    all_goals
      obtain rfl := Option.some.inj h
      simp_all

-- What sscanf and strategy_chain_from_string let through.
theorem lineCall_word {line : Bytes} (h : lineCall (cacheLine line) = some c) :
    (c.domain ≠ [] ∧ Plain c.domain) ∧ strategyChainIsSafe c.chain = true := by
  have hline : (0 : UInt8) ∉ cacheLine line := by
    intro hmem
    rw [cacheLine, Discovery.trim] at hmem
    have hcstr := List.mem_takeWhile_imp ((List.rdropWhile_prefix _ _).subset hmem)
    simp at hcstr
  simp only [lineCall, scanFields, Option.bind_eq_bind, Option.bind_eq_some_iff] at h
  obtain ⟨fields, hfields, fp, -, ts, -, chain, hchain, hcall⟩ := h
  obtain ⟨domain, hdomain, fpHex, -, tsDec, -, chainStr, -, hfields⟩ := hfields
  obtain rfl := Option.some.inj hfields
  obtain rfl := Option.some.inj hcall
  obtain ⟨hne, -, hword⟩ := scanString_some hdomain
  refine ⟨⟨hne, fun c hc => ⟨(hword c hc).1, ?_⟩⟩, ?_⟩
  · rintro rfl
    exact hline (hword 0 hc).2
  · exact chainOf_safe hchain

theorem parse_sound {text : Bytes} (h : Sound P cache) (htext : ∀ c, InText text c → P c) :
    Sound P (discoveryCacheParse cache text).1 := by
  have hlines : ∀ lines : List Bytes, (∀ line ∈ lines, line ∈ textLines text) → ∀ acc : DiscoveryCache × Nat,
      Sound P acc.1 → Sound P (lines.foldl parseTurn acc).1 := by
    intro lines hall
    induction lines with
    | nil => exact fun acc hacc => hacc
    | cons line lines ih =>
        intro acc hacc
        refine ih (fun l hl => hall l (List.mem_cons_of_mem _ hl)) _ ?_
        rw [parseTurn]
        split
        · exact hacc
        · rename_i hline
          rw [not_or, not_or] at hline
          cases hcall : lineCall (cacheLine line) with
          | none => exact hacc
          | some c =>
              obtain ⟨hword, hsafe⟩ := lineCall_word hcall
              refine set_sound hacc (htext c ⟨line, hall line List.mem_cons_self, ?_, hcall⟩) hword hsafe
              simpa [isComment] using hline.2
  exact hlines _ (fun line hl => hl) _ h

end Kept

section File

variable {P : SetCall → Prop} {cache : DiscoveryCache}

-- Two sets with one effect.
def Same (c c' : SetCall) : Prop :=
  ieq c.domain c'.domain = true ∧ c.chain = c'.chain ∧ c.fingerprint = c'.fingerprint ∧ c.now = c'.now

-- What a saved cache asks for when it is read.
theorem inText_saved (h : Sound P cache) (hsame : ∀ c c', P c → Same c c' → P c') {c : SetCall}
    (hc : InText (cacheText cache) c) : P c := by
  obtain ⟨line, hline, hmark, hcall⟩ := hc
  rw [cacheText, textLines_stored fun e he => (h.kept e he).toStored, List.mem_map] at hline
  obtain ⟨e, he, rfl⟩ := hline
  obtain ⟨hstored, o, ho, hdomain, hchain, hfp, htime⟩ := h.kept e he
  have hplain : isComment e.domain = false := by
    by_contra hcomment
    rw [cacheLine_comment hstored (by simpa using hcomment)] at hmark
    cases hmark
  have hstorable := hstored.storable hplain
  rw [cacheLine_entryText hstorable, lineCall_entryText hstorable] at hcall
  obtain rfl := Option.some.inj hcall
  exact hsame o _ ho ⟨hdomain, hchain, hfp, htime⟩

-- A save fails and leaves the file as it is, or writes the whole cache.
theorem save_cases (cache : DiscoveryCache) {buf : Bytes} {ops : SaveOps} (file : Option Bytes)
    (hbuf : buf.length = FILE_BUF_SIZE) (hwhole : ops.opens = true → FILE_BUF_SIZE ≤ ops.room) :
    ((discoveryCacheSaveFile cache buf ops file).1 < 0 ∧ (discoveryCacheSaveFile cache buf ops file).2 = file) ∨
      ((discoveryCacheSaveFile cache buf ops file).2 = some (cacheText cache) ∧
        (cacheText cache).length < FILE_BUF_SIZE) := by
  obtain ⟨hcount, htext⟩ := serialize_ok cache buf
  rw [hbuf] at hcount htext
  rw [discoveryCacheSaveFile]
  split
  · exact .inl ⟨by simp, rfl⟩
  · rename_i hsome
    split
    · exact .inl ⟨by simp, rfl⟩
    · rename_i hopens
      have hroom := hwhole (by simpa using hopens)
      by_cases hfits : (cacheText cache).length < FILE_BUF_SIZE
      · rw [if_neg (by omega)] at hcount
        rw [if_neg (by omega), htext hfits]
        exact .inr ⟨rfl, hfits⟩
      · -- then the cache has an entry, and a save of it fails
        rw [if_pos (by omega)] at hcount
        refine absurd ⟨hcount, ?_⟩ hsome
        rw [gt_iff_lt, List.length_pos_iff]
        intro hnil
        rw [cacheText, hnil] at hfits
        exact hfits (by decide)

-- Where nothing fails the cache is in the file.
theorem save_whole (cache : DiscoveryCache) {buf : Bytes} {ops : SaveOps} (file : Option Bytes)
    (hbuf : buf.length = FILE_BUF_SIZE) (hfits : (cacheText cache).length < FILE_BUF_SIZE) (hsome : cache.entries ≠ [])
    (hopens : ops.opens = true) (hroom : FILE_BUF_SIZE ≤ ops.room) (hcloses : ops.closes = true) :
    discoveryCacheSaveFile cache buf ops file = (0, some (cacheText cache)) := by
  obtain ⟨hcount, htext⟩ := serialize_ok cache buf
  rw [hbuf] at hcount htext
  rw [if_neg (by omega)] at hcount
  have hwritten : (discoveryCacheSerialize cache buf).1 ≠ 0 := by
    obtain ⟨e, entries, he⟩ := List.exists_cons_of_ne_nil hsome
    rw [hcount, cacheText, he, List.flatMap_cons, entryLine_eq, List.length_append, List.length_append,
      List.length_singleton]
    omega
  rw [discoveryCacheSaveFile, if_neg fun h => hwritten h.1, hopens, Bool.not_true, if_neg Bool.false_ne_true,
    if_neg (by omega), htext hfits, hcloses, if_pos rfl]

-- Every line of a file asks for a set that P holds of.
def FileSound (P : SetCall → Prop) (file : Option Bytes) : Prop :=
  ∀ text, file = some text → ∀ c, InText (text.take (FILE_BUF_SIZE - 1)) c → P c

theorem load_sound {file : Option Bytes} (h : FileSound P file) (readError : Bool) :
    Sound P (discoveryCacheLoadFile file readError).2 := by
  cases file with
  | none => exact init_sound
  | some text =>
      rw [discoveryCacheLoadFile]
      cases readError with
      | true => exact init_sound
      | false => exact parse_sound init_sound (h text rfl)

theorem save_sound {file : Option Bytes} (h : FileSound P file) (hcache : Sound P cache)
    (hsame : ∀ c c', P c → Same c c' → P c') {buf : Bytes} {ops : SaveOps} (hbuf : buf.length = FILE_BUF_SIZE)
    (hwhole : ops.opens = true → FILE_BUF_SIZE ≤ ops.room) :
    FileSound P (discoveryCacheSaveFile cache buf ops file).2 := by
  rcases save_cases cache file hbuf hwhole with ⟨-, hold⟩ | ⟨hnew, hfits⟩
  · rw [hold]
    exact h
  · rw [hnew]
    intro text htext c hc
    obtain rfl := Option.some.inj htext
    rw [List.take_of_length_le (by omega)] at hc
    exact inText_saved hcache hsame hc

end File

section Runs

-- A run that saves saves all or nothing.
def Whole (run : Command × Setting) : Prop :=
  run.2.buf.length = FILE_BUF_SIZE ∧ (run.2.ops.opens = true → FILE_BUF_SIZE ≤ run.2.ops.room)

-- A domain to probe is a word.
def Word (run : Command × Setting) : Prop := ∀ domain force, run.1 = .probe domain force → domain ≠ [] ∧ Plain domain

-- What a run brings: a candidate that the prober has accepted on the network of the run and
-- at its time, or a line of an imported file.
def Gives (run : Command × Setting) (c : SetCall) : Prop :=
  (∃ force, run.1 = .probe c.domain force ∧ run.2.discover.1 = some c.chain ∧ c.fingerprint = run.2.fingerprint ∧
    c.now = run.2.now) ∨
  ∃ text, run.1 = .importProfile (some text) ∧ InText (text.take (FILE_BUF_SIZE - 1)) c

theorem discover_safe {x : Setting} {chain : StrategyChain} (h : x.discover.1 = some chain) :
    strategyChainIsSafe chain = true := by
  have hladder : ∀ chain ∈ discoveryLadder, strategyChainIsSafe chain = true := by decide
  obtain ⟨found, last, s', tried, hrun, -, hfront, -, hfound, -⟩ :=
    @candidates_logged _ (fun n chain => (x.prober n chain, n + 1)) discoveryLadder .localError 0 []
  rw [Setting.discover, discoveryRun, hrun] at h
  obtain ⟨-, before, results, htried, -⟩ := hfound chain h
  refine hladder chain (hfront.subset ?_)
  rw [htried, List.map_append]
  exact List.mem_append_right _ List.mem_cons_self

variable {P : SetCall → Prop} {file : Option Bytes} {run : Command × Setting}

theorem step_sound (h : FileSound P file) (hsame : ∀ c c', P c → Same c c' → P c') (hgives : ∀ c, Gives run c → P c)
    (hword : Word run) (hwhole : Whole run) : FileSound P (step file run).1 := by
  obtain ⟨command, x⟩ := run
  have hcache : Sound P (x.loadDiscoveryCacheFromDisk file) := load_sound h x.readError
  cases command with
  | showStrategy domain => exact h
  | status => exact h
  | exportProfile => exact h
  | probe domain force =>
      simp only [step, Setting.cmdProbe]
      split
      · exact h
      · split
        · exact h
        · split
          · exact h
          · rename_i chain last hfound
            have hchain : x.discover.1 = some chain := by rw [hfound]
            have hset : Sound P
                (discoveryCacheSet (x.loadDiscoveryCacheFromDisk file) domain chain x.fingerprint x.now).2 :=
              set_sound (c := ⟨domain, chain, x.fingerprint, x.now⟩) hcache
                (hgives _ (.inl ⟨force, rfl, hchain, rfl, rfl⟩)) (hword domain force rfl) (discover_safe hchain)
            exact save_sound h hset hsame hwhole.1 hwhole.2
  | importProfile profile =>
      simp only [step, Setting.cmdImportProfile]
      split
      · exact h
      · rename_i text
        have hparsed := parse_sound hcache fun c hc => hgives c (.inr ⟨text, rfl, hc⟩)
        exact save_sound h hparsed hsame hwhole.1 hwhole.2

-- The age that a run prints of a set. It is at most a day, unless the set is so old that
-- the subtraction wraps.
structure Aged (x : Setting) (c : SetCall) (ago : Int64) : Prop where
  past : c.now ≤ x.now
  printed : ago = x.now - c.now
  recent : x.now.toInt - c.now.toInt ≤ LLONG_MAX →
    ago.toInt = x.now.toInt - c.now.toInt ∧ ago.toInt ≤ DISCOVERY_CACHE_DEFAULT_TTL_SECONDS.toInt

theorem lookup_kept {x : Setting} {cache : DiscoveryCache} (h : Sound P cache) {domain : Bytes}
    {e : DiscoveryCacheEntry} (he : x.lookup cache domain = some e) :
    x.fingerprint ≠ NETFP_UNKNOWN ∧ ∃ c, P c ∧ ieq c.domain domain = true ∧ ieq c.domain e.domain = true ∧
      c.chain = e.chain ∧ c.fingerprint = x.fingerprint ∧ Aged x c (x.validatedAgo e) := by
  rw [Setting.lookup, discoveryCacheLookup] at he
  split at he
  · cases he
  · rename_i hknown
    split at he
    · cases he
    · rename_i entry hfind
      split_ifs at he with hfp hold hclock
      obtain rfl := Option.some.inj he
      obtain ⟨-, c, hc, hdomain, hchain, hsame, htime⟩ := h.kept entry (List.mem_of_find?_eq_some hfind)
      have hkey := List.find?_some hfind
      rw [not_not] at hfp
      refine ⟨hknown, c, hc, ieq_trans hdomain hkey, hdomain, hchain, hsame.trans hfp, ?_⟩
      have hpast : c.now ≤ x.now := htime ▸ Int64.not_lt.mp hclock
      have hrecent : x.now - c.now ≤ DISCOVERY_CACHE_DEFAULT_TTL_SECONDS := htime ▸ Int64.not_lt.mp hold
      refine ⟨hpast, by rw [htime, Setting.validatedAgo], fun hfits => ?_⟩
      rw [Setting.validatedAgo, ← htime]
      exact ⟨toInt_age hpast hfits, Int64.le_iff_toInt_le.mp hrecent⟩

-- The cached strategies of a report come out of the cache.
theorem report_kept (h : FileSound P file) {report : Report} (hreport : (step file run).2 = some report)
    {domain : Bytes} {chain : StrategyChain} {ago : Int64} (hmem : (domain, chain, ago) ∈ report.cachedStrategies) :
    run.2.fingerprint ≠ NETFP_UNKNOWN ∧ ∃ c, P c ∧ ieq c.domain domain = true ∧ c.chain = chain ∧
      c.fingerprint = run.2.fingerprint ∧ Aged run.2 c ago := by
  obtain ⟨command, x⟩ := run
  have hcache : Sound P (x.loadDiscoveryCacheFromDisk file) := load_sound h x.readError
  cases command with
  | showStrategy name =>
      obtain rfl := Option.some.inj hreport
      simp only [Setting.cmdShowStrategy, strategyResolveChain] at hmem
      cases hrule : strategyHasExplicitRule (loadStrategyConfigFromDisk x.config) name with
      | some rule => simp [hrule, Report.cachedStrategies] at hmem
      | none =>
          cases hfound : x.lookup (x.loadDiscoveryCacheFromDisk file) name with
          | none =>
              rw [Setting.lookup] at hfound
              simp [hrule, hfound, Report.cachedStrategies] at hmem
          | some e =>
              obtain ⟨hknown, c, hc, hdomain, -, hchain, hfp, haged⟩ := lookup_kept hcache hfound
              rw [Setting.lookup] at hfound
              simp only [hrule, hfound, Report.cachedStrategies, Option.map_some, List.mem_singleton, Prod.mk.injEq]
                at hmem
              obtain ⟨rfl, rfl, rfl⟩ := hmem
              exact ⟨hknown, c, hc, hdomain, hchain, hfp, haged⟩
  | status =>
      obtain rfl := Option.some.inj hreport
      simp only [Setting.cmdStatus, Report.cachedStrategies, List.mem_filterMap, Option.map_eq_some_iff] at hmem
      obtain ⟨entry, -, e, hfound, hsame⟩ := hmem
      obtain ⟨hknown, c, hc, -, hdomain, hchain, hfp, haged⟩ := lookup_kept hcache hfound
      obtain ⟨rfl, rfl, rfl⟩ := by simpa only [Prod.mk.injEq] using hsame
      exact ⟨hknown, c, hc, hdomain, hchain, hfp, haged⟩
  | exportProfile =>
      obtain rfl := Option.some.inj hreport
      exact absurd hmem List.not_mem_nil
  | importProfile profile =>
      obtain rfl := Option.some.inj hreport
      simp only [Setting.cmdImportProfile] at hmem
      split at hmem
      · exact absurd hmem List.not_mem_nil
      · split_ifs at hmem <;> exact absurd hmem List.not_mem_nil
  | probe name force =>
      obtain rfl := Option.some.inj hreport
      simp only [Setting.cmdProbe] at hmem
      split at hmem
      · exact absurd hmem List.not_mem_nil
      · split at hmem
        · rename_i e hfound
          have hlookup : x.lookup (x.loadDiscoveryCacheFromDisk file) name = some e := by
            split_ifs at hfound
            exact hfound
          obtain ⟨hknown, c, hc, hdomain, -, hchain, hfp, haged⟩ := lookup_kept hcache hlookup
          simp only [Report.cachedStrategies, List.mem_singleton, Prod.mk.injEq] at hmem
          obtain ⟨rfl, rfl, rfl⟩ := hmem
          exact ⟨hknown, c, hc, hdomain, hchain, hfp, haged⟩
        · split at hmem <;> exact absurd hmem List.not_mem_nil

end Runs

end DpiProxy.MainPacket
