import DpiProxy.Discovery.Cache.Theorems

namespace DpiProxy.Discovery

open Wire CText
open Transparent (STRATEGY_DOMAIN_MAX LF textLines textLines_line)

-- A domain that does not look like a comment or like more than one field, and a chain
-- that the engine can carry out.
structure Writable (domain : Bytes) (chain : StrategyChain) : Prop where
  nonempty : domain ≠ []
  plain : Plain domain
  noMark : ∀ c, domain.head? = some c → c ≠ HASH ∧ c ≠ SEMICOLON
  safe : strategyChainIsSafe chain = true

-- What a line of the file can hold.
structure Storable (e : DiscoveryCacheEntry) : Prop extends Writable e.domain e.chain where
  fits : e.domain.length < STRATEGY_DOMAIN_MAX

-- The call that gives an entry.
def entryCall (e : DiscoveryCacheEntry) : SetCall := ⟨e.domain, e.chain, e.fingerprint, e.validatedAt⟩

section Reachable

theorem sets_storable {calls : List SetCall} (hcalls : ∀ c ∈ calls, Writable c.domain c.chain) :
    ∀ e ∈ (sets calls).entries, Storable e := by
  have hput : ∀ e ∈ (calls.filter (·.Fits)).map SetCall.entry, Storable e := by
    intro e he
    obtain ⟨c, hc, rfl⟩ := List.mem_map.mp he
    obtain ⟨hmem, hfits⟩ := List.mem_filter.mp hc
    exact ⟨hcalls c hmem, of_decide_eq_true hfits⟩
  rw [(sets_spec calls).2]
  apply Table.puts_forall DISCOVERY_CACHE_MAX hput
  intro e he x hx
  exact ⟨⟨hx.nonempty, hx.plain, hx.noMark, (hput e he).safe⟩, hx.fits⟩

end Reachable

section Write

def cacheText (cache : DiscoveryCache) : Bytes := cache.entries.flatMap entryLine

theorem snprintf_length (out : Bytes) (pos : Nat) (text : Bytes) :
    (snprintf out pos text).length = out.length := by
  unfold snprintf
  split
  · simp only [List.length_append, List.length_cons, List.length_take, List.length_drop]
    omega
  · rfl

-- A text that fits stands behind what was there.
theorem snprintf_take {out : Bytes} {pos : Nat} {text : Bytes} (h : pos + text.length < out.length) :
    (snprintf out pos text).take (pos + text.length) = out.take pos ++ text := by
  have hkept : text.take (out.length - pos - 1) = text := List.take_of_length_le (by omega)
  rw [snprintf, if_pos (by omega), hkept, ← List.append_assoc]
  apply List.take_left'
  simp only [List.length_append, List.length_take]
  omega

-- The loop counts the whole text. If there is room for it, the buffer holds it.
theorem serializeTurns (entries : List DiscoveryCacheEntry) (out : Bytes) (pos : Nat) :
    (entries.foldl serializeTurn (out, pos)).2 = pos + (entries.flatMap entryLine).length ∧
    (pos + (entries.flatMap entryLine).length < out.length →
      (entries.foldl serializeTurn (out, pos)).1.take (pos + (entries.flatMap entryLine).length) =
        out.take pos ++ entries.flatMap entryLine) := by
  induction entries generalizing out pos with
  | nil => simp
  | cons e entries ih =>
      obtain ⟨hpos, htext⟩ := ih (snprintf out pos (entryLine e)) (pos + (entryLine e).length)
      rw [List.foldl_cons, serializeTurn, List.flatMap_cons, List.length_append, ← Nat.add_assoc]
      refine ⟨hpos, fun hroom => ?_⟩
      rw [htext (by rw [snprintf_length]; exact hroom), snprintf_take (by omega), List.append_assoc]

theorem serialize_ok (cache : DiscoveryCache) (out : Bytes) :
    (discoveryCacheSerialize cache out).1 =
        (if (cacheText cache).length ≥ out.length then 0 else (cacheText cache).length) ∧
    ((cacheText cache).length < out.length →
      (discoveryCacheSerialize cache out).2.take (discoveryCacheSerialize cache out).1 = cacheText cache) := by
  obtain ⟨hpos, htext⟩ := serializeTurns cache.entries out 0
  rw [Nat.zero_add] at hpos htext
  rw [discoveryCacheSerialize]
  dsimp only
  rw [hpos]
  refine ⟨rfl, fun hroom => ?_⟩
  unfold cacheText at hroom ⊢
  rw [if_neg (by omega), htext hroom, List.take_zero, List.nil_append]

end Write

section Line

variable {e : DiscoveryCacheEntry}

-- The line of an entry without its line feed.
def entryText (e : DiscoveryCacheEntry) : Bytes :=
  e.domain ++ 32 :: (printHex16 e.fingerprint ++ 32 :: (printInt e.validatedAt.toInt ++ 32 :: chainDesc e.chain))

theorem entryLine_eq (e : DiscoveryCacheEntry) : entryLine e = entryText e ++ [LF] := by
  simp [entryLine, entryText]

-- The text of a safe chain is one word that stands for it.
theorem chainDesc_safe {chain : StrategyChain} (h : strategyChainIsSafe chain = true) :
    chainOf (chainDesc chain) = some chain ∧ chainDesc chain ≠ [] ∧ Plain (chainDesc chain) ∧
      (chainDesc chain).length ≤ 14 := by
  have hmem := safe_mem_chainTexts h
  have hword : ∀ t ∈ chainTexts, t.1 ≠ [] ∧ Plain t.1 ∧ t.1.length ≤ 14 := by
    unfold Plain
    decide +kernel
  obtain ⟨hne, hplain, hlen⟩ := hword _ hmem
  have htext : chainDesc chain = chainText chain.actions := by
    rw [chainDesc, strategyChainDescribe_text chain (by simp [CHAIN_DESC_SIZE]), List.length_replicate]
    apply List.take_of_length_le
    exact hlen.trans (by decide)
  rw [htext]
  refine ⟨?_, hne, hplain, hlen⟩
  rw [chainOf_iff, chainTexts_lower _ hmem]
  exact hmem

theorem printInt_ne_nil (v : Int) : printInt v ≠ [] := by
  unfold printInt
  split
  · simp
  · exact (printNat_digits v.natAbs).1

theorem entryText_length (h : Storable e) : (entryText e).length ≤ 308 := by
  have hdomain := h.fits
  have hfp := printHex16_length e.fingerprint
  have htime := printInt64_length e.validatedAt
  have hchain := (chainDesc_safe h.safe).2.2.2
  unfold STRATEGY_DOMAIN_MAX at hdomain
  simp only [entryText, List.length_append, List.length_cons]
  omega

-- No byte of a line is a NUL or ends the line.
theorem entryText_bytes (h : Storable e) : ∀ c ∈ entryText e, c ≠ 0 ∧ c ≠ LF := by
  have hblank : (32 : UInt8) ≠ 0 ∧ (32 : UInt8) ≠ LF := by decide
  intro c hc
  simp only [entryText, List.mem_append, List.mem_cons] at hc
  rcases hc with hc | rfl | hc | rfl | hc | rfl | hc
  · exact h.plain.clean c hc
  · exact hblank
  · exact (printHex16_plain _).clean c hc
  · exact hblank
  · exact (printInt_plain _).clean c hc
  · exact hblank
  · exact (chainDesc_safe h.safe).2.2.1.clean c hc

theorem trim_word {front word : Bytes} (hne : word ≠ []) (hplain : Plain word) :
    trim (front ++ word) = front ++ word := by
  rw [trim, List.rdropWhile_eq_self_iff]
  intro hnil hblank
  have hmem : (front ++ word).getLast hnil ∈ word := by
    rw [List.getLast_append_of_ne_nil _ hne]
    exact List.getLast_mem hne
  have hspace := (hplain _ hmem).1
  have hall : ∀ c : UInt8, (c == 32 || c == 9 || c == 13 || c == LF) = true → isspace c = true :=
    forall_byte (by decide +kernel)
  rw [hall _ hblank] at hspace
  exact absurd hspace (by simp)

theorem cacheLine_entryText (h : Storable e) : cacheLine (entryText e) = entryText e := by
  have hlen := entryText_length h
  have hcstr : cstr (entryText e) = entryText e :=
    cstr_eq_self fun hnul => (entryText_bytes h 0 hnul).1 rfl
  obtain ⟨-, hne, hplain, -⟩ := chainDesc_safe h.safe
  have hfront : entryText e =
      (e.domain ++ 32 :: (printHex16 e.fingerprint ++ 32 :: (printInt e.validatedAt.toInt ++ [32]))) ++
        chainDesc e.chain := by
    simp [entryText]
  rw [cacheLine, List.take_of_length_le (by unfold LINE_SIZE; omega), hcstr, hfront]
  exact trim_word hne hplain

theorem lineCall_entryText (h : Storable e) : lineCall (entryText e) = some (entryCall e) := by
  have hword : ∀ {b : Bytes}, Plain b → ∀ c ∈ b, isspace c = false := fun hb c hc => (hb c hc).1
  have hblank : ∀ b : Bytes, Stops (fun c => !isspace c) (32 :: b) :=
    stops_blank (by decide)
  have hend : ∀ q : UInt8 → Bool, Stops q [] := fun q c hc => absurd hc (by simp)
  obtain ⟨hchain, hcne, hcplain, hclen⟩ := chainDesc_safe h.safe
  have htlen := printInt64_length e.validatedAt
  have hfplen := printHex16_length e.fingerprint
  have hfields : scanFields (entryText e) =
      some (e.domain, printHex16 e.fingerprint, printInt e.validatedAt.toInt, chainDesc e.chain) := by
    have hlast : scanString 63 (chainDesc e.chain ++ []) = some (chainDesc e.chain, []) :=
      scanString_append hcne (hword hcplain) (by omega) (hend _)
    rw [List.append_nil] at hlast
    unfold scanFields entryText
    rw [scanString_append h.nonempty (hword h.plain) (Nat.le_of_lt_succ h.fits) (hblank _)]
    simp only [Option.bind_eq_bind, Option.bind_some, scanString_space]
    rw [scanString_append (List.ne_nil_of_length_pos (by omega)) (hword (printHex16_plain _)) (by omega) (hblank _)]
    simp only [Option.bind_some, scanString_space]
    rw [scanString_append (printInt_ne_nil _) (hword (printInt_plain _)) (by omega) (hblank _)]
    simp only [Option.bind_some, scanString_space]
    rw [hlast]
    rfl
  have hfp := scanHex_print e.fingerprint (hend _)
  have htime := scanInt64_print e.validatedAt (hend _)
  rw [List.append_nil] at hfp htime
  unfold lineCall
  rw [hfields]
  simp only [Option.bind_eq_bind, Option.bind_some, hfp, htime, hchain]
  rfl

theorem parseTurn_entryText (h : Storable e) {cache : DiscoveryCache} (skipped : Nat)
    (hnew : entryKey e ∉ cache.entries.map entryKey) (hroom : cache.entries.length < DISCOVERY_CACHE_MAX) :
    (parseTurn (cache, skipped) (entryText e)).1.entries = cache.entries ++ [e] ∧
      (parseTurn (cache, skipped) (entryText e)).2 = skipped := by
  have hentry : (entryCall e).entry = e := rfl
  obtain ⟨c, domain, hdomain⟩ := List.exists_cons_of_ne_nil h.nonempty
  obtain ⟨hhash, hsemicolon⟩ := h.noMark c (by rw [hdomain]; rfl)
  have htext : ¬ (entryText e = [] ∨ byte (entryText e) 0 = HASH ∨ byte (entryText e) 0 = SEMICOLON) := by
    rw [entryText, hdomain]
    simpa [byte] using ⟨hhash, hsemicolon⟩
  obtain ⟨hput, hok⟩ := set_put cache (c := entryCall e) h.fits
  rw [hentry] at hput hok
  have hrun := hok (.inr hroom)
  rw [putEntry, Table.put_new hnew hroom] at hput
  rw [parseTurn, cacheLine_entryText h, if_neg htext, lineCall_entryText h]
  refine ⟨hput, ?_⟩
  simp [hrun]

end Line

section Read

theorem textLines_entries {entries : List DiscoveryCacheEntry} (hall : ∀ e ∈ entries, Storable e) :
    textLines (entries.flatMap entryLine) = entries.map entryText := by
  induction entries with
  | nil => simp [textLines]
  | cons e entries ih =>
      have hbytes := entryText_bytes (hall e List.mem_cons_self)
      rw [List.flatMap_cons, entryLine_eq, List.append_assoc, List.singleton_append,
        textLines_line fun c hc => (hbytes c hc).2, List.map_cons,
        ih fun x hx => hall x (List.mem_cons_of_mem e hx)]

-- The entries of a file are appended one after the other: their keys are new, and a
-- cache has room for them.
theorem parseTurns_entries (entries : List DiscoveryCacheEntry) (cache : DiscoveryCache) (skipped : Nat)
    (hall : ∀ e ∈ entries, Storable e)
    (hunique : ((cache.entries ++ entries).map entryKey).Nodup)
    (hsize : (cache.entries ++ entries).length ≤ DISCOVERY_CACHE_MAX) :
    ((entries.map entryText).foldl parseTurn (cache, skipped)).1.entries = cache.entries ++ entries ∧
      ((entries.map entryText).foldl parseTurn (cache, skipped)).2 = skipped := by
  induction entries generalizing cache skipped with
  | nil => simp
  | cons e entries ih =>
      have hnew : entryKey e ∉ cache.entries.map entryKey := by
        rw [List.map_append, List.nodup_append] at hunique
        exact fun hmem => hunique.2.2 _ hmem (entryKey e) List.mem_cons_self rfl
      have hroom : cache.entries.length < DISCOVERY_CACHE_MAX := by
        rw [List.length_append, List.length_cons] at hsize
        omega
      obtain ⟨hentries, hskipped⟩ := parseTurn_entryText (hall e List.mem_cons_self) skipped hnew hroom
      rw [List.append_cons, ← hentries] at hunique hsize
      rw [List.map_cons, List.foldl_cons, List.append_cons, ← hentries]
      obtain ⟨hrest, hcount⟩ := ih (parseTurn (cache, skipped) (entryText e)).1
        (parseTurn (cache, skipped) (entryText e)).2 (fun x hx => hall x (List.mem_cons_of_mem e hx)) hunique hsize
      exact ⟨hrest, hcount.trans hskipped⟩

theorem parse_entries {cache : DiscoveryCache} (hall : ∀ e ∈ cache.entries, Storable e)
    (hunique : (cache.entries.map entryKey).Nodup) :
    discoveryCacheParse discoveryCacheInit (cacheText cache) = (cache, 0) := by
  obtain ⟨hentries, hskipped⟩ := parseTurns_entries cache.entries discoveryCacheInit 0 hall hunique cache.bounded
  rw [discoveryCacheParse, cacheText, textLines_entries hall]
  refine Prod.ext ?_ hskipped
  rw [DiscoveryCache.mk.injEq]
  exact hentries

end Read

-- Whatever is written is read back, and a file that is saved is whole.
theorem discoveryCache_roundtrip (calls : List SetCall) (hcalls : ∀ c ∈ calls, Writable c.domain c.chain) :
    (∀ out : Bytes,
      let serialized := discoveryCacheSerialize (sets calls) out
      serialized.1 ≠ 0 ∨ (sets calls).entries = [] →
        discoveryCacheParse discoveryCacheInit (serialized.2.take serialized.1) = (sets calls, 0)) ∧
    (∀ (buf : Bytes) (ops : SaveOps) (file : Option Bytes), buf.length = FILE_BUF_SIZE → ops.opens = true →
      (cacheText (sets calls)).length ≤ ops.room → ops.closes = true →
      let saved := discoveryCacheSaveFile (sets calls) buf ops file
      (FILE_BUF_SIZE ≤ (cacheText (sets calls)).length ∧ saved = (-1, file)) ∨
      (saved.1 = 0 ∧ discoveryCacheLoadFile saved.2 false = (0, sets calls))) := by
  have hparse := parse_entries (sets_storable hcalls) (sets_keys_nodup calls)
  constructor
  · intro out serialized hok
    obtain ⟨hcount, htext⟩ := serialize_ok (sets calls) out
    by_cases hroom : (cacheText (sets calls)).length < out.length
    · exact (congrArg _ (htext hroom)).trans hparse
    · -- only an empty cache has no text
      have hzero : serialized.1 = 0 := hcount.trans (if_pos (by omega))
      have hempty : (sets calls).entries = [] := hok.resolve_left fun h => h hzero
      have hnone : cacheText (sets calls) = [] := by rw [cacheText, hempty, List.flatMap_nil]
      rw [hzero, List.take_zero, ← hnone]
      exact hparse
  · intro buf ops file hbuf hopens hwrites hcloses saved
    obtain ⟨hcount, htext⟩ := serialize_ok (sets calls) buf
    rw [hbuf] at hcount htext
    by_cases hroom : (cacheText (sets calls)).length < FILE_BUF_SIZE
    · right
      rw [if_neg (by omega)] at hcount
      have hsome : ¬ ((discoveryCacheSerialize (sets calls) buf).1 = 0 ∧ (sets calls).entries.length > 0) := by
        rw [hcount]
        rintro ⟨hzero, hpos⟩
        obtain ⟨e, entries, he⟩ := List.exists_cons_of_length_pos hpos
        rw [cacheText, he, List.flatMap_cons, List.length_append, entryLine_eq, List.length_append,
          List.length_singleton] at hzero
        omega
      have hsaved : saved = (0, some (cacheText (sets calls))) := by
        dsimp only [saved]
        rw [discoveryCacheSaveFile, if_neg hsome, hopens, Bool.not_true, if_neg Bool.false_ne_true,
          if_neg (by omega), htext hroom, hcloses, if_pos rfl]
      rw [hsaved]
      refine ⟨rfl, ?_⟩
      simp only [discoveryCacheLoadFile, Bool.false_eq_true, if_false]
      rw [List.take_of_length_le (by omega), hparse]
    · left
      refine ⟨by omega, ?_⟩
      rw [if_pos (by omega)] at hcount
      have hsome : (sets calls).entries.length > 0 := by
        rw [gt_iff_lt, List.length_pos_iff]
        intro hnil
        rw [cacheText, hnil, List.flatMap_nil] at hroom
        exact hroom (by decide)
      dsimp only [saved]
      rw [discoveryCacheSaveFile, if_pos ⟨hcount, hsome⟩]

theorem discoveryCache_roundtrip_network :
    let cache := sets [domainAt 1 .split 1000, domainAt 0xCAFEBABE .tlsrecSplit (-1)]
    let serialized := discoveryCacheSerialize cache (List.replicate 64 0)
    discoveryCacheParse discoveryCacheInit (serialized.2.take serialized.1) = (cache, 0) := by
  apply (discoveryCache_roundtrip [domainAt 1 .split 1000, domainAt 0xCAFEBABE .tlsrecSplit (-1)] ?_).1
  · left
    decide +kernel
  · intro c hc
    have hdomain : c.domain = ascii ['a', '.', 'c', 'o', 'm'] ∧ strategyChainIsSafe c.chain = true := by
      revert c
      decide
    have hplain : Plain (ascii ['a', '.', 'c', 'o', 'm']) := by simp [Plain, ascii, isspace]
    rw [hdomain.1]
    refine ⟨by simp [ascii], hplain, ?_, hdomain.2⟩
    intro first hfirst
    obtain rfl := Option.some.inj hfirst
    decide

end DpiProxy.Discovery
