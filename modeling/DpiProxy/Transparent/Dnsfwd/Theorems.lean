import DpiProxy.Dns.Question
import DpiProxy.Dns.Zones
import DpiProxy.Transparent.Dnsfwd
import Mathlib.Data.List.DropRight

namespace DpiProxy.Transparent

open Wire Dns

-- How the local zones end.
def localEnds : List Bytes := ascii ['a', 'r', 'p', 'a'] :: zones.take 5 ++ (zones.drop 6).take 3

theorem zones_end : ∀ zone ∈ zones, ∃ e ∈ localEnds, e <:+ zone := by
  decide +kernel

theorem octetZones_end : ∀ zone ∈ octetZones, ∃ e ∈ localEnds, e <:+ zone := by
  intro zone hzone
  refine ⟨ascii ['a', 'r', 'p', 'a'], List.mem_cons_self, ?_⟩
  have harpa : ascii ['a', 'r', 'p', 'a'] <:+ inAddrArpa := by decide
  have hnet : ∀ net octet, inAddrArpa <:+ octetZone net octet := by
    intro net octet
    refine ⟨CText.printNat octet ++ DOT :: ascii net, ?_⟩
    simp [octetZone]
  rcases List.mem_append.mp hzone with hzone | hzone
  · obtain ⟨octet, -, rfl⟩ := List.mem_map.mp hzone
    exact harpa.trans (hnet _ _)
  · obtain ⟨octet, -, rfl⟩ := List.mem_map.mp hzone
    exact harpa.trans (hnet _ _)

-- A local name has one label, or one of the ends.
theorem local_end {name : Bytes} (h : dnsNameIsLocal name = true) :
    DOT ∉ name ∨ ∃ e ∈ localEnds, e <:+ name := by
  by_cases hdot : DOT ∈ name
  · have hnil : name ≠ [] := List.ne_nil_of_mem hdot
    rw [dnsNameIsLocal, if_neg hnil, if_neg (not_not_intro hdot), Bool.or_eq_true,
      List.any_eq_true, List.any_eq_true] at h
    obtain ⟨zone, hzone, hin⟩ | ⟨zone, hzone, hin⟩ := h
    · obtain ⟨e, he, hsuffix⟩ := zones_end zone hzone
      exact .inr ⟨e, he, hsuffix.trans ((inZone_iff.mp hin).suffix)⟩
    · obtain ⟨e, he, hsuffix⟩ := octetZones_end zone hzone
      exact .inr ⟨e, he, hsuffix.trans ((inZone_iff.mp hin).suffix)⟩
  · exact .inl hdot

theorem gListed_facts : ∀ domain ∈ gListed, domain.map tolower = domain ∧ DOT ∈ domain ∧
    ∀ e ∈ localEnds, ¬e <:+ domain ∧ ¬domain <:+ e := by
  decide +kernel

theorem localEnds_facts : ∀ e ∈ localEnds, e.map tolower = e ∧ e ≠ [] ∧
    e.getLast? ≠ some DOT := by
  decide +kernel

-- A listed name ends in a listed domain.
theorem listed_suffix {name : Bytes} (h : tpHostListed name = true) :
    ∃ domain ∈ gListed, domain <:+ (stripDots name).map tolower := by
  obtain ⟨domain, hdomain, hmatch⟩ := List.any_eq_true.mp h
  refine ⟨domain, hdomain, ?_⟩
  have hlower := (gListed_facts domain hdomain).1
  rw [Bool.or_eq_true, Bool.and_eq_true, Bool.and_eq_true, Bool.and_eq_true, ieq_iff, ieq_iff,
    hlower] at hmatch
  obtain ⟨-, heq⟩ | ⟨-, heq⟩ := hmatch
  · exact heq ▸ List.suffix_refl _
  · rw [← heq, List.map_drop]
    exact List.drop_suffix _ _

theorem stripDots_start (name : Bytes) : stripDots name <+: name :=
  List.rdropWhile_prefix (· == DOT) name

-- Nothing is stripped from a name that ends in another byte.
theorem stripDots_eq {name : Bytes} (h : name.getLast? ≠ some DOT) : stripDots name = name := by
  refine List.rdropWhile_eq_self_iff.mpr ?_
  intro hne hlast
  rw [beq_iff_eq] at hlast
  exact h (List.getLast?_eq_some_getLast hne ▸ congrArg some hlast)

theorem listed_not_local {name : Bytes} (h : tpHostListed name = true) :
    dnsNameIsLocal name = false := by
  obtain ⟨domain, hdomain, hsuffix⟩ := listed_suffix h
  obtain ⟨-, hdot, hends⟩ := gListed_facts domain hdomain
  by_contra hlocal
  rw [Bool.not_eq_false] at hlocal
  obtain hlabel | ⟨e, he, hend⟩ := local_end hlocal
  · -- A listed domain has a dot, and only a dot folds to one.
    obtain ⟨c, hc, hfold⟩ := List.mem_map.mp (hsuffix.subset hdot)
    have hdot' : c = DOT := tolower_eq_of_not_letter (by decide) (hfold.trans (by decide))
    exact hlabel (hdot' ▸ (stripDots_start name).subset hc)
  · -- Of two ends of one name one is an end of the other.
    obtain ⟨hlower, hne, hlast⟩ := localEnds_facts e he
    obtain ⟨start, rfl⟩ := hend
    have hstrip : stripDots (start ++ e) = start ++ e :=
      stripDots_eq (by rwa [List.getLast?_append_of_ne_nil _ hne])
    rw [hstrip, List.map_append, hlower] at hsuffix
    obtain hbad | hbad := List.suffix_or_suffix_of_suffix hsuffix (List.suffix_append _ _)
    · exact (hends _ he).2 hbad
    · exact (hends _ he).1 hbad

-- What one query owes to the network's own resolver, whatever that answers.
structure KeepsOriginalOut (transport : Transport) (r : Resolver) (query name : Bytes)
    (orig : Option Bytes) (now : Int × Int) (allocated : Bool) : Prop where
  listed : tpHostListed name = true → ∀ original original',
    (resolve transport original r query name orig now allocated).reply =
      (resolve transport original' r query name orig now allocated).reply ∧
    (resolve transport original r query name orig now allocated).asked = 0
  of_local : orig.isSome = true → dnsNameIsLocal name = true → ∀ original,
    (resolve transport original r query name orig now allocated).calls = []
  answered : ¬(orig.isSome = true ∧ dnsNameIsLocal name = true) →
    dnsResolverHealthy r now.1 = true → ∀ reply,
    (dnsExchange transport r query now.2).reply = some reply → dnsReplyRcode reply ≠ some 3 →
    ∀ original original',
      (resolve transport original r query name orig now allocated).reply =
        (resolve transport original' r query name orig now allocated).reply

section

variable (transport : Transport) (original : Original) (r : Resolver) (query name : Bytes)
  (orig : Option Bytes) (now : Int × Int) (allocated : Bool)

-- Without an original server only the trusted ones are asked.
theorem resolve_unknown : resolve transport original r query name none now allocated =
    ⟨(dnsExchange transport r query now.2).resolver, (dnsExchange transport r query now.2).reply,
      0, (dnsExchange transport r query now.2).calls⟩ := by
  simp [resolve]

-- Nor are others asked for a listed name.
theorem resolve_listed (h : tpHostListed name = true) :
    resolve transport original r query name orig now allocated =
      resolve transport original r query name none now allocated := by
  have hlocal : (orig.filter fun _ => dnsNameIsLocal name) = none := by
    simp [listed_not_local h]
  simp [resolve, hlocal, h]

theorem resolve_local (server : Bytes) (h : dnsNameIsLocal name = true) :
    resolve transport original r query name (some server) now allocated =
      ⟨r, askOriginal original 0 server query, 1, []⟩ := by
  have hlocal : ((some server).filter fun _ => dnsNameIsLocal name) = some server := by
    simp [Option.filter, h]
  simp only [resolve, hlocal]

-- While a trusted server is healthy its answer is final.
theorem resolve_answered (hlocal : ¬(orig.isSome = true ∧ dnsNameIsLocal name = true))
    (hhealthy : dnsResolverHealthy r now.1 = true) {reply : Bytes}
    (hreply : (dnsExchange transport r query now.2).reply = some reply)
    (hrcode : dnsReplyRcode reply ≠ some 3) :
    (resolve transport original r query name orig now allocated).reply = some reply := by
  have hfilter : (orig.filter fun _ => dnsNameIsLocal name) = none := by
    cases orig with
    | none => rfl
    | some server => simpa using hlocal
  cases hlisted : tpHostListed name with
  | true =>
      rw [resolve_listed _ _ _ _ _ _ _ _ hlisted, resolve_unknown]
      exact hreply
  | false =>
      cases orig with
      | none =>
          rw [resolve_unknown]
          exact hreply
      | some server => simp [resolve, hfilter, hlisted, hhealthy, hreply, hrcode]

end

theorem resolve_keepsOriginalOut (transport : Transport) (r : Resolver) (query name : Bytes)
    (orig : Option Bytes) (now : Int × Int) (allocated : Bool) :
    KeepsOriginalOut transport r query name orig now allocated := by
  constructor
  case listed =>
    intro hlisted original original'
    rw [resolve_listed _ original _ _ _ _ _ _ hlisted, resolve_listed _ original' _ _ _ _ _ _ hlisted,
      resolve_unknown, resolve_unknown]
    exact ⟨rfl, rfl⟩
  case of_local =>
    intro hknown hlocal original
    obtain ⟨server, rfl⟩ := Option.isSome_iff_exists.mp hknown
    rw [resolve_local _ _ _ _ _ _ _ _ hlocal]
  case answered =>
    intro hlocal hhealthy reply hreply hrcode original original'
    rw [resolve_answered _ original _ _ _ _ _ _ hlocal hhealthy hreply hrcode,
      resolve_answered _ original' _ _ _ _ _ _ hlocal hhealthy hreply hrcode]

end DpiProxy.Transparent
