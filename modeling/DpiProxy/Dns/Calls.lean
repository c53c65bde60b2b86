import DpiProxy.Dns.Resolver
import DpiProxy.Machine

namespace DpiProxy.Dns

open Wire

-- The calls on one resolver, each with what the network does to it.
inductive Call where
  | resolve (transport : Transport) (name : Bytes) (qtype : UInt16) (now : Int) (out : DnsAnswer)
  | exchange (transport : Transport) (query : Bytes) (now : Int)

-- A call of dns_resolve with what it returned.
structure Report where
  name : Bytes
  qtype : UInt16
  now : Int
  status : DnsStatus
  answer : DnsAnswer
  calls : List (Nat × Bytes)
deriving DecidableEq, Repr

def step (r : Resolver) : Call → Resolver × Option Report
  | .resolve transport name qtype now out =>
      let x := dnsResolve transport r name qtype now out
      (x.resolver, some ⟨name, qtype, now, x.status, x.answer, x.calls⟩)
  | .exchange transport query now => ((dnsExchange transport r query now).resolver, none)

-- The servers for which a call invokes the transport.
def asked (r : Resolver) : Call → List Nat
  | .resolve transport name qtype now out =>
      (dnsResolve transport r name qtype now out).calls.map Prod.fst
  | .exchange transport query now => (dnsExchange transport r query now).calls.map Prod.fst

def Call.now : Call → Int
  | .resolve _ _ _ now _ => now
  | .exchange _ _ now => now

theorem dnsResolve_hit {transport : Transport} {r : Resolver} {name : Bytes} {qtype : UInt16}
    {now : Int} {out : DnsAnswer} {i : Nat}
    (h : (cacheFind r name qtype).filter (fun i => decide ((r.entry i).expiresAt > now)) = some i) :
    dnsResolve transport r name qtype now out =
      ⟨{ r.setCache i { r.entry i with lastUsed := now } with cacheHits := r.cacheHits + 1 },
        (r.entry i).status, (r.entry i).answer, []⟩ := by
  simp only [dnsResolve, h]

-- The resolver as a call that misses the cache begins the walk.
def Resolver.missed (r : Resolver) : Resolver :=
  { r with
    cacheMisses := r.cacheMisses + 1
    nextId := r.nextId + UInt16.ofNat r.health.length }

theorem dnsResolve_miss {transport : Transport} {r : Resolver} {name : Bytes} {qtype : UInt16}
    {now : Int} {out : DnsAnswer}
    (h : (cacheFind r name qtype).filter (fun i => decide ((r.entry i).expiresAt > now)) = none) :
    dnsResolve transport r name qtype now out =
      resolveLoop transport name qtype now (serverOrder r now) r.nextId r.missed out := by
  simp only [dnsResolve, h]
  rfl

theorem serverOrder_nodup (r : Resolver) (now : Int) : (serverOrder r now).Nodup := by
  refine List.Nodup.append (List.nodup_range.filter _) (List.nodup_range.filter _) ?_
  intro i h₁ h₂
  have hhealthy := (List.mem_filter.mp h₁).2
  have hbackedOff := (List.mem_filter.mp h₂).2
  simp only [hbackedOff, Bool.not_true, Bool.false_eq_true] at hhealthy

theorem mem_serverOrder (r : Resolver) (now : Int) {i : Nat} :
    i ∈ serverOrder r now ↔ i < r.health.length := by
  unfold serverOrder
  cases h : (r.health[i]?).any fun h => decide (h.skipUntil > now) <;> simp [h]

-- A name that fits a query: without one dot at the end 1 to 253 bytes, and between
-- dots labels of 1 to 63 bytes, of which the last may be empty.
def Encodable (name : Bytes) : Prop :=
  let name := withoutFinalDot name
  0 < name.length ∧ name.length ≤ 253 ∧
    (∀ label ∈ name.splitOn DOT, label.length ≤ 63) ∧
    ∀ label ∈ (name.splitOn DOT).dropLast, 0 < label.length

def LabelsFit (labels : List Bytes) : Prop :=
  (∀ label ∈ labels, label.length ≤ 63) ∧ ∀ label ∈ labels.dropLast, 0 < label.length

theorem labelsFit_cons (label first : Bytes) (more : List Bytes) :
    LabelsFit (label :: first :: more) ↔
      (0 < label.length ∧ label.length ≤ 63) ∧ LabelsFit (first :: more) := by
  have hlast : (label :: first :: more).dropLast = label :: (first :: more).dropLast := rfl
  rw [LabelsFit, LabelsFit, hlast]
  constructor
  · rintro ⟨hle, hpos⟩
    obtain ⟨hle₁, hle⟩ := List.forall_mem_cons.mp hle
    obtain ⟨hpos₁, hpos⟩ := List.forall_mem_cons.mp hpos
    exact ⟨⟨hpos₁, hle₁⟩, hle, hpos⟩
  · rintro ⟨⟨hpos₁, hle₁⟩, hle, hpos⟩
    exact ⟨List.forall_mem_cons.mpr ⟨hle₁, hle⟩, List.forall_mem_cons.mpr ⟨hpos₁, hpos⟩⟩

theorem encodeLabels_isSome (rest label first : Bytes) (more : List Bytes)
    (hsplit : rest.splitOn DOT = first :: more) :
    (encodeLabels label rest).isSome = true ↔ LabelsFit ((label ++ first) :: more) := by
  induction rest generalizing label first more with
  | nil =>
      rw [List.splitOn_nil] at hsplit
      obtain ⟨rfl, rfl⟩ := List.cons.inj hsplit
      rw [encodeLabels]
      split_ifs with hnil hlong
      · simp [LabelsFit, hnil]
      · simp [LabelsFit]
        omega
      · simp [LabelsFit]
        omega
  | cons c rest ih =>
      obtain ⟨first', more', hrest⟩ : ∃ first' more', rest.splitOn DOT = first' :: more' :=
        List.exists_cons_of_ne_nil (List.splitOnP_ne_nil _ _)
      rw [List.splitOn, List.splitOnP_cons_eq_if_modifyHead, ← List.splitOn, hrest] at hsplit
      rw [encodeLabels]
      by_cases hdot : c = DOT
      · rw [if_pos (by simpa using hdot)] at hsplit
        obtain ⟨rfl, rfl⟩ := List.cons.inj hsplit
        rw [if_pos hdot]
        have hnext := ih [] first' more' hrest
        rw [List.nil_append] at hnext
        by_cases hlen : label.length = 0 ∨ label.length > 63
        · rw [if_pos hlen]
          rw [List.append_nil, labelsFit_cons, Option.isSome_none]
          simp only [Bool.false_eq_true, false_iff]
          omega
        · rw [if_neg hlen, Option.isSome_map, hnext]
          rw [List.append_nil, labelsFit_cons]
          exact (and_iff_right ⟨by omega, by omega⟩).symm
      · rw [if_neg (by simpa using hdot)] at hsplit
        obtain ⟨rfl, rfl⟩ := List.cons.inj hsplit
        rw [if_neg hdot, ih (label ++ [c]) first' more' hrest]
        simp

theorem dnsBuildQuery_isSome (id : UInt16) (name : Bytes) (qtype : UInt16) :
    (dnsBuildQuery id name qtype 512).isSome = true ↔ Encodable name := by
  obtain ⟨first, more, hsplit⟩ : ∃ first more, (withoutFinalDot name).splitOn DOT = first :: more :=
    List.exists_cons_of_ne_nil (List.splitOnP_ne_nil _ _)
  have hlabels := encodeLabels_isSome (withoutFinalDot name) [] first more hsplit
  rw [List.nil_append, ← hsplit] at hlabels
  rw [dnsBuildQuery, if_neg (by omega), Option.isSome_map, encodeName]
  split_ifs with hlen
  · simp only [Option.isSome_none, Bool.false_eq_true, Encodable, false_iff]
    omega
  · rw [Option.isSome_map, hlabels, Encodable, LabelsFit]
    constructor
    · rintro ⟨hle, hpos⟩
      exact ⟨by omega, by omega, hle, hpos⟩
    · rintro ⟨-, -, hle, hpos⟩
      exact ⟨hle, hpos⟩

-- A server is sent the query, if the name fits one, and nothing otherwise.
theorem queryServer_sent (transport : Transport) (idx : Nat) (id : UInt16) (name : Bytes)
    (qtype : UInt16) (out : DnsAnswer) :
    (queryServer transport idx id name qtype out).sent =
      (dnsBuildQuery id name qtype 512).map fun query => (idx, query) := by
  rw [queryServer]
  split
  · rename_i hquery
    rw [hquery]
    rfl
  · rename_i query hquery
    rw [hquery]
    split <;> rfl

theorem queryServer_unencodable {name : Bytes} (hname : ¬Encodable name) (transport : Transport)
    (idx : Nat) (id : UInt16) (qtype : UInt16) (out : DnsAnswer) :
    queryServer transport idx id name qtype out = ⟨.errMalformed, out, none⟩ := by
  have hnone : dnsBuildQuery id name qtype 512 = none := by
    rw [← Option.not_isSome_iff_eq_none, dnsBuildQuery_isSome]
    exact hname
  simp only [queryServer, hnone]

end DpiProxy.Dns
