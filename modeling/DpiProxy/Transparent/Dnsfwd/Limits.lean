import DpiProxy.Dns.Advertised
import DpiProxy.Transparent.Dnsfwd

namespace DpiProxy.Transparent

open Wire Dns

theorem be16_of_bytes {a b : Bytes} (h₀ : byte a 0 = byte b 0) (h₁ : byte a 1 = byte b 1) : be16 a 0 = be16 b 0 := by
  rw [be16, be16, h₀, h₁]

theorem askOriginal_replies {original : Original} {n : Nat} {orig query reply : Bytes}
    (h : askOriginal original n orig query = some reply) : Replies query reply := by
  rw [askOriginal] at h
  split at h
  · simp at h
  cases hgot : original n orig query with
  | none => simp [hgot] at h
  | some got =>
      simp only [hgot] at h
      split at h
      · simp at h
      rename_i hbad
      obtain rfl := Option.some.inj h
      simp only [not_or, not_not] at hbad
      obtain ⟨hlen, h₀, h₁, hrcode⟩ := hbad
      refine ⟨be16_of_bytes h₀ h₁, fun hquery => hrcode ?_⟩
      rw [dnsReplyRcode, if_pos (.inr hquery)]

theorem dnsExchange_replies {transport : Transport} {r : Resolver} {query : Bytes} {now : Int} {q : Question}
    (hq : HasQuestion query q) {reply : Bytes} (h : (dnsExchange transport r query now).reply = some reply) :
    Replies query reply := by
  rw [exchange_eq_loop hq] at h
  have haccepts := ((exchangeLoop_spec transport query now (serverOrder r now) r).1 reply h).1
  obtain ⟨-, hid, hresponse, -⟩ := (acceptsReply_iff hq reply).mp haccepts
  exact ⟨hid, hresponse⟩

-- Whoever answers, the reply is one to this query.
theorem resolve_replies {transport : Transport} {original : Original} {r : Resolver} {query name : Bytes}
    {orig : Option Bytes} {now : Int × Int} {allocated : Bool} {q : Question} (hq : HasQuestion query q) {reply : Bytes}
    (h : (resolve transport original r query name orig now allocated).reply = some reply) : Replies query reply := by
  rw [resolve] at h
  split at h
  case h_1 server hlocal => exact askOriginal_replies h
  case h_2 =>
    dsimp only at h
    split at h
    case h_1 got hgot =>
      obtain ⟨server, -, hserver⟩ := Option.bind_eq_some_iff.mp hgot
      obtain rfl := Option.some.inj h
      exact askOriginal_replies hserver
    case h_2 =>
      split at h
      case h_1 => exact dnsExchange_replies hq h
      case h_2 server _ =>
        split at h
        · exact dnsExchange_replies hq h
        · rcases Option.or_eq_some_iff.mp h with halt | ⟨-, hreply⟩
          · exact askOriginal_replies (Option.filter_eq_some_iff.mp halt).1
          · exact dnsExchange_replies hq hreply

theorem answer_withinLimits (transport : Transport) (original : Original) (r : Resolver) (query : Bytes) (udp : Bool)
    (orig : Option Bytes) (now : Int × Int) (allocated : Bool) (info : QueryInfo)
    (hinfo : dnsQueryInfo query DNS_NAME_MAX = some info) :
    ∃ reply, (answer transport original r query udp orig now allocated).sent = some reply ∧ 0 < reply.length ∧
      be16 reply 0 = be16 query 0 ∧ byte reply 2 &&& 0x80 ≠ 0 ∧
      (udp = true → ∀ limit, ClientLimit query limit → reply.length ≤ limit) := by
  obtain ⟨q, hq, hwire, hlimit⟩ := dnsQueryInfo_question hinfo
  have hsmall : 12 + q.wire.length ≤ 512 := by
    unfold DNS_NAME_MAX at hwire
    omega
  have hroom : 12 + q.wire.length ≤ FWD_MSG_MAX := hsmall.trans (by decide)
  -- The replies built here fit the smallest payload.
  have hbuilt : ∀ {reply : Bytes}, reply.length = 12 + q.wire.length → ∀ limit, ClientLimit query limit →
      reply.length ≤ limit := by
    rintro reply hlen limit (⟨size, -, rfl⟩ | ⟨-, rfl⟩)
    · exact (hlen.trans_le hsmall).trans (le_max_left _ _)
    · exact hlen.trans_le hsmall
  simp only [answer, hinfo]
  cases hreply : (resolve transport original r query info.name orig now allocated).reply with
  | none =>
      obtain ⟨out, hout, hlen, hreplies⟩ := servfail_replies hq hroom
      exact ⟨out, hout, List.length_pos_iff.mpr hreplies.nonempty, hreplies.id, hreplies.response, fun _ => hbuilt hlen⟩
  | some reply =>
      dsimp only
      by_cases hcut : (udp && decide (reply.length > info.udpSize)) = true
      · rw [if_pos hcut]
        obtain ⟨out, hout, hlen, hreplies⟩ := truncated_replies hq hroom
        exact ⟨out, hout, List.length_pos_iff.mpr hreplies.nonempty, hreplies.id, hreplies.response,
          fun _ => hbuilt hlen⟩
      · rw [if_neg hcut]
        have hreplies := resolve_replies hq hreply
        refine ⟨reply, rfl, List.length_pos_iff.mpr hreplies.nonempty, hreplies.id, hreplies.response, ?_⟩
        intro hudp limit hclient
        rw [hudp, Bool.true_and, decide_eq_true_eq, hlimit limit hclient] at hcut
        exact not_lt.mp hcut

theorem abcQuery_limit : ClientLimit (abcQuery 1) 512 := by
  right
  refine ⟨?_, rfl⟩
  rintro ⟨size, hsize⟩
  have hmore := ((advertises_iff (abcQuery_question 1) size).mp hsize).2.2.1
  exact absurd hmore (by decide)

-- An answer of more than 600 bytes, to a client without EDNS.
def longReply : Bytes :=
  [0x12, 0x34, 0x80, 0, 0, 1, 0, 0, 0, 0, 0, 0] ++ (abcQuestion 1).wire ++ List.replicate 600 0

theorem answer_withinLimits_plain :
    ∃ reply, (answer (fun _ _ => some longReply) (fun _ _ _ => none) (dnsResolverInit 1 0) (abcQuery 1) true
        (some [127, 0, 0, 1]) (0, 0) true).sent = some reply ∧
      0 < reply.length ∧ reply.length ≤ 512 := by
  obtain ⟨reply, hsent, hpos, -, -, hlimit⟩ :=
    answer_withinLimits (fun _ _ => some longReply) (fun _ _ _ => none) (dnsResolverInit 1 0) (abcQuery 1) true
      (some [127, 0, 0, 1]) (0, 0) true ⟨ascii ['a', 'b', 'c', '.', 'n', 'e', 't'], 1, 512⟩ (by decide +kernel)
  exact ⟨reply, hsent, hpos, hlimit rfl 512 abcQuery_limit⟩

end DpiProxy.Transparent
