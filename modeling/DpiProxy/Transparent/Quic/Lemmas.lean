import DpiProxy.Transparent.Quic

namespace DpiProxy.Transparent.Quic

open Wire Dns

section Replies

variable {pkt : Bytes} {id : UInt16} {name : Bytes} {qtype : UInt16}

theorem readRecord_length {pos pos' : Nat} {out out' : Dns.DnsAnswer}
    (hout : out.addrs.length ≤ DNS_MAX_ADDRS) (h : readRecord pkt qtype pos out = some (pos', out')) :
    out'.addrs.length ≤ DNS_MAX_ADDRS := by
  unfold readRecord at h
  cases hskip : skipName pkt 128 pos with
  | none => simp only [hskip, reduceCtorEq] at h
  | some start =>
      simp only [hskip] at h
      split_ifs at h with _ _ haddr hfamily
      -- An address of either family is added below the bound only.
      iterate 2
        · obtain ⟨-, rfl⟩ := Prod.mk.inj (Option.some.inj h)
          rw [List.length_append, List.length_singleton]
          exact haddr.2.1
      · obtain ⟨-, rfl⟩ := Prod.mk.inj (Option.some.inj h)
        exact hout

theorem readRecords_length (n pos : Nat) {out : Dns.DnsAnswer}
    (hout : out.addrs.length ≤ DNS_MAX_ADDRS) :
    (readRecords pkt qtype n pos out).2.addrs.length ≤ DNS_MAX_ADDRS := by
  induction n generalizing pos out with
  | zero => exact hout
  | succ n ih =>
      rw [readRecords]
      split
      · exact hout
      · rename_i pos' out' hread
        exact ih pos' (readRecord_length hout hread)

-- An answer is neither truncated nor an error, and not too long.
theorem parse_ok (h : (dnsParseResponse pkt id name qtype).1 = .ok) :
    byte pkt 2 &&& 0x02 = 0 ∧ byte pkt 3 &&& 0x0F = 0 ∧
      (dnsParseResponse pkt id name qtype).2.addrs.length ≤ DNS_MAX_ADDRS := by
  unfold dnsParseResponse at h ⊢
  dsimp only at h ⊢
  by_cases hbad : pkt.length < 12 ∨ be16 pkt 0 ≠ id.toNat ∨ byte pkt 2 &&& 0x80 = 0 ∨
      byte pkt 2 &&& 0x02 ≠ 0 ∨ be16 pkt 4 ≠ 1
  · rw [if_pos hbad] at h
    cases h
  rw [if_neg hbad] at h ⊢
  have htc : byte pkt 2 &&& 0x02 = 0 := by
    by_contra htc
    exact hbad (.inr (.inr (.inr (.inl htc))))
  refine ⟨htc, ?_⟩
  cases hquestion : questionMatches pkt 12 name qtype with
  | none => simp only [hquestion, reduceCtorEq] at h
  | some pos =>
      simp only [hquestion] at h ⊢
      by_cases hnx : byte pkt 3 &&& 0x0F = 3
      · simp only [if_pos hnx, reduceCtorEq] at h
      by_cases hrcode : byte pkt 3 &&& 0x0F = 0
      · refine ⟨hrcode, ?_⟩
        have hlen : (readRecords pkt qtype (be16 pkt 6) pos ⟨[], DNS_TTL_MAX⟩).2.addrs.length ≤
            DNS_MAX_ADDRS := readRecords_length _ _ (Nat.zero_le _)
        split_ifs <;> first | exact hlen | exact Nat.zero_le _
      · simp only [if_neg hnx, if_pos hrcode, ne_eq, reduceCtorEq] at h

end Replies

-- A reply that says no, or that is cut, gives no address.
theorem noteAnswer_eq_nil {reply name : Bytes} {qtype : UInt16}
    (h : byte reply 2 &&& 0x02 = 0 → byte reply 3 &&& 0x0F ≠ 0) : noteAnswer reply name qtype = [] := by
  unfold noteAnswer
  dsimp only
  split_ifs with _ hok
  · rfl
  · obtain ⟨htc, hrcode, -⟩ := parse_ok hok
    exact absurd hrcode (h htc)
  · rfl

theorem noteAnswer_length (reply name : Bytes) (qtype : UInt16) :
    (noteAnswer reply name qtype).length ≤ DNS_MAX_ADDRS := by
  unfold noteAnswer
  dsimp only
  split_ifs with _ hok
  · exact Nat.zero_le _
  · exact (parse_ok hok).2.2
  · exact Nat.zero_le _

theorem or_and_ne_zero (b : UInt8) : (b ||| 0x02) &&& 0x02 ≠ 0 := by
  intro h
  have hbits := congrArg UInt8.toBitVec h
  rw [UInt8.toBitVec_and, UInt8.toBitVec_or, BitVec.and_or_distrib_right] at hbits
  exact absurd (BitVec.or_eq_zero_iff.mp hbits).2 (by decide)

theorem truncated_bytes {query out : Bytes} {size : Nat} (hlen : 2 ≤ query.length)
    (h : dnsTruncatedReply query size = some out) :
    4 ≤ out.length ∧ byte out 2 &&& 0x02 ≠ 0 := by
  unfold dnsTruncatedReply at h
  cases hquestion : questionLen query with
  | none => simp only [hquestion, reduceCtorEq] at h
  | some ql =>
      simp only [hquestion] at h
      split_ifs at h
      obtain rfl := Option.some.inj h
      have hid : (slice query 0 2).length = 2 := length_slice_of_le query 0 2 hlen
      have hflags : byte (slice query 0 2 ++ [(byte query 2 &&& 0x79) ||| 0x80 ||| 0x02, 0x80] ++
          slice query 4 2 ++ [0, 0, 0, 0, 0, 0] ++ slice query 12 ql) 2 =
          (byte query 2 &&& 0x79) ||| 0x80 ||| 0x02 := by
        rw [List.append_assoc, List.append_assoc, List.append_assoc, byte_append, hid]
        rfl
      refine ⟨?_, ?_⟩
      · simp only [List.length_append, hid, List.length_cons, List.length_nil]
        omega
      · rw [hflags]
        exact or_and_ne_zero _

theorem queryInfo_length {pkt : Bytes} {size : Nat} {info : QueryInfo}
    (h : dnsQueryInfo pkt size = some info) : 2 ≤ pkt.length := by
  by_contra hlen
  have hshort : pkt.length < 12 := by omega
  rw [dnsQueryInfo, if_pos (.inl hshort)] at h
  cases h

theorem protectedAddrs_truncated {query out : Bytes} {size : Nat}
    (h : dnsTruncatedReply query size = some out) : protectedAddrs query out = [] := by
  unfold protectedAddrs
  cases hinfo : dnsQueryInfo query DNS_NAME_MAX with
  | none => rfl
  | some info =>
      have hcut := (truncated_bytes (queryInfo_length hinfo) h).2
      dsimp only
      rw [noteAnswer_eq_nil fun htc => absurd htc hcut, List.map_nil]

theorem protectedAddrs_servfail {query out : Bytes} {size : Nat}
    (h : dnsServfailReply query size = some out) : protectedAddrs query out = [] := by
  unfold protectedAddrs
  cases hinfo : dnsQueryInfo query DNS_NAME_MAX with
  | none => rfl
  | some info =>
      obtain ⟨cut, hcut, rfl⟩ := Option.map_eq_some_iff.mp h
      have hlen := (truncated_bytes (queryInfo_length hinfo) hcut).1
      dsimp only
      rw [noteAnswer_eq_nil fun _ => ?_, List.map_nil]
      rw [byte_set, if_pos ⟨rfl, by rw [List.length_set]; omega⟩]
      decide

-- Every address that a client is given was handed to tpd_quic_block_answer.
theorem answer_noted {transport : Transport} {original : Original} {r : Resolver} {query : Bytes}
    {udp : Bool} {orig : Option Bytes} {now : Int × Int} {allocated : Bool} {reply : Bytes}
    (h : (answer transport original r query udp orig now allocated).sent = some reply) :
    ∀ a ∈ protectedAddrs query reply,
      a ∈ ((answer transport original r query udp orig now allocated).noted.take
        DNS_MAX_ADDRS).map addrOf := by
  unfold answer at h ⊢
  cases hinfo : dnsQueryInfo query DNS_NAME_MAX with
  | none => simp only [hinfo, reduceCtorEq] at h
  | some info =>
      simp only [hinfo] at h ⊢
      cases hreply : (resolve transport original r query info.name orig now allocated).reply with
      | none =>
          simp only [hreply] at h
          rw [protectedAddrs_servfail h]
          simp
      | some full =>
          simp only [hreply] at h ⊢
          split_ifs at h
          · rw [protectedAddrs_truncated h]
            simp
          · obtain rfl := Option.some.inj h
            simp only [protectedAddrs, hinfo]
            rw [List.take_of_length_le (noteAnswer_length _ _ _)]
            exact fun a ha => ha

section Table

variable (seen : Seen) (a : Addr) (now : Int)

theorem mem_add {e e' : QuicSeen} (h : e' ∈ (seen.add e).entries) : e' = e ∨ e' ∈ seen.entries := by
  unfold Seen.add at h
  split_ifs at h
  · rcases List.mem_append.mp h with h | h
    · exact .inr h
    · exact .inl (List.mem_singleton.mp h)
  · exact (List.mem_or_eq_of_mem_set h).symm

-- Either a recent entry is found and nothing changes, or there is a new entry of now.
theorem note_cases :
    (note seen a now = (seen, false) ∧
      ∃ e ∈ seen.entries, e.addr = a ∧ now - e.addedAt < TP_QUIC_BLOCK_TIMEOUT_S / 2) ∨
    ((note seen a now).2 = true ∧
      ∀ e ∈ (note seen a now).1.entries, e = ⟨a, now⟩ ∨ e ∈ seen.entries) := by
  unfold note
  cases hfind : seen.entries.findIdx? fun e => e.addr = a with
  | none => exact .inr ⟨rfl, fun e he => mem_add seen he⟩
  | some i =>
      obtain ⟨hi, haddr, -⟩ := List.findIdx?_eq_some_iff_getElem.mp hfind
      dsimp only
      split_ifs with hrecent
      · refine .inl ⟨rfl, seen.entries[i], List.getElem_mem hi, of_decide_eq_true haddr, ?_⟩
        rw [List.getElem?_eq_getElem hi, Option.any_some] at hrecent
        exact of_decide_eq_true hrecent
      · exact .inr ⟨rfl, fun e he => (List.mem_or_eq_of_mem_set he).symm⟩

end Table

end DpiProxy.Transparent.Quic
