import DpiProxy.Dns.Message
import DpiProxy.Wire.Checked

namespace DpiProxy.Dns

open Wire

-- dns_parse_response with every read of the packet checked: none is a read outside of it.
namespace Checked

def skipName (pkt : Bytes) : Nat → Nat → Option (Option Nat)
  | 0, _ => some none
  | guard + 1, pos =>
      if pos < pkt.length then do
        let lab ← readByte pkt pos
        if lab = 0 then some (some (pos + 1))
        else if lab &&& 0xC0 = 0xC0 then
          if pos + 2 > pkt.length then some none else some (some (pos + 2))
        else if lab &&& 0xC0 ≠ 0 then some none
        else skipName pkt guard (pos + 1 + lab.toNat)
      else some none

-- The comparison stops at the first difference.
def sameFolded (pkt : Bytes) (pos : Nat) : Bytes → Option Bool
  | [] => some true
  | c :: enc => do
      let b ← readByte pkt pos
      if tolower b ≠ tolower c then some false else sameFolded pkt (pos + 1) enc

def questionMatches (pkt : Bytes) (pos : Nat) (name : Bytes) (qtype : UInt16) : Option (Option Nat) :=
  match encodeName name (DNS_NAME_MAX + 2) with
  | none => some none
  | some enc =>
      if pos + enc.length + 4 > pkt.length then some none
      else do
        let same ← sameFolded pkt pos enc
        if !same then some none
        else do
          let rtype ← readBe16 pkt (pos + enc.length)
          if rtype ≠ qtype.toNat then some none
          else do
            let rclass ← readBe16 pkt (pos + enc.length + 2)
            if rclass ≠ 1 then some none else some (some (pos + enc.length + 4))

def readRecord (pkt : Bytes) (qtype : UInt16) (pos : Nat) (out : DnsAnswer) : Option (Option (Nat × DnsAnswer)) := do
  match ← skipName pkt 128 pos with
  | none => some none
  | some pos =>
      if pos + 10 > pkt.length then some none
      else do
        let rtype ← readBe16 pkt pos
        let ttl ← readBe32 pkt (pos + 4)
        let rdlen ← readBe16 pkt (pos + 8)
        if pos + 10 + rdlen > pkt.length then some none
        else if rtype = qtype.toNat ∧ out.addrs.length < DNS_MAX_ADDRS ∧
            ((qtype = DNS_QTYPE_A ∧ rdlen = 4) ∨ (qtype = DNS_QTYPE_AAAA ∧ rdlen = 16)) then do
          let rdata ← readSlice pkt (pos + 10) rdlen
          let addr : DnsAddr := {
            family := if qtype = DNS_QTYPE_A then .v4 else .v6
            addr := rdata ++ List.replicate (16 - rdlen) 0 }
          some (some (pos + 10 + rdlen, ⟨out.addrs ++ [addr], min ttl out.ttl⟩))
        else some (some (pos + 10 + rdlen, out))

def readRecords (pkt : Bytes) (qtype : UInt16) : Nat → Nat → DnsAnswer → Option (Bool × DnsAnswer)
  | 0, _, out => some (true, out)
  | ancount + 1, pos, out => do
      match ← readRecord pkt qtype pos out with
      | none => some (false, out)
      | some (pos, out) => readRecords pkt qtype ancount pos out

def dnsParseResponse (pkt : Bytes) (id : UInt16) (name : Bytes) (qtype : UInt16) : Option (DnsStatus × DnsAnswer) :=
  let out : DnsAnswer := ⟨[], DNS_TTL_MAX⟩
  if pkt.length < 12 then some (.errMalformed, out)
  else do
    let rid ← readBe16 pkt 0
    let flags ← readByte pkt 2
    let qdcount ← readBe16 pkt 4
    if rid ≠ id.toNat ∨ flags &&& 0x80 = 0 ∨ flags &&& 0x02 ≠ 0 ∨ qdcount ≠ 1 then some (.errMalformed, out)
    else do
      match ← questionMatches pkt 12 name qtype with
      | none => some (.errMalformed, out)
      | some pos => do
          let rcode ← readByte pkt 3
          if rcode &&& 0x0F = 3 then some (.nxdomain, out)
          else if rcode &&& 0x0F ≠ 0 then some (.errServfail, out)
          else do
            let ancount ← readBe16 pkt 6
            let read ← readRecords pkt qtype ancount pos out
            if !read.1 then some (.errMalformed, read.2)
            else if read.2.addrs.length = 0 then some (.nodata, read.2)
            else some (.ok, read.2)

theorem skipName_eq (pkt : Bytes) (rounds pos : Nat) :
    skipName pkt rounds pos = some (Dns.skipName pkt rounds pos) := by
  induction rounds generalizing pos with
  | zero => rfl
  | succ rounds ih =>
      rw [skipName, Dns.skipName]
      by_cases hin : pos < pkt.length
      · simp only [if_pos hin, readByte_eq hin, Option.bind_eq_bind, Option.bind_some, ih]
        split_ifs <;> rfl
      · simp only [if_neg hin]

theorem sameFolded_eq {pkt : Bytes} {pos : Nat} (enc : Bytes) (hin : pos + enc.length ≤ pkt.length) :
    sameFolded pkt pos enc = some (decide ((slice pkt pos enc.length).map tolower = enc.map tolower)) := by
  induction enc generalizing pos with
  | nil => simp [sameFolded, slice]
  | cons c enc ih =>
      rw [List.length_cons] at hin ⊢
      have hlt : pos < pkt.length := by omega
      have hslice : slice pkt pos (enc.length + 1) = byte pkt pos :: slice pkt (pos + 1) enc.length := by
        rw [slice, List.drop_eq_getElem_cons hlt, List.take_succ_cons, byte_eq_getElem pkt pos hlt]
        rfl
      rw [sameFolded, readByte_eq hlt, hslice, Option.bind_eq_bind, Option.bind_some, ih (by omega)]
      by_cases hsame : tolower (byte pkt pos) = tolower c <;> simp [hsame]

theorem questionMatches_eq (pkt : Bytes) (pos : Nat) (name : Bytes) (qtype : UInt16) :
    questionMatches pkt pos name qtype = some (Dns.questionMatches pkt pos name qtype) := by
  rw [questionMatches, Dns.questionMatches]
  cases hname : encodeName name (DNS_NAME_MAX + 2) with
  | none => rfl
  | some enc =>
      dsimp only
      by_cases hin : pos + enc.length + 4 > pkt.length
      · simp [hin]
      · simp only [if_neg hin, sameFolded_eq enc (show pos + enc.length ≤ pkt.length by omega),
          readBe16_eq (show pos + enc.length + 2 ≤ pkt.length by omega),
          readBe16_eq (show pos + enc.length + 2 + 2 ≤ pkt.length by omega), Option.bind_eq_bind, Option.bind_some]
        by_cases hsame : (slice pkt pos enc.length).map tolower = enc.map tolower
        · by_cases htype : be16 pkt (pos + enc.length) = qtype.toNat
          · by_cases hclass : be16 pkt (pos + enc.length + 2) = 1 <;> simp [hsame, htype, hclass]
          · simp [hsame, htype]
        · simp [hsame]

theorem readRecord_eq (pkt : Bytes) (qtype : UInt16) (pos : Nat) (out : DnsAnswer) :
    readRecord pkt qtype pos out = some (Dns.readRecord pkt qtype pos out) := by
  rw [readRecord, Dns.readRecord, skipName_eq, Option.bind_eq_bind, Option.bind_some]
  cases Dns.skipName pkt 128 pos with
  | none => rfl
  | some pos =>
      dsimp only
      by_cases hhead : pos + 10 > pkt.length
      · simp [hhead]
      · simp only [if_neg hhead, readBe16_eq (show pos + 2 ≤ pkt.length by omega),
          readBe32_eq (show pos + 4 + 4 ≤ pkt.length by omega), readBe16_eq (show pos + 8 + 2 ≤ pkt.length by omega),
          Option.bind_eq_bind, Option.bind_some]
        by_cases hdata : pos + 10 + be16 pkt (pos + 8) > pkt.length
        · simp [hdata]
        · simp only [if_neg hdata, readSlice_eq (not_lt.mp hdata), Option.bind_some]
          split_ifs <;> rfl

theorem readRecords_eq (pkt : Bytes) (qtype : UInt16) (ancount pos : Nat) (out : DnsAnswer) :
    readRecords pkt qtype ancount pos out = some (Dns.readRecords pkt qtype ancount pos out) := by
  induction ancount generalizing pos out with
  | zero => rfl
  | succ ancount ih =>
      rw [readRecords, Dns.readRecords, readRecord_eq, Option.bind_eq_bind, Option.bind_some]
      cases Dns.readRecord pkt qtype pos out with
      | none => rfl
      | some next => exact ih _ _

-- No read goes outside of the packet.
theorem parseResponse_eq (pkt : Bytes) (id : UInt16) (name : Bytes) (qtype : UInt16) :
    dnsParseResponse pkt id name qtype = some (Dns.dnsParseResponse pkt id name qtype) := by
  rw [dnsParseResponse, Dns.dnsParseResponse]
  by_cases hlen : pkt.length < 12
  · simp [hlen]
  simp only [if_neg hlen, readBe16_eq (show 0 + 2 ≤ pkt.length by omega),
    readByte_eq (show 2 < pkt.length by omega), readBe16_eq (show 4 + 2 ≤ pkt.length by omega),
    readByte_eq (show 3 < pkt.length by omega), readBe16_eq (show 6 + 2 ≤ pkt.length by omega), questionMatches_eq,
    readRecords_eq, Option.bind_eq_bind, Option.bind_some]
  by_cases hhead : be16 pkt 0 ≠ id.toNat ∨ byte pkt 2 &&& 0x80 = 0 ∨ byte pkt 2 &&& 0x02 ≠ 0 ∨ be16 pkt 4 ≠ 1
  · rw [if_pos hhead, if_pos (.inr hhead)]
  · rw [if_neg hhead, if_neg (not_or.mpr ⟨hlen, hhead⟩)]
    cases Dns.questionMatches pkt 12 name qtype with
    | none => rfl
    | some pos =>
        dsimp only
        split_ifs <;> rfl

end Checked

end DpiProxy.Dns
