import DpiProxy.Dns.Checked
import DpiProxy.Dns.QueryInfo

namespace DpiProxy.Dns

open Wire

section Grammar

-- A name ends at the root or in a pointer into the packet.
inductive NameEnd where
  | root
  | pointer (target : Fin 0x4000)

def NameEnd.wire : NameEnd → Bytes
  | .root => [0]
  | .pointer target => u16 (0xC000 + target)

structure Owner where
  labels : List Bytes
  last : NameEnd
  labels_ok : LabelsOk labels
  labels_few : labels.length ≤ 127

def Owner.wire (o : Owner) : Bytes := o.labels.flatMap (fun label => UInt8.ofNat label.length :: label) ++ o.last.wire

-- A resource record in class IN. An address has the length of its type.
structure Record where
  owner : Owner
  rtype : UInt16
  ttl : UInt32
  rdata : Bytes
  rdata_fits : rdata.length < 65536
  address_length : (rtype = DNS_QTYPE_A → rdata.length = 4) ∧ (rtype = DNS_QTYPE_AAAA → rdata.length = 16)

def Record.wire (r : Record) : Bytes :=
  r.owner.wire ++ (u16 r.rtype.toNat ++ (u16 1 ++ (u32 r.ttl ++ vector16 r.rdata)))

-- counts has the numbers of the records in the two other sections, and rest those
-- records.
structure Response where
  id : UInt16
  flags : UInt8
  codes : UInt8
  question : Question
  answers : List Record
  counts : Bytes
  rest : Bytes
  response : flags &&& 0x80 ≠ 0
  whole : flags &&& 0x02 = 0
  answers_fit : answers.length < 65536
  counts_length : counts.length = 4

def Response.header (p : Response) : Bytes :=
  u16 p.id.toNat ++ ([p.flags, p.codes] ++ (u16 1 ++ (u16 p.answers.length ++ p.counts)))

def Response.wire (p : Response) : Bytes := p.header ++ p.question.wire ++ (p.answers.flatMap Record.wire ++ p.rest)

def Record.addr (r : Record) : DnsAddr where
  family := if r.rtype = DNS_QTYPE_A then .v4 else .v6
  addr := r.rdata ++ List.replicate (16 - r.rdata.length) 0

-- The records that an answer is made of.
def usedRecords (qtype : UInt16) (answers : List Record) (room : Nat) : List Record :=
  (answers.filter fun r => decide (r.rtype = qtype)).take room

def Response.used (p : Response) (qtype : UInt16) : List Record := usedRecords qtype p.answers DNS_MAX_ADDRS

def minTtl (ttl : UInt32) (records : List Record) : UInt32 := records.foldl (fun ttl r => min r.ttl ttl) ttl

-- What a response says.
def Response.result (p : Response) (qtype : UInt16) : DnsStatus × DnsAnswer :=
  if p.codes &&& 0x0F = 3 then (.nxdomain, ⟨[], DNS_TTL_MAX⟩)
  else if p.codes &&& 0x0F ≠ 0 then (.errServfail, ⟨[], DNS_TTL_MAX⟩)
  else (if p.used qtype = [] then .nodata else .ok,
    ⟨(p.used qtype).map Record.addr, minTtl DNS_TTL_MAX (p.used qtype)⟩)

end Grammar

section Walk

theorem pointer_bytes (target : Fin 0x4000) :
    hi8 (0xC000 + target) ≠ 0 ∧ hi8 (0xC000 + target) &&& 0xC0 = 0xC0 := by
  have hall : ∀ n : Fin 64, UInt8.ofNat (192 + n) ≠ 0 ∧ UInt8.ofNat (192 + n) &&& 0xC0 = 0xC0 := by decide
  have hsplit : hi8 (0xC000 + target) = UInt8.ofNat (192 + target.val / 256) := by
    rw [hi8]
    congr 1
    omega
  rw [hsplit]
  exact hall ⟨target.val / 256, by omega⟩

theorem skipName_end {pkt back : Bytes} {pos : Nat} (last : NameEnd) (hpkt : pkt.drop pos = last.wire ++ back)
    (rounds : Nat) : skipName pkt (rounds + 1) pos = some (pos + last.wire.length) := by
  cases last with
  | root =>
      rw [skipName, if_pos (lt_length_at hpkt), if_pos (byte_at hpkt)]
      rfl
  | pointer target =>
      obtain ⟨hne, hmask⟩ := pointer_bytes target
      have hbyte : byte pkt pos = hi8 (0xC000 + target) := byte_at hpkt
      rw [NameEnd.wire] at hpkt ⊢
      have hin := le_length_at (by simp) hpkt
      rw [length_u16] at hin ⊢
      rw [skipName, if_pos (by omega), hbyte, if_neg hne, if_pos hmask, if_neg (by omega)]

-- 128 rounds are enough for 127 labels and the end.
theorem skipName_labels {pkt back : Bytes} (last : NameEnd) (labels : List Bytes) (hok : LabelsOk labels) {pos : Nat}
    (hpkt : pkt.drop pos = labels.flatMap (fun label => UInt8.ofNat label.length :: label) ++ (last.wire ++ back))
    (rounds : Nat) (hrounds : labels.length < rounds) :
    skipName pkt rounds pos =
      some (pos + (labels.flatMap (fun label => UInt8.ofNat label.length :: label)).length + last.wire.length) := by
  induction labels generalizing pos rounds with
  | nil =>
      obtain ⟨rounds, rfl⟩ := Nat.exists_eq_add_of_lt hrounds
      exact skipName_end last hpkt _
  | cons label labels ih =>
      obtain ⟨rounds, rfl⟩ := Nat.exists_eq_add_of_lt hrounds
      obtain ⟨hpos, hle⟩ := hok label List.mem_cons_self
      obtain ⟨hnat, hmask, -⟩ := labelLength hle
      simp only [List.flatMap_cons, List.cons_append, List.append_assoc] at hpkt
      have hbyte := byte_at hpkt
      have hlabel := drop_at (show pkt.drop pos = [UInt8.ofNat label.length] ++ _ from hpkt)
      have hin := lt_length_at hpkt
      have hne := labelLength_ne_zero hpos hle
      have hplain : UInt8.ofNat label.length &&& 0xC0 ≠ 0xC0 := by
        rw [hmask]
        decide
      have hrest := ih (fun l hl => hok l (List.mem_cons_of_mem _ hl)) (drop_at hlabel) (labels.length + 1 + rounds)
        (by omega)
      rw [List.length_singleton] at hrest
      rw [skipName, if_pos hin, hbyte, if_neg hne, if_neg hplain, if_neg (not_not_intro hmask), hnat, List.length_cons,
        hrest]
      simp only [List.flatMap_cons, List.length_append, List.length_cons]
      congr 1
      omega

theorem skipName_owner {pkt back : Bytes} {pos : Nat} (o : Owner) (hpkt : pkt.drop pos = o.wire ++ back) :
    skipName pkt 128 pos = some (pos + o.wire.length) := by
  rw [Owner.wire, List.append_assoc] at hpkt
  rw [skipName_labels o.last o.labels o.labels_ok hpkt 128 (Nat.lt_succ_of_le o.labels_few), Owner.wire,
    List.length_append, Nat.add_assoc]

end Walk

section Records

-- One record of the answer section.
def addRecord (qtype : UInt16) (out : DnsAnswer) (r : Record) : DnsAnswer :=
  if r.rtype = qtype ∧ out.addrs.length < DNS_MAX_ADDRS then ⟨out.addrs ++ [r.addr], min r.ttl out.ttl⟩ else out

variable {pkt back : Bytes} {pos : Nat} {qtype : UInt16}

theorem readRecord_wire (hqtype : qtype = DNS_QTYPE_A ∨ qtype = DNS_QTYPE_AAAA) (r : Record)
    (hpkt : pkt.drop pos = r.wire ++ back) (out : DnsAnswer) :
    readRecord pkt qtype pos out = some (pos + r.wire.length, addRecord qtype out r) := by
  rw [Record.wire] at hpkt
  simp only [List.append_assoc] at hpkt
  have hname := skipName_owner r.owner hpkt
  have htype := drop_at hpkt
  have hclass := drop_at htype
  rw [length_u16] at hclass
  have httl := drop_at hclass
  rw [length_u16] at httl
  have hdata := drop_at httl
  rw [length_u32] at hdata
  obtain ⟨hrdlen, hbytes, -⟩ := vector16_at r.rdata_fits hdata
  have hlen : pos + r.wire.length = pos + r.owner.wire.length + 10 + r.rdata.length := by
    simp only [Record.wire, List.length_append, length_u16, length_u32, length_vector16]
    omega
  have hin : pos + r.owner.wire.length + 10 + r.rdata.length ≤ pkt.length := by
    have hend := le_length_at (by simp) hdata
    rw [length_vector16] at hend
    omega
  rw [Nat.add_assoc (pos + r.owner.wire.length) 2 2] at httl
  rw [Nat.add_assoc (pos + r.owner.wire.length), Nat.add_assoc (pos + r.owner.wire.length)] at hrdlen hbytes
  rw [Nat.add_assoc (pos + r.owner.wire.length)] at hbytes
  have haddr := slice_at hbytes
  rw [readRecord, hname, hlen]
  dsimp only
  rw [if_neg (by omega), hrdlen, if_neg (by omega), be16_at r.rtype.toNat_lt htype, be32_at httl, haddr]
  by_cases hused : r.rtype = qtype ∧ out.addrs.length < DNS_MAX_ADDRS
  · obtain ⟨heq, hroom⟩ := hused
    have haddress : (qtype = DNS_QTYPE_A ∧ r.rdata.length = 4) ∨ (qtype = DNS_QTYPE_AAAA ∧ r.rdata.length = 16) := by
      rcases hqtype with h | h
      · exact .inl ⟨h, r.address_length.1 (heq.trans h)⟩
      · exact .inr ⟨h, r.address_length.2 (heq.trans h)⟩
    have hadd : addRecord qtype out r = ⟨out.addrs ++ [r.addr], min r.ttl out.ttl⟩ := if_pos ⟨heq, hroom⟩
    rw [if_pos (And.intro (congrArg UInt16.toNat heq) (And.intro hroom haddress)), hadd, Record.addr, heq]
  · rw [addRecord, if_neg hused, if_neg fun h => hused ⟨UInt16.toNat.inj h.1, h.2.1⟩]

theorem readRecords_wire (hqtype : qtype = DNS_QTYPE_A ∨ qtype = DNS_QTYPE_AAAA) (records : List Record)
    (hpkt : pkt.drop pos = records.flatMap Record.wire ++ back) (out : DnsAnswer) :
    readRecords pkt qtype records.length pos out = (true, records.foldl (addRecord qtype) out) := by
  induction records generalizing pos out with
  | nil => rfl
  | cons r records ih =>
      rw [List.flatMap_cons, List.append_assoc] at hpkt
      rw [List.length_cons, readRecords, readRecord_wire hqtype r hpkt, List.foldl_cons]
      exact ih (drop_at hpkt) _

theorem foldl_addRecord (qtype : UInt16) (records : List Record) (out : DnsAnswer) :
    records.foldl (addRecord qtype) out =
      ⟨out.addrs ++ (usedRecords qtype records (DNS_MAX_ADDRS - out.addrs.length)).map Record.addr,
        minTtl out.ttl (usedRecords qtype records (DNS_MAX_ADDRS - out.addrs.length))⟩ := by
  induction records generalizing out with
  | nil => simp [usedRecords, minTtl]
  | cons r records ih =>
      rw [List.foldl_cons, ih]
      by_cases heq : r.rtype = qtype
      · by_cases hroom : out.addrs.length < DNS_MAX_ADDRS
        · obtain ⟨room, hmore⟩ := Nat.exists_eq_add_of_lt hroom
          have hbefore : DNS_MAX_ADDRS - out.addrs.length = room + 1 := by omega
          have hafter : DNS_MAX_ADDRS - (out.addrs.length + 1) = room := by omega
          simp [addRecord, heq, hroom, usedRecords, hbefore, hafter, minTtl]
        · have hfull : DNS_MAX_ADDRS - out.addrs.length = 0 := by omega
          simp [addRecord, heq, hroom, usedRecords, hfull]
      · simp [addRecord, heq, usedRecords]

end Records

section Parse

theorem Response.header_length (p : Response) : p.header.length = 12 := by
  simp [Response.header, p.counts_length]

theorem Response.fields (p : Response) :
    be16 p.wire 0 = p.id.toNat ∧ byte p.wire 2 = p.flags ∧ byte p.wire 3 = p.codes ∧ be16 p.wire 4 = 1 ∧
      be16 p.wire 6 = p.answers.length := by
  have hid : p.wire.drop 0 = u16 p.id.toNat ++ ([p.flags] ++ ([p.codes] ++ (u16 1 ++ (u16 p.answers.length ++
      (p.counts ++ (p.question.wire ++ (p.answers.flatMap Record.wire ++ p.rest))))))) := by
    simp [Response.wire, Response.header]
  have hflags := drop_at hid
  have hcodes := drop_at hflags
  have hqdcount := drop_at hcodes
  have hancount := drop_at hqdcount
  exact ⟨be16_at p.id.toNat_lt hid, byte_at hflags, byte_at hcodes, be16_at (by omega) hqdcount,
    be16_at p.answers_fit hancount⟩

theorem Response.hasQuestion (p : Response) : HasQuestion p.wire p.question :=
  ⟨p.header, _, p.header_length, rfl⟩

theorem Response.drop_question (p : Response) :
    p.wire.drop (12 + p.question.wire.length) = p.answers.flatMap Record.wire ++ p.rest := by
  rw [← p.header_length, ← List.length_append]
  exact List.drop_left

theorem dnsParseResponse_wire {name : Bytes} (hname : ValidName name) {qtype : UInt16}
    (hqtype : qtype = DNS_QTYPE_A ∨ qtype = DNS_QTYPE_AAAA) (p : Response)
    (hsame : SameName p.question.labels (nameLabels name)) (htype : p.question.qtype = qtype)
    (hclass : p.question.qclass = 1) : dnsParseResponse p.wire p.id name qtype = p.result qtype := by
  obtain ⟨hid, hflags, hcodes, hqdcount, hancount⟩ := p.fields
  have hresponse : byte p.wire 2 &&& 0x80 ≠ 0 := by
    rw [hflags]
    exact p.response
  have hwhole : byte p.wire 2 &&& 0x02 = 0 := by
    rw [hflags]
    exact p.whole
  have hin := (slice_question p.hasQuestion).2
  have hheader : ¬(p.wire.length < 12 ∨ be16 p.wire 0 ≠ p.id.toNat ∨ byte p.wire 2 &&& 0x80 = 0 ∨
      byte p.wire 2 &&& 0x02 ≠ 0 ∨ be16 p.wire 4 ≠ 1) := by
    simp only [not_or, not_not]
    exact ⟨by omega, hid, hresponse, hwhole, hqdcount⟩
  have hechoes : Echoes p.id (queryQuestion hname qtype) p.wire :=
    ⟨hid, hresponse, hqdcount, p.question, p.hasQuestion, hsame, htype, hclass⟩
  have hfolded : p.question.wire.map tolower = (queryQuestion hname qtype).wire.map tolower :=
    Question.wire_folded hsame htype hclass
  have hlen : (queryQuestion hname qtype).wire.length = p.question.wire.length := by
    simpa using (congrArg List.length hfolded).symm
  have hmatches := questionMatches_echoes hname hechoes
  rw [hlen] at hmatches
  have hused : usedRecords qtype p.answers (DNS_MAX_ADDRS - 0) = p.used qtype := rfl
  rw [dnsParseResponse, if_neg hheader, hmatches, hcodes, hancount, Response.result]
  dsimp only
  rw [readRecords_wire hqtype p.answers p.drop_question, foldl_addRecord]
  simp only [List.length_nil, hused, List.nil_append]
  by_cases hempty : p.used qtype = [] <;> simp [hempty]

-- A response to the question of the query that dns_build_query makes, in any case of
-- letters.
structure IsAnswer (pkt : Bytes) (id : UInt16) (name : Bytes) (qtype : UInt16) : Prop where
  length : 12 ≤ pkt.length
  same_id : be16 pkt 0 = id.toNat
  response : byte pkt 2 &&& 0x80 ≠ 0
  whole : byte pkt 2 &&& 0x02 = 0
  one_question : be16 pkt 4 = 1
  question : ∃ enc, dnsBuildQuery id name qtype 512 = some (queryHeader id ++ enc ++ (u16 qtype.toNat ++ u16 1)) ∧
    (slice pkt 12 enc.length).map tolower = enc.map tolower ∧
    slice pkt (12 + enc.length) 4 = u16 qtype.toNat ++ u16 1

theorem encodeName_larger {name enc : Bytes} {outSize : Nat} (h : encodeName name outSize = some enc) {larger : Nat}
    (hle : outSize ≤ larger) : encodeName name larger = some enc := by
  rw [encodeName] at h ⊢
  split at h
  · simp at h
  · rename_i hfits
    rw [if_neg (by omega)]
    exact h

theorem questionMatches_asked {pkt name : Bytes} {id qtype : UInt16} {pos : Nat}
    (h : questionMatches pkt 12 name qtype = some pos) :
    ∃ enc, dnsBuildQuery id name qtype 512 = some (queryHeader id ++ enc ++ (u16 qtype.toNat ++ u16 1)) ∧
      (slice pkt 12 enc.length).map tolower = enc.map tolower ∧
      slice pkt (12 + enc.length) 4 = u16 qtype.toNat ++ u16 1 := by
  rw [questionMatches] at h
  cases hname : encodeName name (DNS_NAME_MAX + 2) with
  | none => simp [hname] at h
  | some enc =>
      simp only [hname] at h
      split_ifs at h with hin hsame htypes
      obtain ⟨htype, hclass⟩ : be16 pkt (12 + enc.length) = qtype.toNat ∧ be16 pkt (12 + enc.length + 2) = 1 := by
        simpa only [not_or, not_not] using htypes
      refine ⟨enc, ?_, not_not.mp hsame, ?_⟩
      · rw [dnsBuildQuery, if_neg (by omega), encodeName_larger hname (by decide)]
        rfl
      · rw [← slice_append_slice pkt _ 2 2, slice_u16 (by omega), slice_u16 (by omega), htype, hclass]

theorem dnsParseResponse_isAnswer {pkt name : Bytes} {id qtype : UInt16}
    (h : (dnsParseResponse pkt id name qtype).1 ≠ .errMalformed) : IsAnswer pkt id name qtype := by
  rw [dnsParseResponse] at h
  dsimp only at h
  split at h
  · exact absurd rfl h
  rename_i hheader
  simp only [not_or, not_not, not_lt] at hheader
  obtain ⟨hlen, hid, hresponse, hwhole, hqdcount⟩ := hheader
  cases hquestion : questionMatches pkt 12 name qtype with
  | none => simp [hquestion] at h
  | some pos => exact ⟨hlen, hid, hresponse, hwhole, hqdcount, questionMatches_asked hquestion⟩

theorem dnsParseResponse_correct :
    (∀ name, ValidName name → ∀ qtype, qtype = DNS_QTYPE_A ∨ qtype = DNS_QTYPE_AAAA → ∀ p : Response,
      SameName p.question.labels (nameLabels name) → p.question.qtype = qtype → p.question.qclass = 1 →
      dnsParseResponse p.wire p.id name qtype = p.result qtype) ∧
    ∀ pkt id name qtype,
      ((dnsParseResponse pkt id name qtype).1 ≠ .errMalformed → IsAnswer pkt id name qtype) ∧
      Checked.dnsParseResponse pkt id name qtype = some (dnsParseResponse pkt id name qtype) :=
  ⟨fun _ hname _ hqtype p hsame htype hclass => dnsParseResponse_wire hname hqtype p hsame htype hclass,
    fun pkt id name qtype => ⟨dnsParseResponse_isAnswer, Checked.parseResponse_eq pkt id name qtype⟩⟩

-- The address of a.b behind a CNAME record.
def aliasQuestion : Question := ⟨[ascii ['A'], ascii ['b']], 1, 1, by simp [ascii]⟩

def aliasOwner : Owner := ⟨[], .pointer 12, by simp [LabelsOk], by simp⟩

def plainOwner : Owner := ⟨[ascii ['c']], .root, by simp [LabelsOk, ascii], by simp⟩

def aliasResponse : Response where
  id := 7
  flags := 0x81
  codes := 0x80
  question := aliasQuestion
  answers := [⟨aliasOwner, 5, 300, [1, 99, 0], by simp, by simp [DNS_QTYPE_A, DNS_QTYPE_AAAA]⟩,
    ⟨plainOwner, 1, 60, [192, 0, 2, 1], by simp, by simp [DNS_QTYPE_AAAA]⟩]
  counts := [0, 0, 0, 0]
  rest := []
  response := by decide
  whole := by decide
  answers_fit := by simp
  counts_length := by simp

theorem aliasName_valid : ValidName (ascii ['a', '.', 'b']) := by
  have hsplit : (withoutFinalDot (ascii ['a', '.', 'b'])).splitOn DOT = [ascii ['a'], ascii ['b']] := by decide +kernel
  refine ⟨by decide, by decide, ?_⟩
  rw [hsplit]
  simp [LabelsOk, ascii]

theorem dnsParseResponse_correct_alias :
    dnsParseResponse aliasResponse.wire 7 (ascii ['a', '.', 'b']) 1 =
      (.ok, ⟨[⟨.v4, [192, 0, 2, 1, 0, 0, 0, 0, 0, 0, 0, 0, 0, 0, 0, 0]⟩], 60⟩) := by
  have hsame : SameName aliasResponse.question.labels (nameLabels (ascii ['a', '.', 'b'])) := by
    rw [SameName]
    decide +kernel
  have hresult : aliasResponse.result 1 =
      (.ok, ⟨[⟨.v4, [192, 0, 2, 1, 0, 0, 0, 0, 0, 0, 0, 0, 0, 0, 0, 0]⟩], 60⟩) := by
    decide +kernel
  rw [← hresult]
  exact dnsParseResponse_correct.1 _ aliasName_valid 1 (.inl rfl) aliasResponse hsame rfl rfl

end Parse

end DpiProxy.Dns
