import DpiProxy.Strategy

namespace DpiProxy.Dns

open Wire

def DNS_NAME_MAX : Nat := 254
def DNS_MAX_ADDRS : Nat := 8
def DNS_QTYPE_A : UInt16 := 1
def DNS_QTYPE_AAAA : UInt16 := 28
def DNS_TTL_MIN : UInt32 := 30
def DNS_TTL_MAX : UInt32 := 3600
def DNS_NEGATIVE_TTL : UInt32 := 30

inductive Family where
  | v4
  | v6
deriving DecidableEq, Repr

-- addr has 16 bytes; an IPv4 address is padded with zeros.
structure DnsAddr where
  family : Family
  addr : Bytes
deriving DecidableEq, Repr

-- addrs is addrs[0 .. count) of the source.
structure DnsAnswer where
  addrs : List DnsAddr
  ttl : UInt32
deriving DecidableEq, Repr

inductive DnsStatus where
  | ok
  | nodata
  | nxdomain
  | errTimeout
  | errMalformed
  | errServfail
  | errAllFailed
deriving DecidableEq, Repr

-- The loop of encode_name. `label` is name[label_start .. i).
def encodeLabels (label : Bytes) : Bytes → Option Bytes
  | [] =>
      if label = [] then some []
      else if label.length > 63 then none
      else some (UInt8.ofNat label.length :: label)
  | c :: rest =>
      if c = DOT then
        if label.length = 0 ∨ label.length > 63 then none
        else (encodeLabels [] rest).map fun out => UInt8.ofNat label.length :: label ++ out
      else encodeLabels (label ++ [c]) rest

-- One dot at the end is accepted. A name is a C string, so no byte of it is 0.
def withoutFinalDot (name : Bytes) : Bytes :=
  if name.getLast? = some DOT then name.dropLast else name

def encodeName (name : Bytes) (outSize : Nat) : Option Bytes :=
  let name := withoutFinalDot name
  if name.length = 0 ∨ name.length > 253 ∨ name.length + 2 > outSize then none
  else (encodeLabels [] name).map (· ++ [0])

def dnsBuildQuery (id : UInt16) (name : Bytes) (qtype : UInt16) (outSize : Nat) : Option Bytes :=
  if outSize < 12 + 4 then none
  else (encodeName name (outSize - 12 - 4)).map fun name =>
    [hi8 id.toNat, lo8 id.toNat, 1, 0, 0, 1, 0, 0, 0, 0, 0, 0] ++ name ++
      [hi8 qtype.toNat, lo8 qtype.toNat, 0, 1]

-- The position behind a possibly compressed name. The first argument is what is
-- left of the 128 rounds.
def skipName (pkt : Bytes) : Nat → Nat → Option Nat
  | 0, _ => none
  | guard + 1, pos =>
      if pos < pkt.length then
        if byte pkt pos = 0 then some (pos + 1)
        else if byte pkt pos &&& 0xC0 = 0xC0 then
          if pos + 2 > pkt.length then none else some (pos + 2)
        else if byte pkt pos &&& 0xC0 ≠ 0 then none
        else skipName pkt guard (pos + 1 + (byte pkt pos).toNat)
      else none

def questionMatches (pkt : Bytes) (pos : Nat) (name : Bytes) (qtype : UInt16) : Option Nat :=
  match encodeName name (DNS_NAME_MAX + 2) with
  | none => none
  | some enc =>
      if pos + enc.length + 4 > pkt.length then none
      else if (slice pkt pos enc.length).map tolower ≠ enc.map tolower then none
      else if be16 pkt (pos + enc.length) ≠ qtype.toNat ∨ be16 pkt (pos + enc.length + 2) ≠ 1 then none
      else some (pos + enc.length + 4)

-- One record of the answer section: the position behind it and the answer so far.
def readRecord (pkt : Bytes) (qtype : UInt16) (pos : Nat) (out : DnsAnswer) :
    Option (Nat × DnsAnswer) :=
  match skipName pkt 128 pos with
  | none => none
  | some pos =>
      if pos + 10 > pkt.length then none
      else
        let rdlen := be16 pkt (pos + 8)
        if pos + 10 + rdlen > pkt.length then none
        else if be16 pkt pos = qtype.toNat ∧ out.addrs.length < DNS_MAX_ADDRS ∧
            ((qtype = DNS_QTYPE_A ∧ rdlen = 4) ∨ (qtype = DNS_QTYPE_AAAA ∧ rdlen = 16)) then
          let addr : DnsAddr := {
            family := if qtype = DNS_QTYPE_A then .v4 else .v6
            addr := slice pkt (pos + 10) rdlen ++ List.replicate (16 - rdlen) 0 }
          some (pos + 10 + rdlen, ⟨out.addrs ++ [addr], min (be32 pkt (pos + 4)) out.ttl⟩)
        else some (pos + 10 + rdlen, out)

-- The loop over the answer section; the first argument is ancount.
def readRecords (pkt : Bytes) (qtype : UInt16) : Nat → Nat → DnsAnswer → Bool × DnsAnswer
  | 0, _, out => (true, out)
  | ancount + 1, pos, out =>
      match readRecord pkt qtype pos out with
      | none => (false, out)
      | some (pos, out) => readRecords pkt qtype ancount pos out

def dnsParseResponse (pkt : Bytes) (id : UInt16) (name : Bytes) (qtype : UInt16) :
    DnsStatus × DnsAnswer :=
  let out : DnsAnswer := ⟨[], DNS_TTL_MAX⟩
  if pkt.length < 12 ∨ be16 pkt 0 ≠ id.toNat ∨ byte pkt 2 &&& 0x80 = 0 ∨ byte pkt 2 &&& 0x02 ≠ 0 ∨
      be16 pkt 4 ≠ 1 then (.errMalformed, out)
  else
    match questionMatches pkt 12 name qtype with
    | none => (.errMalformed, out)
    | some pos =>
        if byte pkt 3 &&& 0x0F = 3 then (.nxdomain, out)
        else if byte pkt 3 &&& 0x0F ≠ 0 then (.errServfail, out)
        else
          let read := readRecords pkt qtype (be16 pkt 6) pos out
          if !read.1 then (.errMalformed, read.2)
          else if read.2.addrs.length = 0 then (.nodata, read.2)
          else (.ok, read.2)

-- The loop of dns_query_info over the labels: the end of the name and the name so
-- far. Every round moves on by two bytes at least, so `rounds` is the length.
def queryName (pkt : Bytes) (nameSize : Nat) : Nat → Nat → Bytes → Option (Nat × Bytes)
  | 0, _, _ => none
  | rounds + 1, pos, name =>
      if pos < pkt.length ∧ byte pkt pos ≠ 0 then
        let lab := (byte pkt pos).toNat
        if byte pkt pos &&& 0xC0 ≠ 0 ∨ pos + 1 + lab > pkt.length ∨
            name.length + lab + 2 > nameSize then none
        else
          let name := if name.length > 0 then name ++ [DOT] else name
          queryName pkt nameSize rounds (pos + 1 + lab)
            (name ++ (slice pkt (pos + 1) lab).map tolower)
      else some (pos, name)

structure QueryInfo where
  name : Bytes
  qtype : UInt16
  udpSize : Nat
deriving DecidableEq, Repr

-- The name is what the caller reads out of the buffer.
def dnsQueryInfo (pkt : Bytes) (nameSize : Nat) : Option QueryInfo :=
  if pkt.length < 12 ∨ byte pkt 2 &&& 0x80 ≠ 0 ∨ byte pkt 2 &&& 0x78 ≠ 0 ∨ be16 pkt 4 ≠ 1 ∨
      nameSize < 2 then none
  else
    match queryName pkt nameSize (pkt.length + 1) 12 [] with
    | none => none
    | some (pos, name) =>
        if pos + 5 > pkt.length then none
        else
          let after := pos + 5
          let opt := be16 pkt 6 = 0 ∧ be16 pkt 8 = 0 ∧ be16 pkt 10 ≥ 1 ∧
            after + 11 ≤ pkt.length ∧ byte pkt after = 0 ∧ be16 pkt (after + 1) = 41 ∧
            be16 pkt (after + 3) > 512
          some ⟨cstr name, UInt16.ofNat (be16 pkt (pos + 1)),
            if opt then be16 pkt (after + 3) else 512⟩

-- The end of the labels of a question, or none at a compression pointer.
def labelsEnd (pkt : Bytes) : Nat → Nat → Option Nat
  | 0, _ => none
  | rounds + 1, pos =>
      if pos < pkt.length ∧ byte pkt pos ≠ 0 then
        if byte pkt pos &&& 0xC0 ≠ 0 then none
        else labelsEnd pkt rounds (pos + 1 + (byte pkt pos).toNat)
      else some pos

-- 0 in the source is none.
def questionLen (pkt : Bytes) : Option Nat :=
  match labelsEnd pkt (pkt.length + 1) 12 with
  | none => none
  | some pos => if pos + 5 > pkt.length then none else some (pos + 5 - 12)

def replyMatches (query reply : Bytes) : Bool :=
  match questionLen query with
  | none => false
  | some ql =>
      decide (12 + ql ≤ reply.length) && be16 reply 0 == be16 query 0 &&
        byte reply 2 &&& 0x80 != 0 && be16 reply 4 == 1 &&
        (slice reply 12 ql).map tolower == (slice query 12 ql).map tolower

def dnsTruncatedReply (query : Bytes) (outSize : Nat) : Option Bytes :=
  match questionLen query with
  | none => none
  | some ql =>
      if outSize < 12 + ql then none
      else some (slice query 0 2 ++
        [(byte query 2 &&& 0x79) ||| 0x80 ||| 0x02, 0x80] ++ slice query 4 2 ++
        [0, 0, 0, 0, 0, 0] ++ slice query 12 ql)

def dnsServfailReply (query : Bytes) (outSize : Nat) : Option Bytes :=
  (dnsTruncatedReply query outSize).map fun out =>
    (out.set 2 (byte out 2 &&& ~~~0x02)).set 3 (0x80 ||| 0x02)

-- -1 in the source is none.
def dnsReplyRcode (pkt : Bytes) : Option UInt8 :=
  if pkt.length < 12 ∨ byte pkt 2 &&& 0x80 = 0 then none else some (byte pkt 3 &&& 0x0F)

def dnsReplyAnswerCount (pkt : Bytes) : Nat := if pkt.length < 12 then 0 else be16 pkt 6

def inZone (name zone : Bytes) : Bool :=
  if name.length = zone.length then name == zone
  else decide (name.length > zone.length) &&
    byte name (name.length - zone.length - 1) == DOT &&
    name.drop (name.length - zone.length) == zone

end DpiProxy.Dns
