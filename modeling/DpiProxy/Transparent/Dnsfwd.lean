import DpiProxy.Dns.Local
import DpiProxy.Dns.Resolver
import DpiProxy.Transparent.Plan

namespace DpiProxy.Transparent

open Wire Dns

-- The addresses that a reply gives for a known-blocked name.
def noteAnswer (reply name : Bytes) (qtype : UInt16) : List Dns.DnsAddr :=
  if (qtype ≠ DNS_QTYPE_A ∧ qtype ≠ DNS_QTYPE_AAAA) ∨ tpHostListed name = false ∨
      reply.length < 2 then []
  else
    let parsed := dnsParseResponse reply (UInt16.ofNat (be16 reply 0)) name qtype
    if parsed.1 = .ok then parsed.2.addrs else []

-- The network between us and the original server: the reply to the n-th query to an
-- address.
abbrev Original := Nat → Bytes → Bytes → Option Bytes

-- sizeof(one.addrs[0]).
def SERVER_ADDR_SIZE : Nat := 128

-- `orig` is the address a query was really sent to.
def askOriginal (original : Original) (n : Nat) (orig query : Bytes) : Option Bytes :=
  if orig.length = 0 ∨ orig.length > SERVER_ADDR_SIZE then none
  else
    match original n orig query with
    | none => none
    | some reply =>
        if reply.length < 12 ∨ byte reply 0 ≠ byte query 0 ∨ byte reply 1 ≠ byte query 1 ∨
            dnsReplyRcode reply = none then none
        else some reply

-- `asked` counts the queries for the original server; it and `calls` are for proofs.
structure Resolution where
  resolver : Resolver
  reply : Option Bytes
  asked : Nat
  calls : List (Nat × Bytes)

-- `now` is what the two readings of the clock give, and `allocated` whether malloc
-- succeeds.
def resolve (transport : Transport) (original : Original) (r : Resolver) (query name : Bytes)
    (orig : Option Bytes) (now : Int × Int) (allocated : Bool) : Resolution :=
  match orig.filter fun _ => dnsNameIsLocal name with
  | some server => ⟨r, askOriginal original 0 server query, 1, []⟩
  | none =>
      let orig := if tpHostListed name then none else orig
      let unhealthy := orig.filter fun _ => !dnsResolverHealthy r now.1
      match unhealthy.bind fun server => askOriginal original 0 server query with
      | some reply => ⟨r, some reply, 1, []⟩
      | none =>
          let asked := if unhealthy.isSome then 1 else 0
          let x := dnsExchange transport r query now.2
          match orig with
          | none => ⟨x.resolver, x.reply, asked, x.calls⟩
          | some server =>
              if x.reply.any (fun reply => dnsReplyRcode reply ≠ some 3) || !allocated then
                ⟨x.resolver, x.reply, asked, x.calls⟩
              else
                let alt := (askOriginal original asked server query).filter fun alt =>
                  x.reply.isNone ||
                    (dnsReplyRcode alt = some 0 && decide (dnsReplyAnswerCount alt > 0))
                ⟨x.resolver, alt.or x.reply, asked + 1, x.calls⟩

def FWD_MSG_MAX : Nat := 65535

-- What a worker sends back, and the addresses it has handed to
-- tpd_quic_block_answer before.
structure Answered where
  resolver : Resolver
  sent : Option Bytes
  noted : List Dns.DnsAddr

def answer (transport : Transport) (original : Original) (r : Resolver) (query : Bytes) (udp : Bool)
    (orig : Option Bytes) (now : Int × Int) (allocated : Bool) : Answered :=
  match dnsQueryInfo query DNS_NAME_MAX with
  | none => ⟨r, none, []⟩
  | some info =>
      let x := resolve transport original r query info.name orig now allocated
      match x.reply with
      | none => ⟨x.resolver, dnsServfailReply query FWD_MSG_MAX, []⟩
      | some reply =>
          ⟨x.resolver,
            if udp && decide (reply.length > info.udpSize) then dnsTruncatedReply query FWD_MSG_MAX
            else some reply,
            noteAnswer reply info.name info.qtype⟩

end DpiProxy.Transparent
