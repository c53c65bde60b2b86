import DpiProxy.Chained
import DpiProxy.Table
import DpiProxy.Transparent.Daemon

namespace DpiProxy.Transparent.Windows

open Wire

def OWN_PORT_LO : Nat := 45000
def OWN_PORT_HI : Nat := 45999
def FLOW_BUCKETS : Nat := 4096
def FLOW_TCP_IDLE_MS : Int := 2 * 3600 * 1000
def FLOW_TCP_CLOSING_MS : Int := 30 * 1000
def FLOW_UDP_IDLE_MS : Int := 60 * 1000
def QUIC_MAX : Nat := 1024

inductive Proto where
  | tcp
  | udp
deriving DecidableEq, Repr

def Proto.number : Proto → UInt32
  | .tcp => 6
  | .udp => 17

-- Ports stand in packets in network order; these machines are little endian.
def ntohs (port : UInt16) : UInt16 := UInt16.ofNat (port.toNat % 256 * 256 + port.toNat / 256)

def htons (port : UInt16) : UInt16 := ntohs port

-- What identifies a t_flow: the application's address and port (net order), where
-- it was going and the original destination port (host order). An address is its
-- alen(family) bytes.
structure FlowId where
  proto : Proto
  family : AddrFamily
  localAddr : Bytes
  lport : UInt16
  remote : Bytes
  oport : UInt16
deriving DecidableEq, Repr

structure Flow extends FlowId where
  closing : Bool
  last : Int
deriving DecidableEq, Repr

def bucket (proto : Proto) (family : AddrFamily) (remote : Bytes) (lport oport : UInt16) : Nat :=
  let h : UInt32 := (2166136261 : UInt32) ^^^ proto.number ^^^ (oport.toUInt32 <<< 8)
  let h := (remote.take (addrSize family)).foldl (fun h b => (h ^^^ b.toUInt32) * 16777619) h
  let h := (h ^^^ lport.toUInt32) * 16777619
  h.toNat % FLOW_BUCKETS

def FlowId.bucket (k : FlowId) : Nat := Windows.bucket k.proto k.family k.remote k.lport k.oport

-- g_flows: the chain of each bucket.
abbrev Flows := Nat → List Flow

-- No local address matches every one.
def find (flows : Flows) (proto : Proto) (family : AddrFamily) (localAddr : Option Bytes)
    (lport : UInt16) (remote : Bytes) (oport : UInt16) : Option Flow :=
  (flows (bucket proto family remote lport oport)).find? fun f =>
    f.proto = proto && f.family = family && f.lport = lport && f.oport = oport &&
      f.remote = remote && (localAddr.isNone || localAddr = some f.localAddr)

def FlowId.find (flows : Flows) (k : FlowId) : Option Flow :=
  Windows.find flows k.proto k.family (some k.localAddr) k.lport k.remote k.oport

-- `allocated` is whether calloc succeeds.
def addFlow (flows : Flows) (k : FlowId) (now : Int) (allocated : Bool) : Flows :=
  match k.find flows with
  | some _ =>
      Chained.write Flow.toFlowId FlowId.bucket flows k fun f =>
        { f with closing := false, last := now }
  | none =>
      if allocated then
        Chained.push Flow.toFlowId FlowId.bucket flows
          { toFlowId := k, closing := false, last := now }
      else flows

def Flow.limit (f : Flow) : Int :=
  if f.proto = .udp then FLOW_UDP_IDLE_MS
  else if f.closing then FLOW_TCP_CLOSING_MS
  else FLOW_TCP_IDLE_MS

def sweepFlows (flows : Flows) (now : Int) : Flows :=
  Chained.sweep flows fun f => !decide (now - f.last > f.limit)

def privateV4 (a : Bytes) : Bool :=
  byte a 0 == 0 || byte a 0 == 10 || byte a 0 == 127 || decide (byte a 0 ≥ 224)
    || (byte a 0 == 100 && byte a 1 &&& 0xC0 == 64)
    || (byte a 0 == 169 && byte a 1 == 254)
    || (byte a 0 == 172 && byte a 1 &&& 0xF0 == 16)
    || (byte a 0 == 192 && byte a 1 == 168)

def privateV6 (a : Bytes) : Bool :=
  byte a 0 &&& 0xFE == 0xFC || (byte a 0 == 0xFE && byte a 1 &&& 0xC0 == 0x80)
    || byte a 0 == 0xFF || a == List.replicate 15 0 ++ [1]

structure Quic where
  family : AddrFamily
  addr : Bytes
  expires : Int
deriving DecidableEq, Repr

-- What tpp_install was called with. The ports come from tp_options_default; a DNS
-- port of 0 leaves DNS alone.
structure Listeners where
  port : Nat
  dnsPort : Nat
  ipv6 : Bool
  port_pos : 0 < port
  port_lt : port < 65536
  dnsPort_lt : dnsPort < 65536

structure Divert where
  listeners : Listeners
  flows : Flows
  quic : List Quic

def tppInstall (listeners : Listeners) (quic : List Quic) : Divert where
  listeners := listeners
  flows := fun _ => []
  quic := quic

def quicBlocked (quic : List Quic) (family : AddrFamily) (addr : Bytes) (now : Int) : Bool :=
  quic.any fun q => q.family = family && decide (q.expires > now) && q.addr = addr

-- `rest` is every other field of the header.
structure TcpHdr where
  srcPort : UInt16
  dstPort : UInt16
  syn : Bool
  ack : Bool
  fin : Bool
  rst : Bool
  rest : Bytes
deriving DecidableEq, Repr

structure UdpHdr where
  srcPort : UInt16
  dstPort : UInt16
  rest : Bytes
deriving DecidableEq, Repr

inductive Header where
  | tcp (header : TcpHdr)
  | udp (header : UdpHdr)
deriving DecidableEq, Repr

-- A packet as parse leaves it: an IPv4 or IPv6 packet with a TCP or a UDP header.
structure Pkt where
  family : AddrFamily
  src : Bytes
  dst : Bytes
  ipRest : Bytes
  header : Header
  payload : Bytes
deriving DecidableEq, Repr

def Header.proto : Header → Proto
  | .tcp _ => .tcp
  | .udp _ => .udp

def Header.srcPort : Header → UInt16
  | .tcp h => h.srcPort
  | .udp h => h.srcPort

def Header.dstPort : Header → UInt16
  | .tcp h => h.dstPort
  | .udp h => h.dstPort

def Header.withSrcPort (port : UInt16) : Header → Header
  | .tcp h => .tcp { h with srcPort := port }
  | .udp h => .udp { h with srcPort := port }

def Header.withDstPort (port : UInt16) : Header → Header
  | .tcp h => .tcp { h with dstPort := port }
  | .udp h => .udp { h with dstPort := port }

def Header.bareSyn : Header → Bool
  | .tcp h => h.syn && !h.ack
  | .udp _ => false

def Header.closes : Header → Bool
  | .tcp h => h.fin || h.rst
  | .udp _ => false

def swapAddrs (p : Pkt) : Pkt := { p with src := p.dst, dst := p.src }

def ownPort (port : UInt16) : Bool :=
  decide (OWN_PORT_LO ≤ (ntohs port).toNat) && decide ((ntohs port).toNat ≤ OWN_PORT_HI)

-- The service whose listener sends from a port.
def listenerService (l : Listeners) (proto : Proto) (sport : UInt16) : Option UInt16 :=
  if (ntohs sport).toNat = l.port ∧ proto = .tcp then some 443
  else if l.dnsPort > 0 ∧ (ntohs sport).toNat = l.dnsPort then some 53
  else none

def listenerPort (l : Listeners) (svc : UInt16) : UInt16 :=
  UInt16.ofNat (if svc = 443 then l.port else l.dnsPort)

-- The exits of the application's side that leave a packet alone.
def reflects (l : Listeners) (p : Pkt) : Bool :=
  if ntohs p.header.dstPort = 443 ∧ p.header.proto = .tcp then
    !((p.family = .inet && privateV4 p.dst) || (p.family = .inet6 && privateV6 p.dst) ||
      (p.family = .inet6 && !l.ipv6))
  else ntohs p.header.dstPort = 53 && decide (l.dnsPort > 0) && !(p.family = .inet6 && !l.ipv6)

-- Every packet of a flow postpones its end, and a FIN or RST marks it as closing.
def Flow.touch (header : Header) (now : Int) (f : Flow) : Flow :=
  { f with last := now, closing := header.closes || f.closing }

-- A write through the pointer that find has returned.
def touchFlow (flows : Flows) (f : Flow) (header : Header) (now : Int) : Flows :=
  Chained.write Flow.toFlowId FlowId.bucket flows f.toFlowId (Flow.touch header now)

-- The packet after the call, whether it is sent, and whether it goes out.
structure Handled where
  sent : Bool
  pkt : Pkt
  outbound : Bool
deriving DecidableEq, Repr

def handle (s : Divert) (p : Pkt) (outbound : Bool) (now : Int) (allocated : Bool) :
    Divert × Handled :=
  let sport := p.header.srcPort
  let dport := p.header.dstPort
  match listenerService s.listeners p.header.proto sport with
  | some svc =>
      match find s.flows p.header.proto p.family (some p.src) dport p.dst svc with
      | none => (s, ⟨true, p, outbound⟩)
      | some f =>
          ({ s with flows := touchFlow s.flows f p.header now },
            ⟨true, { swapAddrs p with header := p.header.withSrcPort (htons svc) }, false⟩)
  | none =>
      if p.header.proto = .udp ∧ ntohs dport = 443 then
        (s, ⟨!(decide (0 < p.payload.length) && decide (byte p.payload 0 ≥ 0xC0) &&
          quicBlocked s.quic p.family p.dst now), p, outbound⟩)
      else if ownPort sport then (s, ⟨true, p, outbound⟩)
      else if !reflects s.listeners p then (s, ⟨true, p, outbound⟩)
      else
        let svc := ntohs dport
        let k : FlowId := ⟨p.header.proto, p.family, p.src, sport, p.dst, svc⟩
        let flows :=
          if (k.find s.flows).isNone && (p.header.proto = .udp || p.header.bareSyn) then
            addFlow s.flows k now allocated
          else s.flows
        match k.find flows with
        | none => ({ s with flows := flows }, ⟨true, p, outbound⟩)
        | some f =>
            ({ s with flows := touchFlow flows f p.header now },
              ⟨true, { swapAddrs p with
                header := p.header.withDstPort (htons (listenerPort s.listeners svc)) }, false⟩)

-- One address of tpp_quic_block: its own entry, a new one, or the one that expires
-- first.
def quicBlockOne (now : Int) (quic : List Quic) (a : DnsAddr) : List Quic :=
  let addr := a.addr.take (addrSize a.family)
  let entry : Quic := ⟨a.family, addr, now + TP_QUIC_BLOCK_TIMEOUT_S * 1000⟩
  match quic.findIdx? fun q => q.family = a.family && q.addr = addr with
  | some j => quic.set j entry
  | none =>
      if quic.length < QUIC_MAX then quic ++ [entry]
      else quic.set (Table.minIndex Quic.expires quic) entry

inductive Event where
  | packet (p : Pkt) (outbound : Bool) (now : Int) (allocated : Bool)
  | sweep (now : Int)
  | quicBlock (addrs : List DnsAddr) (now : Int)
  | quicFlush

def step (s : Divert) : Event → Divert × Option Handled
  | .packet p outbound now allocated =>
      let r := handle s p outbound now allocated
      (r.1, some r.2)
  | .sweep now => ({ s with flows := sweepFlows s.flows now }, none)
  | .quicBlock addrs now => ({ s with quic := addrs.foldl (quicBlockOne now) s.quic }, none)
  | .quicFlush => ({ s with quic := [] }, none)

end DpiProxy.Transparent.Windows
