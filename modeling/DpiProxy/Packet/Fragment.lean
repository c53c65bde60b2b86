import DpiProxy.Packet.Checksum

namespace DpiProxy.Packet

open Wire

def IP_FLAG_DF : UInt16 := 0x4000
def IP_FLAG_MF : UInt16 := 0x2000
def IP_FRAG_UNIT : Nat := 8

-- Either output of packet_fragment_ipv4: the IP header with its own length,
-- flags_frag and checksum, and a part of the IP payload.
def fragmentPacket (input : Bytes) (ihlBytes : Nat) (body : Bytes) (flagsFrag : Nat) : Bytes :=
  let out := input.take ihlBytes ++ body
  let out := put16 out 2 out.length
  let out := put16 out 6 flagsFrag
  let out := put16 out 10 0
  put16 out 10 (checksumIpv4Header out ihlBytes).toNat

-- flags_frag of fragment 1: MF set, everything else cleared.
def firstFlagsFrag (flagsFrag : Nat) : UInt16 :=
  let flags := UInt16.ofNat flagsFrag &&& IP_FLAG_DF
  (flags &&& ~~~IP_FLAG_DF) ||| IP_FLAG_MF

-- The boundary inside the IP payload: the requested TCP payload offset, moved up
-- to the next multiple of IP_FRAG_UNIT.
def fragOffset (tcp : TcpView) (splitOffset : Nat) : Nat :=
  let rawOffset := tcp.offsetBytes + splitOffset
  (rawOffset + IP_FRAG_UNIT - 1) / IP_FRAG_UNIT * IP_FRAG_UNIT

def packetFragmentIpv4 (input : Bytes) (splitOffset : Nat) : Result (Bytes × Bytes) := do
  let (ip, tcp) ← parseTcpDatagram input
  if splitOffset = 0 ∨ splitOffset ≥ tcp.payload.length then .error .malformed
  else
    let cut := fragOffset tcp splitOffset
    if cut < tcp.offsetBytes ∨ cut ≥ ip.payload.length then .error .malformed
    else
      let out1 := fragmentPacket input ip.ihlBytes (ip.payload.take cut)
        (firstFlagsFrag (ipFlagsFrag input)).toNat
      let out2 := fragmentPacket input ip.ihlBytes (ip.payload.drop cut) (cut / IP_FRAG_UNIT)
      .ok (out1, out2)

end DpiProxy.Packet
