import DpiProxy.Packet.Checksum

namespace DpiProxy.Packet

open Wire

-- out1 of packet_split_tcp_v4: the headers and the payload up to the split.
def splitFirst (input : Bytes) (ip : Ipv4View) (tcp : TcpView) (splitOffset : Nat) : Bytes :=
  let hdrsLen := ip.ihlBytes + tcp.offsetBytes
  let out := input.take hdrsLen ++ tcp.payload.take splitOffset
  let out := put16 out 2 out.length
  let out := put16 out 10 0
  let out := put16 out 10 (checksumIpv4Header out ip.ihlBytes).toNat
  let out := put16 out (ip.ihlBytes + 16) 0
  put16 out (ip.ihlBytes + 16)
    (checksumTcpV4 out (out.drop ip.ihlBytes) (tcp.offsetBytes + splitOffset)).toNat

-- out2 of packet_split_tcp_v4: the headers with the advanced sequence number
-- and the payload from the split on.
def splitSecond (input : Bytes) (ip : Ipv4View) (tcp : TcpView) (splitOffset : Nat) : Bytes :=
  let hdrsLen := ip.ihlBytes + tcp.offsetBytes
  let out := input.take hdrsLen ++ tcp.payload.drop splitOffset
  let out := put16 out 2 out.length
  let out := put16 out 10 0
  let out := put32 out (ip.ihlBytes + 4) (tcp.seq + UInt32.ofNat splitOffset)
  let out := put16 out (ip.ihlBytes + 16) 0
  let out := put16 out 10 (checksumIpv4Header out ip.ihlBytes).toNat
  put16 out (ip.ihlBytes + 16)
    (checksumTcpV4 out (out.drop ip.ihlBytes)
      (tcp.offsetBytes + (tcp.payload.length - splitOffset))).toNat

def packetSplitTcpV4 (input : Bytes) (splitOffset : Nat) : Result (Bytes × Bytes) := do
  let (ip, tcp) ← parseTcpDatagram input
  if splitOffset = 0 ∨ splitOffset ≥ tcp.payload.length then .error .malformed
  else .ok (splitFirst input ip tcp splitOffset, splitSecond input ip tcp splitOffset)

end DpiProxy.Packet
