import DpiProxy.Packet.Checksum

namespace DpiProxy.Packet

open Wire

-- The decoy: the captured packet with another TTL, a valid IP header checksum and
-- the complement of its TCP checksum. Complementing the 16-bit field is the same
-- in either byte order.
def packetMakeFakeTcpV4 (input : Bytes) (ttl : UInt8) : Result Bytes := do
  let (ip, tcp) ← parseTcpDatagram input
  if tcp.payload.length = 0 then .error .malformed
  else
    let out := input.set 8 ttl
    let out := put16 out 10 0
    let out := put16 out 10 (checksumIpv4Header out ip.ihlBytes).toNat
    let checksumField := ip.ihlBytes + 16
    .ok (put16 out checksumField (~~~ UInt16.ofNat (be16 out checksumField)).toNat)

end DpiProxy.Packet
