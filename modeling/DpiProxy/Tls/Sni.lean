import DpiProxy.Packet.Parse

namespace DpiProxy.Tls

open Wire Packet

def TLS_CLIENTHELLO_CAP : Nat := 16384

def be24 (b : Bytes) (i : Nat) : Nat := (byte b i).toNat * 65536 + be16 b (i + 1)

-- `if (!cond) return (status);`
def require (cond : Prop) [Decidable cond] (status : PacketError) : Result Unit :=
  if cond then .ok () else .error status

-- The loop of tls_parse_client_hello_sni over the extensions block.
def parseSniExtension (data : Bytes) (hostOutSize pos stop : Nat) : Result Bytes :=
  if pos + 4 ≤ stop then
    let extensionType := be16 data pos
    let extensionLen := be16 data (pos + 2)
    let body := pos + 4
    if body + extensionLen > stop then .error .malformed
    else if extensionType = 0 then
      if extensionLen < 5 then .error .malformed
      else if byte data (body + 2) ≠ 0 then .error .malformed
      else
        let nameLen := be16 data (body + 3)
        if 5 + nameLen > extensionLen then .error .malformed
        else if nameLen = 0 ∨ nameLen ≥ hostOutSize then .error .malformed
        else .ok (slice data (body + 5) nameLen)
    else parseSniExtension data hostOutSize (body + extensionLen) stop
  else .error .unsupported
termination_by stop - pos

-- The hostname bytes written to host_out, before the terminating NUL.
def tlsParseClientHelloSni (data : Bytes) (hostOutSize : Nat) : Result Bytes := do
  require (hostOutSize ≠ 0) .malformed
  require (data.length ≤ TLS_CLIENTHELLO_CAP) .malformed
  require (5 ≤ data.length) .truncated
  require (byte data 0 = 0x16) .unsupported
  let pos := 5
  require (pos + 4 ≤ data.length) .truncated
  require (byte data pos = 0x01) .unsupported
  let handshakeLen := be24 data (pos + 1)
  require (handshakeLen ≤ TLS_CLIENTHELLO_CAP) .malformed
  let pos := pos + 4
  require (pos + 34 ≤ data.length) .truncated
  let pos := pos + 34
  require (pos + 1 ≤ data.length) .truncated
  let sessionLen := (byte data pos).toNat
  let pos := pos + 1
  require (pos + sessionLen ≤ data.length) .truncated
  let pos := pos + sessionLen
  require (pos + 2 ≤ data.length) .truncated
  let cipherLen := be16 data pos
  let pos := pos + 2
  require (pos + cipherLen ≤ data.length) .truncated
  let pos := pos + cipherLen
  require (pos + 1 ≤ data.length) .truncated
  let compressionLen := (byte data pos).toNat
  let pos := pos + 1
  require (pos + compressionLen ≤ data.length) .truncated
  let pos := pos + compressionLen
  require (pos + 2 ≤ data.length) .truncated
  let extensionsLen := be16 data pos
  let pos := pos + 2
  require (extensionsLen ≤ TLS_CLIENTHELLO_CAP) .malformed
  require (pos + extensionsLen ≤ data.length) .truncated
  parseSniExtension data hostOutSize pos (pos + extensionsLen)

end DpiProxy.Tls
