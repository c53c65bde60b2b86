import DpiProxy.Relay
import DpiProxy.Strategy
import DpiProxy.Tls.Sni

namespace DpiProxy.Transparent

open Wire Packet Tls Relay

-- sizeof(c->host).
def TLS_SNI_HOST_MAX : Nat := 256

def isalnum (c : UInt8) : Bool :=
  (48 ≤ c && c ≤ 57) || (65 ≤ c && c ≤ 90) || (97 ≤ c && c ≤ 122)

def isHostChar (c : UInt8) : Bool := isalnum c || c == DOT || c == 45 || c == 95

-- The bytes written to c->host when the status is PACKET_OK. The check reads them
-- as a C string.
def parseHello (hello : Bytes) : Result Bytes :=
  let data := (tlsCoalesceHandshakeRecords hello BUFFER_SIZE).getD hello
  match tlsParseClientHelloSni data TLS_SNI_HOST_MAX with
  | .ok host => if (cstr host).all isHostChar then .ok host else .error .malformed
  | .error status => .error status

-- What one turn of the loop of read_client_hello meets on the client's socket: no
-- data in time, EINTR, the end of the stream or an error, or a chunk. `late` is
-- whether the deadline has passed when the chunk has been parsed.
inductive Arrival where
  | silent
  | interrupted
  | closed
  | data (bytes : Bytes) (late : Bool)
deriving DecidableEq, Repr

-- c->hello[0 .. hello_len), c->host as a C string, and what is still to be read
-- from the client.
structure HelloRead where
  hello : Bytes
  host : Bytes
  left : List Arrival
deriving DecidableEq, Repr

-- The loop of read_client_hello. A chunk that does not fit stays in the socket in
-- part, and a recv of no bytes is the end of the stream.
def collectHello (hello : Bytes) : List Arrival → HelloRead
  | [] => ⟨hello, [], []⟩
  | .silent :: left => ⟨hello, [], left⟩
  | .interrupted :: left => collectHello hello left
  | .closed :: left => ⟨hello, [], .closed :: left⟩
  | .data bytes late :: left =>
      if bytes.length = 0 then ⟨hello, [], .closed :: left⟩
      else
        let space := BUFFER_SIZE - hello.length
        let read := hello ++ bytes.take space
        let unread := if bytes.length ≤ space then left else .data (bytes.drop space) late :: left
        match parseHello read with
        | .ok host => ⟨read, cstr host, unread⟩
        | .error .truncated =>
            if late ∨ BUFFER_SIZE ≤ read.length then ⟨read, [], unread⟩ else collectHello read left
        | .error _ => ⟨read, [], unread⟩

-- From here on the ClientHello is one record.
def readClientHello (arrivals : List Arrival) : HelloRead :=
  let c := collectHello [] arrivals
  { c with hello := (tlsCoalesceHandshakeRecords c.hello BUFFER_SIZE).getD c.hello }

end DpiProxy.Transparent
