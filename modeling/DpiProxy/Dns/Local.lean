import DpiProxy.Dns.Message
import DpiProxy.Text.Scan

namespace DpiProxy.Dns

open Wire

def inAddrArpa : Bytes := ascii ['.', 'i', 'n', '-', 'a', 'd', 'd', 'r', '.', 'a', 'r', 'p', 'a']

def zones : List Bytes :=
  [ascii ['l', 'o', 'c', 'a', 'l'],
   ascii ['l', 'o', 'c', 'a', 'l', 'h', 'o', 's', 't'],
   ascii ['l', 'o', 'c', 'a', 'l', 'd', 'o', 'm', 'a', 'i', 'n'],
   ascii ['l', 'a', 'n'],
   ascii ['h', 'o', 'm', 'e'],
   ascii ['h', 'o', 'm', 'e', '.', 'a', 'r', 'p', 'a'],
   ascii ['i', 'n', 't', 'e', 'r', 'n', 'a', 'l'],
   ascii ['i', 'n', 't', 'r', 'a', 'n', 'e', 't'],
   ascii ['c', 'o', 'r', 'p'],
   ascii ['1', '0'] ++ inAddrArpa,
   ascii ['1', '6', '8', '.', '1', '9', '2'] ++ inAddrArpa,
   ascii ['2', '5', '4', '.', '1', '6', '9'] ++ inAddrArpa,
   ascii ['c', '.', 'f', '.', 'i', 'p', '6', '.', 'a', 'r', 'p', 'a'],
   ascii ['d', '.', 'f', '.', 'i', 'p', '6', '.', 'a', 'r', 'p', 'a'],
   ascii ['8', '.', 'e', '.', 'f', '.', 'i', 'p', '6', '.', 'a', 'r', 'p', 'a'],
   ascii ['9', '.', 'e', '.', 'f', '.', 'i', 'p', '6', '.', 'a', 'r', 'p', 'a'],
   ascii ['a', '.', 'e', '.', 'f', '.', 'i', 'p', '6', '.', 'a', 'r', 'p', 'a'],
   ascii ['b', '.', 'e', '.', 'f', '.', 'i', 'p', '6', '.', 'a', 'r', 'p', 'a']]

-- snprintf of "%d.172.in-addr.arpa" and "%d.100.in-addr.arpa": 172.16.0.0/12 and
-- 100.64.0.0/10.
def octetZone (net : List Char) (octet : Nat) : Bytes :=
  CText.printNat octet ++ DOT :: (ascii net ++ inAddrArpa)

def octetZones : List Bytes :=
  (List.range' 16 16).map (octetZone ['1', '7', '2']) ++
    (List.range' 64 64).map (octetZone ['1', '0', '0'])

def dnsNameIsLocal (name : Bytes) : Bool :=
  if name = [] then false
  -- a single label ("printer", "nas") is never a public name
  else if DOT ∉ name then true
  else zones.any (inZone name) || octetZones.any (inZone name)

end DpiProxy.Dns
