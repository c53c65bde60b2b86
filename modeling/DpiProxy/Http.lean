import DpiProxy.Packet.Parse
import DpiProxy.Strategy

namespace DpiProxy.Http

open Wire Packet

def HTTP_SCAN_CAP : Nat := 8192

def SPACE : UInt8 := 32
def CR : UInt8 := 13
def LF : UInt8 := 10
def COLON : UInt8 := 58

def methods : List Bytes :=
  [ascii ['G', 'E', 'T', ' '], ascii ['P', 'O', 'S', 'T', ' '], ascii ['H', 'E', 'A', 'D', ' '],
   ascii ['P', 'U', 'T', ' '], ascii ['D', 'E', 'L', 'E', 'T', 'E', ' '],
   ascii ['O', 'P', 'T', 'I', 'O', 'N', 'S', ' '], ascii ['C', 'O', 'N', 'N', 'E', 'C', 'T', ' '],
   ascii ['P', 'A', 'T', 'C', 'H', ' '], ascii ['T', 'R', 'A', 'C', 'E', ' ']]

def looksLikeRequestLine (data : Bytes) : Bool :=
  methods.any fun m => m.length ≤ data.length && data.take m.length == m

-- The offset of the first empty line at or after i, as *found and the result.
def findHeaderEnd (data : Bytes) (scanLen i : Nat) : Option Nat :=
  if i + 4 ≤ scanLen then
    if slice data i 4 = [CR, LF, CR, LF] then some i
    else findHeaderEnd data scanLen (i + 1)
  else none
termination_by scanLen - i

-- `line[i] | 0x20` folds the case of a letter and keeps the colon.
def startsWithHostHeader (line : Bytes) : Bool :=
  5 ≤ line.length && (line.take 5).map (· ||| 0x20) == ascii ['h', 'o', 's', 't', ':']

def extractHostLine (headers : Bytes) (hostOutSize lineStart i : Nat) : Result Bytes :=
  if i + 1 < headers.length then
    if byte headers i = CR ∧ byte headers (i + 1) = LF then
      let line := slice headers lineStart (i - lineStart)
      if startsWithHostHeader line then
        let value := (line.drop 5).dropWhile (· == SPACE)
        if value.length = 0 ∨ value.length ≥ hostOutSize then .error .malformed
        else .ok value
      else extractHostLine headers hostOutSize (i + 2) (i + 2)
    else extractHostLine headers hostOutSize lineStart (i + 1)
  else .error .unsupported
termination_by headers.length - i

def httpParseHost (data : Bytes) (hostOutSize : Nat) : Result Bytes :=
  if hostOutSize = 0 then .error .malformed
  else if data.length < 4 then .error .truncated
  else if !looksLikeRequestLine data then .error .unsupported
  else
    let scanLen := if data.length > HTTP_SCAN_CAP then HTTP_SCAN_CAP else data.length
    match findHeaderEnd data scanLen 0 with
    | none => if data.length ≥ HTTP_SCAN_CAP then .error .malformed else .error .truncated
    -- The two bytes after the offset end the last header line.
    | some headerEnd => extractHostLine (data.take (headerEnd + 2)) hostOutSize 0 0

end DpiProxy.Http
