import DpiProxy.Wire.Record

namespace DpiProxy.Tls

open Wire Wire.Record

-- The loop of tls_find_sni_split over the extensions block.
def findSniExtension (data : Bytes) (pos stop : Nat) : Option Nat :=
  if pos + 4 ≤ stop then
    let extensionType := be16 data pos
    let extensionLen := be16 data (pos + 2)
    let body := pos + 4
    if body + extensionLen > stop then none
    else if extensionType = 0 then
      if extensionLen < 5 then none
      else if byte data (body + 2) ≠ 0 then none
      else
        let nameLen := be16 data (body + 3)
        if 5 + nameLen > extensionLen then none
        else if nameLen < 2 then none
        else some (body + 5 + nameLen / 2)
    else findSniExtension data (body + extensionLen) stop
  else none
termination_by stop - pos

-- The middle of the SNI hostname, or none where the source returns -1.
def tlsFindSniSplit (data : Bytes) : Option Nat := do
  guard (5 ≤ data.length)
  guard (byte data 0 = 0x16)
  let pos := 5
  guard (pos + 4 ≤ data.length)
  guard (byte data pos = 0x01)
  let pos := pos + 4
  guard (pos + 34 ≤ data.length)
  let pos := pos + 34
  guard (pos + 1 ≤ data.length)
  let sessionLen := (byte data pos).toNat
  let pos := pos + 1
  guard (pos + sessionLen ≤ data.length)
  let pos := pos + sessionLen
  guard (pos + 2 ≤ data.length)
  let cipherLen := be16 data pos
  let pos := pos + 2
  guard (pos + cipherLen ≤ data.length)
  let pos := pos + cipherLen
  guard (pos + 1 ≤ data.length)
  let compressionLen := (byte data pos).toNat
  let pos := pos + 1
  guard (pos + compressionLen ≤ data.length)
  let pos := pos + compressionLen
  guard (pos + 2 ≤ data.length)
  let extensionsLen := be16 data pos
  let pos := pos + 2
  guard (pos + extensionsLen ≤ data.length)
  findSniExtension data pos (pos + extensionsLen)

-- Rewrites the first record as two records, cut after `cut` bytes of its body.
-- The record may have arrived only in part.
def tlsFragmentFirstRecord (data : Bytes) (cut outSize : Nat) : Option Bytes :=
  if data.length < 6 ∨ byte data 0 ≠ 0x16 ∨ byte data 1 ≠ 0x03 then none
  else
    let recordLen := be16 data 3
    if cut < 1 ∨ cut ≥ recordLen ∨ cut ≥ data.length - 5 ∨ outSize < data.length + 5 then none
    else some
      (data.take 3 ++ [hi8 cut, lo8 cut] ++ slice data 5 cut ++
        (data.take 3 ++ [hi8 (recordLen - cut), lo8 (recordLen - cut)] ++ data.drop (5 + cut)))

def tlsRecordSplitPoint (data : Bytes) : Nat :=
  match tlsFindSniSplit data with
  | some split => if split > 5 then split - 5 else 1
  | none => 1

-- The loop of tls_coalesce_handshake_records. `body` holds out[5..body) of the
-- source; the result is (pos, body, declared, records) at the end of the loop.
def coalesceLoop (input : Bytes) (outSize pos : Nat) (body : Bytes) (declared records : Nat) :
    Option (Nat × Bytes × Nat × Nat) :=
  if pos + 5 ≤ input.length ∧ byte input pos = 0x16 then
    let rlen := be16 input (pos + 3)
    let avail := if input.length - pos - 5 > rlen then rlen else input.length - pos - 5
    if 5 + body.length + avail > outSize then none
    else
      let body' := body ++ slice input (pos + 5) avail
      if avail < rlen then some (pos + 5 + avail, body', declared + rlen, records + 1)
      else coalesceLoop input outSize (pos + 5 + avail) body' (declared + rlen) (records + 1)
  else some (pos, body, declared, records)
termination_by input.length - pos

-- Gathers back-to-back handshake records into one. A last record that has only
-- partly arrived counts with its declared length.
def tlsCoalesceHandshakeRecords (input : Bytes) (outSize : Nat) : Option Bytes :=
  if input.length < 5 ∨ byte input 0 ≠ 0x16 then none
  else do
    let (pos, body, declared, records) ← coalesceLoop input outSize 0 [] 0 0
    if records < 2 ∨ declared > 16384 ∨ 5 + body.length + (input.length - pos) > outSize then none
    else
      some (header 0x16 (byte input 1) (byte input 2) declared ++ (body ++ input.drop pos))

end DpiProxy.Tls
