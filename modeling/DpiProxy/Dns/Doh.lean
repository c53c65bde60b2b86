import DpiProxy.Http.Lemmas
import DpiProxy.Text.Scan

namespace DpiProxy.Dns.Doh

open Wire CText Http

def DOH_HTTP_MAX : Nat := 4096

def postLine : Bytes :=
  ascii ['P', 'O', 'S', 'T', ' ', '/', 'd', 'n', 's', '-', 'q', 'u', 'e', 'r', 'y', ' ', 'H', 'T',
    'T', 'P', '/', '1', '.', '1']

def hostName : Bytes :=
  ascii ['H', 'o', 's', 't', ':', ' ']

def contentType : Bytes :=
  ascii ['C', 'o', 'n', 't', 'e', 'n', 't', '-', 'T', 'y', 'p', 'e', ':', ' ', 'a', 'p', 'p', 'l',
    'i', 'c', 'a', 't', 'i', 'o', 'n', '/', 'd', 'n', 's', '-', 'm', 'e', 's', 's', 'a', 'g', 'e']

def accept : Bytes :=
  ascii ['A', 'c', 'c', 'e', 'p', 't', ':', ' ', 'a', 'p', 'p', 'l', 'i', 'c', 'a', 't', 'i', 'o',
    'n', '/', 'd', 'n', 's', '-', 'm', 'e', 's', 's', 'a', 'g', 'e']

def contentLength : Bytes :=
  ascii ['C', 'o', 'n', 't', 'e', 'n', 't', '-', 'L', 'e', 'n', 'g', 't', 'h']

def httpVersion : Bytes := ascii ['H', 'T', 'T', 'P', '/', '1', '.']

-- The request head that snprintf writes.
def requestHead (host : Bytes) (qlen : Nat) : Bytes :=
  postLine ++ CRLF ++ hostName ++ host ++ CRLF ++ contentType ++ CRLF ++ accept ++ CRLF ++
    contentLength ++ ascii [':', ' '] ++ printNat qlen ++ CRLF ++ CRLF

-- One tlsc_read of at most `want` bytes. The chunks are what the TLS layer has for it, call
-- by call; none is a result that is not positive.
def tlscRead (want : Nat) : List Bytes → Option (Bytes × List Bytes)
  | [] => none
  | chunk :: chunks =>
      if chunk = [] ∨ want = 0 then none
      else if chunk.length ≤ want then some (chunk, chunks)
      else some (chunk.take want, chunk.drop want :: chunks)

theorem tlscRead_length {want : Nat} {chunks rest : List Bytes} {data : Bytes}
    (h : tlscRead want chunks = some (data, rest)) : 0 < data.length := by
  cases chunks with
  | nil => cases h
  | cons chunk chunks =>
      rw [tlscRead] at h
      split_ifs at h with hnone hfits
      · rw [not_or] at hnone
        obtain ⟨rfl, -⟩ := Prod.mk.inj (Option.some.inj h)
        exact List.length_pos_iff.mpr hnone.1
      · obtain ⟨rfl, -⟩ := Prod.mk.inj (Option.some.inj h)
        rw [List.length_take]
        omega

-- The loop that reads until the blank line: its offset, head[0 .. have) and what is left.
def readHead (chunks : List Bytes) (head : Bytes) : Option (Nat × Bytes × List Bytes) :=
  if head.length ≥ DOH_HTTP_MAX then none
  else
    match _ : tlscRead (DOH_HTTP_MAX - head.length) chunks with
    | none => none
    | some (data, chunks) =>
        match Search.find blankLine (cstr (head ++ data)) with
        | some headEnd => some (headEnd, head ++ data, chunks)
        | none => readHead chunks (head ++ data)
termination_by DOH_HTTP_MAX - head.length
decreasing_by
  rename_i hread
  have hpos := tlscRead_length hread
  rw [List.length_append]
  omega

-- The loop that reads the rest of the body, and what the connection still has then.
def readBody (bodyLen : Nat) (chunks : List Bytes) (reply : Bytes) : Option (Bytes × List Bytes) :=
  if reply.length < bodyLen then
    match _ : tlscRead (bodyLen - reply.length) chunks with
    | none => none
    | some (data, chunks) => readBody bodyLen chunks (reply ++ data)
  else some (reply, chunks)
termination_by bodyLen - reply.length
decreasing_by
  rename_i hread
  have hpos := tlscRead_length hread
  rw [List.length_append]
  omega

def strtol (text : Bytes) : Int := ((scanLong text).map (·.1)).getD 0

-- The number behind the first line start that has the name and a colon; -1 without one.
def headerValue (name : Bytes) : Bytes → Int
  | [] => -1
  | c :: p =>
      if c = LF ∧ ieq (p.take name.length) name ∧ byte p name.length = COLON then
        strtol (p.drop (name.length + 1))
      else headerValue name p

-- strtol reads from head + 9, whatever stands there.
def responseStatus (head : Bytes) : Int :=
  if (cstr head).take 7 = httpVersion then strtol (cstr (head.drop 9)) else 0

-- The result and what was written to reply.
structure Answered where
  value : Int
  reply : Bytes
deriving DecidableEq, Repr

-- doh_request with what the connection still has then. A connection on which it fails
-- is closed, with all that it has.
def dohExchange (tlscWrite : Bytes → Bool) (chunks : List Bytes) (host query : Bytes) (replySize : Nat) :
    Answered × List Bytes :=
  let request := requestHead host query.length
  if request.length ≥ DOH_HTTP_MAX + 1 ∨ !tlscWrite request ∨ !tlscWrite query then (⟨-1, []⟩, [])
  else
    match readHead chunks [] with
    | none => (⟨-1, []⟩, [])
    | some (headEnd, buffer, chunks) =>
        -- *end = 0
        let head := buffer.set headEnd 0
        let status := responseStatus head
        let bodyLen := headerValue contentLength (cstr head)
        if bodyLen < 0 ∨ bodyLen.toNat > replySize then (⟨-1, []⟩, [])
        else
          let start := buffer.drop (headEnd + 4)
          if start.length > bodyLen.toNat then (⟨-1, []⟩, [])
          else
            match readBody bodyLen.toNat chunks start with
            | none => (⟨-1, start⟩, [])
            | some (reply, chunks) =>
                if status ≠ 200 ∨ bodyLen < 12 then (⟨0, reply⟩, chunks) else (⟨bodyLen, reply⟩, chunks)

def dohRequest (tlscWrite : Bytes → Bool) (chunks : List Bytes) (host query : Bytes) (replySize : Nat) :
    Answered :=
  (dohExchange tlscWrite chunks host query replySize).1

end DpiProxy.Dns.Doh
