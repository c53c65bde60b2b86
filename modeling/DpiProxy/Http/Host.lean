import DpiProxy.Http.Lemmas

namespace DpiProxy.Http

open Wire Packet

def HTAB : UInt8 := 9

-- The characters of a field name.
def isTchar (c : UInt8) : Bool :=
  (48 ≤ c && c ≤ 57) || (65 ≤ c && c ≤ 90) || (97 ≤ c && c ≤ 122) ||
    (ascii ['!', '#', '$', '%', '&', '*', '+', '-', '.', '^', '_', '|', '~'] ++ [39, 96]).contains c

def isBlank (c : UInt8) : Bool := c == SPACE || c == HTAB

-- A header field as the grammar has it: name, colon, blanks, value, blanks.
structure Field where
  name : Bytes
  before : Bytes
  value : Bytes
  after : Bytes
  token : ∀ c ∈ name, isTchar c = true
  blank_before : ∀ c ∈ before, isBlank c = true
  blank_after : ∀ c ∈ after, isBlank c = true
  no_blank_first : ∀ c, value.head? = some c → isBlank c = false
  no_blank_last : ∀ c, value.getLast? = some c → isBlank c = false
  one_line : CR ∉ value

def Field.line (f : Field) : Bytes := f.name ++ COLON :: (f.before ++ (f.value ++ f.after))

def Field.isHost (f : Field) : Bool := f.name.map tolower == ascii ['h', 'o', 's', 't']

def joinLines (lines : List Bytes) : Bytes := lines.flatMap (· ++ CRLF)

structure RequestHead where
  method : Bytes
  target : Bytes
  fields : List Field
  supported : method ∈ methods
  one_line : CR ∉ target

namespace RequestHead

variable (head : RequestHead)

def requestLine : Bytes :=
  head.method ++ head.target ++ ascii [' ', 'H', 'T', 'T', 'P', '/', '1', '.', '1']

def lines : List Bytes := head.requestLine :: head.fields.map Field.line

def bytes : Bytes := joinLines head.lines ++ CRLF

end RequestHead

section Lines

theorem headLines_line {line : Bytes} (h : CR ∉ line) (rest : Bytes) :
    headLines (line ++ CR :: LF :: rest) = line :: headLines rest := by
  induction line with
  | nil => rw [List.nil_append, headLines, if_pos ⟨rfl, rfl⟩]
  | cons c line ih =>
      rw [List.mem_cons, not_or] at h
      obtain ⟨next, tail, htail⟩ : ∃ next tail, line ++ CR :: LF :: rest = next :: tail := by
        cases line with
        | nil => exact ⟨_, _, rfl⟩
        | cons next line => exact ⟨_, _, rfl⟩
      rw [List.cons_append, htail, headLines, if_neg fun hc => h.1 hc.1.symm, ← htail, ih h.2,
        List.modifyHead_cons]

theorem headLines_join {lines : List Bytes} (h : ∀ line ∈ lines, CR ∉ line) :
    headLines (joinLines lines) = lines := by
  induction lines with
  | nil => rfl
  | cons line lines ih =>
      rw [joinLines, List.flatMap_cons, List.append_assoc, CRLF, List.cons_append, List.cons_append,
        List.nil_append, headLines_line (h line List.mem_cons_self), ← CRLF, ← joinLines,
        ih fun l hl => h l (List.mem_cons_of_mem _ hl)]

-- A CRLF that another line follows is no empty line.
theorem find_blankLine_crlf {c : UInt8} (hc : c ≠ CR) (rest : Bytes) :
    Search.find blankLine (CR :: LF :: c :: rest) = (Search.find blankLine (c :: rest)).map (· + 2) := by
  have hnot : ¬ blankLine <+: CR :: LF :: c :: rest := by
    intro h
    exact hc (List.cons_prefix_cons.mp (List.cons_prefix_cons.mp (List.cons_prefix_cons.mp h).2).2).1.symm
  have hlf : CR ∉ [LF] := by decide
  have hskip : Search.find blankLine ([LF] ++ c :: rest) = (Search.find blankLine (c :: rest)).map (· + 1) :=
    Search.find_skip hlf
  rw [Search.find, if_neg hnot]
  change (Search.find blankLine ([LF] ++ c :: rest)).map (· + 1) = _
  rw [hskip, Option.map_map]
  rfl

theorem find_blankLine_join {lines : List Bytes} (hne : lines ≠ [])
    (h : ∀ line ∈ lines, line ≠ [] ∧ CR ∉ line) (rest : Bytes) :
    (Search.find blankLine (joinLines lines ++ (CRLF ++ rest))).map (· + 2) =
      some (joinLines lines).length := by
  induction lines with
  | nil => exact absurd rfl hne
  | cons line lines ih =>
      obtain ⟨hline, hcr⟩ := h line List.mem_cons_self
      have hjoin : joinLines (line :: lines) = line ++ (CRLF ++ joinLines lines) := by
        rw [joinLines, List.flatMap_cons, List.append_assoc, ← joinLines]
      rw [hjoin, List.append_assoc, blankLine, Search.find_skip hcr, ← blankLine, List.append_assoc]
      cases lines with
      | nil =>
          have hhere : Search.find blankLine (CRLF ++ (joinLines [] ++ (CRLF ++ rest))) = some 0 := by
            rw [Search.find_eq_some_iff (by simp [blankLine])]
            exact ⟨⟨rest, rfl⟩, fun j hj => absurd hj (Nat.not_lt_zero j)⟩
          rw [hhere, Option.map_some, Option.map_some, List.length_append, Nat.zero_add]
          rfl
      | cons next lines =>
          obtain ⟨hnext, hncr⟩ := h next (by simp)
          have hrest := ih (List.cons_ne_nil _ _) fun l hl => h l (List.mem_cons_of_mem _ hl)
          obtain ⟨c, tail, hc, htail⟩ : ∃ c tail, c ≠ CR ∧
              joinLines (next :: lines) ++ (CRLF ++ rest) = c :: tail := by
            cases next with
            | nil => exact absurd rfl hnext
            | cons c next =>
                refine ⟨c, _, fun heq => hncr (by simp [heq]), rfl⟩
          rw [htail] at hrest ⊢
          change ((Search.find blankLine (CR :: LF :: c :: tail)).map _).map _ = _
          rw [find_blankLine_crlf hc, hrest]
          simp [CRLF]
          omega

end Lines

section Name

-- The bit that folds a letter folds nothing else to a letter, and no character of a name
-- to a colon.
theorem fold_host (c : UInt8) : ∀ d ∈ ascii ['h', 'o', 's', 't'], c ||| 0x20 = d ↔ tolower c = d := by
  revert c
  exact forall_byte (by decide +kernel)

theorem fold_colon (c : UInt8) (h : isTchar c = true) : c ||| 0x20 ≠ COLON := by
  revert h
  revert c
  exact forall_byte (P := fun c => isTchar c = true → c ||| 0x20 ≠ COLON) (by decide +kernel)

theorem CR_not_tchar : isTchar CR = false := by decide

-- A name of another length has its colon, or one of its characters, in the wrong place.
theorem startsWithHostHeader_name {name : Bytes} (htoken : ∀ c ∈ name, isTchar c = true) (rest : Bytes) :
    startsWithHostHeader (name ++ COLON :: rest) = (name.map tolower == ascii ['h', 'o', 's', 't']) := by
  have hcolon : (58 : UInt8) ||| 32 = 58 := by decide
  have hfold : ∀ c : UInt8, (c ||| 32 = 104 ↔ tolower c = 104) ∧ (c ||| 32 = 111 ↔ tolower c = 111) ∧
      (c ||| 32 = 115 ↔ tolower c = 115) ∧ (c ||| 32 = 116 ↔ tolower c = 116) := fun c =>
    ⟨fold_host c 104 (by decide), fold_host c 111 (by decide), fold_host c 115 (by decide),
      fold_host c 116 (by decide)⟩
  rw [Bool.eq_iff_iff]
  rcases name with _ | ⟨a, _ | ⟨b, _ | ⟨c, _ | ⟨d, _ | ⟨e, name⟩⟩⟩⟩⟩
  · simp [startsWithHostHeader, ascii, COLON, hcolon]
  · simp [startsWithHostHeader, ascii, COLON, hcolon]
  · simp [startsWithHostHeader, ascii, COLON, hcolon]
  · simp [startsWithHostHeader, ascii, COLON, hcolon]
  · simp [startsWithHostHeader, ascii, COLON, hcolon, hfold]
  · have he := fold_colon e (htoken e (by simp))
    simp only [COLON] at he
    simp [startsWithHostHeader, ascii, COLON, he]

variable {f : Field}

theorem startsWithHostHeader_line : startsWithHostHeader f.line = f.isHost :=
  startsWithHostHeader_name f.token _

theorem hostValue_line (h : f.isHost = true) :
    hostValue f.line = (f.before ++ (f.value ++ f.after)).dropWhile (· == SPACE) := by
  have hlen : f.name.length = 4 := by
    have hname := congrArg List.length (beq_iff_eq.mp h)
    simpa [ascii] using hname
  rw [hostValue, Field.line, List.drop_append, List.drop_of_length_le (by omega), hlen]
  rfl

theorem cr_notMem_line : CR ∉ f.line := by
  have hblank : isBlank CR = false := by decide
  have hcolon : CR ≠ COLON := by decide
  intro hmem
  rw [Field.line, List.mem_append, List.mem_cons, List.mem_append, List.mem_append] at hmem
  rcases hmem with hmem | hmem | hmem | hmem | hmem
  · exact absurd (f.token CR hmem) (by rw [CR_not_tchar]; simp)
  · exact hcolon hmem
  · exact absurd (f.blank_before CR hmem) (by rw [hblank]; simp)
  · exact f.one_line hmem
  · exact absurd (f.blank_after CR hmem) (by rw [hblank]; simp)

theorem line_ne_nil : f.line ≠ [] := by
  simp [Field.line]

-- The value is read as it is where only spaces stand before it and nothing behind it.
theorem dropSpaces_eq_iff (hvalue : f.value ≠ []) :
    (f.before ++ (f.value ++ f.after)).dropWhile (· == SPACE) = f.value ↔
      (∀ c ∈ f.before, c = SPACE) ∧ f.after = [] := by
  obtain ⟨v, value, hv⟩ := List.exists_cons_of_ne_nil hvalue
  have hfirst : (v == SPACE) = false := by
    have hblank := f.no_blank_first v (by rw [hv, List.head?_cons])
    rw [isBlank, Bool.or_eq_false_iff] at hblank
    exact hblank.1
  have hstop : (f.value ++ f.after).dropWhile (· == SPACE) = f.value ++ f.after := by
    rw [hv, List.cons_append, List.dropWhile_cons_of_neg (by simp [hfirst])]
  constructor
  · intro heq
    by_cases hall : ∀ c ∈ f.before, (c == SPACE) = true
    · rw [List.dropWhile_append_of_pos hall, hstop, List.append_right_eq_self] at heq
      exact ⟨fun c hc => beq_iff_eq.mp (hall c hc), heq⟩
    · have hleft : f.before.dropWhile (· == SPACE) ≠ [] := fun hnil => hall (List.dropWhile_eq_nil_iff.mp hnil)
      have hpos := List.length_pos_iff.mpr hleft
      rw [List.dropWhile_append, if_neg (by simpa using hleft)] at heq
      have hlen := congrArg List.length heq
      simp only [List.length_append] at hlen
      omega
  · rintro ⟨hspaces, hafter⟩
    rw [List.dropWhile_append_of_pos fun c hc => beq_iff_eq.mpr (hspaces c hc), hstop, hafter, List.append_nil]

end Name

namespace RequestHead

variable (head : RequestHead)

theorem methods_facts : ∀ m ∈ methods, 4 ≤ m.length ∧ CR ∉ m ∧
    (m.take 4).map (· ||| 0x20) ≠ ascii ['h', 'o', 's', 't'] := by
  decide

theorem not_host_of_start {b : Bytes} (hlen : 4 ≤ b.length)
    (hb : (b.take 4).map (· ||| 0x20) ≠ ascii ['h', 'o', 's', 't']) (rest : Bytes) :
    startsWithHostHeader (b ++ rest) = false := by
  rw [startsWithHostHeader, Bool.and_eq_false_iff, beq_eq_false_iff_ne]
  right
  intro heq
  have hfour := congrArg (List.take 4) heq
  rw [← List.map_take, List.take_take, Nat.min_eq_left (by omega), List.take_append_of_le_length hlen] at hfour
  exact hb hfour

theorem requestLine_eq : ∃ rest, head.requestLine = head.method ++ rest ∧ CR ∉ rest := by
  have hversion : CR ∉ ascii [' ', 'H', 'T', 'T', 'P', '/', '1', '.', '1'] := by decide
  refine ⟨_, List.append_assoc _ _ _, ?_⟩
  rw [List.mem_append, not_or]
  exact ⟨head.one_line, hversion⟩

theorem lines_plain : ∀ line ∈ head.lines, line ≠ [] ∧ CR ∉ line := by
  intro line hline
  rcases List.mem_cons.mp hline with rfl | hline
  · obtain ⟨rest, heq, hrest⟩ := head.requestLine_eq
    obtain ⟨hlen, hcr, -⟩ := methods_facts _ head.supported
    rw [heq]
    refine ⟨fun hnil => ?_, ?_⟩
    · rw [(List.append_eq_nil_iff.mp hnil).1, List.length_nil] at hlen
      omega
    · rw [List.mem_append, not_or]
      exact ⟨hcr, hrest⟩
  · obtain ⟨f, -, rfl⟩ := List.mem_map.mp hline
    exact ⟨line_ne_nil, cr_notMem_line⟩

theorem bytes_start : ∃ rest, head.bytes = head.method ++ rest := by
  obtain ⟨rest, heq, -⟩ := head.requestLine_eq
  refine ⟨rest ++ (CRLF ++ (joinLines (head.fields.map Field.line) ++ CRLF)), ?_⟩
  rw [bytes, lines, joinLines, List.flatMap_cons, heq, ← joinLines]
  simp only [List.append_assoc]

theorem looksLikeRequestLine_bytes (body : Bytes) : looksLikeRequestLine (head.bytes ++ body) = true := by
  obtain ⟨rest, heq⟩ := head.bytes_start
  rw [looksLikeRequestLine, List.any_eq_true]
  refine ⟨head.method, head.supported, ?_⟩
  rw [heq, List.append_assoc, List.take_left, List.length_append]
  simp

-- A head in the bytes that are scanned is read line by line, whatever follows it.
theorem httpParseHost_bytes (hcap : head.bytes.length ≤ HTTP_SCAN_CAP) (body : Bytes) {hostOutSize : Nat}
    (hsize : hostOutSize ≠ 0) :
    httpParseHost (head.bytes ++ body) hostOutSize = hostOfLines hostOutSize head.lines := by
  have hlen : 4 ≤ (head.bytes ++ body).length := by
    obtain ⟨rest, heq⟩ := head.bytes_start
    have hmethod := (methods_facts _ head.supported).1
    rw [heq, List.length_append, List.length_append]
    omega
  have htake : (head.bytes ++ body).take HTTP_SCAN_CAP =
      joinLines head.lines ++ (CRLF ++ body.take (HTTP_SCAN_CAP - head.bytes.length)) := by
    rw [List.take_append, List.take_of_length_le hcap, bytes, List.append_assoc]
  have hne : head.lines ≠ [] := List.cons_ne_nil _ _
  have hfind := find_blankLine_join hne head.lines_plain
    (body.take (HTTP_SCAN_CAP - head.bytes.length))
  rw [← htake] at hfind
  obtain ⟨headerEnd, hend, hlines⟩ := Option.map_eq_some_iff.mp hfind
  have hjoin : (head.bytes ++ body).take (headerEnd + 2) = joinLines head.lines := by
    rw [hlines, bytes, List.append_assoc, List.take_left]
  rw [httpParseHost_eq hsize hlen (head.looksLikeRequestLine_bytes body), hend]
  dsimp only
  rw [hjoin, headLines_join fun line hline => (head.lines_plain line hline).2]

theorem find_host : head.lines.find? startsWithHostHeader = (head.fields.find? Field.isHost).map Field.line := by
  obtain ⟨rest, heq, -⟩ := head.requestLine_eq
  have hnot : startsWithHostHeader head.requestLine = false := by
    obtain ⟨hlen, -, hstart⟩ := methods_facts _ head.supported
    rw [heq]
    exact not_host_of_start hlen hstart rest
  have hsame : startsWithHostHeader ∘ Field.line = Field.isHost := funext fun f => startsWithHostHeader_line
  rw [lines, List.find?_cons_of_neg (by simp [hnot]), List.find?_map, hsame]

-- The value as http_parse_host sees it: the spaces in front are gone.
theorem httpParseHost_fields (hcap : head.bytes.length ≤ HTTP_SCAN_CAP) (body : Bytes) {hostOutSize : Nat}
    (hsize : hostOutSize ≠ 0) :
    httpParseHost (head.bytes ++ body) hostOutSize =
      match head.fields.find? Field.isHost with
      | none => .error .unsupported
      | some f =>
          let value := (f.before ++ (f.value ++ f.after)).dropWhile (· == SPACE)
          if value.length = 0 ∨ value.length ≥ hostOutSize then .error .malformed else .ok value := by
  rw [head.httpParseHost_bytes hcap body hsize, hostOfLines, head.find_host]
  cases hfind : head.fields.find? Field.isHost with
  | none => rfl
  | some f =>
      rw [Option.map_some]
      dsimp only
      rw [hostValue_line (List.find?_some hfind)]

-- The first Host field is read right if nothing but spaces surrounds its value, and these
-- stand in front of it.
theorem httpParseHost_extracts_iff (hcap : head.bytes.length ≤ HTTP_SCAN_CAP) (body : Bytes)
    (hostOutSize : Nat) :
    ((∀ f, head.fields.find? Field.isHost = some f → 1 ≤ f.value.length →
        f.value.length < hostOutSize →
        httpParseHost (head.bytes ++ body) hostOutSize = .ok f.value) ∧
      (head.fields.find? Field.isHost = none →
        httpParseHost (head.bytes ++ body) hostOutSize = .error .unsupported)) ↔
    (∀ f, head.fields.find? Field.isHost = some f → 1 ≤ f.value.length →
        f.value.length < hostOutSize → (∀ c ∈ f.before, c = SPACE) ∧ f.after = []) ∧
      (head.fields.find? Field.isHost = none → hostOutSize ≠ 0) := by
  by_cases hsize : hostOutSize = 0
  · subst hsize
    have hguard : httpParseHost (head.bytes ++ body) 0 = .error .malformed := by
      rw [httpParseHost, if_pos rfl]
    rw [hguard]
    simp
  · have hparse := head.httpParseHost_fields hcap body hsize
    cases hfind : head.fields.find? Field.isHost with
    | none =>
        rw [hfind] at hparse
        simp [hparse, hsize]
    | some f =>
        rw [hfind] at hparse
        dsimp only at hparse
        simp only [Option.some.injEq, forall_eq', reduceCtorEq, false_implies, and_true]
        refine forall₂_congr fun hpos hlt => ?_
        rw [hparse, ← dropSpaces_eq_iff (List.length_pos_iff.mp hpos)]
        constructor
        · intro h
          split_ifs at h
          exact Except.ok.inj h
        · intro h
          rw [h, if_neg (by omega)]

end RequestHead

-- "Host: e.org" and what stands behind the value.
def hostField (after : Bytes) (hafter : ∀ c ∈ after, isBlank c = true) : Field where
  name := ascii ['H', 'o', 's', 't']
  before := [SPACE]
  value := ascii ['e', '.', 'o', 'r', 'g']
  after := after
  token := by simp [ascii, isTchar]
  blank_before := by simp [isBlank]
  blank_after := hafter
  no_blank_first := by simp [ascii, isBlank, SPACE, HTAB]
  no_blank_last := by simp [ascii, isBlank, SPACE, HTAB]
  one_line := by simp [ascii, CR]

theorem blank_nil : ∀ c ∈ ([] : Bytes), isBlank c = true := by simp

theorem cr_notMem_root : CR ∉ ascii ['/'] := by simp [ascii, CR]

def getRequest (fields : List Field) : RequestHead where
  method := ascii ['G', 'E', 'T', ' ']
  target := ascii ['/']
  fields := fields
  supported := by simp [methods]
  one_line := cr_notMem_root

theorem httpParseHost_extracts_plain :
    let head := getRequest [hostField [] blank_nil]
    head.bytes.length ≤ HTTP_SCAN_CAP ∧
      httpParseHost (head.bytes ++ []) 256 = .ok (ascii ['e', '.', 'o', 'r', 'g']) := by
  intro head
  have hcap : head.bytes.length ≤ HTTP_SCAN_CAP := by decide +kernel
  have hfind : head.fields.find? Field.isHost = some (hostField [] blank_nil) := rfl
  refine ⟨hcap, ((head.httpParseHost_extracts_iff hcap [] 256).mpr ⟨?_, ?_⟩).1 _ hfind (by simp [hostField, ascii])
    (by simp [hostField, ascii])⟩
  · intro f hf _ _
    rw [hfind, Option.some_inj] at hf
    subst hf
    exact ⟨by simp [hostField], rfl⟩
  · intro hnone
    rw [hfind] at hnone
    cases hnone

-- "Host: e.org " keeps the space at the end.
theorem padded_host_kept :
    ¬ ∀ (head : RequestHead) (body : Bytes) (hostOutSize : Nat), head.bytes.length ≤ HTTP_SCAN_CAP →
      (∀ f, head.fields.find? Field.isHost = some f → 1 ≤ f.value.length →
        f.value.length < hostOutSize →
        httpParseHost (head.bytes ++ body) hostOutSize = .ok f.value) ∧
      (head.fields.find? Field.isHost = none →
        httpParseHost (head.bytes ++ body) hostOutSize = .error .unsupported) := by
  intro h
  let field := hostField [SPACE] (by simp [isBlank])
  have hfind : (getRequest [field]).fields.find? Field.isHost = some field := rfl
  have hcap : (getRequest [field]).bytes.length ≤ HTTP_SCAN_CAP := by decide +kernel
  have hstripped := (h (getRequest [field]) [] 256 hcap).1 field hfind (by simp [field, hostField, ascii])
    (by simp [field, hostField, ascii])
  rw [RequestHead.httpParseHost_fields _ hcap [] (by simp), hfind] at hstripped
  simp [field, hostField, ascii, SPACE] at hstripped

end DpiProxy.Http
