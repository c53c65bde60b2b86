import DpiProxy.Transparent.Decisions

namespace DpiProxy.Transparent

open Wire CText

def strategyName : Strategy → Bytes
  | .pass => ascii ['p', 'a', 's', 's']
  | .split => ascii ['s', 'p', 'l', 'i', 't']
  | .disorder => ascii ['d', 'i', 's', 'o', 'r', 'd', 'e', 'r']
  | .fake => ascii ['f', 'a', 'k', 'e']
  | .fragment => ascii ['f', 'r', 'a', 'g', 'm', 'e', 'n', 't']
  | .tlsrec => ascii ['t', 'l', 's', 'r', 'e', 'c']
  | .tlsrecSplit => ascii ['t', 'l', 's', 'r', 'e', 'c', '-', 's', 'p', 'l', 'i', 't']

def strategyFromName (name : Bytes) : Option Strategy :=
  [Strategy.pass, .split, .disorder, .fake, .fragment, .tlsrec, .tlsrecSplit].find? fun s =>
    ieq name (strategyName s)

def tpTargetName : TpTarget → Bytes
  | .original => ascii ['o', 'r', 'i', 'g', 'i', 'n', 'a', 'l']
  | .trusted => ascii ['t', 'r', 'u', 's', 't', 'e', 'd']

-- The six fields of a line; none when sscanf does not convert all of them.
def scanLine (line : Bytes) : Option (Bytes × UInt64 × Int32 × Bytes × Bytes × Int64) := do
  let (host, line) ← scanString 255 line
  let (fp, line) ← scanHex line
  let (family, line) ← scanInt32 line
  let (strat, line) ← scanString 31 line
  let (target, line) ← scanString 31 line
  let (validated, _) ← scanInt64 line
  some (host, fp, family, strat, target, validated)

-- What parse_line takes from a line; none is every return of -1.
def lineEntry (line : Bytes) : Option TpDecision := do
  let (host, fp, family, strat, target, validated) ← scanLine line
  guard ((family = 4 ∨ family = 6) ∧ fp ≠ NETFP_UNKNOWN)
  let strategy ← strategyFromName strat
  guard (strategy = .pass ∨ strategy = .tlsrec ∨ strategy = .tlsrecSplit)
  let target ← [TpTarget.original, .trusted].find? fun t => target = tpTargetName t
  guard ¬(target = .original ∧ strategy = .pass)
  some ⟨host, fp, family, ⟨target, strategy⟩, validated⟩

def parseLine (d : TpDecisions) (line : Bytes) : Option TpDecisions :=
  match lineEntry line with
  | none => none
  | some e => some (putEntry d e.host e.fingerprint e.family e.step e.validatedAt)

def LF : UInt8 := 10

-- The lines of a text; a text that ends in a line feed has no line after it.
def textLines (text : Bytes) : List Bytes :=
  if text = [] then []
  else
    let line := text.takeWhile (· ≠ LF)
    line :: textLines (text.drop (line.length + 1))
termination_by text.length
decreasing_by
  rw [List.length_drop]
  have := List.length_pos_iff.mpr ‹text ≠ []›
  omega

theorem textLines_line {line : Bytes} (hline : ∀ c ∈ line, c ≠ LF) (rest : Bytes) :
    textLines (line ++ LF :: rest) = line :: textLines rest := by
  have htake : (line ++ LF :: rest).takeWhile (· ≠ LF) = line := by
    apply takeWhile_stops fun c hc => decide_eq_true (hline c hc)
    intro c hc
    rw [← Option.some.inj hc]
    rfl
  rw [textLines, if_neg (List.append_ne_nil_of_right_ne_nil _ (List.cons_ne_nil _ _)), htake]
  dsimp only
  rw [List.drop_append, List.drop_of_length_le (Nat.le_succ _)]
  simp

theorem textLines_last {line : Bytes} (hline : ∀ c ∈ line, c ≠ LF) (hne : line ≠ []) :
    textLines line = [line] := by
  have htake : line.takeWhile (· ≠ LF) = line := by
    rw [List.takeWhile_eq_self_iff]
    exact fun c hc => decide_eq_true (hline c hc)
  rw [textLines, if_neg hne, htake]
  dsimp only
  rw [List.drop_of_length_le (Nat.le_succ _), textLines, if_pos rfl]

-- A text that ends with a line keeps its lines when more text follows.
theorem textLines_append {front : Bytes} (hfront : front = [] ∨ front.getLast? = some LF) (rest : Bytes) :
    textLines (front ++ rest) = textLines front ++ textLines rest := by
  induction hn : front.length using Nat.strongRecOn generalizing front with
  | ind n ih =>
      rcases hfront with rfl | hlast
      · rw [textLines.eq_1 [], if_pos rfl]
        rfl
      · obtain ⟨line, back, rfl, hnew⟩ := List.eq_append_cons_of_mem (List.mem_of_getLast? hlast)
        have hline : ∀ c ∈ line, c ≠ LF := fun c hc heq => hnew (heq ▸ hc)
        have hback : back = [] ∨ back.getLast? = some LF := by
          cases back with
          | nil => exact .inl rfl
          | cons c back =>
              right
              rwa [List.getLast?_append_cons, List.getLast?_cons_cons] at hlast
        rw [List.append_assoc, List.cons_append, textLines_line hline, textLines_line hline,
          ih back.length (by rw [← hn, List.length_append, List.length_cons]; omega) hback rfl, List.cons_append]

def isBlank (c : UInt8) : Bool := c == 32 || c == 9 || c == 13

-- sizeof(line) in tp_decisions_parse.
def LINE_SIZE : Nat := 512

-- A line as the loop of tp_decisions_parse sees it: cut to the buffer, ended by a NUL,
-- without leading blanks.
def lineText (line : Bytes) : Bytes := (cstr (line.take (LINE_SIZE - 1))).dropWhile isBlank

-- One turn of the loop: the store and whether the line was skipped.
def parseOne (d : TpDecisions) (line : Bytes) : TpDecisions × Bool :=
  if (lineText line).headD 0 = 0 ∨ (lineText line).headD 0 = 35 then (d, false)
  else
    match parseLine d (lineText line) with
    | some d => (d, false)
    | none => (d, true)

-- The store and the lines skipped so far.
def parseTurn (acc : TpDecisions × Nat) (line : Bytes) : TpDecisions × Nat :=
  ((parseOne acc.1 line).1, if (parseOne acc.1 line).2 then acc.2 + 1 else acc.2)

def parseLines (d : TpDecisions) (lines : List Bytes) : TpDecisions × Nat :=
  lines.foldl parseTurn (d, 0)

def tpDecisionsParse (d : TpDecisions) (text : Bytes) : TpDecisions × Nat :=
  let parsed := parseLines d (textLines text)
  ({ parsed.1 with dirty := false }, parsed.2)

def fileHeader : Bytes :=
  ascii ['#', ' ', 'd', 'p', 'i', '-', 'p', 'r', 'o', 'x', 'y', 'd', ' ', 'd', 'e', 'c', 'i',
    's', 'i', 'o', 'n', 's', ':', ' ', 'h', 'o', 's', 't', ' ', 'f', 'i', 'n', 'g', 'e', 'r', 'p',
    'r', 'i', 'n', 't', ' ', 'f', 'a', 'm', 'i', 'l', 'y', ' ', 's', 't', 'r', 'a', 't', 'e', 'g',
    'y', ' ', 't', 'a', 'r', 'g', 'e', 't', ' ', 'v', 'a', 'l', 'i', 'd', 'a', 't', 'e', 'd', '_',
    'a', 't'] ++ [LF]

def entryLine (e : TpDecision) : Bytes :=
  e.host ++ 32 :: (printHex16 e.fingerprint ++ 32 :: (printInt e.family.toInt ++ 32 ::
    (strategyName e.step.strategy ++ 32 :: (tpTargetName e.step.target ++ 32 ::
      (printInt e.validatedAt.toInt ++ [LF])))))

-- The loop over the entries; `out` is what has been written. A line needs room for
-- its NUL.
def serializeEntries (outSize : Nat) (out : Bytes) : List TpDecision → Option Bytes
  | [] => some out
  | e :: entries =>
      if (entryLine e).length ≥ outSize - out.length then none
      else serializeEntries outSize (out ++ entryLine e) entries

-- none is the return value 0.
def tpDecisionsSerialize (d : TpDecisions) (outSize : Nat) : Option Bytes :=
  if fileHeader.length ≥ outSize then none else serializeEntries outSize fileHeader d.entries

-- The buffer of save_decisions.
def saveSize (d : TpDecisions) : Nat := 128 + d.entries.length * (STRATEGY_DOMAIN_MAX + 96)

end DpiProxy.Transparent
