import DpiProxy.Http
import DpiProxy.Text.Search

namespace DpiProxy.Http

open Wire Packet

def CRLF : Bytes := [CR, LF]

-- The lines of a header block. What stands behind the last CRLF is no line.
def headLines : Bytes → List Bytes
  | [] => []
  | [_] => []
  | a :: b :: rest =>
      if a = CR ∧ b = LF then [] :: headLines rest
      else (headLines (b :: rest)).modifyHead (a :: ·)

-- What extract_host_line makes of the lines: the first one that starts like a Host header.
def hostValue (line : Bytes) : Bytes := (line.drop 5).dropWhile (· == SPACE)

def hostOfLines (hostOutSize : Nat) (lines : List Bytes) : Result Bytes :=
  match lines.find? startsWithHostHeader with
  | none => .error .unsupported
  | some line =>
      if (hostValue line).length = 0 ∨ (hostValue line).length ≥ hostOutSize then .error .malformed
      else .ok (hostValue line)

theorem headLines_short {b : Bytes} (h : b.length < 2) : headLines b = [] := by
  match b, h with
  | [], _ => rfl
  | [_], _ => rfl

theorem headLines_drop {b : Bytes} {i : Nat} (h : i + 1 < b.length) :
    headLines (b.drop i) =
      if byte b i = CR ∧ byte b (i + 1) = LF then [] :: headLines (b.drop (i + 2))
      else (headLines (b.drop (i + 1))).modifyHead (byte b i :: ·) := by
  have h₁ : b.drop i = byte b i :: b.drop (i + 1) := by
    rw [byte_eq_getElem b i (by omega), List.drop_eq_getElem_cons]
  have h₂ : b.drop (i + 1) = byte b (i + 1) :: b.drop (i + 2) := by
    rw [byte_eq_getElem b (i + 1) h, List.drop_eq_getElem_cons]
  rw [h₁, h₂, headLines]

theorem slice_succ {b : Bytes} {start i : Nat} (hi : i + 1 < b.length) (h : start ≤ i) :
    slice b start (i + 1 - start) = slice b start (i - start) ++ [byte b i] := by
  have hget : (b.drop start)[i - start]? = some (byte b i) := by
    rw [List.getElem?_drop, Nat.add_sub_of_le h, List.getElem?_eq_getElem (by omega),
      byte_eq_getElem b i (by omega)]
  rw [slice, slice, Nat.sub_add_comm h, List.take_add_one, hget]
  rfl

-- The loop with the part of the current line that it has passed.
theorem extractHostLine_eq (headers : Bytes) (hostOutSize lineStart i : Nat) (h : lineStart ≤ i) :
    extractHostLine headers hostOutSize lineStart i =
      hostOfLines hostOutSize
        ((headLines (headers.drop i)).modifyHead (slice headers lineStart (i - lineStart) ++ ·)) := by
  induction lineStart, i using extractHostLine.induct headers hostOutSize with
  | case1 lineStart i hi hcrlf line hhost value hsize =>
      rw [extractHostLine, if_pos hi, if_pos hcrlf, headLines_drop hi, if_pos hcrlf, List.modifyHead_cons,
        List.append_nil, hostOfLines, List.find?_cons_of_pos hhost]
      exact if_pos hhost
  | case2 lineStart i hi hcrlf line hhost value hsize =>
      rw [extractHostLine, if_pos hi, if_pos hcrlf, headLines_drop hi, if_pos hcrlf, List.modifyHead_cons,
        List.append_nil, hostOfLines, List.find?_cons_of_pos hhost]
      exact if_pos hhost
  | case3 lineStart i hi hcrlf line hhost ih =>
      rw [extractHostLine, if_pos hi, if_pos hcrlf, headLines_drop hi, if_pos hcrlf, List.modifyHead_cons,
        List.append_nil]
      refine (if_neg hhost).trans ((ih le_rfl).trans ?_)
      rw [hostOfLines, hostOfLines, List.find?_cons_of_neg hhost, Nat.sub_self]
      have hnone : (fun next : Bytes => slice headers (i + 2) 0 ++ next) = id := rfl
      rw [hnone, List.modifyHead_id, id]
  | case4 lineStart i hi hcrlf ih =>
      rw [extractHostLine, if_pos hi, if_neg hcrlf, headLines_drop hi, if_neg hcrlf, ih (by omega),
        List.modifyHead_modifyHead]
      congr 2
      funext rest
      rw [Function.comp_apply, slice_succ hi h, List.append_assoc, List.singleton_append]
  | case5 lineStart i hi =>
      rw [extractHostLine, if_neg hi, headLines_short (by rw [List.length_drop]; omega)]
      rfl

def blankLine : Bytes := [CR, LF, CR, LF]

theorem blankLine_prefix_iff {data : Bytes} {scanLen i : Nat} (hi : i + 4 ≤ scanLen) :
    blankLine <+: (data.take scanLen).drop i ↔ slice data i 4 = blankLine := by
  have hlen : blankLine.length = 4 := rfl
  rw [List.prefix_iff_eq_take, hlen, List.drop_take, List.take_take, Nat.min_eq_left (by omega), slice]
  exact eq_comm

theorem findHeaderEnd_eq {data : Bytes} {scanLen : Nat} (hscan : scanLen ≤ data.length) (i : Nat) :
    findHeaderEnd data scanLen i = (Search.find blankLine ((data.take scanLen).drop i)).map (· + i) := by
  induction i using findHeaderEnd.induct data scanLen with
  | case1 i hi hhere =>
      have hfind : Search.find blankLine ((data.take scanLen).drop i) = some 0 := by
        rw [Search.find_eq_some_iff (by simp [blankLine])]
        exact ⟨(blankLine_prefix_iff hi).mpr hhere, fun j hj => absurd hj (Nat.not_lt_zero j)⟩
      rw [findHeaderEnd, if_pos hi, if_pos hhere, hfind, Option.map_some, Nat.zero_add]
  | case2 i hi hhere ih =>
      have hcons : (data.take scanLen).drop i = byte data i :: (data.take scanLen).drop (i + 1) := by
        rw [List.drop_eq_getElem_cons (by rw [List.length_take]; omega), List.getElem_take,
          byte_eq_getElem data i (by omega)]
      have hnot : ¬ blankLine <+: byte data i :: (data.take scanLen).drop (i + 1) := by
        rw [← hcons]
        exact fun h => hhere ((blankLine_prefix_iff hi).mp h)
      rw [findHeaderEnd, if_pos hi, if_neg hhere, ih, hcons, Search.find, if_neg hnot, Option.map_map]
      congr 1
      funext n
      rw [Function.comp_apply]
      omega
  | case3 i hi =>
      rw [findHeaderEnd, if_neg hi]
      cases hfind : Search.find blankLine ((data.take scanLen).drop i) with
      | none => rfl
      | some e =>
          have hlen := Search.find_length (by simp [blankLine]) hfind
          simp only [List.length_drop, List.length_take, blankLine, List.length_cons, List.length_nil] at hlen
          omega

-- What http_parse_host makes of a request that is not longer than it scans.
theorem httpParseHost_eq {data : Bytes} {hostOutSize : Nat} (hsize : hostOutSize ≠ 0)
    (hlen : 4 ≤ data.length) (hline : looksLikeRequestLine data = true) :
    httpParseHost data hostOutSize =
      match Search.find blankLine (data.take HTTP_SCAN_CAP) with
      | none => if data.length ≥ HTTP_SCAN_CAP then .error .malformed else .error .truncated
      | some headerEnd => hostOfLines hostOutSize (headLines (data.take (headerEnd + 2))) := by
  have hscan : (if data.length > HTTP_SCAN_CAP then HTTP_SCAN_CAP else data.length) =
      min HTTP_SCAN_CAP data.length := by
    split <;> omega
  have htake : data.take (min HTTP_SCAN_CAP data.length) = data.take HTTP_SCAN_CAP := by
    rw [List.take_eq_take_iff]
    omega
  rw [httpParseHost, if_neg hsize, if_neg (by omega), hline, hscan]
  dsimp only [Bool.not_true]
  rw [if_neg (by simp), findHeaderEnd_eq (by omega), List.drop_zero, htake]
  cases Search.find blankLine (data.take HTTP_SCAN_CAP) with
  | none => rfl
  | some headerEnd =>
      have hwhole : (fun next : Bytes => slice (data.take (headerEnd + 2)) 0 0 ++ next) = id := rfl
      have hline := extractHostLine_eq (data.take (headerEnd + 2)) hostOutSize 0 0 le_rfl
      rw [Nat.sub_self, hwhole, List.modifyHead_id, id, List.drop_zero] at hline
      exact hline

end DpiProxy.Http
