import DpiProxy.Dns.Doh.Fields
import DpiProxy.Wire.Chunks

namespace DpiProxy.Dns.Doh

open Wire CText Http

section Reads

variable {chunks : List Bytes}

-- A read takes some bytes off the front of the stream.
theorem tlscRead_stream {want : Nat} (hwant : 0 < want) (hne : ∀ chunk ∈ chunks, chunk ≠ [])
    (hmore : chunks.flatten ≠ []) : ∃ data rest, tlscRead want chunks = some (data, rest) ∧
      data.length ≤ want ∧ data ++ rest.flatten = chunks.flatten ∧ ∀ chunk ∈ rest, chunk ≠ [] := by
  cases chunks with
  | nil => exact absurd rfl hmore
  | cons chunk chunks =>
      have hchunk := hne chunk List.mem_cons_self
      have hrest : ∀ c ∈ chunks, c ≠ [] := fun c hc => hne c (List.mem_cons_of_mem _ hc)
      have hsome : ¬ (chunk = [] ∨ want = 0) := by
        rintro (hnil | hzero)
        · exact hchunk hnil
        · omega
      rw [tlscRead, if_neg hsome]
      by_cases hfits : chunk.length ≤ want
      · rw [if_pos hfits]
        exact ⟨chunk, chunks, rfl, hfits, rfl, hrest⟩
      · rw [if_neg hfits]
        refine ⟨_, _, rfl, by rw [List.length_take]; omega, ?_, ?_⟩
        · rw [List.flatten_cons, List.flatten_cons, ← List.append_assoc, List.take_append_drop]
        · intro c hc
          rcases List.mem_cons.mp hc with rfl | hc
          · rw [Ne, List.drop_eq_nil_iff]
            exact hfits
          · exact hrest c hc

theorem more_of_lt {seen whole : Bytes} (hstream : seen ++ chunks.flatten = whole)
    (hlt : seen.length < whole.length) : chunks.flatten ≠ [] := by
  intro hnil
  rw [hnil, List.append_nil] at hstream
  rw [hstream] at hlt
  exact absurd hlt (Nat.lt_irrefl _)

theorem readHead_step {head data : Bytes} {rest : List Bytes} (hlt : head.length < DOH_HTTP_MAX)
    (hread : tlscRead (DOH_HTTP_MAX - head.length) chunks = some (data, rest)) :
    readHead chunks head =
      match Search.find blankLine (cstr (head ++ data)) with
      | some headEnd => some (headEnd, head ++ data, rest)
      | none => readHead rest (head ++ data) := by
  rw [readHead, if_neg (by omega)]
  split
  · rename_i hnone
    rw [hread] at hnone
    cases hnone
  · rename_i hsome
    obtain ⟨rfl, rfl⟩ := Prod.mk.inj (Option.some.inj (hread.symm.trans hsome))
    rfl

section Body

variable {bodyLen : Nat} {reply data : Bytes} {rest : List Bytes}

theorem readBody_step (hlt : reply.length < bodyLen)
    (hread : tlscRead (bodyLen - reply.length) chunks = some (data, rest)) :
    readBody bodyLen chunks reply = readBody bodyLen rest (reply ++ data) := by
  rw [readBody, if_pos hlt]
  split
  · rename_i hnone
    rw [hread] at hnone
    cases hnone
  · rename_i hsome
    obtain ⟨rfl, rfl⟩ := Prod.mk.inj (Option.some.inj (hread.symm.trans hsome))
    rfl

theorem readBody_none (hlt : reply.length < bodyLen) (hread : tlscRead (bodyLen - reply.length) chunks = none) :
    readBody bodyLen chunks reply = none := by
  rw [readBody, if_pos hlt]
  split
  · rfl
  · rename_i hsome
    rw [hread] at hsome
    cases hsome

-- The body loop ends as soon as it has the body, and it does not end before.
theorem readBody_stream {body : Bytes} (hne : ∀ chunk ∈ chunks, chunk ≠ [])
    (hstream : reply ++ chunks.flatten <+: body) :
    readBody body.length chunks reply = if reply ++ chunks.flatten = body then some (body, []) else none := by
  induction hn : body.length - reply.length using Nat.strong_induction_on generalizing chunks reply with
  | _ n ih =>
      have hle := hstream.length_le
      rw [List.length_append] at hle
      by_cases hlt : reply.length < body.length
      · by_cases hmore : chunks.flatten = []
        · have hchunks := Chunks.nil_of_flatten hne hmore
          have hpart : reply ++ chunks.flatten ≠ body := by
            rintro rfl
            rw [hmore, List.append_nil] at hlt
            exact absurd hlt (Nat.lt_irrefl _)
          rw [if_neg hpart]
          exact readBody_none hlt (by rw [hchunks]; rfl)
        · obtain ⟨data, rest, hread, -, hparts, hrest⟩ := tlscRead_stream (Nat.sub_pos_of_lt hlt) hne hmore
          have hpos := tlscRead_length hread
          have hsame : reply ++ data ++ rest.flatten = reply ++ chunks.flatten := by rw [List.append_assoc, hparts]
          rw [readBody_step hlt hread, ← hsame]
          refine ih _ ?_ hrest (by rwa [hsame]) rfl
          rw [List.length_append]
          omega
      · have hnil : chunks.flatten = [] := List.length_eq_zero_iff.mp (by omega)
        rw [hnil, List.append_nil] at hstream
        have hall : reply = body := hstream.eq_of_length_le (by omega)
        rw [readBody, if_neg hlt, hnil, List.append_nil, if_pos hall, Chunks.nil_of_flatten hne hnil, hall]

end Body

end Reads

section Head

variable {text : Bytes} (hnul : (0 : UInt8) ∉ text)
  (hfirst : Search.find blankLine (text ++ blankLine) = some text.length)

include hnul hfirst

-- strstr finds the blank line as soon as all of it is there, and nothing before.
theorem find_head {head tail body : Bytes} (h : head ++ tail = text ++ blankLine ++ body) :
    Search.find blankLine (cstr head) =
      if (text ++ blankLine).length ≤ head.length then some text.length else none := by
  have hblank : (0 : UInt8) ∉ blankLine := by decide
  have hblock : (0 : UInt8) ∉ text ++ blankLine := by
    rw [List.mem_append, not_or]
    exact ⟨hnul, hblank⟩
  have hne : blankLine ≠ [] := by simp [blankLine]
  have hhead : head <+: text ++ blankLine ++ body := ⟨tail, h⟩
  by_cases hall : (text ++ blankLine).length ≤ head.length
  · obtain ⟨part, rfl⟩ := List.prefix_of_prefix_length_le (List.prefix_append _ body) hhead hall
    rw [if_pos hall, cstr_append hblock, Search.find_append hne hfirst]
  · obtain ⟨part, hpart⟩ := List.prefix_of_prefix_length_le hhead (List.prefix_append _ body) (by omega)
    have hclean : (0 : UInt8) ∉ head := by
      intro hmem
      exact hblock (hpart ▸ List.mem_append_left part hmem)
    rw [if_neg hall, cstr_eq_self hclean]
    cases hfind : Search.find blankLine head with
    | none => rfl
    | some i =>
        have hlen := Search.find_length hne hfind
        have hsame : Search.find blankLine (head ++ part) = some i := Search.find_append hne hfind
        rw [hpart, hfirst, Option.some_inj] at hsame
        rw [List.length_append] at hall
        omega

theorem readHead_stream {body : Bytes} (hmax : (text ++ blankLine).length ≤ DOH_HTTP_MAX)
    {chunks : List Bytes} {head : Bytes} (hne : ∀ chunk ∈ chunks, chunk ≠ [])
    (hstream : head ++ chunks.flatten = text ++ blankLine ++ body)
    (hshort : head.length < (text ++ blankLine).length) :
    ∃ part rest, readHead chunks head = some (text.length, text ++ blankLine ++ part, rest) ∧
      part ++ rest.flatten = body ∧ ∀ chunk ∈ rest, chunk ≠ [] := by
  induction hn : (text ++ blankLine).length - head.length using Nat.strong_induction_on
    generalizing chunks head with
  | _ n ih =>
      have hlt : head.length < DOH_HTTP_MAX := by omega
      have hmore : chunks.flatten ≠ [] := by
        apply more_of_lt hstream
        rw [List.length_append]
        omega
      obtain ⟨data, rest, hread, -, hparts, hrest⟩ := tlscRead_stream (Nat.sub_pos_of_lt hlt) hne hmore
      have hpos := tlscRead_length hread
      have hnext : (head ++ data) ++ rest.flatten = text ++ blankLine ++ body := by
        rw [List.append_assoc, hparts, hstream]
      rw [readHead_step hlt hread, find_head hnul hfirst hnext]
      by_cases hall : (text ++ blankLine).length ≤ (head ++ data).length
      · obtain ⟨part, hpart⟩ := List.prefix_of_prefix_length_le (List.prefix_append _ body) ⟨_, hnext⟩ hall
        rw [if_pos hall]
        refine ⟨part, rest, by rw [hpart], ?_, hrest⟩
        rw [← hpart, List.append_assoc (text ++ blankLine)] at hnext
        exact List.append_cancel_left hnext
      · have hgrow : (head ++ data).length = head.length + data.length := List.length_append
        rw [if_neg hall]
        exact ih _ (by omega) hrest hnext (by omega) rfl

end Head

section Request

variable {text : Bytes}

-- A text with the header line is longer than the nine bytes that strtol skips.
theorem headerValue_length {name : Bytes} (h : 0 ≤ headerValue name text) : name.length + 2 ≤ text.length := by
  induction text with
  | nil => exact absurd h (by simp [headerValue])
  | cons c p ih =>
      rw [headerValue] at h
      split_ifs at h with hline
      · obtain ⟨-, hname, hcolon⟩ := hline
        have hlt : name.length < p.length := Named.lt_length ⟨hname, hcolon⟩
        rw [List.length_cons]
        omega
      · have hrest := ih h
        rw [List.length_cons]
        omega

-- The status and the header values depend on the text in front of the blank line only.
theorem head_text (hnul : (0 : UInt8) ∉ text) (part : Bytes) :
    cstr ((text ++ blankLine ++ part).set text.length 0) = text := by
  rw [List.append_assoc, List.set_append_right _ _ (by omega), Nat.sub_self]
  rw [cstr_append hnul]
  simp [blankLine, cstr]

theorem responseStatus_text (hnul : (0 : UInt8) ∉ text) (hlen : 9 ≤ text.length) (part : Bytes) :
    responseStatus ((text ++ blankLine ++ part).set text.length 0) =
      if text.take 7 = httpVersion then strtol (text.drop 9) else 0 := by
  have hrest : (0 : UInt8) ∉ text.drop 9 := fun hmem => hnul (List.mem_of_mem_drop hmem)
  rw [responseStatus, head_text hnul, List.append_assoc, List.set_append_right _ _ (by omega), Nat.sub_self,
    List.drop_append_of_le_length hlen, cstr_append hrest]
  simp [blankLine, cstr]

end Request

-- The request is sent or not whatever is read later; the rest is decided by the text of
-- the head and the length of the body, and all of it is taken.
theorem dohExchange_stream {text body : Bytes} (hnul : (0 : UInt8) ∉ text)
    (hfirst : Search.find blankLine (text ++ blankLine) = some text.length)
    (hmax : (text ++ blankLine).length ≤ DOH_HTTP_MAX) {replySize : Nat}
    (hlength : headerValue contentLength text = body.length) (hfits : body.length ≤ replySize)
    (tlscWrite : Bytes → Bool) (host query : Bytes) {chunks : List Bytes}
    (hne : ∀ chunk ∈ chunks, chunk ≠ []) (hstream : chunks.flatten = text ++ blankLine ++ body) :
    let request := requestHead host query.length
    let status := if text.take 7 = httpVersion then strtol (text.drop 9) else 0
    dohExchange tlscWrite chunks host query replySize =
      if request.length ≥ DOH_HTTP_MAX + 1 ∨ !tlscWrite request ∨ !tlscWrite query then (⟨-1, []⟩, [])
      else if status ≠ 200 ∨ (body.length : Int) < 12 then (⟨0, body⟩, []) else (⟨body.length, body⟩, []) := by
  intro request status
  have hshort : ([] : Bytes).length < (text ++ blankLine).length := by simp [blankLine]
  obtain ⟨part, rest, hhead, hparts, hrest⟩ := readHead_stream hnul hfirst hmax hne hstream hshort
  have hlen : 9 ≤ text.length := by
    have hname : contentLength.length = 14 := rfl
    have hlong : contentLength.length + 2 ≤ text.length := headerValue_length (by rw [hlength]; omega)
    omega
  have hstart : (text ++ blankLine ++ part).drop (text.length + 4) = part := by
    have hfour : text.length + 4 = (text ++ blankLine).length := by simp [blankLine]
    rw [hfour, List.drop_left]
  have hbody : readBody body.length rest part = some (body, []) := by
    rw [readBody_stream hrest (by rw [hparts]), if_pos hparts]
  have hpart : part.length ≤ body.length := by
    rw [← hparts, List.length_append]
    omega
  have hfitting : ¬ ((body.length : Int) < 0 ∨ body.length > replySize) := by omega
  simp only [dohExchange, hhead, head_text hnul, responseStatus_text hnul hlen, hlength, hstart,
    Int.toNat_natCast, if_neg hfitting, if_neg (not_lt.mpr hpart), hbody, gt_iff_lt]
  rfl

theorem dohRequest_chunk_independent {text body : Bytes} (hnul : (0 : UInt8) ∉ text)
    (hfirst : Search.find blankLine (text ++ blankLine) = some text.length)
    (hmax : (text ++ blankLine).length ≤ DOH_HTTP_MAX) {replySize : Nat}
    (hlength : headerValue contentLength text = body.length) (hfits : body.length ≤ replySize)
    (tlscWrite : Bytes → Bool) (host query : Bytes) {chunks : List Bytes}
    (hne : ∀ chunk ∈ chunks, chunk ≠ []) (hstream : chunks.flatten = text ++ blankLine ++ body) :
    let answered := dohRequest tlscWrite chunks host query replySize
    let request := requestHead host query.length
    let status := if text.take 7 = httpVersion then strtol (text.drop 9) else 0
    answered.value =
      (if request.length ≥ DOH_HTTP_MAX + 1 ∨ !tlscWrite request ∨ !tlscWrite query then (-1 : Int)
      else if status ≠ 200 ∨ body.length < 12 then 0 else body.length) ∧
    (0 < answered.value → answered.reply = body) := by
  intro answered request status
  have hexchange := dohExchange_stream hnul hfirst hmax hlength hfits tlscWrite host query hne hstream
  have hresult : answered =
      (if request.length ≥ DOH_HTTP_MAX + 1 ∨ !tlscWrite request ∨ !tlscWrite query then (⟨-1, []⟩, [])
      else if status ≠ 200 ∨ (body.length : Int) < 12 then (⟨0, body⟩, [])
      else (⟨body.length, body⟩, []) : Answered × List Bytes).1 :=
    congrArg Prod.fst hexchange
  rw [hresult]
  split_ifs <;> simp <;> omega

-- A response of 200 with twelve bytes, cut inside its blank line and inside its body.
def okText : Bytes :=
  httpVersion ++ ascii ['1', ' ', '2', '0', '0', ' ', 'O', 'K'] ++ CRLF ++ contentLength ++
    ascii [':', ' ', '1', '2']

theorem dohRequest_chunk_independent_cut :
    let body : Bytes := [0, 13, 10, 13, 10, 0, 1, 2, 3, 4, 5, 6]
    let chunks : List Bytes := [okText ++ [13, 10, 13], [10, 0, 13], [10, 13, 10, 0, 1, 2, 3, 4, 5, 6]]
    (∀ chunk ∈ chunks, chunk ≠ []) ∧ chunks.flatten = okText ++ blankLine ++ body ∧
      (dohRequest (fun _ => true) chunks [] [] 512).value = 12 ∧
      (dohRequest (fun _ => true) chunks [] [] 512).reply = body := by
  intro body chunks
  have hnul : (0 : UInt8) ∉ okText := by decide +kernel
  have hfirst : Search.find blankLine (okText ++ blankLine) = some okText.length := by decide +kernel
  have hmax : (okText ++ blankLine).length ≤ DOH_HTTP_MAX := by decide +kernel
  have htext : okText = headText (httpVersion ++ ascii ['1', ' ', '2', '0', '0', ' ', 'O', 'K'])
      ([] ++ (contentLength ++ COLON :: ([SPACE] ++ (printNat 12 ++ []))) :: []) := by decide +kernel
  have hlength : headerValue contentLength okText = (body.length : Int) := by
    rw [htext]
    exact headerValue_contentLength (by decide) (by decide +kernel) (by simp) rfl (by simp [isspace, SPACE])
      (by simp) []
  have hne : ∀ chunk ∈ chunks, chunk ≠ [] := by simp [chunks]
  have hstream : chunks.flatten = okText ++ blankLine ++ body := by simp [chunks, body, blankLine, CR, LF]
  obtain ⟨hvalue, hreply⟩ := dohRequest_chunk_independent hnul hfirst hmax hlength
    (show body.length ≤ 512 by simp [body]) (fun _ => true) [] [] hne hstream
  have htwelve : (dohRequest (fun _ => true) chunks [] [] 512).value = 12 := hvalue.trans (by decide +kernel)
  exact ⟨hne, hstream, htwelve, hreply (by rw [htwelve]; omega)⟩

end DpiProxy.Dns.Doh
