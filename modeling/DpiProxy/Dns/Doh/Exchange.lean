import DpiProxy.Dns.Doh.Theorems

namespace DpiProxy.Dns.Doh

open Wire CText Http

-- A response with a head that fits and a Content-Length that is right.
structure HttpResponse where
  text : Bytes
  body : Bytes
  clean : (0 : UInt8) ∉ text
  first : Search.find blankLine (text ++ blankLine) = some text.length
  fits : (text ++ blankLine).length ≤ DOH_HTTP_MAX
  length : headerValue contentLength text = body.length

namespace HttpResponse

variable (r : HttpResponse) {chunks : List Bytes}

def bytes : Bytes := r.text ++ blankLine ++ r.body

def status : Int := if r.text.take 7 = httpVersion then strtol (r.text.drop 9) else 0

def result : Answered := if r.status ≠ 200 ∨ (r.body.length : Int) < 12 then ⟨0, r.body⟩ else ⟨r.body.length, r.body⟩

theorem nine_le : 9 ≤ r.text.length := by
  have hname : contentLength.length = 14 := rfl
  have hlong : contentLength.length + 2 ≤ r.text.length := headerValue_length (by rw [r.length]; omega)
  omega

theorem readHead_short {head : Bytes} (hne : ∀ chunk ∈ chunks, chunk ≠ [])
    (hstream : head ++ chunks.flatten <+: r.bytes)
    (hshort : (head ++ chunks.flatten).length < (r.text ++ blankLine).length) : readHead chunks head = none := by
  have hmax := r.fits
  induction chunks generalizing head with
  | nil =>
      rw [List.flatten_nil, List.append_nil] at hshort
      rw [readHead, if_neg (by omega)]
      rfl
  | cons chunk chunks ih =>
      have hlong := hshort
      rw [List.flatten_cons, List.length_append, List.length_append] at hlong
      have hread : tlscRead (DOH_HTTP_MAX - head.length) (chunk :: chunks) = some (chunk, chunks) := by
        rw [tlscRead, if_neg, if_pos (by omega)]
        rintro (hnil | hzero)
        · exact hne chunk List.mem_cons_self hnil
        · omega
      rw [List.flatten_cons, ← List.append_assoc] at hstream hshort
      obtain ⟨tail, htail⟩ := hstream
      have hwhole : (head ++ chunk) ++ (chunks.flatten ++ tail) = r.text ++ blankLine ++ r.body := by
        rw [← List.append_assoc]
        exact htail
      rw [readHead_step (by omega) hread, find_head r.clean r.first hwhole, if_neg]
      · exact ih (fun c hc => hne c (List.mem_cons_of_mem _ hc)) ⟨tail, htail⟩ hshort
      · have hgrow : (head ++ chunk).length = head.length + chunk.length := List.length_append
        omega

-- Of a response that is there in part or whole, an exchange takes all or fails.
theorem dohExchange_prefix (hne : ∀ chunk ∈ chunks, chunk ≠ []) (hstream : chunks.flatten <+: r.bytes)
    (tlscWrite : Bytes → Bool) (host query : Bytes) (replySize : Nat) :
    (dohExchange tlscWrite chunks host query replySize).1.value = -1 ∨
      (chunks.flatten = r.bytes ∧ dohExchange tlscWrite chunks host query replySize = (r.result, [])) := by
  by_cases hshort : chunks.flatten.length < (r.text ++ blankLine).length
  · have hnone : readHead chunks [] = none := r.readHead_short hne hstream hshort
    refine .inl ?_
    simp only [dohExchange, hnone, ite_self]
  · obtain ⟨part, hpart⟩ := List.prefix_of_prefix_length_le (List.prefix_append _ _) hstream (not_lt.mp hshort)
    rw [← hpart, bytes, List.prefix_append_right_inj] at hstream
    obtain ⟨start, rest, hhead, hparts, hrest⟩ := readHead_stream r.clean r.first r.fits hne
      (show [] ++ chunks.flatten = r.text ++ blankLine ++ part from hpart.symm) (by simp [blankLine])
    have hstart : (r.text ++ blankLine ++ start).drop (r.text.length + 4) = start := by
      have hfour : r.text.length + 4 = (r.text ++ blankLine).length := by simp [blankLine]
      rw [hfour, List.drop_left]
    rw [← hparts] at hstream
    simp only [dohExchange, hhead, head_text r.clean, responseStatus_text r.clean r.nine_le, r.length, hstart,
      Int.toNat_natCast, readBody_stream hrest hstream]
    by_cases hall : start ++ rest.flatten = r.body
    · have hsame : chunks.flatten = r.bytes := by rw [← hpart, ← hparts, hall, bytes]
      simp only [hall, if_true]
      split
      · exact .inl rfl
      · split
        · exact .inl rfl
        · split
          · exact .inl rfl
          · refine .inr ⟨hsame, ?_⟩
            exact (apply_ite (fun a => (a, ([] : List Bytes))) _ _ _).symm
    · simp only [hall, if_false]
      refine .inl ?_
      split
      · rfl
      · split
        · rfl
        · split <;> rfl

-- It does not fail when the request goes out and the whole response comes and fits.
theorem dohExchange_whole (hne : ∀ chunk ∈ chunks, chunk ≠ []) (hstream : chunks.flatten = r.bytes)
    {tlscWrite : Bytes → Bool} (hwrite : ∀ bytes, tlscWrite bytes = true) {host query : Bytes} {replySize : Nat}
    (hhost : (requestHead host query.length).length ≤ DOH_HTTP_MAX) (hfits : r.body.length ≤ replySize) :
    dohExchange tlscWrite chunks host query replySize = (r.result, []) := by
  have hsent : ¬ ((requestHead host query.length).length ≥ DOH_HTTP_MAX + 1 ∨
      !tlscWrite (requestHead host query.length) ∨ !tlscWrite query) := by
    simp only [hwrite, Bool.not_true, Bool.false_eq_true, or_false]
    omega
  rw [dohExchange_stream r.clean r.first r.fits r.length hfits tlscWrite host query hne hstream, if_neg hsent]
  exact (apply_ite (fun a => (a, ([] : List Bytes))) _ _ _).symm

end HttpResponse

-- An answer for a query that ends in this byte.
def okBody (last : UInt8) : Bytes := [0, 13, 10, 13, 10, 0, 1, 2, 3, 4, 5, last]

def okResponse (last : UInt8) : HttpResponse where
  text := okText
  body := okBody last
  clean := by decide +kernel
  first := by decide +kernel
  fits := by decide +kernel
  length := by
    have htext : okText = headText (httpVersion ++ ascii ['1', ' ', '2', '0', '0', ' ', 'O', 'K'])
        ([] ++ (contentLength ++ COLON :: ([SPACE] ++ (printNat 12 ++ []))) :: []) := by decide +kernel
    rw [htext]
    exact headerValue_contentLength (by decide) (by decide +kernel) (by simp) rfl (by simp [isspace, SPACE])
      (by simp) []

theorem okResponse_result (last : UInt8) : (okResponse last).result = ⟨12, okBody last⟩ := by
  have hstatus : (okResponse last).status = 200 := by
    change (if okText.take 7 = httpVersion then strtol (okText.drop 9) else 0) = 200
    decide +kernel
  rw [HttpResponse.result, hstatus]
  rfl

end DpiProxy.Dns.Doh
