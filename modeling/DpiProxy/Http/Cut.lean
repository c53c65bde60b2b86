import DpiProxy.Http.Lemmas

namespace DpiProxy.Http

open Wire Packet

-- A method of more than the four bytes that http_parse_host waits for.
def LongMethod (s : Bytes) : Prop := ∃ m ∈ methods, 4 < m.length ∧ m <+: s

-- A complete head in which no line starts like a Host header.
def NoHostLine (s : Bytes) : Prop :=
  ∃ headerEnd, Search.find blankLine s = some headerEnd ∧
    ∀ line ∈ headLines (s.take (headerEnd + 2)), startsWithHostHeader line = false

theorem looksLikeRequestLine_iff (data : Bytes) :
    looksLikeRequestLine data = true ↔ ∃ m ∈ methods, m <+: data := by
  rw [looksLikeRequestLine, List.any_eq_true]
  refine exists_congr fun m => and_congr_right fun _ => ?_
  rw [Bool.and_eq_true, decide_eq_true_eq, beq_iff_eq, List.prefix_iff_eq_take]
  constructor
  · exact fun h => h.2.symm
  · intro h
    refine ⟨?_, h.symm⟩
    have hlen := congrArg List.length h
    rw [List.length_take] at hlen
    omega

theorem hostOfLines_unsupported_iff {hostOutSize : Nat} {lines : List Bytes} :
    hostOfLines hostOutSize lines = .error .unsupported ↔
      ∀ line ∈ lines, startsWithHostHeader line = false := by
  rw [hostOfLines]
  cases hfind : lines.find? startsWithHostHeader with
  | none => simpa using hfind
  | some line =>
      have hhost := List.find?_some hfind
      have hmem := List.mem_of_find?_eq_some hfind
      refine iff_of_false ?_ fun hall => ?_
      · dsimp only
        split <;> simp
      · rw [hall line hmem] at hhost
        cases hhost

section Prefix

variable {p s : Bytes} {hostOutSize : Nat}

theorem httpParseHost_short (hsize : hostOutSize ≠ 0) (h : p.length < 4) :
    httpParseHost p hostOutSize = .error .truncated := by
  rw [httpParseHost, if_neg hsize, if_pos h]

theorem httpParseHost_other (hsize : hostOutSize ≠ 0) (hlen : 4 ≤ p.length)
    (hline : looksLikeRequestLine p = false) : httpParseHost p hostOutSize = .error .unsupported := by
  rw [httpParseHost, if_neg hsize, if_neg (by omega), hline]
  rfl

-- Once the method is there, the blank line decides, and bytes behind it change nothing.
theorem httpParseHost_settled (hcap : s.length ≤ HTTP_SCAN_CAP) (hp : p <+: s) (hsize : hostOutSize ≠ 0)
    (hlen : 4 ≤ p.length) (hline : looksLikeRequestLine p = true)
    (hfinal : httpParseHost p hostOutSize ≠ .error .truncated) :
    httpParseHost s hostOutSize = httpParseHost p hostOutSize := by
  obtain ⟨rest, rfl⟩ := hp
  have hgrow := (List.prefix_append p rest)
  have hsline : looksLikeRequestLine (p ++ rest) = true := by
    obtain ⟨m, hm, hstart⟩ := (looksLikeRequestLine_iff p).mp hline
    exact (looksLikeRequestLine_iff _).mpr ⟨m, hm, hstart.trans hgrow⟩
  rw [List.length_append] at hcap
  have hpeq := httpParseHost_eq hsize hlen hline
  have hseq := httpParseHost_eq hsize (by rw [List.length_append]; omega) hsline
  rw [List.take_of_length_le (by omega)] at hpeq
  rw [List.take_of_length_le (by rw [List.length_append]; omega)] at hseq
  cases hfind : Search.find blankLine p with
  | none =>
      rw [hfind] at hpeq
      dsimp only at hpeq
      by_cases hfull : p.length ≥ HTTP_SCAN_CAP
      · have hnil : rest = [] := List.length_eq_zero_iff.mp (by omega)
        rw [hnil, List.append_nil]
      · rw [if_neg hfull] at hpeq
        exact absurd hpeq hfinal
  | some headerEnd =>
      have hne : blankLine ≠ [] := by simp [blankLine]
      have hfit := Search.find_length hne hfind
      rw [hfind] at hpeq
      rw [Search.find_append hne hfind] at hseq
      rw [hseq, hpeq]
      dsimp only
      rw [List.take_append_of_le_length (by simp [blankLine] at hfit; omega)]

theorem noHostLine_unsupported (hcap : s.length ≤ HTTP_SCAN_CAP) (hsize : hostOutSize ≠ 0)
    (h : NoHostLine s) : httpParseHost s hostOutSize = .error .unsupported := by
  obtain ⟨headerEnd, hfind, hlines⟩ := h
  have hlen := Search.find_length (by simp [blankLine]) hfind
  have hfour : 4 ≤ s.length := by
    simp [blankLine] at hlen
    omega
  cases hline : looksLikeRequestLine s with
  | false => exact httpParseHost_other hsize hfour hline
  | true =>
      rw [httpParseHost_eq hsize hfour hline, List.take_of_length_le hcap, hfind]
      exact hostOfLines_unsupported_iff.mpr hlines

-- Of a request only a complete one without a Host line is unsupported.
theorem noHostLine_of_unsupported (hcap : s.length ≤ HTTP_SCAN_CAP) (hsize : hostOutSize ≠ 0)
    (hlen : 4 ≤ s.length) (hline : looksLikeRequestLine s = true)
    (h : httpParseHost s hostOutSize = .error .unsupported) : NoHostLine s := by
  rw [httpParseHost_eq hsize hlen hline, List.take_of_length_le hcap] at h
  cases hfind : Search.find blankLine s with
  | none =>
      rw [hfind] at h
      dsimp only at h
      split_ifs at h <;> cases h
  | some headerEnd =>
      rw [hfind] at h
      exact ⟨headerEnd, hfind, hostOfLines_unsupported_iff.mp h⟩

-- No method begins another one.
theorem methods_apart : ∀ m ∈ methods, ∀ m' ∈ methods, m' <+: m → m' = m := by
  decide +kernel

-- Four bytes of a longer method are taken for something else.
theorem httpParseHost_cut (hsize : hostOutSize ≠ 0) (h : LongMethod s) :
    s.take 4 <+: s ∧ httpParseHost (s.take 4) hostOutSize = .error .unsupported ∧
      4 ≤ s.length ∧ looksLikeRequestLine s = true := by
  obtain ⟨m, hm, hlong, hstart⟩ := h
  have hlen := hstart.length_le
  refine ⟨List.take_prefix 4 s, httpParseHost_other hsize (by rw [List.length_take]; omega) ?_, by omega,
    (looksLikeRequestLine_iff s).mpr ⟨m, hm, hstart⟩⟩
  rw [← Bool.not_eq_true, looksLikeRequestLine_iff]
  rintro ⟨m', hm', hshort⟩
  have hshort' := hshort.length_le
  rw [List.length_take] at hshort'
  have heq := methods_apart m hm m' hm'
    (List.prefix_of_prefix_length_le (hshort.trans (List.take_prefix 4 s)) hstart (by omega))
  rw [heq] at hshort'
  omega

theorem httpParseHost_stable_iff (hcap : s.length ≤ HTTP_SCAN_CAP) :
    (∀ p, p <+: s → httpParseHost p hostOutSize ≠ .error .truncated →
      httpParseHost s hostOutSize = httpParseHost p hostOutSize) ↔
    hostOutSize = 0 ∨ ¬ LongMethod s ∨ NoHostLine s := by
  by_cases hsize : hostOutSize = 0
  · subst hsize
    have hguard : ∀ data, httpParseHost data 0 = .error .malformed := by
      intro data
      rw [httpParseHost, if_pos rfl]
    simp [hguard]
  · rw [or_iff_right hsize]
    constructor
    · intro hstable
      refine or_iff_not_imp_left.mpr fun hlong => ?_
      obtain ⟨hp, hcut, hlen, hline⟩ := httpParseHost_cut hsize (not_not.mp hlong)
      exact noHostLine_of_unsupported hcap hsize hlen hline ((hstable _ hp (by simp [hcut])).trans hcut)
    · intro hcond p hp hfinal
      have hlen : 4 ≤ p.length := by
        by_contra hshort
        exact hfinal (httpParseHost_short hsize (by omega))
      have hplen := hp.length_le
      cases hline : looksLikeRequestLine p with
      | true => exact httpParseHost_settled hcap hp hsize hlen hline hfinal
      | false =>
          rw [httpParseHost_other hsize hlen hline]
          rcases hcond with hshort | hnone
          · -- A method of four bytes would be in p already.
            apply httpParseHost_other hsize (by omega)
            rw [← Bool.not_eq_true, looksLikeRequestLine_iff] at hline ⊢
            rintro ⟨m, hm, hstart⟩
            by_cases hlong : 4 < m.length
            · exact hshort ⟨m, hm, hlong, hstart⟩
            · exact hline ⟨m, hm, List.prefix_of_prefix_length_le hstart hp (by omega)⟩
          · exact noHostLine_unsupported hcap hsize hnone

end Prefix

end DpiProxy.Http
