import DpiProxy.Dns.Doh

namespace DpiProxy.Dns.Doh

open Wire CText Http

variable {name line rest : Bytes}

-- A field line with the name, in any case, and its colon.
def Named (name line : Bytes) : Prop := ieq (line.take name.length) name = true ∧ byte line name.length = COLON

theorem Named.lt_length (h : Named name line) : name.length < line.length := by
  by_contra hge
  have hcolon := h.2
  rw [byte, List.getD_eq_getElem?_getD, List.getElem?_eq_none (by omega), Option.getD_none] at hcolon
  cases hcolon

-- The first line of a head with its field lines, up to the blank line.
def headText (first : Bytes) (lines : List Bytes) : Bytes := first ++ lines.flatMap (CRLF ++ ·)

theorem headText_starts (lines : List Bytes) :
    lines.flatMap (CRLF ++ ·) = [] ∨ ∃ more, lines.flatMap (CRLF ++ ·) = CR :: more := by
  cases lines with
  | nil => exact .inl rfl
  | cons line lines => exact .inr ⟨_, rfl⟩

-- The name is looked for in its own line only.
theorem named_append (hname : CR ∉ name) (hrest : rest = [] ∨ ∃ more, rest = CR :: more) :
    Named name (line ++ rest) ↔ Named name line := by
  unfold Named
  by_cases hlen : name.length < line.length
  · rw [List.take_append_of_le_length (by omega), byte_append, if_pos hlen]
  · have hshort : ¬ Named name line := fun h => hlen h.lt_length
    refine iff_of_false ?_ hshort
    rintro ⟨htake, hcolon⟩
    rcases hrest with rfl | ⟨more, rfl⟩
    · rw [List.append_nil] at htake hcolon
      exact hshort ⟨htake, hcolon⟩
    · rcases Nat.lt_or_eq_of_le (Nat.le_of_not_lt hlen) with hlt | heq
      · rw [ieq_iff] at htake
        have hmem : CR ∈ ((line ++ CR :: more).take name.length).map tolower := by
          refine List.mem_map.mpr ⟨CR, ?_, rfl⟩
          rw [List.take_append]
          refine List.mem_append_right _ ?_
          obtain ⟨k, hk⟩ : ∃ k, name.length - line.length = k + 1 := ⟨name.length - line.length - 1, by omega⟩
          rw [hk, List.take_succ_cons]
          exact List.mem_cons_self
        rw [htake] at hmem
        obtain ⟨c, hc, hcr⟩ := List.mem_map.mp hmem
        rw [(tolower_eq_iff c (by decide)).mp hcr] at hc
        exact hname hc
      · rw [byte_append, if_neg (by omega), ← heq, Nat.sub_self] at hcolon
        cases hcolon

theorem headerValue_noLf (hline : LF ∉ line) : headerValue name (line ++ rest) = headerValue name rest := by
  induction line with
  | nil => rfl
  | cons c line ih =>
      rw [List.mem_cons, not_or] at hline
      rw [List.cons_append, headerValue, if_neg fun h => hline.1 h.1.symm]
      exact ih hline.2

theorem headerValue_line (hline : LF ∉ line) (hno : ¬ Named name (line ++ rest)) :
    headerValue name (CRLF ++ (line ++ rest)) = headerValue name rest := by
  have hcr : CR ≠ LF := by decide
  rw [CRLF, List.cons_append, List.singleton_append, headerValue, if_neg fun h => hcr h.1, headerValue,
    if_neg fun h => hno h.2]
  exact headerValue_noLf hline

theorem headerValue_named (hnamed : Named name (line ++ rest)) (hlen : name.length < line.length) :
    headerValue name (CRLF ++ (line ++ rest)) = strtol (line.drop (name.length + 1) ++ rest) := by
  have hcr : CR ≠ LF := by decide
  rw [CRLF, List.cons_append, List.singleton_append, headerValue, if_neg fun h => hcr h.1, headerValue,
    if_pos ⟨rfl, hnamed⟩, List.drop_append_of_le_length hlen]

-- The value is that of the first field with the name.
theorem headerValue_headText (hname : CR ∉ name) {first : Bytes} (hfirst : LF ∉ first) {before : List Bytes}
    (hbefore : ∀ l ∈ before, LF ∉ l ∧ ¬ Named name l) (hline : Named name line) (after : List Bytes) :
    headerValue name (headText first (before ++ line :: after)) =
      strtol (line.drop (name.length + 1) ++ after.flatMap (CRLF ++ ·)) := by
  rw [headText, headerValue_noLf hfirst]
  induction before with
  | nil =>
      rw [List.nil_append, List.flatMap_cons, List.append_assoc]
      refine headerValue_named ?_ hline.lt_length
      exact (named_append hname (headText_starts after)).mpr hline
  | cons l before ih =>
      obtain ⟨hlf, hno⟩ := hbefore l List.mem_cons_self
      rw [List.cons_append, List.flatMap_cons, List.append_assoc, headerValue_line hlf]
      · exact ih fun l' hl' => hbefore l' (List.mem_cons_of_mem _ hl')
      · rwa [named_append hname (headText_starts _)]

-- A field "Content-Length: n", in any case and with any blanks around the number.
theorem headerValue_contentLength {n : Nat} (hmax : (n : Int) ≤ LLONG_MAX) {first : Bytes} (hfirst : LF ∉ first)
    {before : List Bytes} (hbefore : ∀ l ∈ before, LF ∉ l ∧ ¬ Named contentLength l) {key blanks trailing : Bytes}
    (hkey : key.map tolower = contentLength.map tolower) (hblanks : ∀ c ∈ blanks, isspace c = true)
    (htrailing : ∀ c ∈ trailing, isspace c = true) (after : List Bytes) :
    headerValue contentLength (headText first
      (before ++ (key ++ COLON :: (blanks ++ (printNat n ++ trailing))) :: after)) = n := by
  have hlen : contentLength.length = key.length := by
    have hlen := congrArg List.length hkey
    rw [List.length_map, List.length_map] at hlen
    exact hlen.symm
  have hnamed : Named contentLength (key ++ COLON :: (blanks ++ (printNat n ++ trailing))) := by
    constructor
    · rw [hlen, List.take_left, ieq_iff]
      exact hkey
    · rw [hlen, byte_append, if_neg (Nat.lt_irrefl _), Nat.sub_self]
      rfl
  have hcr : CR ∉ contentLength := by simp [contentLength, ascii, CR]
  have hstops : Stops (isDigit 10) (trailing ++ after.flatMap (CRLF ++ ·)) := by
    intro c hc
    have hspace : isspace c = true := by
      cases trailing with
      | nil =>
          rcases headText_starts after with hnil | ⟨more, hmore⟩
          · rw [hnil] at hc
            cases hc
          · rw [hmore] at hc
            obtain rfl := Option.some.inj hc
            rfl
      | cons c' trailing =>
          obtain rfl := Option.some.inj hc
          exact htrailing _ List.mem_cons_self
    rw [← Bool.not_eq_true]
    intro hdigit
    have hhex : isDigit 16 c = true := by
      rw [isDigit, decide_eq_true_eq] at hdigit ⊢
      omega
    rw [(digit_plain c hhex).1] at hspace
    cases hspace
  have hread := scanLong_print (v := n) (by unfold LLONG_MIN; omega) hmax hstops
  have hprint : printInt n = printNat n := by
    rw [printInt, if_neg (by omega), Int.natAbs_natCast]
  have hdrop : (key ++ COLON :: (blanks ++ (printNat n ++ trailing))).drop (contentLength.length + 1) =
      blanks ++ (printNat n ++ trailing) := by
    rw [hlen, List.drop_length_add_append]
    rfl
  rw [headerValue_headText hcr hfirst hbefore hnamed, hdrop, List.append_assoc, List.append_assoc, strtol,
    scanLong_blanks hblanks, ← hprint, hread]
  rfl

end DpiProxy.Dns.Doh
