import DpiProxy.MainPacket

namespace DpiProxy.MainPacket

open Wire CText

section Escape

-- How a character stands in a string literal.
def escapeOf (c : UInt8) : Bytes :=
  if c = QUOTE ∨ c = BACKSLASH then [BACKSLASH, c]
  else if c < 0x20 then unicodeEscape c
  else [c]

def escapes (text : Bytes) : Bytes := text.flatMap escapeOf

theorem length_unicodeEscape (c : UInt8) : (unicodeEscape c).length = 6 := rfl

theorem escapes_append (text more : Bytes) : escapes (text ++ more) = escapes text ++ escapes more :=
  List.flatMap_append

theorem escapes_singleton (c : UInt8) : escapes [c] = escapeOf c := List.append_nil _

theorem escapeOf_ne_nul (c : UInt8) : c ≠ 0 → (0 : UInt8) ∉ escapeOf c :=
  forall_byte (P := fun c => c ≠ 0 → (0 : UInt8) ∉ escapeOf c) (by decide +kernel) c

theorem escapes_ne_nul {text : Bytes} (h : (0 : UInt8) ∉ text) : (0 : UInt8) ∉ escapes text := by
  intro hmem
  obtain ⟨c, hc, hnul⟩ := List.mem_flatMap.mp hmem
  exact escapeOf_ne_nul c (fun he => h (he ▸ hc)) hnul

-- A character is read back from its escape.
theorem decode_escapeOf (c : UInt8) (rest : Bytes) :
    Json.decode (escapeOf c ++ rest) = (Json.decode rest).map (c :: ·) := by
  unfold escapeOf
  by_cases hquoted : c = QUOTE ∨ c = BACKSLASH
  · rw [if_pos hquoted]
    refine Json.decode_short ?_
    rw [Json.shortEscape, if_pos (by rcases hquoted with rfl | rfl <;> decide)]
  · rw [if_neg hquoted]
    by_cases hcontrol : c < 0x20
    · rw [if_pos hcontrol]
      exact Json.decode_control c hcontrol
    · rw [if_neg hcontrol]
      refine Json.decode_plain ?_
      rw [not_or] at hquoted
      exact decide_eq_true ⟨hquoted.1, hquoted.2, UInt8.not_lt.mp hcontrol⟩

theorem decode_escapes (text : Bytes) : Json.decode (escapes text) = some text := by
  induction text with
  | nil => rfl
  | cons c text ih =>
      have hcons : escapes (c :: text) = escapeOf c ++ escapes text := rfl
      rw [hcons, decode_escapeOf, ih]
      rfl

end Escape

section Buffer

theorem putAll_spec (text : Bytes) (o : Output) (i : Nat) (h : i + text.length ≤ o.out.length) :
    (o.putAll i text).out.length = o.out.length ∧
    (o.putAll i text).out.take (i + text.length) = o.out.take i ++ text ∧
    ∀ j ∈ (o.putAll i text).written, j ∈ o.written ∨ j < o.out.length := by
  induction text generalizing o i with
  | nil => exact ⟨rfl, by simp [Output.putAll], fun j hj => .inl hj⟩
  | cons c text ih =>
      rw [List.length_cons] at h
      have hlen : (o.put i c).out.length = o.out.length := List.length_set
      obtain ⟨hlength, hfront, hwritten⟩ := ih (o.put i c) (i + 1) (by omega)
      refine ⟨hlength.trans hlen, ?_, fun j hj => ?_⟩
      · rw [List.length_cons, ← Nat.add_assoc, Nat.add_right_comm]
        have hput : (o.put i c).out.take (i + 1) = o.out.take i ++ [c] := by
          have hget : (o.out.set i c)[i]? = some c := List.getElem?_set_self (by omega)
          rw [Output.put, List.take_add_one, hget, List.take_set_of_le le_rfl]
          rfl
        rw [Output.putAll, hfront, hput, List.append_assoc]
        rfl
      · rcases hwritten j hj with hj | hj
        · rcases List.mem_append.mp hj with hj | hj
          · exact .inl hj
          · exact .inr (by rw [List.mem_singleton.mp hj]; omega)
        · exact .inr (by rwa [hlen] at hj)

-- The state of json_escape after the characters of `text`.
structure Escaped (outSize : Nat) (text : Bytes) (pos : Nat) (o : Output) : Prop where
  length : o.out.length = outSize
  pos_eq : pos = (escapes text).length
  room : pos < outSize
  front : o.out.take pos = escapes text
  inside : ∀ i ∈ o.written, i < outSize

variable {outSize pos : Nat} {text : Bytes} {o : Output}

theorem Escaped.putAll (h : Escaped outSize text pos o) {c : UInt8} {more : Bytes}
    (hroom : pos + (escapeOf c ++ more).length ≤ outSize) (hpos : pos + (escapeOf c).length < outSize) :
    Escaped outSize (text ++ [c]) (pos + (escapeOf c).length) (o.putAll pos (escapeOf c ++ more)) := by
  obtain ⟨hlength, hfront, hwritten⟩ := putAll_spec (escapeOf c ++ more) o pos (by rwa [h.length])
  have hescapes : escapes (text ++ [c]) = escapes text ++ escapeOf c := by
    rw [escapes_append, escapes_singleton]
  refine ⟨hlength.trans h.length, ?_, hpos, ?_, fun i hi => ?_⟩
  · rw [hescapes, List.length_append, ← h.pos_eq]
  · have hshort := congrArg (List.take (pos + (escapeOf c).length)) hfront
    rw [List.take_take, List.length_append, Nat.min_eq_left (by omega), ← List.append_assoc, h.front] at hshort
    rw [hshort, hescapes]
    exact List.take_left' (by rw [List.length_append, ← h.pos_eq])
  · rcases hwritten i hi with hi | hi
    · exact h.inside i hi
    · rwa [h.length] at hi

-- One turn of the loop.
theorem Escaped.turn (h : Escaped outSize text pos o) {c : UInt8} (hguard : pos + 2 < outSize)
    (hcontrol : c < 0x20 → pos + 6 < outSize) (input : Bytes) :
    ∃ o', jsonEscapeLoop outSize (c :: input) pos o =
        jsonEscapeLoop outSize input (pos + (escapeOf c).length) o' ∧
      Escaped outSize (text ++ [c]) (pos + (escapeOf c).length) o' := by
  rw [jsonEscapeLoop, if_pos hguard]
  by_cases hquoted : c = QUOTE ∨ c = BACKSLASH
  · have hescape : escapeOf c = [BACKSLASH, c] := if_pos hquoted
    refine ⟨o.putAll pos (escapeOf c ++ []), ?_, h.putAll ?_ ?_⟩
    · rw [if_pos hquoted, hescape]
      rfl
    · rw [hescape]
      exact hguard.le
    · rw [hescape]
      exact hguard
  · rw [if_neg hquoted]
    by_cases hlow : c < 0x20
    · have hescape : escapeOf c = unicodeEscape c := by rw [escapeOf, if_neg hquoted, if_pos hlow]
      have hsix := hcontrol hlow
      have htake : (unicodeEscape c).take (outSize - pos - 1) = unicodeEscape c := by
        refine List.take_of_length_le ?_
        rw [length_unicodeEscape]
        omega
      refine ⟨o.putAll pos (escapeOf c ++ [0]), ?_, h.putAll ?_ ?_⟩
      · rw [if_pos hlow, Output.snprintf, if_neg (by omega), htake, hescape]
      · rw [hescape, List.length_append, length_unicodeEscape]
        exact hsix
      · rw [hescape, length_unicodeEscape]
        exact hsix
    · have hescape : escapeOf c = [c] := by rw [escapeOf, if_neg hquoted, if_neg hlow]
      refine ⟨o.putAll pos (escapeOf c ++ []), ?_, h.putAll ?_ ?_⟩
      · rw [if_neg hlow, hescape]
        rfl
      · rw [hescape]
        show pos + 1 ≤ outSize
        omega
      · rw [hescape]
        show pos + 1 < outSize
        omega

-- The NUL at the end leaves the escapes as the C string in the buffer.
theorem Escaped.finish (h : Escaped outSize text pos o) (hnul : (0 : UInt8) ∉ text) :
    cstr (o.put pos 0).out = escapes text := by
  have hroom : pos < o.out.length := h.length ▸ h.room
  have hsplit : (o.put pos 0).out = escapes text ++ 0 :: o.out.drop (pos + 1) := by
    rw [Output.put, List.set_eq_take_append_cons_drop, if_pos hroom, h.front]
  rw [hsplit, cstr_append (escapes_ne_nul hnul)]
  exact List.append_nil _

end Buffer

-- No index behind the buffer is written to, and what stands in the buffer as a C string
-- is a string literal's text for the input or its beginning.
def JsonSafe (input : Bytes) (outSize : Nat) (result : Output) : Prop :=
  (∀ i ∈ result.written, i < outSize) ∧
    ∃ text, Json.decode (cstr result.out) = some text ∧ text <+: cstr input

-- A control character that the loop comes to, with too little room left for its escape
-- and a NUL.
def ControlAtEnd (input : Bytes) (outSize : Nat) : Prop :=
  ∃ before c after, cstr input = before ++ c :: after ∧ c < 0x20 ∧
    (escapes before).length + 2 < outSize ∧ outSize ≤ (escapes before).length + 6

theorem jsonEscapeLoop_safe {outSize : Nat} (input : Bytes) {text : Bytes} {pos : Nat} {o : Output}
    (h : Escaped outSize text pos o)
    (hroom : ∀ before c after, input = before ++ c :: after → c < 0x20 →
      (escapes (text ++ before)).length + 2 < outSize →
        (escapes (text ++ before)).length + 6 < outSize) :
    ∃ done, text ++ done <+: text ++ input ∧
      Escaped outSize (text ++ done) (jsonEscapeLoop outSize input pos o).1
        (jsonEscapeLoop outSize input pos o).2 := by
  induction input generalizing text pos o with
  | nil => exact ⟨[], List.prefix_rfl, by rwa [List.append_nil]⟩
  | cons c input ih =>
      by_cases hguard : pos + 2 < outSize
      · have hcontrol : c < 0x20 → pos + 6 < outSize := by
          intro hc
          have hfirst := hroom [] c input rfl hc
          rw [List.append_nil, ← h.pos_eq] at hfirst
          exact hfirst hguard
        obtain ⟨o', hloop, hturn⟩ := h.turn hguard hcontrol input
        have hrest : ∀ before d after, input = before ++ d :: after → d < 0x20 →
            (escapes (text ++ [c] ++ before)).length + 2 < outSize →
              (escapes (text ++ [c] ++ before)).length + 6 < outSize := by
          intro before d after hinput
          rw [List.append_assoc]
          exact hroom (c :: before) d after (by rw [hinput]; rfl)
        obtain ⟨done, hdone, hescaped⟩ := ih hturn hrest
        rw [List.append_assoc, List.append_assoc] at hdone
        rw [List.append_assoc] at hescaped
        rw [hloop]
        exact ⟨c :: done, hdone, hescaped⟩
      · rw [jsonEscapeLoop, if_neg hguard]
        exact ⟨[], (List.prefix_append_right_inj _).mpr List.nil_prefix, by rwa [List.append_nil]⟩

-- The loop comes to every character that has room for three bytes.
theorem jsonEscapeLoop_reaches {outSize : Nat} (before : Bytes) {text : Bytes} {pos : Nat} {o : Output}
    (h : Escaped outSize text pos o) (hroom : (escapes (text ++ before)).length + 2 < outSize)
    (input : Bytes) :
    ∃ o', Escaped outSize (text ++ before) (escapes (text ++ before)).length o' ∧
      jsonEscapeLoop outSize (before ++ input) pos o =
        jsonEscapeLoop outSize input (escapes (text ++ before)).length o' := by
  induction before generalizing text pos o with
  | nil =>
      rw [List.append_nil, ← h.pos_eq]
      exact ⟨o, h, rfl⟩
  | cons c before ih =>
      have happend : text ++ c :: before = text ++ [c] ++ before := by simp
      rw [happend] at hroom ⊢
      have hlen : (escapes (text ++ [c] ++ before)).length =
          pos + (escapeOf c).length + (escapes before).length := by
        simp only [escapes_append, escapes_singleton, List.length_append, h.pos_eq]
      have hcontrol : c < 0x20 → pos + 6 < outSize := by
        intro hc
        have hquoted : ¬(c = QUOTE ∨ c = BACKSLASH) := by
          rintro (rfl | rfl) <;> exact absurd hc (by decide)
        have hsix : (escapeOf c).length = 6 := by
          rw [escapeOf, if_neg hquoted, if_pos hc, length_unicodeEscape]
        omega
      obtain ⟨o', hloop, hturn⟩ := h.turn (by omega) hcontrol (before ++ input)
      rw [List.cons_append, hloop]
      exact ih hturn hroom

theorem escaped_start {out : Bytes} (hout : out ≠ []) : Escaped out.length [] 0 ⟨out, []⟩ where
  length := rfl
  pos_eq := rfl
  room := List.length_pos_iff.mpr hout
  front := rfl
  inside := nofun

theorem jsonEscapeLoop_behind {outSize pos : Nat} (h : outSize ≤ pos) (input : Bytes) (o : Output) :
    jsonEscapeLoop outSize input pos o = (pos, o) := by
  cases input with
  | nil => rfl
  | cons c input => rw [jsonEscapeLoop, if_neg (by omega)]

-- A control character with three to six bytes left: snprintf cuts the escape short, but
-- pos goes on by its whole length, and the final NUL is written there.
theorem jsonEscape_overrun {input out before after : Bytes} {c : UInt8} (hinput : cstr input = before ++ c :: after)
    (hc : c < 0x20) (hroom : (escapes before).length + 2 < out.length)
    (hend : out.length ≤ (escapes before).length + 6) :
    (escapes before).length + 6 ∈ (jsonEscape input out).written := by
  have hout : out ≠ [] := List.ne_nil_of_length_pos (by omega)
  obtain ⟨o', hescaped, hloop⟩ := jsonEscapeLoop_reaches before (escaped_start hout) hroom (c :: after)
  rw [List.nil_append] at hescaped hloop
  have hquoted : ¬(c = QUOTE ∨ c = BACKSLASH) := by
    rintro (rfl | rfl) <;> exact absurd hc (by decide)
  rw [jsonEscapeLoop, if_pos hroom, if_neg hquoted, if_pos hc] at hloop
  dsimp only [Output.snprintf] at hloop
  rw [length_unicodeEscape, jsonEscapeLoop_behind hend] at hloop
  rw [jsonEscape, hinput, hloop]
  exact List.mem_append_right _ List.mem_cons_self

-- json_escape keeps to its buffer and writes valid JSON, unless it comes to such a
-- character.
theorem jsonEscape_safe_iff (input out : Bytes) (hout : out ≠ []) :
    JsonSafe input out.length (jsonEscape input out) ↔ ¬ControlAtEnd input out.length := by
  have hstart := escaped_start hout
  constructor
  · rintro ⟨hinside, -⟩ ⟨before, c, after, hinput, hc, hroom, hend⟩
    have hlt := hinside _ (jsonEscape_overrun hinput hc hroom hend)
    omega
  · intro hno
    have hroom : ∀ before c after, cstr input = before ++ c :: after → c < 0x20 →
        (escapes ([] ++ before)).length + 2 < out.length →
          (escapes ([] ++ before)).length + 6 < out.length := by
      intro before c after hinput hc hguard
      by_contra hend
      exact hno ⟨before, c, after, hinput, hc, hguard, Nat.not_lt.mp hend⟩
    obtain ⟨done, hdone, hescaped⟩ := jsonEscapeLoop_safe (cstr input) hstart hroom
    rw [List.nil_append, List.nil_append] at hdone
    rw [List.nil_append] at hescaped
    have hnul : (0 : UInt8) ∉ done := fun hmem => nul_notMem_cstr input (hdone.subset hmem)
    refine ⟨fun i hi => ?_, done, ?_, hdone⟩
    · rcases List.mem_append.mp hi with hi | hi
      · exact hescaped.inside i hi
      · rw [List.mem_singleton.mp hi]
        exact hescaped.room
    · rw [jsonEscape, hescaped.finish hnul, decode_escapes]

-- What json_escape gets for a domain of 317 letters and a control character, with
-- domain_esc for the output: the escape needs seven bytes, and three are left.
def longDomain : Bytes := List.replicate 317 97 ++ [1]

def domainEsc : Bytes := List.replicate 320 0

theorem jsonEscape_overruns : ¬JsonSafe longDomain domainEsc.length (jsonEscape longDomain domainEsc) := by
  intro hsafe
  have hlen : domainEsc.length = 320 := List.length_replicate
  have hinput : cstr longDomain = List.replicate 317 97 ++ 1 :: [] := by decide +kernel
  have hescapes : (escapes (List.replicate 317 97)).length = 317 := by decide +kernel
  have hwritten : _ ∈ (jsonEscape longDomain domainEsc).written :=
    jsonEscape_overrun hinput (by decide) (by omega) (by omega)
  have hlt := hsafe.1 _ hwritten
  omega

theorem jsonEscape_safe_iff_domain :
    JsonSafe (ascii ['a', '.', 'b', '"']) 8 (jsonEscape (ascii ['a', '.', 'b', '"']) (List.replicate 8 7)) ↔
      ¬ControlAtEnd (ascii ['a', '.', 'b', '"']) 8 :=
  jsonEscape_safe_iff (ascii ['a', '.', 'b', '"']) (List.replicate 8 7) (by decide)

end DpiProxy.MainPacket
