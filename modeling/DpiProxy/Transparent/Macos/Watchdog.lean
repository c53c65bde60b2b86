import DpiProxy.Strategy
import Mathlib.Data.List.Induction

namespace DpiProxy.Transparent.Macos

open Wire

def TP_ALIVE_TIMEOUT_S : Int := 30

-- What can be loaded in our anchor: translation rules, filter rules, tables.
inductive Part where
  | nat
  | rules
  | tables
deriving DecidableEq, Repr

-- What a watchdog does, one pfctl run or one file at a time.
inductive Chore where
  | flush (part : Part)
  | release (token : Bytes)
  | forget (token : Bytes)
  | unlink
deriving DecidableEq, Repr

def anchorFlush : List Chore := [.flush .nat, .flush .rules, .flush .tables]

def wdCleanup (token : Bytes) : List Chore :=
  anchorFlush ++ if token ≠ [] then [.release token, .forget token] else []

-- The variables of tp_pf_watchdog_main. `token` is the whole buffer.
structure Watchdog where
  token : Bytes
  tlen : Nat
  inToken : Bool
  clean : Bool
  flushed : Bool
  last : Int
deriving DecidableEq, Repr

-- Before the loop; `stack` is what the rest of the buffer happens to hold.
def Watchdog.start (stack : Bytes) (now : Int) : Watchdog := ⟨0 :: stack, 0, false, false, false, now⟩

def isDigit (b : UInt8) : Bool := 48 ≤ b && b ≤ 57

-- One byte that is read while awake_ms() says `now`.
def Watchdog.byte (now : Int) (w : Watchdog) (b : UInt8) : Watchdog :=
  if w.inToken && isDigit b && decide (w.tlen < 31) then { w with token := w.token.set w.tlen b, tlen := w.tlen + 1 }
  else if w.inToken then { w with token := w.token.set w.tlen 0, inToken := false }
  else if b = 116 then { w with inToken := true, tlen := 0 }
  else if b = 113 then { w with clean := true }
  else if b = 98 then { w with last := now, flushed := false }
  else w

-- What poll and read bring: nothing (or a signal), some bytes, or the end of the pipe.
inductive Heard where
  | nothing
  | data (bytes : Bytes)
  | ended
deriving DecidableEq, Repr

def Heard.bytes : Heard → Bytes
  | .data bytes => bytes
  | _ => []

-- One turn of the loop: what is heard and when, if a signal has come, and the time of the
-- check.
structure Turn where
  heard : Heard
  beat : Int
  term : Bool
  now : Int
deriving DecidableEq, Repr

-- What a turn leaves, what it has the watchdog do, and if that ends it.
structure Turned where
  self : Watchdog
  chores : List Chore
  exits : Bool
deriving DecidableEq, Repr

def Watchdog.turn (w : Watchdog) (t : Turn) : Turned :=
  match t.heard with
  | .ended => ⟨w, if w.clean then [] else wdCleanup (cstr w.token), true⟩
  | heard =>
      let w := heard.bytes.foldl (Watchdog.byte t.beat) w
      if t.term then ⟨w, wdCleanup (cstr w.token), true⟩
      else if !w.flushed && decide (t.now - w.last > TP_ALIVE_TIMEOUT_S * 1000) then
        ⟨{ w with flushed := true }, anchorFlush, false⟩
      else ⟨w, [], false⟩

-- What g_token can hold.
structure Token where
  digits : Bytes
  digit : ∀ b ∈ digits, isDigit b = true
  short : digits.length ≤ 31
deriving DecidableEq

-- What the daemon says.
inductive Message where
  | token (t : Token)
  | beat
  | quit
deriving DecidableEq

def Message.bytes : Message → Bytes
  | .token t => 116 :: t.digits ++ [10]
  | .beat => [98]
  | .quit => [113]

def stream (said : List Message) : Bytes := (said.map Message.bytes).flatten

section Parser

-- What the parser keeps, without the times.
def Watchdog.parse (w : Watchdog) : Bytes × Nat × Bool × Bool := (w.token, w.tlen, w.inToken, w.clean)

variable {w v : Watchdog} {now : Int}

theorem byte_parse (now' : Int) (b : UInt8) (h : w.parse = v.parse) : (w.byte now b).parse = (v.byte now' b).parse := by
  obtain ⟨token, tlen, inToken, clean, flushed, last⟩ := w
  obtain ⟨token', tlen', inToken', clean', flushed', last'⟩ := v
  simp only [Watchdog.parse, Prod.mk.injEq] at h
  obtain ⟨rfl, rfl, rfl, rfl⟩ := h
  simp only [Watchdog.byte]
  repeat' split
  all_goals rfl

theorem bytes_parse (now' : Int) (bytes : Bytes) (h : w.parse = v.parse) :
    (bytes.foldl (Watchdog.byte now) w).parse = (bytes.foldl (Watchdog.byte now') v).parse := by
  induction bytes generalizing w v with
  | nil => exact h
  | cons b bytes ih => exact ih (byte_parse now' b h)

-- The time of the clock does not matter to what is parsed.
theorem turn_parse (t : Turn) (hgoes : t.heard ≠ .ended) :
    (w.turn t).self.parse = (t.heard.bytes.foldl (Watchdog.byte 0) w).parse := by
  rw [← @bytes_parse w w t.beat 0 t.heard.bytes rfl]
  obtain ⟨heard, beat, term, now⟩ := t
  unfold Watchdog.turn
  cases heard with
  | ended => exact absurd rfl hgoes
  | nothing | data =>
      dsimp only
      repeat' split
      all_goals rfl

-- Between two messages, with the whole buffer.
structure Watchdog.Ready (w : Watchdog) : Prop where
  buffer : w.token.length = 32
  idle : w.inToken = false

theorem start_ready {stack : Bytes} (h : stack.length = 31) : (Watchdog.start stack now).Ready :=
  ⟨by rw [Watchdog.start, List.length_cons, h], rfl⟩

theorem isDigit_ne_zero {b : UInt8} (h : isDigit b = true) : b ≠ 0 := by
  rintro rfl
  exact absurd h (by decide)

-- Digits go into the buffer behind the ones that came before.
theorem digits_read {digits front back : Bytes} (htoken : w.token = front ++ back) (htlen : w.tlen = front.length)
    (hin : w.inToken = true) (hdigits : ∀ b ∈ digits, isDigit b = true) (hroom : front.length + digits.length ≤ 31)
    (hback : digits.length ≤ back.length) :
    digits.foldl (Watchdog.byte now) w =
      { w with token := front ++ digits ++ back.drop digits.length, tlen := front.length + digits.length } := by
  induction digits generalizing w front back with
  | nil =>
      rw [List.foldl_nil, List.append_nil, List.length_nil, List.drop_zero, Nat.add_zero, ← htoken, ← htlen]
  | cons d digits ih =>
      rw [List.length_cons] at hroom hback
      obtain ⟨c, back, rfl⟩ := List.exists_cons_of_length_pos (Nat.lt_of_lt_of_le (Nat.succ_pos _) hback)
      have hd := hdigits d List.mem_cons_self
      have hset : (front ++ c :: back).set front.length d = front ++ [d] ++ back := by
        rw [List.set_append_right _ _ (Nat.le_refl _), Nat.sub_self, List.set_cons_zero, List.append_assoc]
        rfl
      have hbyte : w.byte now d = { w with token := front ++ [d] ++ back, tlen := front.length + 1 } := by
        rw [Watchdog.byte, hin, hd, htlen, decide_eq_true (by omega), Bool.and_true, Bool.and_true, if_pos rfl,
          htoken, hset]
      have hrest := @ih { w with token := front ++ [d] ++ back, tlen := front.length + 1 } (front ++ [d]) back rfl
        (by rw [List.length_append, List.length_singleton]) hin (fun b hb => hdigits b (List.mem_cons_of_mem _ hb))
        (by rw [List.length_append, List.length_singleton]; omega) (by rw [List.length_cons] at hback; omega)
      rw [List.foldl_cons, hbyte, hrest]
      simp only [List.length_append, List.length_cons, List.length_nil, List.drop_succ_cons, List.append_assoc,
        List.singleton_append, Watchdog.mk.injEq, and_true, true_and]
      omega

-- A token message replaces the token, at the front of the buffer.
theorem token_read (token : Token) (hready : w.Ready) :
    (Message.token token).bytes.foldl (Watchdog.byte now) w =
      { w with
        token := token.digits ++ (w.token.drop token.digits.length).set 0 0
        tlen := token.digits.length } := by
  obtain ⟨hbuffer, hidle⟩ := hready
  obtain ⟨digits, hdigits, hlen⟩ := token
  have hbegin : w.byte now 116 = { w with inToken := true, tlen := 0 } := by
    simp [Watchdog.byte, hidle]
  have hread := @digits_read { w with inToken := true, tlen := 0 } now digits [] w.token rfl rfl rfl hdigits
    (by rw [List.length_nil]; omega) (by omega)
  rw [Message.bytes, List.cons_append, List.foldl_cons, hbegin, List.foldl_append, hread]
  simp only [List.nil_append, List.length_nil, Nat.zero_add, List.foldl_cons, List.foldl_nil]
  have hend : isDigit 10 = false := by decide
  simp only [Watchdog.byte, hend, Bool.and_false, Bool.false_and, Bool.false_eq_true, if_false, if_true]
  rw [List.set_append_right _ _ (Nat.le_refl _), Nat.sub_self]
  cases w
  simp only at hidle
  rw [hidle]

-- What a message leaves of the token before it.
def Message.renames (old : Bytes) : Message → Bytes
  | .token t => t.digits
  | _ => old

structure Takes (m : Message) (w w' : Watchdog) : Prop where
  ready : w'.Ready
  token : cstr w'.token = m.renames (cstr w.token)
  clean : w'.clean = (w.clean || decide (m = .quit))

theorem message_read (m : Message) (hready : w.Ready) : Takes m w (m.bytes.foldl (Watchdog.byte now) w) := by
  cases m with
  | token token =>
      have hlen := hready.buffer
      have hle := token.short
      obtain ⟨c, back, hback⟩ := List.exists_cons_of_length_pos
        (show 0 < (w.token.drop token.digits.length).length by rw [List.length_drop]; omega)
      rw [token_read token hready, hback]
      refine ⟨⟨?_, hready.idle⟩, ?_, by simp⟩
      · have hcut := congrArg List.length hback
        rw [List.length_drop] at hcut
        simp only [List.length_append, List.set_cons_zero, List.length_cons] at hcut ⊢
        omega
      · have hfree : (0 : UInt8) ∉ token.digits := fun hzero => isDigit_ne_zero (token.digit 0 hzero) rfl
        rw [List.set_cons_zero, cstr_append hfree]
        simp [cstr, Message.renames]
  | beat =>
      have hidle := hready.idle
      refine ⟨⟨?_, ?_⟩, ?_, ?_⟩ <;> simp [Message.bytes, Watchdog.byte, hidle, hready.buffer, Message.renames]
  | quit =>
      have hidle := hready.idle
      refine ⟨⟨?_, ?_⟩, ?_, ?_⟩ <;> simp [Message.bytes, Watchdog.byte, hidle, hready.buffer, Message.renames]

end Parser

def Watchdog.after (w : Watchdog) (turns : List Turn) : Watchdog := turns.foldl (fun w t => (w.turn t).self) w

def hears (turns : List Turn) : Bytes := turns.flatMap fun t => t.heard.bytes

-- The loop goes on after these.
def Goes (turns : List Turn) : Prop := ∀ t ∈ turns, t.heard ≠ .ended ∧ t.term = false

section Loop

variable {w : Watchdog} {turns : List Turn} {now : Int}

theorem after_concat (w : Watchdog) (turns : List Turn) (t : Turn) :
    w.after (turns ++ [t]) = ((w.after turns).turn t).self := by
  rw [Watchdog.after, List.foldl_append]
  rfl

theorem hears_concat (turns : List Turn) (t : Turn) : hears (turns ++ [t]) = hears turns ++ t.heard.bytes := by
  rw [hears, List.flatMap_append]
  simp [hears]

theorem turn_goes {t : Turn} (hheard : t.heard ≠ .ended) (hterm : t.term = false) :
    w.turn t =
      let w := t.heard.bytes.foldl (Watchdog.byte t.beat) w
      if !w.flushed && decide (t.now - w.last > TP_ALIVE_TIMEOUT_S * 1000) then
        ⟨{ w with flushed := true }, anchorFlush, false⟩
      else ⟨w, [], false⟩ := by
  obtain ⟨heard, beat, term, now⟩ := t
  obtain rfl := hterm
  unfold Watchdog.turn
  cases heard with
  | ended => exact absurd rfl hheard
  | nothing | data => rfl

theorem turn_term {t : Turn} (hheard : t.heard ≠ .ended) (hterm : t.term = true) :
    (w.turn t).exits = true ∧ (w.turn t).chores = wdCleanup (cstr (w.turn t).self.token) := by
  obtain ⟨heard, beat, term, now⟩ := t
  obtain rfl := hterm
  unfold Watchdog.turn
  cases heard with
  | ended => exact absurd rfl hheard
  | nothing | data => exact ⟨rfl, rfl⟩

end Loop

-- A token in two reads, a beat, and then 31 s of nothing.
def toldTurns : List Turn :=
  [⟨.data [116, 49], 0, false, 0⟩, ⟨.nothing, 0, false, 1000⟩, ⟨.data [50, 10, 98], 2000, false, 2000⟩]

def toldMessages : List Message := [.token ⟨[49, 50], by simp [isDigit], by simp⟩, .beat]

theorem toldTurns_goes (now : Int) : Goes (toldTurns ++ [⟨.nothing, now, false, now⟩]) := by
  simp [Goes, toldTurns]

section Silence

variable {w : Watchdog} {now : Int}

-- What is left of the messages: the parser stands between two of them, or in a token.
def Expects (w : Watchdog) (rest : Bytes) : Prop :=
  (w.inToken = false ∧ ∃ said, rest <+: stream said) ∨
    (w.inToken = true ∧ ∃ digits said, (∀ b ∈ digits, isDigit b = true) ∧ w.tlen + digits.length ≤ 31 ∧
      rest <+: digits ++ 10 :: stream said)

-- A beat is heard as the byte it is, and nothing else is.
theorem byte_expects {b : UInt8} {rest : Bytes} (h : Expects w (b :: rest)) :
    Expects (w.byte now b) rest ∧ (w.byte now b).last = (if b = 98 then now else w.last) ∧
      (w.byte now b).flushed = (if b = 98 then false else w.flushed) := by
  rcases h with ⟨hidle, said, hrest⟩ | ⟨hin, digits, said, hdigits, hroom, hrest⟩
  · cases said with
    | nil => simp [stream] at hrest
    | cons m said =>
        have hstream : stream (m :: said) = m.bytes ++ stream said := rfl
        rw [hstream] at hrest
        cases m with
        | token token =>
            obtain ⟨digits, hdigits, hlen⟩ := token
            rw [Message.bytes, List.cons_append, List.cons_append, List.cons_prefix_cons] at hrest
            obtain ⟨rfl, hrest⟩ := hrest
            have hbyte : w.byte now 116 = { w with inToken := true, tlen := 0 } := by
              simp [Watchdog.byte, hidle]
            rw [hbyte]
            refine ⟨.inr ⟨rfl, digits, said, hdigits, by simpa using hlen, ?_⟩, rfl, rfl⟩
            rwa [List.append_assoc] at hrest
        | beat =>
            rw [Message.bytes, List.singleton_append, List.cons_prefix_cons] at hrest
            obtain ⟨rfl, hrest⟩ := hrest
            have hbyte : w.byte now 98 = { w with last := now, flushed := false } := by
              simp [Watchdog.byte, hidle]
            rw [hbyte]
            exact ⟨.inl ⟨hidle, said, hrest⟩, rfl, rfl⟩
        | quit =>
            rw [Message.bytes, List.singleton_append, List.cons_prefix_cons] at hrest
            obtain ⟨rfl, hrest⟩ := hrest
            have hbyte : w.byte now 113 = { w with clean := true } := by
              simp [Watchdog.byte, hidle]
            rw [hbyte]
            exact ⟨.inl ⟨hidle, said, hrest⟩, rfl, rfl⟩
  · cases digits with
    | nil =>
        rw [List.nil_append, List.cons_prefix_cons] at hrest
        obtain ⟨rfl, hrest⟩ := hrest
        have hend : isDigit 10 = false := by decide
        have hbyte : w.byte now 10 = { w with token := w.token.set w.tlen 0, inToken := false } := by
          simp [Watchdog.byte, hin, hend]
        rw [hbyte]
        exact ⟨.inl ⟨rfl, said, hrest⟩, rfl, rfl⟩
    | cons d digits =>
        rw [List.cons_append, List.cons_prefix_cons] at hrest
        obtain ⟨rfl, hrest⟩ := hrest
        have hb := hdigits b List.mem_cons_self
        have hother : b ≠ 98 := by
          rintro rfl
          exact absurd hb (by decide)
        rw [List.length_cons] at hroom
        have hbyte : w.byte now b = { w with token := w.token.set w.tlen b, tlen := w.tlen + 1 } := by
          rw [Watchdog.byte, hin, hb, decide_eq_true (by omega), Bool.and_true, Bool.and_true, if_pos rfl]
        rw [hbyte, if_neg hother, if_neg hother]
        exact ⟨.inr ⟨hin, digits, said, fun c hc => hdigits c (List.mem_cons_of_mem _ hc), by dsimp only; omega,
          hrest⟩, rfl, rfl⟩

theorem bytes_expects {bytes rest : Bytes} (h : Expects w (bytes ++ rest)) :
    let w' := bytes.foldl (Watchdog.byte now) w
    Expects w' rest ∧ w'.last = (if 98 ∈ bytes then now else w.last) ∧
      w'.flushed = (if 98 ∈ bytes then false else w.flushed) := by
  induction bytes generalizing w with
  | nil => exact ⟨h, by simp, by simp⟩
  | cons b bytes ih =>
      obtain ⟨hnext, hlast, hflushed⟩ := @byte_expects w now b (bytes ++ rest) h
      obtain ⟨hrest, hlast', hflushed'⟩ := ih hnext
      refine ⟨hrest, ?_, ?_⟩
      · rw [List.foldl_cons, hlast', hlast]
        by_cases hb : b = 98
        · simp [hb]
        · simp [hb, Ne.symm hb]
      · rw [List.foldl_cons, hflushed', hflushed]
        by_cases hb : b = 98
        · simp [hb]
        · simp [hb, Ne.symm hb]

-- When the last beat was heard.
def lastBeat (start : Int) (turns : List Turn) : Int :=
  turns.foldl (fun last t => if 98 ∈ t.heard.bytes then t.beat else last) start

theorem lastBeat_concat (start : Int) (turns : List Turn) (t : Turn) :
    lastBeat start (turns ++ [t]) = if 98 ∈ t.heard.bytes then t.beat else lastBeat start turns := by
  rw [lastBeat, List.foldl_append]
  rfl

-- The anchor has been emptied since the last beat.
def Emptied (w : Watchdog) (turns : List Turn) : Prop :=
  ∃ before t rest, turns = before ++ t :: rest ∧ 98 ∉ hears rest ∧ ((w.after before).turn t).chores ≠ []

theorem emptied_concat (turns : List Turn) (t : Turn) :
    Emptied w (turns ++ [t]) ↔
      ((w.after turns).turn t).chores ≠ [] ∨ (98 ∉ t.heard.bytes ∧ Emptied w turns) := by
  constructor
  · rintro ⟨before, u, rest, hturns, hrest, hflush⟩
    rcases List.eq_nil_or_concat rest with rfl | ⟨rest, v, rfl⟩
    · obtain ⟨rfl, hut⟩ := List.append_inj' hturns rfl
      obtain rfl := List.singleton_inj.mp hut
      exact .inl hflush
    · rw [List.concat_eq_append, ← List.cons_append, ← List.append_assoc] at hturns
      obtain ⟨rfl, hvt⟩ := List.append_inj' hturns rfl
      obtain rfl := List.singleton_inj.mp hvt
      rw [List.concat_eq_append, hears_concat, List.mem_append, not_or] at hrest
      exact .inr ⟨hrest.2, before, u, rest, rfl, hrest.1, hflush⟩
  · rintro (hflush | ⟨hquiet, before, u, rest, rfl, hrest, hflush⟩)
    · exact ⟨turns, t, [], rfl, by simp [hears], hflush⟩
    · refine ⟨before, u, rest ++ [t], by simp, ?_, hflush⟩
      rw [hears_concat, List.mem_append, not_or]
      exact ⟨hrest, hquiet⟩

-- What the two variables stand for.
structure Silence (w : Watchdog) (start : Int) (turns : List Turn) (rest : Bytes) : Prop where
  expects : Expects (w.after turns) rest
  last : (w.after turns).last = lastBeat start turns
  flushed : (w.after turns).flushed = true ↔ Emptied w turns

theorem turn_silence {turns : List Turn} {t : Turn} {start : Int} {rest : Bytes}
    (h : Silence w start turns (t.heard.bytes ++ rest)) (hheard : t.heard ≠ .ended) (hterm : t.term = false) :
    Silence w start (turns ++ [t]) rest ∧
      (((w.after turns).turn t).chores = anchorFlush ∧
          t.now - lastBeat start (turns ++ [t]) > TP_ALIVE_TIMEOUT_S * 1000 ∧
          (98 ∈ t.heard.bytes ∨ ¬Emptied w turns) ∨
        ((w.after turns).turn t).chores = [] ∧
          (t.now - lastBeat start (turns ++ [t]) > TP_ALIVE_TIMEOUT_S * 1000 →
            98 ∉ t.heard.bytes ∧ Emptied w turns)) := by
  obtain ⟨hexpects, hlast, hflushed⟩ := h
  obtain ⟨hnext, hbeat, hquiet⟩ := @bytes_expects (w.after turns) t.beat t.heard.bytes rest hexpects
  rw [hlast, ← lastBeat_concat] at hbeat
  have hturn := @turn_goes (w.after turns) t hheard hterm
  dsimp only at hturn
  rw [hbeat, hquiet] at hturn
  have hchoresne : anchorFlush ≠ [] := by simp [anchorFlush]
  by_cases hflush : (!(if 98 ∈ t.heard.bytes then false else (w.after turns).flushed) &&
      decide (t.now - lastBeat start (turns ++ [t]) > TP_ALIVE_TIMEOUT_S * 1000)) = true
  · rw [if_pos hflush] at hturn
    simp only [Bool.and_eq_true, Bool.not_eq_true', decide_eq_true_eq] at hflush
    refine ⟨⟨?_, ?_, ?_⟩, .inl ⟨?_, hflush.2, ?_⟩⟩
    · rw [after_concat, hturn]
      exact hnext
    · rw [after_concat, hturn]
    · rw [after_concat, emptied_concat, hturn]
      exact iff_of_true rfl (.inl hchoresne)
    · rw [hturn]
    · by_cases hheard' : 98 ∈ t.heard.bytes
      · exact .inl hheard'
      · refine .inr fun hemptied => ?_
        rw [if_neg hheard', hflushed.mpr hemptied] at hflush
        exact absurd hflush.1 (by simp)
  · rw [if_neg hflush] at hturn
    refine ⟨⟨?_, ?_, ?_⟩, .inr ⟨?_, fun hlong => ?_⟩⟩
    · rw [after_concat, hturn]
      exact hnext
    · rw [after_concat, hturn]
      exact hbeat
    · rw [after_concat, emptied_concat, hturn]
      dsimp only
      rw [hquiet]
      by_cases hheard' : 98 ∈ t.heard.bytes
      · simp [hheard']
      · simp [hheard', hflushed]
    · rw [hturn]
    · rw [decide_eq_true hlong, Bool.and_true, Bool.not_eq_true, Bool.not_eq_false'] at hflush
      by_cases hheard' : 98 ∈ t.heard.bytes
      · rw [if_pos hheard'] at hflush
        cases hflush
      · rw [if_neg hheard'] at hflush
        exact ⟨hheard', hflushed.mp hflush⟩

theorem after_silence {turns : List Turn} {start : Int} {rest : Bytes} (hidle : Expects w (hears turns ++ rest))
    (hlast : w.last = start) (hnew : w.flushed = false) (hgoes : Goes turns) : Silence w start turns rest := by
  induction turns using List.reverseRecOn generalizing rest with
  | nil =>
      refine ⟨hidle, hlast, ?_⟩
      rw [show w.after [] = w from rfl, hnew]
      refine iff_of_false (by simp) ?_
      rintro ⟨before, t, rest, hnil, -⟩
      simp at hnil
  | append_singleton turns t ih =>
      obtain ⟨hgoes', hlast'⟩ := List.forall_mem_append.mp hgoes
      obtain ⟨hheard, hterm⟩ := hlast' t List.mem_cons_self
      rw [hears_concat, List.append_assoc] at hidle
      exact (turn_silence (ih hidle hgoes') hheard hterm).1

end Silence

-- The anchor is emptied when no beat has been heard for longer than the timeout, once, and
-- again only after another beat.
theorem watchdog_silence {stack : Bytes} {start : Int} {turns : List Turn} {t : Turn} {said : List Message}
    (hgoes : Goes (turns ++ [t])) (hheard : hears (turns ++ [t]) <+: stream said) :
    let w := Watchdog.start stack start
    let silent := t.now - lastBeat start (turns ++ [t]) > TP_ALIVE_TIMEOUT_S * 1000
    let due := silent ∧ (98 ∈ t.heard.bytes ∨ ¬Emptied w turns)
    ((w.after turns).turn t).exits = false ∧ (due → ((w.after turns).turn t).chores = anchorFlush) ∧
      (¬due → ((w.after turns).turn t).chores = []) := by
  obtain ⟨hgoes', hlast⟩ := List.forall_mem_append.mp hgoes
  obtain ⟨hends, hterm⟩ := hlast t List.mem_cons_self
  rw [hears_concat] at hheard
  have hidle : Expects (Watchdog.start stack start) (hears turns ++ t.heard.bytes) := .inl ⟨rfl, said, hheard⟩
  obtain ⟨-, hcases⟩ := @turn_silence (Watchdog.start stack start) turns t start []
    (by rw [List.append_nil]; exact after_silence hidle rfl rfl hgoes') hends hterm
  refine ⟨?_, fun hdue => ?_, fun hnot => ?_⟩
  · rw [turn_goes hends hterm]
    dsimp only
    split <;> rfl
  · rcases hcases with ⟨hflush, -⟩ | ⟨-, hquiet⟩
    · exact hflush
    · obtain ⟨hnone, hemptied⟩ := hquiet hdue.1
      exact absurd hemptied (hdue.2.resolve_left hnone)
  · rcases hcases with ⟨-, hsilent, hfirst⟩ | ⟨hnothing, -⟩
    · exact absurd ⟨hsilent, hfirst⟩ hnot
    · exact hnothing

-- Thirty seconds after the beat, and not a moment longer.
theorem watchdog_silence_short :
    (((Watchdog.start (List.replicate 31 7) 0).after toldTurns).turn ⟨.nothing, 32000, false, 32000⟩).chores = [] :=
  (@watchdog_silence (List.replicate 31 7) 0 toldTurns ⟨.nothing, 32000, false, 32000⟩ toldMessages
    (toldTurns_goes 32000) List.prefix_rfl).2.2 fun hdue => absurd hdue.1 (by decide)

end DpiProxy.Transparent.Macos
