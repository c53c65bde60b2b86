import DpiProxy.Tls.Sni.Cut
import DpiProxy.Transparent.Hello
import DpiProxy.Wire.Chunks

namespace DpiProxy.Transparent

open Wire Packet Tls Relay

-- The chunks that recv returns.
def chunksOf : List Arrival → List Bytes
  | [] => []
  | .data bytes _ :: left => bytes :: chunksOf left
  | _ :: left => chunksOf left

-- The arrivals deliver every chunk before the deadlines.
def InTime (arrivals : List Arrival) : Prop :=
  ∀ a ∈ arrivals, a = .interrupted ∨ ∃ bytes, a = .data bytes false ∧ bytes ≠ []

-- The host that the bytes so far settle on, none while more bytes are awaited.
def helloVerdict (hello : Bytes) : Option Bytes :=
  match parseHello hello with
  | .ok host => some (cstr host)
  | .error .truncated => none
  | .error _ => some []

theorem chunksOf_ne_nil {arrivals : List Arrival} (htime : InTime arrivals) :
    ∀ chunk ∈ chunksOf arrivals, chunk ≠ [] := by
  induction arrivals with
  | nil => exact fun chunk hc => absurd hc List.not_mem_nil
  | cons a left ih =>
      have hleft := ih fun x hx => htime x (List.mem_cons_of_mem _ hx)
      rcases htime a List.mem_cons_self with rfl | ⟨bytes, rfl, hne⟩
      · exact hleft
      · intro chunk hc
        rcases List.mem_cons.mp hc with rfl | hc
        · exact hne
        · exact hleft chunk hc

theorem collectHello_host {arrivals : List Arrival} (hello : Bytes) (htime : InTime arrivals)
    (hfits : (hello ++ (chunksOf arrivals).flatten).length ≤ BUFFER_SIZE) :
    (collectHello hello arrivals).host =
      (Chunks.read helloVerdict hello (chunksOf arrivals)).getD [] := by
  induction arrivals generalizing hello with
  | nil => rfl
  | cons a left ih =>
      have hleft : InTime left := fun x hx => htime x (List.mem_cons_of_mem _ hx)
      rcases htime a List.mem_cons_self with rfl | ⟨bytes, rfl, hne⟩
      · exact ih hello hleft hfits
      · rw [chunksOf, List.flatten_cons, ← List.append_assoc] at hfits
        have hlen : hello.length + bytes.length + (chunksOf left).flatten.length ≤ BUFFER_SIZE := by
          rwa [List.length_append, List.length_append] at hfits
        have hall : bytes.take (BUFFER_SIZE - hello.length) = bytes := by
          rw [List.take_of_length_le (by omega)]
        rw [collectHello, if_neg (mt List.length_eq_zero_iff.mp hne)]
        dsimp only
        rw [hall, chunksOf, Chunks.read, helloVerdict]
        cases parseHello (hello ++ bytes) with
        | ok host => rfl
        | error status =>
            cases status with
            | malformed | unsupported => rfl
            | truncated =>
                by_cases hfull : BUFFER_SIZE ≤ (hello ++ bytes).length
                · -- the buffer is full, so nothing is left to arrive
                  have hnil : chunksOf left = [] := by
                    rw [List.length_append] at hfull
                    have hflat : (chunksOf left).flatten = [] :=
                      List.length_eq_zero_iff.mp (by omega)
                    rw [List.eq_nil_iff_forall_not_mem]
                    intro chunk hc
                    exact chunksOf_ne_nil hleft chunk hc (List.flatten_eq_nil_iff.mp hflat chunk hc)
                  dsimp only
                  rw [if_pos (Or.inr hfull), hnil]
                  rfl
                · dsimp only
                  rw [if_neg (by simpa using hfull)]
                  exact ih _ hleft hfits

-- A name that passes for a hostname when it is read as a C string.
def IsHost (name : Bytes) : Prop := cstr name ≠ [] ∧ (cstr name).all isHostChar = true

structure HostField (data : Bytes) (offset len : Nat) : Prop where
  field : SniField data offset len
  pos : 0 < len
  size : len < TLS_SNI_HOST_MAX
  host : IsHost (slice data offset len)

def verdictOf (data : Bytes) : Option Bytes :=
  match tlsParseClientHelloSni data TLS_SNI_HOST_MAX with
  | .ok name => some (if (cstr name).all isHostChar then cstr name else [])
  | .error .truncated => none
  | .error _ => some []

theorem helloVerdict_eq (hello : Bytes) :
    helloVerdict hello = verdictOf ((tlsCoalesceHandshakeRecords hello BUFFER_SIZE).getD hello) := by
  rw [helloVerdict, parseHello, verdictOf]
  cases tlsParseClientHelloSni _ TLS_SNI_HOST_MAX with
  | ok name =>
      by_cases hhost : (cstr name).all isHostChar = true
      · dsimp only
        rw [if_pos hhost, if_pos hhost]
      · dsimp only
        rw [if_neg hhost, if_neg hhost]
  | error status => cases status <;> rfl

theorem verdictOf_none {data : Bytes}
    (h : tlsParseClientHelloSni data TLS_SNI_HOST_MAX = .error .truncated) :
    verdictOf data = none := by
  rw [verdictOf, h]

theorem verdictOf_ne_none {data : Bytes} (h : extensionsEnd data ≤ data.length) :
    verdictOf data ≠ none := by
  have hfinal := tlsParseClientHelloSni_ne_truncated TLS_SNI_HOST_MAX h
  rw [verdictOf]
  cases hparse : tlsParseClientHelloSni data TLS_SNI_HOST_MAX with
  | ok name => exact fun he => by cases he
  | error status =>
      cases status with
      | truncated => exact absurd hparse hfinal
      | malformed | unsupported => exact fun he => by cases he

theorem verdictOf_host {data : Bytes} {offset len : Nat}
    (hcap : data.length ≤ TLS_CLIENTHELLO_CAP) (hlen : be24 data 6 ≤ TLS_CLIENTHELLO_CAP)
    (h : HostField data offset len) : verdictOf data = some (cstr (slice data offset len)) := by
  rw [verdictOf, ok_of_sniField hcap hlen h.field h.pos h.size]
  dsimp only
  rw [if_pos h.host.2]

theorem hostField_of_verdict {data host : Bytes} (h : verdictOf data = some host)
    (hne : host ≠ []) :
    ∃ offset len, HostField data offset len ∧ host = cstr (slice data offset len) := by
  rw [verdictOf] at h
  cases hparse : tlsParseClientHelloSni data TLS_SNI_HOST_MAX with
  | ok name =>
      obtain ⟨offset, len, hfield, hpos, hsize, rfl⟩ := sniField_of_ok hparse
      rw [hparse] at h
      dsimp only at h
      by_cases hhost : (cstr (slice data offset len)).all isHostChar = true
      · rw [if_pos hhost] at h
        obtain rfl := Option.some.inj h
        exact ⟨offset, len, ⟨hfield, hpos, hsize, hne, hhost⟩, rfl⟩
      · rw [if_neg hhost] at h
        exact absurd (Option.some.inj h).symm hne
  | error status =>
      rw [hparse] at h
      cases status with
      | truncated => cases h
      | malformed | unsupported => exact absurd (Option.some.inj h).symm hne

theorem cstr_take (name : Bytes) (n : Nat) : cstr (name.take n) = (cstr name).take n := by
  induction name generalizing n with
  | nil => simp [cstr]
  | cons b name ih =>
      cases n with
      | zero => simp [cstr]
      | succ n =>
          by_cases hb : b = 0
          · simp [cstr, hb]
          · simpa [cstr, hb] using ih n

-- A C string is known once its NUL, or all of the name, is.
theorem cstr_eq_of_take {x y : Bytes} {n : Nat} (hlen : x.length = y.length)
    (htake : x.take n = y.take n) (hn : min x.length ((cstr x).length + 1) ≤ n) : cstr x = cstr y := by
  by_cases hall : x.length ≤ n
  · rw [List.take_of_length_le hall, List.take_of_length_le (by omega)] at htake
    rw [htake]
  · have hcstr : (cstr x).take n = (cstr y).take n := by
      rw [← cstr_take, ← cstr_take, htake]
    have hshort := congrArg List.length hcstr
    simp only [List.length_take] at hshort
    rwa [List.take_of_length_le (by omega), List.take_of_length_le (by omega)] at hcstr

-- A hostname ends before a byte that is no part of one.
theorem host_ends_before {x : Bytes} {n : Nat} (hn : n < x.length) (hbad : isHostChar (byte x n) = false)
    (hnul : byte x n ≠ 0) (hall : (cstr x).all isHostChar = true) : (cstr x).length < n := by
  induction x generalizing n with
  | nil => exact absurd hn (Nat.not_lt_zero n)
  | cons b x ih =>
      cases n with
      | zero =>
          have hb : byte (b :: x) 0 = b := rfl
          rw [hb] at hbad hnul
          simp [cstr, hnul, hbad] at hall
      | succ n =>
          have hb : byte (b :: x) (n + 1) = byte x n := rfl
          rw [hb] at hbad hnul
          by_cases hzero : b = 0
          · simp [cstr, hzero]
          · have hcstr : cstr (b :: x) = b :: cstr x := by simp [cstr, hzero]
            rw [hcstr, List.all_cons, Bool.and_eq_true] at hall
            rw [hcstr, List.length_cons]
            have := ih (by simpa using hn) hbad hnul hall.2
            omega

-- The verdict over a beginning of the handshake bytes holds for all of them.
theorem verdictOf_settles {head head' view more host : Bytes} (hhead : head.length = 5)
    (hhead' : head'.length = 5) (hfirst : byte head 0 = byte head' 0)
    (hcap : (head' ++ (view ++ more)).length ≤ TLS_CLIENTHELLO_CAP)
    (h : verdictOf (head ++ view) = some host) : verdictOf (head' ++ (view ++ more)) = some host := by
  have hlen : 5 + view.length ≤ TLS_CLIENTHELLO_CAP := by
    simp only [List.length_append] at hcap
    omega
  rw [← List.append_assoc] at hcap ⊢
  rw [verdictOf, tlsParseClientHelloSni_head _ _ hhead hhead' hfirst hlen, ← verdictOf] at h
  have hfinal : tlsParseClientHelloSni (head' ++ view) TLS_SNI_HOST_MAX ≠ .error .truncated := by
    intro htrunc
    rw [verdictOf_none htrunc] at h
    cases h
  rw [verdictOf, tlsParseClientHelloSni_append _ _ _ hcap hfinal]
  exact h

end DpiProxy.Transparent
