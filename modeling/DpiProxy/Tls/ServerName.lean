import DpiProxy.Tls.Record

namespace DpiProxy.Tls

open Wire

-- Where the variable-length blocks of a ClientHello in one record end.
def sessionEnd (data : Bytes) : Nat := 44 + (byte data 43).toNat
def ciphersEnd (data : Bytes) : Nat := sessionEnd data + 2 + be16 data (sessionEnd data)
def compressionEnd (data : Bytes) : Nat :=
  ciphersEnd data + 1 + (byte data (ciphersEnd data)).toNat
def extensionsStart (data : Bytes) : Nat := compressionEnd data + 2
def extensionsEnd (data : Bytes) : Nat := extensionsStart data + be16 data (compressionEnd data)

-- The name field of the first server_name extension at or after `pos`: its place
-- and its length.
inductive FirstServerName (data : Bytes) (stop : Nat) : Nat → Nat → Nat → Prop where
  | here {pos : Nat} (header : pos + 4 ≤ stop) (fits : pos + 4 + be16 data (pos + 2) ≤ stop)
      (type : be16 data pos = 0) (entry : 5 ≤ be16 data (pos + 2))
      (hostName : byte data (pos + 4 + 2) = 0)
      (name : 5 + be16 data (pos + 4 + 3) ≤ be16 data (pos + 2)) :
      FirstServerName data stop pos (pos + 4 + 5) (be16 data (pos + 4 + 3))
  | skip {pos offset len : Nat} (header : pos + 4 ≤ stop)
      (fits : pos + 4 + be16 data (pos + 2) ≤ stop) (type : be16 data pos ≠ 0)
      (next : FirstServerName data stop (pos + 4 + be16 data (pos + 2)) offset len) :
      FirstServerName data stop pos offset len

-- The SNI name field of a ClientHello whose blocks are all present.
structure SniField (data : Bytes) (offset len : Nat) : Prop where
  record : byte data 0 = 0x16
  hello : byte data 5 = 0x01
  fits : extensionsEnd data ≤ data.length
  name : FirstServerName data (extensionsEnd data) (extensionsStart data) offset len

theorem findSniExtension_of_name {data : Bytes} {stop pos offset len : Nat}
    (h : FirstServerName data stop pos offset len) (hlen : 2 ≤ len) :
    findSniExtension data pos stop = some (offset + len / 2) := by
  induction h with
  | here header fits type entry hostName name =>
      rw [findSniExtension, if_pos header]
      dsimp only
      rw [if_neg (by omega), if_pos type, if_neg (by omega), if_neg (by simp [hostName]),
        if_neg (by omega), if_neg (by omega)]
  | skip header fits type next ih =>
      rw [findSniExtension, if_pos header]
      dsimp only
      rw [if_neg (by omega), if_neg type]
      exact ih hlen

theorem name_of_findSniExtension {data : Bytes} {stop split : Nat} (left : Nat) :
    ∀ {pos : Nat}, stop - pos = left → findSniExtension data pos stop = some split →
      ∃ offset len, FirstServerName data stop pos offset len ∧ 2 ≤ len ∧
        split = offset + len / 2 := by
  induction left using Nat.strongRecOn with
  | _ left ih =>
      intro pos hleft h
      rw [findSniExtension] at h
      by_cases header : pos + 4 ≤ stop
      · rw [if_pos header] at h
        dsimp only at h
        by_cases fits : pos + 4 + be16 data (pos + 2) > stop
        · rw [if_pos fits] at h
          cases h
        · rw [if_neg fits] at h
          by_cases type : be16 data pos = 0
          · rw [if_pos type] at h
            split_ifs at h with h₁ h₂ h₃ h₄
            refine ⟨_, _, .here header (by omega) type (by omega) (by simpa using h₂) (by omega),
              by omega, (Option.some.inj h).symm⟩
          · rw [if_neg type] at h
            obtain ⟨offset, len, hname, hlen, hsplit⟩ := ih _ (by omega) rfl h
            exact ⟨offset, len, .skip header (by omega) type hname, hlen, hsplit⟩
      · rw [if_neg header] at h
        cases h

theorem guard_bind {α : Type} (p : Prop) [Decidable p] (f : Unit → Option α) (a : α) :
    (guard p >>= f) = some a ↔ p ∧ f () = some a := by
  by_cases h : p <;> simp [guard, h]

-- The bounds checks before the extensions block follow from the last one.
theorem tlsFindSniSplit_eq_some {data : Bytes} {split : Nat} :
    tlsFindSniSplit data = some split ↔ byte data 0 = 0x16 ∧ byte data 5 = 0x01 ∧
      extensionsEnd data ≤ data.length ∧
      findSniExtension data (extensionsStart data) (extensionsEnd data) = some split := by
  unfold tlsFindSniSplit
  simp only [guard_bind, Nat.reduceAdd]
  simp only [extensionsEnd, extensionsStart, compressionEnd, ciphersEnd, sessionEnd]
  constructor
  · rintro ⟨-, h₀, -, h₁, -, -, -, -, -, -, -, -, h₂, h₃⟩
    exact ⟨h₀, h₁, h₂, h₃⟩
  · rintro ⟨h₀, h₁, h₂, h₃⟩
    exact ⟨by omega, h₀, by omega, h₁, by omega, by omega, by omega, by omega, by omega, by omega,
      by omega, by omega, h₂, h₃⟩

-- tls_find_sni_split finds the middle of the name, for names of two bytes or more.
theorem tlsFindSniSplit_iff (data : Bytes) (split : Nat) :
    tlsFindSniSplit data = some split ↔
      ∃ offset len, SniField data offset len ∧ 2 ≤ len ∧ split = offset + len / 2 := by
  rw [tlsFindSniSplit_eq_some]
  constructor
  · rintro ⟨hrecord, hhello, hfits, hfind⟩
    obtain ⟨offset, len, hname, hlen, hsplit⟩ := name_of_findSniExtension _ rfl hfind
    exact ⟨offset, len, ⟨hrecord, hhello, hfits, hname⟩, hlen, hsplit⟩
  · rintro ⟨offset, len, hfield, hlen, rfl⟩
    exact ⟨hfield.record, hfield.hello, hfield.fits, findSniExtension_of_name hfield.name hlen⟩

end DpiProxy.Tls
