import DpiProxy.Tls.Record.Theorems

namespace DpiProxy.Tls

open Wire Wire.Record

-- Two or more handshake records at the start of a buffer, which one record has room for.
def Merges (b : Bytes) : Prop := 2 ≤ (handshakeLengths b).length ∧ (handshakeLengths b).sum ≤ 16384

instance (b : Bytes) : Decidable (Merges b) := inferInstanceAs (Decidable (_ ∧ _))

section Count

variable {input : Bytes} {pos : Nat}

theorem handshakeLengths_exit (h : ¬(pos + 5 ≤ input.length ∧ byte input pos = 0x16)) :
    handshakeLengths (input.drop pos) = [] := by
  rw [handshakeLengths, if_neg]
  rw [List.length_drop, byte_drop, Nat.add_zero]
  exact fun hfirst => h ⟨by omega, hfirst.2⟩

-- In a buffer as large as the input the loop comes to its end, and counts the records.
theorem coalesceLoop_counts {outSize : Nat} (body : Bytes) (declared records : Nat)
    (hsize : body.length + (input.length - pos) ≤ outSize) :
    ∃ result, coalesceLoop input outSize pos body declared records = some result ∧
      result.2.2.2 = records + (handshakeLengths (input.drop pos)).length := by
  induction hleft : input.length - pos using Nat.strongRecOn generalizing pos body declared records with
  | _ left ih =>
      by_cases hc : pos + 5 ≤ input.length ∧ byte input pos = 0x16
      · obtain ⟨hlen, hty⟩ := hc
        have hlengths := handshakeLengths_at hlen hty
        by_cases hpart : input.length - pos - 5 < be16 input (pos + 3)
        · rw [coalesceLoop_part hlen hty hpart, if_neg (by omega), hlengths,
            handshakeLengths_end (by omega)]
          exact ⟨_, rfl, rfl⟩
        · have hs : (slice input (pos + 5) (be16 input (pos + 3))).length = be16 input (pos + 3) :=
            length_slice_of_le _ _ _ (by omega)
          have hroom : (body ++ slice input (pos + 5) (be16 input (pos + 3))).length +
              (input.length - (pos + 5 + be16 input (pos + 3))) ≤ outSize := by
            rw [List.length_append, hs]
            omega
          obtain ⟨result, hloop, hcount⟩ := ih _ (by omega)
            (body ++ slice input (pos + 5) (be16 input (pos + 3)))
            (declared + be16 input (pos + 3)) (records + 1) hroom rfl
          rw [coalesceLoop_whole hlen hty (by omega), if_neg (by omega), hlengths, List.length_cons]
          exact ⟨result, hloop, by omega⟩
      · rw [coalesceLoop_exit hc, handshakeLengths_exit hc]
        exact ⟨_, rfl, rfl⟩

end Count

-- When a buffer is changed by the merge.
theorem tlsCoalesceHandshakeRecords_isSome {input : Bytes} {outSize : Nat} (hsize : input.length ≤ outSize) :
    (∃ out, tlsCoalesceHandshakeRecords input outSize = some out) ↔ Merges input := by
  obtain ⟨⟨pos, body, declared, records⟩, hloop, hcount⟩ :=
    @coalesceLoop_counts input 0 outSize [] 0 0 (by simpa using hsize)
  have hm := coalesceLoop_merged _ rfl (gathered_start input) hloop
  have hpos := hm.pos_eq
  have hle := hm.pos_le
  have hsum := hm.lengths
  dsimp only at hcount hpos hle hsum
  rw [List.drop_zero, Nat.zero_add] at hcount
  rw [Merges, ← hcount, hsum, tlsCoalesceHandshakeRecords]
  by_cases hhead : input.length < 5 ∨ byte input 0 ≠ 0x16
  · have hnone : handshakeLengths (input.drop 0) = [] :=
      handshakeLengths_exit fun ⟨hfive, htype⟩ => hhead.elim (by omega) fun h => h htype
    rw [List.drop_zero] at hnone
    rw [if_pos hhead, hcount, hnone]
    exact iff_of_false (fun ⟨_, h⟩ => by cases h) fun h => absurd h.1 (by decide)
  · rw [if_neg hhead, hloop]
    simp only [Option.bind_eq_bind, Option.bind_some]
    by_cases hbad : records < 2 ∨ declared > 16384
    · rw [if_pos (by omega)]
      exact iff_of_false (fun ⟨_, h⟩ => by cases h) fun h => by omega
    · rw [if_neg (by omega)]
      exact iff_of_true ⟨_, rfl⟩ (by omega)

end DpiProxy.Tls
