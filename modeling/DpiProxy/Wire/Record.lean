import DpiProxy.Wire.Bytes

namespace Wire.Record

-- A TLS record header: content type, version and body length.
def header (ty major minor : UInt8) (len : Nat) : Bytes := [ty, major, minor, hi8 len, lo8 len]

-- The record layer as the peer reads it: each content byte with the content type
-- of its record. A partial last record yields the bytes present.
def deframe : Bytes → List (UInt8 × UInt8)
  | ty :: _ :: _ :: h :: l :: rest =>
      (rest.take (h.toNat * 256 + l.toNat)).map (ty, ·) ++
        deframe (rest.drop (h.toNat * 256 + l.toNat))
  | _ => []
termination_by b => b.length

theorem deframe_header (ty major minor : UInt8) (len : Nat) (h : len < 65536) (rest : Bytes) :
    deframe (header ty major minor len ++ rest) =
      (rest.take len).map (ty, ·) ++ deframe (rest.drop len) := by
  have hn : (hi8 len).toNat * 256 + (lo8 len).toNat = len := by
    rw [hi8_toNat len h, lo8_toNat]
    omega
  simp only [header, List.cons_append, List.nil_append]
  rw [deframe, hn]

theorem be16_header (ty major minor : UInt8) (len : Nat) (h : len < 65536) (rest : Bytes) :
    be16 (header ty major minor len ++ rest) 3 = len := by
  have hn : (hi8 len).toNat * 256 + (lo8 len).toNat = len := by
    rw [hi8_toNat len h, lo8_toNat]
    omega
  simpa [header, be16, byte] using hn

-- The first record of a buffer that holds a whole header.
theorem eq_header_append (b : Bytes) (h : 5 ≤ b.length) :
    b = header (byte b 0) (byte b 1) (byte b 2) (be16 b 3) ++ b.drop 5 := by
  match b, h with
  | ty :: major :: minor :: x :: y :: rest, _ =>
      have hx : hi8 (x.toNat * 256 + y.toNat) = x := by
        apply UInt8.toNat_inj.mp
        have h₁ := x.toNat_lt
        have h₂ := y.toNat_lt
        rw [hi8_toNat _ (by omega)]
        omega
      have hy : lo8 (x.toNat * 256 + y.toNat) = y := by
        apply UInt8.toNat_inj.mp
        have h₂ := y.toNat_lt
        rw [lo8_toNat]
        omega
      simp [header, be16, byte, hx, hy]

theorem deframe_of_header (b rest : Bytes) (h : 5 ≤ b.length) :
    deframe (b ++ rest) = ((b.drop 5 ++ rest).take (be16 b 3)).map (byte b 0, ·) ++
      deframe ((b.drop 5 ++ rest).drop (be16 b 3)) := by
  conv_lhs => rw [eq_header_append b h, List.append_assoc]
  exact deframe_header _ _ _ _ (be16_lt b 3) _

-- Two adjacent records of one type carry what one record with both bodies carries.
theorem deframe_merge (ty a b c d e f : UInt8) (n m : Nat) (body rest : Bytes)
    (hbody : body.length = n) (h : n + m < 65536) :
    deframe (header ty a b n ++ (body ++ (header ty c d m ++ rest))) =
      deframe (header ty e f (n + m) ++ (body ++ rest)) := by
  subst hbody
  rw [deframe_header _ _ _ _ (by omega), List.take_left, List.drop_left,
    deframe_header _ _ _ _ (by omega), deframe_header _ _ _ _ h, List.take_length_add_append,
    List.drop_length_add_append, List.map_append, List.append_assoc]

-- The header of a record that follows another one.
theorem drop_record (ty a b : UInt8) (n : Nat) (body rest : Bytes) (hbody : body.length = n) :
    (header ty a b n ++ (body ++ rest)).drop (5 + n) = rest := by
  subst hbody
  rw [← List.drop_drop, show (5 : Nat) = (header ty a b body.length).length from rfl,
    List.drop_left, List.drop_left]

end Wire.Record
