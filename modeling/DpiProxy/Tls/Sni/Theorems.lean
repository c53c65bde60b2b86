import DpiProxy.Tls.Sni
import DpiProxy.Tls.ServerName

namespace DpiProxy.Tls

open Wire Packet

theorem require_bind {α : Type} (cond : Prop) [Decidable cond] (status : PacketError)
    (f : Unit → Result α) :
    (require cond status >>= f) = if cond then f () else .error status := by
  unfold require
  split <;> rfl

-- A bounds check before a wider one with the same answer.
theorem ite_le_of_le {α : Type} {a b n : Nat} (h : a ≤ b) (x e : α) :
    (if a ≤ n then (if b ≤ n then x else e) else e) = if b ≤ n then x else e := by
  by_cases hb : b ≤ n
  · rw [if_pos (h.trans hb)]
  · rw [if_neg hb, ite_self]

-- The bounds checks before the extensions block follow from the last one.
theorem tlsParseClientHelloSni_eq (data : Bytes) (hostOutSize : Nat) :
    tlsParseClientHelloSni data hostOutSize = (do
      require (hostOutSize ≠ 0) .malformed
      require (data.length ≤ TLS_CLIENTHELLO_CAP) .malformed
      require (5 ≤ data.length) .truncated
      require (byte data 0 = 0x16) .unsupported
      require (9 ≤ data.length) .truncated
      require (byte data 5 = 0x01) .unsupported
      require (be24 data 6 ≤ TLS_CLIENTHELLO_CAP) .malformed
      require (extensionsStart data ≤ data.length) .truncated
      require (be16 data (compressionEnd data) ≤ TLS_CLIENTHELLO_CAP) .malformed
      require (extensionsEnd data ≤ data.length) .truncated
      parseSniExtension data hostOutSize (extensionsStart data) (extensionsEnd data)) := by
  unfold tlsParseClientHelloSni
  simp only [require_bind, Nat.reduceAdd]
  simp only [extensionsEnd, extensionsStart, compressionEnd, ciphersEnd, sessionEnd]
  rw [ite_le_of_le (Nat.le_add_right 43 1), ite_le_of_le (Nat.le_add_right 44 _),
    ite_le_of_le (Nat.le_add_right _ 2), ite_le_of_le (Nat.le_add_right _ _),
    ite_le_of_le (Nat.le_add_right _ 1), ite_le_of_le (Nat.le_add_right _ _),
    ite_le_of_le (Nat.le_add_right _ 2)]
  rfl

section Agree

-- Two buffers with the same bytes in [start, stop).
structure Agree (a b : Bytes) (start stop : Nat) : Prop where
  left : stop ≤ a.length
  right : stop ≤ b.length
  same : ∀ i, start ≤ i → i < stop → byte a i = byte b i

variable {a b : Bytes} {start stop : Nat}

theorem Agree.symm (h : Agree a b start stop) : Agree b a start stop :=
  ⟨h.right, h.left, fun i hlow hhigh => (h.same i hlow hhigh).symm⟩

theorem Agree.mono (h : Agree a b start stop) {stop' : Nat} (hs : stop' ≤ stop) :
    Agree a b start stop' :=
  ⟨hs.trans h.left, hs.trans h.right, fun i hlow hhigh => h.same i hlow (hhigh.trans_le hs)⟩

theorem Agree.be16_eq (h : Agree a b start stop) {i : Nat} (hlow : start ≤ i)
    (hhigh : i + 1 < stop) : be16 a i = be16 b i := by
  rw [be16, be16, h.same i hlow (by omega), h.same (i + 1) (by omega) hhigh]

theorem Agree.slice_eq (h : Agree a b start stop) {offset len : Nat} (hlow : start ≤ offset)
    (hhigh : offset + len ≤ stop) : slice a offset len = slice b offset len := by
  have hleft := h.left
  have hright := h.right
  apply ext_byte
  · rw [length_slice_of_le _ _ _ (by omega), length_slice_of_le _ _ _ (by omega)]
  · intro i hi
    rw [length_slice_of_le _ _ _ (by omega)] at hi
    rw [byte_slice _ _ _ _ hi, byte_slice _ _ _ _ hi]
    exact h.same _ (by omega) (by omega)

-- The extensions loop reads nothing behind the block.
theorem parseSniExtension_congr (h : Agree a b start stop) (hostOutSize : Nat) {pos : Nat}
    (hpos : start ≤ pos) :
    parseSniExtension a hostOutSize pos stop = parseSniExtension b hostOutSize pos stop := by
  induction hleft : stop - pos using Nat.strongRecOn generalizing pos with
  | _ left ih =>
      rw [parseSniExtension, parseSniExtension]
      by_cases header : pos + 4 ≤ stop
      · have htype := h.be16_eq (i := pos) hpos (by omega)
        have hlen := h.be16_eq (i := pos + 2) (by omega) (by omega)
        rw [if_pos header, if_pos header]
        dsimp only
        rw [htype, hlen]
        by_cases fits : pos + 4 + be16 b (pos + 2) > stop
        · rw [if_pos fits, if_pos fits]
        · rw [if_neg fits, if_neg fits]
          have hnext : parseSniExtension a hostOutSize (pos + 4 + be16 b (pos + 2)) stop =
              parseSniExtension b hostOutSize (pos + 4 + be16 b (pos + 2)) stop :=
            ih _ (by omega) (by omega) rfl
          by_cases entry : be16 b (pos + 2) < 5
          · rw [if_pos entry, if_pos entry, hnext]
          · have hkind := h.same (pos + 4 + 2) (by omega) (by omega)
            have hname := h.be16_eq (i := pos + 4 + 3) (by omega) (by omega)
            rw [if_neg entry, if_neg entry, hkind, hname, hnext]
            by_cases inside : 5 + be16 b (pos + 4 + 3) > be16 b (pos + 2)
            · rw [if_pos inside, if_pos inside]
            · rw [if_neg inside, if_neg inside, h.slice_eq (by omega) (by omega)]
      · rw [if_neg header, if_neg header]

theorem Agree.compressionEnd_eq (h : Agree a b start stop) (hlow : start ≤ 43)
    (hs : compressionEnd a ≤ stop) : compressionEnd b = compressionEnd a := by
  unfold compressionEnd ciphersEnd at hs
  have hsession : sessionEnd b = sessionEnd a := by
    rw [sessionEnd, sessionEnd, h.same 43 hlow (by unfold sessionEnd at hs; omega)]
  have hafter : 44 ≤ sessionEnd a := Nat.le_add_right _ _
  have hciphers : ciphersEnd b = ciphersEnd a := by
    rw [ciphersEnd, ciphersEnd, hsession, h.be16_eq (by omega) (by omega)]
  rw [compressionEnd, compressionEnd, hciphers,
    h.same (ciphersEnd a) (by unfold ciphersEnd; omega) (by unfold ciphersEnd; omega)]

end Agree

-- A result that more bytes do not change, unless it says that bytes are missing.
def Settles {α : Type} (x y : Result α) : Prop := x ≠ .error .truncated → y = x

section Settles

variable {α : Type} {c c' : Prop} [Decidable c] [Decidable c'] {f g : Unit → Result α}

theorem Settles.of_arrived (hc : c → c') (h : c → Settles (f ()) (g ())) :
    Settles (require c .truncated >>= f) (require c' .truncated >>= g) := by
  rw [require_bind, require_bind]
  intro hx
  by_cases hp : c
  · rw [if_pos hp] at hx ⊢
    rw [if_pos (hc hp)]
    exact h hp hx
  · rw [if_neg hp] at hx
    exact absurd rfl hx

theorem Settles.of_same {status : PacketError} (hc : c ↔ c') (h : c → Settles (f ()) (g ())) :
    Settles (require c status >>= f) (require c' status >>= g) := by
  rw [require_bind, require_bind]
  intro hx
  by_cases hp : c
  · rw [if_pos hp] at hx ⊢
    rw [if_pos (hc.mp hp)]
    exact h hp hx
  · rw [if_neg hp, if_neg (mt hc.mpr hp)]

end Settles

-- More bytes do not change a final answer. The parser does not look at the version
-- and the length of the record.
theorem tlsParseClientHelloSni_settles {a b : Bytes} (hostOutSize : Nat)
    (hfirst : 5 ≤ a.length → byte a 0 = byte b 0) (hagree : Agree a b 5 a.length)
    (hcap : b.length ≤ TLS_CLIENTHELLO_CAP) :
    Settles (tlsParseClientHelloSni a hostOutSize) (tlsParseClientHelloSni b hostOutSize) := by
  have hlen := hagree.right
  rw [tlsParseClientHelloSni_eq, tlsParseClientHelloSni_eq]
  refine .of_same Iff.rfl fun _ => ?_
  refine .of_same (iff_of_true (by omega) hcap) fun _ => ?_
  refine .of_arrived (by omega) fun hfive => ?_
  refine .of_same (by rw [hfirst hfive]) fun _ => ?_
  refine .of_arrived (by omega) fun hnine => ?_
  refine .of_same (by rw [hagree.same 5 (by omega) (by omega)]) fun _ => ?_
  refine .of_same ?_ fun _ => ?_
  · rw [be24, be24, hagree.same 6 (by omega) (by omega), hagree.be16_eq (by omega) (by omega)]
  have hpos : extensionsStart a ≤ a.length → compressionEnd b = compressionEnd a := by
    intro hstart
    exact hagree.compressionEnd_eq (by omega) (by unfold extensionsStart at hstart; omega)
  have hafter : 44 ≤ compressionEnd a := by
    unfold compressionEnd ciphersEnd sessionEnd
    omega
  refine .of_arrived ?_ fun hstart => ?_
  · intro hstart
    rw [extensionsStart, hpos hstart]
    exact hstart.trans hlen
  have hend : be16 b (compressionEnd a) = be16 a (compressionEnd a) :=
    (hagree.be16_eq (by omega) (by unfold extensionsStart at hstart; omega)).symm
  have hstart' : extensionsStart b = extensionsStart a := by
    rw [extensionsStart, hpos hstart, extensionsStart]
  have hstop : extensionsEnd b = extensionsEnd a := by
    rw [extensionsEnd, hstart', hpos hstart, hend, extensionsEnd]
  rw [hpos hstart, hend, hstart', hstop]
  refine .of_same Iff.rfl fun _ => ?_
  refine .of_arrived (fun h => h.trans hlen) fun harrived => ?_
  have hblock : 5 ≤ extensionsStart a := by
    unfold extensionsStart
    omega
  rw [parseSniExtension_congr (hagree.mono harrived) hostOutSize hblock]
  exact fun _ => rfl

theorem agree_append (p rest : Bytes) (start : Nat) : Agree p (p ++ rest) start p.length where
  left := le_rfl
  right := by
    rw [List.length_append]
    omega
  same := by
    intro i _ hi
    rw [byte_append, if_pos hi]

theorem tlsParseClientHelloSni_append (p rest : Bytes) (hostOutSize : Nat)
    (hcap : (p ++ rest).length ≤ TLS_CLIENTHELLO_CAP) :
    Settles (tlsParseClientHelloSni p hostOutSize)
      (tlsParseClientHelloSni (p ++ rest) hostOutSize) := by
  refine tlsParseClientHelloSni_settles hostOutSize ?_ (agree_append p rest 5) hcap
  intro hfive
  rw [byte_append, if_pos (by omega)]

end DpiProxy.Tls
