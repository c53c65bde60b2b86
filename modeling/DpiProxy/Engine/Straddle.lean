import DpiProxy.Engine.Chain
import DpiProxy.Tls.ServerName

namespace DpiProxy.Engine

open Wire Packet Tls

-- A fragment that contains all `len` bytes of a field at a place of the IP payload.
def HoldsField (f : Fragment UInt8) (place len : Nat) : Prop := ∀ i < len, f.Covers (place + i)

instance (f : Fragment UInt8) (place len : Nat) : Decidable (HoldsField f place len) :=
  inferInstanceAs (Decidable (∀ i < len, f.offset ≤ place + i ∧ place + i < f.offset + f.data.length))

theorem holdsField_iff (f : Fragment UInt8) (place len : Nat) (hlen : 0 < len) :
    HoldsField f place len ↔ f.offset ≤ place ∧ place + len ≤ f.offset + f.data.length := by
  constructor
  · intro h
    have h₁ := (h 0 hlen).1
    have h₂ := (h (len - 1) (by omega)).2
    omega
  · intro h i hi
    exact ⟨by omega, by omega⟩

-- The IP payload is cut at the first multiple of IP_FRAG_UNIT at or after the middle
-- of the name. The second fragment never has the whole name; the first has it
-- exactly when that multiple lies behind the name, which takes a name of at most
-- 14 bytes.
theorem fragmentChain_straddles {raw : Bytes} (d : Datagram raw) (fakeTtl : UInt8)
    (socket : RawSocket) (chain : StrategyChain) (log log' : List Effect) (offset len : Nat)
    (hchain : chain.actions = [.fragment])
    (h : tryApplyChain fakeTtl socket raw d.tcpView chain log = (true, log'))
    (hname : SniField d.payload offset len) (hlen : 2 ≤ len) :
    let place := d.offset + offset
    let boundary := (place + len / 2 + IP_FRAG_UNIT - 1) / IP_FRAG_UNIT * IP_FRAG_UNIT
    ∃ frag1 frag2 sent, log' = log ++ ([.build [frag1, frag2]] ++ sent ++ [.verdict .drop]) ∧
      Injects [frag1, frag2] sent ∧
      fragmentOf frag1 = ⟨0, true, d.segment.take boundary⟩ ∧
      fragmentOf frag2 = ⟨boundary, false, d.segment.drop boundary⟩ ∧
      ¬HoldsField (fragmentOf frag2) place len ∧
      (¬HoldsField (fragmentOf frag1) place len ↔ boundary < place + len) ∧
      (15 ≤ len → ¬HoldsField (fragmentOf frag1) place len) := by
  intro place boundary
  obtain ⟨splitOffset, frag1, frag2, sent, hsplit, hbuilt, hi, hlog⟩ :=
    tryApplyChain_fragment hchain h
  have hmiddle : splitOffset = offset + len / 2 := by
    have hfound := (tlsFindSniSplit_iff d.payload _).mpr ⟨offset, len, hname, hlen, rfl⟩
    exact Option.some.inj (hsplit.symm.trans hfound)
  obtain ⟨d', -, -, hin, hf₁, hf₂⟩ := packetFragmentIpv4_ok hbuilt
  obtain rfl := d'.unique d
  have hcut : fragOffset d'.tcpView splitOffset = boundary := by
    simp only [fragOffset, hmiddle, boundary, place, Nat.add_assoc]
    rfl
  have hseg := d'.segment_length
  have htot := d'.total_lt
  have he₁ := hf₁.first_eq
  have he₂ := hf₂.last_eq (by simp only [IP_FRAG_UNIT]; omega)
  rw [hcut] at hin he₁ he₂
  have hlow : place + len / 2 ≤ boundary := by
    simp only [boundary, IP_FRAG_UNIT]
    omega
  have hup : boundary ≤ place + len / 2 + 7 := by
    simp only [boundary, IP_FRAG_UNIT]
    omega
  have hfirst : HoldsField (fragmentOf frag1) place len ↔ place + len ≤ boundary := by
    rw [holdsField_iff _ _ _ (by omega), he₁]
    simp only [List.length_take]
    omega
  refine ⟨frag1, frag2, sent, hlog, hi, he₁, he₂, ?_, ?_, ?_⟩
  · rw [holdsField_iff _ _ _ (by omega), he₂]
    dsimp only
    omega
  · rw [hfirst]
    omega
  · intro hlong
    rw [hfirst]
    omega

def helloDatagram : Datagram helloPacket where
  ihl := 20
  offset := 20
  total := 109
  version := rfl
  ihl_eq := rfl
  ihl_ge := .refl
  total_eq := rfl
  total_le := .refl
  whole := rfl
  tcp := rfl
  offset_eq := rfl
  offset_ge := .refl
  fits := by decide

theorem helloPacket_sniField : SniField helloDatagram.payload 61 4 := by
  have hstart : extensionsStart helloDatagram.payload = 52 := by decide +kernel
  have hlen : be16 helloDatagram.payload (52 + 4 + 3) = 4 := by decide +kernel
  refine ⟨by decide +kernel, by decide +kernel, by decide +kernel, ?_⟩
  have hname : FirstServerName helloDatagram.payload (extensionsEnd helloDatagram.payload) 52
      (52 + 4 + 5) (be16 helloDatagram.payload (52 + 4 + 3)) :=
    .here (by decide +kernel) (by decide +kernel) (by decide +kernel) (by decide +kernel)
      (by decide +kernel) (by decide +kernel)
  rw [hlen] at hname
  rw [hstart]
  exact hname

-- The name ends at byte 85 of the IP payload and the cut is at byte 88.
theorem helloPacket_applied : ∃ frag1 frag2 sent,
    tryApplyChain 8 (fun _ => true) helloPacket helloDatagram.tcpView (.single .fragment) [] =
      (true, .build [frag1, frag2] :: sent) ∧
    HoldsField (fragmentOf frag1) (helloDatagram.offset + 61) 4 := by
  have happlied : (tryApplyChain 8 (fun _ => true) helloPacket helloDatagram.tcpView
      (.single .fragment) []).1 = true := by decide +kernel
  have hmiddle : tlsFindSniSplit helloDatagram.tcpView.payload = some 63 := by decide +kernel
  have hholds : (packetFragmentIpv4 helloPacket 63).toOption.all (fun frags =>
      HoldsField (fragmentOf frags.1) (helloDatagram.offset + 61) 4) = true := by decide +kernel
  obtain ⟨splitOffset, frag1, frag2, sent, hsplit, hbuilt, -, hlog⟩ :=
    tryApplyChain_fragment rfl (Prod.ext happlied rfl)
  obtain rfl := Option.some.inj (hmiddle.symm.trans hsplit)
  rw [hbuilt] at hholds
  refine ⟨frag1, frag2, sent ++ [.verdict .drop], ?_, of_decide_eq_true hholds⟩
  exact Prod.ext happlied hlog

theorem fragmentChain_straddles_hello : ∃ frag1 frag2, ∃ sent : List Effect,
    tryApplyChain 8 (fun _ => true) helloPacket helloDatagram.tcpView (.single .fragment) [] =
      (true, [.build [frag1, frag2]] ++ sent ++ [.verdict .drop]) ∧
    ¬HoldsField (fragmentOf frag2) (helloDatagram.offset + 61) 4 := by
  obtain ⟨frag1, frag2, sent, happlied, -⟩ := helloPacket_applied
  obtain ⟨frag1', frag2', sent', hlog, -, -, -, hsecond, -⟩ := fragmentChain_straddles helloDatagram 8
    (fun _ => true) (.single .fragment) [] _ 61 4 rfl happlied helloPacket_sniField (by decide)
  refine ⟨frag1', frag2', sent', ?_, hsecond⟩
  rw [happlied, hlog, List.nil_append]

-- A short name that stays whole in the first fragment.
theorem fragmentChain_keeps_short_name : SniField helloDatagram.payload 61 4 ∧
    ∃ frag1 frag2 sent,
      tryApplyChain 8 (fun _ => true) helloPacket helloDatagram.tcpView (.single .fragment) [] =
        (true, .build [frag1, frag2] :: sent) ∧
      HoldsField (fragmentOf frag1) (helloDatagram.offset + 61) 4 :=
  ⟨helloPacket_sniField, helloPacket_applied⟩

end DpiProxy.Engine
