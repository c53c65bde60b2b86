import DpiProxy.Wire.Bytes

namespace Wire

-- A 16-bit field by itself.
def field16 (n : Nat) : Bytes := [hi8 n, lo8 n]

theorem be16_field16 {n : Nat} (h : n < 65536) (rest : Bytes) : be16 (field16 n ++ rest) 0 = n := by
  have hhi := hi8_toNat n h
  have hlo := lo8_toNat n
  simp only [be16, byte, field16, List.cons_append, List.getD_cons_zero, List.getD_cons_succ, hhi, hlo]
  omega

theorem field16_be16 {b : Bytes} (h : b.length = 2) : field16 (be16 b 0) = b := by
  match b, h with
  | [x, y], _ =>
      have hx := x.toNat_lt
      have hy := y.toNat_lt
      have hvalue : be16 [x, y] 0 = x.toNat * 256 + y.toNat := rfl
      have hhi : hi8 (x.toNat * 256 + y.toNat) = x := by
        apply UInt8.toNat_inj.mp
        rw [hi8_toNat _ (by omega)]
        omega
      have hlo : lo8 (x.toNat * 256 + y.toNat) = y := by
        apply UInt8.toNat_inj.mp
        rw [lo8_toNat]
        omega
      rw [field16, hvalue, hhi, hlo]

-- A message behind its length.
def frame (message : Bytes) : Bytes := field16 message.length ++ message

-- The whole messages at the front of a stream of frames.
def unframe (stream : Bytes) : List Bytes :=
  if stream.length < 2 ∨ stream.length < 2 + be16 stream 0 then []
  else slice stream 2 (be16 stream 0) :: unframe (stream.drop (2 + be16 stream 0))
termination_by stream.length
decreasing_by
  rw [List.length_drop]
  omega

theorem length_frame (message : Bytes) : (frame message).length = 2 + message.length := by
  rw [frame, List.length_append]
  rfl

theorem be16_frame {message : Bytes} (h : message.length < 65536) (rest : Bytes) :
    be16 (frame message ++ rest) 0 = message.length := by
  rw [frame, List.append_assoc, be16_field16 h]

theorem unframe_frame {message : Bytes} (h : message.length < 65536) (rest : Bytes) :
    unframe (frame message ++ rest) = message :: unframe rest := by
  have hlen : (frame message ++ rest).length = 2 + message.length + rest.length := by
    rw [List.length_append, length_frame]
  have hslice : slice (frame message ++ rest) 2 message.length = message := by
    have htail : (field16 message.length ++ (message ++ rest)).drop 2 = message ++ rest := List.drop_left' rfl
    rw [slice, frame, List.append_assoc, htail, List.take_left]
  have hdrop : (frame message ++ rest).drop (2 + message.length) = rest :=
    List.drop_left' (length_frame message)
  rw [unframe, be16_frame h, if_neg (by omega), hslice, hdrop]

theorem unframe_frames {messages : List Bytes} (h : ∀ m ∈ messages, m.length < 65536) (rest : Bytes) :
    unframe ((messages.map frame).flatten ++ rest) = messages ++ unframe rest := by
  induction messages with
  | nil => rfl
  | cons m messages ih =>
      have hrest := ih fun m' hm' => h m' (List.mem_cons_of_mem _ hm')
      rw [List.map_cons, List.flatten_cons, List.append_assoc, unframe_frame (h m List.mem_cons_self), hrest,
        List.cons_append]

-- A stream that is cut off has the first of the messages.
theorem unframe_begins {messages : List Bytes} (h : ∀ m ∈ messages, m.length < 65536) {part : Bytes}
    (hpart : part <+: (messages.map frame).flatten) : unframe part <+: messages := by
  induction messages generalizing part with
  | nil =>
      obtain rfl := List.prefix_nil.mp hpart
      have hnil : unframe [] = [] := by rw [unframe, if_pos (.inl (by simp))]
      simp [hnil]
  | cons m messages ih =>
      rw [List.map_cons, List.flatten_cons] at hpart
      have hlt := h m List.mem_cons_self
      by_cases hwhole : (frame m).length ≤ part.length
      · obtain ⟨rest, rfl⟩ := List.prefix_of_prefix_length_le (List.prefix_append _ _) hpart hwhole
        rw [List.prefix_append_right_inj] at hpart
        rw [unframe_frame hlt, List.prefix_cons_inj]
        exact ih (fun m' hm' => h m' (List.mem_cons_of_mem _ hm')) hpart
      · have hfirst : part <+: frame m :=
          List.prefix_of_prefix_length_le hpart (List.prefix_append _ _) (by omega)
        obtain ⟨more, hmore⟩ := hfirst
        have hlen := congrArg List.length hmore
        rw [List.length_append, length_frame] at hlen
        rw [length_frame] at hwhole
        rw [unframe, if_pos]
        · exact List.nil_prefix
        · by_cases htwo : part.length < 2
          · exact .inl htwo
          · have hfield : be16 part 0 = m.length := by
              have hsame := be16_frame hlt []
              rw [List.append_nil, ← hmore] at hsame
              rw [← hsame, be16, be16, byte_append, byte_append, if_pos (by omega), if_pos (by omega)]
            rw [hfield]
            omega

end Wire
