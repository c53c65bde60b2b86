import DpiProxy.Relay.Pump.Theorems

namespace DpiProxy.Relay

open Wire

-- How a call that reads an exact number of bytes stands.
inductive Received where
  | all (bytes : Bytes)
  | eof
  | error
  | blocked
deriving DecidableEq, Repr

-- The loop of recv_exact with p[0 .. total). A chunk that does not fill the buffer is
-- read whole.
def recvExactLoop (length : Nat) : Bytes → List RecvResult → Received × List RecvResult
  | got, [] => (if got.length < length then .blocked else .all got, [])
  | got, r :: arrivals =>
      if got.length < length then
        match recv (length - got.length) (r :: arrivals) with
        | none => (.blocked, r :: arrivals)
        | some (.interrupted, _) => recvExactLoop length got arrivals
        | some (.failed, left) => (.error, left)
        | some (.eof, left) => (.eof, left)
        | some (.data bytes, left) =>
            if (got ++ bytes).length < length then recvExactLoop length (got ++ bytes) arrivals
            else (.all (got ++ bytes), left)
      else (.all got, r :: arrivals)

def recvExact (length : Nat) (arrivals : List RecvResult) : Received × List RecvResult :=
  recvExactLoop length [] arrivals

-- What comes behind the bytes of a stream.
def ending : List RecvResult → Received
  | [] => .blocked
  | .interrupted :: arrivals => ending arrivals
  | .failed :: _ => .error
  | .eof :: _ => .eof
  | .data bytes :: arrivals => if bytes = [] then .eof else ending arrivals

-- One call of send(2), whose result is compared with the length.
def send : List SendResult → Bytes → Sent
  | [], _ => ⟨.blocked, [], []⟩
  | .sent count :: script, buffer =>
      ⟨if min count buffer.length = buffer.length then .ok else .error, [buffer.take count], script⟩
  | _ :: script, _ => ⟨.error, [], script⟩

section Loop

variable {length : Nat} {got : Bytes}

theorem recvExactLoop_full (arrivals : List RecvResult) (hfull : length ≤ got.length) :
    recvExactLoop length got arrivals = (.all got, arrivals) := by
  cases arrivals with
  | nil => rw [recvExactLoop, if_neg (by omega)]
  | cons r arrivals => rw [recvExactLoop, if_neg (by omega)]

-- A chunk that fills the buffer stays in the socket in part.
theorem recv_fills (size : Nat) {bytes : Bytes} (arrivals : List RecvResult) (hne : bytes ≠ []) :
    ∃ left, recv size (.data bytes :: arrivals) = some (.data (bytes.take size), left) ∧
      stream left = bytes.drop size ++ stream arrivals ∧ ending left = ending arrivals := by
  rw [recv, if_neg hne]
  refine ⟨_, rfl, ?_⟩
  by_cases hall : bytes.length ≤ size
  · rw [if_pos hall, List.drop_of_length_le hall]
    exact ⟨rfl, rfl⟩
  · have hmore : bytes.drop size ≠ [] := by
      rw [Ne, List.drop_eq_nil_iff]
      exact hall
    rw [if_neg hall, stream, if_neg hmore, ending, if_neg hmore]
    exact ⟨rfl, rfl⟩

-- The loop takes what it lacks off the front of the stream, or comes to its ending.
theorem recvExactLoop_spec (arrivals : List RecvResult) (hgot : got.length ≤ length) :
    (length ≤ (got ++ stream arrivals).length → ∃ left,
      recvExactLoop length got arrivals = (.all ((got ++ stream arrivals).take length), left) ∧
        stream left = (got ++ stream arrivals).drop length ∧ ending left = ending arrivals) ∧
    ((got ++ stream arrivals).length < length → (recvExactLoop length got arrivals).1 = ending arrivals) := by
  induction arrivals generalizing got with
  | nil =>
      rw [stream, List.append_nil, recvExactLoop]
      refine ⟨fun hle => ⟨[], ?_, ?_, rfl⟩, fun hlt => by rw [if_pos hlt]; rfl⟩
      · rw [if_neg (by omega), List.take_of_length_le (by omega)]
      · rw [List.drop_of_length_le (by omega)]
        rfl
  | cons r arrivals ih =>
      by_cases hshort : got.length < length
      · cases r with
        | interrupted => simpa only [recvExactLoop, hshort, if_true, recv, stream, ending] using ih hgot
        | failed =>
            simp only [recvExactLoop, hshort, if_true, recv, stream, ending, List.append_nil, implies_true, and_true]
            exact fun hle => absurd hle (by omega)
        | eof =>
            simp only [recvExactLoop, hshort, if_true, recv, stream, ending, List.append_nil, implies_true, and_true]
            exact fun hle => absurd hle (by omega)
        | data bytes =>
            by_cases hnil : bytes = []
            · simp only [recvExactLoop, hshort, if_true, recv, stream, ending, hnil, List.append_nil, implies_true,
                and_true]
              exact fun hle => absurd hle (by omega)
            · by_cases hgoes : (got ++ bytes).length < length
              · have hfits : bytes.length ≤ length - got.length := by
                  rw [List.length_append] at hgoes
                  omega
                have hrest := @ih (got ++ bytes) hgoes.le
                rw [List.append_assoc] at hrest
                simpa only [recvExactLoop, hshort, if_true, recv, hnil, if_false, stream, ending,
                  List.take_of_length_le hfits, hgoes] using hrest
              · rw [List.length_append] at hgoes
                have hsize : length - got.length ≤ bytes.length := by omega
                obtain ⟨left, hrecv, hstream, hending⟩ := recv_fills (length - got.length) arrivals hnil
                have hlen : (got ++ bytes.take (length - got.length)).length = length := by
                  rw [List.length_append, List.length_take_of_le hsize]
                  omega
                simp only [recvExactLoop, hshort, if_true, hrecv, hlen, lt_irrefl, if_false, stream, hnil, ending]
                refine ⟨fun _ => ⟨left, ?_, ?_, hending⟩, fun hlt => ?_⟩
                · rw [List.take_append, List.take_of_length_le hgot, List.take_append_of_le_length hsize]
                · rw [List.drop_append, List.drop_of_length_le hgot, List.drop_append_of_le_length hsize,
                    List.nil_append, hstream]
                · simp only [List.length_append] at hlt
                  omega
      · have hfull : length ≤ got.length := Nat.le_of_not_lt hshort
        rw [recvExactLoop_full _ hfull, List.take_append_of_le_length hfull,
          List.take_of_length_le hgot, List.drop_append, List.drop_of_length_le hgot, List.nil_append,
          Nat.sub_eq_zero_of_le hfull, List.drop_zero]
        exact ⟨fun _ => ⟨_, rfl, rfl, rfl⟩, fun hlt => absurd hlt (by rw [List.length_append]; omega)⟩

end Loop

section Send

variable {buffer : Bytes}

theorem send_whole {count : Nat} (script : List SendResult) (h : buffer.length ≤ count) :
    send (.sent count :: script) buffer = ⟨.ok, [buffer], script⟩ := by
  rw [send, Nat.min_eq_right h, if_pos rfl, List.take_of_length_le h]

theorem send_ok {script : List SendResult} (h : (send script buffer).status = .ok) :
    ∃ count left, script = .sent count :: left ∧ buffer.length ≤ count := by
  cases script with
  | nil => cases h
  | cons r script =>
      cases r with
      | interrupted => cases h
      | failed => cases h
      | sent count =>
          refine ⟨count, script, rfl, ?_⟩
          by_contra hless
          rw [send, if_neg (by omega)] at h
          cases h

theorem send_begins (script : List SendResult) : (send script buffer).writes.flatten <+: buffer := by
  cases script with
  | nil => exact List.nil_prefix
  | cons r script =>
      cases r with
      | interrupted => exact List.nil_prefix
      | failed => exact List.nil_prefix
      | sent count =>
          rw [send, List.flatten_singleton]
          exact List.take_prefix _ _

end Send

section Received

variable {length : Nat} {arrivals : List RecvResult}

theorem recvExact_all (h : length ≤ (stream arrivals).length) : ∃ left,
    recvExact length arrivals = (.all ((stream arrivals).take length), left) ∧
      stream left = (stream arrivals).drop length ∧ ending left = ending arrivals :=
  (recvExactLoop_spec arrivals (Nat.zero_le length)).1 h

theorem recvExact_short (h : (stream arrivals).length < length) :
    (recvExact length arrivals).1 = ending arrivals :=
  (recvExactLoop_spec arrivals (Nat.zero_le length)).2 h

theorem ending_ne_all (bytes : Bytes) : ending arrivals ≠ .all bytes := by
  induction arrivals with
  | nil => simp [ending]
  | cons r arrivals ih =>
      cases r with
      | interrupted => exact ih
      | failed => simp [ending]
      | eof => simp [ending]
      | data chunk =>
          rw [ending]
          split
          · simp
          · exact ih

end Received

end DpiProxy.Relay
