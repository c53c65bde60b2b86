import DpiProxy.Relay.Pump.Theorems

namespace DpiProxy.Relay

open Wire Wire.Record Tls

-- The loop of relay_connection around wait_readable: a wait that fails, or which sides
-- are ready.
inductive Awaited where
  | failed
  | ready (client upstream : Bool)
  | waiting
deriving DecidableEq, Repr

def awaitReadable : List PollResult → Awaited × List PollResult
  | [] => (.waiting, [])
  | .interrupted :: polls => awaitReadable polls
  | .failed :: polls => (.failed, polls)
  | .timeout :: polls => (.ready false false, polls)
  | .ready client upstream :: polls => (.ready client upstream, polls)

-- The two sockets after a call of relay_connection, and how the call stands.
structure Relayed where
  client : Socket
  upstream : Socket
  ended : PumpEnd
deriving DecidableEq, Repr

def pumped (client upstream : Socket) (polls : List PollResult) : Relayed :=
  let pump := relayPump client upstream polls
  ⟨pump.1.client, pump.1.upstream, pump.2⟩

def relayConnection (client upstream : Socket) (split : SplitMode) (polls : List PollResult) : Relayed :=
  if split = .none then pumped client upstream polls
  else
    match awaitReadable polls with
    | (.waiting, _) => ⟨client, upstream, .waiting⟩
    | (.failed, _) => ⟨client, upstream, .stopped⟩
    | (.ready clientReady _, polls) =>
        if !clientReady then pumped client upstream polls
        else
          match recvAgain BUFFER_SIZE client.arrivals with
          | none => ⟨client, upstream, .waiting⟩
          | some (.data bytes, left) =>
              let client := { client with arrivals := left }
              let first := relaySendFirst upstream.sends bytes split
              let upstream := { upstream with
                sends := first.left
                sent := upstream.sent ++ first.writes.flatten }
              match first.status with
              | .ok => pumped client upstream polls
              | .error => ⟨client, upstream, .stopped⟩
              | .blocked => ⟨client, upstream, .waiting⟩
          | some (_, left) => ⟨{ client with arrivals := left }, upstream, .stopped⟩


-- What the two peers hear through a relay: each a beginning of what the other has said,
-- and all of it if the relay ends by itself. The server hears it as `wire`, which has the
-- same records.
structure Carries (split : SplitMode) (client upstream : Socket) (wire : Bytes) (r : Relayed) : Prop where
  records : deframe wire = deframe (stream client.arrivals)
  plain : split = .none ∨ split = .tcp ∨ ¬[0x16, 0x03] <+: stream client.arrivals →
    wire = stream client.arrivals
  up : r.upstream.sent <+: upstream.sent ++ wire
  down : r.client.sent <+: client.sent ++ stream upstream.arrivals
  whole : r.ended = .finished →
    r.upstream.sent = upstream.sent ++ wire ∧ r.client.sent = client.sent ++ stream upstream.arrivals

theorem sendSplit_begins (script : List SendResult) (first second : Bytes) :
    (sendSplit script first second).writes.flatten <+: first ++ second := by
  unfold sendSplit
  dsimp only
  split
  · rename_i hok
    rw [List.flatten_append, relaySendAll_ok _ _ hok, List.prefix_append_right_inj]
    exact relaySendAll_begins _ _
  · exact (relaySendAll_begins _ _).trans (List.prefix_append _ _)

-- The bytes that a first write is meant to put on the wire: it puts a beginning of them
-- there, and all of them if it succeeds.
theorem relaySendFirst_wire (buf : Bytes) (mode : SplitMode) : ∃ wire,
    (∀ rest, deframe (wire ++ rest) = deframe (buf ++ rest)) ∧
    (mode = .none ∨ mode = .tcp ∨ ¬[0x16, 0x03] <+: buf → wire = buf) ∧
    (∀ script, (relaySendFirst script buf mode).writes.flatten <+: wire) ∧
    ∀ script, (relaySendFirst script buf mode).status = .ok →
      (relaySendFirst script buf mode).writes.flatten = wire := by
  obtain hall | ⟨first, second, hsplit, hout⟩ := relaySendFirst_cases buf mode
  · refine ⟨buf, fun _ => rfl, fun _ => rfl, fun script => ?_, fun script hok => ?_⟩
    · rw [hall]
      exact relaySendAll_begins _ _
    · rw [hall] at hok ⊢
      exact relaySendAll_ok _ _ hok
  · refine ⟨first ++ second, ?_, ?_, fun script => ?_, fun script hok => ?_⟩
    · obtain hsame | ⟨-, -, cut, hout⟩ := hout
      · rw [hsame]
        exact fun _ => rfl
      · exact tlsFragmentFirstRecord_deframe hout
    · obtain hsame | ⟨hnone, htcp, cut, hout⟩ := hout
      · exact fun _ => hsame
      · rintro (hmode | hmode | hstarts)
        · exact absurd hmode hnone
        · exact absurd hmode htcp
        · exact absurd (tlsFragmentFirstRecord_starts hout) hstarts
    · rw [hsplit]
      exact sendSplit_begins _ _ _
    · rw [hsplit] at hok ⊢
      exact sendSplit_ok _ _ _ hok

section Connection

variable {client upstream : Socket} {polls : List PollResult} {split : SplitMode}

theorem pumped_carries : Carries split client upstream (stream client.arrivals) (pumped client upstream polls) := by
  obtain ⟨hpart, hwhole⟩ := pumpLoop_spec polls (pumpStart client upstream)
  exact ⟨rfl, fun _ => rfl, hpart.up, hpart.down, fun hend => ⟨(hwhole hend).2, (hwhole hend).1⟩⟩

-- Nothing has passed.
theorem Carries.nothing {r : Relayed} (hclient : r.client.sent = client.sent)
    (hupstream : r.upstream.sent = upstream.sent) (hend : r.ended ≠ .finished) :
    Carries split client upstream (stream client.arrivals) r := by
  refine ⟨rfl, fun _ => rfl, ?_, ?_, fun h => absurd h hend⟩
  · rw [hupstream]
    exact List.prefix_append _ _
  · rw [hclient]
    exact List.prefix_append _ _

theorem relayConnection_carries :
    ∃ wire, Carries split client upstream wire (relayConnection client upstream split polls) := by
  unfold relayConnection
  split
  · exact ⟨_, pumped_carries⟩
  · split
    · exact ⟨_, .nothing rfl rfl (by simp)⟩
    · exact ⟨_, .nothing rfl rfl (by simp)⟩
    · split
      · exact ⟨_, pumped_carries⟩
      · split
        · exact ⟨_, .nothing rfl rfl (by simp)⟩
        · rename_i bytes left hrecv
          have hstream := recvAgain_data hrecv
          obtain ⟨wire, hrecords, hplain, hbegins, hall⟩ := relaySendFirst_wire bytes split
          refine ⟨wire ++ stream left, ?_⟩
          have hpart : upstream.sent ++ (relaySendFirst upstream.sends bytes split).writes.flatten <+:
              upstream.sent ++ (wire ++ stream left) := by
            rw [List.prefix_append_right_inj]
            exact (hbegins _).trans (List.prefix_append _ _)
          have hsame : split = .none ∨ split = .tcp ∨ ¬[0x16, 0x03] <+: stream client.arrivals →
              wire ++ stream left = stream client.arrivals := by
            intro hmode
            rw [hstream] at hmode ⊢
            rw [hplain (hmode.imp_right fun h => h.imp_right fun h hb => h (hb.trans (List.prefix_append _ _)))]
          have hframes : deframe (wire ++ stream left) = deframe (stream client.arrivals) := by
            rw [hrecords, hstream]
          have hrest : client.sent <+: client.sent ++ stream upstream.arrivals := List.prefix_append _ _
          dsimp only
          split
          · rename_i hok
            rw [hall _ hok]
            obtain ⟨-, -, hup, hdown, hwhole⟩ := @pumped_carries { client with arrivals := left }
              { upstream with
                sends := (relaySendFirst upstream.sends bytes split).left
                sent := upstream.sent ++ wire } _ split
            dsimp only at hup hdown hwhole
            rw [List.append_assoc] at hup hwhole
            exact ⟨hframes, hsame, hup, hdown, hwhole⟩
          · exact ⟨hframes, hsame, hpart, hrest, fun h => by simp at h⟩
          · exact ⟨hframes, hsame, hpart, hrest, fun h => by simp at h⟩
        · exact ⟨_, .nothing rfl rfl (by simp)⟩

end Connection

end DpiProxy.Relay
