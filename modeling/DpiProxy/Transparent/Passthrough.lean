import DpiProxy.Tls.Complete
import DpiProxy.Tls.Record.Merges
import DpiProxy.Transparent.Conn.Lemmas
import DpiProxy.Transparent.Hello

namespace DpiProxy.Transparent

open Wire Relay Tls

-- What the calls of recv on the client's socket meet after its first bytes. The client
-- closes its side at the end.
def laterReads : List Arrival → List RecvResult
  | [] => [.eof]
  | .silent :: arrivals => laterReads arrivals
  | .interrupted :: arrivals => .interrupted :: laterReads arrivals
  | .closed :: arrivals => .eof :: laterReads arrivals
  | .data bytes _ :: arrivals => .data bytes :: laterReads arrivals

-- The bytes that the client sends.
def clientStream (arrivals : List Arrival) : Bytes := stream (laterReads arrivals)

-- The two sockets after a call of passthrough, and how its relay stands: none if there
-- was no connection.
structure Passed where
  client : Socket
  upstream : Socket
  ended : Option PumpEnd
deriving DecidableEq, Repr

def passthrough (peer : Peer) (client : Socket) (hello : Bytes) (polls : List PollResult) : Passed :=
  let upstream : Socket := ⟨peer.sends, peer.arrivals, []⟩
  let pumped (upstream : Socket) : Passed :=
    let pump := relayPump client upstream polls
    ⟨pump.1.client, pump.1.upstream, some pump.2⟩
  if !peer.connects then ⟨client, upstream, none⟩
  else if hello.length = 0 then pumped upstream
  else
    let first := sendAll upstream hello
    match first.1 with
    | .ok => pumped first.2
    | .error => ⟨client, first.2, some .stopped⟩
    | .blocked => ⟨client, first.2, some .waiting⟩

-- The upstream connection hears what the client sends: a part of it, and all of it if
-- nothing cuts the relay short.
structure ByteExact (said : Bytes) (r : Passed) : Prop where
  part : r.upstream.sent <+: said
  whole : r.ended = some .finished → r.upstream.sent = said

section Collect

theorem collectHello_length (arrivals : List Arrival) {hello : Bytes} (h : hello.length ≤ BUFFER_SIZE) :
    (collectHello hello arrivals).hello.length ≤ BUFFER_SIZE := by
  induction arrivals generalizing hello with
  | nil => exact h
  | cons a left ih =>
      cases a with
      | silent => exact h
      | interrupted => exact ih h
      | closed => exact h
      | data bytes late =>
          have hread : (hello ++ bytes.take (BUFFER_SIZE - hello.length)).length ≤ BUFFER_SIZE := by
            rw [List.length_append, List.length_take]
            omega
          rw [collectHello]
          split
          · exact h
          · dsimp only
            split
            · exact hread
            · split
              · exact hread
              · exact ih hread
            · exact hread

theorem clientStream_data {bytes : Bytes} (hne : bytes ≠ []) (late : Bool) (left : List Arrival) :
    clientStream (.data bytes late :: left) = bytes ++ clientStream left := by
  rw [clientStream, laterReads, stream, if_neg hne]
  rfl

-- No byte of the client is lost or doubled while its first bytes are read.
theorem collectHello_stream (arrivals : List Arrival) (hello : Bytes) :
    (collectHello hello arrivals).hello ++ clientStream (collectHello hello arrivals).left =
      hello ++ clientStream arrivals := by
  induction arrivals generalizing hello with
  | nil => rfl
  | cons a left ih =>
      cases a with
      | silent => rfl
      | interrupted => exact ih hello
      | closed => rfl
      | data bytes late =>
          rw [collectHello]
          by_cases hempty : bytes.length = 0
          · obtain rfl := List.length_eq_zero_iff.mp hempty
            rfl
          · have hne : bytes ≠ [] := fun hnil => hempty (List.length_eq_zero_iff.mpr hnil)
            rw [if_neg hempty, clientStream_data hne]
            dsimp only
            have hkept : (hello ++ bytes.take (BUFFER_SIZE - hello.length)) ++ clientStream
                (if bytes.length ≤ BUFFER_SIZE - hello.length then left
                  else .data (bytes.drop (BUFFER_SIZE - hello.length)) late :: left) =
                hello ++ (bytes ++ clientStream left) := by
              by_cases hfits : bytes.length ≤ BUFFER_SIZE - hello.length
              · rw [if_pos hfits, List.take_of_length_le hfits, List.append_assoc]
              · have hrest : bytes.drop (BUFFER_SIZE - hello.length) ≠ [] := by
                  rw [ne_eq, List.drop_eq_nil_iff]
                  exact hfits
                rw [if_neg hfits, clientStream_data hrest, List.append_assoc, ← List.append_assoc (bytes.take _),
                  List.take_append_drop]
            split
            · exact hkept
            · split
              · exact hkept
              · -- the loop goes on only while the buffer has room, so the chunk was read whole
                rename_i hroom
                rw [not_or, List.length_append, List.length_take] at hroom
                have hall : bytes.take (BUFFER_SIZE - hello.length) = bytes :=
                  List.take_of_length_le (by omega)
                rw [hall, ih, List.append_assoc]
            · exact hkept

end Collect

section Run

variable {peer : Peer} {client : Socket} {hello : Bytes} {polls : List PollResult}

theorem relayPump_exact (upstream : Socket) :
    (relayPump client upstream polls).1.upstream.sent <+: upstream.sent ++ stream client.arrivals ∧
      ((relayPump client upstream polls).2 = .finished →
        (relayPump client upstream polls).1.upstream.sent = upstream.sent ++ stream client.arrivals) := by
  obtain ⟨hpart, hfinished⟩ := pumpLoop_spec polls (pumpStart client upstream)
  exact ⟨hpart.up, fun hend => (hfinished hend).2⟩

-- The upstream connection hears the first bytes as they are kept, then the rest.
theorem passthrough_exact : ByteExact (hello ++ stream client.arrivals) (passthrough peer client hello polls) := by
  unfold passthrough
  dsimp only
  by_cases hconnects : peer.connects = true
  · rw [hconnects]
    by_cases hempty : hello.length = 0
    · obtain rfl := List.length_eq_zero_iff.mp hempty
      obtain ⟨hpart, hwhole⟩ := @relayPump_exact client polls ⟨peer.sends, peer.arrivals, []⟩
      exact ⟨hpart, fun hend => hwhole (Option.some.inj hend)⟩
    · have hbegins := relaySendAll_begins peer.sends hello
      have hpart := hbegins.trans (List.prefix_append hello (stream client.arrivals))
      simp only [Bool.not_true, Bool.false_eq_true, if_false, if_neg hempty]
      split
      · rename_i hok
        have hsent := relaySendAll_ok peer.sends hello hok
        obtain ⟨hpart, hwhole⟩ := @relayPump_exact client polls
          (sendAll ⟨peer.sends, peer.arrivals, []⟩ hello).2
        have hstart : (sendAll ⟨peer.sends, peer.arrivals, []⟩ hello).2.sent = hello := hsent
        rw [hstart] at hpart hwhole
        exact ⟨hpart, fun hend => hwhole (Option.some.inj hend)⟩
      · exact ⟨hpart, nofun⟩
      · exact ⟨hpart, nofun⟩
  · rw [Bool.not_eq_true] at hconnects
    rw [hconnects]
    exact ⟨List.nil_prefix, nofun⟩

theorem relayPump_finishes {upstream : Socket} (hup : Flows client upstream) (hdown : Flows upstream client)
    (hclient : Faultless client) (hupstream : Faultless upstream)
    (hclientPolls : reads client.arrivals ≤ clientWakes polls)
    (hupstreamPolls : reads upstream.arrivals ≤ upstreamWakes polls)
    (hpolled : .failed ∉ polls) (hwaited : .timeout ∉ polls) :
    (relayPump client upstream polls).2 = .finished := by
  have hreturns := pumpLoop_returns polls (pumpStart client upstream) ⟨fun _ => hup, fun _ => hdown⟩
    (fun _ => hclientPolls) fun _ => hupstreamPolls
  have hsafe := pumpLoop_safe polls (pumpStart client upstream) hclient hupstream hpolled hwaited
  cases hend : (relayPump client upstream polls).2 with
  | finished => rfl
  | stopped => exact absurd hend hsafe
  | waiting => exact absurd hend hreturns

-- Over sockets that take everything passthrough comes to its end.
theorem passthrough_finishes (hconnects : peer.connects = true) (henough : Enough peer hello client polls)
    (hfree : ErrorFree peer client polls) : (passthrough peer client hello polls).ended = some .finished := by
  have hroom := henough.up
  obtain ⟨hok, hleft, hprogress⟩ := relaySendAll_progress peer.sends hello hfree.sends (by omega)
  unfold passthrough
  simp only [hconnects, Bool.not_true, Bool.false_eq_true, if_false]
  by_cases hempty : hello.length = 0
  · rw [if_pos hempty, relayPump_finishes ⟨henough.closes, by dsimp only; omega⟩
      ⟨henough.answers, henough.down⟩ hfree.socket ⟨hfree.sends, hfree.arrivals⟩ henough.clientPolls
      henough.upstreamPolls hfree.polled hfree.waited]
  · rw [if_neg hempty]
    simp only [sendAll, hok]
    rw [relayPump_finishes ⟨henough.closes, by dsimp only; omega⟩ ⟨henough.answers, henough.down⟩
      hfree.socket ⟨hleft, hfree.arrivals⟩ henough.clientPolls henough.upstreamPolls hfree.polled
      hfree.waited]

end Run

section Willing

-- An upstream connection that takes everything and answers nothing.
def willingPeer (bytes : Nat) : Peer := ⟨true, List.replicate bytes (.sent 1), false, [.eof]⟩

theorem progress_replicate (n : Nat) : progress (List.replicate n (.sent 1)) = n := by
  induction n with
  | zero => rfl
  | succ n ih => rw [List.replicate_succ, progress, ih]

theorem clientWakes_replicate (n : Nat) : clientWakes (List.replicate n (.ready true true)) = n := by
  induction n with
  | zero => rfl
  | succ n ih =>
      rw [List.replicate_succ, clientWakes, ih]
      rfl

theorem upstreamWakes_replicate (n : Nat) : upstreamWakes (List.replicate n (.ready true true)) = n := by
  induction n with
  | zero => rfl
  | succ n ih =>
      rw [List.replicate_succ, upstreamWakes, ih]
      rfl

theorem laterReads_ends (arrivals : List Arrival) : ends (laterReads arrivals) = true := by
  induction arrivals with
  | nil => rfl
  | cons a arrivals ih =>
      cases a with
      | silent => exact ih
      | interrupted => exact ih
      | closed => rfl
      | data bytes late =>
          rw [laterReads, ends, ih]
          exact Bool.or_true _

theorem laterReads_noFailure (arrivals : List Arrival) : RecvResult.failed ∉ laterReads arrivals := by
  induction arrivals with
  | nil => simp [laterReads]
  | cons a arrivals ih => cases a <;> simp [laterReads, ih]

theorem willing_finishes (hello : Bytes) (later : List Arrival) :
    ∃ peer polls, (passthrough peer ⟨[], laterReads later, []⟩ hello polls).ended = some .finished := by
  have hpositive := reads_pos (laterReads_ends later)
  refine ⟨willingPeer (hello.length + 5 + (clientStream later).length),
    List.replicate (reads (laterReads later)) (.ready true true), passthrough_finishes rfl ?_ ?_⟩
  · refine ⟨rfl, laterReads_ends later, Nat.zero_le _, ?_, ?_, ?_⟩
    · exact (progress_replicate _).ge
    · exact (clientWakes_replicate _).ge
    · rw [upstreamWakes_replicate]
      exact hpositive
  · refine ⟨⟨nofun, laterReads_noFailure later⟩, ?_, by simp [willingPeer], by simp, by simp⟩
    intro r hr
    obtain ⟨-, rfl⟩ := List.mem_replicate.mp hr
    exact ⟨nofun, nofun⟩

end Willing

-- A connection without a host is passed through as the client sent it, except that two
-- or more handshake records at its start are merged.
theorem passthrough_exact_iff (arrivals : List Arrival) :
    (∀ peer sends polls, ByteExact (clientStream arrivals) (passthrough peer
      ⟨sends, laterReads (readClientHello arrivals).left, []⟩ (readClientHello arrivals).hello polls)) ↔
      ¬Merges (collectHello [] arrivals).hello := by
  have hsize : (collectHello [] arrivals).hello.length ≤ BUFFER_SIZE :=
    collectHello_length arrivals (Nat.zero_le _)
  have hsaid := collectHello_stream arrivals []
  rw [List.nil_append] at hsaid
  have hleft : (readClientHello arrivals).left = (collectHello [] arrivals).left := rfl
  constructor
  · intro hexact hmerges
    obtain ⟨merged, hmerged⟩ := (tlsCoalesceHandshakeRecords_isSome hsize).mpr hmerges
    have hless := (tlsCoalesceHandshakeRecords_shorter hmerged).1
    have hkept : (readClientHello arrivals).hello = merged := by
      rw [readClientHello, hmerged]
      rfl
    obtain ⟨peer, polls, hend⟩ := willing_finishes merged (collectHello [] arrivals).left
    have hwhole := (hexact peer [] polls).whole
    rw [hkept, hleft] at hwhole
    have hsent := (@passthrough_exact peer ⟨[], laterReads (collectHello [] arrivals).left, []⟩ merged
      polls).whole hend
    have hlen := congrArg List.length (hsent.symm.trans ((hwhole hend).trans hsaid.symm))
    rw [List.length_append, List.length_append, clientStream] at hlen
    dsimp only at hlen
    omega
  · intro hno peer sends polls
    have hkept : (readClientHello arrivals).hello = (collectHello [] arrivals).hello := by
      rw [readClientHello]
      cases hmerged : tlsCoalesceHandshakeRecords (collectHello [] arrivals).hello BUFFER_SIZE with
      | none => rfl
      | some merged => exact absurd ((tlsCoalesceHandshakeRecords_isSome hsize).mp ⟨merged, hmerged⟩) hno
    rw [hkept, hleft, ← hsaid]
    exact @passthrough_exact peer ⟨sends, laterReads (collectHello [] arrivals).left, []⟩
      (collectHello [] arrivals).hello polls

-- A ClientHello without a server name.
def namelessHello : ClientHello :=
  { sampleHello with
    extensions := sampleHello.extensions.take 1
    extensions_length := by decide }

-- It arrives in two records, with three bytes of the handshake in the first.
def namelessArrivals : List Arrival :=
  [.data ((tlsFragmentFirstRecord namelessHello.bytes 3 100).getD []) false, .closed]

def eagerPeer : Peer := ⟨true, [.sent 100], false, [.eof]⟩

-- The server sees one record.
theorem namelessArrivals_merged :
    (readClientHello namelessArrivals).host = [] ∧
    (let r := passthrough eagerPeer ⟨[], laterReads (readClientHello namelessArrivals).left, []⟩
      (readClientHello namelessArrivals).hello [.ready true true]
    r.ended = some .finished ∧ r.upstream.sent = namelessHello.bytes ∧
      ¬ByteExact (clientStream namelessArrivals) r) := by
  have hsent : (passthrough eagerPeer ⟨[], laterReads (readClientHello namelessArrivals).left, []⟩
      (readClientHello namelessArrivals).hello [.ready true true]).upstream.sent = namelessHello.bytes := by
    decide +kernel
  have hend : (passthrough eagerPeer ⟨[], laterReads (readClientHello namelessArrivals).left, []⟩
      (readClientHello namelessArrivals).hello [.ready true true]).ended = some .finished := by
    decide +kernel
  have hother : namelessHello.bytes ≠ clientStream namelessArrivals := by decide +kernel
  refine ⟨by decide +kernel, hend, hsent, fun hexact => hother ?_⟩
  exact hsent.symm.trans (hexact.whole hend)

end DpiProxy.Transparent
