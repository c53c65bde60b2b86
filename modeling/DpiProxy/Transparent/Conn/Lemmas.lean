import DpiProxy.Relay.Pump.Faults
import DpiProxy.Relay.Pump.Returns
import DpiProxy.Transparent.Conn

namespace DpiProxy.Transparent

open Wire Wire.Record Tls Relay

section Attempt

-- The call of relay_send_first in an attempt.
def firstFlight (peer : Peer) (hello : Bytes) (step : TpStep) : Sent :=
  relaySendFirst peer.sends hello (relaySplitFor step.strategy)

-- The sends of an attempt succeed.
def FirstSent (peer : Peer) (hello : Bytes) (step : TpStep) : Prop :=
  peer.connects = true ∧ (firstFlight peer hello step).status = .ok

def flightBytes (peer : Peer) (hello : Bytes) (step : TpStep) : Bytes :=
  if peer.connects then (firstFlight peer hello step).writes.flatten else []

-- A connection that has answered, with the answer that was read from it.
structure Live (peer : Peer) (hello : Bytes) (step : TpStep) (reply : Bytes) (s : Socket) : Prop where
  sent : FirstSent peer hello step
  arrivals : recvReply peer.arrivals = some (.data reply, s.arrivals)
  sends : s.sends = (firstFlight peer hello step).left

-- An attempt opens one connection, sends the first flight over it and touches no other.
structure AttemptSpec (peers : Nat → Peer) (c : ConnState) (step : TpStep) (a : Attempt) (s : Socket) :
    Prop where
  client : a.conn.client = c.client
  hello : a.conn.hello = c.hello
  upstreams : a.conn.upstreams = c.upstreams ++ [s]
  sent : s.sent = flightBytes (peers c.upstreams.length) c.hello step
  live : ∀ r, a.result = some r → r.answered = true →
    a.upstream = some c.upstreams.length ∧
      Live (peers c.upstreams.length) c.hello step a.conn.reply s

-- Every result but OK and ALERT.
theorem absurd_answered {r r' : TpResult} {P : Prop} (hr : r.answered = false) (h : some r = some r')
    (hr' : r'.answered = true) : P := by
  rw [← Option.some.inj h, hr] at hr'
  cases hr'

theorem readReply_spec (c : ConnState) (s : Socket) :
    ∃ left, (readReply c s).conn.client = c.client ∧ (readReply c s).conn.hello = c.hello ∧
      (readReply c s).conn.upstreams = c.upstreams ++ [{ s with arrivals := left }] ∧
      ∀ r, (readReply c s).result = some r → r.answered = true →
        (readReply c s).upstream = some c.upstreams.length ∧
          recvReply s.arrivals = some (.data (readReply c s).conn.reply, left) := by
  have hlast : ∀ s, (openUpstream c s).upstreams.length - 1 = c.upstreams.length := by
    intro s
    rw [openUpstream, List.length_append, List.length_singleton, Nat.add_sub_cancel]
  unfold readReply
  split
  · exact ⟨s.arrivals, rfl, rfl, rfl, nofun⟩
  · rename_i bytes left hrecv
    refine ⟨left, ?_⟩
    dsimp only
    split
    · exact ⟨rfl, rfl, rfl, fun _ _ _ => ⟨congrArg some (hlast _), hrecv⟩⟩
    · split
      · exact ⟨rfl, rfl, rfl, fun _ _ _ => ⟨congrArg some (hlast _), hrecv⟩⟩
      · exact ⟨rfl, rfl, rfl, fun r hr => absurd_answered rfl hr⟩
  · exact ⟨_, rfl, rfl, rfl, fun r hr => absurd_answered rfl hr⟩
  · exact ⟨_, rfl, rfl, rfl, fun r hr => absurd_answered rfl hr⟩

theorem attempt_spec (peers : Nat → Peer) (c : ConnState) (step : TpStep) :
    ∃ s, AttemptSpec peers c step (attempt peers c step) s := by
  unfold attempt
  dsimp only
  by_cases hconnects : (peers c.upstreams.length).connects = true
  · have hbytes : flightBytes (peers c.upstreams.length) c.hello step =
        (firstFlight (peers c.upstreams.length) c.hello step).writes.flatten := by
      rw [flightBytes, if_pos hconnects]
    rw [hconnects, if_neg (by decide)]
    split
    · exact ⟨_, rfl, rfl, rfl, hbytes.symm, nofun⟩
    · exact ⟨_, rfl, rfl, rfl, hbytes.symm, fun r hr => absurd_answered rfl hr⟩
    · rename_i hok
      split
      · exact ⟨_, rfl, rfl, rfl, hbytes.symm, fun r hr => absurd_answered rfl hr⟩
      · obtain ⟨left, hclient, hhello, hupstreams, hlive⟩ := readReply_spec c
          ⟨(firstFlight (peers c.upstreams.length) c.hello step).left,
            (peers c.upstreams.length).arrivals,
            (firstFlight (peers c.upstreams.length) c.hello step).writes.flatten⟩
        exact ⟨_, hclient, hhello, hupstreams, hbytes.symm,
          fun r hr hanswered => ⟨(hlive r hr hanswered).1, ⟨hconnects, hok⟩, (hlive r hr hanswered).2, rfl⟩⟩
  · rw [Bool.not_eq_true] at hconnects
    rw [hconnects, if_pos (by decide)]
    refine ⟨_, rfl, rfl, rfl, ?_, fun r hr => absurd_answered rfl hr⟩
    rw [flightBytes, hconnects, if_neg Bool.false_ne_true]

end Attempt

section Commit

variable {c : ConnState} {upstream : Nat} {s : Socket}

-- What a commit does: it speaks to the client and to its own connection only.
structure CommitSpec (c : ConnState) (upstream : Nat) (s : Socket) (k : ConnState × PumpEnd)
    (tail : Bytes) : Prop where
  client : k.1.client.sent <+: c.client.sent ++ (c.reply ++ stream s.arrivals)
  upstreams : ∃ s', k.1.upstreams = c.upstreams.set upstream s' ∧ s'.sent = s.sent ++ tail
  part : tail <+: stream c.client.arrivals
  finished : k.2 = .finished →
    k.1.client.sent = c.client.sent ++ (c.reply ++ stream s.arrivals) ∧
      tail = stream c.client.arrivals

theorem commitRelay_spec (hs : c.upstreams[upstream]? = some s) (polls : List PollResult) :
    ∃ tail, CommitSpec c upstream s (commitRelay c upstream polls) tail := by
  have hsame : c.upstreams = c.upstreams.set upstream s := by
    obtain ⟨hlt, hget⟩ := List.getElem?_eq_some_iff.mp hs
    rw [← hget, List.set_getElem_self]
  have hbegins := relaySendAll_begins c.client.sends c.reply
  have hcut : c.client.sent ++ (relaySendAll c.client.sends c.reply).writes.flatten <+:
      c.client.sent ++ (c.reply ++ stream s.arrivals) :=
    (List.prefix_append_right_inj _).mpr (hbegins.trans (List.prefix_append _ _))
  unfold commitRelay
  rw [hs]
  dsimp only
  split
  · rename_i hok
    have hreply : (sendAll c.client c.reply).2.sent = c.client.sent ++ c.reply := by
      rw [sendAll, relaySendAll_ok _ _ hok]
    obtain ⟨hpart, hfinished⟩ := pumpLoop_spec polls (pumpStart (sendAll c.client c.reply).2 s)
    obtain ⟨tail, htail⟩ := hpart.upstream
    have hdown : downTotal (pumpStart (sendAll c.client c.reply).2 s) =
        c.client.sent ++ (c.reply ++ stream s.arrivals) := by
      rw [downTotal, pumpStart, hreply, List.append_assoc]
      rfl
    have hup : upTotal (pumpStart (sendAll c.client c.reply).2 s) =
        s.sent ++ stream c.client.arrivals := rfl
    rw [hdown, hup] at hfinished
    refine ⟨tail, hdown ▸ hpart.down, ⟨_, rfl, htail.symm⟩, ?_, fun h => ⟨(hfinished h).1, ?_⟩⟩
    · have hbytes := hpart.up
      rw [hup, ← htail] at hbytes
      exact (List.prefix_append_right_inj _).mp hbytes
    · have hbytes := (hfinished h).2
      rw [← htail] at hbytes
      exact List.append_cancel_left hbytes
  · exact ⟨[], hcut, ⟨s, hsame, (List.append_nil _).symm⟩, List.nil_prefix, by simp⟩
  · exact ⟨[], hcut, ⟨s, hsame, (List.append_nil _).symm⟩, List.nil_prefix, by simp⟩

theorem recvReply_ends {arrivals left : List RecvResult} {bytes : Bytes}
    (h : recvReply arrivals = some (.data bytes, left)) (hends : ends arrivals = true) :
    ends left = true ∧ reads left ≤ reads arrivals := by
  have hrecv : ∀ {arrivals}, ends arrivals = true →
      recv BUFFER_SIZE arrivals = some (.data bytes, left) →
      ends left = true ∧ reads left ≤ reads arrivals := by
    intro arrivals hends h
    obtain ⟨r, left', heq, hr⟩ := recv_ends (show 0 < BUFFER_SIZE by decide) hends
    obtain ⟨rfl, rfl⟩ := Prod.mk.inj (Option.some.inj (heq.symm.trans h))
    obtain ⟨hends', hless⟩ := (hr.resolve_left nofun).resolve_left nofun
    exact ⟨hends', hless.le⟩
  induction arrivals with
  | nil => cases h
  | cons r arrivals ih =>
      cases r with
      | interrupted =>
          obtain ⟨hends', hle⟩ := ih h hends
          exact ⟨hends', hle.trans (Nat.le_add_left _ _)⟩
      | failed => exact hrecv hends h
      | eof => exact hrecv hends h
      | data chunk => exact hrecv hends h

-- The calls that a commit needs all return: both streams end, each side takes what the
-- other one says, and poll finds each side ready as often as there is something to read.
structure Enough (peer : Peer) (hello : Bytes) (client : Socket) (polls : List PollResult) : Prop where
  answers : ends peer.arrivals = true
  closes : ends client.arrivals = true
  down : (stream peer.arrivals).length ≤ progress client.sends
  up : hello.length + 5 + (stream client.arrivals).length ≤ progress peer.sends
  clientPolls : reads client.arrivals ≤ clientWakes polls
  upstreamPolls : reads peer.arrivals ≤ upstreamWakes polls

theorem commitRelay_returns {peer : Peer} {hello : Bytes} {step : TpStep} {polls : List PollResult}
    (hs : c.upstreams[upstream]? = some s) (hlive : Live peer hello step c.reply s)
    (henough : Enough peer hello c.client polls) : (commitRelay c upstream polls).2 ≠ .waiting := by
  have hstream := recvAgain_data hlive.arrivals
  obtain ⟨hends, hreads⟩ := recvReply_ends hlive.arrivals henough.answers
  have hdown := henough.down
  rw [hstream, List.length_append] at hdown
  have hreply := relaySendAll_returns c.client.sends c.reply (by omega)
  unfold commitRelay
  rw [hs]
  dsimp only
  split
  · rename_i hok
    have hleft := relaySendAll_left _ _ hok
    have hfirst := relaySendFirst_left _ _ _ hlive.sent.2
    have hup := henough.up
    have hroom : (stream c.client.arrivals).length ≤ progress s.sends := by
      rw [hlive.sends, firstFlight]
      omega
    have hroom' : (stream s.arrivals).length ≤ progress (relaySendAll c.client.sends c.reply).left := by
      omega
    exact pumpLoop_returns polls _ ⟨fun _ => ⟨henough.closes, hroom⟩, fun _ => ⟨hends, hroom'⟩⟩
      (fun _ => henough.clientPolls) (fun _ => hreads.trans henough.upstreamPolls)
  · exact nofun
  · rename_i hblocked
    exact absurd hblocked hreply

theorem recvReply_noFailure {arrivals left : List RecvResult} {r : RecvResult}
    (h : recvReply arrivals = some (r, left)) (hno : .failed ∉ arrivals) :
    RecvResult.failed ∉ left := by
  rw [recvReply] at h
  induction arrivals with
  | nil => cases h
  | cons r' arrivals ih =>
      cases r' with
      | interrupted => exact ih h fun hmem => hno (List.mem_cons_of_mem _ hmem)
      | failed => exact (recv_noFailure h hno).2
      | eof => exact (recv_noFailure h hno).2
      | data chunk => exact (recv_noFailure h hno).2

-- No call on the two sockets of a commit fails, and no poll: relay_pump polls without a
-- timeout.
structure ErrorFree (peer : Peer) (client : Socket) (polls : List PollResult) : Prop where
  socket : Faultless client
  sends : NoFailure peer.sends
  arrivals : RecvResult.failed ∉ peer.arrivals
  polled : PollResult.failed ∉ polls
  waited : PollResult.timeout ∉ polls

theorem commitRelay_safe {peer : Peer} {hello : Bytes} {step : TpStep} {polls : List PollResult}
    (hs : c.upstreams[upstream]? = some s) (hlive : Live peer hello step c.reply s)
    (hfree : ErrorFree peer c.client polls) : (commitRelay c upstream polls).2 ≠ .stopped := by
  obtain ⟨hreply, hleft⟩ := relaySendAll_noFailure c.client.sends c.reply hfree.socket.sends
  have hupstream : Faultless s := by
    refine ⟨?_, recvReply_noFailure hlive.arrivals hfree.arrivals⟩
    rw [hlive.sends]
    exact relaySendFirst_noFailure _ _ _ hfree.sends
  unfold commitRelay
  rw [hs]
  dsimp only
  split
  · exact pumpLoop_safe polls _ ⟨hleft, hfree.socket.arrivals⟩ hupstream hfree.polled hfree.waited
  · rename_i herror
    exact absurd herror hreply
  · exact nofun

end Commit

end DpiProxy.Transparent
