import DpiProxy.Socks.Handshake

namespace DpiProxy.Socks

open Wire Wire.Record Relay Calls

section Sent

variable {said : Bytes}

theorem receive_sent (length : Nat) : Triple (fun s : Socket => s.sent = said) (receive length)
    (fun _ s => s.sent = said) (fun _ s => s.sent = said) := by
  intro s hs
  have hsent : (receive length s).2.sent = s.sent := by
    unfold receive
    split <;> rfl
  refine ⟨fun a s' hrun => ?_, fun e s' hrun => ?_⟩
  · rw [hrun] at hsent
    exact hsent.trans hs
  · rw [hrun] at hsent
    exact hsent.trans hs

theorem write_sent (buffer : Bytes) : Triple (fun s : Socket => s.sent = said) (write buffer)
    (fun _ s => s.sent = said ++ buffer) (fun _ s => ∃ part, part <+: buffer ∧ s.sent = said ++ part) := by
  rintro s rfl
  refine ⟨fun u s' hrun => ?_, fun e s' hrun => ?_⟩
  · obtain ⟨hresult, rfl⟩ := Prod.mk.inj hrun
    have hok : (send s.sends buffer).status = .ok := by
      cases hstatus : (send s.sends buffer).status with
      | ok => rfl
      | error => rw [hstatus] at hresult; cases hresult
      | blocked => rw [hstatus] at hresult; cases hresult
    obtain ⟨count, left, hsends, hle⟩ := send_ok hok
    simp only [hsends, send_whole left hle, List.flatten_singleton]
  · obtain ⟨-, rfl⟩ := Prod.mk.inj hrun
    exact ⟨_, send_begins _, rfl⟩

theorem negotiate_sent : Triple (fun s : Socket => s.sent = said) (socksNegotiate socket)
    (fun _ s => s.sent = said ++ [5, 0]) (fun _ s => ∃ part, part <+: [5, 0] ∧ s.sent = said ++ part) := by
  have hnothing : ∀ (e : Stop) (s : Socket), s.sent = said → ∃ part, part <+: [5, 0] ∧ s.sent = said ++ part :=
    fun e s hs => ⟨[], List.nil_prefix, by rw [hs, List.append_nil]⟩
  have hreceive := fun length => (@receive_sent said length).weaken (fun _ _ h => h) hnothing
  refine (hreceive 2).bind fun header => .ite (.throw (hnothing .failed)) (.ite (.throw (hnothing .failed)) ?_)
  exact (hreceive _).bind fun methods => write_sent _

-- Without a target the client has heard nothing, or that its address type is not supported.
theorem readTarget_sent (inetNtop : Bytes → Bytes) : Triple (fun s : Socket => s.sent = said)
    (readTarget socket inetNtop) (fun _ s => s.sent = said)
    (fun _ s => ∃ part, part <+: resultReply false ∧ s.sent = said ++ part) := by
  have hnothing : ∀ (e : Stop) (s : Socket), s.sent = said →
      ∃ part, part <+: resultReply false ∧ s.sent = said ++ part :=
    fun e s hs => ⟨[], List.nil_prefix, by rw [hs, List.append_nil]⟩
  have hreceive := fun length => (@receive_sent said length).weaken (fun _ _ h => h) hnothing
  have hport : ∀ host, Triple (fun s : Socket => s.sent = said) (readPort socket host)
      (fun _ s => s.sent = said) (fun _ s => ∃ part, part <+: resultReply false ∧ s.sent = said ++ part) :=
    fun host => (hreceive 2).bind fun _ => .pure fun _ hs => hs
  refine (hreceive 4).bind fun header => .ite (.throw (hnothing .failed)) (.ite ?_ (.ite ?_ (.ite ?_ ?_)))
  · refine (hreceive 1).bind fun length => .ite (.throw (hnothing .failed)) ?_
    exact (hreceive _).bind fun host => hport _
  · exact (hreceive 4).bind fun addr4 => hport _
  · exact (hreceive 16).bind fun addr6 => hport _
  · have hrefused : Triple (fun s : Socket => s.sent = said) (attempt (write (resultReply false)))
        (fun _ s => ∃ part, part <+: resultReply false ∧ s.sent = said ++ part)
        (fun _ s => ∃ part, part <+: resultReply false ∧ s.sent = said ++ part) := by
      refine (write_sent (resultReply false)).attempt.weaken (fun result s hs => ?_) (fun _ _ hs => hs)
      cases result with
      | ok u => exact ⟨_, List.prefix_rfl, hs⟩
      | error e => exact hs
    refine hrefused.bind fun result => ?_
    split <;> exact .throw fun _ hs => hs

theorem handshake_sent (inetNtop : Bytes → Bytes) : Triple (fun s : Socket => s.sent = said)
    (handshake socket inetNtop) (fun _ s => s.sent = said ++ [5, 0])
    (fun _ s => s.sent <+: said ++ [5, 0] ++ resultReply false) := by
  refine Triple.bind (negotiate_sent.weaken (fun _ _ h => h) ?_) fun u =>
    (readTarget_sent inetNtop).weaken (fun _ _ h => h) ?_
  · rintro e s ⟨part, hpart, hsent⟩
    rw [hsent, List.append_assoc, List.prefix_append_right_inj]
    exact hpart.trans (List.prefix_append _ _)
  · rintro e s ⟨part, hpart, hsent⟩
    rw [hsent, List.prefix_append_right_inj]
    exact hpart

end Sent

-- A connection whose target has taken it: the client hears that it stands and then what the
-- server says, and the server what the client says after its request, but nothing of it
-- before the client has its answer.
structure Joined (split : SplitMode) (greeted rest : Bytes) (upstream server : Socket) (wire : Bytes) (r : Served) :
    Prop where
  records : deframe wire = deframe rest
  plain : split = .none ∨ split = .tcp ∨ ¬[0x16, 0x03] <+: rest → wire = rest
  up : server.sent <+: upstream.sent ++ wire
  down : r.client.sent <+: greeted ++ resultReply true ++ stream upstream.arrivals
  answered : server = upstream ∨ greeted ++ resultReply true <+: r.client.sent
  whole : r.ended = some .finished →
    server.sent = upstream.sent ++ wire ∧
      r.client.sent = greeted ++ resultReply true ++ stream upstream.arrivals

-- Nothing that a relay passes on is taken back.
theorem relayConnection_grows (client upstream : Socket) (split : SplitMode) (polls : List PollResult) :
    client.sent <+: (relayConnection client upstream split polls).client.sent := by
  have hpumped : ∀ client upstream polls, client.sent <+: (pumped client upstream polls).client.sent :=
    fun client upstream polls => (pumpLoop_spec polls (pumpStart client upstream)).1.client
  unfold relayConnection
  split
  · exact hpumped _ _ _
  · split
    · exact List.prefix_rfl
    · exact List.prefix_rfl
    · split
      · exact hpumped _ _ _
      · split
        · exact List.prefix_rfl
        · rename_i bytes left hrecv
          dsimp only
          split
          · exact hpumped { client with arrivals := left } _ _
          · exact List.prefix_rfl
          · exact List.prefix_rfl
        · exact List.prefix_rfl

-- The client takes the two bytes of its greeting's reply, and with the next send the ten of
-- an answer.
def Hears (sends : List SendResult) : Prop :=
  ∃ first second left, sends = .sent first :: .sent second :: left ∧ 2 ≤ first ∧ 10 ≤ second

section Serve

variable {α : Type} {net : Net α} {split : SplitMode} {polls : List PollResult} {client : Socket}

theorem sendResult_refused (success : Bool) {greeted : Bytes} (hsent : client.sent = greeted) :
    (sendResult socket success client).2.sent <+: greeted ++ resultReply success := by
  obtain ⟨hok, herror⟩ := write_sent (resultReply success) client hsent
  rcases hrun : sendResult socket success client with ⟨r, s'⟩
  cases r with
  | ok u =>
      exact (hok u s' hrun).symm ▸ List.prefix_rfl
  | error e =>
      obtain ⟨part, hpart, hpartly⟩ := herror e s' hrun
      dsimp only
      rw [hpartly, List.prefix_append_right_inj]
      exact hpart

-- After a handshake the client takes the answer whole, if it takes one at all.
theorem sendResult_heard (success : Bool) {s : Socket} {first : Nat} (hsends : client.sends = .sent first :: s.sends)
    (h : Hears client.sends) : ∃ left, sendResult socket success s =
      (.ok (), { s with sends := left, sent := s.sent ++ resultReply success }) := by
  obtain ⟨_, second, left, heq, -, hsecond⟩ := h
  obtain ⟨-, hleft⟩ := List.cons.inj (hsends.symm.trans heq)
  have hfits : (resultReply success).length ≤ second := hsecond
  refine ⟨left, ?_⟩
  change write (resultReply success) s = _
  rw [write, hleft, send_whole left hfits, List.flatten_singleton]
  rfl

theorem write_arrivals (buffer : Bytes) (s : Socket) : (write buffer s).2.arrivals = s.arrivals := rfl

-- A client is connected to the target of the request that its stream begins with, and to no
-- other; it hears one answer to its request, and that the connection stands only if it does.
structure Honest (net : Net α) (split : SplitMode) (client : Socket) (r : Served) : Prop where
  unasked : r.asked = none → r.upstream = none ∧ r.client.sent <+: client.sent ++ [5, 0] ++ resultReply false
  unsupported : ∀ (q : Request) (reserved atyp : UInt8) (rest : Bytes),
    stream client.arrivals = q.greeting ++ ([5, 1, reserved, atyp] ++ rest) →
      atyp ≠ 3 ∧ atyp ≠ 1 ∧ atyp ≠ 4 → Hears client.sends →
        r.asked = none ∧ r.client.sent = client.sent ++ [5, 0] ++ resultReply false
  asked : ∀ target, r.asked = some target → ∃ (q : Request) (rest : Bytes),
    stream client.arrivals = q.bytes ++ rest ∧ q.target net.inetNtop = target ∧
      (connectUpstream net target = none → r.upstream = none ∧
        r.client.sent <+: client.sent ++ [5, 0] ++ resultReply false ∧
        (Hears client.sends → r.client.sent = client.sent ++ [5, 0] ++ resultReply false)) ∧
      ∀ upstream, connectUpstream net target = some upstream → ∃ server wire, r.upstream = some server ∧
        Joined split (client.sent ++ [5, 0]) rest upstream server wire r ∧
        (Hears client.sends → r.ended.isSome ∧ client.sent ++ [5, 0] ++ resultReply true <+: r.client.sent)

section Granted

variable {target : Target} {s : Socket} (hrun : handshake socket net.inetNtop client = (.ok target, s))

include hrun

theorem handleClient_refused (hconnect : connectUpstream net target = none) :
    let r := handleClient net split polls client
    r.asked = some target ∧ r.upstream = none ∧ r.client.sent <+: client.sent ++ [5, 0] ++ resultReply false ∧
      (Hears client.sends → r.client.sent = client.sent ++ [5, 0] ++ resultReply false) := by
  intro r
  obtain ⟨-, -, -, ⟨first, hsends, -⟩, hsent⟩ := handshake_request hrun
  have hr : r = ⟨(sendResult socket false s).2, some target, none, none⟩ := by
    simp only [r, handleClient, hrun, hconnect]
  rw [hr]
  refine ⟨rfl, rfl, sendResult_refused false hsent, fun hhears => ?_⟩
  obtain ⟨left, htaken⟩ := sendResult_heard false hsends hhears
  dsimp only
  rw [htaken, hsent]

theorem handleClient_joined {upstream : Socket} (hconnect : connectUpstream net target = some upstream) :
    let r := handleClient net split polls client
    r.asked = some target ∧ ∃ server wire, r.upstream = some server ∧
      Joined split (client.sent ++ [5, 0]) (stream s.arrivals) upstream server wire r ∧
      (Hears client.sends → r.ended.isSome ∧ client.sent ++ [5, 0] ++ resultReply true <+: r.client.sent) := by
  intro r
  obtain ⟨-, -, -, ⟨first, hsends, -⟩, hsent⟩ := handshake_request hrun
  have hanswer := @sendResult_refused s true (client.sent ++ [5, 0]) hsent
  have hsame : (sendResult socket true s).2.arrivals = s.arrivals := write_arrivals _ _
  obtain ⟨hanswered, -⟩ := write_sent (resultReply true) s hsent
  rcases hsend : sendResult socket true s with ⟨answer, s'⟩
  rw [hsend] at hanswer hsame
  cases answer with
  | error e =>
      have hr : r = ⟨s', some target, some upstream, none⟩ := by
        simp only [r, handleClient, hrun, hconnect, hsend]
      rw [hr]
      refine ⟨rfl, upstream, stream s.arrivals, rfl, ?_, fun hhears => ?_⟩
      · refine ⟨rfl, fun _ => rfl, List.prefix_append _ _, ?_, .inl rfl, by simp⟩
        exact hanswer.trans (List.prefix_append _ _)
      · obtain ⟨left, htaken⟩ := sendResult_heard true hsends hhears
        cases (Prod.mk.inj (htaken.symm.trans hsend)).1
  | ok u =>
      have hr : r = ⟨(relayConnection s' upstream split polls).client, some target,
          some (relayConnection s' upstream split polls).upstream,
          some (relayConnection s' upstream split polls).ended⟩ := by
        simp only [r, handleClient, hrun, hconnect, hsend]
      have hstands := hanswered u s' hsend
      obtain ⟨wire, hrecords, hplain, hup, hdown, hwhole⟩ := @relayConnection_carries s' upstream polls split
      have hgrows := relayConnection_grows s' upstream split polls
      rw [hstands] at hdown hwhole hgrows
      rw [hsame] at hrecords hplain
      rw [hr]
      refine ⟨rfl, _, wire, rfl, ?_, fun _ => ⟨rfl, hgrows⟩⟩
      exact ⟨hrecords, hplain, hup, hdown, .inr hgrows, fun hend => hwhole (Option.some.inj hend)⟩

end Granted

theorem handleClient_serves : Honest net split client (handleClient net split polls client) := by
  obtain ⟨-, herror⟩ := @handshake_sent client.sent net.inetNtop client rfl
  rcases hrun : handshake socket net.inetNtop client with ⟨result, s⟩
  have hunsupported := @handshake_unsupported net.inetNtop client
  rw [hrun] at hunsupported
  cases result with
  | error e =>
      have hr : handleClient net split polls client = ⟨s, none, none, none⟩ := by
        simp only [handleClient, hrun]
      rw [hr]
      refine ⟨fun _ => ⟨rfl, herror e s hrun⟩, ?_, fun target hasked => by simp at hasked⟩
      rintro q reserved atyp rest hstream hatyp ⟨first, second, left, hsends, hfirst, hsecond⟩
      exact ⟨rfl, (hunsupported hstream hatyp hsends hfirst hsecond).2⟩
  | ok target =>
      obtain ⟨q, hstream, htarget, -, -⟩ := handshake_request hrun
      have hasked : (handleClient net split polls client).asked = some target := by
        cases hconnect : connectUpstream net target with
        | none => exact (handleClient_refused hrun hconnect).1
        | some upstream => exact (handleClient_joined hrun hconnect).1
      refine ⟨fun hnone => absurd (hnone.symm.trans hasked) (by simp), ?_, fun target' hasked' => ?_⟩
      · rintro q reserved atyp rest hother hatyp ⟨first, second, left, hsends, hfirst, hsecond⟩
        cases (hunsupported hother hatyp hsends hfirst hsecond).1
      · obtain rfl := Option.some.inj (hasked.symm.trans hasked')
        exact ⟨q, stream s.arrivals, hstream, htarget, fun h => (handleClient_refused hrun h).2,
          fun upstream h => (handleClient_joined hrun h).2⟩

end Serve

end DpiProxy.Socks
