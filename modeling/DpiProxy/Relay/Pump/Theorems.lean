import DpiProxy.Relay.Pump
import DpiProxy.Relay.Theorems

namespace DpiProxy.Relay

open Wire

theorem relaySendAll_begins (script : List SendResult) (buffer : Bytes) :
    (relaySendAll script buffer).writes.flatten <+: buffer := by
  fun_induction relaySendAll script buffer with
  | case1 => exact List.prefix_rfl
  | case2 => exact List.nil_prefix
  | case3 script b bs ih => exact ih
  | case4 => exact List.nil_prefix
  | case5 => exact List.nil_prefix
  | case6 count script b bs sent hsent rest ih =>
      rw [List.flatten_cons]
      conv_rhs => rw [← List.take_append_drop sent (b :: bs)]
      exact (List.prefix_append_right_inj _).mpr ih

section Recv

variable {size : Nat} {arrivals left : List RecvResult}

theorem recv_data {bytes : Bytes} (h : recv size arrivals = some (.data bytes, left)) :
    stream arrivals = bytes ++ stream left := by
  unfold recv at h
  split at h
  · cases h
  · rename_i chunk rest
    split at h
    · cases h
    · rename_i hne
      obtain ⟨hbytes, hleft⟩ := Prod.mk.inj (Option.some.inj h)
      obtain rfl := RecvResult.data.inj hbytes
      rw [stream, if_neg hne, ← hleft]
      split
      · rename_i hfits
        rw [List.take_of_length_le hfits]
      · rename_i hlong
        have hdrop : chunk.drop size ≠ [] := by
          rw [ne_eq, List.drop_eq_nil_iff]
          omega
        rw [stream, if_neg hdrop, ← List.append_assoc, List.take_append_drop]
  · rename_i hother
    obtain ⟨rfl, -⟩ := Prod.mk.inj (Option.some.inj h)
    exact absurd rfl (hother bytes)

theorem recvAgain_data {bytes : Bytes} (h : recvAgain size arrivals = some (.data bytes, left)) :
    stream arrivals = bytes ++ stream left := by
  induction arrivals with
  | nil => cases h
  | cons r arrivals ih =>
      cases r with
      | interrupted => exact ih h
      | failed => exact recv_data h
      | eof => exact recv_data h
      | data chunk => exact recv_data h

theorem recv_interrupted (h : recv size arrivals = some (.interrupted, left)) :
    stream arrivals = stream left := by
  unfold recv at h
  split at h
  · cases h
  · split at h <;> cases h
  · cases h
    rfl

theorem recv_eof (h : recv size arrivals = some (.eof, left)) : stream arrivals = [] := by
  unfold recv at h
  split at h
  · cases h
  · split at h
    · rename_i hnil
      rw [stream, if_pos hnil]
    · cases h
  · cases h
    rfl

end Recv

-- What one call of forward_once does to the two sockets. The bytes it moves come from
-- the stream of the source, and all others stay there unless an error ends the call.
structure ForwardSpec (source target : Socket) (f : Forwarded) : Prop where
  arrivals : f.target.arrivals = target.arrivals
  source_sent : f.source.sent = source.sent
  source_sends : f.source.sends = source.sends
  grows : target.sent <+: f.target.sent
  part : f.target.sent <+: target.sent ++ stream source.arrivals
  moved : ∀ n, f.status = .moved n →
    f.target.sent ++ stream f.source.arrivals = target.sent ++ stream source.arrivals
  eof : f.status = .eof → f.target.sent = target.sent ++ stream source.arrivals

theorem forwardOnce_spec (source target : Socket) :
    ForwardSpec source target (forwardOnce source target) := by
  have hsame : target.sent <+: target.sent ++ stream source.arrivals := List.prefix_append _ _
  unfold forwardOnce
  split
  · exact ⟨rfl, rfl, rfl, List.prefix_rfl, hsame, nofun, nofun⟩
  · rename_i left hrecv
    exact ⟨rfl, rfl, rfl, List.prefix_rfl, hsame, fun _ _ => by rw [recv_interrupted hrecv], nofun⟩
  · exact ⟨rfl, rfl, rfl, List.prefix_rfl, hsame, nofun, nofun⟩
  · rename_i left hrecv
    exact ⟨rfl, rfl, rfl, List.prefix_rfl, hsame, nofun, fun _ => by rw [recv_eof hrecv, List.append_nil]⟩
  · rename_i bytes left hrecv
    have hstream := recv_data hrecv
    refine ⟨rfl, rfl, rfl, List.prefix_append _ _, ?_, fun n hn => ?_, fun heof => ?_⟩
    · rw [hstream]
      exact (List.prefix_append_right_inj _).mpr
        ((relaySendAll_begins target.sends bytes).trans (List.prefix_append _ _))
    · dsimp only at hn
      split at hn
      · rename_i hok
        rw [hstream, sendAll, relaySendAll_ok _ _ hok, List.append_assoc]
      · cases hn
      · cases hn
    · dsimp only at heof
      split at heof <;> cases heof

section Streams

-- What has been written to a side, with what the other side has still to say to it.
def downTotal (s : Pump) : Bytes :=
  s.client.sent ++ if s.downOpen then stream s.upstream.arrivals else []

def upTotal (s : Pump) : Bytes :=
  s.upstream.sent ++ if s.upOpen then stream s.client.arrivals else []

-- A turn that goes on loses no byte and adds none.
structure Kept (s s' : Pump) : Prop where
  down : downTotal s' = downTotal s
  up : upTotal s' = upTotal s
  client : s.client.sent <+: s'.client.sent
  upstream : s.upstream.sent <+: s'.upstream.sent

-- A turn that ends the relay may lose the end of a stream.
structure Part (s s' : Pump) : Prop where
  down : s'.client.sent <+: downTotal s
  up : s'.upstream.sent <+: upTotal s
  client : s.client.sent <+: s'.client.sent
  upstream : s.upstream.sent <+: s'.upstream.sent

variable {s s' s'' : Pump}

theorem Kept.refl (s : Pump) : Kept s s := ⟨rfl, rfl, List.prefix_rfl, List.prefix_rfl⟩

theorem Kept.part (h : Kept s s') : Part s s' :=
  ⟨h.down ▸ List.prefix_append _ _, h.up ▸ List.prefix_append _ _, h.client, h.upstream⟩

theorem Kept.trans (h : Kept s s') (h' : Kept s' s'') : Kept s s'' :=
  ⟨h'.down.trans h.down, h'.up.trans h.up, h.client.trans h'.client, h.upstream.trans h'.upstream⟩

theorem Kept.trans_part (h : Kept s s') (h' : Part s' s'') : Part s s'' :=
  ⟨h.down ▸ h'.down, h.up ▸ h'.up, h.client.trans h'.client, h.upstream.trans h'.upstream⟩

-- What a turn leaves: a state to go on from, or an end.
def TurnSpec (s : Pump) (turn : Pump × Option PumpEnd) : Prop :=
  (turn.2 = none → Kept s turn.1) ∧ ∀ ended, turn.2 = some ended → Part s turn.1 ∧ ended ≠ .finished

theorem clientTurn_spec (hopen : s.upOpen = true) : TurnSpec s (clientTurn s) := by
  have hf := forwardOnce_spec s.client s.upstream
  have hdown : (forwardOnce s.client s.upstream).source.sent ++
      (if s.downOpen then stream (forwardOnce s.client s.upstream).target.arrivals else []) =
        downTotal s := by
    rw [downTotal, hf.source_sent, hf.arrivals]
  have hsame : s.client.sent <+: (forwardOnce s.client s.upstream).source.sent :=
    hf.source_sent.symm ▸ List.prefix_rfl
  have hup : upTotal s = s.upstream.sent ++ stream s.client.arrivals := by
    rw [upTotal, if_pos hopen]
  have hend : ∀ stats, Part s ⟨(forwardOnce s.client s.upstream).source,
      (forwardOnce s.client s.upstream).target, s.upOpen, s.downOpen, s.clientShut,
      s.upstreamShut, stats⟩ :=
    fun _ => ⟨hdown ▸ List.prefix_append _ _, hup ▸ hf.part, hsame, hf.grows⟩
  unfold clientTurn
  dsimp only
  split
  · rename_i n hmoved
    refine ⟨fun _ => ⟨hdown, ?_, hsame, hf.grows⟩, nofun⟩
    rw [hup, ← hf.moved n hmoved, upTotal]
    dsimp only
    rw [if_pos hopen]
  · rename_i heof
    refine ⟨fun _ => ⟨hdown, ?_, hsame, hf.grows⟩, nofun⟩
    rw [hup, ← hf.eof heof, upTotal]
    dsimp only
    rw [if_neg Bool.false_ne_true, List.append_nil]
  · exact ⟨nofun, fun ended he => ⟨hend _, Option.some.inj he ▸ nofun⟩⟩
  · exact ⟨nofun, fun ended he => ⟨hend _, Option.some.inj he ▸ nofun⟩⟩
  · exact ⟨nofun, fun ended he => ⟨hend _, Option.some.inj he ▸ nofun⟩⟩

-- The relay with its two sides exchanged.
def Pump.swap (s : Pump) : Pump :=
  ⟨s.upstream, s.client, s.downOpen, s.upOpen, s.upstreamShut, s.clientShut, s.stats⟩

-- The two turns differ in the statistics only.
theorem upstreamTurn_swap (s : Pump) :
    ∃ stats, upstreamTurn s =
      ({ (clientTurn s.swap).1.swap with stats := stats }, (clientTurn s.swap).2) := by
  unfold upstreamTurn clientTurn
  dsimp only [Pump.swap]
  cases (forwardOnce s.upstream s.client).status with
  | moved bytes => exact ⟨_, rfl⟩
  | eof => exact ⟨_, rfl⟩
  | readError => exact ⟨_, rfl⟩
  | writeError => exact ⟨_, rfl⟩
  | blocked => exact ⟨_, rfl⟩

theorem upstreamTurn_spec (hopen : s.downOpen = true) : TurnSpec s (upstreamTurn s) := by
  obtain ⟨stats, hturn⟩ := upstreamTurn_swap s
  obtain ⟨hkept, hpart⟩ := @clientTurn_spec s.swap hopen
  rw [hturn]
  refine ⟨fun hgoes => ?_, fun ended hended => ?_⟩
  · obtain ⟨hdown, hup, hclient, hupstream⟩ := hkept hgoes
    exact ⟨hup, hdown, hupstream, hclient⟩
  · obtain ⟨⟨hdown, hup, hclient, hupstream⟩, hnot⟩ := hpart ended hended
    exact ⟨⟨hup, hdown, hupstream, hclient⟩, hnot⟩

-- A turn of the client leaves the other direction as it is.
theorem clientTurn_downOpen (s : Pump) : (clientTurn s).1.downOpen = s.downOpen := by
  unfold clientTurn
  dsimp only
  split <;> rfl

theorem pumpTurn_spec {clientReady upstreamReady : Bool} (hclient : clientReady = true → s.upOpen = true)
    (hupstream : upstreamReady = true → s.downOpen = true) :
    TurnSpec s (pumpTurn s clientReady upstreamReady) := by
  have hfirst : TurnSpec s (if clientReady then clientTurn s else (s, none)) ∧
      (if clientReady then clientTurn s else (s, none)).1.downOpen = s.downOpen := by
    cases clientReady with
    | true => exact ⟨clientTurn_spec (hclient rfl), clientTurn_downOpen s⟩
    | false => exact ⟨⟨fun _ => .refl s, nofun⟩, rfl⟩
  obtain ⟨⟨hkept, hpart⟩, hopen⟩ := hfirst
  unfold pumpTurn
  dsimp only
  split
  · rename_i ended hended
    exact ⟨nofun, fun ended' he => Option.some.inj he ▸ hpart ended hended⟩
  · rename_i hgoes
    cases upstreamReady with
    | true =>
        obtain ⟨hkept', hpart'⟩ := upstreamTurn_spec (hopen.trans (hupstream rfl))
        exact ⟨fun h => (hkept hgoes).trans (hkept' h),
          fun ended h => ⟨(hkept hgoes).trans_part (hpart' ended h).1, (hpart' ended h).2⟩⟩
    | false => exact ⟨fun _ => hkept hgoes, nofun⟩

-- The relay writes to each side a part of what the other side says; all of it if both
-- directions finish.
theorem pumpLoop_spec (polls : List PollResult) (s : Pump) :
    Part s (pumpLoop s polls).1 ∧
      ((pumpLoop s polls).2 = .finished →
        (pumpLoop s polls).1.client.sent = downTotal s ∧
          (pumpLoop s polls).1.upstream.sent = upTotal s) := by
  have hdone : ∀ s : Pump, (!s.upOpen && !s.downOpen) = true →
      s.client.sent = downTotal s ∧ s.upstream.sent = upTotal s := by
    intro s hclosed
    rw [Bool.and_eq_true, Bool.not_eq_true', Bool.not_eq_true'] at hclosed
    rw [downTotal, upTotal, hclosed.1, hclosed.2]
    simp
  induction polls generalizing s with
  | nil =>
      rw [pumpLoop]
      split
      · exact ⟨(Kept.refl s).part, fun _ => hdone s ‹_›⟩
      · exact ⟨(Kept.refl s).part, nofun⟩
  | cons poll polls ih =>
      unfold pumpLoop
      split
      · exact ⟨(Kept.refl s).part, fun _ => hdone s ‹_›⟩
      · split
        · exact ih s
        · exact ⟨(Kept.refl s).part, nofun⟩
        · exact ⟨(Kept.refl s).part, nofun⟩
        · rename_i client upstream
          obtain ⟨hkept, hpart⟩ := @pumpTurn_spec s (client && s.upOpen) (upstream && s.downOpen)
            (fun h => (Bool.and_eq_true _ _ ▸ h).2) (fun h => (Bool.and_eq_true _ _ ▸ h).2)
          dsimp only
          split
          · rename_i ended hended
            exact ⟨(hpart ended hended).1, fun h => absurd h (hpart ended hended).2⟩
          · rename_i hgoes
            obtain ⟨hrest, hfinished⟩ := ih (pumpTurn s (client && s.upOpen) (upstream && s.downOpen)).1
            refine ⟨(hkept hgoes).trans_part hrest, fun h => ?_⟩
            rw [← (hkept hgoes).down, ← (hkept hgoes).up]
            exact hfinished h

end Streams

end DpiProxy.Relay
