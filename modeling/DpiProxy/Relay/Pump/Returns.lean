import DpiProxy.Relay.Pump.Theorems

namespace DpiProxy.Relay

open Wire

-- An upper bound for the calls of recv until a stream ends.
def reads : List RecvResult → Nat
  | [] => 0
  | .interrupted :: arrivals => 1 + reads arrivals
  | .failed :: _ => 1
  | .eof :: _ => 1
  | .data bytes :: arrivals => if bytes = [] then 1 else bytes.length + reads arrivals

def ends : List RecvResult → Bool
  | [] => false
  | .interrupted :: arrivals => ends arrivals
  | .failed :: _ => true
  | .eof :: _ => true
  | .data bytes :: arrivals => bytes = [] || ends arrivals

theorem reads_pos {arrivals : List RecvResult} (h : ends arrivals = true) : 0 < reads arrivals := by
  cases arrivals with
  | nil => cases h
  | cons r arrivals =>
      cases r with
      | interrupted => exact Nat.add_pos_left Nat.one_pos _
      | failed => exact Nat.one_pos
      | eof => exact Nat.one_pos
      | data bytes =>
          rw [reads]
          split
          · exact Nat.one_pos
          · rename_i hne
            exact Nat.add_pos_left (List.length_pos_iff.mpr hne) _

-- A stream that ends has something for recv, and comes nearer to its end by it.
theorem recv_ends {size : Nat} (hsize : 0 < size) {arrivals : List RecvResult}
    (h : ends arrivals = true) :
    ∃ r left, recv size arrivals = some (r, left) ∧
      (r = .eof ∨ r = .failed ∨ (ends left = true ∧ reads left < reads arrivals)) := by
  cases arrivals with
  | nil => cases h
  | cons r arrivals =>
      cases r with
      | interrupted => exact ⟨_, _, rfl, .inr (.inr ⟨h, by rw [reads]; omega⟩)⟩
      | failed => exact ⟨_, _, rfl, .inr (.inl rfl)⟩
      | eof => exact ⟨_, _, rfl, .inl rfl⟩
      | data bytes =>
          rw [recv]
          by_cases hnil : bytes = []
          · rw [if_pos hnil]
            exact ⟨_, _, rfl, .inl rfl⟩
          · have hpos := List.length_pos_iff.mpr hnil
            have hends : ends arrivals = true := by
              rw [ends, decide_eq_false hnil, Bool.false_or] at h
              exact h
            rw [if_neg hnil]
            refine ⟨_, _, rfl, .inr (.inr ?_)⟩
            rw [reads, if_neg hnil]
            split
            · exact ⟨hends, by omega⟩
            · rename_i hlong
              have hdrop : bytes.drop size ≠ [] := by
                rw [ne_eq, List.drop_eq_nil_iff]
                omega
              rw [ends, reads, if_neg hdrop, hends, Bool.or_true, List.length_drop]
              exact ⟨rfl, by omega⟩

theorem sendSplit_left (script : List SendResult) (first second : Bytes)
    (h : (sendSplit script first second).status = .ok) :
    progress script ≤ progress (sendSplit script first second).left + (first ++ second).length := by
  unfold sendSplit at h ⊢
  by_cases hfirst : (relaySendAll script first).status = .ok
  · simp only [hfirst, if_true] at h ⊢
    have hhead := relaySendAll_left _ _ hfirst
    have htail := relaySendAll_left _ _ h
    rw [List.length_append]
    omega
  · simp only [hfirst, if_false] at h

theorem relaySendFirst_left (script : List SendResult) (buf : Bytes) (mode : SplitMode)
    (h : (relaySendFirst script buf mode).status = .ok) :
    progress script ≤ progress (relaySendFirst script buf mode).left + (buf.length + 5) := by
  obtain hall | ⟨first, second, hsplit, hlen⟩ := relaySendFirst_writes buf mode
  · rw [hall] at h ⊢
    exact (relaySendAll_left _ _ h).trans (by omega)
  · rw [hsplit] at h ⊢
    exact (sendSplit_left _ _ _ h).trans (by omega)

variable {source target : Socket}

-- A direction whose source ends its stream, over a target that takes all of it.
structure Flows (source target : Socket) : Prop where
  ends : ends source.arrivals = true
  room : (stream source.arrivals).length ≤ progress target.sends

theorem forwardOnce_returns (h : Flows source target) :
    (forwardOnce source target).status ≠ .blocked ∧
      ∀ n, (forwardOnce source target).status = .moved n →
        Flows (forwardOnce source target).source (forwardOnce source target).target ∧
          reads (forwardOnce source target).source.arrivals < reads source.arrivals := by
  obtain ⟨r, left, hrecv, hr⟩ := recv_ends (show 0 < BUFFER_SIZE by decide) h.ends
  have hroom := h.room
  unfold forwardOnce
  rw [hrecv]
  cases r with
  | interrupted =>
      obtain ⟨hends, hless⟩ := (hr.resolve_left nofun).resolve_left nofun
      rw [recv_interrupted hrecv] at hroom
      exact ⟨nofun, fun _ _ => ⟨⟨hends, hroom⟩, hless⟩⟩
  | failed => exact ⟨nofun, nofun⟩
  | eof => exact ⟨nofun, nofun⟩
  | data bytes =>
      obtain ⟨hends, hless⟩ := (hr.resolve_left nofun).resolve_left nofun
      rw [recv_data hrecv, List.length_append] at hroom
      have hstatus := relaySendAll_returns target.sends bytes (by omega)
      refine ⟨?_, fun n hn => ?_⟩
      · dsimp only
        split
        · exact nofun
        · exact nofun
        · rename_i hblocked
          exact absurd hblocked hstatus
      · dsimp only at hn
        split at hn
        · rename_i hok
          have hprogress := relaySendAll_left _ _ hok
          have hrest : (stream left).length ≤ progress (relaySendAll target.sends bytes).left := by
            omega
          exact ⟨⟨hends, hrest⟩, hless⟩
        · cases hn
        · cases hn

-- The open directions of a relay.
structure Served (s : Pump) : Prop where
  up : s.upOpen = true → Flows s.client s.upstream
  down : s.downOpen = true → Flows s.upstream s.client

-- An open direction was open before, and is nearer to its end by a number of reads.
structure Nearer (s s' : Pump) (up down : Nat) : Prop where
  up : s'.upOpen = true →
    s.upOpen = true ∧ reads s'.client.arrivals + up ≤ reads s.client.arrivals
  down : s'.downOpen = true →
    s.downOpen = true ∧ reads s'.upstream.arrivals + down ≤ reads s.upstream.arrivals

-- A turn that does not wait, and goes on only nearer to the end.
def Advances (s : Pump) (turn : Pump × Option PumpEnd) (up down : Nat) : Prop :=
  turn.2 ≠ some .waiting ∧ (turn.2 = none → Served turn.1 ∧ Nearer s turn.1 up down)

variable {s : Pump}

theorem clientTurn_advances (h : Served s) (hopen : s.upOpen = true) :
    Advances s (clientTurn s) 1 0 := by
  have hf := forwardOnce_spec s.client s.upstream
  have hflows := h.up hopen
  obtain ⟨hstatus, hmoves⟩ := forwardOnce_returns hflows
  have hdown : s.downOpen = true → Flows (forwardOnce s.client s.upstream).target
      (forwardOnce s.client s.upstream).source := by
    intro hd
    obtain ⟨hends, hroom⟩ := h.down hd
    exact ⟨by rw [hf.arrivals]; exact hends, by rw [hf.arrivals, hf.source_sends]; exact hroom⟩
  have hsame : s.downOpen = true → s.downOpen = true ∧
      reads (forwardOnce s.client s.upstream).target.arrivals + 0 ≤ reads s.upstream.arrivals :=
    fun hd => ⟨hd, by rw [hf.arrivals]; exact le_rfl⟩
  unfold clientTurn
  dsimp only
  split
  · rename_i n hmoved
    obtain ⟨hup, hless⟩ := hmoves n hmoved
    exact ⟨nofun, fun _ => ⟨⟨fun _ => hup, hdown⟩, fun _ => ⟨hopen, hless⟩, hsame⟩⟩
  · exact ⟨nofun, fun _ => ⟨⟨nofun, hdown⟩, nofun, hsame⟩⟩
  · exact ⟨nofun, nofun⟩
  · exact ⟨nofun, nofun⟩
  · rename_i hblocked
    exact absurd hblocked hstatus

theorem upstreamTurn_advances (h : Served s) (hopen : s.downOpen = true) :
    Advances s (upstreamTurn s) 0 1 := by
  obtain ⟨stats, hturn⟩ := upstreamTurn_swap s
  obtain ⟨hstatus, hgoes⟩ := @clientTurn_advances s.swap ⟨h.down, h.up⟩ hopen
  rw [hturn]
  refine ⟨hstatus, fun hnone => ?_⟩
  obtain ⟨hserved, hnearer⟩ := hgoes hnone
  exact ⟨⟨hserved.down, hserved.up⟩, hnearer.down, hnearer.up⟩

theorem Nearer.trans {s s' s'' : Pump} {up down : Nat} (h : Nearer s s' up 0)
    (h' : Nearer s' s'' 0 down) : Nearer s s'' up down := by
  refine ⟨fun hopen => ?_, fun hopen => ?_⟩
  · obtain ⟨hopen', hless'⟩ := h'.up hopen
    obtain ⟨hopen, hless⟩ := h.up hopen'
    exact ⟨hopen, by omega⟩
  · obtain ⟨hopen', hless'⟩ := h'.down hopen
    obtain ⟨hopen, hless⟩ := h.down hopen'
    exact ⟨hopen, by omega⟩

theorem pumpTurn_advances (h : Served s) {clientReady upstreamReady : Bool}
    (hclient : clientReady = true → s.upOpen = true)
    (hupstream : upstreamReady = true → s.downOpen = true) :
    Advances s (pumpTurn s clientReady upstreamReady) clientReady.toNat upstreamReady.toNat := by
  have hrefl : ∀ s, Nearer s s 0 0 := fun s => ⟨fun hu => ⟨hu, le_rfl⟩, fun hd => ⟨hd, le_rfl⟩⟩
  have hfirst : Advances s (if clientReady then clientTurn s else (s, none)) clientReady.toNat 0 ∧
      (if clientReady then clientTurn s else (s, none)).1.downOpen = s.downOpen := by
    cases clientReady with
    | true => exact ⟨clientTurn_advances h (hclient rfl), clientTurn_downOpen s⟩
    | false => exact ⟨⟨nofun, fun _ => ⟨h, hrefl s⟩⟩, rfl⟩
  obtain ⟨⟨hnot, hgoes⟩, hopen⟩ := hfirst
  unfold pumpTurn
  dsimp only
  split
  · rename_i ended hended
    exact ⟨fun hw => hnot (hended.trans hw), nofun⟩
  · rename_i hnone
    obtain ⟨hserved, hnearer⟩ := hgoes hnone
    cases upstreamReady with
    | true =>
        obtain ⟨hnot', hgoes'⟩ := upstreamTurn_advances hserved (hopen.trans (hupstream rfl))
        exact ⟨hnot', fun hn => ⟨(hgoes' hn).1, hnearer.trans (hgoes' hn).2⟩⟩
    | false => exact ⟨nofun, fun _ => ⟨hserved, hnearer⟩⟩

-- How often poll finds a side ready.
def clientWakes : List PollResult → Nat
  | [] => 0
  | .ready client _ :: polls => clientWakes polls + client.toNat
  | _ :: polls => clientWakes polls

def upstreamWakes : List PollResult → Nat
  | [] => 0
  | .ready _ upstream :: polls => upstreamWakes polls + upstream.toNat
  | _ :: polls => upstreamWakes polls

-- With enough answers of poll for each side the relay comes to an end.
theorem pumpLoop_returns (polls : List PollResult) (s : Pump) (h : Served s)
    (hup : s.upOpen = true → reads s.client.arrivals ≤ clientWakes polls)
    (hdown : s.downOpen = true → reads s.upstream.arrivals ≤ upstreamWakes polls) :
    (pumpLoop s polls).2 ≠ .waiting := by
  induction polls generalizing s with
  | nil =>
      have hupClosed : s.upOpen = false := by
        by_contra hopen
        rw [Bool.not_eq_false] at hopen
        exact absurd (hup hopen) (Nat.not_le.mpr (reads_pos (h.up hopen).ends))
      have hdownClosed : s.downOpen = false := by
        by_contra hopen
        rw [Bool.not_eq_false] at hopen
        exact absurd (hdown hopen) (Nat.not_le.mpr (reads_pos (h.down hopen).ends))
      rw [pumpLoop, hupClosed, hdownClosed]
      simp
  | cons poll polls ih =>
      unfold pumpLoop
      split
      · simp
      · split
        · exact ih s h hup hdown
        · simp
        · simp
        · rename_i client upstream
          obtain ⟨hnot, hgoes⟩ := @pumpTurn_advances s h (client && s.upOpen) (upstream && s.downOpen)
            (fun h => (Bool.and_eq_true _ _ ▸ h).2) (fun h => (Bool.and_eq_true _ _ ▸ h).2)
          dsimp only
          split
          · rename_i ended hended
            exact fun hw => hnot (hended.trans (congrArg some hw))
          · rename_i hnone
            obtain ⟨hserved, hnearer⟩ := hgoes hnone
            refine ih _ hserved (fun hopen => ?_) (fun hopen => ?_)
            · obtain ⟨hopen', hless⟩ := hnearer.up hopen
              have hwakes := hup hopen'
              have hready : (client && s.upOpen).toNat = client.toNat := by rw [hopen', Bool.and_true]
              rw [clientWakes] at hwakes
              omega
            · obtain ⟨hopen', hless⟩ := hnearer.down hopen
              have hwakes := hdown hopen'
              have hready : (upstream && s.downOpen).toNat = upstream.toNat := by
                rw [hopen', Bool.and_true]
              rw [upstreamWakes] at hwakes
              omega

end DpiProxy.Relay
