import DpiProxy.Relay.Pump.Theorems

namespace DpiProxy.Relay

open Wire

-- A socket none of whose calls fails.
structure Faultless (s : Socket) : Prop where
  sends : NoFailure s.sends
  arrivals : RecvResult.failed ∉ s.arrivals

theorem relaySendFirst_noFailure (script : List SendResult) (buf : Bytes) (mode : SplitMode)
    (hno : NoFailure script) : NoFailure (relaySendFirst script buf mode).left := by
  obtain hall | ⟨first, second, hsplit, -⟩ := relaySendFirst_writes buf mode
  · rw [hall]
    exact (relaySendAll_noFailure _ _ hno).2
  · have hfirst := (relaySendAll_noFailure script first hno).2
    rw [hsplit, sendSplit]
    dsimp only
    split
    · exact (relaySendAll_noFailure _ second hfirst).2
    · exact hfirst

theorem recv_noFailure {size : Nat} {arrivals left : List RecvResult} {r : RecvResult}
    (h : recv size arrivals = some (r, left)) (hno : .failed ∉ arrivals) :
    r ≠ .failed ∧ RecvResult.failed ∉ left := by
  cases arrivals with
  | nil => cases h
  | cons r' arrivals =>
      have hrest : RecvResult.failed ∉ arrivals := fun hmem => hno (List.mem_cons_of_mem _ hmem)
      cases r' with
      | interrupted =>
          cases h
          exact ⟨nofun, hrest⟩
      | failed => exact absurd List.mem_cons_self hno
      | eof =>
          cases h
          exact ⟨nofun, hrest⟩
      | data bytes =>
          rw [recv] at h
          split at h
          · cases h
            exact ⟨nofun, hrest⟩
          · obtain ⟨hr, hleft⟩ := Prod.mk.inj (Option.some.inj h)
            rw [← hr, ← hleft]
            refine ⟨nofun, ?_⟩
            split
            · exact hrest
            · exact List.not_mem_cons_of_ne_of_not_mem nofun hrest

theorem forwardOnce_faultless {source target : Socket} (hsource : Faultless source)
    (htarget : Faultless target) :
    (forwardOnce source target).status ≠ .readError ∧
      (forwardOnce source target).status ≠ .writeError ∧
      Faultless (forwardOnce source target).source ∧ Faultless (forwardOnce source target).target := by
  cases hrecv : recv BUFFER_SIZE source.arrivals with
  | none =>
      rw [forwardOnce, hrecv]
      exact ⟨nofun, nofun, hsource, htarget⟩
  | some p =>
      obtain ⟨r, left⟩ := p
      obtain ⟨hr, hleft⟩ := recv_noFailure hrecv hsource.arrivals
      have hsource' : Faultless { source with arrivals := left } := ⟨hsource.sends, hleft⟩
      rw [forwardOnce, hrecv]
      cases r with
      | interrupted => exact ⟨nofun, nofun, hsource', htarget⟩
      | failed => exact absurd rfl hr
      | eof => exact ⟨nofun, nofun, hsource', htarget⟩
      | data bytes =>
          obtain ⟨hstatus, hno⟩ := relaySendAll_noFailure target.sends bytes htarget.sends
          refine ⟨?_, ?_, hsource', hno, htarget.arrivals⟩
          · dsimp only
            split <;> exact nofun
          · dsimp only
            split
            · exact nofun
            · rename_i herror
              exact absurd herror hstatus
            · exact nofun

-- A turn that no error ends.
def Safe (turn : Pump × Option PumpEnd) : Prop :=
  turn.2 ≠ some .stopped ∧ Faultless turn.1.client ∧ Faultless turn.1.upstream

variable {s : Pump}

theorem clientTurn_safe (hclient : Faultless s.client) (hupstream : Faultless s.upstream) :
    Safe (clientTurn s) := by
  obtain ⟨hread, hwrite, hsource, htarget⟩ := forwardOnce_faultless hclient hupstream
  unfold clientTurn
  dsimp only
  split
  · exact ⟨nofun, hsource, htarget⟩
  · exact ⟨nofun, hsource, htarget⟩
  · rename_i herror
    exact absurd herror hread
  · rename_i herror
    exact absurd herror hwrite
  · exact ⟨nofun, hsource, htarget⟩

theorem upstreamTurn_safe (hclient : Faultless s.client) (hupstream : Faultless s.upstream) :
    Safe (upstreamTurn s) := by
  obtain ⟨stats, hturn⟩ := upstreamTurn_swap s
  obtain ⟨hnot, hclient', hupstream'⟩ := @clientTurn_safe s.swap hupstream hclient
  rw [hturn]
  exact ⟨hnot, hupstream', hclient'⟩

theorem pumpTurn_safe (hclient : Faultless s.client) (hupstream : Faultless s.upstream)
    (clientReady upstreamReady : Bool) : Safe (pumpTurn s clientReady upstreamReady) := by
  have hfirst : Safe (if clientReady then clientTurn s else (s, none)) := by
    cases clientReady with
    | true => exact clientTurn_safe hclient hupstream
    | false => exact ⟨nofun, hclient, hupstream⟩
  obtain ⟨hnot, hclient', hupstream'⟩ := hfirst
  unfold pumpTurn
  dsimp only
  split
  · rename_i ended hended
    exact ⟨fun h => hnot (hended.trans h), hclient', hupstream'⟩
  · cases upstreamReady with
    | true => exact upstreamTurn_safe hclient' hupstream'
    | false => exact ⟨nofun, hclient', hupstream'⟩

-- Only an error or the idle timeout cuts a relay short.
theorem pumpLoop_safe (polls : List PollResult) (s : Pump) (hclient : Faultless s.client)
    (hupstream : Faultless s.upstream) (hfailed : .failed ∉ polls) (htimeout : .timeout ∉ polls) :
    (pumpLoop s polls).2 ≠ .stopped := by
  induction polls generalizing s with
  | nil =>
      rw [pumpLoop]
      split <;> simp
  | cons poll polls ih =>
      have hfailed' : PollResult.failed ∉ polls := fun h => hfailed (List.mem_cons_of_mem _ h)
      have htimeout' : PollResult.timeout ∉ polls := fun h => htimeout (List.mem_cons_of_mem _ h)
      unfold pumpLoop
      split
      · simp
      · split
        · exact ih s hclient hupstream hfailed' htimeout'
        · exact absurd List.mem_cons_self hfailed
        · exact absurd List.mem_cons_self htimeout
        · rename_i client upstream
          obtain ⟨hnot, hclient', hupstream'⟩ := pumpTurn_safe hclient hupstream
            (client && s.upOpen) (upstream && s.downOpen)
          dsimp only
          split
          · rename_i ended hended
            exact fun h => hnot (hended.trans (congrArg some h))
          · exact ih _ hclient' hupstream' hfailed' htimeout'

end DpiProxy.Relay
