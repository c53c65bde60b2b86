import DpiProxy.Transparent.Daemon.Verified

namespace DpiProxy.Transparent

open Wire

-- What an event of the daemon is for its store.
theorem step_store {s : Daemon} (hinv : DaemonInv s) (ev : Event) :
    (daemonStep s ev).1.dec = s.dec ∨
      ∃ u : Update, u.Streams ∧ (daemonStep s ev).1.dec = u.apply s.dec := by
  have hturn := daemonStep_turn s ev
  generalize (daemonStep s ev).1 = s', (daemonStep s ev).2 = w at hturn ⊢
  cases hturn with
  | idle => exact .inl rfl
  | accept => exact .inl rfl
  | fillPlan => exact .inl rfl
  | resolveTrusted => exact .inl rfl
  | attempt => exact .inl rfl
  | @fail id t now =>
      unfold failLocked
      split
      · exact .inr ⟨.store (.failure t.conn.host t.conn.fp t.conn.family.number now), trivial, rfl⟩
      · exact .inl rfl
  | @commit id t step now =>
      unfold commitLocked
      split
      · rename_i hdirect
        split
        · exact .inr ⟨.store (.success t.conn.host t.conn.fp t.conn.family.number now step),
            .inl (of_decide_eq_true hdirect).2, rfl⟩
        · exact .inl rfl
      · exact .inl rfl
  | submitConfirm =>
      unfold submitConfirm
      split <;> exact .inl rfl
  | relayed =>
      unfold submitDirect
      split <;> exact .inl rfl
  | takeJob => exact .inl rfl
  | @applyResult job handshake now hjob =>
      obtain ⟨t, -, -, -, hcarried⟩ := hinv.verifying job hjob
      unfold applyResult
      split
      · exact .inr ⟨.store (.directBadMark job.host job.fp job.family now), trivial, rfl⟩
      · split
        · exact .inr ⟨.store (.success job.host job.fp job.family now job.step), hcarried.stream, rfl⟩
        · exact .inl rfl
  | checkNetwork fp =>
      unfold checkNetwork
      split
      · exact .inr ⟨.store .networkChanged, trivial, rfl⟩
      · exact .inl rfl
  | reload => exact .inl rfl
  | save =>
      unfold saveDecisions
      split
      · exact .inr ⟨.loaded, trivial, rfl⟩
      · exact .inl rfl

theorem init_store (cfg : StrategyConfig) (fp : UInt64) (file : Option Bytes) :
    ∃ us : List Update, (∀ u ∈ us, u.Streams) ∧
      (daemonInit cfg fp file).dec = us.foldl Update.apply tpDecisionsInit := by
  cases file with
  | none => exact ⟨[], fun u hu => absurd hu List.not_mem_nil, rfl⟩
  | some text =>
      exact ⟨(Call.parse text).updates, call_updates_streams trivial,
        apply_eq_updates tpDecisionsInit (.parse text)⟩

-- The store of a running daemon is one that updates with stream steps have made.
theorem run_store (cfg : StrategyConfig) (fp : UInt64) (file : Option Bytes) (es : List Event) :
    ∃ us : List Update, (∀ u ∈ us, u.Streams) ∧
      (Machine.run daemonStep (daemonInit cfg fp file) es).1.dec =
        us.foldl Update.apply tpDecisionsInit := by
  induction es using List.reverseRecOn with
  | nil => exact init_store cfg fp file
  | append_singleton es ev ih =>
      obtain ⟨us, hus, hdec⟩ := ih
      rw [Machine.run_concat]
      rcases step_store (run_inv cfg fp file es) ev with hsame | ⟨u, hu, happly⟩
      · exact ⟨us, hus, hsame.trans hdec⟩
      · refine ⟨us ++ [u], fun x hx => ?_, ?_⟩
        · rcases List.mem_append.mp hx with hx | hx
          · exact hus x hx
          · rw [List.mem_singleton.mp hx]
            exact hu
        · rw [List.foldl_append, ← hdec]
          exact happly

-- What the daemon saves, at any time, is what its next start loads.
theorem saved_store_is_loaded (cfg : StrategyConfig) (fp : UInt64) (file : Option Bytes)
    (es : List Event) (d : TpDecisions)
    (hd : d = (Machine.run daemonStep (daemonInit cfg fp file) es).1.dec)
    (hhost : ∀ e ∈ d.entries, Hostname e.host)
    (hfamily : ∀ e ∈ d.entries, e.family = 4 ∨ e.family = 6) :
    ∃ text, tpDecisionsSerialize d (saveSize d) = some text ∧
      ∀ cfg' fp', (daemonInit cfg' fp' (some text)).dec.entries = d.entries := by
  obtain ⟨us, hus, hdec⟩ := run_store cfg fp file es
  obtain ⟨text, htext, -, hentries⟩ := updates_roundtrip hus (hd.trans hdec) hhost hfamily
  exact ⟨text, htext, fun _ _ => hentries⟩

end DpiProxy.Transparent
