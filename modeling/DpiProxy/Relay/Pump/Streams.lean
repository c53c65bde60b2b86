import DpiProxy.Relay.Pump.Calls

namespace DpiProxy.Relay

open Wire

def Pump.source (s : Pump) : Direction → Socket
  | .up => s.client
  | .down => s.upstream

-- The end of the client's stream is seen before that of the server's.
def ClientFirst (calls : List PumpCall) : Prop :=
  ∃ before after, calls = before ++ (.up, .eof) :: after ∧ (.down, .eof) ∉ before

theorem not_clientFirst_nil : ¬ClientFirst [] := by
  rintro ⟨before, after, hsplit, -⟩
  simp at hsplit

theorem ClientFirst.mem {calls : List PumpCall} (h : ClientFirst calls) : (.up, .eof) ∈ calls := by
  obtain ⟨before, after, rfl, -⟩ := h
  simp

theorem clientFirst_append {calls calls' : List PumpCall} :
    ClientFirst (calls ++ calls') ↔ ClientFirst calls ∨ ((.down, .eof) ∉ calls ∧ ClientFirst calls') := by
  constructor
  · rintro ⟨before, after, hsplit, hnot⟩
    rcases List.append_eq_append_iff.mp hsplit with ⟨mid, rfl, htail⟩ | ⟨mid, rfl, htail⟩
    · rw [List.mem_append, not_or] at hnot
      exact .inr ⟨hnot.1, mid, after, htail, hnot.2⟩
    · cases mid with
      | nil =>
          rw [List.append_nil]
          exact .inr ⟨hnot, [], after, htail.symm, List.not_mem_nil⟩
      | cons c mid =>
          rw [List.cons_append, List.cons.injEq] at htail
          obtain ⟨rfl, rfl⟩ := htail
          exact .inl ⟨before, mid, rfl, hnot⟩
  · rintro (⟨before, after, rfl, hnot⟩ | ⟨hnot, before, after, rfl, hnot'⟩)
    · exact ⟨before, after ++ calls', by simp, hnot⟩
    · refine ⟨calls ++ before, after, by simp, ?_⟩
      rw [List.mem_append, not_or]
      exact ⟨hnot, hnot'⟩

-- How a direction stands between two turns.
def between (isOpen : Bool) : Copy.State UInt8 := if isOpen then .copying [] else .shut

theorem between_left (isOpen : Bool) : (between isOpen).left = [] := by cases isOpen <;> rfl

-- A stretch of the loop: the calls it makes, each direction as a copier, and what they
-- mean for the state.
structure Segment (s : Pump) (calls : List PumpCall) (s' : Pump) (last : Direction → Copy.State UInt8) :
    Prop where
  run : ∀ d, Copy.Run (between (s.isOpen d)) (callsOf d calls) (last d)
  sent : ∀ d, (s'.target d).sent = (s.target d).sent ++ Copy.bytesWritten (callsOf d calls)
  counted : ∀ d, (last d).left = [] →
    s'.stats.bytes d = s.stats.bytes d + (Copy.bytesWritten (callsOf d calls)).length
  shut : ∀ d, s'.isShut d = true ↔ s.isShut d = true ∨ .shut ∈ callsOf d calls
  first : s'.stats.clientEofFirst = true ↔
    s.stats.clientEofFirst = true ∨ (s.downOpen = true ∧ ClientFirst calls)
  downOpen : s'.downOpen = true ↔ s.downOpen = true ∧ (.down, .eof) ∉ calls

theorem Segment.refl (s : Pump) : Segment s [] s fun d => between (s.isOpen d) where
  run _ := .nil _
  sent _ := (List.append_nil _).symm
  counted _ _ := rfl
  shut _ := by simp [callsOf]
  first := by simp [not_clientFirst_nil]
  downOpen := by simp

theorem Segment.trans {s s' s'' : Pump} {calls calls' : List PumpCall} {last : Direction → Copy.State UInt8}
    (h : Segment s calls s' fun d => between (s'.isOpen d)) (h' : Segment s' calls' s'' last) :
    Segment s (calls ++ calls') s'' last := by
  constructor
  · intro d
    rw [callsOf_append]
    exact (h.run d).append (h'.run d)
  · intro d
    rw [callsOf_append, Copy.bytesWritten_append, h'.sent, h.sent, List.append_assoc]
  · intro d hleft
    rw [callsOf_append, Copy.bytesWritten_append, h'.counted d hleft, h.counted d (between_left _),
      List.length_append, Nat.add_assoc]
  · intro d
    rw [callsOf_append, List.mem_append, h'.shut, h.shut, or_assoc]
  · rw [clientFirst_append, h'.first, h.first, h.downOpen]
    tauto
  · rw [h'.downOpen, h.downOpen, List.mem_append, not_or, and_assoc]

theorem clientFirst_map {d : Direction} {calls : List (Copy.Call UInt8)} :
    ClientFirst (calls.map (Prod.mk d)) ↔ d = .up ∧ .eof ∈ calls := by
  constructor
  · intro hfirst
    have hmem := hfirst.mem
    rw [List.mem_map] at hmem
    obtain ⟨c, hc, heq⟩ := hmem
    obtain ⟨rfl, rfl⟩ := Prod.mk.inj heq
    exact ⟨rfl, hc⟩
  · rintro ⟨rfl, hmem⟩
    obtain ⟨before, after, rfl⟩ := List.append_of_mem hmem
    refine ⟨before.map (Prod.mk .up), after.map (Prod.mk .up), by simp, ?_⟩
    simp

-- What the two turns have in common: a call of forward_once in direction `d`, and what
-- they do by its status.
structure TurnOf (d : Direction) (s : Pump) (f : Forwarded) (turn : Pump × Option PumpEnd) : Prop where
  sent : (turn.1.target d).sent = f.target.sent
  moved : ∀ n, f.status = .moved n → turn.1.stats.bytes d = s.stats.bytes d + n
  stopped : (∀ n, f.status ≠ .moved n) → turn.1.stats.bytes d = s.stats.bytes d
  shut : turn.1.isShut d = true ↔ s.isShut d = true ∨ f.status = .eof
  others : ∀ d', d' ≠ d → (turn.1.target d').sent = f.source.sent ∧
    turn.1.stats.bytes d' = s.stats.bytes d' ∧ turn.1.isShut d' = s.isShut d'
  isOpen : ∀ d', turn.1.isOpen d' = (s.isOpen d' && !(d' = d && f.status = .eof))
  first : turn.1.stats.clientEofFirst = true ↔ s.stats.clientEofFirst = true ∨
    (s.downOpen = true ∧ d = .up ∧ f.status = .eof)
  goes : turn.2 = none → f.status = .eof ∨ ∃ n, f.status = .moved n
  waits : turn.2 ≠ some .waiting → f.status ≠ .blocked

theorem clientTurn_of (s : Pump) : TurnOf .up s (forwardOnce s.client s.upstream) (clientTurn s) := by
  constructor
  case others | isOpen =>
    rintro (_ | _) <;> cases hstatus : (forwardOnce s.client s.upstream).status <;>
      simp [clientTurn, hstatus, Pump.target, Pump.isOpen, Pump.isShut, RelayStats.bytes]
  all_goals
    cases hstatus : (forwardOnce s.client s.upstream).status <;>
      simp [clientTurn, hstatus, Pump.target, Pump.isShut, RelayStats.bytes]

theorem upstreamTurn_of (s : Pump) : TurnOf .down s (forwardOnce s.upstream s.client) (upstreamTurn s) := by
  constructor
  case others | isOpen =>
    rintro (_ | _) <;> cases hstatus : (forwardOnce s.upstream s.client).status <;>
      simp [upstreamTurn, hstatus, Pump.target, Pump.isOpen, Pump.isShut, RelayStats.bytes]
  all_goals
    cases hstatus : (forwardOnce s.upstream s.client).status <;>
      simp [upstreamTurn, hstatus, Pump.target, Pump.isShut, RelayStats.bytes]

-- What a turn comes to: its direction goes on from where it stands, and only a call that
-- has not returned holds bytes that it will still write.
def MakesCalls (s : Pump) (calls : List PumpCall) (turn : Pump × Option PumpEnd) : Prop :=
  ∃ last, Segment s calls turn.1 last ∧ (turn.2 = none → ∀ d, last d = between (turn.1.isOpen d)) ∧
    (turn.2 ≠ some .waiting → ∀ d left, last d = .copying left → left = [])

theorem between_copying {isOpen : Bool} {left : Bytes} (h : between isOpen = .copying left) : left = [] := by
  have hleft := congrArg Copy.State.left h
  rw [between_left] at hleft
  exact hleft.symm

section Turn

variable {d : Direction} {s : Pump} {turn : Pump × Option PumpEnd} {l : Copy.State UInt8}

theorem TurnOf.segment (hopen : s.isOpen d = true)
    (h : TurnOf d s (forwardOnce (s.source d) (s.target d)) turn)
    (hother : ∀ d', d' ≠ d → s.target d' = s.source d) (hf : ForwardRun (s.source d) (s.target d) l) :
    Segment s ((forwardCalls (s.source d) (s.target d)).map (Prod.mk d)) turn.1
      fun d' => if d' = d then l else between (s.isOpen d') := by
  have hsource := (forwardOnce_spec (s.source d) (s.target d)).source_sent
  constructor
  · intro d'
    by_cases hd : d' = d
    · obtain rfl := hd
      rw [callsOf_same, if_pos rfl, hopen]
      exact hf.run
    · rw [callsOf_other (Ne.symm hd), if_neg hd]
      exact .nil _
  · intro d'
    by_cases hd : d' = d
    · obtain rfl := hd
      rw [callsOf_same, h.sent, hf.sent]
    · rw [callsOf_other (Ne.symm hd), (h.others d' hd).1, hsource, hother d' hd, Copy.bytesWritten_nil,
        List.append_nil]
  · intro d' hleft
    by_cases hd : d' = d
    · obtain rfl := hd
      rw [if_pos rfl] at hleft
      rw [callsOf_same]
      by_cases hmoved : ∃ n, (forwardOnce (s.source d') (s.target d')).status = .moved n
      · obtain ⟨n, hn⟩ := hmoved
        rw [h.moved n hn, (hf.moved n hn).2]
      · have hnone := not_exists.mp hmoved
        rw [h.stopped hnone, hf.stopped hnone hleft, List.length_nil, Nat.add_zero]
    · rw [callsOf_other (Ne.symm hd), (h.others d' hd).2.1, Copy.bytesWritten_nil, List.length_nil,
        Nat.add_zero]
  · intro d'
    by_cases hd : d' = d
    · obtain rfl := hd
      rw [callsOf_same, hf.shut, h.shut]
    · simp [Ne.symm hd, (h.others d' hd).2.2]
  · rw [h.first, clientFirst_map, hf.eof]
  · have hdown := h.isOpen .down
    dsimp only [Pump.isOpen] at hdown
    rw [hdown, ← mem_callsOf]
    by_cases hd : d = .down
    · obtain rfl := hd
      simp [hf.eof]
    · simp [hd, Ne.symm hd]

theorem TurnOf.calls (hopen : s.isOpen d = true)
    (h : TurnOf d s (forwardOnce (s.source d) (s.target d)) turn)
    (hother : ∀ d', d' ≠ d → s.target d' = s.source d) :
    MakesCalls s ((forwardCalls (s.source d) (s.target d)).map (Prod.mk d)) turn := by
  obtain ⟨l, hf⟩ := forwardOnce_run (s.source d) (s.target d)
  refine ⟨_, h.segment hopen hother hf, fun hnone d' => ?_, fun hnot d' left hlast => ?_⟩
  · rw [h.isOpen]
    by_cases hd : d' = d
    · obtain rfl := hd
      rw [if_pos rfl, hopen]
      rcases h.goes hnone with heof | ⟨n, hn⟩
      · rw [hf.ended heof]
        simp [heof, between]
      · rw [(hf.moved n hn).1]
        simp [hn, between]
    · simp [hd]
  · by_cases hd : d' = d
    · obtain rfl := hd
      rw [if_pos rfl] at hlast
      exact hf.settled (h.waits hnot) left hlast
    · rw [if_neg hd] at hlast
      exact between_copying hlast

end Turn

theorem clientTurn_calls {s : Pump} (hopen : s.upOpen = true) : MakesCalls s (clientCalls s) (clientTurn s) := by
  refine (clientTurn_of s).calls hopen fun d' hd => ?_
  cases d' with
  | up => exact absurd rfl hd
  | down => rfl

theorem upstreamTurn_calls {s : Pump} (hopen : s.downOpen = true) :
    MakesCalls s (upstreamCalls s) (upstreamTurn s) := by
  refine (upstreamTurn_of s).calls hopen fun d' hd => ?_
  cases d' with
  | up => rfl
  | down => exact absurd rfl hd

theorem MakesCalls.idle (s : Pump) : MakesCalls s [] (s, none) :=
  ⟨_, .refl s, fun _ _ => rfl, fun _ _ _ hlast => between_copying hlast⟩

theorem MakesCalls.stop {s : Pump} {calls : List PumpCall} {turn : Pump × Option PumpEnd} {ended : PumpEnd}
    (h : MakesCalls s calls turn) (hended : turn.2 = some ended) : MakesCalls s calls (turn.1, some ended) := by
  obtain ⟨last, hseg, -, hsettled⟩ := h
  rw [hended] at hsettled
  exact ⟨last, hseg, fun hnone => absurd hnone (Option.some_ne_none _), hsettled⟩

-- A turn that goes on, and what comes after it.
theorem MakesCalls.then {s : Pump} {calls calls' : List PumpCall} {turn turn' : Pump × Option PumpEnd}
    (h : MakesCalls s calls turn) (hgoes : turn.2 = none) (h' : MakesCalls turn.1 calls' turn') :
    MakesCalls s (calls ++ calls') turn' := by
  obtain ⟨last, hseg, hnext, -⟩ := h
  obtain ⟨last', hseg', hnext', hsettled'⟩ := h'
  obtain rfl : last = fun d => between (turn.1.isOpen d) := funext (hnext hgoes)
  exact ⟨last', hseg.trans hseg', hnext', hsettled'⟩

theorem pumpTurn_calls {s : Pump} {clientReady upstreamReady : Bool}
    (hclient : clientReady = true → s.upOpen = true) (hupstream : upstreamReady = true → s.downOpen = true) :
    MakesCalls s (pumpTurnCalls s clientReady upstreamReady) (pumpTurn s clientReady upstreamReady) := by
  have hfirst : MakesCalls s (if clientReady then clientCalls s else [])
      (if clientReady then clientTurn s else (s, none)) := by
    cases clientReady with
    | true => exact clientTurn_calls (hclient rfl)
    | false => exact .idle s
  have hopen : (if clientReady then clientTurn s else (s, none)).1.downOpen = s.downOpen := by
    cases clientReady with
    | true => exact clientTurn_downOpen s
    | false => rfl
  unfold pumpTurnCalls pumpTurn
  dsimp only
  cases hended : (if clientReady then clientTurn s else (s, none)).2 with
  | some ended => exact hfirst.stop hended
  | none =>
      refine hfirst.then hended ?_
      cases upstreamReady with
      | true => exact upstreamTurn_calls (hopen.trans (hupstream rfl))
      | false => exact .idle _

theorem MakesCalls.ends (s : Pump) (ended : PumpEnd) : MakesCalls s [] (s, some ended) :=
  ⟨_, .refl s, fun hnone => absurd hnone (Option.some_ne_none _), fun _ _ _ hlast => between_copying hlast⟩

theorem pumpLoop_calls (polls : List PollResult) (s : Pump) :
    MakesCalls s (pumpCalls s polls) ((pumpLoop s polls).1, some (pumpLoop s polls).2) := by
  induction polls generalizing s with
  | nil =>
      rw [pumpLoop, pumpCalls]
      split <;> exact .ends s _
  | cons poll polls ih =>
      unfold pumpLoop pumpCalls
      split
      · exact .ends s _
      · cases poll with
        | interrupted => exact ih s
        | failed => exact .ends s _
        | timeout => exact .ends s _
        | ready client upstream =>
            have hturn := @pumpTurn_calls s (client && s.upOpen) (upstream && s.downOpen)
              (fun h => (Bool.and_eq_true _ _ ▸ h).2) (fun h => (Bool.and_eq_true _ _ ▸ h).2)
            dsimp only
            cases hended : (pumpTurn s (client && s.upOpen) (upstream && s.downOpen)).2 with
            | some ended => exact hturn.stop hended
            | none => exact hturn.then hended (ih _)

section Calls

variable (client upstream : Socket) (polls : List PollResult) (d : Direction)

-- The calls are those that the state tells of.
theorem relayPump_sent : ((relayPump client upstream polls).1.target d).sent =
    ((pumpStart client upstream).target d).sent ++
      Copy.bytesWritten (callsOf d (pumpCalls (pumpStart client upstream) polls)) := by
  obtain ⟨last, hseg, -⟩ := pumpLoop_calls polls (pumpStart client upstream)
  exact hseg.sent d

theorem relayPump_shut : (relayPump client upstream polls).1.isShut d = true ↔
    (d, .shut) ∈ pumpCalls (pumpStart client upstream) polls := by
  obtain ⟨last, hseg, -⟩ := pumpLoop_calls polls (pumpStart client upstream)
  rw [relayPump, hseg.shut, mem_callsOf]
  cases d <;> simp [pumpStart, Pump.isShut]

theorem start_between : between ((pumpStart client upstream).isOpen d) = .copying [] := by
  cases d <;> rfl

-- What a direction has done at any time is a run of a copier.
theorem pumpCalls_run {soFar : List PumpCall} (h : soFar <+: pumpCalls (pumpStart client upstream) polls) :
    ∃ now, Copy.Run (.copying []) (callsOf d soFar) now := by
  obtain ⟨last, hseg, -⟩ := pumpLoop_calls polls (pumpStart client upstream)
  obtain ⟨later, hsplit⟩ := h
  have hwhole := hseg.run d
  rw [start_between, ← hsplit, callsOf_append] at hwhole
  obtain ⟨now, hnow, -⟩ := hwhole.split
  exact ⟨now, hnow⟩

-- The counter has what the direction has written, unless a write has failed, or waits.
theorem relayPump_counted (hwrites : (d, .writeFailed) ∉ pumpCalls (pumpStart client upstream) polls)
    (hidle : (relayPump client upstream polls).2 ≠ .waiting ∨
      Copy.bytesWritten (callsOf d (pumpCalls (pumpStart client upstream) polls)) =
        Copy.bytesRead (callsOf d (pumpCalls (pumpStart client upstream) polls))) :
    (relayPump client upstream polls).1.stats.bytes d =
      (Copy.bytesWritten (callsOf d (pumpCalls (pumpStart client upstream) polls))).length := by
  obtain ⟨last, hseg, -, hsettled⟩ := pumpLoop_calls polls (pumpStart client upstream)
  have hrun := start_between client upstream d ▸ hseg.run d
  have hzero : (pumpStart client upstream).stats.bytes d = 0 := by cases d <;> rfl
  have hcounted := hseg.counted d ?_
  · rw [hzero, Nat.zero_add] at hcounted
    exact hcounted
  · rcases hidle with hback | hall
    · cases hlast : last d with
      | copying left => exact hsettled (fun hwaits => hback (Option.some.inj hwaits)) d left hlast
      | ended => rfl
      | shut => rfl
      | broken left =>
          rcases (hrun.origin ⟨[], rfl⟩).2 left hlast with ⟨-, hnil⟩ | hfailed
          · exact hnil
          · exact absurd (mem_callsOf.mp hfailed) hwrites
    · have hkept := hrun.kept
      rw [hall] at hkept
      exact List.append_right_eq_self.mp hkept.symm

end Calls

-- What a relay does with the streams of its two sides, by the calls it makes: they are
-- what its sockets have taken, and the sockets what the other side's peer says.
structure KeepsStreams (s : Pump) (calls : List PumpCall) (r : Pump × PumpEnd) : Prop where
  sent : ∀ d, (r.1.target d).sent = (s.target d).sent ++ Copy.bytesWritten (callsOf d calls)
  isShut : ∀ d, r.1.isShut d = true ↔ (d, .shut) ∈ calls
  carried : ∀ d, (r.1.target d).sent <+: (s.target d).sent ++ stream (s.source d).arrivals
  arrived : r.2 = .finished → ∀ d,
    (r.1.target d).sent = (s.target d).sent ++ stream (s.source d).arrivals
  inOrder : ∀ soFar d, soFar <+: calls →
    Copy.bytesWritten (callsOf d soFar) <+: Copy.bytesRead (callsOf d soFar)
  whole : (∀ d, (d, .readFailed) ∉ calls ∧ (d, .writeFailed) ∉ calls) → (∀ d, (d, .eof) ∈ calls) →
    ∀ d, Copy.bytesWritten (callsOf d calls) = Copy.bytesRead (callsOf d calls)
  shut : ∀ soFar d, soFar ++ [(d, .shut)] <+: calls →
    (d, .eof) ∈ soFar ∧ Copy.bytesWritten (callsOf d soFar) = Copy.bytesRead (callsOf d soFar)
  counted : ∀ d, (d, .writeFailed) ∉ calls →
    r.2 ≠ .waiting ∨ Copy.bytesWritten (callsOf d calls) = Copy.bytesRead (callsOf d calls) →
    r.1.stats.bytes d = (Copy.bytesWritten (callsOf d calls)).length
  first : r.1.stats.clientEofFirst = true ↔ ClientFirst calls

theorem relayPump_streams (client upstream : Socket) (polls : List PollResult) :
    KeepsStreams (pumpStart client upstream) (pumpCalls (pumpStart client upstream) polls)
      (relayPump client upstream polls) := by
  obtain ⟨hpart, hwhole⟩ := pumpLoop_spec polls (pumpStart client upstream)
  constructor
  · exact relayPump_sent client upstream polls
  · exact relayPump_shut client upstream polls
  · intro d
    cases d with
    | up => exact hpart.up
    | down => exact hpart.down
  · intro hend d
    cases d with
    | up => exact (hwhole hend).2
    | down => exact (hwhole hend).1
  · intro soFar d hsplit
    obtain ⟨now, hnow⟩ := pumpCalls_run client upstream polls d hsplit
    exact hnow.written_prefix
  · intro _ hends d
    obtain ⟨now, hnow⟩ := pumpCalls_run client upstream polls d List.prefix_rfl
    refine hnow.all_written ?_
    rcases hnow.of_eof (mem_callsOf.mpr (hends d)) with hend | hend <;> rw [hend] <;> rfl
  · intro soFar d hsplit
    obtain ⟨now, hnow⟩ := pumpCalls_run client upstream polls d hsplit
    rw [callsOf_append] at hnow
    have hshut : callsOf d [(d, .shut)] = [.shut] := callsOf_same d [.shut]
    rw [hshut] at hnow
    rw [← mem_callsOf]
    exact hnow.before_shut
  · exact relayPump_counted client upstream polls
  · obtain ⟨last, hseg, -⟩ := pumpLoop_calls polls (pumpStart client upstream)
    rw [relayPump, hseg.first]
    simp [pumpStart]

-- The client closes its side first; the answer still comes through, in two sends.
example : pumpCalls (pumpStart ⟨[.sent 1, .interrupted, .sent 9], [.data [104, 105], .eof], []⟩
      ⟨[.sent 2], [.interrupted, .data [111, 107], .eof], []⟩)
      [.ready true true, .interrupted, .ready true true, .ready false true] =
    [(.up, .read [104, 105]), (.up, .wrote [104, 105]), (.up, .eof), (.up, .shut),
      (.down, .read [111, 107]), (.down, .wrote [111]), (.down, .wrote [107]), (.down, .eof), (.down, .shut)] := by
  decide +kernel

end DpiProxy.Relay
