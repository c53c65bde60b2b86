import DpiProxy.Relay.Pump.Theorems
import DpiProxy.Wire.Copy

namespace DpiProxy.Relay

open Wire

-- From the client to the upstream connection, and back.
inductive Direction where
  | up
  | down
deriving DecidableEq, Repr

-- The calls of recv, send and shutdown that do something, each with its direction: what
-- is read comes from the source of the direction, written and shut is its target.
abbrev PumpCall := Direction × Copy.Call UInt8

-- The calls of forward_once, with the call of shutdown that follows an end of stream.
def forwardCalls (source target : Socket) : List (Copy.Call UInt8) :=
  match recv BUFFER_SIZE source.arrivals with
  | none => []
  | some (.interrupted, _) => []
  | some (.failed, _) => [.readFailed]
  | some (.eof, _) => [.eof, .shut]
  | some (.data bytes, _) =>
      let r := relaySendAll target.sends bytes
      .read bytes :: r.writes.map .wrote ++ if r.status = .error then [.writeFailed] else []

def clientCalls (s : Pump) : List PumpCall := (forwardCalls s.client s.upstream).map (Prod.mk .up)

def upstreamCalls (s : Pump) : List PumpCall := (forwardCalls s.upstream s.client).map (Prod.mk .down)

def pumpTurnCalls (s : Pump) (clientReady upstreamReady : Bool) : List PumpCall :=
  let up := if clientReady then clientTurn s else (s, none)
  let upCalls := if clientReady then clientCalls s else []
  match up.2 with
  | some _ => upCalls
  | none => upCalls ++ if upstreamReady then upstreamCalls up.1 else []

-- The calls of pumpLoop in their order.
def pumpCalls (s : Pump) : List PollResult → List PumpCall
  | [] => []
  | poll :: polls =>
      if !s.upOpen && !s.downOpen then []
      else
        match poll with
        | .interrupted => pumpCalls s polls
        | .failed => []
        | .timeout => []
        | .ready client upstream =>
            let turn := pumpTurn s (client && s.upOpen) (upstream && s.downOpen)
            let calls := pumpTurnCalls s (client && s.upOpen) (upstream && s.downOpen)
            match turn.2 with
            | some _ => calls
            | none => calls ++ pumpCalls turn.1 polls

def callsOf (d : Direction) (calls : List PumpCall) : List (Copy.Call UInt8) :=
  calls.filterMap fun c => if c.1 = d then some c.2 else none

def Pump.isOpen (s : Pump) : Direction → Bool
  | .up => s.upOpen
  | .down => s.downOpen

-- The socket that a direction writes to.
def Pump.target (s : Pump) : Direction → Socket
  | .up => s.upstream
  | .down => s.client

def Pump.isShut (s : Pump) : Direction → Bool
  | .up => s.upstreamShut
  | .down => s.clientShut

def RelayStats.bytes (stats : RelayStats) : Direction → Nat
  | .up => stats.upBytes
  | .down => stats.downBytes

@[simp] theorem callsOf_append (d : Direction) (calls calls' : List PumpCall) :
    callsOf d (calls ++ calls') = callsOf d calls ++ callsOf d calls' := List.filterMap_append

@[simp] theorem callsOf_same (d : Direction) (calls : List (Copy.Call UInt8)) :
    callsOf d (calls.map (Prod.mk d)) = calls := by
  simp [callsOf]

@[simp] theorem callsOf_other {d d' : Direction} (hne : d' ≠ d) (calls : List (Copy.Call UInt8)) :
    callsOf d (calls.map (Prod.mk d')) = [] := by
  simp [callsOf, hne]

theorem mem_callsOf {d : Direction} {c : Copy.Call UInt8} {calls : List PumpCall} :
    c ∈ callsOf d calls ↔ (d, c) ∈ calls := by
  rw [callsOf, List.mem_filterMap]
  constructor
  · rintro ⟨⟨d', c'⟩, hmem, hsome⟩
    by_cases hd : d' = d
    · simp only [hd, if_true, Option.some.injEq] at hsome
      rw [← hd, ← hsome] at *
      exact hmem
    · simp [hd] at hsome
  · intro hmem
    exact ⟨(d, c), hmem, by simp⟩

-- relay_send_all as a copier with the buffer in hand.
theorem relaySendAll_run (script : List SendResult) (buffer : Bytes) :
    ∃ left, Copy.Run (.copying buffer) ((relaySendAll script buffer).writes.map .wrote) (.copying left) ∧
      (left = [] ↔ (relaySendAll script buffer).status = .ok) := by
  fun_induction relaySendAll script buffer with
  | case1 => exact ⟨[], .nil _, by simp⟩
  | case2 b bs => exact ⟨b :: bs, .nil _, by simp⟩
  | case3 script b bs ih => exact ih
  | case4 script b bs => exact ⟨b :: bs, .nil _, by simp⟩
  | case5 count script b bs sent hsent => exact ⟨b :: bs, .nil _, by simp⟩
  | case6 count script b bs sent hsent rest ih =>
      obtain ⟨left, hrun, hleft⟩ := ih
      refine ⟨left, ?_, hleft⟩
      have hstep := Copy.Step.wrote ((b :: bs).take sent) ((b :: bs).drop sent)
      rw [List.take_append_drop] at hstep
      exact .cons hstep hrun

-- forward_once as a copier that comes to `last`.
structure ForwardRun (source target : Socket) (last : Copy.State UInt8) : Prop where
  run : Copy.Run (.copying []) (forwardCalls source target) last
  sent : (forwardOnce source target).target.sent =
    target.sent ++ Copy.bytesWritten (forwardCalls source target)
  moved : ∀ n, (forwardOnce source target).status = .moved n →
    last = .copying [] ∧ n = (Copy.bytesWritten (forwardCalls source target)).length
  stopped : (∀ n, (forwardOnce source target).status ≠ .moved n) → last.left = [] →
    Copy.bytesWritten (forwardCalls source target) = []
  ended : (forwardOnce source target).status = .eof → last = .shut
  settled : (forwardOnce source target).status ≠ .blocked → ∀ left, last = .copying left → left = []
  eof : .eof ∈ forwardCalls source target ↔ (forwardOnce source target).status = .eof
  shut : .shut ∈ forwardCalls source target ↔ (forwardOnce source target).status = .eof

theorem forwardOnce_run (source target : Socket) : ∃ last, ForwardRun source target last := by
  cases hrecv : recv BUFFER_SIZE source.arrivals with
  | none =>
      have hcalls : forwardCalls source target = [] := by rw [forwardCalls, hrecv]
      have hone : forwardOnce source target = ⟨.blocked, source, target⟩ := by rw [forwardOnce, hrecv]
      refine ⟨.copying [], ?_⟩
      constructor <;> simp [hcalls, hone, Copy.Run.nil]
  | some p =>
      obtain ⟨r, left⟩ := p
      cases r with
      | interrupted =>
          have hcalls : forwardCalls source target = [] := by rw [forwardCalls, hrecv]
          have hone : forwardOnce source target = ⟨.moved 0, { source with arrivals := left }, target⟩ := by
            rw [forwardOnce, hrecv]
          refine ⟨.copying [], ?_⟩
          constructor <;> simp [hcalls, hone, Copy.Run.nil]
      | failed =>
          have hcalls : forwardCalls source target = [.readFailed] := by rw [forwardCalls, hrecv]
          have hone : forwardOnce source target = ⟨.readError, { source with arrivals := left }, target⟩ := by
            rw [forwardOnce, hrecv]
          refine ⟨.broken [], ?_⟩
          constructor <;> simp [hcalls, hone]
          exact .cons .readFailed (.nil _)
      | eof =>
          have hcalls : forwardCalls source target = [.eof, .shut] := by rw [forwardCalls, hrecv]
          have hone : forwardOnce source target = ⟨.eof, { source with arrivals := left }, target⟩ := by
            rw [forwardOnce, hrecv]
          refine ⟨.shut, ?_⟩
          constructor <;> simp [hcalls, hone]
          exact .cons .eof (.cons .shut (.nil _))
      | data bytes =>
          obtain ⟨rest, hrun, hrest⟩ := relaySendAll_run target.sends bytes
          have hread : Copy.Run (.copying []) (.read bytes :: (relaySendAll target.sends bytes).writes.map .wrote)
              (.copying rest) := .cons (.read bytes) hrun
          have hsent : (forwardOnce source target).target.sent =
              target.sent ++ (relaySendAll target.sends bytes).writes.flatten := by
            rw [forwardOnce, hrecv]
            rfl
          cases hstatus : (relaySendAll target.sends bytes).status with
          | ok =>
              have hcalls : forwardCalls source target =
                  .read bytes :: (relaySendAll target.sends bytes).writes.map .wrote := by
                simp [forwardCalls, hrecv, hstatus]
              have hone : (forwardOnce source target).status = .moved bytes.length := by
                simp [forwardOnce, hrecv, sendAll, hstatus]
              have hall := relaySendAll_ok _ _ hstatus
              obtain rfl := hrest.mpr hstatus
              refine ⟨.copying [], ?_⟩
              constructor <;> simp [hcalls, hone, hread, hsent, hall]
          | error =>
              have hcalls : forwardCalls source target =
                  .read bytes :: (relaySendAll target.sends bytes).writes.map .wrote ++ [.writeFailed] := by
                simp [forwardCalls, hrecv, hstatus]
              have hone : (forwardOnce source target).status = .writeError := by
                simp [forwardOnce, hrecv, sendAll, hstatus]
              have hne : rest ≠ [] := fun hnil => by simp [hrest.mp hnil] at hstatus
              have hbroken : Copy.Run (.copying []) (forwardCalls source target) (.broken rest) := by
                rw [hcalls]
                exact hread.append (.cons (.writeFailed rest) (.nil _))
              refine ⟨.broken rest, ?_⟩
              constructor <;> simp [hbroken, hone, hsent, hne, Copy.State.left] <;> simp [hcalls]
          | blocked =>
              have hcalls : forwardCalls source target =
                  .read bytes :: (relaySendAll target.sends bytes).writes.map .wrote := by
                simp [forwardCalls, hrecv, hstatus]
              have hone : (forwardOnce source target).status = .blocked := by
                simp [forwardOnce, hrecv, sendAll, hstatus]
              have hne : rest ≠ [] := fun hnil => by simp [hrest.mp hnil] at hstatus
              refine ⟨.copying rest, ?_⟩
              constructor <;> simp [hcalls, hone, hread, hsent, hne, Copy.State.left]

end DpiProxy.Relay
