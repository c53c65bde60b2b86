import DpiProxy.Machine
import DpiProxy.Transparent.Decisions.File

namespace DpiProxy.Transparent.Saving

open Wire

-- The largest file that read_file takes.
def FILE_MAX : Nat := 4 * 1024 * 1024

-- `got` is how much fread gives of the file, and none where read_file returns before.
def readFile (file : Option Bytes) (got : Option Nat) : Option Bytes :=
  match file, got with
  | some text, some n => if text.length > FILE_MAX then none else some (text.take n)
  | _, _ => none

-- `file` is the decisions file. `writing` is the buffer of save_decisions between its
-- lock and the return of write_file_atomic. `called` is set by the first load or save;
-- only proofs look at it.
structure State where
  dec : TpDecisions
  file : Option Bytes
  writing : Option Bytes
  called : Bool

def init (file : Option Bytes) : State := ⟨tpDecisionsInit, file, none, false⟩

inductive Event where
  -- a connection or the verifier, under the lock
  | store (call : StoreCall)
  | load (got : Option Nat)
  -- save_decisions up to its unlock
  | save (allocated : Bool)
  -- write_file_atomic returns
  | write (ok : Bool)

inductive Log where
  | loaded (count skipped : Nat)
  | couldNotWrite
deriving DecidableEq, Repr

def loadDecisions (s : State) (got : Option Nat) : State × Option Log :=
  match readFile s.file got with
  | none => ({ s with called := true }, none)
  | some text =>
      let parsed := tpDecisionsParse s.dec text
      ({ s with dec := parsed.1, called := true },
        some (.loaded parsed.1.entries.length parsed.2))

def saveDecisions (s : State) (allocated : Bool) : State :=
  if s.dec.dirty then
    match if allocated then tpDecisionsSerialize s.dec (saveSize s.dec) else none with
    | none => { s with called := true }
    | some text =>
        { s with dec := { s.dec with dirty := false }, writing := some text, called := true }
  else { s with called := true }

-- The main loop loads and saves, so one of the two begins after the other has ended.
def step (s : State) : Event → State × Option Log
  | .store call => ({ s with dec := call.apply s.dec }, none)
  | .load got => if s.writing = none then loadDecisions s got else (s, none)
  | .save allocated => (if s.writing = none then saveDecisions s allocated else s, none)
  | .write ok =>
      match s.writing with
      | none => (s, none)
      | some text =>
          if ok then ({ s with file := some text, writing := none }, none)
          else ({ s with writing := none }, some .couldNotWrite)

-- The decisions that the file would give to an empty store.
def fileEntries : Option Bytes → List TpDecision
  | none => []
  | some text => (tpDecisionsParse tpDecisionsInit text).1.entries

-- A clean store is a saved store.
def Synced (s : State) : Prop :=
  s.called = true → s.writing = none → s.dec.dirty = false → fileEntries s.file = s.dec.entries

instance (s : State) : Decidable (Synced s) := inferInstanceAs (Decidable (_ → _ → _ → _))

end DpiProxy.Transparent.Saving
