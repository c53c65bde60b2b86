import DpiProxy.Machine
import DpiProxy.Table
import DpiProxy.Transparent.Dnsfwd

namespace DpiProxy.Transparent.Quic

open Wire Dns

def QUIC_SEEN_MAX : Nat := 512

def addrLen : Family → Nat
  | .v4 => 4
  | .v6 => 16

-- What note compares of an address and tpp_quic_block adds.
abbrev Addr := Family × Bytes

instance : LawfulBEq Addr := inferInstanceAs (LawfulBEq (Family × Bytes))

def addrOf (a : Dns.DnsAddr) : Addr := (a.family, a.addr.take (addrLen a.family))

structure QuicSeen where
  addr : Addr
  addedAt : Int
deriving DecidableEq, Repr

-- entries is g_seen[0 .. g_seen_count) of the source.
structure Seen where
  entries : List QuicSeen
  size_le : entries.length ≤ QUIC_SEEN_MAX

def Seen.empty : Seen := ⟨[], Nat.zero_le _⟩

def Seen.set (seen : Seen) (i : Nat) (e : QuicSeen) : Seen where
  entries := seen.entries.set i e
  size_le := by rw [List.length_set]; exact seen.size_le

-- The slot of a new address: one behind the last, or the oldest entry's.
def Seen.add (seen : Seen) (e : QuicSeen) : Seen :=
  if h : seen.entries.length < QUIC_SEEN_MAX then
    { entries := seen.entries ++ [e]
      size_le := by rw [List.length_append]; exact h }
  else seen.set (Table.minIndex QuicSeen.addedAt seen.entries) e

-- True if the caller should add the address to the platform's set.
def note (seen : Seen) (a : Addr) (now : Int) : Seen × Bool :=
  match seen.entries.findIdx? fun e => e.addr = a with
  | some i =>
      if (seen.entries[i]?).any fun e => decide (now - e.addedAt < TP_QUIC_BLOCK_TIMEOUT_S / 2) then
        (seen, false)
      else (seen.set i ⟨a, now⟩, true)
  | none => (seen.add ⟨a, now⟩, true)

-- One call of tpd_quic_block_answer, and what its thread sends after it. `todo` are the
-- addresses that are not noted yet. `noted` has the others, for proofs, with the time of
-- the block that the thread relies on: its own, or the last before it left one out, and
-- the time that it left it out if there was none.
structure Task where
  todo : List Addr
  fresh : List Addr
  noted : List (Addr × Int)
  query : Bytes
  sent : Option Bytes
deriving DecidableEq, Repr

-- `now` runs evenly and time(NULL) is `offset` ahead of it, and never was more than
-- `lead`. `platform` has the addresses that tpp_quic_block has returned for since the
-- last flush, with the time, the latest first. `flushed` is set between tpp_quic_flush
-- and tpd_quic_forget; the addresses in it are those that the table still has from
-- before.
structure State where
  seen : Seen
  tasks : List Task
  platform : List (Addr × Int)
  flushed : Option (List Addr)
  now : Int
  offset : Int
  lead : Int

def init (now offset : Int) : State := ⟨.empty, [], [], none, now, offset, offset⟩

def State.clock (s : State) : Int := s.now + s.offset

def State.setTask (s : State) (i : Nat) (t : Task) : State := { s with tasks := s.tasks.set i t }

-- A query with all that its worker meets until resolve() returns.
structure Job where
  transport : Transport
  original : Original
  resolver : Resolver
  query : Bytes
  udp : Bool
  orig : Option Bytes
  now : Int × Int
  allocated : Bool

def Job.answered (j : Job) : Answered :=
  answer j.transport j.original j.resolver j.query j.udp j.orig j.now j.allocated

-- The first DNS_MAX_ADDRS addresses of an answer.
def blockAnswer (addrs : List Dns.DnsAddr) (query : Bytes) (sent : Option Bytes) : Task :=
  ⟨(addrs.take DNS_MAX_ADDRS).map addrOf, [], [], query, sent⟩

inductive Event where
  -- a worker of the forwarder has its reply
  | answer (job : Job)
  -- tpd_quic_block by a connection or the verifier
  | connection (a : Dns.DnsAddr)
  -- one round of the loop, under the lock
  | note (i : Nat)
  -- tpp_quic_block returns
  | blocked (i : Nat)
  | send (i : Nat)
  -- the two halves of a network change
  | flush
  | forget
  | tick (seconds : Nat)
  | setClock (offset : Int)

-- What the client gets, and the state of the set at that time.
structure Sent where
  query : Bytes
  reply : Bytes
  platform : List (Addr × Int)
  now : Int
deriving DecidableEq, Repr

-- When tpp_quic_block last returned for the address.
def blockedAt (platform : List (Addr × Int)) (a : Addr) : Option Int :=
  (platform.find? fun p => p.1 = a).map Prod.snd

def noteTurn (s : State) (i : Nat) (t : Task) (a : Addr) (todo : List Addr) : State :=
  let noted := note s.seen a s.clock
  if noted.2 then
    { s with
      seen := noted.1
      flushed := s.flushed.map fun stale => stale.filter (· ≠ a)
      tasks := s.tasks.set i
        { t with todo := todo, fresh := t.fresh ++ [a], noted := t.noted ++ [(a, s.now)] } }
  else
    { s with
      seen := noted.1
      tasks := s.tasks.set i
        { t with
          todo := todo
          noted := t.noted ++ [(a, (blockedAt s.platform a).getD s.now)] } }

-- tpp_quic_block has returned for all that the thread had to add.
def returned (s : State) (i : Nat) (t : Task) : State :=
  { s with
    platform := (t.fresh.map fun a => (a, s.now)) ++ s.platform
    flushed := s.flushed.map fun stale => stale.filter (· ∉ t.fresh)
    tasks := s.tasks.set i
      { t with
        fresh := []
        noted := t.noted.map fun x => if x.1 ∈ t.fresh then (x.1, s.now) else x } }

def step (s : State) : Event → State × Option Sent
  | .answer job =>
      let x := job.answered
      ({ s with tasks := s.tasks ++ [blockAnswer x.noted job.query x.sent] }, none)
  | .connection a => ({ s with tasks := s.tasks ++ [blockAnswer [a] [] none] }, none)
  | .note i =>
      match s.tasks[i]? with
      | none => (s, none)
      | some t =>
          match t.todo with
          | [] => (s, none)
          | a :: todo => (noteTurn s i t a todo, none)
  | .blocked i =>
      match s.tasks[i]? with
      | none => (s, none)
      | some t =>
          if t.todo = [] then (returned s i t, none) else (s, none)
  | .send i =>
      match s.tasks[i]? with
      | none => (s, none)
      | some t =>
          if t.todo = [] ∧ t.fresh = [] then
            (s.setTask i { t with sent := none },
              t.sent.map fun reply => ⟨t.query, reply, s.platform, s.now⟩)
          else (s, none)
  | .flush =>
      match s.flushed with
      | none =>
          ({ s with platform := [], flushed := some (s.seen.entries.map (·.addr)) }, none)
      | some _ => (s, none)
  | .forget =>
      match s.flushed with
      | none => (s, none)
      | some _ => ({ s with seen := .empty, flushed := none }, none)
  | .tick seconds => ({ s with now := s.now + seconds }, none)
  | .setClock offset => ({ s with offset := offset, lead := max s.lead offset }, none)

-- The addresses that a reply gives the client for a known-blocked name.
def protectedAddrs (query reply : Bytes) : List Addr :=
  match dnsQueryInfo query DNS_NAME_MAX with
  | none => []
  | some info => (noteAnswer reply info.name info.qtype).map addrOf

-- Every one of them is in the platform's set.
def Sent.Protected (x : Sent) : Prop :=
  ∀ a ∈ protectedAddrs x.query x.reply, ∃ p ∈ x.platform,
    p.1 = a ∧ x.now - p.2 < TP_QUIC_BLOCK_TIMEOUT_S

end DpiProxy.Transparent.Quic
