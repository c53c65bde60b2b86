import DpiProxy.Machine
import DpiProxy.Table.Owned
import DpiProxy.Dns.Doh.Exchange

namespace DpiProxy.Dns.Doh

open Wire

def DOH_POOL : Nat := 4

def DOH_IDLE_MAX_S : Int := 50

-- What a caller of the transport asks, and until when.
structure Asked where
  server : Nat
  query : Bytes
  replySize : Nat
  deadline : Int
deriving DecidableEq, Repr

-- A t_doh_conn: opened to one server, with what has come on it and is not read. No two that
-- are opened are the same.
structure Conn where
  id : Nat
  server : Nat
  unread : Bytes
deriving DecidableEq, Repr

structure IdleConn where
  conn : Conn
  lastUsed : Int
deriving DecidableEq, Repr

-- A thread that uses the transport, between two of its calls that take the lock or have to
-- do with a connection.
inductive Worker where
  | rest
  | getting (a : Asked) (now : Int)
  | stale (a : Asked) (now : Int) (c : Conn)
  | opening (a : Asked)
  | asking (a : Asked) (c : Conn) (fresh : Bool)
  | putting (a : Asked) (c : IdleConn) (result : Answered)
  | surplus (a : Asked) (c : Conn) (result : Answered)
  | failed (a : Asked) (c : Conn) (fresh : Bool)
  | dropping (drop : List Conn)
deriving DecidableEq, Repr

-- `idle` of each server has the connection on top first. `opens` are the connections that
-- have been opened and not closed.
structure Pool where
  idle : List (List IdleConn)
  opened : Nat
  opens : List Nat
  workers : List Worker
deriving DecidableEq, Repr

-- What a worker finds: the time, if a connection can be opened, which writes go out, what
-- the server sends from then on, and in which chunks it is read.
structure Found where
  now : Int
  opens : Bool
  tlscWrite : Bytes → Bool
  sent : Bytes
  sizes : List Nat

inductive PoolEvent where
  | query (i s : Nat) (query : Bytes) (replySize : Nat) (asked timeout now : Int)
  | drop (i : Nat)
  | go (i : Nat) (found : Found)

def Pool.put (p : Pool) (i : Nat) (w : Worker) : Pool := { p with workers := p.workers.set i w }

def Pool.close (p : Pool) (c : Conn) : Pool := { p with opens := p.opens.erase c.id }

-- What doh_query returns for the result of its request, and the reply.
def answered (r : Answered) : Answered := ⟨if r.value > 0 then r.value else -1, r.reply⟩

-- The request on a connection. What is read comes off the front of what it has.
def Conn.request (c : Conn) (host : Bytes) (a : Asked) (found : Found) : Answered × Conn :=
  let stream := c.unread ++ found.sent
  let chunks := Chunks.cut found.sizes stream
  let exchange := dohExchange found.tlscWrite chunks host a.query a.replySize
  (exchange.1, { c with unread := exchange.2.flatten ++ stream.drop chunks.flatten.length })

theorem Conn.request_id (c : Conn) (host : Bytes) (a : Asked) (found : Found) :
    (c.request host a found).2.id = c.id := by
  simp only [Conn.request]

theorem Conn.request_server (c : Conn) (host : Bytes) (a : Asked) (found : Found) :
    (c.request host a found).2.server = c.server := by
  simp only [Conn.request]

section Steps

-- srv[s].host
variable (host : Nat → Bytes)

-- The next thing that a worker does, and what its query returns then.
def Pool.go (p : Pool) (i : Nat) (found : Found) : Worker → Pool × Option (Asked × Answered)
  | .rest => (p, none)
  | .getting a now =>
      match p.idle[a.server]? with
      | some (c :: idle) =>
          let p := { p with idle := p.idle.set a.server idle }
          if now - c.lastUsed > DOH_IDLE_MAX_S * 1000 then (p.put i (.stale a now c.conn), none)
          else (p.put i (.asking a c.conn false), none)
      | _ => (p.put i (.opening a), none)
  | .stale a now c => ((p.close c).put i (.getting a now), none)
  | .opening a =>
      if found.opens then
        let c : Conn := ⟨p.opened, a.server, []⟩
        ({ p with opened := p.opened + 1, opens := c.id :: p.opens }.put i (.asking a c true), none)
      else (p.put i .rest, some (a, ⟨0, []⟩))
  | .asking a c fresh =>
      let (result, c) := c.request (host a.server) a found
      if result.value ≥ 0 then (p.put i (.putting a ⟨c, found.now⟩ result), none)
      else (p.put i (.failed a c fresh), none)
  | .putting a c result =>
      match p.idle[a.server]? with
      | some idle =>
          if idle.length < DOH_POOL then
            ({ p with idle := p.idle.set a.server (c :: idle) }.put i .rest, some (a, answered result))
          else (p.put i (.surplus a c.conn result), none)
      | none => (p, none)
  | .surplus a c result => ((p.close c).put i .rest, some (a, answered result))
  | .failed a c fresh =>
      if fresh || decide (found.now ≥ a.deadline) then ((p.close c).put i .rest, some (a, ⟨0, []⟩))
      else ((p.close c).put i (.opening a), none)
  | .dropping [] => (p.put i .rest, none)
  | .dropping (c :: drop) => ((p.close c).put i (.dropping drop), none)

-- The connections that dns_doh_drop_idle takes, in the order in which it closes them.
def dropped (idle : List (List IdleConn)) : List Conn := (idle.flatMap fun l => l.map IdleConn.conn).reverse

def Pool.step (p : Pool) : PoolEvent → Pool × Option (Asked × Answered)
  | .query i s query replySize asked timeout now =>
      match p.workers[i]? with
      | some .rest =>
          if s < p.idle.length then (p.put i (.getting ⟨s, query, replySize, asked + timeout⟩ now), none) else (p, none)
      | _ => (p, none)
  | .drop i =>
      match p.workers[i]? with
      | some .rest =>
          ({ p with idle := List.replicate p.idle.length [] }.put i (.dropping (dropped p.idle)), none)
      | _ => (p, none)
  | .go i found =>
      match p.workers[i]? with
      | some w => p.go host i found w
      | none => (p, none)

end Steps

def Pool.start (servers workers : Nat) : Pool := ⟨List.replicate servers [], 0, [], List.replicate workers .rest⟩

def conns (idle : List IdleConn) : List Nat := idle.map fun e => e.conn.id

def Worker.hands : Worker → List Nat
  | .stale _ _ c | .asking _ c _ | .failed _ c _ | .surplus _ c _ => [c.id]
  | .putting _ c _ => [c.conn.id]
  | .dropping drop => drop.map Conn.id
  | _ => []

-- The connection is one to the server that the worker asks.
def Worker.Right : Worker → Prop
  | .stale a _ c | .asking a c _ | .failed a c _ => c.server = a.server
  | .putting a c _ => c.conn.server = a.server
  | _ => True

-- Every open connection is in one place: on one server's stack, or with one worker.
structure Owns (p : Pool) : Prop where
  owned : (p.idle.flatMap conns ++ p.workers.flatMap Worker.hands).Perm p.opens
  single : p.opens.Nodup
  young : ∀ c ∈ p.opens, c < p.opened
  few : ∀ idle ∈ p.idle, idle.length ≤ DOH_POOL
  filed : ∀ (s : Nat) (idle : List IdleConn), p.idle[s]? = some idle → ∀ e ∈ idle, e.conn.server = s
  right : ∀ w ∈ p.workers, w.Right

section Moves

variable {host : Nat → Bytes} {p : Pool} {i s : Nat} {w w' : Worker}

-- A worker changes, and what it has in hand stays.
theorem owned_put (h : Owns p) (hw : p.workers[i]? = some w) (hands : w'.hands.Perm w.hands) (hright : w'.Right) :
    Owns (p.put i w') := by
  obtain ⟨rest, hold, hnew⟩ := @Owned.rest_of _ _ Worker.hands _ _ _ hw
  refine ⟨?_, h.single, h.young, h.few, h.filed, fun v hv => ?_⟩
  · refine .trans (List.Perm.append_left _ ?_) h.owned
    exact (hnew w').trans ((hands.append_right rest).trans hold.symm)
  · rcases Owned.mem_set hv with rfl | hv
    · exact hright
    · exact h.right v hv

theorem owned_close (h : Owns p) {c : Conn} (hw : p.workers[i]? = some w) (hands : w.hands.Perm (c.id :: w'.hands))
    (hright : w'.Right) : Owns ((p.close c).put i w') := by
  obtain ⟨rest, hold, hnew⟩ := @Owned.rest_of _ _ Worker.hands _ _ _ hw
  refine ⟨?_, h.single.erase c.id, fun d hd => h.young d (List.mem_of_mem_erase hd), h.few, h.filed, fun v hv => ?_⟩
  · have howned : (c.id :: (p.idle.flatMap conns ++ (p.put i w').workers.flatMap Worker.hands)).Perm p.opens := by
      refine .trans ?_ h.owned
      refine .trans List.perm_middle.symm (List.Perm.append_left _ ?_)
      exact ((hnew w').cons c.id).trans ((hands.symm.append_right rest).trans hold.symm)
    have herase := howned.erase c.id
    rw [List.erase_cons_head] at herase
    exact herase
  · rcases Owned.mem_set hv with rfl | hv
    · exact hright
    · exact h.right v hv

theorem owned_open (h : Owns p) (hw : p.workers[i]? = some w) (hnone : w.hands = []) (hands : w'.hands = [p.opened])
    (hright : w'.Right) : Owns ({ p with opened := p.opened + 1, opens := p.opened :: p.opens }.put i w') := by
  obtain ⟨rest, hold, hnew⟩ := @Owned.rest_of _ _ Worker.hands _ _ _ hw
  refine ⟨?_, ?_, fun d hd => ?_, h.few, h.filed, fun v hv => ?_⟩
  · refine .trans (List.Perm.append_left _ (hnew w')) ?_
    rw [hands, List.singleton_append]
    refine .trans List.perm_middle (List.Perm.cons p.opened (.trans (List.Perm.append_left _ ?_) h.owned))
    rw [hnone] at hold
    exact hold.symm
  · exact List.nodup_cons.mpr ⟨fun hmem => absurd (h.young p.opened hmem) (Nat.lt_irrefl _), h.single⟩
  · rcases List.mem_cons.mp hd with rfl | hd
    · exact Nat.lt_succ_self _
    · exact Nat.lt_succ_of_lt (h.young d hd)
  · rcases Owned.mem_set hv with rfl | hv
    · exact hright
    · exact h.right v hv

-- A connection moves between a stack and a worker.
theorem owned_move (h : Owns p) (hw : p.workers[i]? = some w) {idle idle' : List IdleConn} (hs : p.idle[s]? = some idle)
    (hands : (conns idle' ++ w'.hands).Perm (conns idle ++ w.hands)) (hfew : idle'.length ≤ DOH_POOL)
    (hfiled : ∀ e ∈ idle', e.conn.server = s) (hright : w'.Right) :
    Owns ({ p with idle := p.idle.set s idle' }.put i w') := by
  obtain ⟨rest, hold, hnew⟩ := @Owned.rest_of _ _ Worker.hands _ _ _ hw
  obtain ⟨others, hold', hnew'⟩ := @Owned.rest_of _ _ conns _ _ _ hs
  have hregroup : ∀ a b : List Nat, (a ++ others ++ (b ++ rest)).Perm (a ++ b ++ (others ++ rest)) := fun a b => by
    simp only [List.append_assoc]
    refine List.Perm.append_left a ?_
    simp only [← List.append_assoc]
    exact List.perm_append_comm.append_right rest
  refine ⟨?_, h.single, h.young, fun l hl => ?_, fun t l hl e he => ?_, fun v hv => ?_⟩
  · refine .trans ((hnew' idle').append (hnew w')) (.trans (hregroup _ _) ?_)
    refine .trans (hands.append_right _) (.trans (hregroup _ _).symm ?_)
    exact (hold'.symm.append hold.symm).trans h.owned
  · rcases Owned.mem_set hl with rfl | hl
    · exact hfew
    · exact h.few l hl
  · by_cases hts : s = t
    · obtain rfl := hts
      simp only [Pool.put, List.getElem?_set_self (List.getElem?_eq_some_iff.mp hs).1] at hl
      obtain rfl := Option.some.inj hl
      exact hfiled e he
    · simp only [Pool.put, List.getElem?_set_ne hts] at hl
      exact h.filed t l hl e he
  · rcases Owned.mem_set hv with rfl | hv
    · exact hright
    · exact h.right v hv

theorem dropped_ids (idle : List (List IdleConn)) : ((dropped idle).map Conn.id).Perm (idle.flatMap conns) := by
  rw [dropped, List.map_reverse, List.map_flatMap]
  refine (List.reverse_perm _).trans (.of_eq ?_)
  congr 1
  funext l
  rw [List.map_map]
  rfl

theorem owned_drop (h : Owns p) (hw : p.workers[i]? = some .rest) :
    Owns ({ p with idle := List.replicate p.idle.length [] }.put i (.dropping (dropped p.idle))) := by
  obtain ⟨rest, hold, hnew⟩ := @Owned.rest_of _ _ Worker.hands _ _ _ hw
  have hempty : (List.replicate p.idle.length ([] : List IdleConn)).flatMap conns = [] := by
    rw [List.flatMap_eq_nil_iff]
    intro l hl
    rw [List.eq_of_mem_replicate hl]
    rfl
  refine ⟨?_, h.single, h.young, fun l hl => ?_, fun s l hl e he => ?_, fun v hv => ?_⟩
  · refine .trans ?_ h.owned
    simp only [Pool.put, hempty, List.nil_append]
    refine (hnew _).trans ?_
    exact ((dropped_ids p.idle).append_right rest).trans (List.Perm.append_left _ hold.symm)
  · rw [List.eq_of_mem_replicate hl]
    exact Nat.zero_le _
  · rw [List.eq_of_mem_replicate (List.mem_of_getElem? hl)] at he
    cases he
  · rcases Owned.mem_set hv with rfl | hv
    · trivial
    · exact h.right v hv

-- One thing that one worker does.
theorem go_owns (h : Owns p) (hw : p.workers[i]? = some w) (found : Found) : Owns (p.go host i found w).1 := by
  have hright := h.right w (List.mem_of_getElem? hw)
  cases w with
  | rest => exact h
  | getting a now =>
      simp only [Pool.go]
      split
      · rename_i c idle hs
        have hfiled := h.filed a.server _ hs
        have hfew := h.few _ (List.mem_of_getElem? hs)
        rw [List.length_cons] at hfew
        have hmove : ∀ w' : Worker, w'.hands = [c.conn.id] → w'.Right →
            Owns ({ p with idle := p.idle.set a.server idle }.put i w') := by
          intro w' hands hright'
          refine owned_move h hw hs ?_ (by omega) (fun e he => hfiled e (List.mem_cons_of_mem _ he)) hright'
          rw [hands]
          exact (List.perm_append_singleton c.conn.id (conns idle)).trans (.of_eq (List.append_nil _).symm)
        split
        · exact hmove _ rfl (hfiled c List.mem_cons_self)
        · exact hmove _ rfl (hfiled c List.mem_cons_self)
      · exact owned_put h hw (.refl _) trivial
  | stale a now c => exact owned_close h hw (.refl _) trivial
  | opening a =>
      simp only [Pool.go]
      split
      · exact owned_open h hw rfl rfl rfl
      · exact owned_put h hw (.refl _) trivial
  | asking a c fresh =>
      have hid := c.request_id (host a.server) a found
      have hserver := (c.request_server (host a.server) a found).trans hright
      simp only [Pool.go]
      generalize c.request (host a.server) a found = asked at hid hserver ⊢
      split
      · exact owned_put h hw (.of_eq (congrArg (fun c => [c]) hid)) hserver
      · exact owned_put h hw (.of_eq (congrArg (fun c => [c]) hid)) hserver
  | putting a c result =>
      simp only [Pool.go]
      split
      · rename_i idle hs
        split
        · rename_i hroom
          refine owned_move h hw hs ?_ hroom ?_ trivial
          · exact (List.Perm.of_eq (List.append_nil _)).trans (List.perm_append_singleton c.conn.id (conns idle)).symm
          · intro e he
            rcases List.mem_cons.mp he with rfl | he
            · exact hright
            · exact h.filed a.server idle hs e he
        · exact owned_put h hw (.refl _) trivial
      · exact h
  | surplus a c result => exact owned_close h hw (.refl _) trivial
  | failed a c fresh =>
      simp only [Pool.go]
      split
      · exact owned_close h hw (.refl _) trivial
      · exact owned_close h hw (.refl _) trivial
  | dropping drop =>
      cases drop with
      | nil => exact owned_put h hw (.refl _) trivial
      | cons c drop => exact owned_close h hw (.refl _) trivial

theorem step_owns (h : Owns p) (e : PoolEvent) : Owns (p.step host e).1 := by
  cases e with
  | query i s query replySize asked timeout now =>
      simp only [Pool.step]
      split
      · rename_i hw
        split
        · exact owned_put h hw (.refl _) trivial
        · exact h
      · exact h
  | drop i =>
      simp only [Pool.step]
      split
      · rename_i hw
        exact owned_drop h hw
      · exact h
  | go i found =>
      simp only [Pool.step]
      split
      · rename_i w hw
        exact go_owns h hw found
      · exact h

end Moves

theorem start_owns (servers workers : Nat) : Owns (Pool.start servers workers) := by
  have hnone : ∀ {α : Type} {β : Type} (f : α → List β) (n : Nat) (x : α), f x = [] →
      (List.replicate n x).flatMap f = [] := by
    intro α β f n x hx
    rw [List.flatMap_eq_nil_iff]
    intro l hl
    rw [List.eq_of_mem_replicate hl, hx]
  refine ⟨?_, List.nodup_nil, fun c hc => absurd hc List.not_mem_nil, fun l hl => ?_, fun s l hl e he => ?_,
    fun w hw => ?_⟩
  · simp only [Pool.start]
    rw [hnone conns servers [] rfl, hnone Worker.hands workers .rest rfl]
    exact .refl _
  · rw [List.eq_of_mem_replicate hl]
    exact Nat.zero_le _
  · rw [List.eq_of_mem_replicate (List.mem_of_getElem? hl)] at he
    cases he
  · rw [List.eq_of_mem_replicate hw]
    trivial

theorem run_owns (host : Nat → Bytes) (servers workers : Nat) (events : List PoolEvent) :
    Owns (Machine.run (Pool.step host) (Pool.start servers workers) events).1 :=
  Machine.run_invariant (Pool.step host) (fun _ _ => Owns) (start_owns servers workers) (fun _ _ _ e h => step_owns h e)
    events

-- Whatever queries and drops run at once: an open connection is on one stack or with one
-- worker, and goes to the server that this is for; nothing else is open, so that none is used
-- or closed after it has been closed; and no stack grows over its size.
theorem pool_exclusive (host : Nat → Bytes) (servers workers : Nat) (events : List PoolEvent) :
    let p := (Machine.run (Pool.step host) (Pool.start servers workers) events).1
    (p.idle.flatMap conns ++ p.workers.flatMap Worker.hands).Nodup ∧
      (p.idle.flatMap conns ++ p.workers.flatMap Worker.hands).Perm p.opens ∧
      (∀ w ∈ p.workers, w.Right ∧ ∀ c ∈ w.hands, c ∈ p.opens) ∧
      (∀ (s : Nat) (idle : List IdleConn), p.idle[s]? = some idle →
        idle.length ≤ DOH_POOL ∧ ∀ e ∈ idle, e.conn.server = s) ∧
      ((∀ w ∈ p.workers, w = .rest) → p.opens.length ≤ p.idle.length * DOH_POOL) := by
  intro p
  have howns : Owns p := run_owns host servers workers events
  refine ⟨howns.owned.nodup_iff.mpr howns.single, howns.owned, fun w hw => ⟨howns.right w hw, fun c hc => ?_⟩,
    fun s idle hs => ⟨howns.few idle (List.mem_of_getElem? hs), howns.filed s idle hs⟩, fun hrest => ?_⟩
  · exact howns.owned.subset (List.mem_append_right _ (List.mem_flatMap.mpr ⟨w, hw, hc⟩))
  · have hnone : p.workers.flatMap Worker.hands = [] := by
      rw [List.flatMap_eq_nil_iff]
      intro w hw
      rw [hrest w hw]
      rfl
    rw [← howns.owned.length_eq, hnone, List.append_nil]
    refine Owned.length_le fun idle hidle => ?_
    rw [conns, List.length_map]
    exact howns.few idle hidle

section Pairs

-- What a server answers to a query.
variable (answers : Nat → Bytes → Bytes)

-- The server sends nothing, or one response with its answer, and that in time or not.
def Serves (a : Asked) (found : Found) : Prop :=
  found.sent = [] ∨ ∃ r : HttpResponse, r.body = answers a.server a.query ∧ found.sent = r.bytes

-- A result that is not a failure is the server's answer to the query that was asked.
def Own (a : Asked) (r : Answered) : Prop :=
  0 < r.value → r.reply = answers a.server a.query ∧ r.value = r.reply.length ∧ 12 ≤ r.reply.length

def PoolEvent.Served (p : Pool) : PoolEvent → Prop
  | .go i found => ∀ a c fresh, p.workers[i]? = some (.asking a c fresh) → Serves answers a found
  | _ => True

-- Nothing of an earlier query is left on a connection that goes to a query.
def Worker.Clean : Worker → Prop
  | .asking _ c _ => c.unread = []
  | .putting a c r => c.conn.unread = [] ∧ Own answers a r
  | .surplus a _ r => Own answers a r
  | _ => True

structure Clean (p : Pool) : Prop where
  idle : ∀ idle ∈ p.idle, ∀ e ∈ idle, e.conn.unread = []
  workers : ∀ w ∈ p.workers, w.Clean answers

variable {answers} {host : Nat → Bytes} {p : Pool} {i s : Nat} {w w' : Worker}

theorem Clean.put (h : Clean answers p) (hw : w'.Clean answers) : Clean answers (p.put i w') := by
  refine ⟨h.idle, fun v hv => ?_⟩
  rcases Owned.mem_set hv with rfl | hv
  · exact hw
  · exact h.workers v hv

theorem Clean.file (h : Clean answers p) {idle : List IdleConn} (hidle : ∀ e ∈ idle, e.conn.unread = []) :
    Clean answers { p with idle := p.idle.set s idle } := by
  refine ⟨fun l hl => ?_, h.workers⟩
  rcases Owned.mem_set hl with rfl | hl
  · exact hidle
  · exact h.idle l hl

theorem own_answered {a : Asked} {r : Answered} (h : Own answers a r) : Own answers a (answered r) := by
  intro hpos
  by_cases hr : r.value > 0
  · simp only [answered, if_pos hr] at hpos ⊢
    exact h hpos
  · simp only [answered, if_neg hr] at hpos
    exact absurd hpos (by decide)

-- On a connection with nothing unread the request gets its own response or fails.
theorem request_own {c : Conn} {a : Asked} {found : Found} (hclean : c.unread = []) (hserves : Serves answers a found)
    (hvalue : 0 ≤ (c.request (host a.server) a found).1.value) :
    (c.request (host a.server) a found).2.unread = [] ∧ Own answers a (c.request (host a.server) a found).1 := by
  obtain ⟨tail, htail⟩ := Chunks.cut_flatten found.sizes found.sent
  have hne := Chunks.cut_ne_nil found.sizes found.sent
  simp only [Conn.request, hclean, List.nil_append] at hvalue ⊢
  rcases hserves with hnone | ⟨r, hbody, hsent⟩
  · rw [hnone, Chunks.cut_nil] at hvalue
    have hempty : readHead [] [] = none := by
      rw [readHead]
      rfl
    simp only [dohExchange, hempty, ite_self] at hvalue
    exact absurd hvalue (by decide)
  · rcases r.dohExchange_prefix hne (hsent ▸ ⟨tail, htail⟩) found.tlscWrite (host a.server) a.query a.replySize with
      hfail | ⟨hall, hdone⟩
    · rw [hfail] at hvalue
      exact absurd hvalue (by decide)
    · rw [hdone, hall, ← hsent, List.drop_length]
      refine ⟨rfl, fun hpos => ?_⟩
      simp only [HttpResponse.result] at hpos ⊢
      split at hpos
      · exact absurd hpos (Int.lt_irrefl _)
      · rename_i hgood
        rw [not_or, not_lt] at hgood
        rw [if_neg (by rw [not_or, not_lt]; exact hgood)]
        exact ⟨hbody, rfl, by exact_mod_cast hgood.2⟩

theorem request_whole (c : Conn) (a : Asked) (r : HttpResponse) (found : Found) {host : Bytes} (hclean : c.unread = [])
    (hsent : found.sent = r.bytes) (hall : (Chunks.cut found.sizes r.bytes).flatten = r.bytes)
    (hwrite : ∀ bytes, found.tlscWrite bytes = true) (hhost : (requestHead host a.query.length).length ≤ DOH_HTTP_MAX)
    (hfits : r.body.length ≤ a.replySize) : c.request host a found = (r.result, c) := by
  simp only [Conn.request, hclean, hsent, List.nil_append,
    r.dohExchange_whole (Chunks.cut_ne_nil _ _) hall hwrite hhost hfits, hall, List.drop_length, List.flatten_nil]
  obtain ⟨id, server, unread⟩ := c
  rw [show unread = [] from hclean]

theorem go_clean (h : Clean answers p) (hw : w.Clean answers) (found : Found)
    (hserved : ∀ a c fresh, w = .asking a c fresh → Serves answers a found) :
    Clean answers (p.go host i found w).1 ∧ ∀ o ∈ (p.go host i found w).2, Own answers o.1 o.2 := by
  have hfails : ∀ a : Asked, Own answers a ⟨0, []⟩ := fun a hpos => absurd hpos (Int.lt_irrefl _)
  have hone : ∀ {o : Asked × Answered}, Own answers o.1 o.2 → ∀ o' ∈ some o, Own answers o'.1 o'.2 := by
    rintro o ho o' ho'
    obtain rfl := Option.mem_some.mp ho'
    exact ho
  have hnone : ∀ o ∈ (none : Option (Asked × Answered)), Own answers o.1 o.2 := fun o ho => absurd ho (by simp)
  cases w with
  | rest => exact ⟨h, hnone⟩
  | getting a now =>
      simp only [Pool.go]
      split
      · rename_i c idle hs
        have hidle := h.idle _ (List.mem_of_getElem? hs)
        have hfile := h.file (s := a.server) fun e he => hidle e (List.mem_cons_of_mem c he)
        split
        · exact ⟨hfile.put trivial, hnone⟩
        · exact ⟨hfile.put (hidle c List.mem_cons_self), hnone⟩
      · exact ⟨h.put trivial, hnone⟩
  | stale a now c => exact ⟨Clean.put ⟨h.idle, h.workers⟩ trivial, hnone⟩
  | opening a =>
      simp only [Pool.go]
      split
      · exact ⟨Clean.put ⟨h.idle, h.workers⟩ rfl, hnone⟩
      · exact ⟨h.put trivial, hone (hfails a)⟩
  | asking a c fresh =>
      simp only [Pool.go]
      split
      · rename_i hvalue
        exact ⟨h.put (request_own hw (hserved a c fresh rfl) hvalue), hnone⟩
      · exact ⟨h.put trivial, hnone⟩
  | putting a c r =>
      obtain ⟨hclean, hown⟩ := hw
      simp only [Pool.go]
      split
      · rename_i idle hs
        split
        · refine ⟨Clean.put (h.file ?_) trivial, hone (own_answered hown)⟩
          intro e he
          rcases List.mem_cons.mp he with rfl | he
          · exact hclean
          · exact h.idle _ (List.mem_of_getElem? hs) e he
        · exact ⟨h.put hown, hnone⟩
      · exact ⟨h, hnone⟩
  | surplus a c r => exact ⟨Clean.put ⟨h.idle, h.workers⟩ trivial, hone (own_answered hw)⟩
  | failed a c fresh =>
      simp only [Pool.go]
      split
      · exact ⟨Clean.put ⟨h.idle, h.workers⟩ trivial, hone (hfails a)⟩
      · exact ⟨Clean.put ⟨h.idle, h.workers⟩ trivial, hnone⟩
  | dropping drop =>
      cases drop with
      | nil => exact ⟨h.put trivial, hnone⟩
      | cons c drop => exact ⟨Clean.put ⟨h.idle, h.workers⟩ trivial, hnone⟩

theorem step_clean (h : Clean answers p) (e : PoolEvent) (hserved : e.Served answers p) :
    Clean answers (p.step host e).1 ∧ ∀ o ∈ (p.step host e).2, Own answers o.1 o.2 := by
  have hnone : ∀ o ∈ (none : Option (Asked × Answered)), Own answers o.1 o.2 := fun o ho => absurd ho (by simp)
  cases e with
  | query i s query replySize asked timeout now =>
      simp only [Pool.step]
      split
      · split
        · exact ⟨h.put trivial, hnone⟩
        · exact ⟨h, hnone⟩
      · exact ⟨h, hnone⟩
  | drop i =>
      simp only [Pool.step]
      split
      · refine ⟨Clean.put ⟨fun l hl e he => ?_, h.workers⟩ trivial, hnone⟩
        rw [List.eq_of_mem_replicate hl] at he
        cases he
      · exact ⟨h, hnone⟩
  | go i found =>
      simp only [Pool.step]
      split
      · rename_i w hw
        exact go_clean h (h.workers w (List.mem_of_getElem? hw)) found fun a c fresh hasking =>
          hserved a c fresh (hasking ▸ hw)
      · exact ⟨h, hnone⟩

end Pairs

theorem start_clean (answers : Nat → Bytes → Bytes) (servers workers : Nat) :
    Clean answers (Pool.start servers workers) := by
  refine ⟨fun l hl e he => ?_, fun w hw => ?_⟩
  · rw [List.eq_of_mem_replicate hl] at he
    cases he
  · rw [List.eq_of_mem_replicate hw]
    trivial

-- Whatever queries share the connections, what one of them is answered is the answer of its
-- own server to its own query.
theorem pool_pairs (host : Nat → Bytes) (answers : Nat → Bytes → Bytes) (servers workers : Nat)
    (events : List PoolEvent)
    (hserved : Machine.Along (Pool.step host) (fun p e => e.Served answers p) (Pool.start servers workers) events) :
    ∀ o ∈ (Machine.run (Pool.step host) (Pool.start servers workers) events).2, Own answers o.1 o.2 := by
  have hstart : Clean answers (Pool.start servers workers) ∧
      ∀ o ∈ ([] : List (Asked × Answered)), Own answers o.1 o.2 :=
    ⟨start_clean answers servers workers, fun o ho => absurd ho List.not_mem_nil⟩
  have hrun := Machine.run_along (Pool.step host) (fun p e => e.Served answers p)
    (fun os p => Clean answers p ∧ ∀ o ∈ os, Own answers o.1 o.2) ?_ hstart hserved
  · exact hrun.2
  · rintro os p e ⟨hclean, hown⟩ hcond
    obtain ⟨hnext, hout⟩ := @step_clean _ host _ hclean e hcond
    refine ⟨hnext, fun o ho => ?_⟩
    rcases List.mem_append.mp ho with ho | ho
    · exact hown o ho
    · exact hout o (Option.mem_toList.mp ho)

def silent : Found := ⟨0, true, fun _ => true, [], []⟩

def answering (last : UInt8) : Found := ⟨0, true, fun _ => true, (okResponse last).bytes, [20, 4096]⟩

theorem answering_now (last : UInt8) : (answering last).now = 0 := rfl

-- A server that answers a query by its last byte.
def lastByte (_ : Nat) (query : Bytes) : Bytes := okBody (byte query (query.length - 1))

-- Two threads ask one after the other on one connection.
def sharedEvents : List PoolEvent :=
  [.query 0 0 [1] 512 0 1000 0, .go 0 silent, .go 0 silent, .go 0 (answering 1), .go 0 silent,
    .query 1 0 [2] 512 5 1000 5, .go 1 silent, .go 1 (answering 2), .go 1 silent]

def sharedAsked (query : UInt8) (deadline : Int) : Asked := ⟨0, [query], 512, deadline⟩

-- The two answers are taken whole.
theorem answering_request : ∀ q ∈ [(1 : UInt8), 2], ∀ deadline : Int,
    (Conn.mk 0 0 []).request [] ⟨0, [q], 512, deadline⟩ (answering q) = (⟨12, okBody q⟩, ⟨0, 0, []⟩) := by
  intro q hq deadline
  have hhead : (requestHead [] 1).length ≤ DOH_HTTP_MAX := by decide +kernel
  have hall : (Chunks.cut [20, 4096] (okResponse q).bytes).flatten = (okResponse q).bytes := by
    revert q
    decide +kernel
  rw [← okResponse_result]
  exact request_whole _ _ (okResponse q) _ rfl rfl hall (fun _ => rfl) hhead
    (show (okBody q).length ≤ 512 by simp [okBody])

-- Both are answered, and one connection has been opened.
theorem shared_answered : (Machine.run (Pool.step fun _ => []) (Pool.start 1 2) sharedEvents).1.opened = 1 ∧
    (Machine.run (Pool.step fun _ => []) (Pool.start 1 2) sharedEvents).2 =
      [(sharedAsked 1 1000, ⟨12, okBody 1⟩), (sharedAsked 2 1005, ⟨12, okBody 2⟩)] := by
  have hfirst := answering_request 1 (by simp)
  have hsecond := answering_request 2 (by simp)
  simp [sharedEvents, sharedAsked, Machine.run, Pool.step, Pool.go, Pool.put, Pool.start, silent, hfirst, hsecond,
    answering_now, answered, DOH_POOL, DOH_IDLE_MAX_S]

theorem pool_pairs_shared : Own lastByte (sharedAsked 1 1000) ⟨12, okBody 1⟩ ∧
    Own lastByte (sharedAsked 2 1005) ⟨12, okBody 2⟩ := by
  have hsilent : ∀ a, Serves lastByte a silent := fun a => .inl rfl
  have hanswering : ∀ q deadline, Serves lastByte (sharedAsked q deadline) (answering q) :=
    fun q deadline => .inr ⟨okResponse q, rfl, rfl⟩
  have hfirst := answering_request 1 (by simp)
  have hown := pool_pairs (fun _ => []) lastByte 1 2 sharedEvents
    ⟨trivial, fun a _ _ _ => hsilent a, fun a _ _ _ => hsilent a, fun a c fresh h => ?_, fun a _ _ _ => hsilent a,
      trivial, fun a _ _ _ => hsilent a, fun a c fresh h => ?_, fun a _ _ _ => hsilent a, trivial⟩
  · rw [shared_answered.2] at hown
    exact ⟨hown _ List.mem_cons_self, hown _ (List.mem_cons_of_mem _ List.mem_cons_self)⟩
  · simp [Pool.step, Pool.go, Pool.put, Pool.start, silent] at h
    rw [← h.1]
    exact hanswering 1 1000
  · simp [Pool.step, Pool.go, Pool.put, Pool.start, silent, hfirst, answering_now, answered, DOH_POOL,
      DOH_IDLE_MAX_S] at h
    rw [← h.1]
    exact hanswering 2 1005

end DpiProxy.Dns.Doh
