import DpiProxy.Transparent.DecisionsFile
import DpiProxy.Transparent.Decisions.Lemmas

namespace DpiProxy.Transparent

open Wire

-- The calls that work on a store as a whole.
inductive StoreCall where
  | success (host : Bytes) (fp : UInt64) (family : Int32) (now : Int64) (step : TpStep)
  | failure (host : Bytes) (fp : UInt64) (family : Int32) (now : Int64)
  | directBadMark (host : Bytes) (fp : UInt64) (family : Int32) (now : Int64)
  | networkChanged

def StoreCall.apply (d : TpDecisions) : StoreCall → TpDecisions
  | .success host fp family now step => tpDecisionSuccess d host fp family now step
  | .failure host fp family now => tpDecisionFailure d host fp family now
  | .directBadMark host fp family now => tpDirectBadMark d host fp family now
  | .networkChanged => tpDecisionsNetworkChanged d

inductive Call where
  | parse (text : Bytes)
  | store (call : StoreCall)

def Call.apply (d : TpDecisions) : Call → TpDecisions
  | .parse text => (tpDecisionsParse d text).1
  | .store call => call.apply d

-- Reading a file is one update for each line and one that clears the dirty flag.
inductive Update where
  | read (line : Bytes)
  | loaded
  | store (call : StoreCall)

def Update.apply (d : TpDecisions) : Update → TpDecisions
  | .read line => (parseOne d line).1
  | .loaded => { d with dirty := false }
  | .store call => call.apply d

def Call.updates : Call → List Update
  | .parse text => (textLines text).map Update.read ++ [.loaded]
  | .store call => [.store call]

theorem parseLines_store (lines : List Bytes) (d : TpDecisions) (skipped : Nat) :
    (lines.foldl parseTurn (d, skipped)).1 = (lines.map Update.read).foldl Update.apply d := by
  induction lines generalizing d skipped with
  | nil => rfl
  | cons line lines ih =>
      rw [List.foldl_cons, List.map_cons, List.foldl_cons]
      exact ih _ _

theorem apply_eq_updates (d : TpDecisions) (c : Call) : c.apply d = c.updates.foldl Update.apply d := by
  cases c with
  | parse text =>
      rw [Call.updates, List.foldl_append, ← parseLines_store (textLines text) d 0]
      rfl
  | store call => rfl

theorem run_eq_updates (calls : List Call) (d : TpDecisions) :
    calls.foldl Call.apply d = (calls.flatMap Call.updates).foldl Update.apply d := by
  induction calls generalizing d with
  | nil => rfl
  | cons c calls ih => rw [List.foldl_cons, List.flatMap_cons, List.foldl_append, ih, apply_eq_updates]

-- A line that is neither blank nor a comment.
def holdsEntry (line : Bytes) : Prop := ¬((lineText line).headD 0 = 0 ∨ (lineText line).headD 0 = 35)

instance (line : Bytes) : Decidable (holdsEntry line) := inferInstanceAs (Decidable (¬_))

-- The key an update speaks about.
def StoreCall.key : StoreCall → Option DecisionKey
  | .success host fp family _ _ => some (keyOf host fp family)
  | .failure host fp family _ => some (keyOf host fp family)
  | .directBadMark _ _ _ _ => none
  | .networkChanged => none

def Update.key : Update → Option DecisionKey
  | .read line => if holdsEntry line then (lineEntry (lineText line)).map TpDecision.key else none
  | .loaded => none
  | .store call => call.key

-- The entry an update stores, if it stores one.
def StoreCall.Puts (e : TpDecision) : StoreCall → Prop
  | .success host fp family now step =>
      fp ≠ NETFP_UNKNOWN ∧ ¬(step.target = .original ∧ step.strategy = .pass) ∧
        e = ⟨host, fp, family, step, now⟩
  | _ => False

def Update.Puts (e : TpDecision) : Update → Prop
  | .read line => holdsEntry line ∧ lineEntry (lineText line) = some e
  | .loaded => False
  | .store call => call.Puts e

-- What an update can do to the entries.
inductive Effect (d d' : TpDecisions) (u : Update) : Prop where
  | none (entries : d'.entries = d.entries) (cap : d'.cap = d.cap)
  | remove (front : List TpDecision) (e : TpDecision) (back : List TpDecision)
      (before : d.entries = front ++ e :: back) (key : u.key = some e.key)
      (after : d'.entries.Perm (front ++ back)) (cap : d'.cap = d.cap)
  | put (e : TpDecision) (puts : u.Puts e) (put : Put d.entries d'.entries d.cap d'.cap e)

theorem lineEntry_fields {line : Bytes} {e : TpDecision} (h : lineEntry line = some e) :
    e.fingerprint ≠ NETFP_UNKNOWN ∧ ¬(e.step.target = .original ∧ e.step.strategy = .pass) ∧
      (e.step.strategy = .pass ∨ e.step.strategy = .tlsrec ∨ e.step.strategy = .tlsrecSplit) := by
  simp only [lineEntry, Option.bind_eq_bind, Option.bind_eq_some_iff, Option.guard_eq_some'] at h
  obtain ⟨fields, -, -, ⟨-, hfp⟩, strategy, -, -, hstream, target, -, -, hdirect, he⟩ := h
  rw [← Option.some.inj he]
  exact ⟨hfp, hdirect, hstream⟩

theorem puts_fields {u : Update} {e : TpDecision} (h : u.Puts e) :
    e.fingerprint ≠ NETFP_UNKNOWN ∧ ¬(e.step.target = .original ∧ e.step.strategy = .pass) := by
  cases u with
  | read line => exact ⟨(lineEntry_fields h.2).1, (lineEntry_fields h.2).2.1⟩
  | loaded => exact h.elim
  | store call =>
      cases call with
      | success host fp family now step =>
          obtain ⟨hfp, hdirect, rfl⟩ := h
          exact ⟨hfp, hdirect⟩
      | failure host fp family now => exact h.elim
      | directBadMark host fp family now => exact h.elim
      | networkChanged => exact h.elim

theorem puts_key {u : Update} {e : TpDecision} (h : u.Puts e) : u.key = some e.key := by
  cases u with
  | read line =>
      obtain ⟨hholds, he⟩ := h
      rw [Update.key, if_pos hholds, he, Option.map_some]
  | loaded => exact h.elim
  | store call =>
      cases call with
      | success host fp family now step =>
          obtain ⟨-, -, rfl⟩ := h
          rfl
      | failure host fp family now => exact h.elim
      | directBadMark host fp family now => exact h.elim
      | networkChanged => exact h.elim

section Effect

variable {d : TpDecisions} {host : Bytes} {fp : UInt64} {family : Int32}

theorem clearCooldown_entries (d : TpDecisions) (host : Bytes) :
    (clearCooldown d host).entries = d.entries ∧ (clearCooldown d host).cap = d.cap := by
  unfold clearCooldown
  split
  · exact ⟨rfl, rfl⟩
  · exact ⟨rfl, rfl⟩

theorem removeEntry_effect {d₀ : TpDecisions} {u : Update} {i : Nat} (hentries : d.entries = d₀.entries)
    (hcap : d.cap = d₀.cap) (hfind : find d host fp family = some i)
    (hkey : u.key = some (keyOf host fp family)) : Effect d₀ (removeEntry d i) u := by
  obtain ⟨hi, hmatch⟩ := find_some hfind
  obtain ⟨front, back, hbefore, hlen, -⟩ := Table.split_at hi
  refine .remove front (d.entry i) back (hentries ▸ hbefore) (by rw [hmatch, hkey]) ?_ hcap
  have hperm := Table.swapRemove_perm (List.getElem?_eq_some_iff.mp hi).1
  have herase : d.entries.eraseIdx i = front ++ back := by
    rw [hbefore, ← hlen, List.eraseIdx_append_of_length_le le_rfl, Nat.sub_self, List.eraseIdx_cons_zero]
  rwa [herase] at hperm

theorem success_effect (d : TpDecisions) (host : Bytes) (fp : UInt64) (family : Int32) (now : Int64)
    (step : TpStep) :
    Effect d (tpDecisionSuccess d host fp family now step) (.store (.success host fp family now step)) := by
  obtain ⟨hentries, hcap⟩ := clearCooldown_entries d host
  unfold tpDecisionSuccess
  dsimp only
  by_cases hskip : fp = NETFP_UNKNOWN ∨ host.length ≥ STRATEGY_DOMAIN_MAX
  · rw [if_pos hskip]
    exact .none hentries hcap
  rw [if_neg hskip]
  by_cases hdirect : step.target = .original ∧ step.strategy = .pass
  · rw [if_pos hdirect]
    split
    · exact .none hentries hcap
    · rename_i i hfind
      exact removeEntry_effect hentries hcap hfind rfl
  rw [if_neg hdirect]
  split
  · exact .none hentries hcap
  · refine .put ⟨host, fp, family, step, now⟩ ⟨fun h => hskip (.inl h), hdirect, rfl⟩ ?_
    have hput := putEntry_put (clearCooldown d host) host fp family step now
    rwa [hentries, hcap] at hput

theorem failure_effect (d : TpDecisions) (host : Bytes) (fp : UInt64) (family : Int32) (now : Int64) :
    Effect d (tpDecisionFailure d host fp family now) (.store (.failure host fp family now)) := by
  unfold tpDecisionFailure
  dsimp only
  split
  · rename_i hfind
    split at hfind <;> exact .none (by split <;> rfl) (by split <;> rfl)
  · rename_i i hfind
    refine removeEntry_effect ?_ ?_ hfind rfl <;> split <;> rfl

theorem update_effect (d : TpDecisions) (u : Update) : Effect d (u.apply d) u := by
  cases u with
  | read line =>
      show Effect d (parseOne d line).1 _
      unfold parseOne
      by_cases hholds : holdsEntry line
      · rw [if_neg hholds]
        unfold parseLine
        cases he : lineEntry (lineText line) with
        | none => exact .none rfl rfl
        | some e => exact .put e ⟨hholds, he⟩ (putEntry_put d _ _ _ _ _)
      · rw [if_pos (not_not.mp hholds)]
        exact .none rfl rfl
  | loaded => exact .none rfl rfl
  | store call =>
      cases call with
      | success host fp family now step => exact success_effect d host fp family now step
      | failure host fp family now => exact failure_effect d host fp family now
      | directBadMark host fp family now =>
          show Effect d (tpDirectBadMark d host fp family now) _
          unfold tpDirectBadMark
          split <;> exact .none rfl rfl
      | networkChanged => exact .none rfl rfl

end Effect

structure DecisionsInv (d : TpDecisions) : Prop where
  unique : (d.entries.map TpDecision.key).Nodup
  noDirect : ∀ e ∈ d.entries, ¬(e.step.target = .original ∧ e.step.strategy = .pass)
  known : ∀ e ∈ d.entries, e.fingerprint ≠ NETFP_UNKNOWN
  count : d.entries.length ≤ d.cap
  capacity : d.cap ≤ TP_DECISIONS_MAX

section Put

variable {before after : List TpDecision} {cap cap' : Nat} {e : TpDecision}

theorem Put.mem (h : Put before after cap cap' e) {x : TpDecision} (hx : x ∈ after) :
    x ∈ before ∨ (x.key = e.key ∧ x.step = e.step ∧ x.validatedAt = e.validatedAt) := by
  cases h with
  | update front old back hbefore hkey hafter =>
      rw [hafter] at hx
      rw [hbefore]
      rcases List.mem_append.mp hx with hx | hx
      · exact .inl (List.mem_append_left _ hx)
      rcases List.mem_cons.mp hx with rfl | hx
      · exact .inr ⟨hkey, rfl, rfl⟩
      · exact .inl (List.mem_append_right _ (List.mem_cons_of_mem _ hx))
  | append hnew hafter =>
      rw [hafter] at hx
      rcases List.mem_append.mp hx with hx | hx
      · exact .inl hx
      · rw [List.mem_singleton.mp hx]
        exact .inr ⟨rfl, rfl, rfl⟩
  | evict hnew hfull front victim back hbefore holdest hafter =>
      rw [hafter] at hx
      rw [hbefore]
      rcases List.mem_append.mp hx with hx | hx
      · exact .inl (List.mem_append_left _ hx)
      rcases List.mem_cons.mp hx with rfl | hx
      · exact .inr ⟨rfl, rfl, rfl⟩
      · exact .inl (List.mem_append_right _ (List.mem_cons_of_mem _ hx))

theorem Put.unique (h : Put before after cap cap' e) (hbefore : (before.map TpDecision.key).Nodup) :
    (after.map TpDecision.key).Nodup := by
  cases h with
  | update front old back hsplit hkey hafter =>
      rw [hsplit, List.map_append, List.map_cons] at hbefore
      rw [hafter, List.map_append, List.map_cons]
      exact hbefore
  | append hnew hafter =>
      rw [hafter, List.map_append, List.map_singleton, List.nodup_append]
      refine ⟨hbefore, List.nodup_singleton _, fun k hk k' hk' hsame => ?_⟩
      obtain ⟨x, hx, rfl⟩ := List.mem_map.mp hk
      exact hnew x hx (hsame.trans (List.mem_singleton.mp hk'))
  | evict hnew hfull front victim back hsplit holdest hafter =>
      have hperm : (after.map TpDecision.key).Perm (e.key :: (front ++ back).map TpDecision.key) := by
        rw [hafter]
        exact List.perm_middle.map TpDecision.key
      have hrest : (front ++ back).Sublist before := by
        rw [hsplit]
        exact (List.Sublist.refl front).append (List.sublist_cons_self victim back)
      rw [hperm.nodup_iff, List.nodup_cons]
      refine ⟨fun hmem => ?_, hbefore.sublist (hrest.map _)⟩
      obtain ⟨x, hx, hkey⟩ := List.mem_map.mp hmem
      exact hnew x (hrest.subset hx) hkey

theorem Put.count (h : Put before after cap cap' e) (hcount : before.length ≤ cap)
    (hcap : cap ≤ TP_DECISIONS_MAX) : after.length ≤ cap' ∧ cap' ≤ TP_DECISIONS_MAX := by
  cases h with
  | update front old back hbefore hkey hafter hsame =>
      have hlen : after.length = before.length := by
        rw [hafter, hbefore, List.length_append, List.length_append, List.length_cons, List.length_cons]
      omega
  | append hnew hafter hroom hgrow hmost hsize =>
      rw [hafter, List.length_append, List.length_singleton]
      omega
  | evict hnew hfull front victim back hbefore holdest hafter hsame =>
      have hlen : after.length = before.length := by
        rw [hafter, hbefore, List.length_append, List.length_append, List.length_cons, List.length_cons]
      omega

end Put

-- An entry that an update leaves behind was there, or it is the one that was stored.
theorem Effect.mem {d d' : TpDecisions} {u : Update} (h : Effect d d' u) {x : TpDecision}
    (hx : x ∈ d'.entries) :
    x ∈ d.entries ∨
      ∃ e, u.Puts e ∧ x.key = e.key ∧ x.step = e.step ∧ x.validatedAt = e.validatedAt := by
  cases h with
  | none hentries hcap => exact .inl (hentries ▸ hx)
  | remove front e back hbefore hkey hafter hcap =>
      rw [hbefore]
      exact .inl (List.mem_append.mpr ((List.mem_append.mp (hafter.subset hx)).imp_right
        (List.mem_cons_of_mem e)))
  | put e hputs hput => exact (hput.mem hx).imp_right fun h => ⟨e, hputs, h⟩

theorem init_inv : DecisionsInv tpDecisionsInit where
  unique := List.nodup_nil
  noDirect := fun _ he => absurd he List.not_mem_nil
  known := fun _ he => absurd he List.not_mem_nil
  count := le_rfl
  capacity := Nat.zero_le _

theorem key_fingerprint {x e : TpDecision} (h : x.key = e.key) : x.fingerprint = e.fingerprint :=
  congrArg (fun k : DecisionKey => k.2.1) h

theorem apply_inv {d : TpDecisions} (u : Update) (hinv : DecisionsInv d) : DecisionsInv (u.apply d) := by
  cases update_effect d u with
  | none hentries hcap =>
      exact ⟨hentries ▸ hinv.unique, hentries ▸ hinv.noDirect, hentries ▸ hinv.known,
        hentries ▸ hcap ▸ hinv.count, hcap ▸ hinv.capacity⟩
  | remove front e back hbefore hkey hafter hcap =>
      have hrest : (front ++ back).Sublist d.entries := by
        rw [hbefore]
        exact (List.Sublist.refl front).append (List.sublist_cons_self e back)
      have hsub : ∀ x ∈ (u.apply d).entries, x ∈ d.entries := fun x hx =>
        hrest.subset (hafter.subset hx)
      refine ⟨?_, fun x hx => hinv.noDirect x (hsub x hx), fun x hx => hinv.known x (hsub x hx), ?_, ?_⟩
      · rw [(hafter.map TpDecision.key).nodup_iff]
        exact hinv.unique.sublist (hrest.map _)
      · rw [hafter.length_eq, hcap]
        exact hrest.length_le.trans hinv.count
      · rw [hcap]
        exact hinv.capacity
  | put e hputs hput =>
      obtain ⟨hknown, hdirect⟩ := puts_fields hputs
      obtain ⟨hcount, hcapacity⟩ := hput.count hinv.count hinv.capacity
      refine ⟨hput.unique hinv.unique, fun x hx => ?_, fun x hx => ?_, hcount, hcapacity⟩
      · rcases hput.mem hx with hx | ⟨-, hstep, -⟩
        · exact hinv.noDirect x hx
        · rwa [hstep]
      · rcases hput.mem hx with hx | ⟨hkey, -, -⟩
        · exact hinv.known x hx
        · rwa [key_fingerprint hkey]

theorem updates_inv (us : List Update) : DecisionsInv (us.foldl Update.apply tpDecisionsInit) := by
  induction us using List.reverseRecOn with
  | nil => exact init_inv
  | append_singleton us u ih =>
      rw [List.foldl_append]
      exact apply_inv u ih

-- A key that the store did not have gets an entry.
def Inserts (k : DecisionKey) (before after : List TpDecision) : Prop :=
  (∀ e ∈ before, e.key ≠ k) ∧ ∃ e ∈ after, e.key = k

-- What an update may change: nothing if it has no key; else the entry of its key, and
-- one of the oldest entries gives its place to a new key in a full store.
structure OwnKey (u : Update) (before after : List TpDecision) : Prop where
  keyless : u.key = none → after = before
  own : ∀ k, u.key = some k → ¬(before.length = TP_DECISIONS_MAX ∧ Inserts k before after) →
    ∀ e, e.key ≠ k → (e ∈ after ↔ e ∈ before)
  full : ∀ k, u.key = some k → before.length = TP_DECISIONS_MAX → Inserts k before after →
    ∃ front victim back new, before = front ++ victim :: back ∧ after = front ++ new :: back ∧
      new.key = k ∧ ∀ e ∈ before, victim.validatedAt ≤ e.validatedAt

theorem mem_middle_iff {x y e : TpDecision} {front back : List TpDecision} (hx : e ≠ x) (hy : e ≠ y) :
    e ∈ front ++ x :: back ↔ e ∈ front ++ y :: back := by
  rw [List.mem_append, List.mem_append, List.mem_cons, List.mem_cons, or_iff_right hx, or_iff_right hy]

theorem put_ownKey {d d' : TpDecisions} {u : Update} {e : TpDecision} (hinv : DecisionsInv d)
    (hputs : u.Puts e) (hput : Put d.entries d'.entries d.cap d'.cap e) :
    OwnKey u d.entries d'.entries := by
  have hkey := puts_key hputs
  refine ⟨fun hnone => ?_, fun k hk hroom x hx => ?_, fun k hk hmax hins => ?_⟩
  · rw [hkey] at hnone
    exact absurd hnone (Option.some_ne_none _)
  · obtain rfl := Option.some.inj (hkey.symm.trans hk)
    cases hput with
    | update front old back hbefore hold hafter =>
        rw [hbefore, hafter]
        exact mem_middle_iff (fun h => hx (h ▸ hold)) (fun h => hx (h ▸ hold))
    | append hnew hafter =>
        have hne : x ≠ e := fun h => hx (congrArg TpDecision.key h)
        rw [hafter, List.mem_append, List.mem_singleton, or_iff_left hne]
    | evict hnew hfull front victim back hbefore holdest hafter =>
        have hsize : d.entries.length = TP_DECISIONS_MAX := by
          have hcount := hinv.count
          have hcapacity := hinv.capacity
          omega
        refine absurd ⟨hsize, hnew, e, ?_, rfl⟩ hroom
        rw [hafter]
        exact List.mem_append_right _ List.mem_cons_self
  · obtain rfl := Option.some.inj (hkey.symm.trans hk)
    cases hput with
    | update front old back hbefore hold hafter =>
        refine absurd hold (hins.1 old ?_)
        rw [hbefore]
        exact List.mem_append_right _ List.mem_cons_self
    | append hnew hafter hspace =>
        have hcount := hinv.count
        have hcapacity := hinv.capacity
        omega
    | evict hnew hfull front victim back hbefore holdest hafter =>
        exact ⟨front, victim, back, e, hbefore, hafter, rfl, holdest⟩

theorem update_ownKey {d : TpDecisions} (hinv : DecisionsInv d) (u : Update) :
    OwnKey u d.entries (u.apply d).entries := by
  cases update_effect d u with
  | none hentries hcap =>
      refine ⟨fun _ => hentries, fun k _ _ e _ => by rw [hentries], fun k _ _ hins => ?_⟩
      obtain ⟨hno, e, he, hek⟩ := hins
      exact absurd hek (hno e (hentries ▸ he))
  | remove front e back hbefore hkey hafter hcap =>
      refine ⟨fun hnone => ?_, fun k hk _ x hx => ?_, fun k hk _ hins => ?_⟩
      · rw [hkey] at hnone
        exact absurd hnone (Option.some_ne_none _)
      · obtain rfl := Option.some.inj (hkey.symm.trans hk)
        have hne : x ≠ e := fun h => hx (congrArg TpDecision.key h)
        rw [hafter.mem_iff, hbefore, List.mem_append, List.mem_append, List.mem_cons, or_iff_right hne]
      · obtain rfl := Option.some.inj (hkey.symm.trans hk)
        refine absurd rfl (hins.1 e ?_)
        rw [hbefore]
        exact List.mem_append_right _ List.mem_cons_self
  | put e hputs hput => exact put_ownKey hinv hputs hput

-- Every sequence of calls keeps the store well formed. The calls are the updates they
-- consist of, and after any updates one more update, a call or a parsed line, changes no
-- more than the entry of its key.
theorem decisions_invariant (calls : List Call) (us : List Update) (u : Update) :
    DecisionsInv (calls.foldl Call.apply tpDecisionsInit) ∧
      calls.foldl Call.apply tpDecisionsInit =
        (calls.flatMap Call.updates).foldl Update.apply tpDecisionsInit ∧
      DecisionsInv (us.foldl Update.apply tpDecisionsInit) ∧
      OwnKey u (us.foldl Update.apply tpDecisionsInit).entries
        (u.apply (us.foldl Update.apply tpDecisionsInit)).entries := by
  refine ⟨?_, run_eq_updates calls tpDecisionsInit, updates_inv us, update_ownKey (updates_inv us) u⟩
  rw [run_eq_updates]
  exact updates_inv _

end DpiProxy.Transparent
