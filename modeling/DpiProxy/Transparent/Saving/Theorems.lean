import DpiProxy.Transparent.Daemon.Store
import DpiProxy.Transparent.Saving.Reload

namespace DpiProxy.Transparent.Saving

open Wire CText

-- What the callers of tp_decision_success pass: a host without white space, an address
-- family and a stream step.
def Promised : StoreCall → Prop
  | .success host _ family _ step => host.length < STRATEGY_DOMAIN_MAX →
      host ≠ [] ∧ Plain host ∧ (family = 4 ∨ family = 6) ∧ IsStream step.strategy
  | _ => True

-- The store is clean because nothing has been read yet.
def Unread (s : State) : Prop :=
  s.called = false ∧ s.dec.dirty = false ∧ fileEntries s.file ≠ []

-- What a load reads is the whole file, and the store is empty, or has only what the file
-- begins with, as a second load finds it.
def LoadKeeps (s : State) : Option Bytes → Prop
  | none => ¬Unread s
  | some text => s.file = some text ∧ (s.dec.entries = [] ∨
      (s.dec.entries.map name <+: (fileEntries s.file).map name ∧
        (fileEntries s.file).length < TP_DECISIONS_MAX))

-- A step that keeps the file and the store together. A save does not find a host that
-- looks like a comment, and a write fails only where the store is already marked again
-- or the file says the same.
def Keeps (s : State) : Event → Prop
  | .store call => Promised call
  | .load got => s.writing = none → LoadKeeps s (readFile s.file got)
  | .save allocated => s.writing = none → ¬Unread s ∧
      (allocated = true → s.dec.dirty = true → ∀ e ∈ s.dec.entries, e.host.head? ≠ some 35)
  | .write ok => s.writing ≠ none →
      ok = true ∨ s.dec.dirty = true ∨ fileEntries s.file = s.dec.entries

instance (b : Bytes) : Decidable (Plain b) :=
  List.decidableBAll (fun c => isspace c = false ∧ c ≠ 0) b

instance (s : Strategy) : Decidable (IsStream s) := inferInstanceAs (Decidable (_ ∨ _ ∨ _))

instance : (call : StoreCall) → Decidable (Promised call)
  | .success _ _ _ _ _ => inferInstanceAs (Decidable (_ → _ ∧ _ ∧ _ ∧ _))
  | .failure _ _ _ _ => inferInstanceAs (Decidable True)
  | .directBadMark _ _ _ _ => inferInstanceAs (Decidable True)
  | .networkChanged => inferInstanceAs (Decidable True)

instance (s : State) : Decidable (Unread s) := inferInstanceAs (Decidable (_ ∧ _ ∧ _))

instance (s : State) : (text : Option Bytes) → Decidable (LoadKeeps s text)
  | none => inferInstanceAs (Decidable (¬_))
  | some _ => inferInstanceAs (Decidable (_ ∧ (_ ∨ (_ ∧ _))))

instance (s : State) : (e : Event) → Decidable (Keeps s e)
  | .store call => inferInstanceAs (Decidable (Promised call))
  | .load got => inferInstanceAs (Decidable (_ → LoadKeeps s (readFile s.file got)))
  | .save _ => inferInstanceAs (Decidable (_ → _ ∧ (_ → _ → ∀ e ∈ s.dec.entries, _)))
  | .write _ => inferInstanceAs (Decidable (_ → _ ∨ _ ∨ _))

structure SaveInv (s : State) : Prop where
  dec : DecisionsInv s.dec
  scanned : ∀ e ∈ s.dec.entries, Scanned e
  untouched : s.called = false → s.dec.dirty = false → s.dec.entries = []
  synced : Synced s
  -- what is being written is what a clean store holds
  writing : ∀ text, s.writing = some text → s.dec.dirty = false →
    fileEntries (some text) = s.dec.entries

theorem saveInv_init (file : Option Bytes) : SaveInv (init file) where
  dec := init_inv
  scanned := fun _ he => absurd he List.not_mem_nil
  untouched := fun _ _ => rfl
  synced := fun hcalled => absurd hcalled (by simp [init])
  writing := fun _ hwriting => absurd hwriting (by simp [init])

section Steps

variable {s : State}

theorem SaveInv.store (h : SaveInv s) {call : StoreCall} (hkeeps : Promised call) :
    SaveInv { s with dec := call.apply s.dec } := by
  have hscanned : ∀ e ∈ (call.apply s.dec).entries, Scanned e := by
    cases call with
    | success host fp family now step =>
        by_cases hlen : host.length < STRATEGY_DOMAIN_MAX
        · obtain ⟨hne, hplain, hfamily, hstream⟩ := hkeeps hlen
          refine apply_scanned (u := .store (.success host fp family now step)) ?_ h.scanned
          rintro e ⟨hknown, hdirect, rfl⟩
          exact ⟨hne, hlen, hplain, hfamily, hknown, hstream, hdirect⟩
        · have hsame : tpDecisionSuccess s.dec host fp family now step = clearCooldown s.dec host :=
            if_pos (.inr (Nat.le_of_not_lt hlen))
          intro e he
          rw [StoreCall.apply, hsame, (clearCooldown_entries s.dec host).1] at he
          exact h.scanned e he
    | failure host fp family now =>
        exact apply_scanned (u := .store (.failure host fp family now)) (fun _ hputs => hputs.elim)
          h.scanned
    | directBadMark host fp family now =>
        exact apply_scanned (u := .store (.directBadMark host fp family now))
          (fun _ hputs => hputs.elim) h.scanned
    | networkChanged =>
        exact apply_scanned (u := .store .networkChanged) (fun _ hputs => hputs.elim) h.scanned
  have hdec : DecisionsInv (call.apply s.dec) := apply_inv (.store call) h.dec
  obtain hdirty | ⟨hentries, hsame⟩ := store_dirty s.dec call
  · -- A marked store promises nothing.
    have hmarked : ∀ {p : Prop}, (call.apply s.dec).dirty = false → p := by
      intro p hclean
      rw [hdirty] at hclean
      cases hclean
    exact ⟨hdec, hscanned, fun _ => hmarked, fun _ _ => hmarked, fun _ _ => hmarked⟩
  · refine ⟨hdec, hscanned, fun hcalled hclean => ?_, fun hcalled hnone hclean => ?_,
      fun text htext hclean => ?_⟩
    · exact hentries.trans (h.untouched hcalled (hsame.symm.trans hclean))
    · exact (h.synced hcalled hnone (hsame.symm.trans hclean)).trans hentries.symm
    · exact (h.writing text htext (hsame.symm.trans hclean)).trans hentries.symm

-- A load or a save that changes nothing.
theorem SaveInv.idle (h : SaveInv s) (hread : ¬Unread s) : SaveInv { s with called := true } := by
  refine ⟨h.dec, h.scanned, fun hcalled => (by cases hcalled), fun _ hnone hclean => ?_, h.writing⟩
  cases hcalled : s.called with
  | true => exact h.synced hcalled hnone hclean
  | false =>
      have hempty : fileEntries s.file = [] := by
        by_contra hne
        exact hread ⟨hcalled, hclean, hne⟩
      exact hempty.trans (h.untouched hcalled hclean).symm

theorem SaveInv.loaded (h : SaveInv s) (hnone : s.writing = none) {text : Bytes}
    (hkeeps : LoadKeeps s (some text)) :
    SaveInv { s with dec := (tpDecisionsParse s.dec text).1, called := true } := by
  refine ⟨parse_inv text h.dec, parse_scanned text h.scanned, fun hcalled => (by cases hcalled),
    fun _ _ _ => ?_, fun text' htext => ?_⟩
  · show fileEntries s.file = _
    obtain ⟨hfile, hempty | ⟨hnames, hroom⟩⟩ := hkeeps
    · rw [hfile]
      exact parse_congr init_inv h.dec hempty.symm text
    · rw [hfile] at hnames hroom ⊢
      exact (reload_entries h.dec text hnames hroom).symm
  · rw [hnone] at htext
    cases htext

-- What is serialized reads back as the store.
theorem SaveInv.saved (h : SaveInv s) (hmarks : ∀ e ∈ s.dec.entries, e.host.head? ≠ some 35)
    {text : Bytes} (htext : tpDecisionsSerialize s.dec (saveSize s.dec) = some text) :
    SaveInv { s with dec := { s.dec with dirty := false }, writing := some text, called := true } := by
  have hwritable : ∀ e ∈ s.dec.entries, Writable e := fun e he => ⟨h.scanned e he, hmarks e he⟩
  have hread : fileEntries (some text) = s.dec.entries := by
    rw [serialize_ok hwritable] at htext
    obtain rfl := Option.some.inj htext
    exact (parse_entries h.dec hwritable).1
  refine ⟨apply_inv .loaded h.dec, h.scanned, fun hcalled => (by cases hcalled),
    fun _ hnone => (by cases hnone), fun text' hwriting _ => ?_⟩
  obtain rfl := Option.some.inj hwriting
  exact hread

theorem SaveInv.step (h : SaveInv s) (e : Event) (hkeeps : Keeps s e) : SaveInv (step s e).1 := by
  cases e with
  | store call => exact h.store hkeeps
  | load got =>
      simp only [Saving.step]
      split
      · rename_i hnone
        have hkeeps := hkeeps hnone
        unfold loadDecisions
        cases hread : readFile s.file got with
        | none =>
            rw [hread] at hkeeps
            exact h.idle hkeeps
        | some text =>
            rw [hread] at hkeeps
            exact h.loaded hnone hkeeps
      · exact h
  | save allocated =>
      simp only [Saving.step]
      split
      · rename_i hnone
        obtain ⟨hread, hmarks⟩ := hkeeps hnone
        unfold saveDecisions
        split
        · rename_i hdirty
          cases htext : if allocated then tpDecisionsSerialize s.dec (saveSize s.dec) else none with
          | none => exact h.idle hread
          | some text =>
              cases allocated with
              | true => exact h.saved (hmarks rfl hdirty) htext
              | false => cases htext
        · exact h.idle hread
      · exact h
  | write ok =>
      cases hwriting : s.writing with
      | none =>
          simp only [Saving.step, hwriting]
          exact h
      | some text =>
          simp only [Saving.step, hwriting]
          cases ok with
          | true =>
              refine ⟨h.dec, h.scanned, h.untouched, fun _ _ hclean => ?_, fun _ hnone => (by cases hnone)⟩
              exact h.writing text hwriting hclean
          | false =>
              refine ⟨h.dec, h.scanned, h.untouched, fun _ _ hclean => ?_, fun _ hnone => (by cases hnone)⟩
              obtain hok | hdirty | hsame := hkeeps (by rw [hwriting]; simp)
              · cases hok
              · exact absurd (hdirty.symm.trans hclean) (by simp)
              · exact hsame

end Steps

-- While the steps keep the two together, a clean store is what the file holds.
theorem clean_store_is_saved (file : Option Bytes) (events : List Event)
    (h : Machine.Along step Keeps (init file) events) :
    Synced (Machine.run step (init file) events).1 :=
  (Machine.run_along_state step Keeps SaveInv (fun _ e hinv hkeeps => hinv.step e hkeeps)
    (saveInv_init file) h).synced

-- The save of the daemon's model is this one with a buffer.
theorem saveDecisions_daemon {s : State} {t : Daemon} (h : s.dec = t.dec) :
    (saveDecisions s true).dec = (Transparent.saveDecisions t).dec := by
  unfold saveDecisions Transparent.saveDecisions
  rw [h]
  cases hdirty : t.dec.dirty with
  | false => simp
  | true => cases htext : tpDecisionsSerialize t.dec (saveSize t.dec) <;> simp

def oldEntry : TpDecision := ⟨ascii ['a', '.', 'b'], 7, 4, ⟨.trusted, .tlsrec⟩, 50⟩

def oldFile : Bytes := fileHeader ++ entryLine oldEntry

def learn : Event := .store (.success (ascii ['c', '.', 'd']) 7 4 100 ⟨.original, .tlsrec⟩)

theorem clean_store_is_saved_again :
    let events := [.load (some 4096), .load (some 4096), learn, .save true,
      .store (.failure (ascii ['a', '.', 'b']) 7 4 101), .write false, .save true, .write true,
      .save true]
    ((Machine.run step (init (some oldFile)) events).1.dec.dirty = false ∧
      (Machine.run step (init (some oldFile)) events).1.dec.entries.length = 1) ∧
    Synced (Machine.run step (init (some oldFile)) events).1 := by
  refine ⟨by decide +kernel, clean_store_is_saved (some oldFile) _ ?_⟩
  decide +kernel

-- The write of the first decision fails, and the next save finds the store clean.
def failedWrite : List Event := [.load none, learn, .save true, .write false, .save true]

-- The file cannot be read, or not all of it; or the store is not empty when it is.
def unreadFile : List Event := [.load none]
def shortRead : List Event := [.load (some 10)]
def lateLoad : List Event := [learn, .load (some 4096)]

-- A host read from behind a vertical tab is written as a comment.
def commentFile : Bytes := 11 :: 35 :: entryLine oldEntry

def commentedOut : List Event := [.load (some 4096), learn, .save true, .write true]

theorem clean_store_not_saved :
    ¬Synced (Machine.run step (init none) failedWrite).1 ∧
      (∀ events ∈ [unreadFile, shortRead, lateLoad],
        ¬Synced (Machine.run step (init (some oldFile)) events).1) ∧
      ¬Synced (Machine.run step (init (some commentFile)) commentedOut).1 := by
  decide +kernel

end DpiProxy.Transparent.Saving
