import DpiProxy.Relay
import DpiProxy.Tls.Record.Theorems

namespace DpiProxy.Relay

open Wire Wire.Record Tls

-- relay_send_all reports success only when it has written the whole buffer.
theorem relaySendAll_ok (script : List SendResult) (buffer : Bytes)
    (h : (relaySendAll script buffer).status = .ok) :
    (relaySendAll script buffer).writes.flatten = buffer := by
  fun_induction relaySendAll script buffer with
  | case1 => rfl
  | case2 => cases h
  | case3 script b bs ih => exact ih h
  | case4 => cases h
  | case5 => cases h
  | case6 count script b bs sent hsent rest ih =>
      rw [List.flatten_cons, ih h, List.take_append_drop]

theorem sendSplit_ok (script : List SendResult) (first second : Bytes)
    (h : (sendSplit script first second).status = .ok) :
    (sendSplit script first second).writes.flatten = first ++ second := by
  unfold sendSplit at h ⊢
  by_cases hfirst : (relaySendAll script first).status = .ok
  · simp only [hfirst, if_true] at h ⊢
    rw [List.flatten_append, relaySendAll_ok _ _ hfirst, relaySendAll_ok _ _ h]
  · simp only [hfirst, if_false] at h

-- Every mode is one write, or two writes that make up the buffer or its re-framed form.
theorem relaySendFirst_cases (buf : Bytes) (mode : SplitMode) :
    (∀ script, relaySendFirst script buf mode = relaySendAll script buf) ∨
    ∃ first second, (∀ script, relaySendFirst script buf mode = sendSplit script first second) ∧
      (first ++ second = buf ∨ (mode ≠ .none ∧ mode ≠ .tcp ∧ ∃ cut,
        tlsFragmentFirstRecord buf cut (BUFFER_SIZE + 5) = some (first ++ second))) := by
  cases mode with
  | none => exact .inl fun _ => rfl
  | tcp =>
      simp only [relaySendFirst, sendFirstTls]
      split
      · exact .inl fun _ => rfl
      · split
        · exact .inl fun _ => rfl
        · exact .inr ⟨_, _, fun _ => rfl, .inl (List.take_append_drop _ _)⟩
  | tlsRecord =>
      simp only [relaySendFirst, sendFirstTlsRecord]
      split
      · exact .inl fun _ => rfl
      · rename_i out hout
        refine .inr ⟨_, _, fun _ => rfl, .inr ⟨nofun, nofun, tlsRecordSplitPoint buf, ?_⟩⟩
        rw [List.take_append_drop]
        exact hout
  | tlsRecordTcp =>
      simp only [relaySendFirst, sendFirstTlsRecordTcp]
      split
      · exact .inl fun _ => rfl
      · rename_i out hout
        split
        · exact .inl fun _ => rfl
        · refine .inr ⟨_, _, fun _ => rfl, .inr ⟨nofun, nofun, tlsRecordSplitPoint buf, ?_⟩⟩
          rw [List.take_append_drop]
          exact hout

-- Two writes have at most one record header more than the buffer.
theorem relaySendFirst_writes (buf : Bytes) (mode : SplitMode) :
    (∀ script, relaySendFirst script buf mode = relaySendAll script buf) ∨
    ∃ first second, (∀ script, relaySendFirst script buf mode = sendSplit script first second) ∧
      (first ++ second).length ≤ buf.length + 5 := by
  obtain hall | ⟨first, second, hsplit, hsame | ⟨-, -, cut, hout⟩⟩ := relaySendFirst_cases buf mode
  · exact .inl hall
  · exact .inr ⟨first, second, hsplit, by rw [hsame]; omega⟩
  · exact .inr ⟨first, second, hsplit, (tlsFragmentFirstRecord_length hout).le⟩

-- What a successful call wrote: the buffer, or its re-framed first record.
theorem relaySendFirst_ok (script : List SendResult) (buf : Bytes) (mode : SplitMode)
    (h : (relaySendFirst script buf mode).status = .ok) :
    (relaySendFirst script buf mode).writes.flatten = buf ∨
    (mode ≠ .none ∧ mode ≠ .tcp ∧ ∃ cut out,
      tlsFragmentFirstRecord buf cut (BUFFER_SIZE + 5) = some out ∧
      (relaySendFirst script buf mode).writes.flatten = out) := by
  obtain hall | ⟨first, second, hsplit, hout⟩ := relaySendFirst_cases buf mode
  · rw [hall] at h ⊢
    exact .inl (relaySendAll_ok _ _ h)
  · rw [hsplit] at h ⊢
    have hwritten := sendSplit_ok _ _ _ h
    obtain hsame | ⟨hnone, htcp, cut, hout⟩ := hout
    · exact .inl (hwritten.trans hsame)
    · exact .inr ⟨hnone, htcp, cut, _, hout, hwritten⟩

-- Re-framing the first record is invisible at the record layer.
theorem relaySendFirst_same {script : List SendResult} {buf : Bytes} {mode : SplitMode}
    (h : (relaySendFirst script buf mode).status = .ok) (rest : Bytes) :
    deframe ((relaySendFirst script buf mode).writes.flatten ++ rest) = deframe (buf ++ rest) := by
  obtain hsame | ⟨-, -, cut, out, hout, hwritten⟩ := relaySendFirst_ok script buf mode h
  · rw [hsame]
  · rw [hwritten, tlsFragmentFirstRecord_deframe hout]

-- The first write reaches the peer as the same content at the record layer,
-- whatever is relayed after it.
theorem relaySendFirst_deframe (script : List SendResult) (buf : Bytes) (mode : SplitMode)
    (h : (relaySendFirst script buf mode).status = .ok) :
    let written := (relaySendFirst script buf mode).writes.flatten
    (∀ rest, deframe (written ++ rest) = deframe (buf ++ rest)) ∧
    (mode = .none ∨ mode = .tcp ∨ ¬[0x16, 0x03] <+: buf → written = buf) ∧
    (mode = .tlsRecord ∨ mode = .tlsRecordTcp →
      written.length = buf.length ∨ written.length = buf.length + 5) := by
  intro written
  refine ⟨relaySendFirst_same h, ?_⟩
  obtain hsame | ⟨hnone, htcp, cut, out, hout, hwritten⟩ := relaySendFirst_ok script buf mode h
  · have heq : written = buf := hsame
    exact ⟨fun _ => heq, fun _ => .inl (by rw [heq])⟩
  · have heq : written = out := hwritten
    refine ⟨?_, fun _ => .inr ?_⟩
    · intro hmode
      obtain hmode | hmode | hprefix := hmode
      · exact absurd hmode hnone
      · exact absurd hmode htcp
      · exact absurd (tlsFragmentFirstRecord_starts hout) hprefix
    · rw [heq, tlsFragmentFirstRecord_length hout]

theorem relaySendFirst_deframe_sample :
    (relaySendFirst [.interrupted, .sent 2, .sent 9, .sent 9] [0x16, 3, 1, 0, 4, 1, 2, 3]
      .tlsRecord).status = .ok ∧
    deframe ([0x16, 3, 1, 0, 1, 1, 0x16, 3, 1, 0, 3, 2, 3] ++ [4]) =
      deframe ([0x16, 3, 1, 0, 4, 1, 2, 3] ++ [4]) :=
  ⟨by decide +kernel,
    (relaySendFirst_deframe [.interrupted, .sent 2, .sent 9, .sent 9] [0x16, 3, 1, 0, 4, 1, 2, 3]
      .tlsRecord (by decide +kernel)).1 [4]⟩

-- How many calls of send in the script make progress.
def progress : List SendResult → Nat
  | [] => 0
  | .sent (_ + 1) :: script => progress script + 1
  | _ :: script => progress script

theorem progress_sent {count : Nat} {script : List SendResult} (h : count ≠ 0) :
    progress (.sent count :: script) = progress script + 1 := by
  match count, h with
  | count + 1, _ => rfl

def NoFailure (script : List SendResult) : Prop := ∀ r ∈ script, r ≠ .failed ∧ r ≠ .sent 0

-- A send that succeeds uses up no more calls than it has bytes.
theorem relaySendAll_left (script : List SendResult) (buffer : Bytes)
    (h : (relaySendAll script buffer).status = .ok) :
    progress script ≤ progress (relaySendAll script buffer).left + buffer.length := by
  fun_induction relaySendAll script buffer with
  | case1 script => exact Nat.le_add_right _ _
  | case2 => cases h
  | case3 script b bs ih => exact ih h
  | case4 => cases h
  | case5 => cases h
  | case6 count script b bs sent hsent rest ih =>
      have hle : sent ≤ (b :: bs).length := Nat.min_le_right _ _
      have hcount : count ≠ 0 := by
        simp only [sent, List.length_cons] at hsent
        omega
      have hrest := ih h
      rw [List.length_drop] at hrest
      rw [progress_sent hcount]
      simp only [rest]
      omega

theorem relaySendAll_returns (script : List SendResult) (buffer : Bytes)
    (hn : buffer.length ≤ progress script) : (relaySendAll script buffer).status ≠ .blocked := by
  fun_induction relaySendAll script buffer with
  | case1 => exact nofun
  | case2 b bs => simp [progress] at hn
  | case3 script b bs ih => exact ih hn
  | case4 => exact nofun
  | case5 => exact nofun
  | case6 count script b bs sent hsent rest ih =>
      have hcount : count ≠ 0 := by
        simp only [sent, List.length_cons] at hsent
        omega
      rw [progress_sent hcount] at hn
      rw [List.length_drop] at ih
      exact ih (by omega)

theorem relaySendAll_noFailure (script : List SendResult) (buffer : Bytes) (hno : NoFailure script) :
    (relaySendAll script buffer).status ≠ .error ∧ NoFailure (relaySendAll script buffer).left := by
  have htail : ∀ {r script}, NoFailure (r :: script) → NoFailure script :=
    fun h r hr => h r (List.mem_cons_of_mem _ hr)
  fun_induction relaySendAll script buffer with
  | case1 script => exact ⟨nofun, hno⟩
  | case2 b bs => exact ⟨nofun, hno⟩
  | case3 script b bs ih => exact ih (htail hno)
  | case4 script b bs => exact absurd rfl (hno .failed List.mem_cons_self).1
  | case5 count script b bs sent hsent =>
      have hcount : count = 0 := by
        simp only [sent, List.length_cons] at hsent
        omega
      exact absurd (by rw [hcount]) (hno (.sent count) List.mem_cons_self).2
  | case6 count script b bs sent hsent rest ih => exact ih (htail hno)

-- Without a failure the loop ends: each call of send that makes progress takes a byte.
theorem relaySendAll_progress (script : List SendResult) (buffer : Bytes)
    (hno : NoFailure script) (hn : buffer.length ≤ progress script) :
    (relaySendAll script buffer).status = .ok ∧ NoFailure (relaySendAll script buffer).left ∧
      progress script ≤ progress (relaySendAll script buffer).left + buffer.length := by
  obtain ⟨herror, hleft⟩ := relaySendAll_noFailure script buffer hno
  have hblocked := relaySendAll_returns script buffer hn
  have hok : (relaySendAll script buffer).status = .ok := by
    cases hstatus : (relaySendAll script buffer).status with
    | ok => rfl
    | error => exact absurd hstatus herror
    | blocked => exact absurd hstatus hblocked
  exact ⟨hok, hleft, relaySendAll_left script buffer hok⟩

theorem sendSplit_progress (script : List SendResult) (first second : Bytes)
    (hno : NoFailure script) (hn : (first ++ second).length ≤ progress script) :
    (sendSplit script first second).status = .ok := by
  rw [List.length_append] at hn
  obtain ⟨hok, hleft, hle⟩ := relaySendAll_progress script first hno (by omega)
  unfold sendSplit
  simp only [hok, if_true]
  exact (relaySendAll_progress _ second hleft (by omega)).1

-- Every mode succeeds on a socket that does not fail.
theorem relaySendFirst_progress (script : List SendResult) (buf : Bytes) (mode : SplitMode)
    (hno : NoFailure script) (hn : buf.length + 5 ≤ progress script) :
    (relaySendFirst script buf mode).status = .ok := by
  obtain hall | ⟨first, second, hsplit, hlen⟩ := relaySendFirst_writes buf mode
  · rw [hall]
    exact (relaySendAll_progress script buf hno (by omega)).1
  · rw [hsplit]
    exact sendSplit_progress _ _ _ hno (hlen.trans hn)

end DpiProxy.Relay
