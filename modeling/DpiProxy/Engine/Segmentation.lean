import DpiProxy.Engine
import DpiProxy.Machine
import DpiProxy.Tls.Sni.Theorems
import DpiProxy.Wire.Chunks

namespace DpiProxy.Engine

open Wire Packet DpiProxy.Flow Tls Http

-- The segments of one flow, each fed to classify in order.
def classifyStep (hostOutSize : Nat) (flow : FlowEntry) (payload : Bytes) :
    FlowEntry × Option Classified :=
  let c := classify flow payload hostOutSize
  (c.flow, some c)

def classifyAll (hostOutSize : Nat) (flow : FlowEntry) (segments : List Bytes) :
    FlowEntry × List Classified :=
  Machine.run (classifyStep hostOutSize) flow segments

-- What the calls wrote to host_out, one entry for each call that wrote something.
def hostsReported (calls : List Classified) : List Bytes :=
  (calls.map (·.host)).filter (· ≠ [])

theorem classifyAll_cons (hostOutSize : Nat) (flow : FlowEntry) (payload : Bytes)
    (segments : List Bytes) :
    classifyAll hostOutSize flow (payload :: segments) =
      ((classifyAll hostOutSize (classify flow payload hostOutSize).flow segments).1,
        classify flow payload hostOutSize ::
          (classifyAll hostOutSize (classify flow payload hostOutSize).flow segments).2) := rfl

theorem hostsReported_cons (call : Classified) (calls : List Classified) :
    hostsReported (call :: calls) = [call.host].filter (· ≠ []) ++ hostsReported calls := by
  rw [hostsReported, hostsReported, ← List.filter_append, List.map_cons, List.singleton_append]

-- The class and the host of a reassembly window, none while bytes are missing.
def answer (hostOutSize : Nat) (reasm : Bytes) : Option (FlowClass × Bytes) :=
  match tlsParseClientHelloSni reasm hostOutSize with
  | .ok host => some (.tls, host)
  | .error .truncated => none
  | .error _ =>
      match httpParseHost reasm hostOutSize with
      | .ok host => some (.http, host)
      | .error .truncated => none
      | .error _ => some (.passthrough, [])

def answered (flow : FlowEntry) : Option (FlowClass × Bytes) → Classified
  | some (cls, host) => settle flow cls host
  | none => ⟨.unclassified, flow, []⟩

theorem classify_done {flow : FlowEntry} (hdone : flow.classificationDone = true) (payload : Bytes)
    (hostOutSize : Nat) : classify flow payload hostOutSize = ⟨.unclassified, flow, []⟩ := by
  rw [classify, hdone, Bool.true_or, if_pos rfl]

theorem classify_nil (flow : FlowEntry) (hostOutSize : Nat) :
    classify flow [] hostOutSize = ⟨.unclassified, flow, []⟩ := by
  rw [classify, List.length_nil, beq_self_eq_true, Bool.or_true, if_pos rfl]

theorem classify_open {flow : FlowEntry} {payload : Bytes}
    (hopen : flow.classificationDone = false) (hne : payload ≠ [])
    (hcap : (flow.reasm ++ payload).length ≤ FLOW_REASSEMBLY_CAP) (hostOutSize : Nat) :
    classify flow payload hostOutSize =
      answered { flow with reasm := flow.reasm ++ payload }
        (answer hostOutSize (flow.reasm ++ payload)) := by
  have hread : (flow.classificationDone || payload.length == 0) = false := by
    rw [hopen, Bool.false_or, beq_eq_false_iff_ne]
    exact mt List.length_eq_zero_iff.mp hne
  have happend : flowReasmAppend flow payload = some { flow with reasm := flow.reasm ++ payload } := by
    rw [List.length_append] at hcap
    rw [flowReasmAppend, if_neg (by omega)]
  rw [classify, hread, if_neg Bool.false_ne_true, happend, answer]
  dsimp only
  cases tlsParseClientHelloSni (flow.reasm ++ payload) hostOutSize with
  | ok host => rfl
  | error status =>
      cases status with
      | truncated => rfl
      | malformed | unsupported =>
          cases httpParseHost (flow.reasm ++ payload) hostOutSize with
          | ok host => rfl
          | error status => cases status <;> rfl

theorem run_done (flow : FlowEntry) (hdone : flow.classificationDone = true) (hostOutSize : Nat)
    (segments : List Bytes) :
    (classifyAll hostOutSize flow segments).1 = flow ∧
      hostsReported (classifyAll hostOutSize flow segments).2 = [] := by
  induction segments with
  | nil => exact ⟨rfl, rfl⟩
  | cons payload segments ih =>
      rw [classifyAll_cons, classify_done hdone, hostsReported_cons]
      exact ih

-- A run that is not done reads like a chunked reader over its nonempty segments.
theorem classifyAll_read (hostOutSize : Nat) (flow : FlowEntry) (segments : List Bytes)
    (hopen : flow.classificationDone = false)
    (hcap : (flow.reasm ++ segments.flatten).length ≤ FLOW_REASSEMBLY_CAP) :
    let read := Chunks.read (answer hostOutSize) flow.reasm (segments.filter (· ≠ []))
    (classifyAll hostOutSize flow segments).1.classHint = (read.map (·.1)).getD flow.classHint ∧
      (classifyAll hostOutSize flow segments).1.classificationDone = read.isSome ∧
      hostsReported (classifyAll hostOutSize flow segments).2 =
        (read.toList.map (·.2)).filter (· ≠ []) := by
  induction segments generalizing flow with
  | nil => exact ⟨rfl, hopen, rfl⟩
  | cons payload segments ih =>
      by_cases hne : payload = []
      · subst hne
        rw [List.flatten_cons, List.nil_append] at hcap
        rw [classifyAll_cons, classify_nil, hostsReported_cons]
        exact ih flow hopen hcap
      · rw [List.flatten_cons, ← List.append_assoc] at hcap
        have hpart : (flow.reasm ++ payload).length ≤ FLOW_REASSEMBLY_CAP := by
          rw [List.length_append] at hcap
          omega
        rw [classifyAll_cons, classify_open hopen hne hpart, hostsReported_cons,
          List.filter_cons_of_pos (by simpa using hne), Chunks.read]
        cases hanswer : answer hostOutSize (flow.reasm ++ payload) with
        | none => exact ih { flow with reasm := flow.reasm ++ payload } hopen hcap
        | some result =>
            obtain ⟨hflow, hhosts⟩ := run_done
              (settle { flow with reasm := flow.reasm ++ payload } result.1 result.2).flow
              rfl hostOutSize segments
            rw [answered, hflow, hhosts, List.append_nil]
            exact ⟨rfl, rfl, rfl⟩

theorem httpParseHost_tls {reasm : Bytes} {hostOutSize : Nat} (hsize : hostOutSize ≠ 0)
    (hlen : 5 ≤ reasm.length) (hbyte : byte reasm 0 = 0x16) :
    httpParseHost reasm hostOutSize = .error .unsupported := by
  have hline : looksLikeRequestLine reasm = false := by
    cases reasm with
    | nil => rfl
    | cons b bs =>
        have hb : b = 0x16 := hbyte
        subst hb
        simp [looksLikeRequestLine, methods, ascii]
  rw [httpParseHost, if_neg hsize, if_neg (by omega), hline]
  rfl

-- http_parse_host has the last word only where it cannot find a request.
theorem answer_tls {reasm : Bytes} (hostOutSize : Nat) (hbyte : byte reasm 0 = 0x16)
    (hcap : reasm.length ≤ TLS_CLIENTHELLO_CAP) :
    answer hostOutSize reasm =
      match tlsParseClientHelloSni reasm hostOutSize with
      | .ok host => some (.tls, host)
      | .error .truncated => none
      | .error _ => some (.passthrough, []) := by
  have hhttp : tlsParseClientHelloSni reasm hostOutSize ≠ .error .truncated →
      ∃ status, httpParseHost reasm hostOutSize = .error status ∧ status ≠ .truncated := by
    intro h
    by_cases hsize : hostOutSize = 0
    · refine ⟨.malformed, ?_, by decide⟩
      rw [httpParseHost, if_pos hsize]
    · refine ⟨.unsupported, httpParseHost_tls hsize ?_ hbyte, by decide⟩
      by_contra hshort
      apply h
      rw [tlsParseClientHelloSni_eq, require_bind, if_pos hsize, require_bind, if_pos hcap,
        require_bind, if_neg hshort]
  rw [answer]
  cases htls : tlsParseClientHelloSni reasm hostOutSize with
  | ok host => rfl
  | error status =>
      cases status with
      | truncated => rfl
      | malformed | unsupported =>
          obtain ⟨status, hstatus, hne⟩ := hhttp (by rw [htls]; simp)
          rw [hstatus]
          cases status with
          | truncated => exact absurd rfl hne
          | malformed | unsupported => rfl

theorem answer_stable {stream : Bytes} (hostOutSize : Nat) (hbyte : byte stream 0 = 0x16)
    (hcap : stream.length ≤ TLS_CLIENTHELLO_CAP) :
    Chunks.Stable (answer hostOutSize) stream := by
  intro p rest r hp hstream hr
  subst hstream
  have hfirst : byte p 0 = byte (p ++ rest) 0 := by
    rw [byte_append, if_pos (List.length_pos_iff.mpr hp)]
  have hpart : p.length ≤ TLS_CLIENTHELLO_CAP := by
    rw [List.length_append] at hcap
    omega
  have hsettles := tlsParseClientHelloSni_append p rest hostOutSize hcap
  rw [answer_tls hostOutSize (hfirst.trans hbyte) hpart] at hr
  rw [answer_tls hostOutSize hbyte hcap]
  have hfinal : tlsParseClientHelloSni p hostOutSize ≠ .error .truncated := by
    intro htrunc
    rw [htrunc] at hr
    cases hr
  rw [hsettles hfinal]
  exact hr

-- A stream whose answer is final at every cut is classified alike in every segmentation,
-- and its host is written by one call.
theorem classify_of_stable {stream : Bytes} {hostOutSize : Nat}
    (hstable : Chunks.Stable (answer hostOutSize) stream) {flow : FlowEntry}
    (hcap : stream.length ≤ FLOW_REASSEMBLY_CAP) (hreasm : flow.reasm = [])
    (hopen : flow.classificationDone = false) :
    ∃ (cls : FlowClass) (done : Bool) (host : Option Bytes),
      ∀ segments : List Bytes, segments.flatten = stream →
        (classifyAll hostOutSize flow segments).1.classHint = cls ∧
        (classifyAll hostOutSize flow segments).1.classificationDone = done ∧
        hostsReported (classifyAll hostOutSize flow segments).2 = host.toList := by
  let verdict := if stream = [] then none else answer hostOutSize stream
  refine ⟨(verdict.map (·.1)).getD flow.classHint, verdict.isSome,
    (verdict.map (·.2)).filter (· ≠ []), ?_⟩
  intro segments hflat
  have hne : ∀ segment ∈ segments.filter (· ≠ []), segment ≠ [] := by
    intro segment hs
    simpa using (List.mem_filter.mp hs).2
  have hfilter : (segments.filter (· ≠ [])).flatten = stream := by
    rw [← hflat]
    exact List.flatten_filter_ne_nil
  have hread : Chunks.read (answer hostOutSize) [] (segments.filter (· ≠ [])) = verdict := by
    by_cases hsome : stream = []
    · have hall : segments.filter (· ≠ []) = [] := by
        rw [hsome, List.flatten_eq_nil_iff] at hfilter
        exact List.eq_nil_iff_forall_not_mem.mpr fun segment hs => hne segment hs (hfilter segment hs)
      rw [hall]
      exact (if_pos hsome).symm
    · exact (Chunks.read_flatten hstable hfilter hne hsome).trans (if_neg hsome).symm
  have hrun := classifyAll_read hostOutSize flow segments hopen (by rwa [hreasm, hflat])
  rw [hreasm, hread] at hrun
  obtain ⟨hcls, hdone, hhosts⟩ := hrun
  refine ⟨hcls, hdone, hhosts.trans ?_⟩
  cases verdict with
  | none => rfl
  | some result =>
      by_cases hempty : result.2 = []
      · simp [hempty]
      · simp [hempty, Option.filter]

-- A stream that begins like a TLS record.
theorem classify_segmentation (hostOutSize : Nat) :
    (∀ s p : Bytes, s.length ≤ TLS_CLIENTHELLO_CAP → p <+: s →
      tlsParseClientHelloSni p hostOutSize ≠ .error .truncated →
      tlsParseClientHelloSni s hostOutSize = tlsParseClientHelloSni p hostOutSize) ∧
    ∀ (stream : Bytes) (flow : FlowEntry), stream.head? = some 0x16 →
      stream.length ≤ FLOW_REASSEMBLY_CAP → flow.reasm = [] → flow.classificationDone = false →
      ∃ (cls : FlowClass) (done : Bool) (host : Option Bytes),
        ∀ segments : List Bytes, segments.flatten = stream →
          (classifyAll hostOutSize flow segments).1.classHint = cls ∧
          (classifyAll hostOutSize flow segments).1.classificationDone = done ∧
          hostsReported (classifyAll hostOutSize flow segments).2 = host.toList := by
  constructor
  · rintro s p hcap ⟨rest, rfl⟩ hfinal
    exact tlsParseClientHelloSni_append p rest hostOutSize hcap hfinal
  · intro stream flow hhead hcap hreasm hopen
    have hbyte : byte stream 0 = 0x16 := by
      cases stream with
      | nil => cases hhead
      | cons b bs => exact Option.some.inj hhead
    exact classify_of_stable (answer_stable hostOutSize hbyte hcap) hcap hreasm hopen

-- A ClientHello for the host "a".
def smallHello : Bytes :=
  [0x16, 3, 1, 0, 57, 1, 0, 0, 53, 3, 3] ++ List.replicate 32 0 ++
    [0, 0, 2, 0x13, 1, 1, 0, 0, 10, 0, 0, 0, 6, 0, 4, 0, 0, 1, 97]

theorem classify_segmentation_smallHello : ∀ segments : List Bytes, segments.flatten = smallHello →
    (classifyAll HOST_SIZE (flowReset .zero 0) segments).1.classHint = .tls ∧
    (classifyAll HOST_SIZE (flowReset .zero 0) segments).1.classificationDone = true ∧
    hostsReported (classifyAll HOST_SIZE (flowReset .zero 0) segments).2 = [[97]] := by
  obtain ⟨cls, done, host, hall⟩ := (classify_segmentation HOST_SIZE).2 smallHello
    (flowReset .zero 0) rfl (by decide) rfl rfl
  obtain ⟨hcls, hdone, hhost⟩ := hall [smallHello] (List.append_nil _)
  have hwhole : (classifyAll HOST_SIZE (flowReset .zero 0) [smallHello]).1.classHint = .tls ∧
      (classifyAll HOST_SIZE (flowReset .zero 0) [smallHello]).1.classificationDone = true ∧
      hostsReported (classifyAll HOST_SIZE (flowReset .zero 0) [smallHello]).2 = [[97]] := by
    decide +kernel
  intro segments hflat
  obtain ⟨hcls', hdone', hhost'⟩ := hall segments hflat
  rw [hcls', hdone', hhost', ← hcls, ← hdone, ← hhost]
  exact hwhole

end DpiProxy.Engine
