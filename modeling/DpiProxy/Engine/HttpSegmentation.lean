import DpiProxy.Engine.Segmentation
import DpiProxy.Http.Cut
import DpiProxy.Http.Host

namespace DpiProxy.Engine

open Wire Packet DpiProxy.Flow Tls Http

-- The ClientHello parser is final by itself, so the HTTP one decides.
theorem answer_stable_of_http {stream : Bytes} {hostOutSize : Nat}
    (hcap : stream.length ≤ HTTP_SCAN_CAP)
    (hhttp : ∀ p, p <+: stream → httpParseHost p hostOutSize ≠ .error .truncated →
      httpParseHost stream hostOutSize = httpParseHost p hostOutSize) :
    Chunks.Stable (answer hostOutSize) stream := by
  intro p rest r _ hstream hr
  subst hstream
  have hcaps : HTTP_SCAN_CAP ≤ TLS_CLIENTHELLO_CAP := by decide
  have htls := tlsParseClientHelloSni_append p rest hostOutSize (hcap.trans hcaps)
  rw [answer] at hr ⊢
  cases hp : tlsParseClientHelloSni p hostOutSize with
  | ok host =>
      rw [htls (by simp [hp]), hp]
      rwa [hp] at hr
  | error status =>
      cases status with
      | truncated =>
          rw [hp] at hr
          cases hr
      | malformed | unsupported =>
          rw [htls (by simp [hp]), hp]
          rw [hp] at hr
          dsimp only at hr ⊢
          have hfinal : httpParseHost p hostOutSize ≠ .error .truncated := by
            intro htrunc
            rw [htrunc] at hr
            cases hr
          rwa [hhttp p (List.prefix_append p rest) hfinal]

-- A request is classified alike in every segmentation unless its method is longer than
-- the four bytes that are waited for and its Host header is still wanted.
theorem http_segmentation_iff {s : Bytes} (hcap : s.length ≤ HTTP_SCAN_CAP) (hostOutSize : Nat) :
    ((∀ p, p <+: s → httpParseHost p hostOutSize ≠ .error .truncated →
        httpParseHost s hostOutSize = httpParseHost p hostOutSize) ∧
      ∀ flow : FlowEntry, flow.reasm = [] → flow.classificationDone = false →
        ∃ (cls : FlowClass) (done : Bool) (host : Option Bytes),
          ∀ segments : List Bytes, segments.flatten = s →
            (classifyAll hostOutSize flow segments).1.classHint = cls ∧
            (classifyAll hostOutSize flow segments).1.classificationDone = done ∧
            hostsReported (classifyAll hostOutSize flow segments).2 = host.toList) ↔
    hostOutSize = 0 ∨ ¬ LongMethod s ∨ NoHostLine s := by
  have hreasm : HTTP_SCAN_CAP ≤ FLOW_REASSEMBLY_CAP := by decide
  rw [← httpParseHost_stable_iff hcap]
  refine and_iff_left_of_imp fun hstable flow hempty hopen => ?_
  exact classify_of_stable (answer_stable_of_http hcap hstable) (hcap.trans hreasm) hempty hopen

theorem http_segmentation_get :
    let s := (getRequest [hostField [] blank_nil]).bytes
    s.length ≤ HTTP_SCAN_CAP ∧ ∀ p, p <+: s → httpParseHost p HOST_SIZE ≠ .error .truncated →
      httpParseHost s HOST_SIZE = httpParseHost p HOST_SIZE := by
  intro s
  have hcap : s.length ≤ HTTP_SCAN_CAP := by decide +kernel
  have hget : ¬ LongMethod s := by
    unfold LongMethod
    decide +kernel
  exact ⟨hcap, ((http_segmentation_iff hcap HOST_SIZE).mpr (.inr (.inl hget))).1⟩

theorem delete_mem_methods : ascii ['D', 'E', 'L', 'E', 'T', 'E', ' '] ∈ methods := by simp [methods]

def deleteRequest : RequestHead where
  method := ascii ['D', 'E', 'L', 'E', 'T', 'E', ' ']
  target := ascii ['/']
  fields := [hostField [] blank_nil]
  supported := delete_mem_methods
  one_line := cr_notMem_root

-- "DELE" is unsupported, and the request it begins is one for e.org. A flow whose first
-- segment ends one byte later is not looked at again.
theorem deleteRequest_cut :
    (¬ ∀ (s p : Bytes) (hostOutSize : Nat), s.length ≤ HTTP_SCAN_CAP → p <+: s →
      httpParseHost p hostOutSize ≠ .error .truncated →
      httpParseHost s hostOutSize = httpParseHost p hostOutSize) ∧
    (classifyAll HOST_SIZE (flowReset .zero 0) [deleteRequest.bytes]).1.classHint = .http ∧
    (classifyAll HOST_SIZE (flowReset .zero 0)
      [deleteRequest.bytes.take 5, deleteRequest.bytes.drop 5]).1.classHint = .passthrough := by
  refine ⟨fun h => ?_, by decide +kernel, by decide +kernel⟩
  have hcap : deleteRequest.bytes.length ≤ HTTP_SCAN_CAP := by decide +kernel
  have hlong : LongMethod deleteRequest.bytes := by
    unfold LongMethod
    decide +kernel
  have hsize : HOST_SIZE ≠ 0 := by decide
  obtain ⟨hp, hcut, -⟩ := httpParseHost_cut hsize hlong
  have hwhole := deleteRequest.httpParseHost_fields hcap [] hsize
  have hfind : deleteRequest.fields.find? Field.isHost = some (hostField [] blank_nil) := rfl
  rw [List.append_nil, h _ _ HOST_SIZE hcap hp (by simp [hcut]), hcut, hfind] at hwhole
  simp [hostField, ascii, SPACE, HOST_SIZE] at hwhole

end DpiProxy.Engine
