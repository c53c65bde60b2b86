import DpiProxy.Tls.Complete
import DpiProxy.Transparent.Hello.Verdict
import DpiProxy.Tls.Record.Theorems

namespace DpiProxy.Transparent

open Wire Packet Tls Relay

-- The bytes that parse_hello parses.
def helloView (hello : Bytes) : Bytes := (tlsCoalesceHandshakeRecords hello BUFFER_SIZE).getD hello

theorem helloView_length {hello : Bytes} (h : hello.length ≤ BUFFER_SIZE) :
    (helloView hello).length ≤ TLS_CLIENTHELLO_CAP := by
  unfold helloView
  cases hmerged : tlsCoalesceHandshakeRecords hello BUFFER_SIZE with
  | none => exact h
  | some merged => exact (tlsCoalesceHandshakeRecords_shorter hmerged).2

theorem parseHello_ok_iff (hello host : Bytes) :
    parseHello hello = .ok host ↔
      tlsParseClientHelloSni (helloView hello) TLS_SNI_HOST_MAX = .ok host ∧
        (cstr host).all isHostChar = true := by
  rw [parseHello, ← helloView]
  cases tlsParseClientHelloSni (helloView hello) TLS_SNI_HOST_MAX with
  | error status => exact iff_of_false (by simp) (by simp)
  | ok name =>
      dsimp only
      by_cases hhost : (cstr name).all isHostChar = true
      · rw [if_pos hhost]
        exact ⟨fun h => ⟨h, Except.ok.inj h ▸ hhost⟩, fun h => h.1⟩
      · rw [if_neg hhost]
        exact iff_of_false (by simp) fun h => hhost (Except.ok.inj h.1 ▸ h.2)

theorem sniField_unique {data : Bytes} {offset len offset' len' : Nat}
    (h : SniField data offset len) (h' : SniField data offset' len') :
    offset = offset' ∧ len = len' :=
  h.name.unique h'.name

-- The whole name on the wire is a hostname, and c->host is that name.
def NameKept (hello : Bytes) : Prop :=
  ∀ host, parseHello hello = .ok host →
    ∃ offset len, SniField (helloView hello) offset len ∧
      (slice (helloView hello) offset len).all isHostChar = true ∧
      cstr host = slice (helloView hello) offset len

-- A name of which only the part before a NUL is checked and kept.
def HiddenTail (hello : Bytes) : Prop :=
  be24 (helloView hello) 6 ≤ TLS_CLIENTHELLO_CAP ∧
    ∃ offset len, SniField (helloView hello) offset len ∧ len < TLS_SNI_HOST_MAX ∧
      0 ∈ slice (helloView hello) offset len ∧
      (cstr (slice (helloView hello) offset len)).all isHostChar = true

theorem hiddenTail_parsed {hello : Bytes} (hlen : hello.length ≤ BUFFER_SIZE) (h : HiddenTail hello) :
    ∃ host, parseHello hello = .ok host ∧ 0 ∈ host := by
  obtain ⟨hmessage, offset, len, hfield, hsize, hnul, hhost⟩ := h
  have hpos : 0 < len := by
    refine Nat.pos_of_ne_zero fun hzero => ?_
    rw [hzero, slice, List.take_zero] at hnul
    exact List.not_mem_nil hnul
  have hparse := ok_of_sniField (helloView_length hlen) hmessage hfield hpos hsize
  exact ⟨_, (parseHello_ok_iff hello _).mpr ⟨hparse, hhost⟩, hnul⟩

-- parse_hello checks the name as a C string, so that what is behind a NUL byte is
-- neither checked nor kept.
theorem parseHello_name_iff (hello : Bytes) (hlen : hello.length ≤ BUFFER_SIZE) :
    NameKept hello ↔ ¬HiddenTail hello := by
  constructor
  · intro hkept htail
    obtain ⟨host, hparse, hnul⟩ := hiddenTail_parsed hlen htail
    obtain ⟨offset, len, hfield, hall, -⟩ := hkept host hparse
    obtain ⟨hname, -⟩ := (parseHello_ok_iff hello host).mp hparse
    obtain ⟨offset', len', hfield', -, -, rfl⟩ := sniField_of_ok hname
    obtain ⟨rfl, rfl⟩ := sniField_unique hfield hfield'
    exact absurd (List.all_eq_true.mp hall 0 hnul) (by decide)
  · intro hno host hparse
    obtain ⟨hname, hhost⟩ := (parseHello_ok_iff hello host).mp hparse
    obtain ⟨offset, len, hfield, hpos, hsize, rfl⟩ := sniField_of_ok hname
    have hmessage := message_of_ok hname
    have hnul : (0 : UInt8) ∉ slice (helloView hello) offset len := fun hmem =>
      hno ⟨hmessage, offset, len, hfield, hsize, hmem, hhost⟩
    rw [cstr_eq_self hnul] at hhost ⊢
    exact ⟨offset, len, hfield, hhost, rfl⟩

-- A ClientHello for "a", a NUL and "b".
def nulHello : ClientHello :=
  { sampleHello with
    extensions := [.serverName [97, 0, 98] [] (by decide) (by decide)]
    extensions_length := by decide }

theorem nulHello_cut : nulHello.bytes.length ≤ BUFFER_SIZE ∧
    parseHello nulHello.bytes = .ok [97, 0, 98] ∧ cstr [97, 0, 98] = [97] ∧ ¬NameKept nulHello.bytes := by
  have hparse : parseHello nulHello.bytes = .ok [97, 0, 98] := by decide +kernel
  refine ⟨by decide +kernel, hparse, by decide, fun hkept => ?_⟩
  obtain ⟨offset, len, hfield, hall, -⟩ := hkept _ hparse
  obtain ⟨offset', len', hfield', -, -, hname⟩ := sniField_of_ok ((parseHello_ok_iff _ _).mp hparse).1
  obtain ⟨rfl, rfl⟩ := sniField_unique hfield hfield'
  rw [← hname] at hall
  exact absurd hall (by decide)

theorem parseHello_name_iff_sample : NameKept sampleHello.bytes ↔ ¬HiddenTail sampleHello.bytes :=
  parseHello_name_iff sampleHello.bytes (by decide +kernel)

end DpiProxy.Transparent
