import DpiProxy.Tls.Grammar

namespace DpiProxy.Tls

open Wire Wire.Record Packet

section Grammar

variable (hello : ClientHello)

-- The fields that the parser looks at in front of the blocks.
theorem bytes_front (hcap : hello.bytes.length ≤ TLS_CLIENTHELLO_CAP) :
    byte hello.bytes 0 = 0x16 ∧ byte hello.bytes 5 = 0x01 ∧ be24 hello.bytes 6 ≤ TLS_CLIENTHELLO_CAP := by
  have hrecord : hello.bytes.drop 5 = hello.message := List.drop_left' rfl
  have hmessage : hello.bytes.drop (5 + 1) = u24 hello.body.length ++ hello.body := by
    rw [← List.drop_drop, hrecord]
    rfl
  have htotal := bytes_length hello
  have hcap' : hello.bytes.length ≤ 16384 := hcap
  refine ⟨rfl, byte_at hrecord, ?_⟩
  rw [be24_at (by omega) hmessage, TLS_CLIENTHELLO_CAP]
  omega

theorem block_le (hcap : hello.bytes.length ≤ TLS_CLIENTHELLO_CAP) :
    be16 hello.bytes (compressionEnd hello.bytes) ≤ TLS_CLIENTHELLO_CAP := by
  have hend := (layout hello).2.2.2
  rw [extensionsEnd] at hend
  omega

theorem tlsParseClientHelloSni_bytes (hostOutSize : Nat) (hsize : hostOutSize ≠ 0)
    (hcap : hello.bytes.length ≤ TLS_CLIENTHELLO_CAP) :
    tlsParseClientHelloSni hello.bytes hostOutSize =
      match firstServerName hello.extensions with
      | some name => if name.length < hostOutSize then .ok name else .error .malformed
      | none => .error .unsupported := by
  obtain ⟨hrecord, hhello, hlen⟩ := bytes_front hello hcap
  obtain ⟨hstart, hblockLen, hblock, hend⟩ := layout hello
  have hbounds := start_le_end hello.bytes
  have hblock' := block_le hello hcap
  rw [tlsParseClientHelloSni_eq]
  simp only [require_bind]
  rw [if_pos hsize, if_pos hcap, if_pos (by omega), if_pos hrecord, if_pos (by omega), if_pos hhello,
    if_pos hlen, if_pos hstart, if_pos hblock', if_pos hend.le, extensionsEnd, hblockLen]
  exact parseSniExtension_extensions hostOutSize hello.extensions (by rw [hblock, List.append_nil]; rfl)

theorem tlsParseClientHelloSni_short {data : Bytes} {hostOutSize : Nat} (hsize : hostOutSize ≠ 0)
    (h : data.length < 5) : tlsParseClientHelloSni data hostOutSize = .error .truncated := by
  rw [tlsParseClientHelloSni_eq]
  simp only [require_bind]
  rw [if_pos hsize, if_pos (by unfold TLS_CLIENTHELLO_CAP; omega), if_neg (by omega)]

-- A beginning of a ClientHello is unfinished up to its last byte.
theorem unfinished_beginning (hcap : hello.bytes.length ≤ TLS_CLIENTHELLO_CAP) {p : Bytes}
    (hp : p <+: hello.bytes) (hless : p.length < hello.bytes.length) : Unfinished p := by
  obtain ⟨rest, hrest⟩ := hp
  have hagree : Agree p hello.bytes 0 p.length := hrest ▸ agree_append p rest 0
  by_cases hstart : extensionsStart p ≤ p.length
  · have hafter : 44 ≤ compressionEnd p := by
      unfold compressionEnd ciphersEnd sessionEnd
      omega
    rw [extensionsStart] at hstart
    have hplace := hagree.compressionEnd_eq (by omega) (by omega)
    have hblock : be16 p (compressionEnd p) = be16 hello.bytes (compressionEnd p) :=
      hagree.be16_eq (by omega) (by omega)
    have hle := block_le hello hcap
    have hend := (layout hello).2.2.2
    rw [extensionsEnd, extensionsStart, hplace, ← hblock] at hend
    rw [hplace, ← hblock] at hle
    refine .inr ⟨hle, ?_⟩
    rw [extensionsEnd, extensionsStart]
    omega
  · exact .inl (Nat.not_le.mp hstart)

-- The server name is read from every ClientHello, whatever its other fields and its
-- other extensions are, and from no beginning of it.
theorem tlsParseClientHelloSni_grammar (hcap : hello.bytes.length ≤ TLS_CLIENTHELLO_CAP) :
    (∀ name, firstServerName hello.extensions = some name → name.length ≤ 255 →
      tlsParseClientHelloSni hello.bytes 256 = .ok name) ∧
    (firstServerName hello.extensions = none →
      tlsParseClientHelloSni hello.bytes 256 = .error .unsupported) ∧
    ∀ p, p <+: hello.bytes → p ≠ hello.bytes → tlsParseClientHelloSni p 256 = .error .truncated := by
  have hwhole := tlsParseClientHelloSni_bytes hello 256 (by decide) hcap
  refine ⟨fun name hname hlen => ?_, fun hnone => ?_, fun p hp hne => ?_⟩
  · rw [hwhole, hname]
    exact if_pos (Nat.lt_succ_of_le hlen)
  · rw [hwhole, hnone]
  · have hle : p.length ≤ hello.bytes.length := hp.length_le
    have hless : p.length < hello.bytes.length :=
      Nat.lt_of_le_of_ne hle fun hlen => hne (hp.eq_of_length hlen)
    by_cases hshort : p.length < 5
    · exact tlsParseClientHelloSni_short (by decide) hshort
    · obtain ⟨rest, hrest⟩ := hp
      have hagree : Agree p hello.bytes 0 p.length := hrest ▸ agree_append p rest 0
      obtain ⟨hrecord, hhello, hlen⟩ := bytes_front hello hcap
      have hfirst : byte p 0 = 0x16 := (hagree.same 0 (by omega) (by omega)).trans hrecord
      refine tlsParseClientHelloSni_truncated (by decide) (hle.trans hcap) hfirst (fun hnine => ?_)
        (unfinished_beginning hello hcap ⟨rest, hrest⟩ hless)
      have hsame : be24 p 6 = be24 hello.bytes 6 := by
        rw [be24, be24, hagree.same 6 (by omega) (by omega), hagree.be16_eq (i := 7) (by omega) (by omega)]
      exact ⟨(hagree.same 5 (by omega) (by omega)).trans hhello, hsame.le.trans hlen⟩

end Grammar

-- A ClientHello with a session id, two cipher suites, another extension in front of its
-- server name and one behind it.
def sampleHello : ClientHello where
  recordVersion := 0x0301
  version := 0x0303
  random := List.replicate 32 7
  sessionId := [1, 2, 3]
  cipherSuites := [0x1301, 0x1302]
  compressionMethods := [0]
  extensions := [.other 10 [0, 2, 0, 29] (by decide) (by decide),
    .serverName [97, 46, 98] [] (by decide) (by decide), .other 21 [0] (by decide) (by decide)]
  random_length := rfl
  sessionId_length := by decide
  cipherSuites_length := by decide
  compressionMethods_length := by decide
  extensions_length := by decide

theorem tlsParseClientHelloSni_grammar_sample :
    tlsParseClientHelloSni sampleHello.bytes 256 = .ok [97, 46, 98] :=
  (tlsParseClientHelloSni_grammar sampleHello (by decide +kernel)).1 [97, 46, 98] rfl (by decide)

section Complete

-- A handshake record that is all there, with a ClientHello message all of which is in it.
structure CompleteHello (data : Bytes) : Prop where
  record : byte data 0 = 0x16
  recordThere : 5 + be16 data 3 ≤ data.length
  hello : byte data 5 = 0x01
  messageThere : 4 + be24 data 6 ≤ be16 data 3

instance (data : Bytes) : Decidable (CompleteHello data) :=
  decidable_of_iff (byte data 0 = 0x16 ∧ 5 + be16 data 3 ≤ data.length ∧ byte data 5 = 0x01 ∧
    4 + be24 data 6 ≤ be16 data 3) ⟨fun ⟨h₀, h₁, h₂, h₃⟩ => ⟨h₀, h₁, h₂, h₃⟩,
    fun ⟨h₀, h₁, h₂, h₃⟩ => ⟨h₀, h₁, h₂, h₃⟩⟩

-- The inner lengths lead to an extensions block, length field included, that ends in the
-- buffer; or that is too long for any ClientHello.
def BlocksFit (data : Bytes) : Prop :=
  extensionsStart data ≤ data.length ∧
    (be16 data (compressionEnd data) ≤ TLS_CLIENTHELLO_CAP → extensionsEnd data ≤ data.length)

theorem unfinished_iff (data : Bytes) : Unfinished data ↔ ¬BlocksFit data := by
  rw [Unfinished, BlocksFit, not_and_or, Classical.not_imp, not_le, not_le]

theorem tlsParseClientHelloSni_fits {data : Bytes} {hostOutSize : Nat} (hnine : 9 ≤ data.length)
    (h : BlocksFit data) : tlsParseClientHelloSni data hostOutSize ≠ .error .truncated := by
  rw [tlsParseClientHelloSni_eq]
  refine require_bind_ne_truncated nofun ?_
  refine require_bind_ne_truncated nofun ?_
  refine require_bind_ne_truncated (fun _ => by omega) ?_
  refine require_bind_ne_truncated nofun ?_
  refine require_bind_ne_truncated (fun _ => hnine) ?_
  refine require_bind_ne_truncated nofun ?_
  refine require_bind_ne_truncated nofun ?_
  refine require_bind_ne_truncated (fun _ => h.1) ?_
  rw [require_bind]
  by_cases hblock : be16 data (compressionEnd data) ≤ TLS_CLIENTHELLO_CAP
  · rw [if_pos hblock]
    exact require_bind_ne_truncated (fun _ => h.2 hblock) (parseSniExtension_ne_truncated _ _ _ _)
  · rw [if_neg hblock]
    exact nofun

-- The parser measures the inner lengths against the buffer only. A complete ClientHello
-- whose inner lengths lead out of it, or that has no extensions block, counts as one that
-- has not arrived yet.
theorem tlsParseClientHelloSni_complete_iff (data : Bytes) (hostOutSize : Nat)
    (hcap : data.length ≤ TLS_CLIENTHELLO_CAP) (h : CompleteHello data) :
    tlsParseClientHelloSni data hostOutSize ≠ .error .truncated ↔
      hostOutSize = 0 ∨ BlocksFit data := by
  have hrecord := h.recordThere
  have hmessage := h.messageThere
  constructor
  · intro hanswer
    by_cases hsize : hostOutSize = 0
    · exact .inl hsize
    · refine .inr (by_contra fun hfit => hanswer ?_)
      exact tlsParseClientHelloSni_truncated hsize hcap h.record (fun _ => ⟨h.hello, by omega⟩)
        ((unfinished_iff data).mpr hfit)
  · rintro (hzero | hfit)
    · rw [tlsParseClientHelloSni_eq, require_bind, if_neg (not_not.mpr hzero)]
      exact nofun
    · exact tlsParseClientHelloSni_fits (by omega) hfit

-- TLS 1.2 allows a ClientHello that ends behind its compression methods.
def plainHello : Bytes :=
  header 0x16 3 1 45 ++ 0x01 :: (u24 41 ++ (u16 0x0303 ++ (List.replicate 32 7 ++
    (vector8 [] ++ (vector16 [0x00, 0x2f] ++ vector8 [0])))))

theorem plainHello_waits : CompleteHello plainHello ∧ plainHello.length ≤ TLS_CLIENTHELLO_CAP ∧
    tlsParseClientHelloSni plainHello 256 = .error .truncated := by
  decide +kernel

theorem tlsParseClientHelloSni_complete_iff_sample :
    tlsParseClientHelloSni sampleHello.bytes 256 ≠ .error .truncated ↔
      256 = 0 ∨ BlocksFit sampleHello.bytes :=
  tlsParseClientHelloSni_complete_iff sampleHello.bytes 256 (by decide +kernel) (by decide +kernel)

end Complete

end DpiProxy.Tls
