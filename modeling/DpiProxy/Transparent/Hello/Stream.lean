import DpiProxy.Tls.Record.Frames
import DpiProxy.Transparent.Hello.Verdict

namespace DpiProxy.Transparent

open Wire Packet Tls Relay Record

-- A ClientHello message in one record.
def oneRecord (hello : Bytes) : Bytes := header 0x16 3 1 hello.length ++ hello

-- Type and length of the message, and its blocks fill it: the last one is the
-- compression methods or the extensions.
structure IsClientHello (hello : Bytes) : Prop where
  type : byte hello 0 = 0x01
  length : be24 hello 1 + 4 = hello.length
  blocks : compressionEnd (oneRecord hello) = (oneRecord hello).length ∨
    extensionsEnd (oneRecord hello) = (oneRecord hello).length

-- What a client sends first: handshake records that carry one ClientHello, then
-- whatever follows them.
structure HelloStream where
  records : List HandshakeRecord
  rest : Bytes
  hello : IsClientHello (bodies records)
  after : rest.head? ≠ some 0x16
  fits : (frames records ++ rest).length ≤ BUFFER_SIZE

namespace HelloStream

def bytes (s : HelloStream) : Bytes := frames s.records ++ s.rest

-- The same ClientHello sent in one record.
def whole (s : HelloStream) : Bytes := oneRecord (bodies s.records) ++ s.rest

-- How many bytes of the ClientHello precede a record that is not the first.
def Boundary (s : HelloStream) (b : Nat) : Prop :=
  ∃ before r after, s.records = before ++ r :: after ∧ before ≠ [] ∧ b = (bodies before).length

end HelloStream

namespace HelloStream

variable (s : HelloStream)

theorem records_ne_nil : s.records ≠ [] := by
  intro hnil
  have hlen := s.hello.length
  rw [hnil] at hlen
  exact absurd hlen (by simp [bodies])

theorem length_whole : s.whole.length = 5 + (bodies s.records).length + s.rest.length := by
  rw [whole, oneRecord, List.length_append, List.length_append]
  rfl

theorem whole_cap : s.whole.length ≤ TLS_CLIENTHELLO_CAP := by
  have hfits := s.fits
  have hcount := List.length_pos_iff.mpr s.records_ne_nil
  rw [List.length_append, length_frames] at hfits
  rw [length_whole, TLS_CLIENTHELLO_CAP]
  unfold BUFFER_SIZE at hfits
  omega

theorem agree_whole : Agree (oneRecord (bodies s.records)) s.whole 5 (5 + (bodies s.records).length) := by
  have hlen : (oneRecord (bodies s.records)).length = 5 + (bodies s.records).length := by
    rw [oneRecord, List.length_append]
    rfl
  rw [← hlen]
  exact agree_append _ _ _

theorem whole_byte {i : Nat} (hi : i < (bodies s.records).length) :
    byte s.whole (5 + i) = byte (bodies s.records) i := by
  rw [← s.agree_whole.same _ (by omega) (by omega), oneRecord, byte_append,
    if_neg (by simp [header]), show (header 0x16 3 1 (bodies s.records).length).length = 5 from rfl,
    Nat.add_sub_cancel_left]

theorem whole_hello : byte s.whole 5 = 0x01 ∧ be24 s.whole 6 + 4 = (bodies s.records).length := by
  have hlen := s.hello.length
  have h₀ := s.whole_byte (i := 0) (by omega)
  have h₁ := s.whole_byte (i := 1) (by omega)
  have h₂ := s.whole_byte (i := 2) (by omega)
  have h₃ := s.whole_byte (i := 3) (by omega)
  refine ⟨h₀.trans s.hello.type, ?_⟩
  rw [← hlen, be24, be24, be16, be16, h₁, h₂, h₃]

-- Up to the end of the ClientHello there is no length field that reaches beyond it.
theorem whole_block (cut : Nat) (hcut : cut ≤ 5 + (bodies s.records).length) :
    (compressionEnd s.whole < cut → be16 s.whole (compressionEnd s.whole) < 16384) ∧
      (extensionsStart s.whole ≤ cut → extensionsEnd s.whole ≤ s.whole.length) := by
  have hagree := s.agree_whole
  have hcap := s.whole_cap
  have hwhole := s.length_whole
  have hlen : (oneRecord (bodies s.records)).length = 5 + (bodies s.records).length := by
    rw [oneRecord, List.length_append]
    rfl
  have hc44 : 44 ≤ compressionEnd (oneRecord (bodies s.records)) := by
    unfold compressionEnd ciphersEnd sessionEnd
    omega
  rcases s.hello.blocks with hplain | hextended
  · have hc := hagree.compressionEnd_eq (by omega) (by omega)
    unfold extensionsStart
    exact ⟨fun h => by omega, fun h => by omega⟩
  · have hstart := start_le_end (oneRecord (bodies s.records))
    have hc := hagree.compressionEnd_eq (by omega) (by unfold extensionsStart at hstart; omega)
    have hb := hagree.be16_eq (i := compressionEnd (oneRecord (bodies s.records))) (by omega)
      (by unfold extensionsStart at hstart; omega)
    unfold extensionsEnd extensionsStart at hextended ⊢
    rw [hc, ← hb]
    unfold TLS_CLIENTHELLO_CAP at hcap
    exact ⟨fun _ => by omega, fun _ => by omega⟩

-- A chunk that ends inside the header of a record that is not the first.
theorem headerCut {before after : List HandshakeRecord} {r : HandshakeRecord} {head : Bytes} {j : Nat}
    (hsplit : s.records = before ++ r :: after) (hhead : head.length = 5) (hj : 1 ≤ j) (hj' : j ≤ 4) :
    HeaderCut (head ++ (bodies before ++ r.head.take j)) s.whole (5 + (bodies before).length) := by
  have hbodies : bodies s.records = bodies before ++ (r.body ++ bodies after) := by
    rw [hsplit, bodies_append, bodies_cons]
  have hshort : (bodies before).length ≤ (bodies s.records).length := by
    rw [hbodies, List.length_append]
    omega
  have htake : (r.head.take j).length = j := by
    rw [List.length_take, HandshakeRecord.length_head]
    omega
  have hlen : (head ++ (bodies before ++ r.head.take j)).length = 5 + (bodies before).length + j := by
    simp only [List.length_append, hhead, htake]
    omega
  have hlast : ∀ i < j, byte (head ++ (bodies before ++ r.head.take j))
      (5 + (bodies before).length + i) = byte r.head i := by
    intro i hi
    rw [byte_append, if_neg (by omega), byte_append, if_neg (by omega), byte_take, if_pos (by omega)]
    congr 1
    omega
  have hwhole := s.length_whole
  refine ⟨⟨by omega, by omega, ?_⟩, by omega, by omega, ?_, ?_, ?_⟩
  · intro i hlow hhigh
    obtain ⟨k, rfl⟩ := Nat.exists_eq_add_of_le hlow
    rw [s.whole_byte (by omega), hbodies, byte_append, if_neg (by omega), byte_append, if_pos (by omega),
      byte_append, if_pos (by omega), hhead, Nat.add_sub_cancel_left]
  · exact hlast 0 (by omega)
  · intro h
    exact hlast 1 (by omega)
  · intro h
    rw [hlast 2 (by omega)]
    exact r.version

theorem boundary_le {b : Nat} (hb : s.Boundary b) : b ≤ (bodies s.records).length := by
  obtain ⟨before, r, after, hsplit, -, rfl⟩ := hb
  rw [hsplit, bodies_append, List.length_append]
  omega

end HelloStream

section Cut

variable {s : HelloStream} {a : Bytes} {b : Nat}

-- From the third byte on the header of the next record does not spoil the length of
-- the message.
theorem cut_hello (h : HeaderCut a s.whole (5 + b)) (hb : 2 ≤ b) :
    9 ≤ a.length → byte a 5 = 0x01 ∧ be24 a 6 ≤ TLS_CLIENTHELLO_CAP := by
  intro hnine
  obtain ⟨htype, hlen⟩ := s.whole_hello
  have hcap := s.whole_cap
  have hwhole := s.length_whole
  have h₂₂ := h.type_toNat
  have hthree := h.major_toNat
  rw [TLS_CLIENTHELLO_CAP] at hcap ⊢
  refine ⟨(h.agree.same 5 (by omega) (by omega)).trans htype, ?_⟩
  simp only [be24, be16, Nat.reduceAdd] at hlen ⊢
  rw [h.agree.same 6 (by omega) (by omega)]
  by_cases hb₂ : b = 2
  · subst hb₂
    simp only [Nat.reduceAdd] at h₂₂ hthree
    have := hthree (by omega)
    omega
  rw [h.agree.same 7 (by omega) (by omega)]
  by_cases hb₃ : b = 3
  · subst hb₃
    simp only [Nat.reduceAdd] at h₂₂
    omega
  rw [h.agree.same 8 (by omega) (by omega)]
  omega

-- Before the end of the extensions a cut leaves the answer open.
theorem cut_open (h : HeaderCut a s.whole (5 + b)) (hb : 2 ≤ b)
    (hbound : b ≤ (bodies s.records).length) (hrecord : byte a 0 = 0x16)
    (hcap : a.length ≤ TLS_CLIENTHELLO_CAP)
    (hopen : 5 + b < extensionsStart s.whole ∨ a.length < extensionsEnd s.whole) :
    verdictOf a = none := by
  obtain ⟨hblock, -⟩ := s.whole_block (5 + b) (by omega)
  have hun : Unfinished a := by
    by_cases hbefore : 5 + b < extensionsStart s.whole
    · exact h.unfinished_before hbefore hblock
    · refine h.unfinished_inside (by omega) (hblock ?_) (by omega)
      unfold extensionsStart at hbefore
      omega
  exact verdictOf_none (tlsParseClientHelloSni_truncated (by decide) hcap hrecord (cut_hello h hb) hun)

theorem slice_take (h : HeaderCut a s.whole (5 + b)) {offset len : Nat} (hlow : 5 ≤ offset)
    (hcut : offset ≤ 5 + b) :
    (slice a offset len).take (5 + b - offset) = (slice s.whole offset len).take (5 + b - offset) := by
  by_cases hlen : len ≤ 5 + b - offset
  · rw [h.agree.slice_eq hlow (by omega)]
  · have hslice : slice a offset (5 + b - offset) = slice s.whole offset (5 + b - offset) :=
      h.agree.slice_eq hlow (by omega)
    rwa [← take_slice a offset len _ (by omega), ← take_slice s.whole offset len _ (by omega)] at hslice

-- A host found behind a cut is the host of the whole ClientHello, and it ends
-- before the cut.
theorem cut_host (h : HeaderCut a s.whole (5 + b)) (hbound : b ≤ (bodies s.records).length)
    {offset len : Nat} (hhost : HostField a offset len) :
    HostField s.whole offset len ∧ cstr (slice a offset len) = cstr (slice s.whole offset len) ∧
      offset + min len ((cstr (slice s.whole offset len)).length + 1) ≤ 5 + b := by
  obtain ⟨hblock, hinside⟩ := s.whole_block (5 + b) (by omega)
  obtain ⟨hfield, hcut⟩ := h.field hhost.field hhost.pos rfl hblock hinside
  have hbounds := hfield.name.bounds
  have hstart := start_le_end s.whole
  have hends := hfield.fits
  have hbounds' := hhost.field.name.bounds
  have hends' := hhost.field.fits
  have hlen : (slice a offset len).length = len := length_slice_of_le _ _ _ (by omega)
  have hlen' : (slice s.whole offset len).length = len := length_slice_of_le _ _ _ (by omega)
  have hknown : min len ((cstr (slice a offset len)).length + 1) ≤ 5 + b - offset := by
    by_cases hall : len ≤ 5 + b - offset
    · omega
    · have hbyte : byte (slice a offset len) (5 + b - offset) = 0x16 := by
        rw [byte_slice _ _ _ _ (by omega), Nat.add_sub_cancel' hcut, h.type]
      have := host_ends_before (n := 5 + b - offset) (by rw [hlen]; omega) (by rw [hbyte]; decide)
        (by rw [hbyte]; decide) hhost.host.2
      omega
  have hcstr := cstr_eq_of_take (hlen.trans hlen'.symm) (slice_take h (by omega) hcut)
    (by rw [hlen]; exact hknown)
  refine ⟨⟨hfield, hhost.pos, hhost.size, ?_⟩, hcstr, ?_⟩
  · rw [IsHost, ← hcstr]
    exact hhost.host
  · rw [← hcstr]
    omega

-- The host of the whole ClientHello is found behind a cut when it ends before it.
theorem host_of_whole (h : HeaderCut a s.whole (5 + b)) (hrecord : byte a 0 = 0x16)
    {offset len : Nat} (hhost : HostField s.whole offset len) (hend : extensionsEnd s.whole ≤ a.length)
    (hknown : offset + min len ((cstr (slice s.whole offset len)).length + 1) ≤ 5 + b) :
    HostField a offset len := by
  have hfield := h.field_of_whole hhost.field hrecord (by omega) hend
  have hbounds := hhost.field.name.bounds
  have hstart := start_le_end s.whole
  have hends := hhost.field.fits
  have hlen : (slice a offset len).length = len := length_slice_of_le _ _ _ (by omega)
  have hlen' : (slice s.whole offset len).length = len := length_slice_of_le _ _ _ (by omega)
  have hcstr := cstr_eq_of_take (hlen'.trans hlen.symm) (slice_take h (by omega) (by omega)).symm
    (by rw [hlen']; omega)
  refine ⟨hfield, hhost.pos, hhost.size, ?_⟩
  rw [IsHost, ← hcstr]
  exact hhost.host

-- A header in the first two bytes is read as the type or the length of the message.
theorem cut_early (h : HeaderCut a s.whole (5 + b)) (hb : b < 2) (hrecord : byte a 0 = 0x16)
    (hcap : a.length ≤ TLS_CLIENTHELLO_CAP) (hnine : 9 ≤ a.length) : verdictOf a = some [] := by
  have htype := h.type
  have h₂₂ := h.type_toNat
  rw [verdictOf, tlsParseClientHelloSni_eq]
  simp only [require_bind]
  rw [if_pos (by decide), if_pos hcap, if_pos (by omega), if_pos hrecord, if_pos hnine]
  by_cases hzero : b = 0
  · subst hzero
    rw [Nat.add_zero] at htype
    rw [htype, if_neg (by decide)]
  · obtain rfl : b = 1 := by omega
    simp only [Nat.reduceAdd] at h₂₂
    rw [h.agree.same 5 (by omega) (by omega), s.whole_hello.1, if_pos rfl, if_neg]
    rw [be24, be16, TLS_CLIENTHELLO_CAP]
    omega

end Cut

end DpiProxy.Transparent
