import DpiProxy.Transparent.Hello.Stream

namespace DpiProxy.Transparent

open Wire Packet Tls Relay Record

theorem helloVerdict_shown {p view : Bytes} (h : Shown p view BUFFER_SIZE) :
    ∃ head : Bytes, head.length = 5 ∧ byte head 0 = 0x16 ∧ helloVerdict p = verdictOf (head ++ view) := by
  obtain ⟨head, hlen, hbyte, hdata⟩ := h
  exact ⟨head, hlen, hbyte, by rw [helloVerdict_eq, hdata]⟩

namespace HelloStream

variable (s : HelloStream)

theorem whole_eq : s.whole = header 0x16 3 1 (bodies s.records).length ++ (bodies s.records ++ s.rest) := by
  rw [whole, oneRecord, List.append_assoc]

theorem bodies_cap : (bodies s.records).length ≤ 16384 := by
  have hcap := s.whole_cap
  rw [length_whole, TLS_CLIENTHELLO_CAP] at hcap
  omega

-- A beginning that shows a beginning of the handshake bytes has the final verdict.
theorem verdict_of_shown {p view host : Bytes} (more : Bytes) (h : Shown p view BUFFER_SIZE)
    (hview : view ++ more = bodies s.records ++ s.rest) (hv : helloVerdict p = some host) :
    verdictOf s.whole = some host := by
  obtain ⟨head, hlen, hbyte, heq⟩ := helloVerdict_shown h
  have hcap := s.whole_cap
  rw [heq] at hv
  rw [whole_eq, ← hview] at hcap ⊢
  exact verdictOf_settles hlen rfl hbyte hcap hv

theorem rest_after {j : Nat} : ¬(5 ≤ (s.rest.take j).length ∧ byte (s.rest.take j) 0 = 0x16) := by
  rintro ⟨hlen, hbyte⟩
  have hafter := s.after
  rw [List.length_take] at hlen
  rw [byte_take, if_pos (by omega)] at hbyte
  cases hrest : s.rest with
  | nil =>
      rw [hrest, List.length_nil] at hlen
      omega
  | cons b rest =>
      rw [hrest] at hbyte hafter
      exact hafter (congrArg some hbyte)

theorem shown_bytes : Shown s.bytes (bodies s.records ++ s.rest) BUFFER_SIZE := by
  have hrest := s.rest_after (j := s.rest.length)
  rw [List.take_length] at hrest
  exact shown_whole BUFFER_SIZE s.records_ne_nil hrest s.fits s.bodies_cap

theorem verdict_bytes : helloVerdict s.bytes = verdictOf s.whole := by
  obtain ⟨head, hlen, hbyte, heq⟩ := helloVerdict_shown s.shown_bytes
  have hcap := s.whole_cap
  rw [length_whole] at hcap
  have hparse := tlsParseClientHelloSni_head (bodies s.records ++ s.rest) TLS_SNI_HOST_MAX hlen
    (b := header 0x16 3 1 (bodies s.records).length) rfl hbyte
    (by rw [List.length_append]; omega)
  rw [heq, whole_eq, verdictOf, verdictOf, hparse]

-- No boundary lies where the next header is read as a part of the ClientHello that
-- decides about the host: in the first two bytes, or in the last four bytes of the
-- extensions before the host is complete.
def HeadersApart : Prop :=
  ∀ offset len, HostField s.whole offset len → ∀ b, s.Boundary b →
    2 ≤ b ∧ (extensionsEnd s.whole ≤ 5 + b + 4 →
      offset + min len ((cstr (slice s.whole offset len)).length + 1) ≤ 5 + b)

variable {s}

-- A chunk that ends in a header shows the handshake bytes before it and the bytes
-- of the header.
theorem shown_header {before after : List HandshakeRecord} {r : HandshakeRecord} {j : Nat}
    (hsplit : s.records = before ++ r :: after) (hne : before ≠ []) (hj : j < 5) :
    Shown (frames before ++ r.head.take j) (bodies before ++ r.head.take j) BUFFER_SIZE := by
  have hfits := s.fits
  have hcap := s.bodies_cap
  have htake : (r.head.take j).length = j := by
    rw [List.length_take, HandshakeRecord.length_head]
    omega
  rw [hsplit, frames_append, frames_cons] at hfits
  rw [hsplit, bodies_append] at hcap
  simp only [List.length_append, HandshakeRecord.length_head] at hfits hcap
  apply shown_whole BUFFER_SIZE hne
  · rw [htake]
    omega
  · rw [List.length_append, htake]
    omega
  · omega

theorem short_none {p : Bytes} (h : p.length < 5) : helloVerdict p = none := by
  have hnone : tlsCoalesceHandshakeRecords p BUFFER_SIZE = none := by
    rw [tlsCoalesceHandshakeRecords, if_pos (Or.inl h)]
  rw [helloVerdict_eq, hnone, Option.getD_none]
  apply verdictOf_none
  rw [tlsParseClientHelloSni_eq, require_bind, if_pos (by decide), require_bind,
    if_pos (by rw [TLS_CLIENTHELLO_CAP]; omega), require_bind, if_neg (by omega)]

theorem cut_cap {before after : List HandshakeRecord} {r : HandshakeRecord} {head : Bytes} {j : Nat}
    (hsplit : s.records = before ++ r :: after) (hne : before ≠ []) (hhead : head.length = 5)
    (hj : j < 5) : (head ++ (bodies before ++ r.head.take j)).length ≤ TLS_CLIENTHELLO_CAP := by
  have hfits := s.fits
  have hcount := List.length_pos_iff.mpr hne
  rw [hsplit, frames_append, frames_cons, List.length_append, List.length_append,
    length_frames] at hfits
  simp only [List.length_append, HandshakeRecord.length_head, List.length_take] at hfits ⊢
  unfold BUFFER_SIZE at hfits
  unfold TLS_CLIENTHELLO_CAP
  omega

theorem verdict_whole_host {offset len : Nat} (h : HostField s.whole offset len) :
    verdictOf s.whole = some (cstr (slice s.whole offset len)) := by
  have hlen := s.whole_hello.2
  have hcap := s.bodies_cap
  exact verdictOf_host s.whole_cap (by rw [TLS_CLIENTHELLO_CAP]; omega) h

theorem verdict_whole_none (h : ¬∃ offset len, HostField s.whole offset len) :
    (verdictOf s.whole).getD [] = [] := by
  cases hv : verdictOf s.whole with
  | none => rfl
  | some host =>
      by_contra hne
      obtain ⟨offset, len, hhost, -⟩ := hostField_of_verdict hv hne
      exact h ⟨offset, len, hhost⟩

-- The chunk ends one to four bytes into the header of a record that is not the first.
theorem verdict_of_cut (h : s.HeadersApart) {before after : List HandshakeRecord} {r : HandshakeRecord}
    {j : Nat} (hsplit : s.records = before ++ r :: after) (hne : before ≠ []) (hpos : 1 ≤ j)
    (hj : j < 5) {host : Bytes} (hv : helloVerdict (frames before ++ r.head.take j) = some host) :
    host = (verdictOf s.whole).getD [] := by
  obtain ⟨head, hlen, hbyte, heq⟩ := helloVerdict_shown (shown_header hsplit hne hj)
  have hcut := s.headerCut hsplit hlen hpos (by omega)
  have hboundary : s.Boundary (bodies before).length := ⟨before, r, after, hsplit, hne, rfl⟩
  have hbound := s.boundary_le hboundary
  have hrecord : byte (head ++ (bodies before ++ r.head.take j)) 0 = 0x16 := by
    rw [byte_append, if_pos (by omega), hbyte]
  rw [heq] at hv
  have hcap := cut_cap hsplit hne hlen hj
  by_cases hhost : ∃ offset len, HostField s.whole offset len
  · obtain ⟨offset, len, hhost⟩ := hhost
    obtain ⟨htwo, hknown⟩ := h offset len hhost _ hboundary
    by_cases hopen : 5 + (bodies before).length < extensionsStart s.whole ∨
        (head ++ (bodies before ++ r.head.take j)).length < extensionsEnd s.whole
    · rw [cut_open hcut htwo hbound hrecord hcap hopen] at hv
      cases hv
    · have hpart := hcut.partly
      have hstart := start_le_end s.whole
      have hfound := host_of_whole hcut hrecord hhost (by omega) (hknown (by omega))
      obtain ⟨-, hcstr, -⟩ := cut_host hcut hbound hfound
      rw [verdictOf_host hcap (cut_hello hcut htwo (by omega)).2 hfound, hcstr] at hv
      rw [verdict_whole_host hhost, Option.getD_some]
      exact (Option.some.inj hv).symm
  · rw [verdict_whole_none hhost]
    by_contra hsome
    obtain ⟨offset, len, hfound, -⟩ := hostField_of_verdict hv hsome
    exact hhost ⟨offset, len, (cut_host hcut hbound hfound).1⟩

theorem verdict_of_apart (h : s.HeadersApart) {p more host : Bytes} (hp : p ++ more = s.bytes)
    (hv : helloVerdict p = some host) : host = (verdictOf s.whole).getD [] := by
  have hfits := s.fits
  have hcap := s.bodies_cap
  rcases frames_beginning s.records hp with ⟨before, r, after, j, hsplit, hj, rfl⟩ |
    ⟨before, r, after, k, hsplit, hk, rfl⟩ | ⟨j, rfl⟩
  · by_cases hfirst : before = []
    · subst hfirst
      have hshort : (frames [] ++ r.head.take j).length < 5 := by
        simp only [frames, List.flatMap_nil, List.nil_append, List.length_take]
        omega
      rw [short_none hshort] at hv
      cases hv
    by_cases hzero : j = 0
    · subst hzero
      have hshown := shown_header hsplit hfirst hj
      rw [List.take_zero, List.append_nil] at hv
      rw [List.take_zero, List.append_nil, List.append_nil] at hshown
      rw [s.verdict_of_shown (r.body ++ (bodies after ++ s.rest)) hshown ?_ hv, Option.getD_some]
      rw [hsplit, bodies_append, bodies_cons]
      simp only [List.append_assoc]
    · exact verdict_of_cut h hsplit hfirst (by omega) hj hv
  · rw [hsplit, frames_append, frames_cons] at hfits
    rw [hsplit, bodies_append, bodies_cons] at hcap
    simp only [List.length_append] at hfits hcap
    have hshown := shown_part before BUFFER_SIZE hk
      (by simp only [List.length_append]; omega) (by rw [List.length_append]; omega)
    rw [s.verdict_of_shown (r.body.drop k ++ (bodies after ++ s.rest)) hshown ?_ hv,
      Option.getD_some]
    rw [hsplit, bodies_append, bodies_cons]
    simp only [List.append_assoc]
    rw [← List.append_assoc (r.body.take k), List.take_append_drop]
  · have hshown := shown_whole BUFFER_SIZE s.records_ne_nil (s.rest_after (j := j)) ?_ hcap
    · rw [s.verdict_of_shown (s.rest.drop j) hshown ?_ hv, Option.getD_some]
      rw [List.append_assoc, List.take_append_drop]
    · rw [List.length_append, List.length_take]
      rw [List.length_append] at hfits
      omega

theorem apart_of_agree (h : ∀ p rest r, p ≠ [] → p ++ rest = s.bytes → helloVerdict p = some r →
    r = (helloVerdict s.bytes).getD []) : s.HeadersApart := by
  rintro offset len hhost b ⟨before, r, after, hsplit, hne, rfl⟩
  have hboundary : s.Boundary (bodies before).length := ⟨before, r, after, hsplit, hne, rfl⟩
  have hbound := s.boundary_le hboundary
  -- the chunk that ends four bytes into the header
  obtain ⟨head, hlen, hbyte, heq⟩ := helloVerdict_shown (shown_header hsplit hne (j := 4) (by omega))
  have hcut := s.headerCut hsplit hlen (j := 4) (by omega) (by omega)
  have hrecord : byte (head ++ (bodies before ++ r.head.take 4)) 0 = 0x16 := by
    rw [byte_append, if_pos (by omega), hbyte]
  have hlength : (head ++ (bodies before ++ r.head.take 4)).length = 5 + (bodies before).length + 4 := by
    simp only [List.length_append, List.length_take, HandshakeRecord.length_head, hlen]
    omega
  have hcap := cut_cap hsplit hne hlen (j := 4) (by omega)
  have hanswer : ∀ host, verdictOf (head ++ (bodies before ++ r.head.take 4)) = some host →
      host = cstr (slice s.whole offset len) := by
    intro host hv
    rw [h (frames before ++ r.head.take 4)
      (r.head.drop 4 ++ (r.body ++ (frames after ++ s.rest))) host ?_ ?_ (heq.trans hv),
      s.verdict_bytes, verdict_whole_host hhost, Option.getD_some]
    · have hpos := (frames_starts before hne (r.head.take 4)).1
      exact List.length_pos_iff.mp (by omega)
    · rw [bytes, hsplit, frames_append, frames_cons]
      simp only [List.append_assoc]
      rw [← List.append_assoc (r.head.take 4), List.take_append_drop]
  have hsome := hhost.host.1
  constructor
  · by_contra hearly
    exact hsome (hanswer [] (cut_early hcut (by omega) hrecord hcap (by omega))).symm
  · intro hend
    have hbounds := hhost.field.name.bounds
    have hpos := hhost.pos
    obtain ⟨-, hstop⟩ := hcut.block_eq (by omega)
    cases hv : verdictOf (head ++ (bodies before ++ r.head.take 4)) with
    | none => exact absurd hv (verdictOf_ne_none (by omega))
    | some host =>
        have hhost' := hanswer host hv
        obtain ⟨offset', len', hfound, -⟩ := hostField_of_verdict hv (by rwa [hhost'])
        obtain ⟨hwhole, -, hknown⟩ := cut_host hcut hbound hfound
        obtain ⟨rfl, rfl⟩ := hwhole.field.name.unique hhost.field.name
        exact hknown

end HelloStream

theorem readClientHello_host {arrivals : List Arrival} {s : HelloStream} (htime : InTime arrivals)
    (hbytes : (chunksOf arrivals).flatten = s.bytes) :
    (readClientHello arrivals).host = (Chunks.read helloVerdict [] (chunksOf arrivals)).getD [] :=
  collectHello_host [] htime (by rw [List.nil_append, hbytes]; exact s.fits)

theorem inTime_chunks (chunks : List Bytes) (hne : ∀ chunk ∈ chunks, chunk ≠ []) :
    InTime (chunks.map (.data · false)) := by
  intro a ha
  obtain ⟨chunk, hc, rfl⟩ := List.mem_map.mp ha
  exact .inr ⟨chunk, rfl, hne chunk hc⟩

theorem chunksOf_map (chunks : List Bytes) : chunksOf (chunks.map (.data · false)) = chunks := by
  induction chunks with
  | nil => rfl
  | cons chunk chunks ih => rw [List.map_cons, chunksOf, ih]

-- All chunkings of a ClientHello leave one host exactly when no record header lies
-- where it is read as a deciding part of the message.
theorem readClientHello_chunking_iff (s : HelloStream) :
    (∀ arrivals arrivals', InTime arrivals → InTime arrivals' →
      (chunksOf arrivals).flatten = s.bytes → (chunksOf arrivals').flatten = s.bytes →
      (readClientHello arrivals).host = (readClientHello arrivals').host) ↔ s.HeadersApart := by
  have hchunks := Chunks.agree_iff helloVerdict s.bytes []
  constructor
  · intro h
    refine HelloStream.apart_of_agree (hchunks.mp ?_)
    intro chunks chunks' hne hne' hflat hflat'
    have hsame := h (chunks.map (.data · false)) (chunks'.map (.data · false)) (inTime_chunks chunks hne)
      (inTime_chunks chunks' hne') (by rwa [chunksOf_map]) (by rwa [chunksOf_map])
    rwa [readClientHello_host (s := s) (inTime_chunks chunks hne) (by rwa [chunksOf_map]),
      readClientHello_host (s := s) (inTime_chunks chunks' hne') (by rwa [chunksOf_map]),
      chunksOf_map, chunksOf_map] at hsame
  · intro h arrivals arrivals' htime htime' hflat hflat'
    rw [readClientHello_host htime hflat, readClientHello_host htime' hflat']
    refine hchunks.mpr ?_ _ _ (chunksOf_ne_nil htime) (chunksOf_ne_nil htime') hflat hflat'
    intro p rest host _ hp hv
    rw [s.verdict_bytes]
    exact HelloStream.verdict_of_apart h hp hv

-- A ClientHello for the host "a", its first byte in a record of its own.
def splitHello : HelloStream where
  records := [⟨1, [1], by decide⟩,
    ⟨1, [0, 0, 53, 3, 3] ++ List.replicate 32 0 ++
      [0, 0, 2, 0x13, 1, 1, 0, 0, 10, 0, 0, 0, 6, 0, 4, 0, 0, 1, 97], by decide⟩]
  rest := []
  hello := ⟨by decide, by decide +kernel, .inr (by decide +kernel)⟩
  after := by decide
  fits := by decide +kernel

-- A chunk that ends three bytes into the second header costs the host.
theorem splitHello_loses_host :
    let first := [.data (splitHello.bytes.take 9) false, .data (splitHello.bytes.drop 9) false]
    let second := [.data splitHello.bytes false]
    InTime first ∧ InTime second ∧ (chunksOf first).flatten = splitHello.bytes ∧
      (chunksOf second).flatten = splitHello.bytes ∧
      (readClientHello first).host = [] ∧ (readClientHello second).host = [97] := by
  refine ⟨?_, ?_, by decide +kernel, by decide +kernel, by decide +kernel, by decide +kernel⟩
  · refine inTime_chunks [splitHello.bytes.take 9, splitHello.bytes.drop 9] ?_
    decide +kernel
  · refine inTime_chunks [splitHello.bytes] ?_
    decide +kernel

end DpiProxy.Transparent
