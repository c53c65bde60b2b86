import DpiProxy.Tls.Sni.Theorems

namespace DpiProxy.Tls

open Wire Packet

-- The name field that the extensions loop stops at.
theorem parseSniExtension_ok_iff (data : Bytes) (hostOutSize pos stop : Nat) (name : Bytes) :
    parseSniExtension data hostOutSize pos stop = .ok name ↔
      ∃ offset len, FirstServerName data stop pos offset len ∧ 0 < len ∧ len < hostOutSize ∧
        name = slice data offset len := by
  constructor
  · intro h
    induction hleft : stop - pos using Nat.strongRecOn generalizing pos with
    | _ left ih =>
        rw [parseSniExtension] at h
        dsimp only at h
        split_ifs at h with header fits type entry kind inside size
        · refine ⟨_, _, .here header (by omega) type (by omega) (by simpa using kind) (by omega), ?_⟩
          exact ⟨by omega, by omega, (Except.ok.inj h).symm⟩
        · obtain ⟨offset, len, hname, hrest⟩ := ih _ (by omega) _ h rfl
          exact ⟨offset, len, .skip header (by omega) type hname, hrest⟩
  · rintro ⟨offset, len, hname, hpos, hsize, rfl⟩
    induction hname with
    | here header fits type entry hostName inside =>
        rw [parseSniExtension, if_pos header]
        dsimp only
        rw [if_neg (by omega), if_pos type, if_neg (by omega), if_neg (by simp [hostName]),
          if_neg (by omega), if_neg (by omega)]
    | skip header fits type next ih =>
        rw [parseSniExtension, if_pos header]
        dsimp only
        rw [if_neg (by omega), if_neg type]
        exact ih hpos hsize

theorem require_bind_ok {α : Type} {cond : Prop} [Decidable cond] {status : PacketError}
    {f : Unit → Result α} {a : α} :
    (require cond status >>= f) = .ok a ↔ cond ∧ f () = .ok a := by
  rw [require_bind]
  by_cases h : cond
  · rw [if_pos h, and_iff_right h]
  · rw [if_neg h]
    exact iff_of_false (fun he => by cases he) fun hc => h hc.1

theorem require_bind_ne_truncated {α : Type} {cond : Prop} [Decidable cond] {status : PacketError}
    {f : Unit → Result α} (h : status = .truncated → cond) (hf : f () ≠ .error .truncated) :
    (require cond status >>= f) ≠ .error .truncated := by
  rw [require_bind]
  by_cases hc : cond
  · rwa [if_pos hc]
  · rw [if_neg hc]
    intro he
    exact hc (h (Except.error.inj he))

theorem start_le_end (data : Bytes) : 49 ≤ extensionsStart data ∧
    extensionsStart data ≤ extensionsEnd data := by
  unfold extensionsEnd extensionsStart compressionEnd ciphersEnd sessionEnd
  omega

theorem sniField_of_ok {data : Bytes} {hostOutSize : Nat} {name : Bytes}
    (h : tlsParseClientHelloSni data hostOutSize = .ok name) :
    ∃ offset len, SniField data offset len ∧ 0 < len ∧ len < hostOutSize ∧
      name = slice data offset len := by
  rw [tlsParseClientHelloSni_eq] at h
  simp only [require_bind_ok] at h
  obtain ⟨-, -, -, record, -, hello, -, -, -, fits, h⟩ := h
  obtain ⟨offset, len, hname, hrest⟩ := (parseSniExtension_ok_iff _ _ _ _ _).mp h
  exact ⟨offset, len, ⟨record, hello, fits, hname⟩, hrest⟩

theorem message_of_ok {data : Bytes} {hostOutSize : Nat} {name : Bytes}
    (h : tlsParseClientHelloSni data hostOutSize = .ok name) : be24 data 6 ≤ TLS_CLIENTHELLO_CAP := by
  rw [tlsParseClientHelloSni_eq] at h
  simp only [require_bind_ok] at h
  exact h.2.2.2.2.2.2.1

theorem ok_of_sniField {data : Bytes} {hostOutSize offset len : Nat}
    (hcap : data.length ≤ TLS_CLIENTHELLO_CAP) (hlen : be24 data 6 ≤ TLS_CLIENTHELLO_CAP)
    (h : SniField data offset len) (hpos : 0 < len) (hsize : len < hostOutSize) :
    tlsParseClientHelloSni data hostOutSize = .ok (slice data offset len) := by
  have hstart := start_le_end data
  have hfits := h.fits
  have hblock : be16 data (compressionEnd data) ≤ TLS_CLIENTHELLO_CAP := by
    unfold extensionsEnd at hfits
    omega
  rw [tlsParseClientHelloSni_eq]
  simp only [require_bind]
  rw [if_pos (by omega), if_pos hcap, if_pos (by omega), if_pos h.record, if_pos (by omega),
    if_pos h.hello, if_pos hlen, if_pos (by omega), if_pos hblock, if_pos hfits]
  exact (parseSniExtension_ok_iff _ _ _ _ _).mpr ⟨offset, len, h.name, hpos, hsize, rfl⟩

theorem FirstServerName.bounds {data : Bytes} {stop pos offset len : Nat}
    (h : FirstServerName data stop pos offset len) : pos + 9 ≤ offset ∧ offset + len ≤ stop := by
  induction h with
  | here header fits type entry hostName inside => omega
  | skip header fits type next ih => omega

theorem FirstServerName.unique {data : Bytes} {stop pos offset len offset' len' : Nat}
    (h : FirstServerName data stop pos offset len)
    (h' : FirstServerName data stop pos offset' len') : offset = offset' ∧ len = len' := by
  induction h with
  | here header fits type entry hostName inside =>
      cases h' with
      | here => exact ⟨rfl, rfl⟩
      | skip _ _ type' => exact absurd type type'
  | skip header fits type next ih =>
      cases h' with
      | here _ _ type' => exact absurd type' type
      | skip _ _ _ next' => exact ih next'

-- Everything that leads to the name lies before it.
theorem FirstServerName.congr {a b : Bytes} {start behind stop pos offset len : Nat}
    (h : FirstServerName a stop pos offset len) (hagree : Agree a b start behind)
    (hpos : start ≤ pos) (hname : offset ≤ behind) : FirstServerName b stop pos offset len := by
  induction h with
  | @here pos header fits type entry hostName inside =>
      have htype := hagree.be16_eq (i := pos) (by omega) (by omega)
      have hlen := hagree.be16_eq (i := pos + 2) (by omega) (by omega)
      have hkind := hagree.same (pos + 4 + 2) (by omega) (by omega)
      have hinside := hagree.be16_eq (i := pos + 4 + 3) (by omega) (by omega)
      rw [htype] at type
      rw [hlen] at fits entry
      rw [hkind] at hostName
      rw [hlen, hinside] at inside
      rw [hinside]
      exact .here header fits type entry hostName inside
  | @skip pos offset len header fits type next ih =>
      have hbounds := next.bounds
      have htype := hagree.be16_eq (i := pos) (by omega) (by omega)
      have hlen := hagree.be16_eq (i := pos + 2) (by omega) (by omega)
      have hnext := ih (by omega) hname
      rw [htype] at type
      rw [hlen] at fits hnext
      exact .skip header fits type hnext

-- The parser reads the content type of the record and nothing else of its header.
theorem tlsParseClientHelloSni_head {a b : Bytes} (view : Bytes) (hostOutSize : Nat) (ha : a.length = 5)
    (hb : b.length = 5) (hfirst : byte a 0 = byte b 0)
    (hcap : 5 + view.length ≤ TLS_CLIENTHELLO_CAP) :
    tlsParseClientHelloSni (a ++ view) hostOutSize = tlsParseClientHelloSni (b ++ view) hostOutSize := by
  have hlen : ∀ h : Bytes, h.length = 5 → (h ++ view).length = 5 + view.length := by
    intro h hh
    rw [List.length_append, hh]
  have hbyte : ∀ h : Bytes, h.length = 5 → byte (h ++ view) 0 = byte h 0 := by
    intro h hh
    rw [byte_append, if_pos (by omega)]
  have hagree : Agree (a ++ view) (b ++ view) 5 (5 + view.length) := by
    refine ⟨(hlen a ha).ge, (hlen b hb).ge, ?_⟩
    intro i hlow _
    rw [byte_append, byte_append, if_neg (by omega), if_neg (by omega), ha, hb]
  have hab := tlsParseClientHelloSni_settles (a := a ++ view) (b := b ++ view) hostOutSize
    (fun _ => by rw [hbyte a ha, hbyte b hb, hfirst]) (by rwa [hlen a ha]) (by rwa [hlen b hb])
  have hba := tlsParseClientHelloSni_settles (a := b ++ view) (b := a ++ view) hostOutSize
    (fun _ => by rw [hbyte a ha, hbyte b hb, hfirst]) (by rw [hlen b hb]; exact hagree.symm)
    (by rwa [hlen a ha])
  by_cases htrunc : tlsParseClientHelloSni (a ++ view) hostOutSize = .error .truncated
  · by_contra hne
    exact hne (hba fun h => hne (htrunc.trans h.symm))
  · exact (hab htrunc).symm

-- A ClientHello that has not arrived up to the end of its extensions.
def Unfinished (data : Bytes) : Prop :=
  data.length < extensionsStart data ∨
    (be16 data (compressionEnd data) ≤ TLS_CLIENTHELLO_CAP ∧ data.length < extensionsEnd data)

theorem tlsParseClientHelloSni_truncated {data : Bytes} {hostOutSize : Nat} (hsize : hostOutSize ≠ 0)
    (hcap : data.length ≤ TLS_CLIENTHELLO_CAP) (hrecord : byte data 0 = 0x16)
    (hhello : 9 ≤ data.length → byte data 5 = 0x01 ∧ be24 data 6 ≤ TLS_CLIENTHELLO_CAP)
    (h : Unfinished data) : tlsParseClientHelloSni data hostOutSize = .error .truncated := by
  rw [tlsParseClientHelloSni_eq]
  simp only [require_bind]
  rw [if_pos hsize, if_pos hcap, if_pos hrecord]
  by_cases hnine : 9 ≤ data.length
  · rw [if_pos (by omega), if_pos hnine, if_pos (hhello hnine).1, if_pos (hhello hnine).2]
    rcases h with hstart | ⟨hblock, hend⟩
    · rw [if_neg (by omega)]
    · rw [if_pos hblock, if_neg (by omega : ¬extensionsEnd data ≤ data.length), ite_self]
  · rw [if_neg hnine, ite_self]

theorem parseSniExtension_ne_truncated (data : Bytes) (hostOutSize pos stop : Nat) :
    parseSniExtension data hostOutSize pos stop ≠ .error .truncated := by
  induction hleft : stop - pos using Nat.strongRecOn generalizing pos with
  | _ left ih =>
      rw [parseSniExtension]
      dsimp only
      split_ifs
      all_goals first | exact ih _ (by omega) _ rfl | (intro h; cases h)

-- With the whole block there the answer is final.
theorem tlsParseClientHelloSni_ne_truncated {data : Bytes} (hostOutSize : Nat)
    (h : extensionsEnd data ≤ data.length) :
    tlsParseClientHelloSni data hostOutSize ≠ .error .truncated := by
  have hstart := start_le_end data
  rw [tlsParseClientHelloSni_eq]
  refine require_bind_ne_truncated nofun ?_
  refine require_bind_ne_truncated nofun ?_
  refine require_bind_ne_truncated (fun _ => by omega) ?_
  refine require_bind_ne_truncated nofun ?_
  refine require_bind_ne_truncated (fun _ => by omega) ?_
  refine require_bind_ne_truncated nofun ?_
  refine require_bind_ne_truncated nofun ?_
  refine require_bind_ne_truncated (fun _ => by omega) ?_
  refine require_bind_ne_truncated nofun ?_
  refine require_bind_ne_truncated (fun _ => h) ?_
  exact parseSniExtension_ne_truncated _ _ _ _

-- A buffer that is cut short and then ends in one to four bytes of the header of
-- the next handshake record.
structure HeaderCut (cutOff whole : Bytes) (cut : Nat) : Prop where
  agree : Agree cutOff whole 5 cut
  started : cut < cutOff.length
  partly : cutOff.length ≤ cut + 4
  type : byte cutOff cut = 0x16
  major : cut + 1 < cutOff.length → byte cutOff (cut + 1) = 3
  minor : cut + 2 < cutOff.length →
    1 ≤ (byte cutOff (cut + 2)).toNat ∧ (byte cutOff (cut + 2)).toNat ≤ 4

section HeaderCut

variable {a w : Bytes} {cut : Nat}

theorem HeaderCut.type_toNat (h : HeaderCut a w cut) : (byte a cut).toNat = 22 := by
  rw [h.type]
  rfl

theorem HeaderCut.major_toNat (h : HeaderCut a w cut) (hlen : cut + 1 < a.length) :
    (byte a (cut + 1)).toNat = 3 := by
  rw [h.major hlen]
  rfl

-- The header bytes do not complete a length field: read as a length they ask for
-- more bytes than there are. First the session id, the ciphers and the compression
-- methods.
theorem HeaderCut.before_compression (h : HeaderCut a w cut) (hbefore : cut ≤ ciphersEnd w) :
    a.length < extensionsStart a := by
  have hpart := h.partly
  have htype := h.type_toNat
  by_cases hsession : cut ≤ 44
  · have := start_le_end a
    omega
  have hs : sessionEnd w = sessionEnd a := by
    rw [sessionEnd, sessionEnd, h.agree.same 43 (by omega) (by omega)]
  have hs44 : 44 ≤ sessionEnd a := Nat.le_add_right _ _
  unfold extensionsStart compressionEnd
  by_cases hciphers : cut ≤ sessionEnd a
  · unfold ciphersEnd
    omega
  by_cases hlow : cut = sessionEnd a + 1
  · rw [hlow] at htype
    unfold ciphersEnd be16
    omega
  have hc : ciphersEnd w = ciphersEnd a := by
    rw [ciphersEnd, ciphersEnd, hs, h.agree.be16_eq (by omega) (by omega)]
  rw [hc] at hbefore
  by_cases hhere : cut = ciphersEnd a
  · rw [hhere] at htype
    omega
  by_cases hnext : cut + 1 = ciphersEnd a ∧ cut + 1 < a.length
  · have hmajor := h.major_toNat hnext.2
    rw [hnext.1] at hmajor
    omega
  omega

theorem HeaderCut.compressionEnd_eq (h : HeaderCut a w cut) (hafter : ciphersEnd w < cut) :
    compressionEnd a = compressionEnd w := by
  have hs44 : 44 ≤ sessionEnd w := Nat.le_add_right _ _
  unfold ciphersEnd at hafter
  have hs : sessionEnd a = sessionEnd w := by
    rw [sessionEnd, sessionEnd, h.agree.same 43 (by omega) (by omega)]
  have hc : ciphersEnd a = ciphersEnd w := by
    rw [ciphersEnd, ciphersEnd, hs, h.agree.be16_eq (by omega) (by omega)]
  rw [compressionEnd, compressionEnd, hc,
    h.agree.same (ciphersEnd w) (by unfold ciphersEnd; omega) (by unfold ciphersEnd; omega)]

-- Then the length of the extensions block.
theorem HeaderCut.unfinished_before (h : HeaderCut a w cut) (hbefore : cut < extensionsStart w)
    (hblock : compressionEnd w < cut → be16 w (compressionEnd w) < 16384) : Unfinished a := by
  by_cases hcompression : cut ≤ ciphersEnd w
  · exact Or.inl (h.before_compression hcompression)
  have hc := h.compressionEnd_eq (by omega)
  have hc44 : 44 ≤ compressionEnd w := by
    unfold compressionEnd ciphersEnd sessionEnd
    omega
  have hpart := h.partly
  have htype := h.type_toNat
  unfold Unfinished extensionsEnd extensionsStart TLS_CLIENTHELLO_CAP
  unfold extensionsStart at hbefore
  rw [hc]
  by_cases hshort : a.length < compressionEnd w + 2
  · exact Or.inl hshort
  right
  have hlow : cut = compressionEnd w + 1 ∨ cut = compressionEnd w ∨ cut + 1 = compressionEnd w ∨
      cut + 2 = compressionEnd w := by omega
  unfold be16
  rcases hlow with hcut | hcut | hcut | hcut
  · have hbound := hblock (by omega)
    rw [be16] at hbound
    rw [hcut] at htype
    rw [htype, h.agree.same _ (by omega) (by omega)]
    omega
  · have hmajor := h.major_toNat (by omega)
    rw [hcut] at htype hmajor
    rw [htype, hmajor]
    omega
  · have hmajor := h.major_toNat (by omega)
    have hminor := h.minor (by omega)
    rw [hcut] at hmajor
    rw [show cut + 2 = compressionEnd w + 1 by omega] at hminor
    omega
  · have hminor := h.minor (by omega)
    have hlast := (byte a (compressionEnd w + 1)).toNat_lt
    rw [hcut] at hminor
    omega

theorem HeaderCut.block_eq (h : HeaderCut a w cut) (hinside : extensionsStart w ≤ cut) :
    extensionsStart a = extensionsStart w ∧ extensionsEnd a = extensionsEnd w := by
  have hc44 : 44 ≤ ciphersEnd w := by
    unfold ciphersEnd sessionEnd
    omega
  have hafter : ciphersEnd w < compressionEnd w := by
    unfold compressionEnd
    omega
  unfold extensionsEnd extensionsStart
  unfold extensionsStart at hinside
  rw [h.compressionEnd_eq (by omega), h.agree.be16_eq (by omega) (by omega)]
  exact ⟨rfl, rfl⟩

-- Behind the length of the block its bytes are missing.
theorem HeaderCut.unfinished_inside (h : HeaderCut a w cut) (hinside : extensionsStart w ≤ cut)
    (hblock : be16 w (compressionEnd w) < 16384) (hend : a.length < extensionsEnd w) :
    Unfinished a := by
  obtain ⟨hstart, hstop⟩ := h.block_eq hinside
  have hlen : extensionsStart a + be16 a (compressionEnd a) = extensionsEnd w := hstop
  have hlen' : extensionsStart w + be16 w (compressionEnd w) = extensionsEnd w := rfl
  refine Or.inr ⟨?_, by rw [hstop]; exact hend⟩
  unfold TLS_CLIENTHELLO_CAP
  omega

-- A name that is found lies before the cut.
theorem HeaderCut.name_before (h : HeaderCut a w cut) {stop pos offset len : Nat}
    (hname : FirstServerName a stop pos offset len) (hlen : 0 < len) (hstop : stop ≤ a.length) :
    offset ≤ cut := by
  have hpart := h.partly
  have htype := h.type_toNat
  induction hname with
  | @here pos header fits type entry hostName inside =>
      have hkind : (byte a (pos + 4 + 2)).toNat = 0 := by
        rw [hostName]
        rfl
      unfold be16 at inside hlen fits
      by_contra hlate
      have hcut : cut = pos + 4 + 2 ∨ cut = pos + 4 + 3 ∨ cut = pos + 4 + 3 + 1 := by omega
      rcases hcut with hcut | hcut | hcut
      · rw [hcut] at htype
        omega
      · rw [hcut] at htype
        omega
      · rw [hcut] at htype
        omega
  | skip header fits type next ih => exact ih hlen

-- The name is found in one buffer exactly when it is found in the other, up to the
-- cut.
theorem HeaderCut.field (h : HeaderCut a w cut) {offset len : Nat} (hfield : SniField a offset len)
    (hlen : 0 < len) (hrecord : byte w 0 = 0x16)
    (hblock : compressionEnd w < cut → be16 w (compressionEnd w) < 16384)
    (hwhole : extensionsStart w ≤ cut → extensionsEnd w ≤ w.length) :
    SniField w offset len ∧ offset ≤ cut := by
  have hcut := h.name_before hfield.name hlen hfield.fits
  have hbounds := hfield.name.bounds
  have hstart := start_le_end a
  have hinside : extensionsStart w ≤ cut := by
    by_contra hbefore
    have hfits := hfield.fits
    rcases h.unfinished_before (by omega) hblock with hun | ⟨-, hun⟩
    · omega
    · omega
  obtain ⟨hs, he⟩ := h.block_eq hinside
  have hname := hfield.name.congr h.agree (by omega) hcut
  rw [hs, he] at hname
  refine ⟨⟨hrecord, ?_, hwhole hinside, hname⟩, hcut⟩
  rw [← h.agree.same 5 (by omega) (by omega)]
  exact hfield.hello

theorem HeaderCut.field_of_whole (h : HeaderCut a w cut) {offset len : Nat}
    (hfield : SniField w offset len) (hrecord : byte a 0 = 0x16) (hcut : offset ≤ cut)
    (hend : extensionsEnd w ≤ a.length) : SniField a offset len := by
  have hbounds := hfield.name.bounds
  have hstart := start_le_end w
  obtain ⟨hs, he⟩ := h.block_eq (by omega)
  have hname := hfield.name.congr h.agree.symm (by omega) hcut
  rw [← hs, ← he] at hname
  refine ⟨hrecord, ?_, by omega, hname⟩
  rw [h.agree.same 5 (by omega) (by omega)]
  exact hfield.hello

end HeaderCut

end DpiProxy.Tls
