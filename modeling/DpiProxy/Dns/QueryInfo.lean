import DpiProxy.Dns.Exchange
import DpiProxy.Dns.Names
import DpiProxy.Wire.Cursor

namespace DpiProxy.Dns

open Wire

section Encode

theorem encodeLabels_wire (rest label first : Bytes) (more : List Bytes) (hsplit : rest.splitOn DOT = first :: more)
    (hok : LabelsOk ((label ++ first) :: more)) :
    (encodeLabels label rest).map (· ++ [0]) = some (wireLabels ((label ++ first) :: more)) := by
  induction rest generalizing label first more with
  | nil =>
      rw [List.splitOn_nil] at hsplit
      obtain ⟨rfl, rfl⟩ := List.cons.inj hsplit
      rw [List.append_nil] at hok ⊢
      obtain ⟨hpos, hle⟩ := hok label List.mem_cons_self
      rw [encodeLabels, if_neg (List.length_pos_iff.mp hpos), if_neg (by omega)]
      simp [wireLabels]
  | cons c rest ih =>
      obtain ⟨first', more', hrest⟩ : ∃ first' more', rest.splitOn DOT = first' :: more' :=
        List.exists_cons_of_ne_nil (List.splitOn_ne_nil _ _)
      rw [List.splitOn_cons_eq_if_modifyHead, hrest] at hsplit
      rw [encodeLabels]
      by_cases hdot : c = DOT
      · rw [if_pos (by simpa using hdot)] at hsplit
        obtain ⟨rfl, rfl⟩ := List.cons.inj hsplit
        rw [List.append_nil] at hok ⊢
        obtain ⟨hpos, hle⟩ := hok label List.mem_cons_self
        have hnext := ih [] first' more' hrest fun l hl => hok l (List.mem_cons_of_mem _ hl)
        obtain ⟨enc, henc, hwire⟩ := Option.map_eq_some_iff.mp hnext
        rw [List.nil_append] at hwire
        rw [if_pos hdot, if_neg (by omega), henc, wireLabels, ← hwire]
        simp
      · rw [if_neg (by simpa using hdot)] at hsplit
        obtain ⟨rfl, rfl⟩ := List.cons.inj hsplit
        have hmove : label ++ c :: first' = label ++ [c] ++ first' := List.append_cons label c first'
        rw [hmove] at hok ⊢
        rw [if_neg hdot]
        exact ih (label ++ [c]) first' more' hrest hok

-- The labels of a name.
def nameLabels (name : Bytes) : List Bytes := (withoutFinalDot name).splitOn DOT

theorem encodeName_valid {name : Bytes} (h : ValidName name) {outSize : Nat} (hsize : 255 ≤ outSize) :
    encodeName name outSize = some (wireLabels (nameLabels name)) := by
  obtain ⟨hne, hlen, hok⟩ := h
  obtain ⟨first, more, hsplit⟩ : ∃ first more, (withoutFinalDot name).splitOn DOT = first :: more :=
    List.exists_cons_of_ne_nil (List.splitOn_ne_nil _ _)
  have hpos := List.length_pos_iff.mpr hne
  rw [hsplit] at hok
  have hlabels := encodeLabels_wire (withoutFinalDot name) [] first more hsplit hok
  rw [encodeName, if_neg (by omega), hlabels, nameLabels, hsplit]
  rfl

def queryQuestion {name : Bytes} (h : ValidName name) (qtype : UInt16) : Question :=
  ⟨nameLabels name, qtype, 1, h.2.2⟩

-- The header of a query: one question, and recursion desired.
def queryHeader (id : UInt16) : Bytes := u16 id.toNat ++ [1, 0, 0, 1, 0, 0, 0, 0, 0, 0]

theorem dnsBuildQuery_valid {name : Bytes} (h : ValidName name) (id qtype : UInt16) :
    dnsBuildQuery id name qtype 512 = some (queryHeader id ++ (queryQuestion h qtype).wire) := by
  have hclass : (1 : UInt16).toNat = 1 := rfl
  rw [dnsBuildQuery, if_neg (by omega), encodeName_valid h (by omega)]
  simp [queryHeader, u16, Question.wire, Question.typeBytes, queryQuestion, hclass, hi8, lo8]

end Encode

section Decode

-- The name in the buffer of dns_query_info after some more labels.
def joined (name : Bytes) : List Bytes → Bytes
  | [] => name
  | label :: labels => joined ((if name.length > 0 then name ++ [DOT] else name) ++ label.map tolower) labels

theorem length_joined (name : Bytes) (labels : List Bytes) : name.length ≤ (joined name labels).length := by
  induction labels generalizing name with
  | nil => exact le_rfl
  | cons label labels ih =>
      refine Nat.le_trans ?_ (ih _)
      split <;> simp

theorem joined_append {name : Bytes} (hne : name ≠ []) (labels : List Bytes) :
    joined name labels = name ++ labels.flatMap fun label => DOT :: label.map tolower := by
  induction labels generalizing name with
  | nil => simp [joined]
  | cons label labels ih =>
      rw [joined, if_pos (List.length_pos_iff.mpr hne), ih (by simp)]
      simp

theorem intercalate_dots (label : Bytes) (labels : List Bytes) :
    [DOT].intercalate (label :: labels) = label ++ labels.flatMap (DOT :: ·) := by
  induction labels generalizing label with
  | nil => simp
  | cons next labels ih =>
      rw [List.intercalate_cons_cons, ih]
      simp

-- The labels of a name give it back in lower case.
theorem joined_nameLabels {name : Bytes} (h : ValidName name) :
    joined [] (nameLabels name) = (withoutFinalDot name).map tolower := by
  obtain ⟨first, more, hsplit⟩ : ∃ first more, (withoutFinalDot name).splitOn DOT = first :: more :=
    List.exists_cons_of_ne_nil (List.splitOn_ne_nil _ _)
  have hok := h.2.2
  rw [hsplit] at hok
  have hfirst : first.map tolower ≠ [] := by
    simpa using List.length_pos_iff.mp (hok first List.mem_cons_self).1
  have hname : [DOT].intercalate ((withoutFinalDot name).splitOn DOT) = withoutFinalDot name :=
    List.intercalate_splitOn DOT
  have hdot : tolower DOT = DOT := by decide
  rw [hsplit, intercalate_dots] at hname
  rw [nameLabels, hsplit, ← hname, joined, if_neg (by simp), List.nil_append, joined_append hfirst]
  simp [List.map_flatMap, hdot]

-- A label byte on its own: the two upper bits are clear.
theorem label_byte (c : UInt8) : c &&& 0xC0 = 0 ↔ c.toNat ≤ 63 := by
  revert c
  exact forall_byte (by decide +kernel)

-- The walk over the labels in front of any bytes.
theorem queryName_wire {nameSize : Nat} (hsize : 65 ≤ nameSize) (labels : List Bytes) (hok : LabelsOk labels)
    {pkt back : Bytes} {pos : Nat} (hpkt : pkt.drop pos = wireLabels labels ++ back) (rounds : Nat)
    (hrounds : labels.length < rounds) (name : Bytes) (hname : (joined name labels).length + 1 ≤ nameSize) :
    queryName pkt nameSize rounds pos name = some (pos + (wireLabels labels).length - 1, joined name labels) := by
  induction labels generalizing pos rounds name with
  | nil =>
      obtain ⟨rounds, rfl⟩ := Nat.exists_eq_add_of_lt hrounds
      rw [queryName, if_neg fun h => h.2 (byte_at hpkt)]
      rfl
  | cons label labels ih =>
      obtain ⟨rounds, rfl⟩ := Nat.exists_eq_add_of_lt hrounds
      obtain ⟨hpos, hle⟩ := hok label List.mem_cons_self
      obtain ⟨hnat, hmask, -⟩ := labelLength hle
      simp only [wireLabels, List.cons_append, List.append_assoc] at hpkt
      have hbyte := byte_at hpkt
      have hlabel : pkt.drop (pos + 1) = label ++ (wireLabels labels ++ back) :=
        drop_at (show pkt.drop pos = [UInt8.ofNat label.length] ++ _ from hpkt)
      have hlen : pos + 1 + label.length ≤ pkt.length := le_length_at hpos hlabel
      have hne := labelLength_ne_zero hpos hle
      have hroom : name.length + label.length + 2 ≤ nameSize := by
        have hgrow := length_joined ((if name.length > 0 then name ++ [DOT] else name) ++ label.map tolower) labels
        rw [joined] at hname
        by_cases hempty : name.length > 0
        · rw [if_pos hempty] at hgrow hname
          simp only [List.length_append, List.length_map, List.length_singleton] at hgrow
          omega
        · omega
      have hslice : slice pkt (pos + 1) label.length = label := slice_at hlabel
      rw [joined] at hname
      have hrest := ih (fun l hl => hok l (List.mem_cons_of_mem _ hl)) (drop_at hlabel)
        (labels.length + 1 + rounds) (by omega) _ hname
      rw [queryName, if_pos ⟨by omega, by rw [hbyte]; exact hne⟩]
      dsimp only
      rw [hbyte, hnat, if_neg (by rw [hmask]; simp; omega), hslice]
      rw [List.length_cons, hrest, joined]
      have htail := wireLabels_length_pos labels
      simp only [wireLabels, List.length_append, List.length_cons, List.cons_append]
      congr 2
      omega

-- What the walk has found when it ends inside of the packet.
theorem queryName_some {pkt : Bytes} {nameSize : Nat} (rounds : Nat) {pos pos' : Nat} {name name' : Bytes}
    (h : queryName pkt nameSize rounds pos name = some (pos', name')) (hin : pos' < pkt.length) :
    ∃ labels, LabelsOk labels ∧ pkt.drop pos = wireLabels labels ++ pkt.drop (pos' + 1) ∧
      name' = joined name labels := by
  induction rounds generalizing pos name with
  | zero => exact absurd h (by simp [queryName])
  | succ rounds ih =>
      rw [queryName] at h
      by_cases hmore : pos < pkt.length ∧ byte pkt pos ≠ 0
      · obtain ⟨hlt, hne⟩ := hmore
        rw [if_pos ⟨hlt, hne⟩] at h
        dsimp only at h
        split at h
        · simp at h
        rename_i hbad
        obtain ⟨hplain, hfits, -⟩ := (not_or.mp hbad).imp_right not_or.mp
        obtain ⟨labels, hok, hdrop, rfl⟩ := ih h
        have hle := (label_byte _).mp (not_not.mp hplain)
        have hlen : (slice pkt (pos + 1) (byte pkt pos).toNat).length = (byte pkt pos).toNat :=
          length_slice_of_le _ _ _ (by omega)
        refine ⟨slice pkt (pos + 1) (byte pkt pos).toNat :: labels, ?_, ?_, rfl⟩
        · intro label hlabel
          rcases List.mem_cons.mp hlabel with rfl | hlabel
          · rw [hlen]
            refine ⟨Nat.pos_of_ne_zero fun hzero => hne ?_, hle⟩
            exact UInt8.toNat.inj hzero
          · exact hok label hlabel
        · simp only [wireLabels, List.cons_append, List.append_assoc]
          rw [hlen, UInt8.ofNat_toNat, ← hdrop, slice_append_drop, List.drop_eq_getElem_cons hlt,
            byte_eq_getElem pkt pos hlt]
      · rw [if_neg hmore] at h
        obtain ⟨rfl, rfl⟩ := Prod.mk.inj (Option.some.inj h)
        have hzero : byte pkt pos = 0 := by
          by_contra hne
          exact hmore ⟨hin, hne⟩
        refine ⟨[], fun label hlabel => absurd hlabel List.not_mem_nil, ?_, rfl⟩
        rw [wireLabels, List.singleton_append, ← hzero, byte_eq_getElem pkt pos hin, ← List.drop_eq_getElem_cons hin]

theorem slice_u16 {b : Bytes} {i : Nat} (h : i + 2 ≤ b.length) : slice b i 2 = u16 (be16 b i) := by
  have h₁ := (byte b (i + 1)).toNat_lt
  apply ext_byte
  · rw [length_slice_of_le _ _ _ h, length_u16]
  · intro j hj
    rw [length_slice_of_le _ _ _ h] at hj
    rw [byte_slice _ _ _ _ hj]
    obtain rfl | rfl : j = 0 ∨ j = 1 := by omega
    · apply UInt8.toNat.inj
      change _ = (hi8 (be16 b i)).toNat
      rw [hi8_toNat _ (be16_lt b i), be16, Nat.add_zero]
      omega
    · apply UInt8.toNat.inj
      change _ = (lo8 (be16 b i)).toNat
      rw [lo8_toNat, be16]
      omega

end Decode

section Roundtrip

-- A response with the question of a query, in any case of letters.
structure Echoes (id : UInt16) (q : Question) (reply : Bytes) : Prop where
  id : be16 reply 0 = id.toNat
  response : byte reply 2 &&& 0x80 ≠ 0
  one_question : be16 reply 4 = 1
  question : ∃ q', HasQuestion reply q' ∧ SameName q'.labels q.labels ∧ q'.qtype = q.qtype ∧ q'.qclass = q.qclass

theorem Echoes.slice {id : UInt16} {q : Question} {reply : Bytes} (h : Echoes id q reply) :
    12 + q.wire.length ≤ reply.length ∧ (slice reply 12 q.wire.length).map tolower = q.wire.map tolower := by
  obtain ⟨q', hq', hname, htype, hclass⟩ := h.question
  have hfolded := Question.wire_folded hname htype hclass
  have hlen : q'.wire.length = q.wire.length := by simpa using congrArg List.length hfolded
  obtain ⟨hslice, hle⟩ := slice_question hq'
  rw [hlen] at hslice hle
  exact ⟨hle, by rw [hslice, hfolded]⟩

theorem replyMatches_echoes {query reply : Bytes} {id : UInt16} {q : Question} (hq : HasQuestion query q)
    (hid : be16 query 0 = id.toNat) (h : Echoes id q reply) : replyMatches query reply = true := by
  obtain ⟨hle, hfolded⟩ := h.slice
  simp only [replyMatches, questionLen_of_question hq, (slice_question hq).1]
  simp [hle, hfolded, hid, h.id, h.response, h.one_question]

theorem Question.typeBytes_eq (q : Question) : q.typeBytes = u16 q.qtype.toNat ++ u16 q.qclass.toNat := rfl

-- A reader behind the name of a question.
theorem HasQuestion.drop {pkt : Bytes} {q : Question} (h : HasQuestion pkt q) :
    ∃ rest, pkt.drop 12 = wireLabels q.labels ++ (u16 q.qtype.toNat ++ (u16 q.qclass.toNat ++ rest)) := by
  obtain ⟨header, rest, hheader, rfl⟩ := h
  refine ⟨rest, ?_⟩
  rw [List.append_assoc, List.drop_left' hheader, Question.wire, q.typeBytes_eq]
  simp

theorem queryHeader_length (id : UInt16) : (queryHeader id).length = 12 := rfl

theorem questionMatches_echoes {name reply : Bytes} (hname : ValidName name) {id qtype : UInt16}
    (h : Echoes id (queryQuestion hname qtype) reply) :
    questionMatches reply 12 name qtype = some (12 + (queryQuestion hname qtype).wire.length) := by
  obtain ⟨hle, -⟩ := h.slice
  obtain ⟨q', hq', hsame, htype, hclass⟩ := h.question
  obtain ⟨rest, hdrop⟩ := hq'.drop
  have hfolded : (wireLabels q'.labels).map tolower = (wireLabels (nameLabels name)).map tolower := hsame.folded
  have hlen : (wireLabels q'.labels).length = (wireLabels (nameLabels name)).length := by
    simpa using congrArg List.length hfolded
  have hwire := (queryQuestion hname qtype).wire_length
  change _ = (wireLabels (nameLabels name)).length + 4 at hwire
  have hslice := slice_at hdrop
  have htypes := drop_at hdrop
  have hqtype := be16_at q'.qtype.toNat_lt htypes
  have hqclass := be16_at q'.qclass.toNat_lt (drop_at htypes)
  rw [hlen] at hslice hqtype hqclass
  rw [length_u16, hclass] at hqclass
  rw [htype] at hqtype
  rw [questionMatches, encodeName_valid hname (by decide)]
  dsimp only
  rw [if_neg (by omega), hslice, if_neg (not_not_intro hfolded), hqtype, hqclass, if_neg, hwire, Nat.add_assoc]
  exact not_or.mpr ⟨not_not_intro rfl, not_not_intro rfl⟩

theorem dnsQueryInfo_wire {name : Bytes} (hname : ValidName name) (hnul : 0 ∉ name) (id qtype : UInt16) :
    dnsQueryInfo (queryHeader id ++ (queryQuestion hname qtype).wire) DNS_NAME_MAX =
      some ⟨(withoutFinalDot name).map tolower, qtype, 512⟩ := by
  generalize hquery : queryHeader id ++ (queryQuestion hname qtype).wire = query
  have hlen : query.length = 12 + (wireLabels (nameLabels name)).length + 4 := by
    rw [← hquery, List.length_append, Question.wire_length]
    rfl
  have hpos := wireLabels_length_pos (nameLabels name)
  have hdrop : query.drop 12 = wireLabels (nameLabels name) ++ (u16 qtype.toNat ++ u16 1) := by
    rw [← hquery, List.drop_left' (queryHeader_length id)]
    rfl
  have hjoined := joined_nameLabels hname
  have hroom : (joined [] (nameLabels name)).length + 1 ≤ DNS_NAME_MAX := by
    rw [hjoined, List.length_map]
    exact Nat.succ_le_succ hname.2.1
  have hlabels := labels_length_le (nameLabels name)
  have hwalk := queryName_wire (by decide) (nameLabels name) hname.2.2 hdrop (query.length + 1) (by omega) [] hroom
  have hqtype : be16 query (12 + (wireLabels (nameLabels name)).length - 1 + 1) = qtype.toNat := by
    rw [show 12 + (wireLabels (nameLabels name)).length - 1 + 1 = 12 + (wireLabels (nameLabels name)).length by omega]
    exact be16_at qtype.toNat_lt (drop_at hdrop)
  have hkept : (0 : UInt8) ∉ (withoutFinalDot name).map tolower := by
    intro hmem
    obtain ⟨c, hc, hzero⟩ := List.mem_map.mp hmem
    rw [(tolower_eq_iff c (by decide)).mp hzero] at hc
    apply hnul
    rw [withoutFinalDot] at hc
    split at hc
    · exact (List.dropLast_sublist _).subset hc
    · exact hc
  have hflags : byte query 2 = 1 := by rw [← hquery]; rfl
  have hcount : be16 query 4 = 1 ∧ be16 query 10 = 0 := by
    rw [← hquery]
    simp [be16, byte, queryHeader, u16]
  have hheader : ¬(query.length < 12 ∨ byte query 2 &&& 0x80 ≠ 0 ∨ byte query 2 &&& 0x78 ≠ 0 ∨ be16 query 4 ≠ 1 ∨
      DNS_NAME_MAX < 2) := by
    rw [hflags, hcount.1, not_or]
    exact ⟨by omega, by decide⟩
  rw [dnsQueryInfo, if_neg hheader, hwalk, hjoined]
  dsimp only
  rw [if_neg (by omega), cstr_eq_self hkept, hqtype, UInt16.ofNat_toNat, if_neg]
  rintro ⟨-, -, hmore, -⟩
  omega

theorem dnsBuildQuery_roundtrip (name : Bytes) (hname : ValidName name) (hnul : 0 ∉ name) (id qtype : UInt16) :
    ∃ query, dnsBuildQuery id name qtype 512 = some query ∧
      dnsQueryInfo query DNS_NAME_MAX = some ⟨(withoutFinalDot name).map tolower, qtype, 512⟩ ∧
      ∀ reply, Echoes id (queryQuestion hname qtype) reply →
        (questionMatches reply 12 name qtype).isSome = true ∧ replyMatches query reply = true := by
  refine ⟨_, dnsBuildQuery_valid hname id qtype, dnsQueryInfo_wire hname hnul id qtype, ?_⟩
  intro reply hreply
  constructor
  · rw [questionMatches_echoes hname hreply]
    rfl
  · apply replyMatches_echoes _ _ hreply
    · exact ⟨queryHeader id, [], rfl, by rw [List.append_nil]⟩
    · exact be16_at id.toNat_lt (show (queryHeader id ++ _).drop 0 = u16 id.toNat ++ _ from rfl)

-- Ab.c. and a response with the letters the other way.
def mixedName : Bytes := ascii ['A', 'b', '.', 'c', '.']

theorem mixedName_valid : ValidName mixedName := by
  have hsplit : (withoutFinalDot mixedName).splitOn DOT = [ascii ['A', 'b'], ascii ['c']] := by decide +kernel
  refine ⟨by decide, by decide, ?_⟩
  rw [hsplit]
  simp [LabelsOk, ascii]

theorem flippedLabels_ok : LabelsOk [ascii ['a', 'B'], ascii ['C']] := by
  simp [LabelsOk, ascii]

def flippedQuestion : Question := ⟨[ascii ['a', 'B'], ascii ['C']], 1, 1, flippedLabels_ok⟩

def flippedResponse : Bytes := [0, 7, 0x80, 0, 0, 1, 0, 0, 0, 0, 0, 0] ++ flippedQuestion.wire ++ []

theorem flippedResponse_echoes : Echoes 7 (queryQuestion mixedName_valid 1) flippedResponse := by
  refine ⟨rfl, by decide, rfl, flippedQuestion, ⟨_, [], rfl, rfl⟩, ?_, rfl, rfl⟩
  change SameName flippedQuestion.labels (nameLabels mixedName)
  rw [SameName]
  decide +kernel

theorem dnsBuildQuery_roundtrip_mixed :
    ∃ query, dnsBuildQuery 7 mixedName 1 512 = some query ∧
      dnsQueryInfo query DNS_NAME_MAX = some ⟨ascii ['a', 'b', '.', 'c'], 1, 512⟩ ∧
      replyMatches query flippedResponse = true := by
  obtain ⟨query, hbuild, hinfo, hreply⟩ :=
    dnsBuildQuery_roundtrip mixedName mixedName_valid (by decide) 7 1
  have hlower : (withoutFinalDot mixedName).map tolower = ascii ['a', 'b', '.', 'c'] := by decide
  rw [hlower] at hinfo
  exact ⟨query, hbuild, hinfo, (hreply _ flippedResponse_echoes).2⟩

end Roundtrip

end DpiProxy.Dns
