import DpiProxy.Dns.Calls
import DpiProxy.Dns.Question

namespace DpiProxy.Dns

open Wire

-- A reply to exactly the question of a query.
structure Answers (query : Bytes) (q : Question) (reply : Bytes) : Prop where
  id : be16 reply 0 = be16 query 0
  response : byte reply 2 &&& 0x80 ≠ 0
  one_question : be16 reply 4 = 1
  question : ∃ q', HasQuestion reply q' ∧ SameName q'.labels q.labels ∧ q'.qtype = q.qtype ∧
    q'.qclass = q.qclass
  rcode : byte reply 3 &&& 0x0F ≠ 2 ∧ byte reply 3 &&& 0x0F ≠ 5

theorem slice_question {pkt : Bytes} {q : Question} (h : HasQuestion pkt q) :
    slice pkt 12 q.wire.length = q.wire ∧ 12 + q.wire.length ≤ pkt.length := by
  obtain ⟨header, rest, hheader, rfl⟩ := h
  constructor
  · rw [slice, List.append_assoc, List.drop_left' hheader, List.take_left' rfl]
  · simp only [List.length_append]
    omega

theorem hasQuestion_of_slice {pkt : Bytes} {q : Question} (hlen : 12 + q.wire.length ≤ pkt.length)
    (h : slice pkt 12 q.wire.length = q.wire) : HasQuestion pkt q := by
  refine ⟨pkt.take 12, pkt.drop (12 + q.wire.length), ?_, ?_⟩
  · rw [List.length_take]
    omega
  · have hjoin := slice_append_drop pkt 12 q.wire.length
    rw [h] at hjoin
    rw [List.append_assoc, hjoin, List.take_append_drop]

-- What a query accepts is the question up to the case of letters, and that is all of
-- the question: QTYPE and QCLASS are compared as letters too.
theorem acceptsReply_iff {query : Bytes} {q : Question} (hq : HasQuestion query q) (reply : Bytes) :
    acceptsReply query reply = true ↔
      12 + q.wire.length ≤ reply.length ∧ be16 reply 0 = be16 query 0 ∧
        byte reply 2 &&& 0x80 ≠ 0 ∧ be16 reply 4 = 1 ∧
        (slice reply 12 q.wire.length).map tolower = q.wire.map tolower ∧
        byte reply 3 &&& 0x0F ≠ 2 ∧ byte reply 3 &&& 0x0F ≠ 5 := by
  have hpos : 12 + q.wire.length ≤ reply.length → reply ≠ [] := by
    rintro hlen rfl
    simp only [List.length_nil] at hlen
    omega
  simp only [acceptsReply, replyMatches, questionLen_of_question hq, (slice_question hq).1,
    Bool.and_eq_true, decide_eq_true_eq, beq_iff_eq, bne_iff_ne, ne_eq]
  constructor
  · rintro ⟨⟨⟨-, ⟨⟨⟨hlen, hid⟩, hqr⟩, hqd⟩, hquestion⟩, h₂⟩, h₅⟩
    exact ⟨hlen, hid, hqr, hqd, hquestion, h₂, h₅⟩
  · rintro ⟨hlen, hid, hqr, hqd, hquestion, h₂, h₅⟩
    exact ⟨⟨⟨hpos hlen, ⟨⟨⟨hlen, hid⟩, hqr⟩, hqd⟩, hquestion⟩, h₂⟩, h₅⟩

theorem map_tolower_inj {as bs : Bytes} (hbs : ∀ b ∈ bs, isLetter b = false)
    (h : as.map tolower = bs.map tolower) : as = bs := by
  induction bs generalizing as with
  | nil => exact List.map_eq_nil_iff.mp h
  | cons b bs ih =>
      cases as with
      | nil => cases h
      | cons a as =>
          obtain ⟨hab, hrest⟩ := List.cons.inj h
          rw [tolower_eq_of_not_letter (hbs b List.mem_cons_self) hab,
            ih (fun b hb => hbs b (List.mem_cons_of_mem _ hb)) hrest]

theorem Question.wire_folded {a b : Question} (hname : SameName a.labels b.labels) (htype : a.qtype = b.qtype)
    (hclass : a.qclass = b.qclass) : a.wire.map tolower = b.wire.map tolower := by
  have htypes : a.typeBytes = b.typeBytes := by
    rw [Question.typeBytes, htype, hclass]
    rfl
  rw [Question.wire, Question.wire, htypes, List.map_append, List.map_append, hname.folded]

-- Any reply to the question is accepted.
theorem accepts_of_answers {query : Bytes} {q : Question} (hq : HasQuestion query q) {reply : Bytes}
    (h : Answers query q reply) : acceptsReply query reply = true := by
  obtain ⟨q', hq', hname, htype, hclass⟩ := h.question
  have hfolded := Question.wire_folded hname htype hclass
  have hlen : q'.wire.length = q.wire.length := by
    have hcount := congrArg List.length hfolded
    rwa [List.length_map, List.length_map] at hcount
  obtain ⟨hslice, hle⟩ := slice_question hq'
  rw [hlen] at hslice hle
  rw [acceptsReply_iff hq]
  exact ⟨hle, h.id, h.response, h.one_question, by rw [hslice, hfolded], h.rcode⟩

-- Where QTYPE and QCLASS hold no letter, nothing else is accepted.
theorem answers_of_accepts {query : Bytes} {q : Question} (hq : HasQuestion query q)
    (hplain : ∀ b ∈ q.typeBytes, isLetter b = false) {reply : Bytes}
    (h : acceptsReply query reply = true) : Answers query q reply := by
  obtain ⟨hlen, hid, hqr, hqd, hfolded, hrcode⟩ := (acceptsReply_iff hq reply).mp h
  refine ⟨hid, hqr, hqd, ?_, hrcode⟩
  have hwire := q.wire_length
  have hsplit : slice reply 12 q.wire.length =
      slice reply 12 (wireLabels q.labels).length ++
        slice reply (12 + (wireLabels q.labels).length) 4 := by
    rw [slice_append_slice, hwire]
  have hcount : (slice reply 12 (wireLabels q.labels).length).length =
      (wireLabels q.labels).length := length_slice_of_le _ _ _ (by omega)
  rw [hsplit, Question.wire, List.map_append, List.map_append] at hfolded
  obtain ⟨hname, htypes⟩ := List.append_inj hfolded (by
    rw [List.length_map, List.length_map, hcount])
  have htypes := map_tolower_inj hplain htypes
  obtain ⟨labels', hok', heq, hsame⟩ := wireLabels_of_folded q.labels q.labels_ok _ hname
  let q' : Question := ⟨labels', q.qtype, q.qclass, hok'⟩
  have hq' : q'.wire = slice reply 12 q.wire.length := by
    rw [hsplit, htypes, heq]
    rfl
  refine ⟨q', hasQuestion_of_slice ?_ ?_, hsame, rfl, rfl⟩
  · rw [hq', length_slice_of_le _ _ _ (by omega)]
    exact hlen
  · rw [hq', length_slice_of_le _ _ _ (by omega)]

-- The walk over the servers stops at the first reply it accepts, or asks them all.
theorem exchangeLoop_spec (transport : Transport) (query : Bytes) (now : Int) (order : List Nat)
    (r : Resolver) :
    (∀ reply, (exchangeLoop transport query now order r).reply = some reply →
      acceptsReply query reply = true ∧ ∃ i ∈ order, transport i query = some reply) ∧
    ((exchangeLoop transport query now order r).reply = none →
      (exchangeLoop transport query now order r).calls = order.map (·, query) ∧
      ∀ i ∈ order, ∀ reply, transport i query = some reply → acceptsReply query reply = false) := by
  induction order generalizing r with
  | nil => simp [exchangeLoop]
  | cons idx order ih =>
      cases hgot : (transport idx query).filter (acceptsReply query) with
      | some reply =>
          simp only [exchangeLoop, hgot]
          obtain ⟨hreply, haccepts⟩ := Option.filter_eq_some_iff.mp hgot
          refine ⟨?_, by simp⟩
          intro reply' heq
          obtain rfl := Option.some.inj heq
          exact ⟨haccepts, idx, List.mem_cons_self, hreply⟩
      | none =>
          simp only [exchangeLoop, hgot]
          obtain ⟨hsome, hnone⟩ := ih (serverResult r idx (Option.isSome (none : Option Bytes)) now)
          refine ⟨?_, ?_⟩
          · intro reply hreply
            obtain ⟨haccepts, i, hi, htransport⟩ := hsome reply hreply
            exact ⟨haccepts, i, List.mem_cons_of_mem _ hi, htransport⟩
          · intro hreply
            obtain ⟨hcalls, hrefused⟩ := hnone hreply
            refine ⟨by rw [hcalls, List.map_cons], ?_⟩
            intro i hi reply hi'
            rcases List.mem_cons.mp hi with rfl | hi
            · have hrefuse := Option.filter_eq_none_iff.mp hgot reply hi'
              simpa using hrefuse
            · exact hrefused i hi reply hi'

-- The property of one exchange.
structure AnswersQuestion (transport : Transport) (r : Resolver) (query : Bytes) (q : Question)
    (x : Exchanged) : Prop where
  answer : ∀ reply, x.reply = some reply → Answers query q reply
  asked_all : x.reply = none → ∀ i < r.health.length, (i, query) ∈ x.calls ∧
    ∀ reply, transport i query = some reply → ¬Answers query q reply

theorem exchange_eq_loop {query : Bytes} {q : Question} (hq : HasQuestion query q)
    (transport : Transport) (r : Resolver) (now : Int) : dnsExchange transport r query now =
      exchangeLoop transport query now (serverOrder r now) r := by
  have hlen := (slice_question hq).2
  rw [dnsExchange, if_neg]
  rw [questionLen_of_question hq]
  simp only [reduceCtorEq, or_false]
  omega

theorem exchange_answersQuestion {query : Bytes} {q : Question} (hq : HasQuestion query q)
    (hplain : ∀ b ∈ q.typeBytes, isLetter b = false) (transport : Transport) (r : Resolver)
    (now : Int) :
    AnswersQuestion transport r query q (dnsExchange transport r query now) := by
  obtain ⟨hsome, hnone⟩ := exchangeLoop_spec transport query now (serverOrder r now) r
  rw [exchange_eq_loop hq]
  constructor
  · intro reply hreply
    exact answers_of_accepts hq hplain (hsome reply hreply).1
  · intro hreply i hi
    obtain ⟨hcalls, hrefused⟩ := hnone hreply
    have hmem := (mem_serverOrder r now).mpr hi
    refine ⟨?_, ?_⟩
    · rw [hcalls]
      exact List.mem_map_of_mem hmem
    · intro reply htransport hanswers
      have hno := hrefused i hmem reply htransport
      rw [accepts_of_answers hq hanswers] at hno
      cases hno

-- The other case of a letter.
def flipCase (b : UInt8) : UInt8 := if isLetter b then b ^^^ 0x20 else b

theorem flipCase_spec (b : UInt8) :
    tolower (flipCase b) = tolower b ∧ (isLetter b = true → flipCase b ≠ b) := by
  revert b
  exact forall_byte (by decide +kernel)

-- A reply that turns the letters of QTYPE and QCLASS into the other case.
def flippedReply (query : Bytes) (q : Question) : Bytes :=
  [byte query 0, byte query 1, 0x80, 0, 0, 1, 0, 0, 0, 0, 0, 0] ++ wireLabels q.labels ++
    q.typeBytes.map flipCase

theorem flippedReply_accepted {query : Bytes} {q : Question} (hq : HasQuestion query q) :
    acceptsReply query (flippedReply query q) = true := by
  have hlen : (flippedReply query q).length = 12 + q.wire.length := by
    rw [flippedReply, Question.wire_length]
    simp [Question.typeBytes]
    omega
  have hhead : ∀ i < 12, byte (flippedReply query q) i =
      byte [byte query 0, byte query 1, 0x80, 0, 0, 1, 0, 0, 0, 0, 0, 0] i := by
    intro i hi
    rw [flippedReply, List.append_assoc, byte_append]
    exact if_pos hi
  rw [acceptsReply_iff hq]
  unfold be16
  rw [hhead 0 (by omega), hhead (0 + 1) (by omega), hhead 2 (by omega), hhead 3 (by omega),
    hhead 4 (by omega), hhead (4 + 1) (by omega)]
  refine ⟨by omega, rfl, by simp [byte], by simp [byte], ?_, by simp [byte]⟩
  have hslice : slice (flippedReply query q) 12 q.wire.length =
      wireLabels q.labels ++ q.typeBytes.map flipCase := by
    rw [slice_to_end _ _ _ (by omega), flippedReply, List.append_assoc]
    exact List.drop_left' rfl
  rw [hslice, Question.wire, List.map_append, List.map_append, List.map_map]
  congr 1
  exact List.map_congr_left fun b _ => (flipCase_spec b).1

theorem flippedReply_not_answers {query : Bytes} {q : Question} {b : UInt8} (hb : b ∈ q.typeBytes)
    (hletter : isLetter b = true) : ¬Answers query q (flippedReply query q) := by
  intro h
  obtain ⟨q', ⟨header, rest, hheader, heq⟩, hname, htype, hclass⟩ := h.question
  have htypes : q'.typeBytes = q.typeBytes := by
    rw [Question.typeBytes, htype, hclass]
    rfl
  have hlabels : (wireLabels q'.labels).length = (wireLabels q.labels).length := by
    have hcount := congrArg List.length hname.folded
    rwa [List.length_map, List.length_map] at hcount
  -- The two forms of the reply have the types at the same place.
  have hsame : q.typeBytes.map flipCase = q.typeBytes := by
    have hshape : flippedReply query q = header ++ (wireLabels q'.labels ++ (q.typeBytes ++ rest)) := by
      rw [heq, Question.wire, htypes]
      simp
    rw [flippedReply, List.append_assoc] at hshape
    obtain ⟨-, htail⟩ := List.append_inj hshape (by rw [hheader]; rfl)
    obtain ⟨-, hflipped⟩ := List.append_inj htail hlabels.symm
    have htake := congrArg (List.take 4) hflipped
    rwa [List.take_of_length_le (by simp [Question.typeBytes]),
      List.take_left' (show q.typeBytes.length = 4 from rfl)] at htake
  obtain ⟨i, hi, rfl⟩ := List.mem_iff_getElem.mp hb
  have hfix : flipCase q.typeBytes[i] = q.typeBytes[i] := by
    have hget := congrArg (fun l => l[i]?) hsame
    simpa [List.getElem?_eq_getElem hi] using hget
  exact (flipCase_spec _).2 hletter hfix

theorem exchange_answers_iff (query : Bytes) (q : Question) (hq : HasQuestion query q) :
    (∀ (transport : Transport) (r : Resolver) (now : Int),
      AnswersQuestion transport r query q (dnsExchange transport r query now)) ↔
    ∀ b ∈ q.typeBytes, isLetter b = false := by
  constructor
  · intro h b hb
    by_contra hletter
    rw [Bool.not_eq_false] at hletter
    -- One server that flips the letters is believed.
    have hanswers := h (fun _ _ => some (flippedReply query q)) (dnsResolverInit 1 0) 0
    have hloop := exchange_eq_loop hq (fun _ _ => some (flippedReply query q)) (dnsResolverInit 1 0) 0
    obtain ⟨hsome, hnone⟩ := exchangeLoop_spec (fun _ _ => some (flippedReply query q)) query 0
      (serverOrder (dnsResolverInit 1 0) 0) (dnsResolverInit 1 0)
    rw [← hloop] at hsome hnone
    cases hreply : (dnsExchange (fun _ _ => some (flippedReply query q)) (dnsResolverInit 1 0) query
        0).reply with
    | some reply =>
        obtain ⟨-, i, -, heq⟩ := hsome reply hreply
        obtain rfl := Option.some.inj heq
        exact flippedReply_not_answers hb hletter (hanswers.answer _ hreply)
    | none =>
        have hrefused := (hnone hreply).2 0 ((mem_serverOrder _ _).mpr (by decide)) _ rfl
        rw [flippedReply_accepted hq] at hrefused
        cases hrefused
  · intro hplain transport r now
    exact exchange_answersQuestion hq hplain transport r now

theorem abcLabels_ok : ∀ label ∈ [ascii ['a', 'b', 'c'], ascii ['n', 'e', 't']],
    0 < label.length ∧ label.length ≤ 63 := by decide

-- abc.net with a type, in class IN.
def abcQuestion (qtype : UInt16) : Question :=
  ⟨[ascii ['a', 'b', 'c'], ascii ['n', 'e', 't']], qtype, 1, abcLabels_ok⟩

def abcQuery (qtype : UInt16) : Bytes :=
  [0x12, 0x34, 1, 0, 0, 1, 0, 0, 0, 0, 0, 0] ++ (abcQuestion qtype).wire ++ []

theorem abcQuery_question (qtype : UInt16) : HasQuestion (abcQuery qtype) (abcQuestion qtype) :=
  ⟨_, [], rfl, rfl⟩

theorem exchange_answers_address :
    (∀ (transport : Transport) (r : Resolver) (now : Int), AnswersQuestion transport r
      (abcQuery 1) (abcQuestion 1) (dnsExchange transport r (abcQuery 1) now)) ∧
    ¬∀ (transport : Transport) (r : Resolver) (now : Int), AnswersQuestion transport r
      (abcQuery 65) (abcQuestion 65) (dnsExchange transport r (abcQuery 65) now) := by
  constructor
  · apply (exchange_answers_iff (abcQuery 1) (abcQuestion 1) (abcQuery_question 1)).mpr
    decide +kernel
  · intro h
    have hplain := (exchange_answers_iff (abcQuery 65) (abcQuestion 65) (abcQuery_question 65)).mp h
    exact absurd (hplain 65 (by decide +kernel)) (by decide +kernel)

-- A query for type 65 (HTTPS) takes a reply for type 97.
theorem exchange_other_type :
    let reply := [0x12, 0x34, 0x80, 0, 0, 1, 0, 0, 0, 0, 0, 0] ++ (abcQuestion 97).wire
    (dnsExchange (fun _ _ => some reply) (dnsResolverInit 1 0) (abcQuery 65) 0).reply = some reply ∧
    ¬Answers (abcQuery 65) (abcQuestion 65) reply := by
  intro reply
  refine ⟨by decide +kernel, ?_⟩
  exact flippedReply_not_answers (q := abcQuestion 65) (b := 65) (by decide +kernel)
    (by decide +kernel)

end DpiProxy.Dns
