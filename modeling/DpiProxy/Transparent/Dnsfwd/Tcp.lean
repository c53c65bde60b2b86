import DpiProxy.Relay.Exact
import DpiProxy.Transparent.Dnsfwd.Limits
import DpiProxy.Wire.Frame

namespace DpiProxy.Transparent

open Wire Dns Relay

-- What a worker sees of the rest of the program when it answers a query.
structure Moment where
  transport : Transport
  original : Original
  resolver : Resolver
  orig : Option Bytes
  now : Int × Int
  allocated : Bool

def Moment.answer (m : Moment) (query : Bytes) : Option Bytes :=
  (Transparent.answer m.transport m.original m.resolver query false m.orig m.now m.allocated).sent

-- The worker has closed its connection, or waits in a call.
inductive WorkerEnd where
  | closed
  | waiting
deriving DecidableEq, Repr

def readEnd : Received → WorkerEnd
  | .blocked => .waiting
  | _ => .closed

-- One turn of the loop of tcp_worker; none goes on. read_full is recv_exact with a wait
-- before each recv, and a wait that fails or times out is a read that fails. write_full is
-- relay_send_all.
def workerTurn (m : Moment) (s : Socket) : Socket × Option WorkerEnd :=
  match recvExact 2 s.arrivals with
  | (.all hdr, left) =>
      let qlen := be16 hdr 0
      if qlen < 12 then ({ s with arrivals := left }, some .closed)
      else
        match recvExact qlen left with
        | (.all query, left) =>
            match m.answer query with
            | none => ({ s with arrivals := left }, some .closed)
            | some reply =>
                let out := sendAll { s with arrivals := left } (hi8 reply.length :: lo8 reply.length :: reply)
                match out.1 with
                | .ok => (out.2, none)
                | .error => (out.2, some .closed)
                | .blocked => (out.2, some .waiting)
        | (ended, left) => ({ s with arrivals := left }, some (readEnd ended))
  | (ended, left) => ({ s with arrivals := left }, some (readEnd ended))

-- What the client says, up to its next query.
structure NextQuery (arrivals : List RecvResult) (query : Bytes) (left : List RecvResult) : Prop where
  long : 12 ≤ query.length
  short : query.length < 65536
  stream : stream arrivals = frame query ++ Relay.stream left

-- Reading stops before the whole of what is asked for.
theorem recvExact_stops {length : Nat} {arrivals : List RecvResult} (h : (stream arrivals).length < length) :
    ∃ ended left, recvExact length arrivals = (ended, left) ∧ ∀ bytes, ended ≠ .all bytes :=
  ⟨_, _, rfl, fun bytes hall => ending_ne_all bytes ((recvExact_short h).symm.trans hall)⟩

theorem unframe_short {stream : Bytes} (h : stream.length < 2 ∨ stream.length < 2 + be16 stream 0) :
    unframe stream = [] := by
  rw [unframe, if_pos h]

theorem frame_front {stream : Bytes} (h : 2 + be16 stream 0 ≤ stream.length) :
    frame ((stream.drop 2).take (be16 stream 0)) ++ (stream.drop 2).drop (be16 stream 0) = stream := by
  have hfield : be16 (stream.take 2) 0 = be16 stream 0 := by
    simp only [be16, byte_take]
    rfl
  have hlen : ((stream.drop 2).take (be16 stream 0)).length = be16 stream 0 := by
    rw [List.length_take, List.length_drop]
    omega
  rw [frame, hlen, ← hfield, field16_be16 (List.length_take_of_le (by omega)), List.append_assoc,
    List.take_append_drop, List.take_append_drop]

-- A turn that has a query to answer answers it before it reads the next one.
theorem workerTurn_cases (m : Moment) (s : Socket) :
    (∃ query left, NextQuery s.arrivals query left ∧
      workerTurn m s =
        match m.answer query with
        | none => ({ s with arrivals := left }, some .closed)
        | some reply =>
            let out := sendAll { s with arrivals := left } (frame reply)
            match out.1 with
            | .ok => (out.2, none)
            | .error => (out.2, some .closed)
            | .blocked => (out.2, some .waiting)) ∨
    (∀ query ∈ (unframe (stream s.arrivals)).head?, query.length < 12) ∧
      ∃ left ended, workerTurn m s = ({ s with arrivals := left }, some ended) := by
  unfold workerTurn
  by_cases htwo : (stream s.arrivals).length < 2
  · obtain ⟨ended, left, hread, hnot⟩ := recvExact_stops htwo
    rw [hread, unframe_short (.inl htwo)]
    refine .inr ⟨by simp, left, readEnd ended, ?_⟩
    cases ended with
    | all bytes => exact absurd rfl (hnot bytes)
    | eof | error | blocked => rfl
  · obtain ⟨left, hread, hleft, -⟩ := recvExact_all (Nat.le_of_not_lt htwo)
    have hfield : be16 ((stream s.arrivals).take 2) 0 = be16 (stream s.arrivals) 0 := by
      simp only [be16, byte_take]
      rfl
    rw [hread]
    dsimp only
    rw [hfield]
    by_cases hshort : be16 (stream s.arrivals) 0 < 12
    · rw [if_pos hshort]
      refine .inr ⟨fun query hquery => ?_, left, .closed, rfl⟩
      rw [unframe] at hquery
      split at hquery
      · cases hquery
      · obtain rfl := Option.some.inj hquery
        exact ((length_slice _ _ _).trans_le (Nat.min_le_left _ _)).trans_lt hshort
    · rw [if_neg hshort]
      by_cases hwhole : (stream left).length < be16 (stream s.arrivals) 0
      · obtain ⟨ended, left', hread', hnot⟩ := recvExact_stops hwhole
        rw [hleft, List.length_drop] at hwhole
        rw [hread', unframe_short (.inr (by omega))]
        refine .inr ⟨by simp, left', readEnd ended, ?_⟩
        cases ended with
        | all bytes => exact absurd rfl (hnot bytes)
        | eof | error | blocked => rfl
      · obtain ⟨left', hread', hleft', -⟩ := recvExact_all (Nat.le_of_not_lt hwhole)
        rw [hread']
        have hlen : ((stream left).take (be16 (stream s.arrivals) 0)).length = be16 (stream s.arrivals) 0 :=
          List.length_take_of_le (Nat.le_of_not_lt hwhole)
        have hlt := be16_lt (stream s.arrivals) 0
        refine .inl ⟨_, left', ⟨by omega, by omega, ?_⟩, rfl⟩
        rw [hleft', hleft, frame_front]
        rw [hleft, List.length_drop] at hwhole
        omega

theorem workerTurn_next {m : Moment} {s s' : Socket} (h : workerTurn m s = (s', none)) :
    (stream s'.arrivals).length < (stream s.arrivals).length := by
  rcases workerTurn_cases m s with ⟨query, left, hnext, hturn⟩ | ⟨-, left, ended, hturn⟩
  · have hstream := congrArg List.length hnext.stream
    rw [List.length_append, length_frame] at hstream
    rw [hturn] at h
    cases hanswer : m.answer query with
    | none => simp [hanswer] at h
    | some reply =>
        simp only [hanswer] at h
        split at h
        · obtain ⟨rfl, -⟩ := Prod.mk.inj h
          change (stream left).length < _
          omega
        · cases (Prod.mk.inj h).2
        · cases (Prod.mk.inj h).2
  · rw [hturn] at h
    cases (Prod.mk.inj h).2

-- The loop of tcp_worker from its n-th query on.
def tcpWorker (moments : Nat → Moment) (n : Nat) (s : Socket) : Socket × WorkerEnd :=
  match _ : workerTurn (moments n) s with
  | (s, some ended) => (s, ended)
  | (s, none) => tcpWorker moments (n + 1) s
termination_by (stream s.arrivals).length
decreasing_by
  rename_i hturn
  exact workerTurn_next hturn

-- The replies to whole queries: as many as there are well-formed queries at the front.
def replies (moments : Nat → Moment) : Nat → List Bytes → List Bytes
  | _, [] => []
  | n, query :: queries =>
      if query.length < 12 then []
      else
        match (moments n).answer query with
        | none => []
        | some reply => reply :: replies moments (n + 1) queries

def wellFormed (query : Bytes) : Bool := decide (12 ≤ query.length) && (dnsQueryInfo query DNS_NAME_MAX).isSome

section Answers

variable {m : Moment} {query reply : Bytes}

-- No transport writes more than its caller has room for.
structure Moment.Fits (m : Moment) : Prop where
  transport : ∀ i query reply, m.transport i query = some reply → reply.length ≤ FWD_MSG_MAX
  original : ∀ n orig query reply, m.original n orig query = some reply → reply.length ≤ FWD_MSG_MAX

theorem askOriginal_from {original : Original} {n : Nat} {orig : Bytes}
    (h : askOriginal original n orig query = some reply) : original n orig query = some reply := by
  rw [askOriginal] at h
  split at h
  · cases h
  · cases hgot : original n orig query with
    | none => simp [hgot] at h
    | some got =>
        simp only [hgot] at h
        split at h
        · cases h
        · exact h

theorem dnsExchange_from {transport : Transport} {r : Resolver} {now : Int}
    (h : (dnsExchange transport r query now).reply = some reply) : ∃ i, transport i query = some reply := by
  rw [dnsExchange] at h
  split at h
  · cases h
  · obtain ⟨-, i, -, hi⟩ := (exchangeLoop_spec transport query now (serverOrder r now) r).1 reply h
    exact ⟨i, hi⟩

-- A reply comes from a trusted resolver or from the original server.
theorem resolve_from {transport : Transport} {original : Original} {r : Resolver} {name : Bytes}
    {orig : Option Bytes} {now : Int × Int} {allocated : Bool}
    (h : (resolve transport original r query name orig now allocated).reply = some reply) :
    (∃ i, transport i query = some reply) ∨ ∃ n server, original n server query = some reply := by
  rw [resolve] at h
  split at h
  case h_1 server hlocal => exact .inr ⟨0, server, askOriginal_from h⟩
  case h_2 =>
    dsimp only at h
    split at h
    case h_1 got hgot =>
      obtain ⟨server, -, hserver⟩ := Option.bind_eq_some_iff.mp hgot
      obtain rfl := Option.some.inj h
      exact .inr ⟨0, server, askOriginal_from hserver⟩
    case h_2 =>
      split at h
      case h_1 => exact .inl (dnsExchange_from h)
      case h_2 server _ =>
        split at h
        · exact .inl (dnsExchange_from h)
        · rcases Option.or_eq_some_iff.mp h with halt | ⟨-, hreply⟩
          · exact .inr ⟨_, server, askOriginal_from (Option.filter_eq_some_iff.mp halt).1⟩
          · exact .inl (dnsExchange_from hreply)

theorem question_fits {info : QueryInfo} (hinfo : dnsQueryInfo query DNS_NAME_MAX = some info) :
    ∃ q, HasQuestion query q ∧ 12 + q.wire.length ≤ FWD_MSG_MAX := by
  obtain ⟨q, hq, hwire, -⟩ := dnsQueryInfo_question hinfo
  refine ⟨q, hq, ?_⟩
  unfold DNS_NAME_MAX at hwire
  unfold FWD_MSG_MAX
  omega

theorem answer_isSome : (m.answer query).isSome = (dnsQueryInfo query DNS_NAME_MAX).isSome := by
  rw [Moment.answer, answer]
  cases hinfo : dnsQueryInfo query DNS_NAME_MAX with
  | none => rfl
  | some info =>
      dsimp only
      cases hreply : (resolve m.transport m.original m.resolver query info.name m.orig m.now m.allocated).reply with
      | some reply => rfl
      | none =>
          obtain ⟨q, hq, hroom⟩ := question_fits hinfo
          obtain ⟨out, hout, -, -⟩ := servfail_replies hq hroom
          simp [hout]

theorem answer_replies (hfits : m.Fits) (h : m.answer query = some reply) :
    Replies query reply ∧ reply.length < 65536 := by
  rw [Moment.answer, answer] at h
  cases hinfo : dnsQueryInfo query DNS_NAME_MAX with
  | none => simp [hinfo] at h
  | some info =>
      obtain ⟨q, hq, hroom⟩ := question_fits hinfo
      simp only [hinfo, Bool.false_and, Bool.false_eq_true, if_false] at h
      cases hreply : (resolve m.transport m.original m.resolver query info.name m.orig m.now m.allocated).reply with
      | some reply' =>
          rw [hreply] at h
          obtain rfl := Option.some.inj h
          refine ⟨resolve_replies hq hreply, ?_⟩
          have hmax : FWD_MSG_MAX = 65535 := rfl
          rcases resolve_from hreply with ⟨i, hi⟩ | ⟨n, server, hserver⟩
          · have hle := hfits.transport i query _ hi
            omega
          · have hle := hfits.original n server query _ hserver
            omega
      | none =>
          obtain ⟨out, hout, hlen, hreplies⟩ := servfail_replies hq hroom
          rw [hreply] at h
          dsimp only at h
          rw [hout] at h
          obtain rfl := Option.some.inj h
          refine ⟨hreplies, ?_⟩
          unfold FWD_MSG_MAX at hroom
          omega

end Answers

section Run

variable {moments : Nat → Moment} {n : Nat}

theorem replies_cons {query : Bytes} {queries : List Bytes} (h : 12 ≤ query.length) :
    replies moments n (query :: queries) =
      match (moments n).answer query with
      | none => []
      | some reply => reply :: replies moments (n + 1) queries := by
  rw [replies, if_neg (by omega)]

-- What the worker has put on the wire is a beginning of the framed replies, and all of them
-- if the client takes what is sent.
structure Sends (s : Socket) (out : Bytes) (r : Socket) : Prop where
  part : ∃ part, r.sent = s.sent ++ part ∧ part <+: out
  whole : NoFailure s.sends → out.length ≤ progress s.sends → r.sent = s.sent ++ out

theorem Sends.nothing {s r : Socket} (h : r.sent = s.sent) : Sends s [] r := by
  rw [← List.append_nil s.sent] at h
  exact ⟨⟨[], h, List.prefix_rfl⟩, fun _ _ => h⟩

-- A frame that is sent, and what follows it if all of it is.
theorem Sends.after {s r : Socket} {buffer out : Bytes}
    (hgoes : (sendAll s buffer).1 = .ok → Sends (sendAll s buffer).2 out r)
    (hstops : (sendAll s buffer).1 ≠ .ok → r.sent = (sendAll s buffer).2.sent) : Sends s (buffer ++ out) r := by
  have hsent : (sendAll s buffer).2.sent = s.sent ++ (relaySendAll s.sends buffer).writes.flatten := rfl
  constructor
  · by_cases hok : (sendAll s buffer).1 = .ok
    · obtain ⟨part, hpart, hbegins⟩ := (hgoes hok).part
      rw [hsent, relaySendAll_ok _ _ hok] at hpart
      exact ⟨buffer ++ part, by rw [hpart, List.append_assoc], (List.prefix_append_right_inj _).mpr hbegins⟩
    · exact ⟨_, (hstops hok).trans hsent, (relaySendAll_begins _ _).trans (List.prefix_append _ _)⟩
  · intro hfree hroom
    rw [List.length_append] at hroom
    obtain ⟨hok, hfree', hleft⟩ := relaySendAll_progress s.sends buffer hfree (by omega)
    have hwhole := (hgoes hok).whole hfree' (by simp only [sendAll]; omega)
    rw [hwhole, hsent, relaySendAll_ok _ _ hok, List.append_assoc]

theorem tcpWorker_sends (s : Socket) :
    Sends s ((replies moments n (unframe (stream s.arrivals))).map frame).flatten (tcpWorker moments n s).1 := by
  induction hlen : (stream s.arrivals).length using Nat.strong_induction_on generalizing n s with
  | _ len ih =>
      rcases workerTurn_cases (moments n) s with ⟨query, left, hnext, hturn⟩ | ⟨hshort, left, ended, hturn⟩
      · rw [hnext.stream, unframe_frame hnext.short, replies_cons hnext.long]
        cases hanswer : (moments n).answer query with
        | none =>
            simp only [hanswer] at hturn
            rw [tcpWorker, hturn]
            exact .nothing rfl
        | some reply =>
            simp only [hanswer] at hturn
            simp only [List.map_cons, List.flatten_cons]
            have hkept : Sends { s with arrivals := left }
                (frame reply ++ ((replies moments (n + 1) (unframe (stream left))).map frame).flatten)
                (tcpWorker moments n s).1 := by
              refine .after (fun hok => ?_) fun hno => ?_
              · rw [hok] at hturn
                rw [tcpWorker, hturn]
                have hless := workerTurn_next hturn
                exact ih _ (by rw [← hlen]; exact hless) _ rfl
              · rw [tcpWorker]
                cases hstatus : (sendAll { s with arrivals := left } (frame reply)).1 with
                | ok => exact absurd hstatus hno
                | error | blocked =>
                    rw [hstatus] at hturn
                    rw [hturn]
            exact ⟨hkept.part, hkept.whole⟩
      · have hnone : replies moments n (unframe (stream s.arrivals)) = [] := by
          cases hqueries : unframe (stream s.arrivals) with
          | nil => rfl
          | cons query queries =>
              rw [hqueries] at hshort
              rw [replies, if_pos (hshort query rfl)]
        rw [hnone, tcpWorker, hturn]
        exact .nothing rfl

theorem replies_take (queries : List Bytes) :
    (replies moments n queries).length = (queries.takeWhile wellFormed).length := by
  induction queries generalizing n with
  | nil => rfl
  | cons query queries ih =>
      have hsome := @answer_isSome (moments n) query
      rw [replies, List.takeWhile_cons, wellFormed, ← hsome]
      by_cases hlong : query.length < 12
      · have hnot : decide (12 ≤ query.length) = false := decide_eq_false (by omega)
        rw [if_pos hlong, hnot]
        rfl
      · have hok : decide (12 ≤ query.length) = true := decide_eq_true (by omega)
        rw [if_neg hlong, hok, Bool.true_and]
        cases (moments n).answer query with
        | none => rfl
        | some reply =>
            rw [Option.isSome_some, if_pos rfl, List.length_cons, List.length_cons]
            exact congrArg (· + 1) ih

theorem replies_get {queries : List Bytes} {i : Nat} {reply : Bytes}
    (h : (replies moments n queries)[i]? = some reply) :
    ∃ query, queries[i]? = some query ∧ (moments (n + i)).answer query = some reply := by
  induction queries generalizing n i with
  | nil => simp [replies] at h
  | cons query queries ih =>
      rw [replies] at h
      split at h
      · simp at h
      · cases hanswer : (moments n).answer query with
        | none => simp [hanswer] at h
        | some first =>
            simp only [hanswer] at h
            cases i with
            | zero =>
                obtain rfl := Option.some.inj h
                exact ⟨query, rfl, hanswer⟩
            | succ i =>
                obtain ⟨query', hquery, hreply⟩ := ih h
                exact ⟨query', hquery, by rwa [show n + (i + 1) = n + 1 + i by omega]⟩

end Run

-- A client that sends queries over one connection reads, in their order, one reply to each
-- well-formed query up to the first that is not, however the bytes are cut on the way.
theorem tcpWorker_answers (moments : Nat → Moment) (hfits : ∀ n, (moments n).Fits) (s : Socket) (hnew : s.sent = []) :
    let queries := unframe (stream s.arrivals)
    let answers := replies moments 0 queries
    let r := tcpWorker moments 0 s
    answers.length = (queries.takeWhile wellFormed).length ∧
    (∀ (i : Nat) (reply : Bytes), answers[i]? = some reply → ∃ query, queries[i]? = some query ∧
      (moments i).answer query = some reply ∧ Replies query reply) ∧
    unframe r.1.sent <+: answers ∧
    (NoFailure s.sends → (answers.map frame).flatten.length ≤ progress s.sends → unframe r.1.sent = answers) := by
  intro queries answers r
  have hbound : ∀ reply ∈ answers, reply.length < 65536 := by
    intro reply hmem
    obtain ⟨i, hi⟩ := List.mem_iff_getElem?.mp hmem
    obtain ⟨query, -, hanswer⟩ := replies_get hi
    exact (answer_replies (hfits _) hanswer).2
  obtain ⟨⟨part, hpart, hbegins⟩, hwhole⟩ := @tcpWorker_sends moments 0 s
  rw [hnew, List.nil_append] at hpart hwhole
  refine ⟨replies_take _, fun i reply hi => ?_, ?_, fun hfree hroom => ?_⟩
  · obtain ⟨query, hquery, hanswer⟩ := replies_get hi
    rw [Nat.zero_add] at hanswer
    exact ⟨query, hquery, hanswer, (answer_replies (hfits _) hanswer).1⟩
  · rw [hpart]
    exact unframe_begins hbound hbegins
  · have hall := unframe_frames hbound []
    rw [List.append_nil, @unframe_short [] (.inl Nat.two_pos), List.append_nil] at hall
    rw [hwhole hfree hroom]
    exact hall

-- Two queries while no server answers, the first in three chunks.
def silent : Moment := ⟨fun _ _ => none, fun _ _ _ => none, dnsResolverInit 1 0, none, (0, 0), true⟩

theorem silent_fits : silent.Fits where
  transport _ _ _ h := by cases h
  original _ _ _ _ h := by cases h

def twoQueries : Socket :=
  ⟨[.sent 1, .interrupted, .sent 99], [.data [0], .data (25 :: (abcQuery 1).take 20), .data ((abcQuery 1).drop 20),
    .data (frame (abcQuery 2)), .eof], []⟩

theorem tcpWorker_answers_silent :
    unframe (tcpWorker (fun _ => silent) 0 twoQueries).1.sent <+:
      replies (fun _ => silent) 0 (unframe (stream twoQueries.arrivals)) :=
  (tcpWorker_answers (fun _ => silent) (fun _ => silent_fits) twoQueries rfl).2.2.1

end DpiProxy.Transparent
