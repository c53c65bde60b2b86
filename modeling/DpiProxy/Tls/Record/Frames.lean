import DpiProxy.Tls.Record.Theorems
import DpiProxy.Wire.Cursor

namespace DpiProxy.Tls

open Wire Record

-- A handshake record of TLS 1.0 to 1.3.
structure HandshakeRecord where
  minor : UInt8
  body : Bytes
  version : 1 ≤ minor.toNat ∧ minor.toNat ≤ 4

def HandshakeRecord.head (r : HandshakeRecord) : Bytes := header 0x16 3 r.minor r.body.length

def frames (records : List HandshakeRecord) : Bytes := records.flatMap fun r => r.head ++ r.body

def bodies (records : List HandshakeRecord) : Bytes := records.flatMap (·.body)

@[simp] theorem HandshakeRecord.length_head (r : HandshakeRecord) : r.head.length = 5 := rfl

theorem frames_cons (r : HandshakeRecord) (records : List HandshakeRecord) :
    frames (r :: records) = r.head ++ (r.body ++ frames records) := by
  rw [frames, List.flatMap_cons, List.append_assoc, frames]

theorem bodies_cons (r : HandshakeRecord) (records : List HandshakeRecord) :
    bodies (r :: records) = r.body ++ bodies records := List.flatMap_cons ..

theorem frames_append (rs rs' : List HandshakeRecord) : frames (rs ++ rs') = frames rs ++ frames rs' :=
  List.flatMap_append ..

theorem bodies_append (rs rs' : List HandshakeRecord) : bodies (rs ++ rs') = bodies rs ++ bodies rs' :=
  List.flatMap_append ..

theorem length_frames (records : List HandshakeRecord) :
    (frames records).length = 5 * records.length + (bodies records).length := by
  induction records with
  | nil => rfl
  | cons r records ih =>
      rw [frames_cons, bodies_cons]
      simp only [List.length_append, List.length_cons, HandshakeRecord.length_head]
      omega

section Loop

variable {input : Bytes} {outSize pos : Nat} {body : Bytes} {declared count : Nat}

-- The loop at the start of a record: type and length are those of the record.
theorem head_at {r : HandshakeRecord} {q : Bytes} (hq : input.drop pos = r.head ++ q)
    (hlen : r.body.length < 65536) :
    pos + 5 ≤ input.length ∧ byte input pos = 0x16 ∧ be16 input (pos + 3) = r.body.length ∧
      input.drop (pos + 5) = q := by
  have hhead := r.length_head
  have hin := le_length_at (by omega) hq
  have hrest := drop_at hq
  rw [hhead] at hin hrest
  refine ⟨hin, ?_, ?_, hrest⟩
  · exact byte_at hq
  · rw [← be16_drop, hq]
    exact be16_header _ _ _ _ hlen _

theorem coalesceLoop_frames (records : List HandshakeRecord) {q : Bytes}
    (hq : input.drop pos = frames records ++ q) (hsmall : (bodies records).length < 65536)
    (hfits : 5 + body.length + (bodies records).length ≤ outSize) :
    coalesceLoop input outSize pos body declared count =
      coalesceLoop input outSize (pos + (frames records).length) (body ++ bodies records)
        (declared + (bodies records).length) (count + records.length) := by
  induction records generalizing pos body declared count with
  | nil => simp [frames, bodies]
  | cons r records ih =>
      rw [frames_cons, List.append_assoc, List.append_assoc] at hq
      rw [bodies_cons, List.length_append] at hsmall hfits
      obtain ⟨hlen, hty, hrlen, hrest⟩ := head_at hq (by omega)
      have hl := congrArg List.length hrest
      rw [List.length_drop, List.length_append] at hl
      rw [coalesceLoop_whole hlen hty (by omega), hrlen, if_neg (by omega), slice_at hrest,
        ih (drop_at hrest) (by omega) (by rw [List.length_append]; omega), frames_cons, bodies_cons]
      simp only [List.length_append, List.length_cons, HandshakeRecord.length_head,
        List.append_assoc]
      congr 1 <;> omega

end Loop

-- What the single-record parser gets to see of a buffer: its first header or the
-- merged one, then the handshake bytes and what follows them.
def Shown (buffer view : Bytes) (outSize : Nat) : Prop :=
  ∃ head : Bytes, head.length = 5 ∧ byte head 0 = 0x16 ∧
    (tlsCoalesceHandshakeRecords buffer outSize).getD buffer = head ++ view

-- A buffer that starts with a handshake record is shown as the loop leaves it; with
-- one record the buffer itself has this form.
theorem shown_of_loop {buffer body : Bytes} {outSize pos declared count : Nat}
    (hfive : 5 ≤ buffer.length) (hty : byte buffer 0 = 0x16)
    (hloop : coalesceLoop buffer outSize 0 [] 0 0 = some (pos, body, declared, count))
    (hone : count < 2 → buffer.drop 5 = body ++ buffer.drop pos) (hcap : declared ≤ 16384)
    (hfits : 5 + body.length + (buffer.length - pos) ≤ outSize) :
    Shown buffer (body ++ buffer.drop pos) outSize := by
  have hstart : ¬(buffer.length < 5 ∨ byte buffer 0 ≠ 0x16) := by
    rintro (hshort | htype)
    · omega
    · exact htype hty
  have hresult : tlsCoalesceHandshakeRecords buffer outSize =
      if count < 2 ∨ declared > 16384 ∨ 5 + body.length + (buffer.length - pos) > outSize then none
      else some (header 0x16 (byte buffer 1) (byte buffer 2) declared ++ (body ++ buffer.drop pos)) := by
    rw [tlsCoalesceHandshakeRecords, if_neg hstart, hloop]
    rfl
  by_cases hcount : count < 2
  · rw [if_pos (Or.inl hcount)] at hresult
    refine ⟨buffer.take 5, ?_, ?_, ?_⟩
    · rw [List.length_take, Nat.min_eq_left hfive]
    · rw [byte_take, if_pos (by omega), hty]
    · rw [hresult, Option.getD_none, ← hone hcount, List.take_append_drop]
  · rw [if_neg (by omega)] at hresult
    refine ⟨header 0x16 (byte buffer 1) (byte buffer 2) declared, rfl, rfl, ?_⟩
    rw [hresult, Option.getD_some]

theorem frames_starts (records : List HandshakeRecord) (hne : records ≠ []) (q : Bytes) :
    5 ≤ (frames records ++ q).length ∧ byte (frames records ++ q) 0 = 0x16 := by
  cases records with
  | nil => exact absurd rfl hne
  | cons r records =>
      rw [frames_cons]
      refine ⟨?_, rfl⟩
      simp only [List.length_append, HandshakeRecord.length_head]
      omega

-- Whole records and then something that does not start another record.
theorem shown_whole {records : List HandshakeRecord} (outSize : Nat) (hne : records ≠ []) {q : Bytes}
    (hq : ¬(5 ≤ q.length ∧ byte q 0 = 0x16)) (hfits : (frames records ++ q).length ≤ outSize)
    (hcap : (bodies records).length ≤ 16384) :
    Shown (frames records ++ q) (bodies records ++ q) outSize := by
  have hlen := length_frames records
  have hcount : 0 < records.length := List.length_pos_iff.mpr hne
  obtain ⟨hfive, hty⟩ := frames_starts records hne q
  rw [List.length_append] at hfits
  have hdrop : (frames records ++ q).drop (frames records).length = q := List.drop_left
  have hloop : coalesceLoop (frames records ++ q) outSize 0 [] 0 0 =
      some ((frames records).length, bodies records, (bodies records).length, records.length) := by
    rw [coalesceLoop_frames records (q := q) rfl (by omega) (by rw [List.length_nil]; omega),
      coalesceLoop_exit]
    · simp only [Nat.zero_add, List.nil_append]
    · rintro ⟨hlast, hbyte⟩
      rw [Nat.zero_add] at hlast hbyte
      rw [List.length_append] at hlast
      apply hq
      refine ⟨by omega, ?_⟩
      rw [← hbyte, byte_append, if_neg (by omega), Nat.sub_self]
  have hshown := shown_of_loop hfive hty hloop ?_ hcap ?_
  · rwa [hdrop] at hshown
  · intro hone
    obtain ⟨r, rfl⟩ : ∃ r, records = [r] := List.length_eq_one_iff.mp (by omega)
    rw [hdrop]
    simp [frames, bodies, HandshakeRecord.head, header]
  · rw [List.length_append]
    omega

-- Whole records and then one that has arrived in part.
theorem shown_part (records : List HandshakeRecord) (outSize : Nat) {r : HandshakeRecord} {k : Nat}
    (hk : k < r.body.length) (hfits : (frames records ++ (r.head ++ r.body)).length ≤ outSize)
    (hcap : (bodies records ++ r.body).length ≤ 16384) :
    Shown (frames records ++ (r.head ++ r.body.take k)) (bodies records ++ r.body.take k) outSize := by
  have hlen := length_frames records
  rw [List.length_append] at hcap
  simp only [List.length_append, HandshakeRecord.length_head] at hfits
  have htake : (r.body.take k).length = k := by
    rw [List.length_take]
    omega
  let buffer := frames records ++ (r.head ++ r.body.take k)
  have hbuffer : buffer.length = (frames records).length + (5 + k) := by
    simp only [buffer, List.length_append, HandshakeRecord.length_head, htake]
  have hstarts : 5 ≤ buffer.length ∧ byte buffer 0 = 0x16 := by
    refine ⟨by omega, ?_⟩
    cases records with
    | nil => rfl
    | cons r' records =>
        exact (frames_starts (r' :: records) (List.cons_ne_nil _ _) _).2
  have hdrop : buffer.drop (frames records).length = r.head ++ r.body.take k := List.drop_left
  obtain ⟨hhead, hty, hrlen, hrest⟩ := head_at hdrop (by omega)
  have hend : buffer.length - (frames records).length - 5 = k := by omega
  have hloop : coalesceLoop buffer outSize 0 [] 0 0 =
      some ((frames records).length + 5 + k, bodies records ++ r.body.take k,
        (bodies records).length + r.body.length, records.length + 1) := by
    rw [coalesceLoop_frames records (q := r.head ++ r.body.take k) rfl (by omega)
      (by rw [List.length_nil]; omega)]
    simp only [Nat.zero_add, List.nil_append]
    rw [coalesceLoop_part hhead hty (by omega), hend, if_neg (by omega), hrlen, slice, hrest,
      List.take_of_length_le (by omega)]
  have hnil : buffer.drop ((frames records).length + 5 + k) = [] := by
    rw [List.drop_eq_nil_iff]
    omega
  have hshown := shown_of_loop hstarts.1 hstarts.2 hloop ?_ (by omega) ?_
  · rwa [hnil, List.append_nil] at hshown
  · intro hone
    obtain rfl : records = [] := List.length_eq_zero_iff.mp (by omega)
    rw [hnil, List.append_nil]
    exact hrest
  · rw [List.length_append]
    omega

-- Where a beginning of a record stream can end: in a header, in a body, or behind
-- the handshake records.
theorem frames_beginning (records : List HandshakeRecord) {rest p more : Bytes}
    (h : p ++ more = frames records ++ rest) :
    (∃ before r after j, records = before ++ r :: after ∧ j < 5 ∧
      p = frames before ++ r.head.take j) ∨
    (∃ before r after k, records = before ++ r :: after ∧ k < r.body.length ∧
      p = frames before ++ (r.head ++ r.body.take k)) ∨
    ∃ j, p = frames records ++ rest.take j := by
  induction records generalizing p with
  | nil =>
      refine .inr (.inr ⟨p.length, ?_⟩)
      rw [frames, List.flatMap_nil, List.nil_append] at h
      rw [← h, List.take_left]
      rfl
  | cons r records ih =>
      have hp := congrArg (List.take p.length) h
      rw [List.take_left, frames_cons, List.append_assoc, List.append_assoc] at hp
      by_cases hhead : p.length < 5
      · refine .inl ⟨[], r, records, p.length, rfl, hhead, ?_⟩
        rwa [List.take_append_of_le_length (by rw [HandshakeRecord.length_head]; omega)] at hp
      obtain ⟨n, hn⟩ := Nat.exists_eq_add_of_le (Nat.le_of_not_lt hhead)
      rw [hn, ← HandshakeRecord.length_head r, List.take_length_add_append] at hp
      by_cases hbody : n < r.body.length
      · refine .inr (.inl ⟨[], r, records, n, rfl, hbody, ?_⟩)
        rwa [List.take_append_of_le_length (by omega)] at hp
      · obtain ⟨m, hm⟩ := Nat.exists_eq_add_of_le (Nat.le_of_not_lt hbody)
        rw [hm, List.take_length_add_append] at hp
        have htail : (frames records ++ rest).take m ++ more = frames records ++ rest := by
          rw [hp, frames_cons, List.append_assoc, List.append_assoc, List.append_assoc,
            List.append_assoc] at h
          exact List.append_cancel_left (List.append_cancel_left h)
        rcases ih htail with ⟨before, r', after, j, rfl, hj, heq⟩ | ⟨before, r', after, k, rfl, hk, heq⟩ |
          ⟨j, heq⟩
        · refine .inl ⟨r :: before, r', after, j, rfl, hj, ?_⟩
          rw [hp, heq, frames_cons, List.append_assoc, List.append_assoc]
        · refine .inr (.inl ⟨r :: before, r', after, k, rfl, hk, ?_⟩)
          rw [hp, heq, frames_cons, List.append_assoc, List.append_assoc]
        · refine .inr (.inr ⟨j, ?_⟩)
          rw [hp, heq, frames_cons, List.append_assoc, List.append_assoc]

end DpiProxy.Tls
