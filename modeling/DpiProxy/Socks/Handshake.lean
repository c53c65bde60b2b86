import DpiProxy.Socks
import DpiProxy.Wire.Frame

namespace DpiProxy.Socks

open Wire Relay Calls

-- What the peer of a socket says and how that ends, and what the socket takes.
structure Told where
  bytes : Bytes
  ending : Received
  sends : List SendResult
  sent : Bytes

def told (s : Socket) : Told := ⟨stream s.arrivals, ending s.arrivals, s.sends, s.sent⟩

def Received.stop : Received → Stop
  | .blocked => .blocked
  | _ => .failed

namespace Told

def receive (length : Nat) : Call Stop Told Bytes := fun t =>
  if length ≤ t.bytes.length then (.ok (t.bytes.take length), { t with bytes := t.bytes.drop length })
  else (.error (Received.stop t.ending), t)

def write (buffer : Bytes) : Call Stop Told Unit := fun t =>
  let r := send t.sends buffer
  (returned r.status, { t with sends := r.left, sent := t.sent ++ r.writes.flatten })

def peer : Endpoint Told := ⟨receive, write⟩

theorem peer_receive (length : Nat) : peer.receive length = receive length := rfl

theorem peer_write (buffer : Bytes) : peer.write buffer = write buffer := rfl

theorem receive_ok {length : Nat} {t t' : Told} {bytes : Bytes} :
    receive length t = (.ok bytes, t') ↔
      bytes.length = length ∧ t.bytes = bytes ++ t'.bytes ∧ t' = { t with bytes := t'.bytes } := by
  unfold receive
  constructor
  · intro h
    split at h
    · rename_i hle
      obtain ⟨hok, rfl⟩ := Prod.mk.inj h
      obtain rfl := Except.ok.inj hok
      exact ⟨List.length_take_of_le hle, (List.take_append_drop _ _).symm, rfl⟩
    · cases (Prod.mk.inj h).1
  · rintro ⟨rfl, hbytes, hrest⟩
    have hle : bytes.length ≤ t.bytes.length := by
      rw [hbytes, List.length_append]
      omega
    rw [if_pos hle, hbytes, List.take_left, List.drop_left, ← hrest]

end Told

theorem write_agrees (buffer : Bytes) :
    Agrees (fun s t => told s = t) (fun s t => told s = t) (write buffer) (Told.write buffer) := by
  rintro s t rfl
  exact ⟨rfl, rfl, fun _ _ => rfl⟩

theorem receive_agrees (length : Nat) :
    Agrees (fun s t => told s = t) (fun s t => s.sent = t.sent) (receive length) (Told.receive length) := by
  rintro s t rfl
  unfold Told.receive receive told
  dsimp only
  by_cases hle : length ≤ (stream s.arrivals).length
  · obtain ⟨left, hall, hstream, hending⟩ := recvExact_all hle
    simp [hall, hle, hstream, hending]
  · have hshort := recvExact_short (Nat.lt_of_not_le hle)
    have hnot := @ending_ne_all s.arrivals
    rcases hr : recvExact length s.arrivals with ⟨r, left⟩
    rw [hr] at hshort
    dsimp only at hshort
    rw [if_neg hle, ← hshort]
    cases r with
    | all bytes => exact absurd hshort.symm (hnot bytes)
    | eof => simp [Received.stop]
    | error => simp [Received.stop]
    | blocked => simp [Received.stop]

-- The handshake sees a socket only through what its peer says.
theorem handshake_agrees (inetNtop : Bytes → Bytes) :
    Agrees (fun s t => told s = t) (fun s t => s.sent = t.sent) (handshake socket inetNtop)
      (handshake Told.peer inetNtop) := by
  have hfin : ∀ s t, told s = t → s.sent = t.sent := by
    rintro s t rfl
    rfl
  have hport : ∀ host, Agrees (fun s t => told s = t) (fun s t => s.sent = t.sent) (readPort socket host)
      (readPort Told.peer host) :=
    fun host => (receive_agrees 2).bind fun _ => .pure hfin _
  have hwrite : ∀ buffer, Agrees (fun s t => told s = t) (fun s t => s.sent = t.sent) (write buffer)
      (Told.write buffer) := by
    intro buffer s t hst
    obtain ⟨hresult, hstop, hgoes⟩ := write_agrees buffer s t hst
    exact ⟨hresult, hfin _ _ hstop, hgoes⟩
  refine Agrees.bind ?_ fun _ => ?_
  · refine (receive_agrees 2).bind fun header => .ite (.throw hfin _) (.ite (.throw hfin _) ?_)
    exact (receive_agrees _).bind fun _ => hwrite _
  · refine (receive_agrees 4).bind fun header => .ite (.throw hfin _) (.ite ?_ (.ite ?_ (.ite ?_ ?_)))
    · refine (receive_agrees 1).bind fun length => .ite (.throw hfin _) ?_
      exact (receive_agrees _).bind fun host => hport _
    · exact (receive_agrees 4).bind fun addr4 => hport _
    · exact (receive_agrees 16).bind fun addr6 => hport _
    · refine ((write_agrees _).attempt hfin).bind fun result => ?_
      split <;> exact .throw hfin _

-- How the client's bytes are cut into chunks makes no difference, in a handshake that fails
-- as in one that does not.
theorem handshake_chunk_independent (inetNtop : Bytes → Bytes) (s s' : Socket)
    (hstream : stream s.arrivals = stream s'.arrivals) (hending : ending s.arrivals = ending s'.arrivals)
    (hsends : s.sends = s'.sends) (hsent : s.sent = s'.sent) :
    let r := handshake socket inetNtop s
    let r' := handshake socket inetNtop s'
    r.1 = r'.1 ∧ r.2.sent = r'.2.sent ∧ ∀ target, r.1 = .ok target →
      stream r.2.arrivals = stream r'.2.arrivals ∧ ending r.2.arrivals = ending r'.2.arrivals := by
  intro r r'
  have hsame : told s' = told s := by
    rw [told, told, hstream, hending, hsends, hsent]
  obtain ⟨hresult, hstop, hgoes⟩ := handshake_agrees inetNtop s (told s) rfl
  obtain ⟨hresult', hstop', hgoes'⟩ := handshake_agrees inetNtop s' (told s) hsame
  refine ⟨hresult.trans hresult'.symm, hstop.trans hstop'.symm, fun target hok => ?_⟩
  have htold := (hgoes target hok).trans (hgoes' target (hresult'.trans (hresult.symm.trans hok))).symm
  exact ⟨congrArg Told.bytes htold, congrArg Told.ending htold⟩

-- One request for the host ab and port 443, in one chunk and in six.
theorem handshake_chunk_independent_cut :
    (handshake socket id ⟨[.sent 2], [.data [5, 1, 0, 5, 1, 0, 3, 2, 97, 98, 1, 187, 22]], []⟩).1 =
      (handshake socket id ⟨[.sent 2], [.data [5, 1], .interrupted, .data [0], .data [5, 1, 0, 3, 2, 97],
        .data [98], .data [1], .data [187, 22]], []⟩).1 :=
  (handshake_chunk_independent id ⟨[.sent 2], [.data [5, 1, 0, 5, 1, 0, 3, 2, 97, 98, 1, 187, 22]], []⟩
    ⟨[.sent 2], [.data [5, 1], .interrupted, .data [0], .data [5, 1, 0, 3, 2, 97], .data [98], .data [1],
      .data [187, 22]], []⟩ (by decide) (by decide) rfl rfl).1

example : (handshake socket id ⟨[.sent 2], [.data [5, 1], .interrupted, .data [0], .data [5, 1, 0, 3, 2, 97],
    .data [98], .data [1], .data [187, 22]], []⟩) =
    (.ok ⟨[97, 98], 443⟩, ⟨[], [.data [22]], [5, 0]⟩) := rfl

-- The address of a request, as the client gives it.
inductive Address where
  | domain (name : Bytes) (some : 0 < name.length) (most : name.length < HOST_SIZE)
  | ipv4 (addr4 : Bytes) (four : addr4.length = 4)
  | ipv6 (addr6 : Bytes) (sixteen : addr6.length = 16)

def Address.atyp : Address → UInt8
  | .domain .. => 3
  | .ipv4 .. => 1
  | .ipv6 .. => 4

def Address.bytes : Address → Bytes
  | .domain name .. => UInt8.ofNat name.length :: name
  | .ipv4 addr4 _ => addr4
  | .ipv6 addr6 _ => addr6

def Address.host (inetNtop : Bytes → Bytes) : Address → Bytes
  | .domain name .. => cstr name
  | .ipv4 addr4 _ => inetNtop addr4
  | .ipv6 addr6 _ => inetNtop addr6

-- What a client says before its payload: the methods it offers, and the address it wants
-- to connect to.
structure Request where
  methods : Bytes
  reserved : UInt8
  address : Address
  port : UInt16
  some : 0 < methods.length
  most : methods.length ≤ 255

def Request.greeting (r : Request) : Bytes := 5 :: UInt8.ofNat r.methods.length :: r.methods

def Request.command (r : Request) : Bytes :=
  [5, 1, r.reserved, r.address.atyp] ++ r.address.bytes ++ field16 r.port.toNat

def Request.bytes (r : Request) : Bytes := r.greeting ++ r.command

def Request.target (inetNtop : Bytes → Bytes) (r : Request) : Target := ⟨r.address.host inetNtop, r.port.toNat⟩

section Decode

variable {t t' : Told}

theorem write_ok {buffer : Bytes} {u : Unit} : Told.write buffer t = (.ok u, t') ↔
    ∃ count sends, t.sends = .sent count :: sends ∧ buffer.length ≤ count ∧
      t' = { t with sends := sends, sent := t.sent ++ buffer } := by
  constructor
  · intro h
    have hok : (send t.sends buffer).status = .ok := by
      have hreturned := (Prod.mk.inj h).1
      cases hstatus : (send t.sends buffer).status with
      | ok => rfl
      | error => rw [hstatus] at hreturned; cases hreturned
      | blocked => rw [hstatus] at hreturned; cases hreturned
    obtain ⟨count, sends, hsends, hle⟩ := send_ok hok
    refine ⟨count, sends, hsends, hle, ?_⟩
    have hleft := (Prod.mk.inj h).2
    rw [hsends, send_whole _ hle, List.flatten_singleton] at hleft
    exact hleft.symm
  · rintro ⟨count, sends, hsends, hle, rfl⟩
    rw [Told.write, hsends, send_whole _ hle]
    simp only [List.flatten_singleton, returned]

theorem pair_of_length {b : Bytes} (h : b.length = 2) : b = [byte b 0, byte b 1] := by
  match b, h with
  | [x, y], _ => rfl

theorem quad_of_length {b : Bytes} (h : b.length = 4) : b = [byte b 0, byte b 1, byte b 2, byte b 3] := by
  match b, h with
  | [x, y, z, w], _ => rfl

theorem negotiate_ok {u : Unit} : socksNegotiate Told.peer t = (.ok u, t') ↔
    ∃ methods count sends, 0 < methods.length ∧ methods.length ≤ 255 ∧
      t.bytes = 5 :: UInt8.ofNat methods.length :: methods ++ t'.bytes ∧
      t.sends = .sent count :: sends ∧ 2 ≤ count ∧
      t' = ⟨t'.bytes, t.ending, sends, t.sent ++ [5, 0]⟩ := by
  simp only [socksNegotiate, bind_ok, ite_throw_ok, Told.peer_receive, Told.receive_ok, Told.peer_write, write_ok]
  constructor
  · rintro ⟨header, t₁, ⟨hlen, hbytes, ht₁⟩, hversion, hsome, methods, t₂, ⟨hmethods, hbytes', ht₂⟩,
      count, sends, hsends, hcount, rfl⟩
    rw [ne_eq, not_not] at hversion
    have hpos : (byte header 1).toNat ≠ 0 := fun hzero => hsome (UInt8.toNat_inj.mp hzero)
    have hlt := (byte header 1).toNat_lt
    refine ⟨methods, count, sends, by omega, by omega, ?_, ?_, hcount, ?_⟩
    · rw [hbytes, hbytes', hmethods, UInt8.ofNat_toNat, pair_of_length hlen, hversion]
      rfl
    · rw [← hsends, ht₂, ht₁]
    · rw [ht₂, ht₁]
  · rintro ⟨methods, count, sends, hpos, hmax, hbytes, hsends, hcount, ht'⟩
    have hn : (UInt8.ofNat methods.length).toNat = methods.length := by
      rw [UInt8.toNat_ofNat']
      omega
    refine ⟨[5, UInt8.ofNat methods.length], { t with bytes := methods ++ t'.bytes }, ⟨rfl, hbytes, rfl⟩,
      by simp [byte], ?_, methods, { t with bytes := t'.bytes }, ⟨hn.symm, rfl, rfl⟩, count, sends, hsends,
      hcount, ht'⟩
    intro hzero
    have hnat : (UInt8.ofNat methods.length).toNat = 0 := congrArg UInt8.toNat hzero
    omega

theorem readPort_ok {host : Bytes} {target : Target} : readPort Told.peer host t = (.ok target, t') ↔
    ∃ port : UInt16, target = ⟨host, port.toNat⟩ ∧
      t.bytes = field16 port.toNat ++ t'.bytes ∧ t' = { t with bytes := t'.bytes } := by
  simp only [readPort, bind_ok, Told.peer_receive, Told.receive_ok, pure_run]
  constructor
  · rintro ⟨port, t₁, ⟨hlen, hbytes, ht₁⟩, h⟩
    obtain ⟨htarget, rfl⟩ := Prod.mk.inj h
    have hport : (UInt16.ofNat (be16 port 0)).toNat = be16 port 0 := by
      have hlt := be16_lt port 0
      rw [UInt16.toNat_ofNat']
      omega
    refine ⟨UInt16.ofNat (be16 port 0), ?_, ?_, ht₁⟩
    · rw [hport]
      exact (Except.ok.inj htarget).symm
    · rw [hport, field16_be16 hlen]
      exact hbytes
  · rintro ⟨port, rfl, hbytes, ht'⟩
    refine ⟨_, t', ⟨rfl, hbytes, ht'⟩, ?_⟩
    have hport := be16_field16 port.toNat_lt []
    rw [List.append_nil] at hport
    rw [hport]

-- What read_target has read when it gives a target.
theorem readTarget_parses {inetNtop : Bytes → Bytes} {target : Target}
    (h : readTarget Told.peer inetNtop t = (.ok target, t')) :
    ∃ (reserved : UInt8) (address : Address) (port : UInt16), target = ⟨address.host inetNtop, port.toNat⟩ ∧
      t.bytes = [5, 1, reserved, address.atyp] ++ address.bytes ++ field16 port.toNat ++ t'.bytes ∧
      t' = { t with bytes := t'.bytes } := by
  simp only [readTarget, bind_ok, ite_throw_ok, Told.peer_receive, Told.receive_ok] at h
  obtain ⟨header, t₁, ⟨hlen, hbytes, ht₁⟩, hversion, h⟩ := h
  rw [not_or, ne_eq, not_not, ne_eq, not_not] at hversion
  have hheader : header = [5, 1, byte header 2, byte header 3] := by
    conv_lhs => rw [quad_of_length hlen, hversion.1, hversion.2]
  have hread : ∀ (address : Address) (t₂ : Told), byte header 3 = address.atyp →
      t₁.bytes = address.bytes ++ t₂.bytes → t₂ = { t₁ with bytes := t₂.bytes } →
      readPort Told.peer (address.host inetNtop) t₂ = (.ok target, t') →
      ∃ (reserved : UInt8) (address : Address) (port : UInt16), target = ⟨address.host inetNtop, port.toNat⟩ ∧
        t.bytes = [5, 1, reserved, address.atyp] ++ address.bytes ++ field16 port.toNat ++ t'.bytes ∧
        t' = { t with bytes := t'.bytes } := by
    intro address t₂ hatyp hbytes' ht₂ hport
    obtain ⟨port, htarget, hbytes'', ht'⟩ := readPort_ok.mp hport
    refine ⟨byte header 2, address, port, htarget, ?_, ?_⟩
    · rw [hbytes, hbytes', hbytes'', hheader, hatyp]
      simp [byte]
    · rw [ht', ht₂, ht₁]
  split at h
  · rename_i hatyp
    simp only [bind_ok, ite_throw_ok, Told.receive_ok] at h
    obtain ⟨length, t₂, ⟨hone, hbytes', ht₂⟩, hlength, name, t₃, ⟨hname, hbytes'', ht₃⟩, h⟩ := h
    rw [not_or] at hlength
    have hmost := (byte length 0).toNat_lt
    refine hread (.domain name (by omega) (by omega)) t₃ hatyp ?_ ?_ h
    · rw [hbytes', hbytes'', Address.bytes, hname, UInt8.ofNat_toNat]
      match length, hone with
      | [c], _ => rfl
    · rw [ht₃, ht₂]
  · split at h
    · rename_i hatyp
      simp only [bind_ok, Told.receive_ok] at h
      obtain ⟨addr4, t₂, ⟨hfour, hbytes', ht₂⟩, h⟩ := h
      exact hread (.ipv4 addr4 hfour) t₂ hatyp hbytes' ht₂ h
    · split at h
      · rename_i hatyp
        simp only [bind_ok, Told.receive_ok] at h
        obtain ⟨addr6, t₂, ⟨hsixteen, hbytes', ht₂⟩, h⟩ := h
        exact hread (.ipv6 addr6 hsixteen) t₂ hatyp hbytes' ht₂ h
      · simp only [bind_ok] at h
        obtain ⟨result, t₂, -, h⟩ := h
        split at h
        · exact (throw_ok.mp h).elim
        · exact (throw_ok.mp h).elim

-- A request is read to its end.
theorem readTarget_reads {inetNtop : Bytes → Bytes} {reserved : UInt8} {address : Address} {port : UInt16}
    {rest : Bytes} (hbytes : t.bytes = [5, 1, reserved, address.atyp] ++ address.bytes ++ field16 port.toNat ++ rest) :
    readTarget Told.peer inetNtop t = (.ok ⟨address.host inetNtop, port.toNat⟩, { t with bytes := rest }) := by
  simp only [readTarget, bind_ok, ite_throw_ok, Told.peer_receive, Told.receive_ok]
  have hport : ∀ t₂ : Told, t₂ = { t with bytes := field16 port.toNat ++ rest } →
      readPort Told.peer (address.host inetNtop) t₂ =
        (.ok ⟨address.host inetNtop, port.toNat⟩, { t with bytes := rest }) := by
    rintro t₂ rfl
    exact readPort_ok.mpr ⟨port, rfl, rfl, rfl⟩
  refine ⟨[5, 1, reserved, address.atyp],
    { t with bytes := address.bytes ++ field16 port.toNat ++ rest }, ⟨rfl, by simp [hbytes], rfl⟩,
    by simp [byte], ?_⟩
  have hatyp : byte [5, 1, reserved, address.atyp] 3 = address.atyp := rfl
  rw [hatyp]
  cases address with
  | domain name hsome hmost =>
      have hn : (UInt8.ofNat name.length).toNat = name.length := by
        rw [UInt8.toNat_ofNat']
        exact Nat.mod_eq_of_lt hmost
      rw [Address.atyp, if_pos rfl]
      simp only [bind_ok, ite_throw_ok, Told.receive_ok]
      refine ⟨[UInt8.ofNat name.length], { t with bytes := name ++ field16 port.toNat ++ rest },
        ⟨rfl, rfl, rfl⟩, ?_, name, { t with bytes := field16 port.toNat ++ rest },
        ⟨hn.symm, by simp, rfl⟩, hport _ rfl⟩
      change ¬((UInt8.ofNat name.length).toNat = 0 ∨ (UInt8.ofNat name.length).toNat ≥ HOST_SIZE)
      omega
  | ipv4 addr4 hfour =>
      rw [Address.atyp, if_neg (by decide), if_pos rfl]
      simp only [bind_ok, Told.receive_ok]
      exact ⟨addr4, { t with bytes := field16 port.toNat ++ rest },
        ⟨hfour, by simp [Address.bytes], rfl⟩, hport _ rfl⟩
  | ipv6 addr6 hsixteen =>
      rw [Address.atyp, if_neg (by decide), if_neg (by decide), if_pos rfl]
      simp only [bind_ok, Told.receive_ok]
      exact ⟨addr6, { t with bytes := field16 port.toNat ++ rest },
        ⟨hsixteen, by simp [Address.bytes], rfl⟩, hport _ rfl⟩

theorem readTarget_ok {inetNtop : Bytes → Bytes} {target : Target} :
    readTarget Told.peer inetNtop t = (.ok target, t') ↔
      ∃ (reserved : UInt8) (address : Address) (port : UInt16), target = ⟨address.host inetNtop, port.toNat⟩ ∧
        t.bytes = [5, 1, reserved, address.atyp] ++ address.bytes ++ field16 port.toNat ++ t'.bytes ∧
        t' = { t with bytes := t'.bytes } := by
  refine ⟨readTarget_parses, ?_⟩
  rintro ⟨reserved, address, port, rfl, hbytes, ht'⟩
  rw [readTarget_reads hbytes, ← ht']

theorem handshake_ok {inetNtop : Bytes → Bytes} {target : Target} :
    handshake Told.peer inetNtop t = (.ok target, t') ↔
      ∃ (r : Request) (count : Nat) (sends : List SendResult), t.bytes = r.bytes ++ t'.bytes ∧
        r.target inetNtop = target ∧ t.sends = .sent count :: sends ∧ 2 ≤ count ∧
        t' = ⟨t'.bytes, t.ending, sends, t.sent ++ [5, 0]⟩ := by
  simp only [handshake, bind_ok, negotiate_ok, readTarget_ok]
  constructor
  · rintro ⟨-, t₁, ⟨methods, count, sends, hpos, hmax, hbytes, hsends, hcount, ht₁⟩,
      reserved, address, port, htarget, hbytes', ht'⟩
    refine ⟨⟨methods, reserved, address, port, hpos, hmax⟩, count, sends, ?_, htarget.symm, hsends, hcount, ?_⟩
    · simp [hbytes, hbytes', Request.bytes, Request.greeting, Request.command]
    · rw [ht', ht₁]
  · rintro ⟨r, count, sends, hbytes, htarget, hsends, hcount, ht'⟩
    refine ⟨(), ⟨r.command ++ t'.bytes, t.ending, sends, t.sent ++ [5, 0]⟩, ⟨r.methods, count, sends, r.some, r.most,
      ?_, hsends, hcount, rfl⟩, r.reserved, r.address, r.port, htarget.symm, ?_, ht'⟩
    · rw [hbytes, Request.bytes, Request.greeting, List.append_assoc]
    · rfl

end Decode

-- What a handshake that succeeds has read and sent.
theorem handshake_request {inetNtop : Bytes → Bytes} {s s' : Socket} {target : Target}
    (hrun : handshake socket inetNtop s = (.ok target, s')) :
    ∃ r : Request, stream s.arrivals = r.bytes ++ stream s'.arrivals ∧ r.target inetNtop = target ∧
      (∃ count, s.sends = .sent count :: s'.sends ∧ 2 ≤ count) ∧ s'.sent = s.sent ++ [5, 0] := by
  obtain ⟨hresult, -, hgoes⟩ := handshake_agrees inetNtop s (told s) rfl
  rw [hrun] at hresult hgoes
  have hpeer : handshake Told.peer inetNtop (told s) = (.ok target, told s') :=
    Prod.ext hresult.symm (hgoes target rfl).symm
  obtain ⟨r, count, sends, hbytes, htarget, hsends, hcount, htold⟩ := handshake_ok.mp hpeer
  obtain rfl : s'.sends = sends := congrArg Told.sends htold
  exact ⟨r, hbytes, htarget, ⟨count, hsends, hcount⟩, congrArg Told.sent htold⟩

-- An address type that is not supported is answered, if the send takes the answer.
theorem readTarget_unsupported {inetNtop : Bytes → Bytes} {t : Told} {reserved atyp : UInt8} {rest : Bytes}
    {count : Nat} {left : List SendResult} (hbytes : t.bytes = [5, 1, reserved, atyp] ++ rest)
    (hatyp : atyp ≠ 3 ∧ atyp ≠ 1 ∧ atyp ≠ 4) (hsends : t.sends = .sent count :: left) (hcount : 10 ≤ count) :
    readTarget Told.peer inetNtop t =
      (.error .failed, { t with bytes := rest, sends := left, sent := t.sent ++ resultReply false }) := by
  have hheader : Told.receive 4 t = (.ok [5, 1, reserved, atyp], { t with bytes := rest }) :=
    Told.receive_ok.mpr ⟨rfl, hbytes, rfl⟩
  have hwrite : Told.write (resultReply false) { t with bytes := rest } =
      (.ok (), { t with bytes := rest, sends := left, sent := t.sent ++ resultReply false }) :=
    write_ok.mpr ⟨count, left, hsends, hcount, rfl⟩
  have hnot : byte [5, 1, reserved, atyp] 3 = atyp := rfl
  rw [readTarget, bind_run, Told.peer_receive, hheader]
  dsimp only
  rw [if_neg (by simp [byte]), hnot, if_neg hatyp.1, if_neg hatyp.2.1, if_neg hatyp.2.2, bind_run, attempt,
    sendResult, Told.peer_write, hwrite]
  rfl

theorem handshake_unsupported (inetNtop : Bytes → Bytes) {s : Socket} {q : Request} {reserved atyp : UInt8}
    {rest : Bytes} {first count : Nat} {left : List SendResult}
    (hstream : stream s.arrivals = q.greeting ++ ([5, 1, reserved, atyp] ++ rest))
    (hatyp : atyp ≠ 3 ∧ atyp ≠ 1 ∧ atyp ≠ 4) (hsends : s.sends = .sent first :: .sent count :: left)
    (hfirst : 2 ≤ first) (hcount : 10 ≤ count) :
    (handshake socket inetNtop s).1 = .error .failed ∧
      (handshake socket inetNtop s).2.sent = s.sent ++ [5, 0] ++ resultReply false := by
  obtain ⟨hresult, hstop, -⟩ := handshake_agrees inetNtop s (told s) rfl
  have hgreeted : socksNegotiate Told.peer (told s) = (.ok (),
      ⟨[5, 1, reserved, atyp] ++ rest, ending s.arrivals, .sent count :: left, s.sent ++ [5, 0]⟩) :=
    negotiate_ok.mpr ⟨q.methods, first, _, q.some, q.most, hstream, hsends, hfirst, rfl⟩
  have hrun : handshake Told.peer inetNtop (told s) = (.error .failed,
      ⟨rest, ending s.arrivals, left, s.sent ++ [5, 0] ++ resultReply false⟩) := by
    rw [handshake, bind_run, hgreeted]
    exact readTarget_unsupported rfl hatyp rfl hcount
  rw [hrun] at hresult hstop
  exact ⟨hresult, hstop⟩

-- The handshake succeeds on the streams that begin with a request, and leaves the rest of
-- the stream in the socket.
theorem handshake_exact (inetNtop : Bytes → Bytes) (s : Socket) :
    (∀ target, (handshake socket inetNtop s).1 = .ok target ↔
      (∃ r : Request, r.bytes <+: stream s.arrivals ∧ r.target inetNtop = target) ∧
        ∃ count sends, s.sends = .sent count :: sends ∧ 2 ≤ count) ∧
    ∀ (r : Request) (rest : Bytes), stream s.arrivals = r.bytes ++ rest →
      ∀ target s', handshake socket inetNtop s = (.ok target, s') → r.target inetNtop = target ∧
        stream s'.arrivals = rest ∧ ending s'.arrivals = ending s.arrivals ∧ s'.sent = s.sent ++ [5, 0] := by
  obtain ⟨hresult, -, hgoes⟩ := handshake_agrees inetNtop s (told s) rfl
  constructor
  · intro target
    constructor
    · intro hok
      have hrun : handshake socket inetNtop s = (.ok target, (handshake socket inetNtop s).2) := Prod.ext hok rfl
      obtain ⟨r, hbytes, htarget, ⟨count, hsends, hle⟩, -⟩ := handshake_request hrun
      exact ⟨⟨r, ⟨_, hbytes.symm⟩, htarget⟩, count, _, hsends, hle⟩
    · rintro ⟨⟨r, ⟨rest, hrest⟩, htarget⟩, count, sends, hsends, hcount⟩
      have hrun := (@handshake_ok (told s) ⟨rest, ending s.arrivals, sends, s.sent ++ [5, 0]⟩ inetNtop target).mpr
        ⟨r, count, sends, hrest.symm, htarget, hsends, hcount, rfl⟩
      rw [hresult, hrun]
  · intro r rest hrest target s' hrun
    have hok : (handshake socket inetNtop s).1 = .ok target := congrArg Prod.fst hrun
    obtain ⟨-, -, -, ⟨count, hsends, hcount⟩, -⟩ := handshake_request hrun
    have hsame := (@handshake_ok (told s) ⟨rest, ending s.arrivals, s'.sends, s.sent ++ [5, 0]⟩ inetNtop
      (r.target inetNtop)).mpr ⟨r, count, s'.sends, hrest, rfl, hsends, hcount, rfl⟩
    have htold := hgoes target hok
    rw [hsame, hrun] at htold
    rw [hrun, hsame] at hresult
    exact ⟨(Except.ok.inj hresult).symm, congrArg Told.bytes htold, congrArg Told.ending htold,
      congrArg Told.sent htold⟩

end DpiProxy.Socks
