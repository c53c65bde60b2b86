import DpiProxy.Tls.Sni.Cut
import DpiProxy.Wire.Cursor
import DpiProxy.Wire.Record

namespace DpiProxy.Tls

open Wire Wire.Record Packet

def u24 (n : Nat) : Bytes := lo8 (n / 65536) :: u16 (n % 65536)

theorem be24_at {b rest : Bytes} {pos n : Nat} (hn : n < 16777216) (h : b.drop pos = u24 n ++ rest) :
    be24 b pos = n := by
  have hfirst : byte b pos = lo8 (n / 65536) := byte_at h
  have hrest : b.drop (pos + 1) = u16 (n % 65536) ++ rest := by
    rw [← List.drop_drop, h]
    rfl
  rw [be24, hfirst, be16_at (by omega) hrest, lo8_toNat]
  omega

-- An extension of a ClientHello. The list of names in a server_name extension starts
-- with a host_name; `others` are the entries behind it.
inductive Extension where
  | serverName (name others : Bytes) (nonempty : name ≠ [])
      (fits : 5 + name.length + others.length < 65536)
  | other (type : UInt16) (data : Bytes) (kind : type ≠ 0) (fits : data.length < 65536)

def Extension.type : Extension → UInt16
  | .serverName _ _ _ _ => 0
  | .other type _ _ _ => type

def Extension.data : Extension → Bytes
  | .serverName name others _ _ => vector16 (0 :: vector16 name ++ others)
  | .other _ data _ _ => data

def Extension.bytes (e : Extension) : Bytes := u16 e.type.toNat ++ vector16 e.data

-- The name in the first server_name extension.
def firstServerName : List Extension → Option Bytes
  | [] => none
  | .serverName name _ _ _ :: _ => some name
  | .other _ _ _ _ :: extensions => firstServerName extensions

structure ClientHello where
  recordVersion : UInt16
  version : UInt16
  random : Bytes
  sessionId : Bytes
  cipherSuites : List UInt16
  compressionMethods : Bytes
  extensions : List Extension
  random_length : random.length = 32
  sessionId_length : sessionId.length < 256
  cipherSuites_length : 2 * cipherSuites.length < 65536
  compressionMethods_length : compressionMethods.length < 256
  extensions_length : (extensions.flatMap Extension.bytes).length < 65536

namespace ClientHello

variable (hello : ClientHello)

def extensionsBlock : Bytes := hello.extensions.flatMap Extension.bytes

def cipherBlock : Bytes := hello.cipherSuites.flatMap fun suite => u16 suite.toNat

-- What follows the random bytes.
def blocks : Bytes :=
  vector8 hello.sessionId ++ (vector16 hello.cipherBlock ++
    (vector8 hello.compressionMethods ++ vector16 hello.extensionsBlock))

def body : Bytes := u16 hello.version.toNat ++ (hello.random ++ hello.blocks)

def message : Bytes := 0x01 :: (u24 hello.body.length ++ hello.body)

-- The ClientHello in one record.
def bytes : Bytes :=
  header 0x16 (hi8 hello.recordVersion.toNat) (lo8 hello.recordVersion.toNat) hello.message.length ++
    hello.message

end ClientHello

section Extensions

variable {data rest : Bytes} {pos : Nat}

theorem Extension.data_length (e : Extension) : e.data.length < 65536 := by
  cases e with
  | serverName name others nonempty fits =>
      simp only [Extension.data, length_vector16, List.length_append, List.length_cons]
      omega
  | other type data kind fits => exact fits

theorem Extension.bytes_length (e : Extension) : e.bytes.length = 4 + e.data.length := by
  rw [Extension.bytes, List.length_append, length_u16, length_vector16]
  omega

-- The type and the length in front of an extension, and what follows it.
theorem extension_at {e : Extension} (h : data.drop pos = e.bytes ++ rest) :
    be16 data pos = e.type.toNat ∧ be16 data (pos + 2) = e.data.length ∧
      data.drop (pos + 4) = e.data ++ rest ∧ data.drop (pos + e.bytes.length) = rest := by
  have hafter := drop_at h
  rw [Extension.bytes, List.append_assoc] at h
  have htype := drop_at h
  rw [length_u16] at htype
  obtain ⟨hlen, hdata, -⟩ := vector16_at e.data_length htype
  exact ⟨be16_at e.type.toNat_lt h, hlen, hdata, hafter⟩

-- The length, the kind and the place of the name in a server_name extension.
theorem serverName_at {name others : Bytes} (fits : 5 + name.length + others.length < 65536)
    (h : data.drop pos = vector16 (0 :: vector16 name ++ others) ++ rest) :
    byte data (pos + 2) = 0 ∧ be16 data (pos + 3) = name.length ∧
      slice data (pos + 5) name.length = name := by
  obtain ⟨-, hentry, -⟩ := vector16_at (by simp; omega) h
  have hkind : byte data (pos + 2) = 0 := byte_at (c := 0) hentry
  have hname : data.drop (pos + 2 + 1) = vector16 name ++ (others ++ rest) := by
    rw [← List.drop_drop, hentry]
    simp
  obtain ⟨hlen, hbytes, -⟩ := vector16_at (by omega) hname
  exact ⟨hkind, hlen, slice_at hbytes⟩

-- The extensions loop finds the first name.
theorem parseSniExtension_extensions (hostOutSize : Nat) (extensions : List Extension)
    (h : data.drop pos = extensions.flatMap Extension.bytes ++ rest) :
    parseSniExtension data hostOutSize pos (pos + (extensions.flatMap Extension.bytes).length) =
      match firstServerName extensions with
      | some name => if name.length < hostOutSize then .ok name else .error .malformed
      | none => .error .unsupported := by
  induction extensions generalizing pos with
  | nil =>
      rw [parseSniExtension, if_neg (by simp)]
      rfl
  | cons e extensions ih =>
      rw [List.flatMap_cons, List.append_assoc] at h
      obtain ⟨htype, hlen, hdata, hafter⟩ := extension_at h
      have hsize := e.bytes_length
      rw [List.flatMap_cons, List.length_append, parseSniExtension, if_pos (by omega)]
      dsimp only
      rw [hlen, if_neg (by omega), htype]
      cases e with
      | serverName name others nonempty fits =>
          obtain ⟨hkind, hname, hslice⟩ := serverName_at fits hdata
          have hbody : (Extension.serverName name others nonempty fits).data.length =
              5 + name.length + others.length := by
            simp only [Extension.data, length_vector16, List.length_append, List.length_cons]
            omega
          have hpos := List.length_pos_iff.mpr nonempty
          have hzero : (Extension.serverName name others nonempty fits).type.toNat = 0 := rfl
          rw [if_pos hzero, hbody, if_neg (by omega), if_neg (by simp [hkind]), hname, if_neg (by omega),
            hslice]
          simp only [firstServerName]
          by_cases hfits : name.length < hostOutSize
          · rw [if_neg (by omega), if_pos hfits]
          · rw [if_pos (by omega), if_neg hfits]
      | other type body kind fits =>
          have hkind : (Extension.other type body kind fits).type.toNat ≠ 0 :=
            fun hzero => kind (UInt16.toNat_inj.mp hzero)
          rw [if_neg hkind]
          have hnext := ih hafter
          rw [Extension.bytes_length, ← Nat.add_assoc] at hnext
          rw [Extension.bytes_length, ← Nat.add_assoc, ← Nat.add_assoc]
          exact hnext

end Extensions

section Layout

variable (hello : ClientHello)

theorem cipherBlock_length : hello.cipherBlock.length < 65536 := by
  have hlen := hello.cipherSuites_length
  have hblock : hello.cipherBlock.length = hello.cipherSuites.length * 2 := by
    simp [ClientHello.cipherBlock, List.length_flatMap]
  omega

theorem header_length (hello : ClientHello) (len : Nat) :
    (header 0x16 (hi8 hello.recordVersion.toNat) (lo8 hello.recordVersion.toNat) len).length = 5 := rfl

-- The bytes in front of the blocks: the record header, the message header, the version
-- and the random bytes.
theorem bytes_drop : hello.bytes.drop 43 = hello.blocks := by
  have hrecord : hello.bytes.drop 5 = hello.message := List.drop_left' rfl
  have hmessage : hello.bytes.drop (5 + 1 + 3) = hello.body := by
    rw [← List.drop_drop, ← List.drop_drop, hrecord]
    rfl
  have hversion : hello.bytes.drop (5 + 1 + 3 + 2) = hello.random ++ hello.blocks := by
    rw [← List.drop_drop, hmessage]
    rfl
  have hrandom := drop_at hversion
  rwa [hello.random_length] at hrandom

theorem blocks_length : hello.blocks.length =
    1 + hello.sessionId.length + (2 + hello.cipherBlock.length +
      (1 + hello.compressionMethods.length + (2 + hello.extensionsBlock.length))) := by
  simp only [ClientHello.blocks, List.length_append, length_vector8, length_vector16]

theorem body_length : hello.body.length = 34 + hello.blocks.length := by
  simp only [ClientHello.body, List.length_append, length_u16, hello.random_length]
  omega

theorem bytes_length : hello.bytes.length = 9 + hello.body.length := by
  rw [ClientHello.bytes, List.length_append, header_length, ClientHello.message]
  simp [u24]
  omega

-- Where the blocks of the ClientHello stand.
theorem layout :
    extensionsStart hello.bytes ≤ hello.bytes.length ∧
      be16 hello.bytes (compressionEnd hello.bytes) = hello.extensionsBlock.length ∧
      hello.bytes.drop (extensionsStart hello.bytes) = hello.extensionsBlock ∧
      extensionsEnd hello.bytes = hello.bytes.length := by
  obtain ⟨hsession, hciphers⟩ := vector8_at hello.sessionId_length (bytes_drop hello)
  rw [← hsession] at hciphers
  obtain ⟨hcipherLen, -, hcompression⟩ := vector16_at (cipherBlock_length hello) hciphers
  rw [← hcipherLen] at hcompression
  obtain ⟨hcompressionLen, hextensions⟩ := vector8_at hello.compressionMethods_length hcompression
  rw [← hcompressionLen] at hextensions
  rw [← List.append_nil (vector16 hello.extensionsBlock)] at hextensions
  obtain ⟨hblockLen, hblock, -⟩ := vector16_at hello.extensions_length hextensions
  have hsessionEnd : sessionEnd hello.bytes = 44 + hello.sessionId.length := by
    rw [sessionEnd, hsession]
  have hciphersEnd : ciphersEnd hello.bytes = sessionEnd hello.bytes + 2 + hello.cipherBlock.length := by
    rw [ciphersEnd, sessionEnd, hcipherLen]
  have hcompressionEnd : compressionEnd hello.bytes =
      ciphersEnd hello.bytes + 1 + hello.compressionMethods.length := by
    rw [compressionEnd, ciphersEnd, sessionEnd, hcompressionLen]
  have hextensionsEnd : extensionsEnd hello.bytes =
      extensionsStart hello.bytes + hello.extensionsBlock.length := by
    rw [extensionsEnd, extensionsStart, compressionEnd, ciphersEnd, sessionEnd, hblockLen]
    rfl
  have htotal := bytes_length hello
  rw [body_length, blocks_length] at htotal
  refine ⟨?_, hblockLen, ?_, ?_⟩
  · rw [extensionsStart]
    omega
  · rw [List.append_nil] at hblock
    exact hblock
  · rw [hextensionsEnd, extensionsStart]
    omega

end Layout

end DpiProxy.Tls
