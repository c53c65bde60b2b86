import DpiProxy.Strategy
import DpiProxy.Text.Json

namespace DpiProxy.MainPacket

open Wire CText

-- The caller's buffer and the indices written to, in order. What is written behind the
-- buffer leaves it as it is.
structure Output where
  out : Bytes
  written : List Nat
deriving DecidableEq, Repr

def Output.put (o : Output) (i : Nat) (c : UInt8) : Output := ⟨o.out.set i c, o.written ++ [i]⟩

def Output.putAll (o : Output) (i : Nat) : Bytes → Output
  | [] => o
  | c :: text => (o.put i c).putAll (i + 1) text

-- snprintf(out + i, size, text): what fits of the text, and a NUL. It returns the length
-- of the whole text.
def Output.snprintf (o : Output) (i size : Nat) (text : Bytes) : Nat × Output :=
  (text.length, if size = 0 then o else o.putAll i (text.take (size - 1) ++ [0]))

def QUOTE : UInt8 := 34
def BACKSLASH : UInt8 := 92

-- "\\u%04x"
def unicodeEscape (c : UInt8) : Bytes := [BACKSLASH, 117] ++ (lastDigits 16 4 c.toNat).map digitChar

-- The loop of json_escape; the result is pos at its end.
def jsonEscapeLoop (outSize : Nat) : Bytes → Nat → Output → Nat × Output
  | [], pos, o => (pos, o)
  | c :: input, pos, o =>
      if pos + 2 < outSize then
        if c = QUOTE ∨ c = BACKSLASH then
          jsonEscapeLoop outSize input (pos + 2) ((o.put pos BACKSLASH).put (pos + 1) c)
        else if c < 0x20 then
          let printed := o.snprintf pos (outSize - pos) (unicodeEscape c)
          jsonEscapeLoop outSize input (pos + printed.1) printed.2
        else jsonEscapeLoop outSize input (pos + 1) (o.put pos c)
      else (pos, o)

-- `out` is the caller's buffer as the call finds it, out_size its length.
def jsonEscape (input out : Bytes) : Output :=
  let escaped := jsonEscapeLoop out.length (cstr input) 0 ⟨out, []⟩
  escaped.2.put escaped.1 0

end DpiProxy.MainPacket
