import DpiProxy.Transparent.DecisionsFile

namespace DpiProxy

open Wire
open Transparent (strategyName strategyFromName)

def PLUS : UInt8 := 43

-- sizeof(token) in strategy_chain_from_string.
def TOKEN_SIZE : Nat := 64

def chainMatches (chain : StrategyChain) (pattern : List Strategy) : Bool := chain.actions = pattern

def strategyChainIsSafe (chain : StrategyChain) : Bool :=
  if chain.actions.length = 1 then true
  else if chain.actions.length = 2 then
    if chainMatches chain [.fake, .split] then true
    else if chainMatches chain [.split, .fake] then true
    else false
  else false

-- The token loop of strategy_chain_from_string; none is a return of -1. `room` is what
-- action_count still lacks of STRATEGY_CHAIN_MAX: without room a token is refused, known
-- or not.
def chainLoop : (room : Nat) → Bytes → Option { actions : List Strategy // actions.length ≤ room }
  | 0, _ => none
  | room + 1, s =>
      let token := (s.takeWhile (· ≠ PLUS)).take (TOKEN_SIZE - 1)
      let rest := s.drop token.length
      if rest ≠ [] ∧ byte rest 0 ≠ PLUS then none
      else if token = [] then none
      else
        match strategyFromName token with
        | none => none
        | some parsed =>
            if rest = [] then some ⟨[parsed], Nat.succ_le_succ (Nat.zero_le room)⟩
            else (chainLoop room (rest.drop 1)).map fun actions =>
              ⟨parsed :: actions.1, Nat.succ_le_succ actions.2⟩

-- split+disorder has no meaning beyond plain disorder.
def acceptChain (chain : StrategyChain) : Option StrategyChain :=
  let chain := if chain.actions = [.split, .disorder] then .single .disorder else chain
  if !strategyChainIsSafe chain then none else some chain

-- The chain of a C string; none is a return of -1.
def chainOf (s : Bytes) : Option StrategyChain :=
  match chainLoop STRATEGY_CHAIN_MAX s with
  | none => none
  | some actions => acceptChain ⟨actions.1, actions.2⟩

def strategyChainFromString (s : Bytes) (out : StrategyChain) : Int × StrategyChain :=
  match chainOf (cstr s) with
  | none => (-1, out)
  | some chain => (0, chain)

-- The loop of strategy_chain_describe at its i-th action; `text` is buf[0 .. pos).
def describeLoop (bufSize : Nat) : Nat → Bytes → List Strategy → Bytes
  | _, text, [] => text
  | i, text, s :: actions =>
      let text := if 0 < i ∧ text.length + 1 < bufSize then text ++ [PLUS] else text
      describeLoop bufSize (i + 1) (text ++ (strategyName s).take (bufSize - 1 - text.length)) actions

-- `buf` is the caller's buffer as the call finds it, buf_size its length.
def strategyChainDescribe (chain : StrategyChain) (buf : Bytes) : Bytes :=
  if buf.length = 0 then buf
  else
    let text := describeLoop buf.length 0 [] chain.actions
    text ++ 0 :: buf.drop (text.length + 1)

end DpiProxy
