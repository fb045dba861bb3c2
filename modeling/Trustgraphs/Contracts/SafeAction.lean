import Trustgraphs.ZkCore.Words

/-!
# Actions of a Safe

What the break-glass modules of `contracts/src/zodiac` make a Safe do, and the identifier under which
they queue it.
-/

namespace Trustgraphs

abbrev U48 := BitVec 48

inductive Operation where
  | call
  | delegateCall
deriving DecidableEq

def Operation.toUInt8 : Operation → UInt8
  | .call => 0
  | .delegateCall => 1

/-- The arguments of `execTransactionFromModule`. -/
@[ext]
structure SafeAction where
  target : Address
  value : U256
  data : Bytes
  operation : Operation
deriving DecidableEq

structure Msg where
  sender : Address
  blockTimestamp : U256
  chainId : U256

def actionPreimage (H : Hashes) (chainId : U256) (self : Address) (generation nonce : U256)
    (a : SafeAction) : Bytes :=
  wordU256 chainId ++ wordAddr self ++ wordU256 generation ++ wordU256 nonce ++ wordAddr a.target ++
    wordU256 a.value ++ (H.keccak256 a.data).bytes ++ wordU8 a.operation.toUInt8

/-- The two strings that are hashed for an identifier: the call data and the encoding. -/
def actionHashed (H : Hashes) (chainId : U256) (self : Address) (generation nonce : U256)
    (a : SafeAction) : List Bytes :=
  [a.data, actionPreimage H chainId self generation nonce a]

end Trustgraphs
