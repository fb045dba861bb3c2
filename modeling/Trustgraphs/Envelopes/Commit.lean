import Trustgraphs.EasOffchain.Payload
import Trustgraphs.Envelopes.Carset
import Trustgraphs.Lib.Text

/-!
# Recovery of an address (`envelopes/src/ecdsa.rs`)
-/

namespace Trustgraphs.Envelopes

def parityOf (v : UInt8) : Option UInt8 :=
  if v = 0 ∨ v = 27 then some 0 else if v = 1 ∨ v = 28 then some 1 else none

/-- The address that signed a prehash; the recovery byte may also be 0 or 1. -/
def recoverAddress (H : Hashes) (K : K256) (prehash : B256) (sig65 : Bytes) : Option Address :=
  if sig65.length ≠ 65 then none
  else do
    let v ← sig65[64]?.bind parityOf
    let rs := sig65.take 64
    if ¬ K.wellFormed rs then none
    else if K.highS rs then none
    else do
      let uncompressed ← K.recover prehash rs v
      let hash := H.keccak256 (uncompressed.drop 1)
      FixedBytes.ofSlice 20 (hash.bytes.drop 12)

end Trustgraphs.Envelopes

/-!
# Commits and their signatures (`envelopes/src/atproto/commit.rs`)

The dag-cbor codec, base58 and the two signature schemes are parameters.
-/

namespace Trustgraphs

structure Dagcbor where
  fromSlice : Bytes → Option Ipld
  toVec : Ipld → Option Bytes

namespace Atproto

/-- The two curves of the audit log. -/
inductive Curve where
  | k256
  | p256
deriving DecidableEq

/-- The functions of the `k256` and `p256` crates that verify. -/
structure Ecdsa where
  /-- Whether `VerifyingKey::from_sec1_bytes` accepts. -/
  keyOk : Curve → Bytes → Bool
  /-- Whether `Signature::from_slice` accepts. -/
  sigOk : Curve → Bytes → Bool
  highS : Curve → Bytes → Bool
  /-- Whether a key verifies a signature of a digest. -/
  verifyPrehash : Curve → Bytes → Bytes → B256 → Bool

structure Multikey where
  curve : Curve
  key : Bytes
deriving DecidableEq

/-- A `did:key` of one of the two curves. -/
def parseMultikey (base58Decode : Bytes → Option Bytes) (didKey : Bytes) : Option Multikey := do
  let s := (Text.stripPrefix (utf8 "did:key:") didKey).getD didKey
  let s ← Text.stripPrefix (utf8 "z") s
  let raw ← base58Decode s
  let curve ← match raw with
    | 0xe7 :: 0x01 :: _ => some Curve.k256
    | 0x80 :: 0x24 :: _ => some Curve.p256
    | _ => none
  if (raw.drop 2).length ≠ 33 then none else some ⟨curve, raw.drop 2⟩

def asString : Ipld → Option Bytes
  | .string s => some s
  | _ => none

def unsigned (m : List (Bytes × Ipld)) : List (Bytes × Ipld) := m.filter fun e => e.1 != utf8 "sig"

end Atproto

end Trustgraphs
