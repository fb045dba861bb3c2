import Trustgraphs.ZkCore.Words

/-!
# The canonical blob and CIDs (`zk-core/src/cid.rs`)

Strings are their UTF-8 bytes.
-/

namespace Trustgraphs

def hexDigit (n : UInt8) : UInt8 := if n < 10 then 48 + n else 87 + n

def hexEncode (l : Bytes) : Bytes := l.flatMap fun b => [hexDigit (b / 16), hexDigit (b % 16)]

def decimal (n : Nat) : Bytes := (Nat.toDigits 10 n).map fun c => UInt8.ofNat c.toNat

def blobEntry (key : Bytes) (value : U256) : Bytes :=
  utf8 "\"0x" ++ hexEncode key ++ utf8 "\":\"" ++ decimal value.toNat ++ utf8 "\""

/-- The scored set as compact JSON, in the order of the list. -/
def canonicalBlob (scores : List (Address × U256)) : Bytes :=
  utf8 "\x7b" ++ List.intercalate (utf8 ",") (scores.map fun e => blobEntry e.1.bytes e.2) ++ utf8 "\x7d"

def base32Char (n : UInt32) : UInt8 := if n < 26 then 97 + n.toUInt8 else 24 + n.toUInt8

/-- The inner loop of `base32LowerNopad`: emit a character for every five bits. -/
def base32Emit (acc : UInt32) : (fuel bits : Nat) → Bytes → Nat × Bytes
  | 0, bits, out => (bits, out)
  | fuel + 1, bits, out =>
    if bits ≥ 5 then
      base32Emit acc fuel (bits - 5) (out ++ [base32Char ((acc >>> UInt32.ofNat (bits - 5)) &&& 0x1f)])
    else (bits, out)

/-- RFC 4648 base32 in lower case without padding. -/
def base32LowerNopad (data : Bytes) : Bytes :=
  let (acc, bits, out) := data.foldl
    (fun (st : UInt32 × Nat × Bytes) b =>
      let acc := (st.1 <<< 8) ||| b.toUInt32
      let (bits, out) := base32Emit acc (st.2.1 + 8) (st.2.1 + 8) st.2.2
      (acc, bits, out))
    (0, 0, [])
  if bits > 0 then out ++ [base32Char ((acc <<< UInt32.ofNat (5 - bits)) &&& 0x1f)] else out

def base32Value (c : UInt8) : Option UInt32 :=
  if 97 ≤ c ∧ c ≤ 122 then some (c - 97).toUInt32
  else if 50 ≤ c ∧ c ≤ 55 then some (c - 50 + 26).toUInt32
  else none

/-- The inverse of `base32LowerNopad`: foreign characters and nonzero padding bits are refused. -/
def base32LowerDecode (s : Bytes) : Option Bytes := do
  let (acc, bits, out) ← s.foldlM
    (fun (st : UInt32 × Nat × Bytes) c => do
      let val ← base32Value c
      let acc := (st.1 <<< 5) ||| val
      let bits := st.2.1 + 5
      if bits ≥ 8 then some (acc, bits - 8, st.2.2 ++ [(acc >>> UInt32.ofNat (bits - 8)).toUInt8])
      else some (acc, bits, st.2.2))
    (0, 0, [])
  if bits ≥ 5 ∨ (bits > 0 ∧ acc &&& ((1 <<< UInt32.ofNat bits) - 1) ≠ 0) then none else some out

/-- The CIDv1 string of a digest: raw codec, sha2-256. -/
def cidV1Raw (digest : B256) : Bytes :=
  utf8 "b" ++ base32LowerNopad ([0x01, 0x55, 0x12, 0x20] ++ digest.bytes)

/-- The CIDv1 string of a digest: dag-cbor codec, sha2-256. -/
def cidV1Dagcbor (digest : B256) : Bytes :=
  utf8 "b" ++ base32LowerNopad ([0x01, 0x71, 0x12, 0x20] ++ digest.bytes)

/-- The digest in a CIDv1 dag-cbor string, `none` when the string is anything else. -/
def dagcborSha256Digest (cid : Bytes) : Option B256 :=
  match cid with
  | 98 :: rest => do
    let bytes ← base32LowerDecode rest
    if bytes.length ≠ 4 + 32 then none
    else if bytes.take 4 ≠ [0x01, 0x71, 0x12, 0x20] then none
    else FixedBytes.ofSlice 32 (bytes.drop 4)
  | _ => none

/-- Whether `block` is the content that `cid` addresses. -/
def verifyDagcborCid (H : Hashes) (cid block : Bytes) : Bool :=
  match dagcborSha256Digest cid with
  | some digest => H.sha256 block == digest
  | none => false

end Trustgraphs
