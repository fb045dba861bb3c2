import Trustgraphs.Lib.BTree
import Trustgraphs.Lib.Reader
import Trustgraphs.ZkCore.Cid

/-!
# The envelope-0 payload (`eas-offchain/src/payload.rs`)

The bounded binary codec of a log with its attestations, and its verification against an anchor.
-/

/-!
## The EAS off-chain log (`eas-offchain/src/lib.rs`, `eas-offchain/src/ecdsa.rs`)

Envelope 0 is an append-only log of attestations and revocations of one owner. The signature scheme
of the `k256` crate is a parameter.
-/

namespace Trustgraphs

/-- The functions of the `k256` crate on 64-byte signatures. -/
structure K256 where
  /-- Whether `Signature::from_slice` accepts. -/
  wellFormed : Bytes → Bool
  /-- Whether the `s` component is in the upper half. -/
  highS : Bytes → Bool
  /-- The uncompressed point recovered from a prehash, a signature and a parity. -/
  recover : B256 → Bytes → UInt8 → Option Bytes

namespace EasOffchain

def parityOf (v : UInt8) : Option UInt8 := if v = 27 then some 0 else if v = 28 then some 1 else none

def recoverAddress (H : Hashes) (K : K256) (prehash : B256) (signature : Bytes) : Option Address :=
  if signature.length ≠ 65 then none
  else do
    let parity ← signature[64]?.bind parityOf
    let rs := signature.take 64
    if ¬ K.wellFormed rs then none
    else if K.highS rs then none
    else do
      let uncompressed ← K.recover prehash rs parity
      let hash := H.keccak256 (uncompressed.drop 1)
      FixedBytes.ofSlice 20 (hash.bytes.drop 12)

/-- The type hash of an off-chain attestation. -/
def attestTypehash (H : Hashes) : B256 :=
  H.keccak256 (utf8 "Attest(uint16 version,bytes32 schema,address recipient,uint64 time,uint64 expirationTime,bool revocable,bytes32 refUID,bytes data,bytes32 salt)")

def ENTRY_ATTEST : UInt8 := 0

def ENTRY_REVOKE : UInt8 := 1

/-- An entry of a node's log. -/
structure LogEntry where
  kind : UInt8
  uid : B256
deriving DecidableEq

/-- An attestation as its attester signed it. -/
structure OffchainAttestation where
  version : UInt16
  schema : B256
  recipient : Address
  time : UInt64
  expirationTime : UInt64
  revocable : Bool
  refUid : B256
  data : Bytes
  salt : B256
  signature : Bytes
deriving DecidableEq

/-- What an entry adds to the fold of the head. -/
def entryLeaf (H : Hashes) (kind : UInt8) (uid : B256) : B256 := H.keccak256 (wordU8 kind ++ uid.bytes)

/-- The head of a log: the fold of its leaves from zero. -/
def logHead (H : Hashes) (entries : List LogEntry) : B256 :=
  entries.foldl (fun head entry => fold H head (entryLeaf H entry.kind entry.uid)) 0

def boolByte (b : Bool) : UInt8 := if b then 1 else 0

/-- The EIP-712 struct hash of an attestation. -/
def attestStructHash (H : Hashes) (a : OffchainAttestation) : B256 :=
  H.keccak256 ((attestTypehash H).bytes ++ wordU256 (BitVec.ofNat 256 a.version.toNat) ++
    a.schema.bytes ++ wordAddr a.recipient ++ wordU64 a.time ++ wordU64 a.expirationTime ++
    wordU8 (boolByte a.revocable) ++ a.refUid.bytes ++ (H.keccak256 a.data).bytes ++ a.salt.bytes)

/-- The EIP-712 digest of a struct in a domain. -/
def eip712Digest (H : Hashes) (domainSeparator structHash : B256) : B256 :=
  H.keccak256 ([0x19, 0x01] ++ domainSeparator.bytes ++ structHash.bytes)

/-- The off-chain uid of an attestation. The schema goes in as the text of its hexadecimal form. -/
def offchainUidV2 (H : Hashes) (a : OffchainAttestation) : B256 :=
  H.keccak256 (beBytes 2 a.version.toNat ++ utf8 "0x" ++ hexEncode a.schema.bytes ++
    a.recipient.bytes ++ (0 : Address).bytes ++ beBytes 8 a.time.toNat ++
    beBytes 8 a.expirationTime.toNat ++ [boolByte a.revocable] ++ a.refUid.bytes ++ a.data ++
    a.salt.bytes ++ beBytes 4 0)

/-- The node of an address. -/
def addressNodeId (H : Hashes) (owner : Address) : B256 := H.keccak256 (wordAddr owner)

end EasOffchain

end Trustgraphs

/-! ## The codec -/

namespace Trustgraphs.EasOffchain

def MAGIC : Bytes := utf8 "TGEAS0PL"

def PAYLOAD_VERSION : UInt16 := 1

def ATTESTATION_FIXED_BYTES : Nat := 204

def MAX_PAYLOAD_BYTES : Nat := 1048576

def MAX_ENTRIES_PER_NODE : Nat := 2048

def MAX_COMMENT_BYTES : Nat := 4096

def MIN_DATA_BYTES : Nat := 96

def MAX_DATA_BYTES : Nat := 4192

structure PayloadV1 where
  owner : Address
  entries : List LogEntry
  attestations : List OffchainAttestation
deriving DecidableEq

inductive PayloadError where
  | magic
  | payloadVersion
  | truncated
  | trailingBytes
  | payloadLimit
  | entryLimit
  | dataLimit
  | countMismatch
  | logKind
  | duplicateAttest
  | revokeBeforeAttest
  | alreadyRevoked
  | profileVersion
  | schema
  | recipient
  | futureTime
  | expiration
  | revocable
  | refUid
  | zeroSalt
  | dataAbi
  | uid
  | signatureForm
  | easSignature
  | commitment
  | nodeId
  | head
  | previousHead
  | headSignature
deriving DecidableEq

/-- What the owner signs when anchoring a head. -/
structure AnchorMessage where
  nodeId : B256
  envelopeKind : UInt8
  schemaUid : B256
  previousHead : B256
  head : B256
  count : UInt64
  dataCommitment : B256

structure VerificationContext where
  expectedSchema : B256
  easDomainSeparator : B256
  headDomainSeparator : B256
  anchor : AnchorMessage
  anchorTimestamp : UInt64
  headSignature : Bytes

/-- A signature has to be 65 bytes with a parity of 27 or 28 and a low `s`. -/
def canonicalSignature (K : K256) (signature : Bytes) : Except PayloadError Unit :=
  if signature.length ≠ 65 ∨ ¬ (signature[64]? = some 27 ∨ signature[64]? = some 28) then
    .error .signatureForm
  else if ¬ K.wellFormed (signature.take 64) then .error .signatureForm
  else if K.highS (signature.take 64) then .error .signatureForm
  else .ok ()

/-- Attestation data is the ABI encoding of a comment and a confidence. -/
def canonicalData (data : Bytes) : Except PayloadError Unit :=
  if ¬ (MIN_DATA_BYTES ≤ data.length ∧ data.length ≤ MAX_DATA_BYTES) then .error .dataLimit
  else if data.length % 32 ≠ 0 then .error .dataAbi
  else if data.take 32 ≠ List.replicate 31 0 ++ [64] then .error .dataAbi
  else
    let length := ofBeBytes ((data.drop 64).take 32)
    if length > MAX_COMMENT_BYTES then .error .dataLimit
    else
      let padded := (length + 31) / 32 * 32
      if data.length ≠ MIN_DATA_BYTES + padded then .error .dataAbi
      else if (data.drop (MIN_DATA_BYTES + length)).any fun b => b != 0 then .error .dataAbi
      else .ok ()

/-- An entry of the log, attest or revoke. -/
def decodeEntry (buf : Bytes) : Except PayloadError (LogEntry × Bytes) := do
  let (kind, buf) ← Reader.u8 .truncated buf
  let (uid, buf) ← Reader.array .truncated 32 buf
  .ok (⟨kind, uid⟩, buf)

/-- The attestation fields up to the data length. -/
def decodeAttestationHead (expectedSchema : B256) (buf : Bytes) :
    Except PayloadError ((B256 × Address × UInt64) × Bytes) := do
  let (version, buf) ← Reader.u16 .truncated buf
  if version ≠ 2 then .error .profileVersion
  else
    let (schema, buf) ← Reader.array .truncated 32 buf
    if schema ≠ expectedSchema then .error .schema
    else
      let (recipient, buf) ← Reader.array .truncated 20 buf
      if recipient = 0 then .error .recipient
      else
        let (time, buf) ← Reader.u64 .truncated buf
        let (expirationTime, buf) ← Reader.u64 .truncated buf
        if expirationTime ≠ 0 then .error .expiration
        else
          let (revocableByte, buf) ← Reader.u8 .truncated buf
          if revocableByte ≠ 1 then .error .revocable
          else
            let (refUid, buf) ← Reader.array .truncated 32 buf
            if refUid ≠ 0 then .error .refUid else .ok ((schema, recipient, time), buf)

def decodeAttestation (K : K256) (expectedSchema : B256) (buf : Bytes) :
    Except PayloadError (OffchainAttestation × Bytes) := do
  let ((schema, recipient, time), buf) ← decodeAttestationHead expectedSchema buf
  let (dataLen, buf) ← Reader.u32 .truncated buf
  if ¬ (MIN_DATA_BYTES ≤ dataLen.toNat ∧ dataLen.toNat ≤ MAX_DATA_BYTES) then .error .dataLimit
  else
    let (data, buf) ← Reader.take .truncated dataLen.toNat buf
    canonicalData data
    let (salt, buf) ← Reader.array .truncated 32 buf
    if salt = 0 then .error .zeroSalt
    else
      let (signature, buf) ← Reader.take .truncated 65 buf
      canonicalSignature K signature
      .ok (⟨2, schema, recipient, time, 0, true, 0, data, salt, signature⟩, buf)

/-- The attestations not matched yet, and the uids seen and live. -/
structure LogScan where
  rest : List OffchainAttestation
  seen : BTreeSet B256
  live : BTreeSet B256

/-- Every attest entry names the next attestation, every revoke entry a live one. -/
def scanEntry (H : Hashes) (st : LogScan) (entry : LogEntry) : Except PayloadError LogScan :=
  if entry.kind = ENTRY_ATTEST then
    match st.rest with
    | [] => .error .countMismatch
    | attestation :: rest =>
      if st.seen.contains entry.uid then .error .duplicateAttest
      else if offchainUidV2 H attestation ≠ entry.uid then .error .uid
      else .ok ⟨rest, st.seen.insert entry.uid, st.live.insert entry.uid⟩
  else if entry.kind = ENTRY_REVOKE then
    if ¬ st.seen.contains entry.uid then .error .revokeBeforeAttest
    else if ¬ st.live.contains entry.uid then .error .alreadyRevoked
    else .ok { st with live := st.live.erase entry.uid }
  else .error .logKind

/-- Decode a payload. All of the bytes have to be consumed. -/
def decode (H : Hashes) (K : K256) (bytes : Bytes) (expectedSchema : B256) : Except PayloadError PayloadV1 :=
  if bytes.length > MAX_PAYLOAD_BYTES then .error .payloadLimit
  else do
    let (magic, buf) ← Reader.take .truncated MAGIC.length bytes
    if magic ≠ MAGIC then .error .magic
    else
      let (version, buf) ← Reader.u16 .truncated buf
      if version ≠ PAYLOAD_VERSION then .error .payloadVersion
      else
        let (owner, buf) ← Reader.array .truncated 20 buf
        let (entryCount, buf) ← Reader.u32 .truncated buf
        let (attestationCount, buf) ← Reader.u32 .truncated buf
        if entryCount.toNat = 0 ∨ entryCount.toNat > MAX_ENTRIES_PER_NODE then .error .entryLimit
        else if attestationCount.toNat > entryCount.toNat then .error .countMismatch
        else if entryCount.toNat * 33 + attestationCount.toNat * ATTESTATION_FIXED_BYTES >
            buf.length then .error .truncated
        else
          let (entries, buf) ← Reader.repeated decodeEntry entryCount.toNat buf
          let (attestations, buf) ←
            Reader.repeated (decodeAttestation K expectedSchema) attestationCount.toNat buf
          if buf ≠ [] then .error .trailingBytes
          else
            let st ← entries.foldlM (scanEntry H) ⟨attestations, ∅, ∅⟩
            -- as many attest entries as attestations
            if st.rest ≠ [] then .error .countMismatch else .ok ⟨owner, entries, attestations⟩

/-- The low `width` bytes of a value, most significant first. -/
def pushUint (value : UInt64) (width : Nat) : Bytes := (beBytes 8 value.toNat).drop (8 - width)

def encodeEntry (entry : LogEntry) : Bytes := entry.kind :: entry.uid.bytes

def encodeAttestation (a : OffchainAttestation) : Bytes :=
  beBytes 2 a.version.toNat ++ a.schema.bytes ++ a.recipient.bytes ++ beBytes 8 a.time.toNat ++
    beBytes 8 a.expirationTime.toNat ++ [boolByte a.revocable] ++ a.refUid.bytes ++
    pushUint (UInt64.ofNat a.data.length) 4 ++ a.data ++ a.salt.bytes ++ a.signature

/-- The bytes of a payload, before they are checked. -/
def encodeFields (payload : PayloadV1) : Bytes :=
  MAGIC ++ beBytes 2 PAYLOAD_VERSION.toNat ++ payload.owner.bytes ++
    pushUint (UInt64.ofNat payload.entries.length) 4 ++
    pushUint (UInt64.ofNat payload.attestations.length) 4 ++
    payload.entries.flatMap encodeEntry ++ payload.attestations.flatMap encodeAttestation

/-- The schema an encoding is decoded under: that of the first attestation. -/
def firstSchema (payload : PayloadV1) : B256 := (payload.attestations.head?.map (·.schema)).getD 0

/-- Encode a payload. The bytes have to decode to the payload again. -/
def encode (H : Hashes) (K : K256) (payload : PayloadV1) : Except PayloadError Bytes :=
  if payload.entries = [] ∨ payload.entries.length > MAX_ENTRIES_PER_NODE then .error .entryLimit
  else
    let out := encodeFields payload
    if out.length > MAX_PAYLOAD_BYTES then .error .payloadLimit
    else do
      let decoded ← decode H K out (firstSchema payload)
      if decoded ≠ payload then .error .countMismatch else .ok out

/-- The data commitment of payload bytes. -/
def dataCommitment (H : Hashes) (bytes : Bytes) : B256 := H.sha256 bytes

def anchorTypehash (H : Hashes) : B256 :=
  H.keccak256 (utf8 "Anchor(bytes32 nodeId,uint8 envelopeKind,bytes32 schemaUid,bytes32 previousHead,bytes32 head,uint64 count,bytes32 dataCommitment)")

/-- The EIP-712 struct hash of an anchor message. -/
def anchorStructHash (H : Hashes) (m : AnchorMessage) : B256 :=
  H.keccak256 ((anchorTypehash H).bytes ++ m.nodeId.bytes ++ wordU8 m.envelopeKind ++
    m.schemaUid.bytes ++ m.previousHead.bytes ++ m.head.bytes ++ wordU64 m.count ++
    m.dataCommitment.bytes)

def verifyAnchorAuthorization (H : Hashes) (K : K256) (headDomainSeparator : B256)
    (message : AnchorMessage) (signature : Bytes) : Except PayloadError Address := do
  canonicalSignature K signature
  match recoverAddress H K (eip712Digest H headDomainSeparator (anchorStructHash H message))
      signature with
  | none => .error .headSignature
  | some signer => .ok signer

/-- An attestation is not from the future and is signed by the owner. -/
def verifyAttestation (H : Hashes) (K : K256) (context : VerificationContext) (owner : Address)
    (a : OffchainAttestation) : Except PayloadError Unit :=
  if a.time > context.anchorTimestamp then .error .futureTime
  else
    match recoverAddress H K (eip712Digest H context.easDomainSeparator (attestStructHash H a))
        a.signature with
    | none => .error .easSignature
    | some signer => if signer ≠ owner then .error .easSignature else .ok ()

/-- Verify payload bytes against an anchor. -/
def verify (H : Hashes) (K : K256) (bytes : Bytes) (context : VerificationContext) :
    Except PayloadError PayloadV1 :=
  if dataCommitment H bytes ≠ context.anchor.dataCommitment then .error .commitment
  else do
    let payload ← decode H K bytes context.expectedSchema
    if addressNodeId H payload.owner ≠ context.anchor.nodeId then .error .nodeId
    else if context.anchor.envelopeKind ≠ 0 then .error .head
    else if context.anchor.schemaUid ≠ context.expectedSchema then .error .schema
    else if UInt64.ofNat payload.entries.length ≠ context.anchor.count then .error .countMismatch
    else if logHead H payload.entries ≠ context.anchor.head then .error .head
    else
      let signer ← verifyAnchorAuthorization H K context.headDomainSeparator context.anchor
        context.headSignature
      if signer ≠ payload.owner then .error .headSignature
      else
        payload.attestations.forM (verifyAttestation H K context payload.owner)
        .ok payload

/-- The heads of all prefixes of a log, the empty one left out. -/
def prefixHeads (H : Hashes) (entries : List LogEntry) : List B256 :=
  (entries.foldl
    (fun (st : B256 × List B256) entry =>
      let head := fold H st.1 (entryLeaf H entry.kind entry.uid)
      (head, st.2 ++ [head]))
    (0, [])).2

end Trustgraphs.EasOffchain
