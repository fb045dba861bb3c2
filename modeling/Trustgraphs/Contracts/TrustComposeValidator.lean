import Trustgraphs.CompositionCore.Codec
import Trustgraphs.Contracts.WeightedPriorValidator

/-!
# Parameters and policies of compositions (`contracts/src/params/TrustComposeParamsCodec.sol`,
`contracts/src/params/TrustComposeValidator.sol`)

A policy is the bytes of a `TGCP` manifest: a header and one record per source, ascending by the source
ids, whose weights sum to the scale. Words of 32 bytes are read as in `WeightedPriorValidator`.
-/

namespace Trustgraphs

namespace TrustComposeParamsCodec

/-- The record of the contracts has the fields of the guest's. -/
abbrev Params := Composition.Params

/-- `keccak256(abi.encode(..))` over the 20 static fields. -/
def hash (H : Hashes) (p : Params) : B256 :=
  H.keccak256 (wordU32 p.version ++ p.programId.bytes ++ p.scopeHash.bytes ++ p.identityDomain.bytes ++
    p.outputKind.bytes ++ p.outputDomain.bytes ++ p.sourceCompatibilityClass.bytes ++
    wordU64 p.weightScale ++ wordU256 (p.outputPool.setWidth 256) ++ p.sourcePolicyRoot.bytes ++
    wordU8 p.sourceCount ++ p.policyManifestSha256.bytes ++ wordU8 p.maxSources ++
    wordU32 p.maxEntriesPerSource ++ wordU32 p.maxAggregateEntries ++ wordU32 p.maxUnionAccounts ++
    wordU32 p.maxAggregateBlobBytes ++ wordU64 p.maxSourceAgeBlocks ++ wordAddr p.accumulator ++
    wordU64 p.chainId)

end TrustComposeParamsCodec

namespace TrustComposeValidator

open Outcome TrustComposeParamsCodec
open WeightedPriorValidator (loadWord CalldataBytes MemoryBytes)

def WEIGHT_SCALE : UInt64 := 1000000000000000000
def PARAMS_VERSION : UInt32 := 1
def MANIFEST_VERSION : UInt16 := 1
def MIN_SOURCES : UInt8 := 2
def MAX_SOURCES : UInt8 := 8
def MAX_ENTRIES_PER_SOURCE : UInt32 := 4096
def MAX_AGGREGATE_ENTRIES : UInt32 := 8192
def MAX_UNION_ACCOUNTS : UInt32 := 8192
def MAX_AGGREGATE_BLOB_BYTES : UInt32 := 1048576
def MAX_SOURCE_AGE_BLOCKS : UInt64 := 500000
def HEADER_LENGTH : Nat := 15
def RECORD_LENGTH : Nat := 165

def MANIFEST_MAGIC : U256 := 0x54474350

section Constants

variable (H : Hashes)

def PROGRAM_ID : B256 := H.keccak256 (utf8 "trust-compose")
def IDENTITY_DOMAIN : B256 := H.keccak256 (utf8 "eip155-address")
def OUTPUT_KIND : B256 := H.keccak256 (utf8 "allocation")
def OUTPUT_DOMAIN : B256 := H.keccak256 (utf8 "trustgraphs.output.trust-compose-account.v1")
def TRUST_GRAPH_PROGRAM_ID : B256 := H.keccak256 (utf8 "trust-graph")
def WEIGHTED_TRUST_GRAPH_PROGRAM_ID : B256 := H.keccak256 (utf8 "trust-graph-weighted")
def TRUST_GRAPH_OUTPUT_DOMAIN : B256 := H.keccak256 (utf8 "trustgraphs.output.trust-graph-account.v1")
def WEIGHTED_TRUST_GRAPH_OUTPUT_DOMAIN : B256 :=
  H.keccak256 (utf8 "trustgraphs.output.weighted-trust-graph-account.v1")

end Constants

/-- The class, as the literal that the source pins. -/
def SOURCE_COMPATIBILITY_CLASS : B256 :=
  FixedBytes.ofNat 32 0x5426d501d31705b306bf65d6260a564441ff6b3b98a4375766c76348b7cca9e2

structure Commitment where
  sourcePolicyRoot : B256
  sourceCount : UInt8
  manifestSha256 : B256
  chainId : UInt64
deriving DecidableEq

inductive Error where
  | invalidParamsVersion (version : UInt32)
  | invalidProgramId (programId : B256)
  | invalidScope
  | invalidIdentityDomain (identityDomain : B256)
  | invalidOutputKind (outputKind : B256)
  | invalidOutputDomain (outputDomain : B256)
  | invalidCompatibilityClass (compatibilityClass : B256)
  | invalidWeightScale (weightScale : UInt64)
  | invalidOutputPool
  | invalidSourceCount (count : UInt8)
  | invalidPolicyCommitment
  | invalidBounds
  | invalidMaxSourceAge (maxAgeBlocks : UInt64)
  | invalidAccumulator
  | invalidChain (chainId : UInt64)
  | invalidManifestLength (actual expected : Nat)
  | invalidManifestMagic (magic : U256)
  | invalidManifestVersion (version : UInt16)
  | invalidManifestChain (actual expected : UInt64)
  | invalidSourceId (index : Nat) (sourceId : B256)
  | sourceIdsNotAscending (index : Nat) (previous sourceId : B256)
  | invalidSnapshot (index : Nat) (snapshot : Address)
  | duplicateSnapshot (index : Nat) (snapshot : Address)
  | invalidFamilyId (index : Nat)
  | unadmittedSourceProgram (index : Nat) (programId : B256)
  | wrongSourceOutputDomain (index : Nat) (programId sourceOutputDomain : B256)
  | invalidSourceWeight (index : Nat)
  | invalidWeightSum (sum : U256)
  | invalidSourceAge (index : Nat) (maxAgeBlocks : UInt64)
  | optionalSourceUnsupported (index : Nat)
  | policyCommitmentMismatch
  | identityFieldChanged
deriving DecidableEq

abbrev Result (α : Type) := Except (Abort Error) α

def revert {α : Type} (e : Error) : Result α := .error (.error e)

/-- The only output domain a source program is admitted with, zero for any other program. -/
def admittedSourceOutputDomain (H : Hashes) (programId : B256) : B256 :=
  if programId = TRUST_GRAPH_PROGRAM_ID H then TRUST_GRAPH_OUTPUT_DOMAIN H
  else if programId = WEIGHTED_TRUST_GRAPH_PROGRAM_ID H then WEIGHTED_TRUST_GRAPH_OUTPUT_DOMAIN H
  else 0

/-! ## Parameters -/

def boundsInvalid (p : Composition.Params) : Bool :=
  p.maxSources < MIN_SOURCES || p.maxSources > MAX_SOURCES || p.maxEntriesPerSource == 0 ||
    p.maxEntriesPerSource > MAX_ENTRIES_PER_SOURCE || p.maxAggregateEntries == 0 ||
    p.maxAggregateEntries > MAX_AGGREGATE_ENTRIES || p.maxUnionAccounts == 0 ||
    p.maxUnionAccounts > MAX_UNION_ACCOUNTS || p.maxAggregateBlobBytes == 0 ||
    p.maxAggregateBlobBytes > MAX_AGGREGATE_BLOB_BYTES ||
    p.maxEntriesPerSource > p.maxAggregateEntries || p.maxUnionAccounts > p.maxAggregateEntries

def validateStatic (H : Hashes) (p : Composition.Params) (requirePolicy : Bool) : Result Unit :=
  if p.version ≠ PARAMS_VERSION then revert (.invalidParamsVersion p.version)
  else if p.programId ≠ PROGRAM_ID H then revert (.invalidProgramId p.programId)
  else if p.scopeHash = 0 then revert .invalidScope
  else if p.identityDomain ≠ IDENTITY_DOMAIN H then revert (.invalidIdentityDomain p.identityDomain)
  else if p.outputKind ≠ OUTPUT_KIND H then revert (.invalidOutputKind p.outputKind)
  else if p.outputDomain ≠ OUTPUT_DOMAIN H then revert (.invalidOutputDomain p.outputDomain)
  else if p.sourceCompatibilityClass ≠ SOURCE_COMPATIBILITY_CLASS then
    revert (.invalidCompatibilityClass p.sourceCompatibilityClass)
  else if p.weightScale ≠ WEIGHT_SCALE then revert (.invalidWeightScale p.weightScale)
  else if p.outputPool.toNat < p.maxSources.toNat then revert .invalidOutputPool
  else if requirePolicy ∧ (p.sourceCount < MIN_SOURCES ∨ p.sourceCount > MAX_SOURCES ∨
      p.sourceCount > p.maxSources) then revert (.invalidSourceCount p.sourceCount)
  else if requirePolicy ∧ (p.sourcePolicyRoot = 0 ∨ p.policyManifestSha256 = 0) then
    revert .invalidPolicyCommitment
  else if boundsInvalid p then revert .invalidBounds
  else if p.maxSourceAgeBlocks = 0 ∨ p.maxSourceAgeBlocks > MAX_SOURCE_AGE_BLOCKS then
    revert (.invalidMaxSourceAge p.maxSourceAgeBlocks)
  else if requirePolicy ∧ p.accumulator = 0 then revert .invalidAccumulator
  else .ok ()

def validateComputationalEnvelope (H : Hashes) (p : Composition.Params) : Result Unit := do
  validateStatic H p true
  if p.chainId = 0 then revert (.invalidChain p.chainId) else .ok ()

/-- Every field outside of the source policy is that of the initial parameters. -/
def validateRotation (H : Hashes) (next initial : Composition.Params) : Result Unit := do
  validateComputationalEnvelope H next
  if next.version ≠ initial.version ∨ next.programId ≠ initial.programId ∨
      next.scopeHash ≠ initial.scopeHash ∨ next.identityDomain ≠ initial.identityDomain ∨
      next.outputKind ≠ initial.outputKind ∨ next.outputDomain ≠ initial.outputDomain ∨
      next.sourceCompatibilityClass ≠ initial.sourceCompatibilityClass ∨
      next.weightScale ≠ initial.weightScale ∨ next.outputPool ≠ initial.outputPool ∨
      next.maxSources ≠ initial.maxSources ∨
      next.maxEntriesPerSource ≠ initial.maxEntriesPerSource ∨
      next.maxAggregateEntries ≠ initial.maxAggregateEntries ∨
      next.maxUnionAccounts ≠ initial.maxUnionAccounts ∨
      next.maxAggregateBlobBytes ≠ initial.maxAggregateBlobBytes ∨
      next.maxSourceAgeBlocks ≠ initial.maxSourceAgeBlocks ∨
      next.accumulator ≠ initial.accumulator ∨ next.chainId ≠ initial.chainId then
    revert .identityFieldChanged
  else .ok ()

/-! ## Policy manifests -/

@[ext]
structure Record where
  sourceId : B256
  snapshot : Address
  familyId : B256
  programId : B256
  sourceOutputDomain : B256
  weight : UInt64
  maxAgeBlocks : UInt64
  required : UInt8
deriving DecidableEq

def bytes32 (word : U256) : B256 := FixedBytes.ofNat 32 word.toNat

def address (word : U256) : Address := FixedBytes.ofNat 20 word.toNat

def readRecord (load : Nat → U256) (start : Nat) : Record where
  sourceId := bytes32 (load start)
  snapshot := address (load (start + 32) >>> 96)
  familyId := bytes32 (load (start + 52))
  programId := bytes32 (load (start + 84))
  sourceOutputDomain := bytes32 (load (start + 116))
  weight := UInt64.ofNat (load (start + 148) >>> 192).toNat
  maxAgeBlocks := UInt64.ofNat (load (start + 156) >>> 192).toNat
  required := UInt8.ofNat (load (start + 164) >>> 248).toNat

/-- One record against the id before it and the snapshots so far. -/
def validateRecord (H : Hashes) (index : Nat) (r : Record) (previousId : B256)
    (snapshots : List Address) (maximumAge : UInt64) : Result Unit :=
  if r.sourceId = 0 then revert (.invalidSourceId index r.sourceId)
  else if r.sourceId ≤ previousId then revert (.sourceIdsNotAscending index previousId r.sourceId)
  else if r.snapshot = 0 then revert (.invalidSnapshot index r.snapshot)
  else if r.snapshot ∈ snapshots then revert (.duplicateSnapshot index r.snapshot)
  else if r.familyId = 0 then revert (.invalidFamilyId index)
  else if r.programId = PROGRAM_ID H then revert (.unadmittedSourceProgram index r.programId)
  else if admittedSourceOutputDomain H r.programId = 0 then
    revert (.unadmittedSourceProgram index r.programId)
  else if r.sourceOutputDomain ≠ admittedSourceOutputDomain H r.programId then
    revert (.wrongSourceOutputDomain index r.programId r.sourceOutputDomain)
  else if r.weight = 0 then revert (.invalidSourceWeight index)
  else if r.maxAgeBlocks = 0 ∨ r.maxAgeBlocks > maximumAge then
    revert (.invalidSourceAge index r.maxAgeBlocks)
  else if r.required ≠ 1 then revert (.optionalSourceUnsupported index)
  else .ok ()

def leafPreimage (r : Record) : Bytes :=
  r.sourceId.bytes ++ wordAddr r.snapshot ++ r.familyId.bytes ++ r.programId.bytes ++
    r.sourceOutputDomain.bytes ++ wordU64 r.weight ++ wordU64 r.maxAgeBlocks ++ wordU8 r.required

/-- The leaves so far, the snapshots, the last id and the sum of the weights. -/
structure Scan where
  level : List B256
  snapshots : List Address
  previousId : B256
  weightSum : U256

/-- One round of the loop, on the record read at `base + offset`. -/
def scanRecord (H : Hashes) (load : Nat → U256) (base : Nat) (maximumAge : UInt64) (st : Scan)
    (i : Nat) : Result Scan := do
  let r := readRecord load (base + (HEADER_LENGTH + i * RECORD_LENGTH))
  validateRecord H i r st.previousId st.snapshots maximumAge
  let weightSum ← ofPanic (Checked.add st.weightSum (BitVec.ofNat 256 r.weight.toNat))
  .ok ⟨st.level ++ [H.keccak256 (leafPreimage r)], st.snapshots ++ [r.snapshot], r.sourceId, weightSum⟩

/-- The root over the leaves: the same loop as over the leaves of a prior. -/
def orderedRoot (H : Hashes) (level : List B256) : Option B256 :=
  WeightedPriorValidator.merkleRoot H level level.length

/-- The validation of a manifest of `length` bytes that starts at `base`, with `digest` its hash. -/
def validateAt (H : Hashes) (load : Nat → U256) (base length : Nat) (digest : B256)
    (expectedChain maximumAge : UInt64) : Result Commitment :=
  if length < HEADER_LENGTH then revert (.invalidManifestLength length HEADER_LENGTH)
  else
    let header := load base
    -- comparisons of `bytes4` see the four high bytes only
    let magic := header >>> 224
    let version := UInt16.ofNat ((header >>> 208) &&& 0xffff).toNat
    let chainId := UInt64.ofNat ((header >>> 144) &&& 0xffffffffffffffff).toNat
    let count := UInt8.ofNat ((header >>> 136) &&& 0xff).toNat
    if magic ≠ MANIFEST_MAGIC then revert (.invalidManifestMagic magic)
    else if version ≠ MANIFEST_VERSION then revert (.invalidManifestVersion version)
    else if chainId ≠ expectedChain then revert (.invalidManifestChain chainId expectedChain)
    else if count < MIN_SOURCES ∨ count > MAX_SOURCES then revert (.invalidSourceCount count)
    else
      let expectedLength := HEADER_LENGTH + count.toNat * RECORD_LENGTH
      if length ≠ expectedLength then revert (.invalidManifestLength length expectedLength)
      else do
        let scan ← (List.range count.toNat).foldlM (scanRecord H load base maximumAge) ⟨[], [], 0, 0⟩
        if scan.weightSum.toNat ≠ WEIGHT_SCALE.toNat then revert (.invalidWeightSum scan.weightSum)
        else do
          let sourcePolicyRoot ← ofPanic (orderedRoot H scan.level)
          .ok ⟨sourcePolicyRoot, count, digest, chainId⟩

def validatePolicyManifest (H : Hashes) (manifest : CalldataBytes) (expectedChain maximumAge : UInt64) :
    Result Commitment :=
  validateAt H (loadWord manifest.calldata) manifest.offset manifest.length
    (H.sha256 manifest.bytes) expectedChain maximumAge

/-- The equivalent of `validatePolicyManifest` for bytes in the memory. -/
def validatePolicyManifestMemory (H : Hashes) (manifest : MemoryBytes)
    (expectedChain maximumAge : UInt64) : Result Commitment :=
  validateAt H (loadWord manifest.memory) (manifest.pointer + 32) manifest.length
    (H.sha256 manifest.bytes) expectedChain maximumAge

/-- The parameters of an instance with the policy that they commit to. -/
def validateFinal (H : Hashes) (p : Composition.Params) (manifest : CalldataBytes) : Result Commitment := do
  validateComputationalEnvelope H p
  let commitment ← validatePolicyManifest H manifest p.chainId p.maxSourceAgeBlocks
  if commitment.sourcePolicyRoot ≠ p.sourcePolicyRoot ∨ commitment.sourceCount ≠ p.sourceCount ∨
      commitment.manifestSha256 ≠ p.policyManifestSha256 then revert .policyCommitmentMismatch
  else .ok commitment

end TrustComposeValidator

end Trustgraphs
