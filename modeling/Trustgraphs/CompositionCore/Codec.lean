import Trustgraphs.WeightedPriorCore.Manifest

/-!
# The composition program (`composition-core/src/lib.rs`, `composition-core/src/codec.rs`)

A `TGCM` manifest freezes the sources of one composition: a header and one record per source. The part
of a record that governance chose is committed to by the policy root and by the `TGCP` manifest.
-/

namespace Trustgraphs.Composition

open Outcome

abbrev U128 := BitVec 128

def PARAMS_VERSION : UInt32 := 1

def MANIFEST_VERSION : UInt16 := 1

def CAPTURE_MAGIC : Bytes := utf8 "TGCM"

def POLICY_MAGIC : Bytes := utf8 "TGCP"

def CAPTURE_HEADER_LENGTH : Nat := 23

def CAPTURE_RECORD_LENGTH : Nat := 293

inductive CodecError where
  | captureManifestTooShort (length : Nat)
  | invalidCaptureManifestLength (expected actual : Nat)
  | invalidCaptureMagic
  | unsupportedCaptureVersion (version : UInt16)
  | wrongCaptureChain (expected actual : UInt64)
  | optionalSourceUnsupported
deriving DecidableEq

/-- A result of the codec: a value, one of its errors, or a panic. -/
abbrev Codec (α : Type) := Except (Abort CodecError) α

def fail {α : Type} (e : CodecError) : Codec α := .error (.error e)

/-- The pinned parameters of a composition. -/
@[ext]
structure Params where
  version : UInt32
  programId : B256
  scopeHash : B256
  identityDomain : B256
  outputKind : B256
  outputDomain : B256
  sourceCompatibilityClass : B256
  weightScale : UInt64
  outputPool : U128
  sourcePolicyRoot : B256
  sourceCount : UInt8
  policyManifestSha256 : B256
  maxSources : UInt8
  maxEntriesPerSource : UInt32
  maxAggregateEntries : UInt32
  maxUnionAccounts : UInt32
  maxAggregateBlobBytes : UInt32
  maxSourceAgeBlocks : UInt64
  accumulator : Address
  chainId : UInt64
deriving DecidableEq

/-- One source of a capture manifest. -/
structure CapturedSource where
  sourceId : B256
  snapshot : Address
  familyId : B256
  programId : B256
  sourceOutputDomain : B256
  stateIndex : UInt64
  freezeBlock : UInt64
  outputRoot : B256
  blobSha256 : B256
  cidDigest : B256
  totalValue : U128
  weight : UInt64
  maxAgeBlocks : UInt64
  required : Bool
deriving DecidableEq

structure CapturedManifest where
  chainId : UInt64
  captureBlock : UInt64
  sources : List CapturedSource
deriving DecidableEq

/-! ## Reading -/

/-- `n` bytes at an offset, which panics past the end. -/
def readBytes (n : Nat) (bytes : Bytes) (offset : Nat) : Codec (FixedBytes n) :=
  ofPanic (FixedBytes.ofSlice n ((bytes.drop offset).take n))

def readU8 (bytes : Bytes) (offset : Nat) : Codec UInt8 := ofPanic bytes[offset]?

def readU16 (bytes : Bytes) (offset : Nat) : Codec UInt16 := do
  .ok (UInt16.ofNat (ofBeBytes (← readBytes 2 bytes offset).bytes))

def readU64 (bytes : Bytes) (offset : Nat) : Codec UInt64 := do
  .ok (UInt64.ofNat (ofBeBytes (← readBytes 8 bytes offset).bytes))

def readU128 (bytes : Bytes) (offset : Nat) : Codec U128 := do
  .ok (BitVec.ofNat 128 (ofBeBytes (← readBytes 16 bytes offset).bytes))

/-- The source whose record starts at `base`. -/
def parseCapturedSource (bytes : Bytes) (base : Nat) : Codec CapturedSource := do
  let sourceId ← readBytes 32 bytes base
  let snapshot ← readBytes 20 bytes (base + 32)
  let familyId ← readBytes 32 bytes (base + 52)
  let programId ← readBytes 32 bytes (base + 84)
  let sourceOutputDomain ← readBytes 32 bytes (base + 116)
  let stateIndex ← readU64 bytes (base + 148)
  let freezeBlock ← readU64 bytes (base + 156)
  let outputRoot ← readBytes 32 bytes (base + 164)
  let blobSha256 ← readBytes 32 bytes (base + 196)
  let cidDigest ← readBytes 32 bytes (base + 228)
  let totalValue ← readU128 bytes (base + 260)
  let weight ← readU64 bytes (base + 276)
  let maxAgeBlocks ← readU64 bytes (base + 284)
  let required ← readU8 bytes (base + 292)
  if 1 < required then fail .optionalSourceUnsupported
  else .ok { sourceId, snapshot, familyId, programId, sourceOutputDomain, stateIndex, freezeBlock,
             outputRoot, blobSha256, cidDigest, totalValue, weight, maxAgeBlocks,
             required := required == 1 }

/-- The capture manifest of an expected chain, read exactly. -/
def parseCaptureManifest (bytes : Bytes) (expectedChain : UInt64) : Codec CapturedManifest :=
  if bytes.length < CAPTURE_HEADER_LENGTH then fail (.captureManifestTooShort bytes.length)
  else if bytes.take 4 ≠ CAPTURE_MAGIC then fail .invalidCaptureMagic
  else do
    let version ← readU16 bytes 4
    if version ≠ MANIFEST_VERSION then fail (.unsupportedCaptureVersion version)
    else do
      let chainId ← readU64 bytes 6
      if chainId ≠ expectedChain then fail (.wrongCaptureChain expectedChain chainId)
      else do
        let captureBlock ← readU64 bytes 14
        let count := (← readU8 bytes 22).toNat
        let expected := CAPTURE_HEADER_LENGTH + count * CAPTURE_RECORD_LENGTH
        if bytes.length ≠ expected then fail (.invalidCaptureManifestLength expected bytes.length)
        else do
          let sources ← (List.range count).mapM fun index =>
            parseCapturedSource bytes (CAPTURE_HEADER_LENGTH + index * CAPTURE_RECORD_LENGTH)
          .ok { chainId, captureBlock, sources }

/-! ## Writing -/

def flagByte (b : Bool) : UInt8 := if b then 1 else 0

def CapturedSource.encoded (s : CapturedSource) : Bytes :=
  s.sourceId.bytes ++ s.snapshot.bytes ++ s.familyId.bytes ++ s.programId.bytes ++
    s.sourceOutputDomain.bytes ++ beBytes 8 s.stateIndex.toNat ++ beBytes 8 s.freezeBlock.toNat ++
    s.outputRoot.bytes ++ s.blobSha256.bytes ++ s.cidDigest.bytes ++ beBytes 16 s.totalValue.toNat ++
    beBytes 8 s.weight.toNat ++ beBytes 8 s.maxAgeBlocks.toNat ++ [flagByte s.required]

/-- The header and the records in the order given. -/
def captureBytes (m : CapturedManifest) : Bytes :=
  CAPTURE_MAGIC ++ beBytes 2 MANIFEST_VERSION.toNat ++ beBytes 8 m.chainId.toNat ++
    beBytes 8 m.captureBlock.toNat ++ [UInt8.ofNat m.sources.length] ++
    m.sources.flatMap CapturedSource.encoded

/-- The sources in the order of their ids. -/
def sortSources (sources : List CapturedSource) : List CapturedSource :=
  sources.insertionSort fun a b => a.sourceId ≤ b.sourceId

def captureManifestEncoded (m : CapturedManifest) : Bytes :=
  captureBytes { m with sources := sortSources m.sources }

/-- The commitment to a source: `keccak256(abi.encode(..))` over what governance chose. -/
def sourcePolicyLeaf (H : Hashes) (s : CapturedSource) : B256 :=
  H.keccak256 (s.sourceId.bytes ++ wordAddr s.snapshot ++ s.familyId.bytes ++ s.programId.bytes ++
    s.sourceOutputDomain.bytes ++ wordU64 s.weight ++ wordU64 s.maxAgeBlocks ++
    wordU8 (flagByte s.required))

/-- The root over the leaves in the order of the ids: sorted pairs, an odd node is promoted. -/
def sourcePolicyRoot (H : Hashes) (sources : List CapturedSource) : Codec B256 :=
  if sources = [] then .ok 0
  else ofPanic (WeightedPrior.reduceLevels H ((sortSources sources).map (sourcePolicyLeaf H)))[0]?

def policyManifestEncoded (chainId : UInt64) (sources : List CapturedSource) : Bytes :=
  POLICY_MAGIC ++ beBytes 2 MANIFEST_VERSION.toNat ++ beBytes 8 chainId.toNat ++
    [UInt8.ofNat sources.length] ++ (sortSources sources).flatMap fun s =>
      s.sourceId.bytes ++ s.snapshot.bytes ++ s.familyId.bytes ++ s.programId.bytes ++
        s.sourceOutputDomain.bytes ++ beBytes 8 s.weight.toNat ++ beBytes 8 s.maxAgeBlocks.toNat ++
        [flagByte s.required]

def paramsEncoded (p : Params) : Bytes :=
  wordU32 p.version ++ p.programId.bytes ++ p.scopeHash.bytes ++ p.identityDomain.bytes ++
    p.outputKind.bytes ++ p.outputDomain.bytes ++ p.sourceCompatibilityClass.bytes ++
    wordU64 p.weightScale ++ wordU256 (p.outputPool.setWidth 256) ++ p.sourcePolicyRoot.bytes ++
    wordU8 p.sourceCount ++ p.policyManifestSha256.bytes ++ wordU8 p.maxSources ++
    wordU32 p.maxEntriesPerSource ++ wordU32 p.maxAggregateEntries ++ wordU32 p.maxUnionAccounts ++
    wordU32 p.maxAggregateBlobBytes ++ wordU64 p.maxSourceAgeBlocks ++ wordAddr p.accumulator ++
    wordU64 p.chainId

def paramsHash (H : Hashes) (p : Params) : B256 := H.keccak256 (paramsEncoded p)

end Trustgraphs.Composition

/-! ## Parameters of the composition program (`composition-core/src/lib.rs`) -/

namespace Trustgraphs.Composition

open Outcome

def WEIGHT_SCALE : UInt64 := 1000000000000000000

def MIN_SOURCES : Nat := 2

def MAX_SOURCES : Nat := 8

def MAX_ENTRIES_PER_SOURCE : Nat := 4096

def MAX_AGGREGATE_ENTRIES : Nat := 8192

def MAX_UNION_ACCOUNTS : Nat := 8192

def MAX_AGGREGATE_BLOB_BYTES : Nat := 1048576

def MAX_SOURCE_AGE_BLOCKS : UInt64 := 500000

section Constants

variable (H : Hashes)

def programId : B256 := H.keccak256 (utf8 "trust-compose")

def identityDomain : B256 := H.keccak256 (utf8 "eip155-address")

def outputKind : B256 := H.keccak256 (utf8 "allocation")

def outputDomain : B256 := H.keccak256 (utf8 "trustgraphs.output.trust-compose-account.v1")

def trustGraphProgramId : B256 := H.keccak256 (utf8 "trust-graph")

def weightedTrustGraphProgramId : B256 := H.keccak256 (utf8 "trust-graph-weighted")

def trustGraphOutputDomain : B256 := H.keccak256 (utf8 "trustgraphs.output.trust-graph-account.v1")

def weightedTrustGraphOutputDomain : B256 :=
  H.keccak256 (utf8 "trustgraphs.output.weighted-trust-graph-account.v1")

/-- The closed compatibility class: its tag, the shared domain and kind, and the two pairs of a program
and its output domain. -/
def sourceCompatibilityClassV1 : B256 :=
  H.keccak256 ((H.keccak256 (utf8 "trust-compose.source-compatibility.v1")).bytes ++
    (identityDomain H).bytes ++ (outputKind H).bytes ++ (trustGraphProgramId H).bytes ++
    (trustGraphOutputDomain H).bytes ++ (weightedTrustGraphProgramId H).bytes ++
    (weightedTrustGraphOutputDomain H).bytes)

/-- The only output domain a source program is admitted with. -/
def admittedSourceOutputDomain (program : B256) : Option B256 :=
  if program = trustGraphProgramId H then some (trustGraphOutputDomain H)
  else if program = weightedTrustGraphProgramId H then some (weightedTrustGraphOutputDomain H)
  else none

end Constants

inductive CompositionError where
  | unsupportedParamsVersion (version : UInt32)
  | wrongProgramId
  | invalidScope
  | wrongIdentityDomain
  | wrongOutputKind
  | wrongOutputDomain
  | invalidCompatibilityClass (compatibilityClass : B256)
  | invalidWeightScale (weightScale : UInt64)
  | invalidOutputPool
  | invalidSourceCount (count : Nat)
  | invalidBounds
  | invalidMaxSourceAge (maxAge : UInt64)
  | invalidAccumulator
  | invalidChain (chainId : UInt64)
  | invalidPolicyCommitment
  | captureManifestTooShort (length : Nat)
  | invalidCaptureManifestLength (expected actual : Nat)
  | invalidCaptureMagic
  | unsupportedCaptureVersion (version : UInt16)
  | wrongCaptureChain (expected actual : UInt64)
  | captureCountMismatch (expected actual : Nat)
  | captureCommitmentMismatch (expected actual : B256)
  | sourcePreimageCountMismatch (expected actual : Nat)
  | zeroSourceId
  | sourceIdsNotStrictlySorted
  | zeroSnapshot
  | duplicateSnapshot (snapshot : Address)
  | zeroFamilyId
  | unadmittedSourceProgram (programId : B256)
  | wrongSourceOutputDomain (programId domain : B256)
  | compositeSourceForbidden
  | optionalSourceUnsupported
  | invalidSourceWeight (sourceId : B256)
  | invalidSourceWeightSum (sum : U128)
  | invalidSourceAge (sourceId : B256) (maxAge : UInt64)
  | staleSource (sourceId : B256)
  | invalidSourceTotal (sourceId : B256)
  | policyManifestMismatch (expected actual : B256)
  | sourcePolicyRootMismatch (expected actual : B256)
  | cidDigestMismatch (sourceId : B256)
  | blobSha256Mismatch (sourceId : B256)
  | cidMismatch (sourceId : B256)
  | sourceBlobNotJson
  | sourceBlobNotCanonical
  | emptySourceBlob
  | invalidSourceAccount (account : Bytes)
  | invalidSourceValue (account value : Bytes)
  | tooManyEntries (sourceId : B256) (count : Nat)
  | aggregateEntryLimit (count : Nat)
  | aggregateBlobByteLimit (bytes : Nat)
  | unionAccountLimit (count : Nat)
  | sourceTotalMismatch (sourceId : B256)
  | sourceRootMismatch (sourceId : B256)
  | invalidHamiltonInputs
  | requiredSourceReceivedZero (sourceId : B256)
  | arithmeticOverflow
  | outputPoolMismatch
deriving DecidableEq

/-- The errors of the codec among those of the program. -/
def CodecError.toCompositionError : CodecError → CompositionError
  | .captureManifestTooShort length => .captureManifestTooShort length
  | .invalidCaptureManifestLength expected actual => .invalidCaptureManifestLength expected actual
  | .invalidCaptureMagic => .invalidCaptureMagic
  | .unsupportedCaptureVersion version => .unsupportedCaptureVersion version
  | .wrongCaptureChain expected actual => .wrongCaptureChain expected actual
  | .optionalSourceUnsupported => .optionalSourceUnsupported

/-- A result of the program: a value, one of its errors, or a panic. -/
abbrev Composed (α : Type) := Except (Abort CompositionError) α

def reject {α : Type} (e : CompositionError) : Composed α := .error (.error e)

/-- A value that is missing after an overflow. -/
def orOverflow {α : Type} (o : Option α) : Composed α :=
  match o with
  | some a => .ok a
  | none => reject .arithmeticOverflow

def ofCodec {α : Type} (x : Codec α) : Composed α := renameError CodecError.toCompositionError x

/-- The static bounds of the parameters. -/
def Params.boundsInvalid (p : Params) : Bool :=
  p.maxSources.toNat > MAX_SOURCES || p.maxSources.toNat < MIN_SOURCES ||
    p.maxEntriesPerSource == 0 || p.maxEntriesPerSource.toNat > MAX_ENTRIES_PER_SOURCE ||
    p.maxAggregateEntries == 0 || p.maxAggregateEntries.toNat > MAX_AGGREGATE_ENTRIES ||
    p.maxUnionAccounts == 0 || p.maxUnionAccounts.toNat > MAX_UNION_ACCOUNTS ||
    p.maxAggregateBlobBytes == 0 || p.maxAggregateBlobBytes.toNat > MAX_AGGREGATE_BLOB_BYTES ||
    p.maxEntriesPerSource > p.maxAggregateEntries || p.maxUnionAccounts > p.maxAggregateEntries

/-- The checks on the parameters before any source is read. -/
def Params.validate (H : Hashes) (p : Params) : Composed Unit :=
  if p.version ≠ PARAMS_VERSION then reject (.unsupportedParamsVersion p.version)
  else if p.programId ≠ Composition.programId H then reject .wrongProgramId
  else if p.scopeHash = 0 then reject .invalidScope
  else if p.identityDomain ≠ Composition.identityDomain H then reject .wrongIdentityDomain
  else if p.outputKind ≠ Composition.outputKind H then reject .wrongOutputKind
  else if p.outputDomain ≠ Composition.outputDomain H then reject .wrongOutputDomain
  else if p.sourceCompatibilityClass ≠ sourceCompatibilityClassV1 H then
    reject (.invalidCompatibilityClass p.sourceCompatibilityClass)
  else if p.weightScale ≠ WEIGHT_SCALE then reject (.invalidWeightScale p.weightScale)
  else if p.outputPool = 0 then reject .invalidOutputPool
  else if p.sourceCount.toNat < MIN_SOURCES ∨ MAX_SOURCES < p.sourceCount.toNat ∨
      p.maxSources.toNat < p.sourceCount.toNat then reject (.invalidSourceCount p.sourceCount.toNat)
  else if p.sourcePolicyRoot = 0 ∨ p.policyManifestSha256 = 0 then reject .invalidPolicyCommitment
  else if p.boundsInvalid then reject .invalidBounds
  else if p.maxSourceAgeBlocks = 0 ∨ MAX_SOURCE_AGE_BLOCKS < p.maxSourceAgeBlocks then
    reject (.invalidMaxSourceAge p.maxSourceAgeBlocks)
  else if p.accumulator = 0 then reject .invalidAccumulator
  else if p.chainId = 0 then reject (.invalidChain p.chainId)
  else .ok ()

end Trustgraphs.Composition
