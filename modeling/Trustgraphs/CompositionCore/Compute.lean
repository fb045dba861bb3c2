import Trustgraphs.CompositionCore.Codec
import Trustgraphs.ZkCore.Cid

/-!
# Composition (`composition-core/src/compute.rs`, `blob.rs`, `hamilton.rs`)

Every source gets its quota of the pool, and divides it among its accounts; an account adds up what it
gets. `compute` of the source is cut at its three stages: the static checks, which read no blob, the
validation of the blobs, and the allocation.
-/

/-! ## Hamilton allocation (`composition-core/src/hamilton.rs`) -/

namespace Trustgraphs.Composition

open Outcome

variable {K : Type}

/-- A key with its units and its remainder. -/
@[ext]
structure Apportioned (K : Type) where
  key : K
  allocation : U128
  remainder : U256

/-- The sum of the values, each of which must be positive. -/
def positiveSum (items : List (K × U128)) : Composed U128 :=
  items.foldlM (fun sum item =>
    if item.2 = 0 then reject .invalidHamiltonInputs else orOverflow (Checked.add sum item.2)) 0

/-- The floor of a quota and what it leaves. -/
def floorShare (pool denominator : U128) (item : K × U128) : Composed (Apportioned K) := do
  let numerator ← orOverflow (Checked.mul (pool.setWidth 256) (item.2.setWidth 256))
  let quotient := numerator / denominator.setWidth 256
  if (BitVec.allOnes 128).setWidth 256 < quotient then reject .arithmeticOverflow
  else .ok ⟨item.1, quotient.setWidth 128, numerator % denominator.setWidth 256⟩

/-- One of the units that rounding leaves. -/
def giveUnit (apportioned : List (Apportioned K)) (index : Nat) : Composed (List (Apportioned K)) := do
  let item ← ofPanic apportioned[index]?
  let allocation ← orOverflow (Checked.add item.allocation 1)
  .ok (apportioned.set index { item with allocation })

variable [LinearOrder K]

/-- The order of service: larger remainders first, then the smaller key. -/
def servedFirst (a b : Apportioned K) : Bool :=
  b.remainder < a.remainder || (a.remainder == b.remainder && a.key ≤ b.key)

/-- Allocate the pool across positive values whose sum is the denominator. -/
def apportion (pool denominator : U128) (items : List (K × U128)) : Composed (List (Apportioned K)) :=
  if denominator = 0 ∨ items.isEmpty then reject .invalidHamiltonInputs
  else do
    let sum ← positiveSum items
    if sum ≠ denominator then reject .invalidHamiltonInputs
    else do
      let apportioned ← items.mapM (floorShare pool denominator)
      let allocated ← orOverflow (Checked.sum (apportioned.map Apportioned.allocation))
      let residual ← orOverflow (Checked.sub pool allocated)
      if apportioned.length < residual.toNat then reject .invalidHamiltonInputs
      else do
        let order := apportioned.zipIdx.insertionSort fun a b => servedFirst a.1 b.1
        let apportioned ← ((order.map Prod.snd).take residual.toNat).foldlM giveUnit apportioned
        .ok (apportioned.insertionSort fun a b => a.key ≤ b.key)

end Trustgraphs.Composition

/-!
## Score blobs of the sources (`composition-core/src/blob.rs`)

A blob is JSON, an object of texts. What `serde_json` makes of bytes comes from outside of the
repository and is the parameter `fromSlice`; the keys of the map ascend byte by byte.
-/

namespace Trustgraphs.Composition

open Outcome

/-- Whether a byte is a digit of lower-case hex. -/
def isLowerHex (b : UInt8) : Bool := Text.isDigit b || (97 ≤ b && b ≤ 102)

def hexDigitValue (b : UInt8) : Option UInt8 :=
  if 48 ≤ b ∧ b ≤ 57 then some (b - 48)
  else if 97 ≤ b ∧ b ≤ 102 then some (b - 87)
  else if 65 ≤ b ∧ b ≤ 70 then some (b - 55)
  else none

def decodeHexPairs : Bytes → Option Bytes
  | [] => some []
  | [_] => none
  | high :: low :: rest => do
    let high ← hexDigitValue high
    let low ← hexDigitValue low
    let bytes ← decodeHexPairs rest
    some ((high * 16 + low) :: bytes)

/-- `hex::decode_to_slice` into an address. -/
def decodeAddress (digits : Bytes) : Option Address := (decodeHexPairs digits).bind (FixedBytes.ofSlice 20)

def accountInvalid (account : Bytes) : Bool :=
  account.length != 42 || !Text.startsWith (utf8 "0x") account || !(account.drop 2).all isLowerHex

def valueInvalid (value : Bytes) : Bool :=
  value.isEmpty || value == utf8 "0" || (decide (1 < value.length) && Text.startsWith (utf8 "0") value) ||
    !value.all Text.isDigit

/-- An entry of a canonical blob. -/
def decodeEntry (entry : Bytes × Bytes) : Composed (Address × U128) :=
  if accountInvalid entry.1 then reject (.invalidSourceAccount entry.1)
  else
    match decodeAddress (entry.1.drop 2) with
    | none => reject (.invalidSourceAccount entry.1)
    | some address =>
      if valueInvalid entry.2 then reject (.invalidSourceValue entry.1 entry.2)
      else
        match Text.parseUnsigned (2 ^ 128 - 1) entry.2 with
        | none => reject (.invalidSourceValue entry.1 entry.2)
        | some value => .ok (address, BitVec.ofNat 128 value)

def scoresOf (entries : List (Address × U128)) : List (Address × U256) :=
  entries.map fun entry => (entry.1, entry.2.setWidth 256)

/-- The scores of a blob, where only the canonical text is accepted. -/
def decodeCanonicalScoreBlob (fromSlice : Bytes → Option (BTreeMap Bytes Bytes))
    (blob : Bytes) : Composed (List (Address × U128)) :=
  match fromSlice blob with
  | none => reject .sourceBlobNotJson
  | some parsed =>
    if parsed.isEmpty then reject .emptySourceBlob
    else do
      let entries ← parsed.toList.mapM decodeEntry
      if canonicalBlob (scoresOf entries) ≠ blob then reject .sourceBlobNotCanonical else .ok entries

/-- The Merkle root of a source's scores. -/
def outputRoot (H : Hashes) (entries : List (Address × U128)) : Option B256 :=
  merkleRoot H ((scoresOf entries).map fun e => outputLeaf H e.1 e.2)

end Trustgraphs.Composition

/-! ## The stages -/

namespace Trustgraphs.Composition

open Outcome

structure Binding where
  recipient : Address
  instanceDomain : B256
deriving DecidableEq

structure SourcePreimage where
  cid : Bytes
  blob : Bytes
deriving DecidableEq

structure GuestInput where
  params : Params
  manifest : Bytes
  sourcePreimages : List SourcePreimage
  captureCommitment : B256
  captureCount : UInt64
  binding : Binding

structure AllocationEntry where
  account : Address
  value : U128
deriving DecidableEq

structure SourceAllocation where
  sourceId : B256
  quota : U128
  allocations : List AllocationEntry
deriving DecidableEq

structure ComputeResult where
  journal : Journal
  sourceAllocations : List SourceAllocation
  scores : List (Address × U256)
  blob : Bytes
  cid : Bytes
  manifest : CapturedManifest
deriving DecidableEq

structure ValidatedSource where
  sourceId : B256
  totalValue : U128
  weight : UInt64
  entries : List (Address × U128)
deriving DecidableEq

/-! ## The static checks -/

/-- What the loop over the sources has seen. -/
structure PolicyScan where
  previousId : Option B256
  snapshots : BTreeSet Address
  weightSum : U128

/-- One source against the policy and the bounds of the scan so far. -/
def checkSource (H : Hashes) (p : Params) (captureBlock : UInt64) (st : PolicyScan)
    (source : CapturedSource) : Composed PolicyScan :=
  if source.sourceId = 0 then reject .zeroSourceId
  else if st.previousId.any (fun previous => source.sourceId ≤ previous) then
    reject .sourceIdsNotStrictlySorted
  else if source.snapshot = 0 then reject .zeroSnapshot
  else if st.snapshots.contains source.snapshot then reject (.duplicateSnapshot source.snapshot)
  else if source.familyId = 0 then reject .zeroFamilyId
  else if source.programId = programId H then reject .compositeSourceForbidden
  else
    match admittedSourceOutputDomain H source.programId with
    | none => reject (.unadmittedSourceProgram source.programId)
    | some admittedDomain =>
      if source.sourceOutputDomain ≠ admittedDomain then
        reject (.wrongSourceOutputDomain source.programId source.sourceOutputDomain)
      else if source.required = false then reject .optionalSourceUnsupported
      else if source.weight = 0 then reject (.invalidSourceWeight source.sourceId)
      else do
        let weightSum ← orOverflow (Checked.add st.weightSum (BitVec.ofNat 128 source.weight.toNat))
        if source.maxAgeBlocks = 0 ∨ p.maxSourceAgeBlocks < source.maxAgeBlocks then
          reject (.invalidSourceAge source.sourceId source.maxAgeBlocks)
        else if captureBlock < source.freezeBlock ∨ source.maxAgeBlocks < captureBlock - source.freezeBlock then
          reject (.staleSource source.sourceId)
        else if source.totalValue = 0 then reject (.invalidSourceTotal source.sourceId)
        else .ok ⟨some source.sourceId, st.snapshots.insert source.snapshot, weightSum⟩

/-- The policy of the sources, as the parameters commit to it. -/
def checkPolicy (H : Hashes) (p : Params) (manifest : CapturedManifest) : Composed Unit := do
  let scan ← manifest.sources.foldlM (checkSource H p manifest.captureBlock) ⟨none, ∅, 0⟩
  if scan.weightSum.toNat ≠ WEIGHT_SCALE.toNat then reject (.invalidSourceWeightSum scan.weightSum)
  else
    let actualPolicySha := H.sha256 (policyManifestEncoded p.chainId manifest.sources)
    if actualPolicySha ≠ p.policyManifestSha256 then
      reject (.policyManifestMismatch p.policyManifestSha256 actualPolicySha)
    else do
      let actualPolicyRoot ← ofCodec (sourcePolicyRoot H manifest.sources)
      if actualPolicyRoot ≠ p.sourcePolicyRoot then
        reject (.sourcePolicyRootMismatch p.sourcePolicyRoot actualPolicyRoot)
      else .ok ()

/-- Every check that is made before a blob is read. -/
def staticChecks (H : Hashes) (input : GuestInput) : Composed CapturedManifest := do
  input.params.validate H
  let actualCapture := H.sha256 input.manifest
  if actualCapture ≠ input.captureCommitment then
    reject (.captureCommitmentMismatch input.captureCommitment actualCapture)
  else do
    let manifest ← ofCodec (parseCaptureManifest input.manifest input.params.chainId)
    let count := manifest.sources.length
    if input.captureCount.toNat ≠ count then reject (.captureCountMismatch input.captureCount.toNat count)
    else if input.params.sourceCount.toNat ≠ count then
      reject (.captureCountMismatch input.params.sourceCount.toNat count)
    else if input.sourcePreimages.length ≠ count then
      reject (.sourcePreimageCountMismatch count input.sourcePreimages.length)
    else do
      checkPolicy H input.params manifest
      .ok manifest

/-! ## The blobs -/

section Blobs

variable (H : Hashes) (fromSlice : Bytes → Option (BTreeMap Bytes Bytes))

/-- A source's blob against its captured hashes and counts. -/
def validateSourceBlob (maxEntries : Nat) (source : CapturedSource) (preimage : SourcePreimage) :
    Composed ValidatedSource :=
  if H.keccak256 preimage.cid ≠ source.cidDigest then reject (.cidDigestMismatch source.sourceId)
  else
    let blobSha256 := H.sha256 preimage.blob
    if blobSha256 ≠ source.blobSha256 then reject (.blobSha256Mismatch source.sourceId)
    else if cidV1Raw blobSha256 ≠ preimage.cid then reject (.cidMismatch source.sourceId)
    else do
      let entries ← decodeCanonicalScoreBlob fromSlice preimage.blob
      if maxEntries < entries.length then reject (.tooManyEntries source.sourceId entries.length)
      else do
        let total ← orOverflow (Checked.sum (entries.map Prod.snd))
        if total ≠ source.totalValue then reject (.sourceTotalMismatch source.sourceId)
        else do
          let root ← ofPanic (outputRoot H entries)
          if root ≠ source.outputRoot then reject (.sourceRootMismatch source.sourceId)
          else .ok ⟨source.sourceId, source.totalValue, source.weight, entries⟩

/-- Everything that is checked before the allocation. Lengths of buffers in the memory add up within
`usize`. -/
def validateInput (input : GuestInput) : Composed (CapturedManifest × List ValidatedSource) := do
  let manifest ← staticChecks H input
  let aggregateBlobBytes := (input.sourcePreimages.map fun source => source.blob.length).sum
  if input.params.maxAggregateBlobBytes.toNat < aggregateBlobBytes then
    reject (.aggregateBlobByteLimit aggregateBlobBytes)
  else do
    let validated ← (manifest.sources.zip input.sourcePreimages).mapM fun pair =>
      validateSourceBlob H fromSlice input.params.maxEntriesPerSource.toNat pair.1 pair.2
    let aggregateEntries := (validated.map fun source => source.entries.length).sum
    if input.params.maxAggregateEntries.toNat < aggregateEntries then
      reject (.aggregateEntryLimit aggregateEntries)
    else
      let union := BTreeSet.ofList (validated.flatMap fun source => source.entries.map Prod.fst)
      if input.params.maxUnionAccounts.toNat < union.size then reject (.unionAccountLimit union.size)
      else .ok (manifest, validated)

end Blobs

/-! ## The allocation -/

/-- What the loop over the quotas has allocated, by source and by account. -/
structure Blend where
  sourceAllocations : List SourceAllocation
  combined : BTreeMap Address U128

/-- Add an entry to what its account gets. -/
def addEntry (combined : BTreeMap Address U128) (entry : AllocationEntry) :
    Composed (BTreeMap Address U128) := do
  let value ← orOverflow (Checked.add (combined.getD entry.account 0) entry.value)
  .ok (combined.insert entry.account value)

/-- A source's quota apportioned over its accounts and blended in. -/
def allocateQuota (validated : List ValidatedSource) (st : Blend) (quota : Apportioned B256) : Composed Blend :=
  if quota.allocation = 0 then reject (.requiredSourceReceivedZero quota.key)
  else do
    -- the quota source came from the validated sources
    let source ← ofPanic (validated.find? fun source => source.sourceId = quota.key)
    let shares ← apportion quota.allocation source.totalValue source.entries
    let allocations := (shares.filter fun entry => entry.allocation ≠ 0).map fun entry =>
      ⟨entry.key, entry.allocation⟩
    let combined ← allocations.foldlM addEntry st.combined
    .ok ⟨st.sourceAllocations ++ [⟨quota.key, quota.allocation, allocations⟩], combined⟩

def weightsOf (validated : List ValidatedSource) : List (B256 × U128) :=
  validated.map fun source => (source.sourceId, BitVec.ofNat 128 source.weight.toNat)

/-- The quotas of the sources by their weights. -/
def sourceQuotas (p : Params) (validated : List ValidatedSource) : Composed (List (Apportioned B256)) :=
  apportion p.outputPool (BitVec.ofNat 128 p.weightScale.toNat) (weightsOf validated)

/-- The scores that are committed to: those that are positive. -/
def scoresOfMap (combined : BTreeMap Address U128) : List (Address × U256) :=
  (combined.toList.filter fun entry => entry.2 ≠ 0).map fun entry => (entry.1, entry.2.setWidth 256)

/-- The composition: the checks, the quotas and the blend. -/
def compute (H : Hashes) (fromSlice : Bytes → Option (BTreeMap Bytes Bytes))
    (input : GuestInput) : Composed ComputeResult := do
  let (manifest, validated) ← validateInput H fromSlice input
  let quotas ← sourceQuotas input.params validated
  let blend ← quotas.foldlM (allocateQuota validated) ⟨[], ∅⟩
  let outputTotal ← orOverflow (Checked.sum (blend.combined.toList.map Prod.snd))
  if outputTotal ≠ input.params.outputPool then reject .outputPoolMismatch
  else do
    let scores := scoresOfMap blend.combined
    let outputRoot ← ofPanic (merkleRoot H (scores.map fun e => outputLeaf H e.1 e.2))
    let blob := canonicalBlob scores
    let sha256 := H.sha256 blob
    let cid := cidV1Raw sha256
    let journal := {
      acc := input.captureCommitment
      leafCount := input.captureCount
      anchorAcc := 0
      anchorCount := 0
      paramsHash := paramsHash H input.params
      outputRoot
      ipfsHash := sha256
      cidDigest := H.keccak256 cid
      totalValue := outputTotal.setWidth 256
      skippedDigest := 0
      recipient := input.binding.recipient
      instanceDomain := input.binding.instanceDomain }
    .ok { journal, sourceAllocations := blend.sourceAllocations, scores, blob, cid, manifest }

end Trustgraphs.Composition
