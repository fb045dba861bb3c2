import Trustgraphs.ZkCore.Edge
import Trustgraphs.ZkCore.Merkle

/-!
# Inputs and results of the trust-graph programs (`pagerank-core/src/lib.rs`, `encode.rs`)
-/

namespace Trustgraphs

def PARAMS_SCHEMA_VERSION : UInt32 := 3

/-- Governance-pinned parameters. All `Fp` fields are scaled by `precisionScale`. -/
structure Params where
  dampingFp : U256
  toleranceFp : U256
  maxIterations : UInt32
  minWeightFp : U256
  maxWeightFp : U256
  trustShareFp : U256
  trustDecayFp : U256
  trustedSeeds : List Address
  totalPool : U256
  precisionScale : U256
  schemaUid : B256
  /-- The ABI head slot of the confidence field in the attestation data. -/
  weightFieldIndex : UInt32
  /-- The accepted EIP-712 domain separators. Empty: lane 2 is disabled. -/
  envelope0DomainSeparators : List B256
  lane2MaxHeadAge : UInt64
  accumulator : Address
  chainId : UInt64
deriving DecidableEq

/-- One anchor claim, as `AnchorRegistry` folded it. -/
structure AnchorRecord where
  nodeId : B256
  envelopeKind : UInt8
  head : B256
  /-- The signed monotonic position of the head. -/
  count : UInt64
  dataCommitment : B256
  blockTimestamp : UInt64
deriving DecidableEq

/-- The two pass-through commitments of a journal. -/
structure Binding where
  recipient : Address
  instanceDomain : B256
deriving DecidableEq

/-- The lane-1 input of a guest: edges in fold order. -/
structure GuestInput where
  edges : List RawEdge
  params : Params
  binding : Binding

structure RankTelemetry where
  uniqueNodes : Nat
  liveEdges : Nat
  maxOutDegree : Nat
  maxIterations : UInt32
  iterationsRun : Nat
  converged : Bool

/-- The journal and the artifacts of a computation. -/
structure ComputeResult where
  journal : Journal
  /-- The accounts with a positive value, ascending by address. -/
  scores : List (Address × U256)
  blob : Bytes
  cid : Bytes
  rank : RankTelemetry
  signatureChecks : UInt64

end Trustgraphs

/-! ## Encodings shared with the contracts (`pagerank-core/src/encode.rs`) -/

namespace Trustgraphs

/-- The lane-2 domain-set word: zero when there are no separators, else their hash in order. -/
def domainSetHash (H : Hashes) (separators : List B256) : B256 :=
  if separators.isEmpty then 0 else H.keccak256 (separators.flatMap FixedBytes.bytes)

def paramsPreimage (p : Params) (seedSetRoot domainSetHash : B256) : Bytes :=
  wordU32 PARAMS_SCHEMA_VERSION ++ wordU256 p.dampingFp ++ wordU256 p.toleranceFp ++
    wordU32 p.maxIterations ++ wordU256 p.minWeightFp ++ wordU256 p.maxWeightFp ++
    wordU256 p.trustShareFp ++ wordU256 p.trustDecayFp ++ seedSetRoot.bytes ++
    wordU256 p.totalPool ++ wordU256 p.precisionScale ++ p.schemaUid.bytes ++
    wordU32 p.weightFieldIndex ++ domainSetHash.bytes ++ wordU64 p.lane2MaxHeadAge ++
    wordAddr p.accumulator ++ wordU64 p.chainId

/-- The governance-pinned params hash, over the sorted seed set. -/
def paramsHash (H : Hashes) (p : Params) : Option B256 := do
  let seeds := p.trustedSeeds.insertionSort (· ≤ ·)
  let seedSetRoot ← seedSetRoot H seeds
  let domainSetHash := domainSetHash H p.envelope0DomainSeparators
  some (H.keccak256 (paramsPreimage p seedSetRoot domainSetHash))

/-- The confidence in the ABI head slot `index` of attestation data, `none` when it is too short. -/
def decodeWeight (data : Bytes) (index : UInt32) : Option U256 :=
  let start := index.toNat * 32
  let stop := start + 32
  if data.length < stop then none
  else some (BitVec.ofNat 256 (ofBeBytes ((data.drop start).take 32)))

end Trustgraphs
