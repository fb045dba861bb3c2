import Trustgraphs.PagerankCore.Compute

/-!
# The selection of signers (`pagerank-core/src/signer.rs`)

The owners of a Safe are chosen from the accounts with the highest scores that have voted lately. A panic of
the source is `none`.
-/

namespace Trustgraphs

structure SelectionParams where
  topN : UInt32
  minThreshold : UInt32
  targetThresholdBps : UInt32
  maxInactiveBlocks : UInt64
  minActivityWitnesses : UInt32
deriving DecidableEq

structure SignerActivity where
  account : Address
  proposalId : U256
  blockNumber : UInt64
deriving DecidableEq

structure ActivityCheckpoint where
  acc : B256
  count : UInt64
  blockNumber : UInt64
deriving DecidableEq

structure SignerInput where
  edges : List RawEdge
  params : Params
  selection : SelectionParams
  activity : List SignerActivity
  activityCheckpoint : ActivityCheckpoint
  currentSigners : List Address
  currentThreshold : U256
  wasInitialized : Bool
  instanceDomain : B256

structure SignerJournal where
  acc : B256
  leafCount : UInt64
  paramsHash : B256
  selectionParamsHash : B256
  activityAcc : B256
  activityCount : UInt64
  activityBlock : UInt64
  wasInitialized : Bool
  currentSignerSetRoot : B256
  currentThreshold : U256
  signerSetRoot : B256
  targetThreshold : U256
  instanceDomain : B256
deriving DecidableEq

structure SignerComputeResult where
  journal : SignerJournal
  /-- Ascending by address. -/
  signers : List Address
  targetThreshold : U256
  /-- False when the signers and the threshold are the current ones for want of activity. -/
  activityApplied : Bool
  rank : RankTelemetry

namespace Signer

/-! ## Encodings -/

def selectionParamsPreimage (sp : SelectionParams) : Bytes :=
  wordU32 sp.topN ++ wordU32 sp.minThreshold ++ wordU32 sp.targetThresholdBps ++ wordU64 sp.maxInactiveBlocks ++
    wordU32 sp.minActivityWitnesses

def selectionParamsHash (H : Hashes) (sp : SelectionParams) : B256 := H.keccak256 (selectionParamsPreimage sp)

def signerJournalEncoded (j : SignerJournal) : Bytes :=
  j.acc.bytes ++ wordU64 j.leafCount ++ j.paramsHash.bytes ++ j.selectionParamsHash.bytes ++ j.activityAcc.bytes ++
    wordU64 j.activityCount ++ wordU64 j.activityBlock ++ wordU32 (if j.wasInitialized then 1 else 0) ++
    j.currentSignerSetRoot.bytes ++ wordU256 j.currentThreshold ++ j.signerSetRoot.bytes ++
    wordU256 j.targetThreshold ++ j.instanceDomain.bytes

def signerJournalDigest (H : Hashes) (j : SignerJournal) : B256 := H.keccak256 (signerJournalEncoded j)

/-! ## Selection -/

def ceilDiv (a b : Nat) : Nat := (a + b - 1) / b

/-- The rank of a scored account: by value descending, then by address ascending. -/
def before (a b : Address × U256) : Bool := b.2.toNat < a.2.toNat || (b.2 == a.2 && a.1 ≤ b.1)

/-- The threshold for `n` signers. The products fit in 64 bits. -/
def targetThreshold (sp : SelectionParams) (n : Nat) : Nat :=
  let threshold := ceilDiv (sp.targetThresholdBps.toNat * n) 10000
  let threshold := if threshold < sp.minThreshold.toNat then sp.minThreshold.toNat else threshold
  let threshold := if n < threshold then n else threshold
  if threshold < 1 then 1 else threshold

/-- The accounts with the highest scores, ascending, and their threshold. -/
def selectSigners (scores : List (Address × U256)) (sp : SelectionParams) : List Address × U256 :=
  let ranked := (scores.filter fun e => e.2 != 0).insertionSort fun a b => before a b
  let chosen := ((ranked.take sp.topN.toNat).map Prod.fst).insertionSort (· ≤ ·)
  if chosen.length = 0 then (chosen, 0) else (chosen, BitVec.ofNat 256 (targetThreshold sp chosen.length))

/-- The root of a signer set. -/
def signerSetRoot (H : Hashes) (sortedSigners : List Address) : Option B256 := seedSetRoot H sortedSigners

/-! ## Activity -/

def activityPreimage (previous : B256) (sequence : UInt64) (record : SignerActivity) : Bytes :=
  previous.bytes ++ wordU64 sequence ++ wordAddr record.account ++ wordU256 record.proposalId ++
    wordU64 record.blockNumber

/-- One record of activity into the fold. -/
def foldActivity (H : Hashes) (previous : B256) (sequence : UInt64) (record : SignerActivity) : B256 :=
  H.keccak256 (activityPreimage previous sequence record)

/-- The last block in which each account voted, with one more vote. -/
def touch (latest : BTreeMap Address UInt64) (record : SignerActivity) : BTreeMap Address UInt64 :=
  match latest[record.account]? with
  | none => latest.insert record.account record.blockNumber
  | some block => latest.insert record.account (max block record.blockNumber)

/-- The loop over the records, from an index on. -/
def replayActivity (H : Hashes) (checkpointBlock : UInt64) :
    List SignerActivity → Nat → B256 × BTreeMap Address UInt64 → Option (B256 × BTreeMap Address UInt64)
  | [], _, st => some st
  | record :: rest, index, (acc, latest) => do
    let sequence ← Checked.u64 (index + 1)
    if checkpointBlock < record.blockNumber then none
    else replayActivity H checkpointBlock rest (index + 1) (foldActivity H acc sequence record, touch latest record)

/-- The oldest block whose activity is fresh. -/
def cutoff (input : SignerInput) : Nat :=
  input.activityCheckpoint.blockNumber.toNat - input.selection.maxInactiveBlocks.toNat

/-- The signers, their threshold, and whether the activity was sufficient to select them. -/
def activitySelection (H : Hashes) (scores : List (Address × U256)) (input : SignerInput) :
    Option (List Address × U256 × Bool) := do
  let (acc, latest) ← replayActivity H input.activityCheckpoint.blockNumber input.activity 0 (0, ∅)
  if input.activityCheckpoint.count.toNat ≠ input.activity.length then none
  else if input.activityCheckpoint.acc ≠ acc then none
  else
    let current := input.currentSigners.insertionSort (· ≤ ·)
    if current = [] then none
    else if ¬ current.Nodup then none
    else if ¬ (1 ≤ input.currentThreshold.toNat ∧ input.currentThreshold.toNat ≤ current.length) then none
    else if input.activityCheckpoint.count = 0 then some (current, input.currentThreshold, false)
    else
      let fresh := (latest.toList.filter fun e => cutoff input ≤ e.2.toNat).map Prod.fst
      let positiveScores := (scores.filter fun e => e.2 != 0).map Prod.fst
      let witnessCount :=
        if input.wasInitialized then (current.filter (· ∈ fresh)).length
        else (fresh.filter (· ∈ positiveScores)).length
      let minimum := input.selection.minActivityWitnesses.toNat
      if minimum < 2 ∨ witnessCount < minimum then some (current, input.currentThreshold, false)
      else
        let activeScores := scores.filter (·.1 ∈ fresh)
        let (signers, threshold) := selectSigners activeScores input.selection
        if signers.length < minimum then some (current, input.currentThreshold, false)
        else some (signers, threshold, true)

/-- The program: the ranks, the signers that they and the activity select, and the journal. -/
def computeSigners (H : Hashes) (input : SignerInput) : Option SignerComputeResult := do
  let base ← PagerankCore.compute H ⟨input.edges, input.params, ⟨0, 0⟩⟩
  let (signers, threshold, activityApplied) ← activitySelection H base.scores input
  let currentSignerSetRoot ← signerSetRoot H input.currentSigners
  let root ← signerSetRoot H signers
  let journal : SignerJournal := {
    acc := base.journal.acc
    leafCount := base.journal.leafCount
    paramsHash := base.journal.paramsHash
    selectionParamsHash := selectionParamsHash H input.selection
    activityAcc := input.activityCheckpoint.acc
    activityCount := input.activityCheckpoint.count
    activityBlock := input.activityCheckpoint.blockNumber
    wasInitialized := input.wasInitialized
    currentSignerSetRoot := currentSignerSetRoot
    currentThreshold := input.currentThreshold
    signerSetRoot := root
    targetThreshold := threshold
    instanceDomain := input.instanceDomain }
  some ⟨journal, signers, threshold, activityApplied, base.rank⟩

end Signer

end Trustgraphs
