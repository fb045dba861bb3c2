import Trustgraphs.ZkCore.Edge

/-!
# The lane-1 accumulator contract (`contracts/src/eas/AttestationAccumulator.sol`)

A call is a function of the state that returns `none` where the contract reverts; a reverted call
leaves the state as it was (`apply`).
-/

namespace Trustgraphs.AttestationAccumulator

/-- A frozen accumulator. -/
structure Checkpoint where
  acc : B256
  leafCount : UInt64
  blockNumber : UInt64
deriving DecidableEq

/-- The fold of the attestations and its checkpoints. -/
structure State where
  acc : B256
  leafCount : UInt64
  checkpoints : List Checkpoint
  /-- The only address that may mint checkpoints. -/
  snapshot : Address
  /-- The deployer, the only address that may bind the snapshot. -/
  binder : Address
deriving DecidableEq

structure Env where
  msgSender : Address
  /-- The address of the contract itself. -/
  self : Address
  blockTimestamp : U256
  blockNumber : U256

def constructor (msgSender : Address) : State where
  acc := 0
  leafCount := 0
  checkpoints := []
  snapshot := 0
  binder := msgSender

/-- The words of a leaf. -/
def leafPreimage (kind : UInt8) (attester recipient : Address) (uid : B256) (timestamp : U256)
    (dataHash : B256) : Bytes :=
  wordU8 kind ++ wordAddr attester ++ wordAddr recipient ++ uid.bytes ++ wordU256 timestamp ++ dataHash.bytes

/-- Fold one edge at an authenticated source timestamp. The count is checked arithmetic. -/
def foldAt (H : Hashes) (s : State) (kind : UInt8) (attester recipient : Address) (uid : B256)
    (timestamp : U256) (dataHash : B256) : Option State :=
  let leaf := H.keccak256 (leafPreimage kind attester recipient uid timestamp dataHash)
  let acc := H.keccak256 (s.acc.bytes ++ leaf.bytes)
  if s.leafCount.toNat + 1 < 2 ^ 64 then some { s with acc := acc, leafCount := s.leafCount + 1 }
  else none

/-- Fold one edge at the block timestamp. -/
def fold (H : Hashes) (env : Env) (s : State) (kind : UInt8) (attester recipient : Address)
    (uid : B256) (dataHash : B256) : Option State :=
  foldAt H s kind attester recipient uid env.blockTimestamp dataHash

/-- Mint a checkpoint of the running state. -/
def checkpoint (env : Env) (s : State) : Option State :=
  if env.msgSender ≠ s.snapshot ∨ s.snapshot = 0 then none
  else some { s with
    checkpoints := s.checkpoints ++ [⟨s.acc, s.leafCount, UInt64.ofNat env.blockNumber.toNat⟩] }

/-- Bind the snapshot, once. `reads` is what the accumulator getter of the snapshot answers. -/
def bindSnapshot (env : Env) (s : State) (snapshot reads : Address) : Option State :=
  if env.msgSender ≠ s.binder then none
  else if s.snapshot ≠ 0 then none
  else if snapshot = 0 then none
  else if reads ≠ env.self then none
  else some { s with snapshot := snapshot }

/-- An authenticated event that a feeder folds: it passes on the hash of the raw data. -/
structure Event where
  kind : UInt8
  attester : Address
  recipient : Address
  uid : B256
  data : Bytes

/-- The calls that reach the contract: the folds of its feeder, and the two external functions. -/
inductive Call where
  | fold (e : Event)
  | foldAt (e : Event) (timestamp : U256)
  | checkpoint
  | bindSnapshot (snapshot reads : Address)

/-- The effect of a call, `none` when it reverts. -/
def call (H : Hashes) (env : Env) (s : State) : Call → Option State
  | .fold e => fold H env s e.kind e.attester e.recipient e.uid (H.keccak256 e.data)
  | .foldAt e timestamp => foldAt H s e.kind e.attester e.recipient e.uid timestamp (H.keccak256 e.data)
  | .checkpoint => checkpoint env s
  | .bindSnapshot snapshot reads => bindSnapshot env s snapshot reads

/-- The state after a call, the old one when it reverts. -/
def apply (H : Hashes) (s : State) (c : Env × Call) : State := (call H c.1 s c.2).getD s

/-- The accumulator over any calls. -/
def run (H : Hashes) (s : State) (calls : List (Env × Call)) : State := calls.foldl (apply H) s

/-! ## What has been folded -/

/-- The edge that a guest has to witness for an event. -/
def Event.edge (e : Event) (timestamp : U256) : RawEdge where
  kind := e.kind
  attester := e.attester
  recipient := e.recipient
  uid := e.uid
  blockTimestamp := UInt64.ofNat timestamp.toNat
  data := e.data

/-- The edge of a call and its timestamp, when it is a fold. -/
def foldedBy (c : Env × Call) : Option (Event × U256) :=
  match c.2 with
  | .fold e => some (e, c.1.blockTimestamp)
  | .foldAt e timestamp => some (e, timestamp)
  | _ => none

/-- The edges that a run folds, in order. Calls that revert fold nothing. -/
def folded (H : Hashes) : State → List (Env × Call) → List RawEdge
  | _, [] => []
  | s, c :: calls =>
    match foldedBy c, call H c.1 s c.2 with
    | some (e, timestamp), some s' => e.edge timestamp :: folded H s' calls
    | _, _ => folded H (apply H s c) calls

end Trustgraphs.AttestationAccumulator
