import Trustgraphs.Contracts.CompositionSourceAccumulator

/-!
# A snapshot over its lanes (`contracts/src/merkle/MerkleSnapshot.sol`)

The calls that reach a snapshot and the accumulators, one after the other: `trigger` and `submitProof` do
not reenter, and the hooks of a submission run after its last write. Header numbers have 64 bits. What the
other contracts answer (the anchor registry, the verifier, adapters) comes with a call.
-/

/-!
## The accumulators under a snapshot (`contracts/src/merkle`, `contracts/src/eas`, `contracts/src/composition`)

The first lane of an instance is one of four contracts: the accumulator of attestations, a mirror of the
accumulator of another instance, the lane that is always empty, or the accumulator of a composition.
-/

namespace Trustgraphs

open CompositionSourceAccumulator

open AttestationAccumulator (Checkpoint Event)
open WeightedPriorValidator (CalldataBytes)

/-- What the lanes read of other contracts. -/
structure LaneView where
  /-- `acc()` of the accumulator at an address, `none` where it reverts. -/
  acc : Address → Option B256
  /-- `leafCount()` of the accumulator at an address. -/
  leafCount : Address → UInt64
  /-- The adapters of compositions. -/
  sources : Sources

/-! ## The mirror -/

namespace TrustAccumulatorMirror

structure State where
  trustAccumulator : Address
  snapshot : Address
  binder : Address
  checkpoints : List Checkpoint

/-- Bind the snapshot, once. What the snapshot reads is not asked. -/
def bindSnapshot (msgSender : Address) (s : State) (snapshot : Address) : Option State :=
  if msgSender ≠ s.binder then none
  else if s.snapshot ≠ 0 then none
  else if snapshot = 0 then none
  else some { s with snapshot := snapshot }

def acc (v : LaneView) (s : State) : Option B256 := v.acc s.trustAccumulator

def leafCount (v : LaneView) (s : State) : UInt64 := v.leafCount s.trustAccumulator

/-- Freeze what the wrapped accumulator holds now. -/
def checkpoint (env : BlockEnv) (v : LaneView) (s : State) : Option (State × Nat) :=
  if env.sender ≠ s.snapshot ∨ s.snapshot = 0 then none
  else (acc v s).map fun currentAcc =>
    ({ s with checkpoints := s.checkpoints ++
        [⟨currentAcc, leafCount v s, UInt64.ofNat env.blockNumber.toNat⟩] }, s.checkpoints.length)

end TrustAccumulatorMirror

/-! ## The empty lane -/

namespace EmptyLaneAccumulator

structure State where
  snapshot : Address
  binder : Address
  checkpoints : List Checkpoint

def constructor (msgSender : Address) : State := ⟨0, msgSender, []⟩

/-- Bind the snapshot, once. `reads` is what the accumulator getter of the snapshot answers. -/
def bindSnapshot (self msgSender : Address) (s : State) (snapshot reads : Address) : Option State :=
  if msgSender ≠ s.binder then none
  else if s.snapshot ≠ 0 then none
  else if snapshot = 0 then none
  else if reads ≠ self then none
  else some { s with snapshot := snapshot }

def checkpoint (env : BlockEnv) (s : State) : Option (State × Nat) :=
  if env.sender ≠ s.snapshot ∨ s.snapshot = 0 then none
  else some
    ({ s with checkpoints := s.checkpoints ++ [⟨0, 0, UInt64.ofNat env.blockNumber.toNat⟩] },
      s.checkpoints.length)

end EmptyLaneAccumulator

/-! ## The lanes -/

/-- The accumulators that a snapshot may be bound to. -/
inductive Lane where
  | attestation (s : AttestationAccumulator.State)
  | mirror (s : TrustAccumulatorMirror.State)
  | empty (s : EmptyLaneAccumulator.State)
  | composition (c : Config) (s : State)

namespace Lane

/-- The snapshot that a lane is bound to, zero before. -/
def snapshot : Lane → Address
  | .attestation s => s.snapshot
  | .mirror s => s.snapshot
  | .empty s => s.snapshot
  | .composition _ s => s.snapshot

def checkpoints : Lane → List Checkpoint
  | .attestation s => s.checkpoints
  | .mirror s => s.checkpoints
  | .empty s => s.checkpoints
  | .composition _ s => s.checkpoints

/-- What an attestation accumulator at `address` sees of the chain. -/
def attestationEnv (address : Address) (env : BlockEnv) : AttestationAccumulator.Env :=
  ⟨env.sender, address, env.blockTimestamp, env.blockNumber⟩

variable (H : Hashes) (v : LaneView) (address : Address)

def acc (env : BlockEnv) : Lane → Option B256
  | .attestation s => some s.acc
  | .mirror s => TrustAccumulatorMirror.acc v s
  | .empty _ => some 0
  | .composition c s => (accumulator H c v.sources).acc env s

def leafCount : Lane → UInt64
  | .attestation s => s.leafCount
  | .mirror s => TrustAccumulatorMirror.leafCount v s
  | .empty _ => 0
  | .composition c s => (accumulator H c v.sources).leafCount s

def checkpoint (env : BlockEnv) : Lane → Option (Lane × Nat)
  | .attestation s => (AttestationAccumulator.checkpoint (attestationEnv address env) s).map
      fun s' => (.attestation s', s.checkpoints.length)
  | .mirror s => (TrustAccumulatorMirror.checkpoint env v s).map (Prod.map .mirror id)
  | .empty s => (EmptyLaneAccumulator.checkpoint env s).map (Prod.map .empty id)
  | .composition c s => ((accumulator H c v.sources).checkpoint env s).map (Prod.map (.composition c) id)

/-- The lane at `address` under the interface of an accumulator. -/
def accumulator : Accumulator Lane where
  acc := acc H v
  leafCount := leafCount H v
  checkpoints := checkpoints
  checkpoint := checkpoint H v address

/-- The external calls of the lanes, and the folds of the feeder of an attestation accumulator. What the
getter of a snapshot answers to a lane that is bound is an argument. -/
inductive Call where
  | fold (e : Event)
  | foldAt (e : Event) (timestamp : U256)
  | bindSnapshot (snapshot reads : Address)
  | bind (snapshot controller reads : Address)
  | installPolicy (version : UInt64) (manifest : CalldataBytes) (adapters : List Address)
  | checkpoint

/-- The effect of a call, `none` where the lane reverts or has no such function. -/
def call (env : BlockEnv) : Lane → Call → Option Lane
  | .attestation s, .fold e =>
    (AttestationAccumulator.call H (attestationEnv address env) s (.fold e)).map .attestation
  | .attestation s, .foldAt e timestamp =>
    (AttestationAccumulator.call H (attestationEnv address env) s (.foldAt e timestamp)).map .attestation
  | .attestation s, .bindSnapshot snapshot reads =>
    (AttestationAccumulator.bindSnapshot (attestationEnv address env) s snapshot reads).map .attestation
  | .mirror s, .bindSnapshot snapshot _ =>
    (TrustAccumulatorMirror.bindSnapshot env.sender s snapshot).map .mirror
  | .empty s, .bindSnapshot snapshot reads =>
    (EmptyLaneAccumulator.bindSnapshot address env.sender s snapshot reads).map .empty
  | .composition c s, .bind snapshot controller reads =>
    (bind c address env.toMsg s snapshot controller reads).toOption.map (.composition c)
  | .composition c s, .installPolicy version manifest adapters =>
    (installPolicy H c env.toMsg v.sources s version manifest
      adapters).toOption.map (.composition c)
  | l, .checkpoint => (checkpoint H v address env l).map Prod.fst
  | _, _ => none

end Lane

end Trustgraphs

/-! ## The inputs -/

namespace Trustgraphs.SnapshotWorld

open MerkleSnapshot Outcome

/-- The storage of the snapshot and of the accumulators, and the block of the last call. -/
structure World where
  snapshot : Storage
  lanes : Address → Lane
  block : UInt64

/-- The calls of the snapshot that the history depends on, and those of the accumulators. -/
inductive Call where
  | trigger (anchors : AnchorView) (view : LaneView)
  | submitProof (verifier : VerifierView) (submission : Submission)
  | setParamsHash (paramsHash : B256)
  | setZkVerifier (zkVerifier : Address)
  | setAccumulator (accumulator : Address)
  | enableStateProvenance
  | setAnchorRegistry (anchorRegistry : Address)
  | setEpochLength (epochLength : UInt64)
  /-- Who holds the roles after a grant, a revocation or a handoff. -/
  | setRoles (hasOperationalRole hasConstitutionalRole : Address → Bool)
  | lane (address : Address) (view : LaneView) (call : Lane.Call)

structure Input where
  block : UInt64
  timestamp : U256
  chainId : U256
  sender : Address
  call : Call

def Input.env (i : Input) : BlockEnv where
  sender := i.sender
  blockTimestamp := i.timestamp
  chainId := i.chainId
  blockNumber := uint256 i.block

namespace World

variable (H : Hashes) (self : Address) (w : World)

/-- The accumulator that the snapshot reads. -/
def lane : Lane := w.lanes w.snapshot.accumulator

/-- A trigger of the snapshot with its accumulator. -/
def trigger (env : BlockEnv) (anchors : AnchorView) (view : LaneView) : MerkleSnapshot.Result (World × Nat) :=
  (MerkleSnapshot.trigger (Lane.accumulator H view w.snapshot.accumulator) self env anchors
    w.snapshot.toState w.lane).map fun (s, lane, id) =>
      ({ w with
        snapshot := { w.snapshot with toState := s }
        lanes := Function.update w.lanes w.snapshot.accumulator lane }, id)

def submitProof (env : BlockEnv) (v : VerifierView) (p : Submission) : HistoryResult (World × Nat) :=
  (MerkleSnapshot.submitProof H self env w.lane.checkpoints v w.snapshot p).map
    fun (s, stateIndex) => ({ w with snapshot := s }, stateIndex)

/-- The effect of a governance call, `none` where it reverts. -/
def govern (s : HistoryResult Storage) : Option World := s.toOption.map fun s => { w with snapshot := s }

/-- The effect of a call in the block of `env`, `none` where it reverts. -/
def call (env : BlockEnv) : Call → Option World
  | .trigger anchors view => (w.trigger H self env anchors view).toOption.map Prod.fst
  | .submitProof v p => (w.submitProof H self env v p).toOption.map Prod.fst
  | .setParamsHash paramsHash =>
    (MerkleSnapshot.setParamsHash env.sender w.snapshot.toState paramsHash).toOption.map
      fun s => { w with snapshot := { w.snapshot with toState := s } }
  | .setZkVerifier zkVerifier => w.govern (setZkVerifier env.sender w.snapshot zkVerifier)
  | .setAccumulator accumulator => w.govern (setAccumulator env.sender w.snapshot
      (fun address => (w.lanes address).checkpoints.length) accumulator)
  | .enableStateProvenance => w.govern (enableStateProvenance env.sender w.snapshot)
  | .setAnchorRegistry anchorRegistry => w.govern (setAnchorRegistry env.sender w.snapshot anchorRegistry)
  | .setEpochLength epochLength => w.govern (setEpochLength env w.snapshot epochLength)
  | .setRoles hasOperationalRole hasConstitutionalRole => some { w with
      snapshot := { w.snapshot with
        hasOperationalRole := hasOperationalRole
        hasConstitutionalRole := hasConstitutionalRole } }
  | .lane address view c => (Lane.call H view address env (w.lanes address) c).map
      fun lane => { w with lanes := Function.update w.lanes address lane }

def advance (block : UInt64) : World := { w with block := block }

end World

/-- The effect of an input, `none` where it reverts. Blocks do not go back, and the snapshot calls only as
`trigger` does. -/
def step (H : Hashes) (self : Address) (i : Input) (w : World) : Option World :=
  if i.block < w.block then none
  else if i.sender = self then none
  else (w.advance i.block).call H self i.env i.call

/-- The snapshot and its accumulator over any inputs. -/
def run (H : Hashes) (self : Address) : World → List Input → World := Run.run (step H self)

/-- A snapshot at `address` that was just constructed. Before it existed nobody could freeze a checkpoint of a lane
that is bound to it, or of one that is not bound. -/
structure Start (address : Address) (w : World) : Prop where
  constructed : ∃ zkVerifier paramsHash accumulator constitutionalAdmin operationalAdmin,
    constructor zkVerifier paramsHash accumulator constitutionalAdmin operationalAdmin = .ok w.snapshot
  unminted : ∀ a, (w.lanes a).snapshot = 0 ∨ (w.lanes a).snapshot = address → (w.lanes a).checkpoints = []

end Trustgraphs.SnapshotWorld
