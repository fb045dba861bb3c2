import Trustgraphs.Contracts.Evm
import Trustgraphs.Contracts.MerkleSnapshot
import Trustgraphs.Contracts.OzMerkle

/-!
# The governance module (`contracts/src/zodiac/MerkleGovModule.sol`)

Members vote with the power that a Merkle root gives them, and what has passed is executed by the Safe that the
module is enabled on. What the Safe executes may call the module again. The owner, the avatar and the target
belong to the base contract of the module, and its functions may give them to others at any time.

The history is not part of the storage: it notes what the module has done, and a revert takes it back like the
storage.
-/

namespace Trustgraphs.MerkleGovModule

open Evm Checked Function
open MerkleSnapshot (MerkleState)

inductive ProposalState where
  | pending
  | active
  | rejected
  | passed
  | executed
  | cancelled
  | expired
deriving DecidableEq

inductive VoteType where
  | no
  | yes
  | abstain
deriving DecidableEq

inductive Operation where
  | call
  | delegateCall
deriving DecidableEq

structure ProposalAction where
  target : Address
  value : U256
  data : Bytes
  operation : Operation
  description : Bytes
deriving DecidableEq

/-- A proposal with its tally and the root its votes are proved against. -/
structure Proposal where
  id : U256
  proposer : Address
  title : Bytes
  description : Bytes
  startBlock : U256
  endBlock : U256
  yesVotes : U256
  noVotes : U256
  abstainVotes : U256
  executed : Bool
  cancelled : Bool
  merkleRoot : B256
  totalVotingPower : U256
  quorumFraction : U256
  executionDeadlineBlock : U256
deriving DecidableEq

/-- What the mapping holds where there is no proposal. -/
def Proposal.none : Proposal := ⟨0, 0, [], [], 0, 0, 0, 0, 0, false, false, 0, 0, 0, 0⟩

structure ActivityCheckpoint where
  acc : B256
  count : UInt64
  blockNumber : UInt64
deriving DecidableEq

inductive ActivityEvent where
  | directGovernanceActivity (sequence : UInt64) (account : Address) (proposalId : U256)
      (activityBlock : UInt64) (activityAccumulator : B256)
  | signerActivityCheckpointed (checkpointId : Nat) (acc : B256) (count blockNumber : UInt64)
deriving DecidableEq

inductive Error where
  | initialBindingAlreadyPublished
  | proxyDeploymentUnsupported
  | noMerkleRootSet
  | invalidProposalData
  | invalidMerkleProof
  | votingClosed
  | alreadyVoted
  | proposalNotPassed
  | notAuthorized
  | proposalAlreadyExecuted
  | proposalAlreadyCancelled
  | proposalNotFound
  | invalidQuorum
  | invalidVotingPeriod
  | invalidAddress
  | onlyMerkleSnapshot
  | executionDelayNotElapsed (executableAtBlock : U256)
  | delegateCallNotAllowed (target : Address)
  | actionFailed (index : Nat)
  | selfDelegation
  | notVoteDelegate (principal caller : Address)
  | votingPowerMismatch (recorded provided : U256)
  | delegateReasonTooLong (length : Nat)
  | noSignerActivity
  | activityCheckpointTooSoon (nextBlock : U256)
deriving DecidableEq

abbrev Revert := Evm.Revert Error

abbrev Result (α : Type) := Evm.Result Error α

/-- Cast by the principal, or by its delegate. -/
inductive Kind where
  | direct
  | delegated
  /-- The principal replaces the vote of the delegate. -/
  | override
deriving DecidableEq

/-- A vote as it was recorded. -/
structure Ballot where
  kind : Kind
  caller : Address
  voteType : VoteType
  votingPower : U256
deriving DecidableEq

/-- The configuration when a proposal is created. -/
structure Terms where
  votingDelay : U256
  votingPeriod : U256
  executionDelay : U256
  quorum : U256
  merkleRoot : B256
  totalVotingPower : U256
deriving DecidableEq

/-- What the history notes. -/
inductive Entry where
  | created (proposalId : U256) (terms : Terms)
  | voted (proposalId : U256) (principal : Address) (ballot : Ballot)
  | executed (proposalId : U256)
  /-- An action of a proposal is given to the Safe. -/
  | performed (proposalId : U256) (index : Nat)
  | cancelled (proposalId : U256)
deriving DecidableEq

structure Noted where
  blockNumber : UInt64
  entry : Entry
deriving DecidableEq

/-- The proposals and what was voted on each. -/
structure Register where
  proposalCount : U256
  proposals : U256 → Proposal
  proposalActions : U256 → List ProposalAction
  hasVoted : U256 → Address → Bool
  votes : U256 → Address → VoteType
  /-- The recorded vote is provisional. -/
  votedByDelegate : U256 → Address → Bool
  votePower : U256 → Address → U256
  /-- Kept when the vote is replaced. -/
  delegateVoter : U256 → Address → Address

structure Storage extends Register where
  owner : Address
  avatar : Address
  target : Address
  merkleSnapshotContract : Address
  currentMerkleRoot : B256
  ipfsHash : B256
  ipfsHashCid : Bytes
  totalVotingPower : U256
  voteDelegate : Address → Address
  votingDelay : U256
  votingPeriod : U256
  quorum : U256
  executionDelay : U256
  delegateCallAllowlist : Address → Bool
  activityAccumulator : B256
  activityCount : UInt64
  activityCheckpoints : List ActivityCheckpoint
  initialBindingPublished : Bool

/-- The storage, the block, the history and the events of the activity log. Header numbers have 64 bits. -/
structure World extends Storage where
  blockNumber : UInt64
  history : List Noted
  emitted : List ActivityEvent := []

/-- What a snapshot answers: its latest state, or that it has none yet. -/
inductive LatestState where
  | state (state : MerkleState)
  | noMerkleStates
  | reverted

structure Env where
  msgSender : Address
  getLatestState : Address → LatestState

def EXECUTION_WINDOW : U256 := 50400

def QUORUM_RANGE : U256 := 1000000000000000000

def MAX_DELEGATE_REASON_BYTES : Nat := 512

def MIN_ACTIVITY_CHECKPOINT_INTERVAL : U256 := 300

structure ProposeArgs where
  title : Bytes
  description : Bytes
  targets : List Address
  values : List U256
  calldatas : List Bytes
  operations : List Operation
  actionDescriptions : List Bytes
  votingPower : U256
  proof : List B256

/-- The actions of a proposal, where the arrays have one length. -/
def ProposeArgs.actions (args : ProposeArgs) : List ProposalAction :=
  (args.targets.zip (args.values.zip (args.calldatas.zip (args.operations.zip args.actionDescriptions)))).map
    fun (target, value, data, operation, description) => ⟨target, value, data, operation, description⟩

/-- The loop of `execute` has given an action to the Safe. -/
structure Waiting where
  proposalId : U256
  actions : List ProposalAction
  index : Nat

namespace World

variable (w : World)

def note (entry : Entry) : World := { w with history := w.history ++ [⟨w.blockNumber, entry⟩] }

def emit (event : ActivityEvent) : World := { w with emitted := w.emitted ++ [event] }

def setProposal (proposalId : U256) (proposal : Proposal) : World :=
  { w with proposals := update w.proposals proposalId proposal }

/-- The entry of a principal in a mapping of a proposal. -/
def put {α : Type} (f : U256 → Address → α) (proposalId : U256) (principal : Address) (a : α) :
    U256 → Address → α :=
  update f proposalId (update (f proposalId) principal a)

/-- A first vote, with the proposal that counts it. -/
def record (proposalId : U256) (voter : Address) (ballot : Ballot) (proposal : Proposal) : World :=
  { w with
    proposals := update w.proposals proposalId proposal
    hasVoted := put w.hasVoted proposalId voter true
    votes := put w.votes proposalId voter ballot.voteType
    votePower := put w.votePower proposalId voter ballot.votingPower }.note (.voted proposalId voter ballot)

/-- The vote of a delegate is provisional. -/
def markDelegated (proposalId : U256) (principal delegate : Address) : World :=
  { w with
    votedByDelegate := put w.votedByDelegate proposalId principal true
    delegateVoter := put w.delegateVoter proposalId principal delegate }

/-- The principal's ballot is replaced and the proposal's tally with it. -/
def replace (proposalId : U256) (principal : Address) (ballot : Ballot) (proposal : Proposal) : World :=
  { w with
    proposals := update w.proposals proposalId proposal
    votes := put w.votes proposalId principal ballot.voteType
    votedByDelegate := put w.votedByDelegate proposalId principal false }.note (.voted proposalId principal ballot)

end World

section Calls

variable (H : Hashes) (env : Env) (w : World)

/-! ## The snapshot -/

/-- The state of a snapshot that has one. -/
def adopt (root ipfsHash : B256) (ipfsHashCid : Bytes) (totalValue : U256) : World :=
  { w with
    currentMerkleRoot := root
    ipfsHash := ipfsHash
    ipfsHashCid := ipfsHashCid
    totalVotingPower := totalValue }

/-- The binding of a snapshot contract adopts its newest state. -/
def bindMerkleSnapshotContract (newContract : Address) : Result World :=
  if newContract = 0 then .error (.error .invalidAddress)
  else
    let w := { w with merkleSnapshotContract := newContract }
    match env.getLatestState newContract with
    | .state state => .ok (adopt w state.root state.ipfsHash state.ipfsHashCid state.totalValue)
    | .noMerkleStates => .ok (adopt w 0 0 [] 0)
    | .reverted => .error .external

/-- The storage before the constructor binds the snapshot. -/
def initial (owner avatar target : Address) : Storage where
  proposalCount := 0
  proposals := fun _ => .none
  proposalActions := fun _ => []
  hasVoted := fun _ _ => false
  votes := fun _ _ => .no
  votedByDelegate := fun _ _ => false
  votePower := fun _ _ => 0
  delegateVoter := fun _ _ => 0
  owner := owner
  avatar := avatar
  target := target
  merkleSnapshotContract := 0
  currentMerkleRoot := 0
  ipfsHash := 0
  ipfsHashCid := []
  totalVotingPower := 0
  voteDelegate := fun _ => 0
  votingDelay := 1
  votingPeriod := 50400
  quorum := 150000000000000000
  executionDelay := 7200
  delegateCallAllowlist := fun _ => false
  activityAccumulator := 0
  activityCount := 0
  activityCheckpoints := []
  initialBindingPublished := false

/-- The world after construction, with an empty history. -/
def constructor (blockNumber : UInt64) (owner avatar target merkleSnapshot : Address) : Result World :=
  bindMerkleSnapshotContract env { toStorage := initial owner avatar target, blockNumber, history := [] }
    merkleSnapshot

def publishInitialSnapshotBinding : Result World :=
  if w.initialBindingPublished then .error (.error .initialBindingAlreadyPublished)
  else .ok { w with initialBindingPublished := true }

/-- The hook that the bound snapshot calls with each new state. -/
def onMerkleUpdate (state : MerkleState) : Result World :=
  if env.msgSender ≠ w.merkleSnapshotContract then .error (.error .onlyMerkleSnapshot)
  else .ok (adopt w state.root state.ipfsHash state.ipfsHashCid state.totalValue)

/-! ## The configuration -/

/-- Refuses every caller but the avatar. -/
def onlyAvatar (f : Result World) : Result World :=
  if env.msgSender ≠ w.avatar then .error (.error .notAuthorized) else f

/-- The share of the total voting power that a proposal needs, above zero and at most one. -/
def setQuorum (newQuorum : U256) : Result World :=
  onlyAvatar env w <|
    if newQuorum = 0 ∨ QUORUM_RANGE < newQuorum then .error (.error .invalidQuorum)
    else .ok { w with quorum := newQuorum }

def setVotingDelay (newDelay : U256) : Result World := onlyAvatar env w (.ok { w with votingDelay := newDelay })

/-- A voting period, which is never zero. -/
def setVotingPeriod (newPeriod : U256) : Result World :=
  onlyAvatar env w <|
    if newPeriod = 0 then .error (.error .invalidVotingPeriod) else .ok { w with votingPeriod := newPeriod }

def setExecutionDelay (newDelay : U256) : Result World :=
  onlyAvatar env w (.ok { w with executionDelay := newDelay })

def setDelegateCallTarget (target : Address) (allowed : Bool) : Result World :=
  onlyAvatar env w <|
    if target = 0 then .error (.error .invalidAddress)
    else .ok { w with delegateCallAllowlist := update w.delegateCallAllowlist target allowed }

/-- Rebinds the snapshot, after which the first binding cannot be published. -/
def setMerkleSnapshotContract (newContract : Address) : Result World :=
  onlyAvatar env w (bindMerkleSnapshotContract env { w with initialBindingPublished := true } newContract)

/-! ## Proposals -/

/-- The state of a proposal at the present block. -/
def state (proposalId : U256) : Result ProposalState :=
  if proposalId = 0 ∨ w.proposalCount < proposalId then .error (.error .proposalNotFound)
  else
    let proposal := w.proposals proposalId
    if proposal.cancelled then .ok .cancelled
    else if proposal.executed then .ok .executed
    else if w.blockNumber.toNat < proposal.startBlock.toNat then .ok .pending
    else if w.blockNumber.toNat ≤ proposal.endBlock.toNat then .ok .active
    else do
      let decisiveVotes ← arith (add proposal.yesVotes proposal.noVotes)
      let quorumThreshold ← Evm.mulDiv proposal.totalVotingPower proposal.quorumFraction QUORUM_RANGE
      if quorumThreshold.toNat ≤ decisiveVotes.toNat ∧ proposal.noVotes.toNat < proposal.yesVotes.toNat then
        if proposal.executionDeadlineBlock.toNat < w.blockNumber.toNat then .ok .expired else .ok .passed
      else .ok .rejected

/-- The proof that an account has so much power under a root. -/
def verifyMerkleProof (account : Address) (votingPower : U256) (merkleRoot : B256) (proof : List B256) :
    Result Unit :=
  if OzMerkle.verifyProof H merkleRoot account votingPower proof then .ok ()
  else .error (.error .invalidMerkleProof)

/-- An action that may not be a `DelegateCall`. -/
def refuses (a : ProposalAction) : Bool := a.operation = .delegateCall && !w.delegateCallAllowlist a.target

/-- `_propose`: the new proposal and its id. -/
def createProposal (args : ProposeArgs) : Result (World × U256) :=
  if w.currentMerkleRoot = 0 then .error (.error .noMerkleRootSet)
  else if args.targets.length ≠ args.values.length ∨ args.targets.length ≠ args.calldatas.length ∨
      args.targets.length ≠ args.operations.length ∨ args.targets.length ≠ args.actionDescriptions.length then
    .error (.error .invalidProposalData)
  else do
    verifyMerkleProof H env.msgSender args.votingPower w.currentMerkleRoot args.proof
    match args.actions.find? (refuses w) with
    | some a => .error (.error (.delegateCallNotAllowed a.target))
    | none => do
      let proposalId ← arith (add w.proposalCount 1)
      let startBlock ← arith (add (uint256 w.blockNumber) w.votingDelay)
      let endBlock ← arith (add startBlock w.votingPeriod)
      let executableAt ← arith (add endBlock w.executionDelay)
      let executionDeadlineBlock ← arith (add executableAt EXECUTION_WINDOW)
      let proposal := { w.proposals proposalId with
        id := proposalId
        proposer := env.msgSender
        title := args.title
        description := args.description
        startBlock := startBlock
        endBlock := endBlock
        executionDeadlineBlock := executionDeadlineBlock
        merkleRoot := w.currentMerkleRoot
        totalVotingPower := w.totalVotingPower
        quorumFraction := w.quorum }
      let terms : Terms :=
        ⟨w.votingDelay, w.votingPeriod, w.executionDelay, w.quorum, w.currentMerkleRoot, w.totalVotingPower⟩
      .ok (({ w with
        proposalCount := proposalId
        proposals := update w.proposals proposalId proposal
        proposalActions := update w.proposalActions proposalId
          (w.proposalActions proposalId ++ args.actions) }).note (.created proposalId terms), proposalId)

/-! ## Votes -/

def addToTally (proposal : Proposal) (voteType : VoteType) (votingPower : U256) : Result Proposal :=
  match voteType with
  | .yes => do .ok { proposal with yesVotes := ← arith (add proposal.yesVotes votingPower) }
  | .no => do .ok { proposal with noVotes := ← arith (add proposal.noVotes votingPower) }
  | .abstain => do .ok { proposal with abstainVotes := ← arith (add proposal.abstainVotes votingPower) }

def subtractFromTally (proposal : Proposal) (voteType : VoteType) (votingPower : U256) : Result Proposal :=
  match voteType with
  | .yes => do .ok { proposal with yesVotes := ← minus proposal.yesVotes votingPower }
  | .no => do .ok { proposal with noVotes := ← minus proposal.noVotes votingPower }
  | .abstain => do .ok { proposal with abstainVotes := ← minus proposal.abstainVotes votingPower }

/-- `_castVote`: a first vote for a principal, by a caller of some kind. -/
def recordVote (proposalId : U256) (voter : Address) (kind : Kind) (voteType : VoteType) (votingPower : U256) :
    Result World := do
  let proposal ← addToTally (w.proposals proposalId) voteType votingPower
  .ok (w.record proposalId voter ⟨kind, env.msgSender, voteType, votingPower⟩ proposal)

/-- A checkpoint of the activity at this block. -/
def pushCheckpoint : World :=
  { w.emit (.signerActivityCheckpointed w.activityCheckpoints.length w.activityAccumulator w.activityCount
      w.blockNumber) with
    activityCheckpoints :=
      w.activityCheckpoints ++ [⟨w.activityAccumulator, w.activityCount, w.blockNumber⟩] }

/-- Folds an account's own vote into the activity accumulator and checkpoints it. -/
def recordDirectActivity (account : Address) (proposalId : U256) : Result World := do
  let sequence ← arith (add64 w.activityCount 1)
  let accumulator := H.keccak256 (w.activityAccumulator.bytes ++ wordU64 sequence ++ wordAddr account ++
    wordU256 proposalId ++ wordU64 w.blockNumber)
  .ok (pushCheckpoint
    { w.emit (.directGovernanceActivity sequence account proposalId w.blockNumber accumulator) with
      activityCount := sequence
      activityAccumulator := accumulator })

/-- A principal votes over its delegate's vote. -/
def overrideDelegateVote (proposalId : U256) (principal : Address) (newVoteType : VoteType)
    (votingPower : U256) : Result World :=
  let recordedPower := w.votePower proposalId principal
  if recordedPower ≠ votingPower then .error (.error (.votingPowerMismatch recordedPower votingPower))
  else do
    let proposal ← subtractFromTally (w.proposals proposalId) (w.votes proposalId principal) recordedPower
    let proposal ← addToTally proposal newVoteType recordedPower
    .ok (w.replace proposalId principal ⟨.override, env.msgSender, newVoteType, recordedPower⟩ proposal)

def propose (args : ProposeArgs) : Result World := do
  let (w, _) ← createProposal H env w args
  .ok w

def proposeWithVote (args : ProposeArgs) (voteType : VoteType) : Result World := do
  let (w, proposalId) ← createProposal H env w args
  let w ← recordVote env w proposalId env.msgSender .direct voteType args.votingPower
  recordDirectActivity H w env.msgSender proposalId

/-- The vote of the sender, the first one or one that replaces the vote of a delegate. -/
def castDirectVote (proposalId : U256) (voteType : VoteType) (votingPower : U256) : Result World :=
  if w.hasVoted proposalId env.msgSender then
    overrideDelegateVote env w proposalId env.msgSender voteType votingPower
  else recordVote env w proposalId env.msgSender .direct voteType votingPower

def castVote (proposalId : U256) (voteType : VoteType) (votingPower : U256) (proof : List B256) :
    Result World := do
  let current ← state w proposalId
  if current ≠ .active then .error (.error .votingClosed)
  else if w.hasVoted proposalId env.msgSender ∧ w.votedByDelegate proposalId env.msgSender = false then
    .error (.error .alreadyVoted)
  else do
    verifyMerkleProof H env.msgSender votingPower (w.proposals proposalId).merkleRoot proof
    let w ← castDirectVote env w proposalId voteType votingPower
    recordDirectActivity H w env.msgSender proposalId

def setVoteDelegate (delegate : Address) : Result World :=
  if delegate = env.msgSender then .error (.error .selfDelegation)
  else .ok { w with voteDelegate := update w.voteDelegate env.msgSender delegate }

/-- A delegate votes for a principal that has not voted. -/
def castVoteAsDelegate (principal : Address) (proposalId : U256) (voteType : VoteType) (votingPower : U256)
    (proof : List B256) (reason : Bytes) : Result World := do
  let current ← state w proposalId
  if current ≠ .active then .error (.error .votingClosed)
  else if w.voteDelegate principal ≠ env.msgSender then
    .error (.error (.notVoteDelegate principal env.msgSender))
  else if w.hasVoted proposalId principal then .error (.error .alreadyVoted)
  else if MAX_DELEGATE_REASON_BYTES < reason.length then .error (.error (.delegateReasonTooLong reason.length))
  else do
    verifyMerkleProof H principal votingPower (w.proposals proposalId).merkleRoot proof
    let w ← recordVote env w proposalId principal .delegated voteType votingPower
    .ok (w.markDelegated proposalId principal env.msgSender)

/-- A fresh checkpoint of the activity, at most one an interval. -/
def checkpointSignerActivity : Result World :=
  if w.activityCount = 0 then .error (.error .noSignerActivity)
  else
    match w.activityCheckpoints.getLast? with
    | none => .error .underflow
    | some last => do
      let nextBlock ← arith (add (uint256 last.blockNumber) MIN_ACTIVITY_CHECKPOINT_INTERVAL)
      if w.blockNumber.toNat < nextBlock.toNat then .error (.error (.activityCheckpointTooSoon nextBlock))
      else .ok (pushCheckpoint w)

/-! ## Execution -/

/-- The loop of `execute`, from an index on. -/
def perform (proposalId : U256) (actions : List ProposalAction) (index : Nat) :
    CallStack.Turn World Waiting Revert :=
  match actions[index]? with
  | none => .returned w
  | some a =>
    if refuses w a then .reverted (.error (.delegateCallNotAllowed a.target))
    else .waits (w.note (.performed proposalId index)) ⟨proposalId, actions, index⟩

/-- The part of `execute` before its first action. -/
def begin (proposalId : U256) : Result World := do
  let current ← state w proposalId
  if current ≠ .passed then .error (.error .proposalNotPassed)
  else do
    let proposal := w.proposals proposalId
    let executableAt ← minus proposal.executionDeadlineBlock EXECUTION_WINDOW
    if w.blockNumber.toNat ≤ executableAt.toNat then .error (.error (.executionDelayNotElapsed executableAt))
    else .ok ((w.setProposal proposalId { proposal with executed := true }).note (.executed proposalId))

/-- The actions run one by one, each a call that may come back in. -/
def execute (proposalId : U256) : CallStack.Turn World Waiting Revert :=
  match begin w proposalId with
  | .error e => .reverted e
  | .ok w => perform w proposalId (w.proposalActions proposalId) 0

/-- Only the owner or the avatar cancels, and not after the execution. -/
def cancel (proposalId : U256) : Result World :=
  if proposalId = 0 ∨ w.proposalCount < proposalId then .error (.error .proposalNotFound)
  else
    let proposal := w.proposals proposalId
    if env.msgSender ≠ w.owner ∧ env.msgSender ≠ w.avatar then .error (.error .notAuthorized)
    else if proposal.executed then .error (.error .proposalAlreadyExecuted)
    else if proposal.cancelled then .error (.error .proposalAlreadyCancelled)
    else .ok ((w.setProposal proposalId { proposal with cancelled := true }).note (.cancelled proposalId))

end Calls

/-! ## The module among other contracts -/

inductive Call where
  | setUp
  | publishInitialSnapshotBinding
  | propose (args : ProposeArgs)
  | proposeWithVote (args : ProposeArgs) (voteType : VoteType)
  | castVote (proposalId : U256) (voteType : VoteType) (votingPower : U256) (proof : List B256)
  | setVoteDelegate (delegate : Address)
  | castVoteAsDelegate (principal : Address) (proposalId : U256) (voteType : VoteType) (votingPower : U256)
      (proof : List B256) (reason : Bytes)
  | execute (proposalId : U256)
  | cancel (proposalId : U256)
  | checkpointSignerActivity
  | setQuorum (newQuorum : U256)
  | setVotingDelay (newDelay : U256)
  | setVotingPeriod (newPeriod : U256)
  | setExecutionDelay (newDelay : U256)
  | setDelegateCallTarget (target : Address) (allowed : Bool)
  | setMerkleSnapshotContract (newContract : Address)
  | onMerkleUpdate (state : MerkleState)

/-- The proofs of voting power that a call presents. -/
def Call.Presents (msgSender : Address) (account : Address) (votingPower : U256) (proof : List B256) : Call → Prop
  | .propose args => account = msgSender ∧ votingPower = args.votingPower ∧ proof = args.proof
  | .proposeWithVote args _ => account = msgSender ∧ votingPower = args.votingPower ∧ proof = args.proof
  | .castVote _ _ power π => account = msgSender ∧ votingPower = power ∧ proof = π
  | .castVoteAsDelegate principal _ _ power π _ => account = principal ∧ votingPower = power ∧ proof = π
  | _ => False

/-- Who has the roles of the base contract. -/
structure Roles where
  owner : Address
  avatar : Address
  target : Address

section Contract

variable (H : Hashes)

def enter (i : Env × Call) (w : World) : CallStack.Turn World Waiting Revert :=
  match i.2 with
  | .setUp => .reverted (.error .proxyDeploymentUnsupported)
  | .publishInitialSnapshotBinding => ended (publishInitialSnapshotBinding w)
  | .propose args => ended (propose H i.1 w args)
  | .proposeWithVote args voteType => ended (proposeWithVote H i.1 w args voteType)
  | .castVote proposalId voteType votingPower proof =>
    ended (castVote H i.1 w proposalId voteType votingPower proof)
  | .setVoteDelegate delegate => ended (setVoteDelegate i.1 w delegate)
  | .castVoteAsDelegate principal proposalId voteType votingPower proof reason =>
    ended (castVoteAsDelegate H i.1 w principal proposalId voteType votingPower proof reason)
  | .execute proposalId => execute w proposalId
  | .cancel proposalId => ended (cancel i.1 w proposalId)
  | .checkpointSignerActivity => ended (checkpointSignerActivity w)
  | .setQuorum newQuorum => ended (setQuorum i.1 w newQuorum)
  | .setVotingDelay newDelay => ended (setVotingDelay i.1 w newDelay)
  | .setVotingPeriod newPeriod => ended (setVotingPeriod i.1 w newPeriod)
  | .setExecutionDelay newDelay => ended (setExecutionDelay i.1 w newDelay)
  | .setDelegateCallTarget target allowed => ended (setDelegateCallTarget i.1 w target allowed)
  | .setMerkleSnapshotContract newContract => ended (setMerkleSnapshotContract i.1 w newContract)
  | .onMerkleUpdate state => ended (onMerkleUpdate i.1 w state)

/-- The Safe has answered whether the action succeeded. -/
def resume (k : Waiting) (a : Option Bool) (w : World) : CallStack.Turn World Waiting Revert :=
  match a with
  | none => .reverted .external
  | some false => .reverted (.error (.actionFailed k.index))
  | some true => perform w k.proposalId k.actions (k.index + 1)

def advance (blockNumber : UInt64) (w : World) : Option World :=
  if blockNumber < w.blockNumber then none else some { w with blockNumber := blockNumber }

/-- The module among the other contracts. -/
def contract : CallStack.Contract World (Env × Call) Waiting Bool Roles UInt64 Revert where
  enter := enter H
  resume := resume
  outside r w := { w with owner := r.owner, avatar := r.avatar, target := r.target }
  between := advance

end Contract

/-- A world straight out of the constructor. -/
def Start (w : World) : Prop :=
  ∃ env blockNumber owner avatar target merkleSnapshot,
    constructor env blockNumber owner avatar target merkleSnapshot = .ok w

abbrev Event := CallStack.Event (Env × Call) Bool Roles UInt64

/-- The contract under any interleaving of calls, answers and blocks. -/
def run (H : Hashes) (w : World) (events : List Event) : CallStack.Configuration World Waiting :=
  CallStack.run (contract H) w events

end Trustgraphs.MerkleGovModule
