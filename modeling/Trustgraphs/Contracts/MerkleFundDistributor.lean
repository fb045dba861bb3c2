import Trustgraphs.Contracts.Evm
import Trustgraphs.Contracts.MerkleSnapshot
import Trustgraphs.Contracts.OzMerkle

/-!
# The distributor of funds (`contracts/src/merkle/MerkleFundDistributor.sol`)

Rounds of several tokens share one balance per token. A token moves exact amounts or refuses; it may call back
while it does, as may whoever receives ETH. The address zero stands for ETH. What the snapshot answers comes
with a call.

The history is not part of the storage: it notes what the contract has done, and a revert takes it back like
the storage.
-/

namespace Trustgraphs.MerkleFundDistributor

open Evm Function Checked
open MerkleSnapshot (MerkleState)

/-- A round, with the root it pays and what it has paid. -/
structure DistributionState where
  blockNumber : UInt64
  timestamp : UInt64
  root : B256
  ipfsHash : B256
  ipfsHashCid : Bytes
  totalMerkleValue : U256
  distributor : Address
  token : Address
  amountFunded : U256
  amountDistributed : U256
  feeRecipient : Address
  feeAmount : U256
  /-- Zero when claims do not expire. -/
  claimDeadline : UInt64
  /-- Zero when the round has not been swept. -/
  sweptAmount : U256
deriving DecidableEq

inductive Error where
  | invalidAddress
  | cannotDistribute
  | invalidNativeTokenTransfer
  | invalidNativeTokenTransferAmount
  | alreadyClaimed
  | failedToTransferFee
  | failedToTransferTokens
  | invalidMerkleState
  | distributionNotFound
  | invalidMerkleProof
  | noFundsToClaim
  | feePercentageTooHigh
  | unexpectedMerkleRoot (expected actual : B256)
  | unexpectedMerkleTotalValue (expected actual : U256)
  | invalidClaimDeadline
  | claimWindowClosed
  | claimWindowNotClosed
  | noClaimDeadline
  | alreadySwept
  | nothingToSweep
  | noScheduledFeeIncrease
  | feeIncreaseNotYetEffective (effectiveAt : UInt64)
  | feeExceedsFunderCap (feeAmount maxFeeAmount : U256)
  | unexpectedFeeRecipient (expected actual : Address)
  | claimExceedsRoundBudget (claimAmount remainingBudget : U256)
  | reentrantCall
  | enforcedPause
  | expectedPause
  | ownableUnauthorizedAccount (account : Address)
  | ownableInvalidOwner (owner : Address)
deriving DecidableEq

abbrev Revert := Evm.Revert Error

abbrev Result (α : Type) := Evm.Result Error α

/-- What the history notes. -/
inductive Entry where
  /-- A round, with the percentage that it was charged. -/
  | distributed (index : Nat) (feePercentage : U256)
  | claimed (index : Nat) (account : Address) (amount : U256)
  | swept (index : Nat) (amount : U256)
  | feeScheduled (feePercentage : U256)
  | feeSet (feePercentage : U256)
deriving DecidableEq

structure Noted where
  timestamp : UInt64
  entry : Entry
deriving DecidableEq

structure Storage where
  /-- Of OpenZeppelin's `Ownable2Step`. -/
  owner : Address
  pendingOwner : Address
  merkleSnapshot : Address
  feeRecipient : Address
  feePercentage : U256
  pendingFeePercentage : U256
  /-- Zero when no increase is scheduled. -/
  pendingFeeEffectiveAt : UInt64
  allowlistEnabled : Bool
  allowlist : Address → Bool
  distributions : List DistributionState
  claimed : Nat → Address → U256
  totalPausedDuration : U256
  /-- The start of the current pause. -/
  pauseStartedAt : U256
  /-- The completed paused seconds when a round was funded. -/
  distributionPausedDuration : Nat → U256
  /-- Of OpenZeppelin's `Pausable`. -/
  paused : Bool
  /-- Of OpenZeppelin's `ReentrancyGuard`: a guarded call is running. -/
  entered : Bool

/-- The storage, the balance of the contract in each token, the block and the history. Header numbers have 64
bits. -/
structure World extends Storage where
  balance : Address → ℕ
  timestamp : UInt64
  blockNumber : UInt64
  history : List Noted

structure Env where
  msgSender : Address
  msgValue : U256
  /-- The latest state of a snapshot. -/
  getLatestState : Address → Option MerkleState

def FEE_RANGE : U256 := 1000000000000000000

def FEE_INCREASE_DELAY : UInt64 := 259200

/-- The storage after construction. -/
def constructor (owner merkleSnapshot feeRecipient : Address) (feePercentage : U256) (allowlistEnabled : Bool) :
    Result Storage :=
  if owner = 0 then .error (.error (.ownableInvalidOwner 0))
  else if merkleSnapshot = 0 ∨ feeRecipient = 0 then .error (.error .invalidAddress)
  else if FEE_RANGE < feePercentage then .error (.error .feePercentageTooHigh)
  else .ok {
    owner := owner
    pendingOwner := 0
    merkleSnapshot := merkleSnapshot
    feeRecipient := feeRecipient
    feePercentage := feePercentage
    pendingFeePercentage := 0
    pendingFeeEffectiveAt := 0
    allowlistEnabled := allowlistEnabled
    allowlist := fun _ => false
    distributions := []
    claimed := fun _ _ => 0
    totalPausedDuration := 0
    pauseStartedAt := 0
    distributionPausedDuration := fun _ => 0
    paused := false
    entered := false }

structure DistributeArgs where
  token : Address
  amount : U256
  expectedRoot : B256
  expectedTotalMerkleValue : U256
  claimDeadline : UInt64
  maxFeeAmount : U256
  expectedFeeRecipient : Address

inductive Waiting where
  /-- `distribute` pulls the tokens of the sender, with its balance before. -/
  | pulling (msgSender : Address) (args : DistributeArgs) (state : MerkleState) (balanceBefore : ℕ)
  /-- The last transfer of a call, and what the call reverts with when it fails. -/
  | sending (failure : Revert)

namespace World

variable (w : World)

def note (entry : Entry) : World := { w with history := w.history ++ [⟨w.timestamp, entry⟩] }

def credit (token : Address) (amount : ℕ) : World :=
  { w with balance := update w.balance token (w.balance token + amount) }

def debit (token : Address) (amount : ℕ) : World :=
  { w with balance := update w.balance token (w.balance token - amount) }

def setDistribution (index : Nat) (d : DistributionState) : World :=
  { w with distributions := w.distributions.set index d }

def setClaimed (index : Nat) (account : Address) (amount : U256) : World :=
  { w with claimed := update w.claimed index (update (w.claimed index) account amount) }

/-- Enter or leave a call with the modifier `nonReentrant`. -/
def lock (entered : Bool) : World := { w with entered := entered }

end World

section Calls

variable (H : Hashes) (self : Address) (env : Env) (w : World)

/-! ## The pause clock -/

/-- The time paused so far, a pause that goes on included. -/
def pausedDuration : Result U256 :=
  if w.paused then do arith (add w.totalPausedDuration (← minus (uint256 w.timestamp) w.pauseStartedAt))
  else .ok w.totalPausedDuration

/-- The deadline with the paused time since the funding, zero when claims do not expire. -/
def effectiveClaimDeadline (distributionIndex : Nat) : Result U256 :=
  match w.distributions[distributionIndex]? with
  | none => .error (.error .distributionNotFound)
  | some d =>
    if d.claimDeadline = 0 then .ok 0
    else do
      let duration ← pausedDuration w
      minus (← arith (add (uint256 d.claimDeadline) duration))
        (w.distributionPausedDuration distributionIndex)

/-! ## The owner -/

/-- The modifier of OpenZeppelin's `Ownable`. -/
def onlyOwner (f : Result World) : Result World :=
  if env.msgSender ≠ w.owner then .error (.error (.ownableUnauthorizedAccount env.msgSender)) else f

/-- The owner moves the fee to another account. -/
def setFeeRecipient (newFeeRecipient : Address) : Result World :=
  onlyOwner env w <|
    if newFeeRecipient = 0 then .error (.error .invalidAddress)
    else .ok { w with feeRecipient := newFeeRecipient }

/-- The percentage is bounded by the range. -/
def writeFeePercentage (newFeePercentage : U256) : Result World :=
  if FEE_RANGE < newFeePercentage then .error (.error .feePercentageTooHigh)
  else .ok ({ w with feePercentage := newFeePercentage }.note (.feeSet newFeePercentage))

/-- A decrease is immediate, an increase is scheduled. -/
def setFeePercentage (newFeePercentage : U256) : Result World :=
  onlyOwner env w <|
    if newFeePercentage.toNat ≤ w.feePercentage.toNat then
      writeFeePercentage { w with pendingFeePercentage := 0, pendingFeeEffectiveAt := 0 } newFeePercentage
    else if FEE_RANGE < newFeePercentage then .error (.error .feePercentageTooHigh)
    else do
      let effectiveAt ← arith (add64 w.timestamp FEE_INCREASE_DELAY)
      .ok ({ w with pendingFeePercentage := newFeePercentage, pendingFeeEffectiveAt := effectiveAt }.note
        (.feeScheduled newFeePercentage))

/-- Anyone applies an announced increase once its delay is over. -/
def applyFeePercentageIncrease : Result World :=
  if w.pendingFeeEffectiveAt = 0 then .error (.error .noScheduledFeeIncrease)
  else if w.timestamp < w.pendingFeeEffectiveAt then
    .error (.error (.feeIncreaseNotYetEffective w.pendingFeeEffectiveAt))
  else
    writeFeePercentage { w with pendingFeePercentage := 0, pendingFeeEffectiveAt := 0 } w.pendingFeePercentage

/-- Moves the source of roots for later rounds. -/
def setMerkleSnapshot (newMerkleSnapshot : Address) : Result World :=
  onlyOwner env w <|
    if newMerkleSnapshot = 0 then .error (.error .invalidAddress)
    else .ok { w with merkleSnapshot := newMerkleSnapshot }

def setAllowlistEnabled (allowlistEnabled : Bool) : Result World :=
  onlyOwner env w (.ok { w with allowlistEnabled := allowlistEnabled })

def updateDistributorAllowance (distributor : Address) (canDistribute : Bool) : Result World :=
  onlyOwner env w (.ok { w with allowlist := update w.allowlist distributor canDistribute })

/-- `Ownable2Step`: the owner proposes a successor. -/
def transferOwnership (newOwner : Address) : Result World :=
  onlyOwner env w (.ok { w with pendingOwner := newOwner })

/-- `Ownable2Step`: the successor takes over. -/
def acceptOwnership : Result World :=
  if env.msgSender ≠ w.pendingOwner then .error (.error (.ownableUnauthorizedAccount env.msgSender))
  else .ok { w with owner := env.msgSender, pendingOwner := 0 }

def renounceOwnership : Result World := onlyOwner env w (.error (.error .invalidAddress))

/-- `Pausable._pause`, with the time noted. -/
def pause : Result World :=
  onlyOwner env w <|
    if w.paused then .error (.error .enforcedPause)
    else .ok { w with paused := true, pauseStartedAt := uint256 w.timestamp }

/-- `Pausable._unpause`, with the pause added to the total. -/
def unpause : Result World :=
  onlyOwner env w <|
    if w.paused = false then .error (.error .expectedPause)
    else do
      let total ← arith (add w.totalPausedDuration (← minus (uint256 w.timestamp) w.pauseStartedAt))
      .ok { w with paused := false, totalPausedDuration := total, pauseStartedAt := 0 }

/-! ## Transfers -/

/-- The last transfer of a call. The contract itself takes no ETH. -/
def send (token payee : Address) (amount : ℕ) (failure : Revert) : CallStack.Turn World Waiting Revert :=
  if token = 0 then
    if payee = self ∨ w.balance 0 < amount then .reverted failure else .waits (w.debit 0 amount) (.sending failure)
  else if w.balance token < amount then .reverted .external
  else .waits (if payee = self then w else w.debit token amount) (.sending .external)

/-! ## Distribution -/

/-- What `distribute` checks before it moves funds: the state of the snapshot. -/
def checkDistribute (args : DistributeArgs) : Result MerkleState :=
  if args.claimDeadline ≠ 0 ∧ args.claimDeadline ≤ w.timestamp then .error (.error .invalidClaimDeadline)
  else if args.expectedFeeRecipient = 0 ∨ w.feeRecipient ≠ args.expectedFeeRecipient then
    .error (.error (.unexpectedFeeRecipient args.expectedFeeRecipient w.feeRecipient))
  else do
    let wouldPay ← Evm.mulDiv args.amount w.feePercentage FEE_RANGE
    if args.maxFeeAmount < wouldPay then .error (.error (.feeExceedsFunderCap wouldPay args.maxFeeAmount))
    else do
      let state ← answer (env.getLatestState w.merkleSnapshot)
      if state.root = 0 ∨ state.totalValue = 0 then .error (.error .invalidMerkleState)
      else if state.root ≠ args.expectedRoot then
        .error (.error (.unexpectedMerkleRoot args.expectedRoot state.root))
      else if state.totalValue ≠ args.expectedTotalMerkleValue then
        .error (.error (.unexpectedMerkleTotalValue args.expectedTotalMerkleValue state.totalValue))
      else .ok state

/-- The round that a call opens. -/
def newDistribution (msgSender : Address) (args : DistributeArgs) (state : MerkleState)
    (funded feeAmount : U256) : DistributionState where
  blockNumber := w.blockNumber
  timestamp := w.timestamp
  root := state.root
  ipfsHash := state.ipfsHash
  ipfsHashCid := state.ipfsHashCid
  totalMerkleValue := state.totalValue
  distributor := msgSender
  token := args.token
  amountFunded := funded
  amountDistributed := 0
  feeRecipient := w.feeRecipient
  feeAmount := feeAmount
  claimDeadline := args.claimDeadline
  sweptAmount := 0

/-- The end of `distribute`: book what was received, and pay the fee. -/
def book (msgSender : Address) (args : DistributeArgs) (state : MerkleState) (funded : U256) :
    CallStack.Turn World Waiting Revert :=
  match (Evm.mulDiv funded w.feePercentage FEE_RANGE : Result U256) with
  | .error e => .reverted e
  | .ok feeAmount =>
    let index := w.distributions.length
    let d := newDistribution w msgSender args state funded feeAmount
    let pushed := { w with
      distributions := w.distributions ++ [d]
      distributionPausedDuration := update w.distributionPausedDuration index w.totalPausedDuration
      }.note (.distributed index w.feePercentage)
    if feeAmount = 0 then .returned (pushed.lock false)
    else send self pushed args.token w.feeRecipient feeAmount.toNat (.error .failedToTransferFee)

/-- Opens a round with what it receives of the tokens, less the fee. -/
def distribute (args : DistributeArgs) : CallStack.Turn World Waiting Revert :=
  if w.allowlistEnabled ∧ w.allowlist env.msgSender = false then .reverted (.error .cannotDistribute)
  else if w.entered then .reverted (.error .reentrantCall)
  else if w.paused then .reverted (.error .enforcedPause)
  else
    match checkDistribute env w args with
    | .error e => .reverted e
    | .ok state =>
      let w := (w.lock true).credit 0 env.msgValue.toNat
      if args.token = 0 then
        if env.msgValue ≠ args.amount then .reverted (.error .invalidNativeTokenTransferAmount)
        else book self w env.msgSender args state args.amount
      else if 0 < env.msgValue.toNat then .reverted (.error .invalidNativeTokenTransfer)
      else .waits w (.pulling env.msgSender args state (w.balance args.token))

/-- The tokens have arrived: what is booked is the difference of the balances, a number of 256 bits. -/
def pulled (msgSender : Address) (args : DistributeArgs) (state : MerkleState) (balanceBefore : ℕ) :
    CallStack.Turn World Waiting Revert :=
  let w := w.credit args.token args.amount.toNat
  if w.balance args.token < balanceBefore then .reverted .underflow
  else
    match ofNat 256 (w.balance args.token - balanceBefore) with
    | none => .reverted .external
    | some funded => book self w msgSender args state funded

/-! ## Claims -/

/-- What `claim` checks and books: the world, the token and the amount to send. -/
def creditClaim (distributionIndex : Nat) (account : Address) (value : U256) (proof : List B256) :
    Result (World × Address × U256) :=
  match w.distributions[distributionIndex]? with
  | none => .error (.error .distributionNotFound)
  | some d =>
    if account = 0 then .error (.error .invalidAddress)
    else if d.root = 0 then .error (.error .distributionNotFound)
    else do
      let claimDeadline ← effectiveClaimDeadline w distributionIndex
      if claimDeadline ≠ 0 ∧ claimDeadline.toNat < w.timestamp.toNat then .error (.error .claimWindowClosed)
      else if w.claimed distributionIndex account ≠ 0 then .error (.error .alreadyClaimed)
      else if OzMerkle.verifyProof H d.root account value proof = false then .error (.error .invalidMerkleProof)
      else do
        let totalDistributable ← minus d.amountFunded d.feeAmount
        let claimedAmount ← Evm.mulDiv totalDistributable value d.totalMerkleValue
        if claimedAmount = 0 then .error (.error .noFundsToClaim)
        else do
          let remainingBudget ← surplus totalDistributable d.amountDistributed
          if remainingBudget < claimedAmount then
            .error (.error (.claimExceedsRoundBudget claimedAmount remainingBudget))
          else do
            let amountDistributed ← arith (add d.amountDistributed claimedAmount)
            .ok (((w.setClaimed distributionIndex account claimedAmount).setDistribution distributionIndex
              { d with amountDistributed := amountDistributed }).note
                (.claimed distributionIndex account claimedAmount), d.token, claimedAmount)

/-- Pays what the round's root gives the account beyond what it has claimed. -/
def claim (distributionIndex : Nat) (account : Address) (value : U256) (proof : List B256) :
    CallStack.Turn World Waiting Revert :=
  if w.entered then .reverted (.error .reentrantCall)
  else if w.paused then .reverted (.error .enforcedPause)
  else
    match creditClaim H (w.lock true) distributionIndex account value proof with
    | .error e => .reverted e
    | .ok (w, token, amount) => send self w token account amount.toNat (.error .failedToTransferTokens)

/-- What `sweep` checks and books: the world, the round and the amount to send. -/
def debitSweep (distributionIndex : Nat) : Result (World × DistributionState × U256) :=
  match w.distributions[distributionIndex]? with
  | none => .error (.error .distributionNotFound)
  | some d =>
    if d.root = 0 then .error (.error .distributionNotFound)
    else do
      let claimDeadline ← effectiveClaimDeadline w distributionIndex
      if claimDeadline = 0 then .error (.error .noClaimDeadline)
      else if w.timestamp.toNat ≤ claimDeadline.toNat then .error (.error .claimWindowNotClosed)
      else if d.sweptAmount ≠ 0 then .error (.error .alreadySwept)
      else do
        let totalDistributable ← minus d.amountFunded d.feeAmount
        if totalDistributable.toNat ≤ d.amountDistributed.toNat then .error (.error .nothingToSweep)
        else do
          let sweptAmount ← minus totalDistributable d.amountDistributed
          .ok ((w.setDistribution distributionIndex { d with sweptAmount := sweptAmount }).note
            (.swept distributionIndex sweptAmount), d, sweptAmount)

/-- Pays the rest of an expired round back to its distributor. -/
def sweep (distributionIndex : Nat) : CallStack.Turn World Waiting Revert :=
  if w.entered then .reverted (.error .reentrantCall)
  else
    match debitSweep (w.lock true) distributionIndex with
    | .error e => .reverted e
    | .ok (w, d, amount) => send self w d.token d.distributor amount.toNat (.error .failedToTransferTokens)

end Calls

/-! ## The contract among others -/

inductive Call where
  | setFeeRecipient (newFeeRecipient : Address)
  | setFeePercentage (newFeePercentage : U256)
  | applyFeePercentageIncrease
  | setMerkleSnapshot (newMerkleSnapshot : Address)
  | setAllowlistEnabled (allowlistEnabled : Bool)
  | updateDistributorAllowance (distributor : Address) (canDistribute : Bool)
  | transferOwnership (newOwner : Address)
  | acceptOwnership
  | renounceOwnership
  | pause
  | unpause
  | distribute (args : DistributeArgs)
  | claim (distributionIndex : Nat) (account : Address) (value : U256) (proof : List B256)
  | sweep (distributionIndex : Nat)

/-- Tokens or ETH that somebody sends to the contract. -/
structure Gift where
  token : Address
  amount : ℕ

structure Header where
  timestamp : UInt64
  blockNumber : UInt64

/-- A call that is not payable takes no ETH. -/
def Call.payable : Call → Bool
  | .distribute _ => true
  | _ => false

section Contract

variable (H : Hashes) (self : Address)

/-- A call of the contract. It does not call itself. -/
def enter (i : Env × Call) (w : World) : CallStack.Turn World Waiting Revert :=
  if i.1.msgSender = self ∨ i.2.payable = false ∧ i.1.msgValue ≠ 0 then .reverted .external
  else match i.2 with
  | .setFeeRecipient newFeeRecipient => ended (setFeeRecipient i.1 w newFeeRecipient)
  | .setFeePercentage newFeePercentage => ended (setFeePercentage i.1 w newFeePercentage)
  | .applyFeePercentageIncrease => ended (applyFeePercentageIncrease w)
  | .setMerkleSnapshot newMerkleSnapshot => ended (setMerkleSnapshot i.1 w newMerkleSnapshot)
  | .setAllowlistEnabled allowlistEnabled => ended (setAllowlistEnabled i.1 w allowlistEnabled)
  | .updateDistributorAllowance distributor canDistribute =>
    ended (updateDistributorAllowance i.1 w distributor canDistribute)
  | .transferOwnership newOwner => ended (transferOwnership i.1 w newOwner)
  | .acceptOwnership => ended (acceptOwnership i.1 w)
  | .renounceOwnership => ended (renounceOwnership i.1 w)
  | .pause => ended (pause i.1 w)
  | .unpause => ended (unpause i.1 w)
  | .distribute args => distribute self i.1 w args
  | .claim distributionIndex account value proof => claim H self w distributionIndex account value proof
  | .sweep distributionIndex => sweep self w distributionIndex

/-- What follows the answer to a call of the token or of a payee. -/
def resume : Waiting → Option Unit → World → CallStack.Turn World Waiting Revert
  | .pulling msgSender args state balanceBefore, some _, w => pulled self w msgSender args state balanceBefore
  | .pulling .., none, _ => .reverted .external
  | .sending _, some _, w => .returned (w.lock false)
  | .sending failure, none, _ => .reverted failure

def advance (h : Header) (w : World) : Option World :=
  if h.timestamp < w.timestamp ∨ h.blockNumber < w.blockNumber then none
  else some { w with timestamp := h.timestamp, blockNumber := h.blockNumber }

/-- The distributor among the other contracts. -/
def contract : CallStack.Contract World (Env × Call) Waiting Unit Gift Header Revert where
  enter := enter H self
  resume := resume self
  outside g w := w.credit g.token g.amount
  between := advance

end Contract

/-- A distributor that was just constructed, at whatever balances. The first entry is its fee. -/
structure Start (w : World) : Prop where
  constructed : ∃ owner merkleSnapshot feeRecipient feePercentage allowlistEnabled,
    constructor owner merkleSnapshot feeRecipient feePercentage allowlistEnabled = .ok w.toStorage
  history : w.history = [⟨w.timestamp, .feeSet w.feePercentage⟩]

abbrev Event := CallStack.Event (Env × Call) Unit Gift Header

/-- The contract under any interleaving of calls, answers and blocks. -/
def run (H : Hashes) (self : Address) (w : World) (events : List Event) :
    CallStack.Configuration World Waiting := CallStack.run (contract H self) w events

end Trustgraphs.MerkleFundDistributor
