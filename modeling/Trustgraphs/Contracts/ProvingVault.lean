import Trustgraphs.Contracts.Evm
import Trustgraphs.Contracts.MerkleSnapshot

/-!
# The tank that pays for roots (`contracts/src/vault/ProvingVault.sol`)

The vault with its balances, and the calls that reach it. Code of others runs while a proof is forwarded
to the snapshot and while ETH is sent, and it may call the vault again. USDC moves exact amounts or
refuses, and calls nobody back. What other contracts answer to a static call comes with a call.

The history is not part of the storage: it notes what the vault has done, and a revert takes it back like
the storage.
-/

namespace Trustgraphs.ProvingVault

open Checked Evm Function

open AttestationAccumulator (Checkpoint)
open MerkleSnapshot (MerkleState StateProvenance)

abbrev U96 := BitVec 96

abbrev U128 := BitVec 128

/-- The deposits of an instance and the snapshot they are bound to. -/
structure Account where
  /-- Bound at the first deposit, zero before. -/
  snapshot : Address
  program : B256
  ethBalance : U128
  usdcBalance : U128

/-- What an instance limits its own payments to. -/
structure Policy where
  minPaidIntervalBlocks : UInt64
  maxPerRootUsd : U96
  lastPaidBlock : UInt64

/-- A request to withdraw and the moment it may be executed. -/
structure PendingWithdrawal where
  ethAmount : U128
  usdcAmount : U128
  /-- Zero when nothing is pending. -/
  readyAt : UInt64

/-- What a claim is priced from, read before control leaves the contract. -/
structure Terms where
  snapshot : Address
  program : B256
  maxPerRootUsd : U96
  minPaidIntervalBlocks : UInt64
  lastPaidBlock : UInt64
  leafCount : UInt64
  anchorCount : UInt64
  sizeKnown : Bool
  statement : B256
deriving DecidableEq

/-- A paid checkpoint. -/
structure Settlement where
  instanceId : B256
  checkpointId : Nat
  terms : Terms
  recipient : Address
  submitter : Address
  feeUsd : U256
  gasUsd : U256
  ethSpent : U256
  usdcSpent : U256
deriving DecidableEq

/-- What the history notes. -/
inductive Entry where
  | deposited (instanceId : B256) (token : Address) (amount : U128)
  | settled (settlement : Settlement)
  | requested (instanceId : B256) (ethAmount usdcAmount : U256)
  | cancelled (instanceId : B256)
  | withdrawn (instanceId : B256) (eth usdc : U128)
deriving DecidableEq

/-- An entry of the history with its block. -/
structure Noted where
  timestamp : UInt64
  blockNumber : UInt64
  entry : Entry
deriving DecidableEq

inductive Error where
  | zeroAmount
  | feedDecimalsUnsupported (decimals : UInt8)
  | stablecoinDecimalsUnsupported (decimals : UInt8)
  | unknownInstance (instanceId : B256)
  | snapshotProvenanceRequired (snapshot : Address)
  | snapshotMismatch (bound registry : Address)
  | notConstitutional (instanceId : B256) (caller : Address)
  | alreadyClaimed (instanceId : B256) (checkpointId : Nat)
  | checkpointNotApplied (expected actual : Nat)
  | checkpointNotApplied2 (checkpointId : Nat)
  | insufficientBalance (ethBalance usdcBalance : U128)
  | nothingPending (instanceId : B256)
  | withdrawalNotReady (readyAt : UInt64)
  | noCredit (account token : Address)
  | unpricedBandIsReserved
  | payoutBelowMinimum (offeredUsd requiredUsd : U256)
  | require (message : String)
  /-- Of `ReentrancyGuard`. -/
  | reentrantCall
  /-- Of `AccessControl`. -/
  | unauthorized

abbrev Revert := Evm.Revert Error

abbrev Result (α : Type) := Evm.Result Error α

def quotient (a b : U256) : Result U256 := if b = 0 then .error .divisionByZero else .ok (a / b)

def widen {w : Nat} (x : BitVec w) : U256 := x.setWidth 256

/-! ## The world -/

/-- What another contract answers to a read. -/
inductive Answer (α : Type) where
  | value (a : α)
  | reverted
  | undecodable

/-- A read that must answer. -/
def Answer.get {α : Type} : Answer α → Result α
  | .value a => .ok a
  | _ => .error .external

/-- A call in a `try`: only a revert is caught. -/
def Answer.tryGet {α : Type} : Answer α → Result (Option α)
  | .value a => .ok (some a)
  | .reverted => .ok none
  | .undecodable => .error .external

/-- What the vault reads of a registered instance. -/
structure Instance where
  snapshot : Address
  program : B256

/-- The contracts that the vault reads. -/
structure View where
  getInstance : B256 → Answer Instance
  provenanceEnabled : Address → Answer Bool
  /-- `hasRole(CONSTITUTIONAL_ROLE(), account)` of a snapshot. -/
  hasConstitutionalRole : Address → Address → Answer Bool
  hasAppliedCheckpoint : Address → Answer Bool
  lastAppliedCheckpoint : Address → Answer Nat
  checkpointRecipient : Address → Nat → Answer Address
  getAcceptedCheckpoint : Address → Nat → Answer (MerkleState × StateProvenance)
  accumulator : Address → Answer Address
  getCheckpoint : Address → Nat → Answer Checkpoint
  anchorCheckpoints : Address → Nat → Answer (B256 × UInt64)
  checkpointWorkCount : Address → Nat → Answer UInt64
  /-- The answer and the time of the update. -/
  latestRoundData : Answer (BitVec 256 × U256)

structure Env where
  msgSender : Address
  basefee : U256
  view : View
  /-- USDC makes the transfer of this call. -/
  usdcTransfers : Bool

/-- The immutables of the contract, and its address. -/
structure Immutables where
  address : Address
  usdc : Address
  feedMaxStaleness : UInt64
  minEthUsd : U256
  maxEthUsd : U256

structure Storage where
  accounts : B256 → Account
  policies : B256 → Policy
  pending : B256 → PendingWithdrawal
  claimed : B256 → Address → Nat → Bool
  paidStatement : B256 → B256 → Bool
  /-- What is owed to an account in a token. -/
  credit : Address → Address → U256
  feePerRootUsd : B256 → UInt8 → U256
  maxGasUnitsPerClaim : U256
  nominalGasUnits : U256
  isFeeSetter : Address → Bool
  /-- A guarded call is running. -/
  entered : Bool

/-- The storage, the balances of the contract, its history and the block. Header numbers have 64 bits. -/
structure World extends Storage where
  ethBalance : ℕ
  usdcBalance : ℕ
  timestamp : UInt64
  blockNumber : UInt64
  history : List Noted

def ETH : Address := 0

def USD : U256 := 100000000

def USDC_DECIMALS : UInt8 := 6

def USDC_SCALE : U256 := 1000000

def WITHDRAWAL_NOTICE : UInt64 := 604800

def REFUND_SAFE_NUMERATOR : U256 := 4

def REFUND_SAFE_DENOMINATOR : U256 := 5

def MAX_PRICED_INPUTS : Nat := 200000

def WEI : U256 := 1000000000000000000

/-- The immutables and the storage after construction. -/
def constructor (address registry usdc feed : Address) (feedMaxStaleness : UInt64) (minEthUsd maxEthUsd : U256)
    (feeSetter admin : Address) (feedDecimals stablecoinDecimals : UInt8) : Result (Immutables × Storage) :=
  if registry = 0 ∨ usdc = 0 ∨ feed = 0 ∨ feeSetter = 0 ∨ admin = 0 ∨ feedMaxStaleness = 0 ∨ minEthUsd = 0 ∨
      maxEthUsd ≤ minEthUsd then
    .error (.error .zeroAmount)
  else if feedDecimals ≠ 8 then .error (.error (.feedDecimalsUnsupported feedDecimals))
  else if stablecoinDecimals ≠ USDC_DECIMALS then
    .error (.error (.stablecoinDecimalsUnsupported stablecoinDecimals))
  else .ok (
    { address := address
      usdc := usdc
      feedMaxStaleness := feedMaxStaleness
      minEthUsd := minEthUsd
      maxEthUsd := maxEthUsd },
    { accounts := fun _ => ⟨0, 0, 0, 0⟩
      policies := fun _ => ⟨0, 0, 0⟩
      pending := fun _ => ⟨0, 0, 0⟩
      claimed := fun _ _ _ => false
      paidStatement := fun _ _ => false
      credit := fun _ _ => 0
      feePerRootUsd := fun _ _ => 0
      maxGasUnitsPerClaim := 1500000
      nominalGasUnits := 700000
      isFeeSetter := fun a => a = feeSetter
      entered := false })

namespace World

variable (w : World)

def setAccount (instanceId : B256) (a : Account) : World :=
  { w with accounts := update w.accounts instanceId a }

def setPolicy (instanceId : B256) (p : Policy) : World :=
  { w with policies := update w.policies instanceId p }

def setPending (instanceId : B256) (p : PendingWithdrawal) : World :=
  { w with pending := update w.pending instanceId p }

def setCredit (account token : Address) (amount : U256) : World :=
  { w with credit := update w.credit account (update (w.credit account) token amount) }

def note (entry : Entry) : World := { w with history := w.history ++ [⟨w.timestamp, w.blockNumber, entry⟩] }

/-- `nonReentrant` of OpenZeppelin's `ReentrancyGuard`: a guarded call reverts while another one runs. -/
def nonReentrant (f : World → Result World) : Result World :=
  if w.entered then .error (.error .reentrantCall)
  else (f { w with entered := true }).map fun w => { w with entered := false }

end World

section Calls

variable (H : Hashes) (imm : Immutables) (env : Env) (w : World)

/-- Refuses every caller without the constitutional role of the bound snapshot. -/
def onlyConstitutional (instanceId : B256) : Result Unit :=
  let snapshot := (w.accounts instanceId).snapshot
  if snapshot = 0 then .error (.error (.unknownInstance instanceId))
  else do
    if ← (env.view.hasConstitutionalRole snapshot env.msgSender).get then .ok ()
    else .error (.error (.notConstitutional instanceId env.msgSender))

/-! ## Funding -/

/-- A bound snapshot must keep provenance. -/
def requireProvenance (snapshot : Address) : Result Unit := do
  if ← (env.view.provenanceEnabled snapshot).get then .ok ()
  else .error (.error (.snapshotProvenanceRequired snapshot))

/-- What the registry names, with an accepted history. -/
def resolve (instanceId : B256) : Result Instance := do
  let record ← (env.view.getInstance instanceId).get
  if record.snapshot = 0 then .error (.error (.unknownInstance instanceId))
  else do
    requireProvenance env record.snapshot
    .ok record

/-- `_bind`: the registry is asked once, at the first deposit. -/
def bindAccount (instanceId : B256) : Result World :=
  let a := w.accounts instanceId
  if a.snapshot ≠ 0 then .ok w
  else do
    let record ← resolve env instanceId
    .ok (w.setAccount instanceId { a with snapshot := record.snapshot, program := record.program })

/-- A deposit, which binds the account the first time. -/
def depositETH (instanceId : B256) (msgValue : U256) : Result World :=
  if msgValue = 0 ∨ 2 ^ 128 ≤ msgValue.toNat then .error (.error .zeroAmount)
  else do
    let w ← bindAccount env { w with ethBalance := w.ethBalance + msgValue.toNat } instanceId
    let a := w.accounts instanceId
    let ethBalance ← arith (add a.ethBalance (msgValue.setWidth 128))
    .ok ((w.setAccount instanceId { a with ethBalance := ethBalance }).note
      (.deposited instanceId ETH (msgValue.setWidth 128)))

def depositUSDC (instanceId : B256) (amount : U256) : Result World :=
  if amount = 0 ∨ 2 ^ 128 ≤ amount.toNat then .error (.error .zeroAmount)
  else do
    let w ← bindAccount env w instanceId
    let before := w.usdcBalance
    if ¬ env.usdcTransfers then .error .external
    else
      let w := { w with usdcBalance := before + amount.toNat }
      if w.usdcBalance < before then .error .underflow
      else
        let received := w.usdcBalance - before
        if received = 0 then .error (.error .zeroAmount)
        else do
          let a := w.accounts instanceId
          let usdcBalance ← arith (add a.usdcBalance (BitVec.ofNat 128 received))
          .ok ((w.setAccount instanceId { a with usdcBalance := usdcBalance }).note
            (.deposited instanceId imm.usdc (BitVec.ofNat 128 received)))

/-- The constitutional holder moves an account to the instance's new snapshot. -/
def migrate (instanceId : B256) : Result World :=
  w.nonReentrant fun w => do
    onlyConstitutional env w instanceId
    let a := w.accounts instanceId
    let record ← resolve env instanceId
    if record.snapshot = a.snapshot ∧ record.program = a.program then
      .error (.error (.snapshotMismatch a.snapshot record.snapshot))
    else .ok (w.setAccount instanceId { a with snapshot := record.snapshot, program := record.program })

/-! ## Pricing -/

/-- The price of the feed, none where it is stale or out of bounds. -/
def ethUsd : Result (Option U256) := do
  match ← env.view.latestRoundData.tryGet with
  | none => .ok none
  | some (answer, updatedAt) =>
    if answer.toInt ≤ 0 then .ok none
    else if answer < imm.minEthUsd ∨ imm.maxEthUsd < answer then .ok none
    else if updatedAt = 0 ∨ MerkleSnapshot.uint256 w.timestamp < updatedAt then .ok none
    else do
      let age ← minus (MerkleSnapshot.uint256 w.timestamp) updatedAt
      if imm.feedMaxStaleness.toNat < age.toNat then .ok none else .ok (some answer)

/-- The size band of a checkpoint. Band 0 is unpriced. -/
def bandOf (program : B256) (leafCount anchorCount : UInt64) : UInt8 :=
  let n := leafCount.toNat + anchorCount.toNat
  if program = H.keccak256 (utf8 "trust-graph") ∨ program = H.keccak256 (utf8 "trust-graph-weighted") ∨
      program = H.keccak256 (utf8 "signer-sync") ∨ program = H.keccak256 (utf8 "contributions") ∨
      program = H.keccak256 (utf8 "hypercerts") then
    if n ≤ 1000 then 1
    else if n ≤ 20000 then 2
    else if n ≤ MAX_PRICED_INPUTS then 3
    else 0
  else if program = H.keccak256 (utf8 "trust-compose") ∨ program = H.keccak256 (utf8 "nostr-workspace") then 3
  else 0

/-- The size that a checkpoint froze, when it is known. -/
def sizeOf (snapshot : Address) (checkpointId : Nat) : Result (Option (UInt64 × UInt64)) := do
  match ← (env.view.accumulator snapshot).tryGet with
  | none => .ok none
  | some accumulator =>
    match ← (env.view.getCheckpoint accumulator checkpointId).tryGet with
    | none => .ok none
    | some checkpoint =>
      match ← (env.view.anchorCheckpoints snapshot checkpointId).tryGet with
      | none => .ok none
      | some (_, anchorCount) =>
        match ← (env.view.checkpointWorkCount snapshot checkpointId).tryGet with
        | none => .ok (some (checkpoint.leafCount, anchorCount))
        | some work => .ok (some (checkpoint.leafCount, if anchorCount ≤ work then work else anchorCount))

/-- Four fifths of the measured gas, so that a refund never pays more than it burned. -/
def refundSafeGasUnits (grossUnits : U256) : Result U256 := do
  quotient (← arith (mul grossUnits REFUND_SAFE_NUMERATOR)) REFUND_SAFE_DENOMINATOR

/-- The price of gas units in dollars. -/
def gasUsdOf (units ethUsdPrice : U256) : Result U256 := do
  quotient (← arith (mul (← arith (mul units env.basefee)) ethUsdPrice)) WEI

/-- What the account could pay in dollars. -/
def payableUsd (a : Account) (ethUsdPrice : U256) : Result U256 := do
  let usd ← quotient (← arith (mul (widen a.usdcBalance) USD)) USDC_SCALE
  if ethUsdPrice ≠ 0 then arith (add usd (← quotient (← arith (mul (widen a.ethBalance) ethUsdPrice)) WEI))
  else .ok usd

/-! ## Settlement -/

/-- A checkpoint of a snapshot is claimed at most once. -/
def requireUnclaimed (instanceId : B256) (snapshot : Address) (checkpointId : Nat) : Result Unit :=
  if w.claimed instanceId snapshot checkpointId then
    .error (.error (.alreadyClaimed instanceId checkpointId))
  else .ok ()

/-- Freeze the terms of the claim. The statement is known later. -/
def termsOf (instanceId : B256) (a : Account) (checkpointId : Nat) : Result Terms := do
  let p := w.policies instanceId
  let size ← sizeOf env a.snapshot checkpointId
  .ok {
    snapshot := a.snapshot
    program := a.program
    maxPerRootUsd := p.maxPerRootUsd
    minPaidIntervalBlocks := p.minPaidIntervalBlocks
    lastPaidBlock := p.lastPaidBlock
    leafCount := (size.map Prod.fst).getD 0
    anchorCount := (size.map Prod.snd).getD 0
    sizeKnown := size.isSome
    statement := 0 }

/-- The program that accepted a proof: its key, or the verifier when it has none. -/
def programIdentity (provenance : StateProvenance) : B256 :=
  let hasProgramKey : Bool := provenance.programVKey ≠ 0
  H.keccak256 (provenance.programVKey.bytes ++ wordAddr (if hasProgramKey then 0 else provenance.verifier) ++
    (if hasProgramKey then 0 else provenance.verifierCodehash : B256).bytes)

/-- The identity of what was proved, from the accepted checkpoint. -/
def acceptedStatement (snapshot : Address) (checkpointId : Nat) : Result B256 := do
  let (state, provenance) ← (env.view.getAcceptedCheckpoint snapshot checkpointId).get
  let accumulator ← (env.view.accumulator snapshot).get
  let c ← (env.view.getCheckpoint accumulator checkpointId).get
  let (anchorAcc, anchorCount) ← (env.view.anchorCheckpoints snapshot checkpointId).get
  .ok (H.keccak256 (wordAddr snapshot ++ c.acc.bytes ++ wordU64 c.leafCount ++ anchorAcc.bytes ++
    wordU64 anchorCount ++ provenance.paramsHash.bytes ++ (programIdentity H provenance).bytes ++
    state.root.bytes ++ state.ipfsHash.bytes ++ (H.keccak256 state.ipfsHashCid).bytes ++
    wordU256 state.totalValue))

/-- A claim that pays nothing reverts when the caller asked for a payout. -/
def skip (minPayoutUsd : U256) : Result (World × U256 × U256) :=
  if minPayoutUsd ≠ 0 then .error (.error (.payoutBelowMinimum 0 minPayoutUsd)) else .ok (w, 0, 0)

/-- The legs of a payment. -/
structure Payment where
  paidUsd : U256
  ethSpent : U256
  usdcSpent : U256

/-- The ETH part of a payout: the world, what was spent, and the value left to pay. -/
def payETH (instanceId : B256) (payee : Address) (usdAmount ethUsdPrice : U256) :
    Result (World × Payment × U256) :=
  let a := w.accounts instanceId
  if a.ethBalance = 0 then .ok (w, ⟨0, 0, 0⟩, usdAmount)
  else do
    let wantWei ← quotient (← arith (mul usdAmount WEI)) ethUsdPrice
    let payWei := if widen a.ethBalance < wantWei then widen a.ethBalance else wantWei
    if payWei = 0 then .ok (w, ⟨0, 0, 0⟩, usdAmount)
    else do
      let ethBalance ← minus a.ethBalance (payWei.setWidth 128)
      let credit ← arith (add (w.credit payee ETH) payWei)
      let coveredUsd ← quotient (← arith (mul payWei ethUsdPrice)) WEI
      let left ← surplus usdAmount coveredUsd
      .ok ((w.setAccount instanceId { a with ethBalance := ethBalance }).setCredit payee ETH credit,
        ⟨coveredUsd, payWei, 0⟩, left)

/-- The USDC part of a payout, after the payment so far. -/
def payUSDC (instanceId : B256) (payee : Address) (paid : Payment) (usdAmount : U256) :
    Result (World × Payment) :=
  let a := w.accounts instanceId
  if usdAmount = 0 ∨ a.usdcBalance = 0 then .ok (w, paid)
  else do
    let wantUsdc ← quotient (← arith (mul usdAmount USDC_SCALE)) USD
    let payUsdc := if widen a.usdcBalance < wantUsdc then widen a.usdcBalance else wantUsdc
    if payUsdc = 0 then .ok (w, paid)
    else do
      let usdcBalance ← minus a.usdcBalance (payUsdc.setWidth 128)
      let credit ← arith (add (w.credit payee imm.usdc) payUsdc)
      let paidUsd ← arith (add paid.paidUsd
        (← quotient (← arith (mul payUsdc USD)) USDC_SCALE))
      .ok ((w.setAccount instanceId { a with usdcBalance := usdcBalance }).setCredit payee imm.usdc credit,
        { paid with paidUsd := paidUsd, usdcSpent := payUsdc })

/-- `_pay`: credit a value, ETH first and then USDC. -/
def pay (instanceId : B256) (payee : Address) (usdAmount ethUsdPrice : U256) : Result (World × Payment) :=
  if usdAmount = 0 ∨ payee = 0 then .ok (w, ⟨0, 0, 0⟩)
  else do
    let (w, paid, left) ← payETH w instanceId payee usdAmount ethUsdPrice
    payUSDC imm w instanceId payee paid left

def World.setLastPaidBlock (w : World) (instanceId : B256) (block : UInt64) : World :=
  w.setPolicy instanceId { w.policies instanceId with lastPaidBlock := block }

/-- The slots that a paid claim consumes. -/
def World.consume (w : World) (instanceId : B256) (t : Terms) (checkpointId : Nat) : World :=
  { w with
    claimed := update w.claimed instanceId (update (w.claimed instanceId) t.snapshot
      (update (w.claimed instanceId t.snapshot) checkpointId true))
    paidStatement := update w.paidStatement instanceId
      (update (w.paidStatement instanceId) t.statement true) }

/-- The proving fee and the gas reimbursement, capped together. -/
def quoteLegs (t : Terms) (band : UInt8) (gasUsed ethUsdPrice : U256) : Result (U256 × U256) := do
  let cap := widen t.maxPerRootUsd
  let fee := w.feePerRootUsd t.program band
  let feeUsd := if cap < fee then cap else fee
  let units ← refundSafeGasUnits
    (if gasUsed < w.maxGasUnitsPerClaim then gasUsed else w.maxGasUnitsPerClaim)
  if units = 0 then .ok (feeUsd, 0)
  else do
    let gasUsd ← gasUsdOf env units ethUsdPrice
    let room ← surplus cap feeUsd
    .ok (feeUsd, if room < gasUsd then room else gasUsd)

/-- `_settle`: the money. The fee is paid before the gas. -/
def settle (instanceId : B256) (t : Terms) (checkpointId : Nat) (recipient : Address)
    (gasUsed minPayoutUsd : U256) : Result (World × U256 × U256) :=
  if t.maxPerRootUsd = 0 then skip w minPayoutUsd
  else if t.lastPaidBlock ≠ 0 ∧ w.blockNumber.toNat < t.lastPaidBlock.toNat + t.minPaidIntervalBlocks.toNat then
    skip w minPayoutUsd
  else
    let band := bandOf H t.program t.leafCount t.anchorCount
    if t.sizeKnown = false ∨ band = 0 then skip w minPayoutUsd
    else if w.paidStatement instanceId t.statement then skip w minPayoutUsd
    else do
      match ← ethUsd imm env w with
      | none => skip w minPayoutUsd
      | some ethUsdPrice =>
        let (feeUsd, gasUsd) ← quoteLegs env w t band gasUsed ethUsdPrice
        let total ← arith (add feeUsd gasUsd)
        let payable ← payableUsd (w.accounts instanceId) ethUsdPrice
        let offered := if total < payable then total else payable
        if offered < minPayoutUsd then .error (.error (.payoutBelowMinimum offered minPayoutUsd))
        else do
          let (w, fee) ← pay imm w instanceId recipient feeUsd ethUsdPrice
          let (w, gas) ← pay imm w instanceId env.msgSender gasUsd ethUsdPrice
          let ethSpent ← arith (add fee.ethSpent gas.ethSpent)
          let usdcSpent ← arith (add fee.usdcSpent gas.usdcSpent)
          if ethSpent ≠ 0 ∨ usdcSpent ≠ 0 then
            let w := w.consume instanceId t checkpointId
            let w := w.setLastPaidBlock instanceId w.blockNumber
            .ok (w.note (.settled ⟨instanceId, checkpointId, t, recipient, env.msgSender, fee.paidUsd,
              gas.paidUsd, ethSpent, usdcSpent⟩), fee.paidUsd, gas.paidUsd)
          else do
            let _ ← skip w minPayoutUsd
            .ok (w, fee.paidUsd, gas.paidUsd)

/-- Pays the recipient that the accepted proof of a checkpoint named. -/
def claim (instanceId : B256) (checkpointId : Nat) : Result World :=
  w.nonReentrant fun w => do
    let a := w.accounts instanceId
    if a.snapshot = 0 then .error (.error (.unknownInstance instanceId))
    else do
      requireUnclaimed w instanceId a.snapshot checkpointId
      let applied ← (env.view.hasAppliedCheckpoint a.snapshot).get
      if ¬ applied then .error (.error (.checkpointNotApplied2 checkpointId))
      else do
        let last ← (env.view.lastAppliedCheckpoint a.snapshot).get
        if last < checkpointId then .error (.error (.checkpointNotApplied2 checkpointId))
        else do
          let recipient ← (env.view.checkpointRecipient a.snapshot checkpointId).get
          if recipient = 0 then .error (.error (.checkpointNotApplied2 checkpointId))
          else do
            let t ← termsOf env w instanceId a checkpointId
            let statement ← acceptedStatement H env a.snapshot checkpointId
            let (w, _) ← settle H imm env w instanceId { t with statement := statement } checkpointId
              recipient 0 0
            .ok w

/-- The arguments of a submission that the vault itself reads; the others it forwards. -/
structure SubmitArgs where
  checkpointId : Nat
  recipient : Address
  minPayoutUsd : U256

inductive Waiting where
  /-- `submitAndClaim` has forwarded the proof. -/
  | submitting (env : Env) (instanceId : B256) (args : SubmitArgs) (t : Terms)
  | sendingETH
  | sendingToken

/-- The part of `submitAndClaim` before the proof is forwarded. -/
def submitStart (instanceId : B256) (args : SubmitArgs) : Result (World × Waiting) :=
  if w.entered then .error (.error .reentrantCall)
  else do
    let a := w.accounts instanceId
    if a.snapshot = 0 then .error (.error (.unknownInstance instanceId))
    else do
      requireUnclaimed w instanceId a.snapshot args.checkpointId
      let t ← termsOf env w instanceId a args.checkpointId
      .ok ({ w with entered := true }, .submitting env instanceId args t)

/-- The part after it: the snapshot must have applied this checkpoint. -/
def submitEnd (instanceId : B256) (args : SubmitArgs) (t : Terms) (gasUsed : U256) : Result World := do
  let notApplied : Result World := do
    let actual ← (env.view.lastAppliedCheckpoint t.snapshot).get
    .error (.error (.checkpointNotApplied args.checkpointId actual))
  if (← (env.view.hasAppliedCheckpoint t.snapshot).get) = false then notApplied
  else if (← (env.view.lastAppliedCheckpoint t.snapshot).get) ≠ args.checkpointId then notApplied
  else do
    let statement ← acceptedStatement H env t.snapshot args.checkpointId
    let (w, _) ← settle H imm env w instanceId { t with statement := statement } args.checkpointId
      args.recipient gasUsed args.minPayoutUsd
    .ok { w with entered := false }

/-! ## Fees and community controls -/

/-- The fee of a program's band; band zero cannot be priced. -/
def setFeePerRootUsd (program : B256) (band : UInt8) (usdPerRoot : U256) : Result World :=
  if w.isFeeSetter env.msgSender = false then .error (.error .unauthorized)
  else if band = 0 then .error (.error .unpricedBandIsReserved)
  else
    let fees := update (w.feePerRootUsd program) band usdPerRoot
    .ok { w with feePerRootUsd := update w.feePerRootUsd program fees }

/-- The measured and the assumed gas, both bounded. -/
def setGasParams (maxUnits nominalUnits : U256) : Result World :=
  if w.isFeeSetter env.msgSender = false then .error (.error .unauthorized)
  else if 30000000 < maxUnits ∨ 30000000 < nominalUnits then .error (.error .zeroAmount)
  else .ok { w with maxGasUnitsPerClaim := maxUnits, nominalGasUnits := nominalUnits }

/-- An instance sets its own limits. -/
def setPolicy (instanceId : B256) (minPaidIntervalBlocks : UInt64) (maxPerRootUsd : U96) : Result World :=
  w.nonReentrant fun w => do
    onlyConstitutional env w instanceId
    .ok (w.setPolicy instanceId { w.policies instanceId with
      minPaidIntervalBlocks := minPaidIntervalBlocks
      maxPerRootUsd := maxPerRootUsd })

/-- Start the notice. The balance is not debited, and a request adds to what is pending. -/
def requestWithdrawal (instanceId : B256) (ethAmount usdcAmount : U256) : Result World :=
  w.nonReentrant fun w => do
    onlyConstitutional env w instanceId
    if ethAmount = 0 ∧ usdcAmount = 0 then .error (.error .zeroAmount)
    else
      let a := w.accounts instanceId
      if widen a.ethBalance < ethAmount ∨ widen a.usdcBalance < usdcAmount then
        .error (.error (.insufficientBalance a.ethBalance a.usdcBalance))
      else do
        let p := w.pending instanceId
        let eth ← arith (add p.ethAmount (ethAmount.setWidth 128))
        let usdc ← arith (add p.usdcAmount (usdcAmount.setWidth 128))
        if 2 ^ 64 ≤ w.timestamp.toNat + WITHDRAWAL_NOTICE.toNat then .error .overflow
        else .ok ((w.setPending instanceId ⟨eth, usdc, w.timestamp + WITHDRAWAL_NOTICE⟩).note
          (.requested instanceId ethAmount usdcAmount))

/-- Takes back a request. -/
def cancelWithdrawal (instanceId : B256) : Result World :=
  w.nonReentrant fun w => do
    onlyConstitutional env w instanceId
    if (w.pending instanceId).readyAt = 0 then .error (.error (.nothingPending instanceId))
    else .ok ((w.setPending instanceId ⟨0, 0, 0⟩).note (.cancelled instanceId))

/-- `USDC.safeTransfer` from the vault, of an amount that is not zero. -/
def sendUSDC (payee : Address) (amount : ℕ) : Result World :=
  if amount = 0 then .ok w
  else if env.usdcTransfers = false ∨ w.usdcBalance < amount then .error .external
  else if payee = imm.address then .ok w
  else .ok { w with usdcBalance := w.usdcBalance - amount }

/-- A plain call with value. The vault itself takes none. -/
def sendETH (payee : Address) (amount : ℕ) : CallStack.Turn World Waiting Revert :=
  if payee = imm.address ∨ w.ethBalance < amount then .reverted (.error (.require "ProvingVault: eth send failed"))
  else .waits { w with ethBalance := w.ethBalance - amount } .sendingETH

/-- What is left of a withdrawal whose notice is over is debited, and its USDC sent. -/
def debitWithdrawal (instanceId : B256) (payee : Address) : Result (World × U128) := do
  onlyConstitutional env w instanceId
  let p := w.pending instanceId
  if p.readyAt = 0 then .error (.error (.nothingPending instanceId))
  else if w.timestamp.toNat < p.readyAt.toNat then .error (.error (.withdrawalNotReady p.readyAt))
  else if payee = 0 then .error (.error .zeroAmount)
  else do
    let a := w.accounts instanceId
    let eth := if a.ethBalance < p.ethAmount then a.ethBalance else p.ethAmount
    let usdc := if a.usdcBalance < p.usdcAmount then a.usdcBalance else p.usdcAmount
    let ethBalance ← minus a.ethBalance eth
    let usdcBalance ← minus a.usdcBalance usdc
    let w := w.setAccount instanceId { a with ethBalance := ethBalance, usdcBalance := usdcBalance }
    let w := (w.setPending instanceId ⟨0, 0, 0⟩).note (.withdrawn instanceId eth usdc)
    let w ← sendUSDC imm env w payee usdc.toNat
    .ok (w, eth)

/-- Pays what was requested, after the notice and at most what is held. -/
def executeWithdrawal (instanceId : B256) (payee : Address) : CallStack.Turn World Waiting Revert :=
  if w.entered then .reverted (.error .reentrantCall)
  else
    match debitWithdrawal imm env { w with entered := true } instanceId payee with
    | .error e => .reverted e
    | .ok (w, eth) => if eth ≠ 0 then sendETH imm w payee eth.toNat else .returned { w with entered := false }

/-! ## Pull payments -/

/-- A token other than USDC is a contract like any other. -/
def withdrawCredit (token payee : Address) : CallStack.Turn World Waiting Revert :=
  if w.entered then .reverted (.error .reentrantCall)
  else
    let amount := w.credit env.msgSender token
    if amount = 0 then .reverted (.error (.noCredit env.msgSender token))
    else if payee = 0 then .reverted (.error .zeroAmount)
    else
      let w := { w with entered := true }.setCredit env.msgSender token 0
      if token = ETH then sendETH imm w payee amount.toNat
      else if token = imm.usdc then
        match sendUSDC imm env w payee amount.toNat with
        | .error e => .reverted e
        | .ok w => .returned { w with entered := false }
      else .waits w .sendingToken

end Calls

/-! ## The contract among others -/

inductive Call where
  | depositETH (instanceId : B256) (msgValue : U256)
  | depositUSDC (instanceId : B256) (amount : U256)
  | migrate (instanceId : B256)
  | submitAndClaim (instanceId : B256) (args : SubmitArgs)
  | claim (instanceId : B256) (checkpointId : Nat)
  | setFeePerRootUsd (program : B256) (band : UInt8) (usdPerRoot : U256)
  | setGasParams (maxUnits nominalUnits : U256)
  | setPolicy (instanceId : B256) (minPaidIntervalBlocks : UInt64) (maxPerRootUsd : U96)
  | requestWithdrawal (instanceId : B256) (ethAmount usdcAmount : U256)
  | cancelWithdrawal (instanceId : B256)
  | executeWithdrawal (instanceId : B256) (payee : Address)
  | withdrawCredit (token payee : Address)
  /-- Who holds the role after a grant or a revocation. -/
  | setRoles (isFeeSetter : Address → Bool)

/-- What a call that waited sees when the code that it called returns. -/
structure Return where
  view : View
  /-- The gas that the forwarded call used. -/
  gasUsed : U256

/-- What happens to the balances without the vault: ETH that is forced on it, USDC that is sent to it. -/
inductive Gift where
  | eth (amount : ℕ)
  | usdc (amount : ℕ)

structure Header where
  timestamp : UInt64
  blockNumber : UInt64

section Contract

variable (H : Hashes) (imm : Immutables)

/-- A call of the contract. It does not call itself. -/
def enter (i : Env × Call) (w : World) : CallStack.Turn World Waiting Revert :=
  if i.1.msgSender = imm.address then .reverted .external
  else match i.2 with
  | .depositETH instanceId msgValue => ended (depositETH i.1 w instanceId msgValue)
  | .depositUSDC instanceId amount => ended (depositUSDC imm i.1 w instanceId amount)
  | .migrate instanceId => ended (migrate i.1 w instanceId)
  | .submitAndClaim instanceId args =>
    match submitStart i.1 w instanceId args with
    | .error e => .reverted e
    | .ok (w, k) => .waits w k
  | .claim instanceId checkpointId => ended (claim H imm i.1 w instanceId checkpointId)
  | .setFeePerRootUsd program band usdPerRoot => ended (setFeePerRootUsd i.1 w program band usdPerRoot)
  | .setGasParams maxUnits nominalUnits => ended (setGasParams i.1 w maxUnits nominalUnits)
  | .setPolicy instanceId minPaidIntervalBlocks maxPerRootUsd =>
    ended (setPolicy i.1 w instanceId minPaidIntervalBlocks maxPerRootUsd)
  | .requestWithdrawal instanceId ethAmount usdcAmount =>
    ended (requestWithdrawal i.1 w instanceId ethAmount usdcAmount)
  | .cancelWithdrawal instanceId => ended (cancelWithdrawal i.1 w instanceId)
  | .executeWithdrawal instanceId payee => executeWithdrawal imm i.1 w instanceId payee
  | .withdrawCredit token payee => withdrawCredit imm i.1 w token payee
  | .setRoles isFeeSetter => .returned { w with isFeeSetter := isFeeSetter }

/-- What follows the answer to a call. -/
def resume : Waiting → Option Return → World → CallStack.Turn World Waiting Revert
  | .submitting env instanceId args t, some r, w =>
    ended (submitEnd H imm { env with view := r.view } w instanceId args t r.gasUsed)
  | .submitting _ _ _ _, none, _ => .reverted .external
  | .sendingETH, some _, w => .returned { w with entered := false }
  | .sendingETH, none, _ => .reverted (.error (.require "ProvingVault: eth send failed"))
  | .sendingToken, some _, w => .returned { w with entered := false }
  | .sendingToken, none, _ => .reverted .external

/-- Assets that arrive without a deposit. -/
def give (w : World) : Gift → World
  | .eth amount => { w with ethBalance := w.ethBalance + amount }
  | .usdc amount => { w with usdcBalance := w.usdcBalance + amount }

def advance (h : Header) (w : World) : Option World :=
  if h.timestamp < w.timestamp ∨ h.blockNumber < w.blockNumber then none
  else some { w with timestamp := h.timestamp, blockNumber := h.blockNumber }

def contract : CallStack.Contract World (Env × Call) Waiting Return Gift Header Revert where
  enter := enter H imm
  resume := resume H imm
  outside o w := give w o
  between := advance

end Contract

/-- A vault that was just constructed, at whatever balances. No transaction is in the block of number zero. -/
structure Start (imm : Immutables) (w : World) : Prop where
  constructed : ∃ registry feed feeSetter admin feedDecimals stablecoinDecimals,
    constructor imm.address registry imm.usdc feed imm.feedMaxStaleness imm.minEthUsd imm.maxEthUsd feeSetter
      admin feedDecimals stablecoinDecimals = .ok (imm, w.toStorage)
  history : w.history = []
  block : w.blockNumber ≠ 0

abbrev Event := CallStack.Event (Env × Call) Return Gift Header

/-- The vault under any interleaving of calls, answers and blocks. -/
def run (H : Hashes) (imm : Immutables) (w : World) (events : List Event) :
    CallStack.Configuration World Waiting := CallStack.run (contract H imm) w events

end Trustgraphs.ProvingVault
