import Trustgraphs.Contracts.SafeAction
import Trustgraphs.Lib.CallStack
import Trustgraphs.Lib.Timelock

/-!
# The recovery module (`contracts/src/zodiac/DelayedRecoveryModule.sol`)

A function of the contract takes the state to the next one, or to the error it reverts with. `execute`
is the part up to the call of the Safe: what the Safe calls back are further inputs of a run, and a
failure of the Safe takes the state of before the call back (`CallStack`).
-/

namespace Trustgraphs.DelayedRecoveryModule

def MIN_DELAY : U48 := 1209600

def EXECUTION_WINDOW : U256 := 1209600

/-- The immutables, with the address of the contract itself. -/
structure Config where
  self : Address
  safe : Address
  delay : U48

structure State where
  proposer : Address
  nextNonce : U256
  proposerGeneration : U256
  readyAt : B256 → U256

/-- The errors of the contract; a checked addition that overflows panics. -/
inductive Error where
  | zeroAddress
  | delayTooShort (supplied minimum : U48)
  | onlyProposer (caller : Address)
  | onlySafe (caller : Address)
  | notAuthorizedToCancel (caller : Address)
  | unknownAction (actionId : B256)
  | recoveryDelayNotElapsed (actionId : B256) (readyAt : U256)
  | recoveryExpired (actionId : B256) (expiresAt : U256)
  | panic
deriving DecidableEq

def add (a b : U256) : Except Error U256 := (Checked.add a b).elim (.error .panic) .ok

def constructor (self safe_ proposer_ : Address) (delay_ : U48) : Except Error (Config × State) :=
  if safe_ = 0 ∨ proposer_ = 0 then .error .zeroAddress
  else if delay_ < MIN_DELAY then .error (.delayTooShort delay_ MIN_DELAY)
  else .ok (⟨self, safe_, delay_⟩, ⟨proposer_, 0, 0, fun _ => 0⟩)

/-- The identifier of an action in this generation of the proposer. -/
def hashAction (H : Hashes) (c : Config) (msg : Msg) (s : State) (nonce : U256) (a : SafeAction) : B256 :=
  H.keccak256 (actionPreimage H msg.chainId c.self s.proposerGeneration nonce a)

/-- The proposer announces an action. -/
def schedule (H : Hashes) (c : Config) (msg : Msg) (s : State) (a : SafeAction) :
    Except Error (State × B256) := do
  if msg.sender ≠ s.proposer then .error (.onlyProposer msg.sender)
  else if a.target = 0 then .error .zeroAddress
  else
    let nonce := s.nextNonce
    let nextNonce ← add s.nextNonce 1
    let s := { s with nextNonce := nextNonce }
    let actionId := hashAction H c msg s nonce a
    let executableAt ← add msg.blockTimestamp (c.delay.setWidth 256)
    .ok ({ s with readyAt := Function.update s.readyAt actionId executableAt }, actionId)

/-- Execute a queued action after its delay, up to the call of the Safe. -/
def execute (H : Hashes) (c : Config) (msg : Msg) (s : State) (nonce : U256) (a : SafeAction) :
    Except Error State := do
  let actionId := hashAction H c msg s nonce a
  let executableAt := s.readyAt actionId
  if executableAt = 0 then .error (.unknownAction actionId)
  else if msg.blockTimestamp < executableAt then .error (.recoveryDelayNotElapsed actionId executableAt)
  else
    let expiresAt ← add executableAt EXECUTION_WINDOW
    if expiresAt < msg.blockTimestamp then .error (.recoveryExpired actionId expiresAt)
    else .ok { s with readyAt := Function.update s.readyAt actionId 0 }

/-- The proposer or the Safe cancels what is queued. -/
def cancel (c : Config) (msg : Msg) (s : State) (actionId : B256) : Except Error State :=
  if msg.sender ≠ s.proposer ∧ msg.sender ≠ c.safe then .error (.notAuthorizedToCancel msg.sender)
  else if s.readyAt actionId = 0 then .error (.unknownAction actionId)
  else .ok { s with readyAt := Function.update s.readyAt actionId 0 }

/-- Rotate the proposer and outdate every action of the previous generation. -/
def setProposer (c : Config) (msg : Msg) (s : State) (newProposer : Address) : Except Error State := do
  if msg.sender ≠ c.safe then .error (.onlySafe msg.sender)
  else if newProposer = 0 then .error .zeroAddress
  else
    let generation ← add s.proposerGeneration 1
    .ok { s with proposer := newProposer, proposerGeneration := generation }

/-! ## Runs -/

/-- The external functions that change the state. -/
inductive Call where
  | schedule (a : SafeAction)
  | execute (nonce : U256) (a : SafeAction)
  | cancel (actionId : B256)
  | setProposer (newProposer : Address)

/-- What an entry of the log is about: a Safe action on a chain. -/
abbrev Log := Timelock.Log Address (U256 × SafeAction) B256

/-- The action as the timelock's books name it. -/
def ticket (msg : Msg) (s : State) (nonce : U256) (a : SafeAction) : Timelock.Ticket (U256 × SafeAction) :=
  ⟨s.proposerGeneration.toNat, nonce.toNat, (msg.chainId, a)⟩

/-- A call on the state and the log of what has happened, `none` when it reverts. The flag says that
the call goes on to call the Safe. -/
def call (H : Hashes) (c : Config) (i : Msg × Call) (s : State × Log) : Option ((State × Log) × Bool) :=
  let (msg, f) := i
  let (s, log) := s
  match f with
  | .schedule a => match schedule H c msg s a with
    | .ok (s', _) => some ((s', log ++ [.scheduled msg.sender (ticket msg s s.nextNonce a)
        msg.blockTimestamp.toNat]), false)
    | .error _ => none
  | .execute nonce a => match execute H c msg s nonce a with
    | .ok s' => some ((s', log ++ [.executed (ticket msg s nonce a) msg.blockTimestamp.toNat]), true)
    | .error _ => none
  | .cancel actionId => match cancel c msg s actionId with
    | .ok s' => some ((s', log ++ [.cancelled actionId]), false)
    | .error _ => none
  | .setProposer newProposer => match setProposer c msg s newProposer with
    | .ok s' => some ((s', log ++ [.rotated newProposer]), false)
    | .error _ => none

abbrev Event := CallStack.Event (Msg × Call) Unit Empty Empty

/-- The module after a sequence of calls, re-entrant ones included. -/
def run (H : Hashes) (c : Config) (s : State) (events : List Event) : CallStack.Configuration (State × Log) Unit :=
  CallStack.run (CallStack.relaying (call H c)) (s, []) events

end Trustgraphs.DelayedRecoveryModule
