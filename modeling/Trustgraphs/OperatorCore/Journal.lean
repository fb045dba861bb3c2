import Trustgraphs.Lib.JsonText
import Trustgraphs.ZkCore.Words

/-!
# The request journal (`operator-core/src/journal.rs`)

An append-only file of JSON lines. What was requested is known after a restart from replaying it. The parser of
the lines is a parameter.
-/

namespace Trustgraphs.OperatorCore

open JsonText

open Text (Str)

/-- What a piece of work is known by. -/
structure WorkKey where
  chainId : UInt64
  instanceId : B256
  checkpointId : UInt64
deriving DecidableEq

inductive SubmitFailureClass where
  | estimateRevert
  | simulationRevert
  | receiptRevert
deriving DecidableEq

/-- How a submission ended. -/
inductive Outcome where
  | landed
  | superseded
  | failed
  | cancelled
deriving DecidableEq

/-- One line of the journal. `time` is the field `at` of the source. -/
inductive Record where
  | intent (key : WorkKey) (publicValuesHash vkHash : B256) (time costCents : UInt64) (costModelVersion : UInt16)
      (estimatedCycles : UInt64) (maxIterations iterationsRun : UInt32)
  | requested (key : WorkKey) (requestId : B256) (time : UInt64)
  | settled (key : WorkKey) (outcome : Outcome) (time : UInt64)
  | resolved (key : WorkKey) (requestId : Option B256) (time : UInt64)
  | submitGas (key : WorkKey) (reverted : Bool) (costCents time : UInt64)
  | submitPending (key : WorkKey) (txHash : B256) (blockNumber : UInt64) (blockHash : B256)
      (confirmations costCents time : UInt64)
  | submitReorged (key : WorkKey) (txHash : B256) (time : UInt64)
  | submitFailure (key : WorkKey) (failureClass : SubmitFailureClass) (time : UInt64)
  | abandoned (key : WorkKey) (failureClass : SubmitFailureClass) (attempts : UInt32) (time : UInt64)
  | publicationAttempt (key : WorkKey) (cid : Str) (policyHash : B256) (successes required : UInt32)
      (failures : List Str) (time : UInt64)
  | published (key : WorkKey) (cid : Str) (policyHash : B256) (successes required : UInt32) (time : UInt64)
  | compositionAvailabilityAttempt (chainId : UInt64) (instanceId : B256)
    (checkpointId : Option UInt64) (error : Str)
      (time : UInt64)
deriving DecidableEq

/-- What the journal says about one unit of work. -/
inductive Status where
  | untouched
  | outcomeUnknown (publicValuesHash vkHash : B256) (since : UInt64)
  | inFlight (requestId : B256)
  | settled (outcome : Outcome)
  | abandoned (failureClass : SubmitFailureClass) (attempts : UInt32)
deriving DecidableEq

/-! ## Lines -/

namespace Json

def number (n : Nat) : Bytes := Text.decimal n

def string (s : String) : Bytes := quote (utf8 s)

def hash (h : B256) : Bytes := quote (utf8 "0x" ++ Text.encodeHex h.bytes)

def bool (b : Bool) : Bytes := utf8 (if b then "true" else "false")

def option {α : Type} (f : α → Bytes) : Option α → Bytes
  | none => utf8 "null"
  | some a => f a

end Json

def WorkKey.toJson (key : WorkKey) : Bytes :=
  object [(utf8 "chain_id", Json.number key.chainId.toNat), (utf8 "instance_id", Json.hash key.instanceId),
    (utf8 "checkpoint_id", Json.number key.checkpointId.toNat)]

def SubmitFailureClass.toJson : SubmitFailureClass → Bytes
  | .estimateRevert => Json.string "estimate_revert"
  | .simulationRevert => Json.string "simulation_revert"
  | .receiptRevert => Json.string "receipt_revert"

def Outcome.toJson : Outcome → Bytes
  | .landed => Json.string "landed"
  | .superseded => Json.string "superseded"
  | .failed => Json.string "failed"
  | .cancelled => Json.string "cancelled"

namespace Record

def kind : Record → String
  | intent .. => "intent"
  | requested .. => "requested"
  | settled .. => "settled"
  | resolved .. => "resolved"
  | submitGas .. => "submit_gas"
  | submitPending .. => "submit_pending"
  | submitReorged .. => "submit_reorged"
  | submitFailure .. => "submit_failure"
  | abandoned .. => "abandoned"
  | publicationAttempt .. => "publication_attempt"
  | published .. => "published"
  | compositionAvailabilityAttempt .. => "composition_availability_attempt"

/-- The fields of a record with their texts. -/
def fields : Record → List (Bytes × Bytes)
  | intent key publicValuesHash vkHash time costCents costModelVersion estimatedCycles maxIterations
      iterationsRun =>
    [(utf8 "key", key.toJson), (utf8 "public_values_hash", Json.hash publicValuesHash),
      (utf8 "vk_hash", Json.hash vkHash), (utf8 "at", Json.number time.toNat),
      (utf8 "cost_cents", Json.number costCents.toNat),
      (utf8 "cost_model_version", Json.number costModelVersion.toNat),
      (utf8 "estimated_cycles", Json.number estimatedCycles.toNat),
      (utf8 "max_iterations", Json.number maxIterations.toNat),
      (utf8 "iterations_run", Json.number iterationsRun.toNat)]
  | requested key requestId time =>
    [(utf8 "key", key.toJson), (utf8 "request_id", Json.hash requestId), (utf8 "at", Json.number time.toNat)]
  | settled key outcome time =>
    [(utf8 "key", key.toJson), (utf8 "outcome", outcome.toJson), (utf8 "at", Json.number time.toNat)]
  | resolved key requestId time =>
    [(utf8 "key", key.toJson), (utf8 "request_id", Json.option Json.hash requestId),
      (utf8 "at", Json.number time.toNat)]
  | submitGas key reverted costCents time =>
    [(utf8 "key", key.toJson), (utf8 "reverted", Json.bool reverted),
      (utf8 "cost_cents", Json.number costCents.toNat),
      (utf8 "at", Json.number time.toNat)]
  | submitPending key txHash blockNumber blockHash confirmations costCents time =>
    [(utf8 "key", key.toJson), (utf8 "tx_hash", Json.hash txHash),
      (utf8 "block_number", Json.number blockNumber.toNat), (utf8 "block_hash", Json.hash blockHash),
      (utf8 "confirmations", Json.number confirmations.toNat), (utf8 "cost_cents", Json.number costCents.toNat),
      (utf8 "at", Json.number time.toNat)]
  | submitReorged key txHash time =>
    [(utf8 "key", key.toJson), (utf8 "tx_hash", Json.hash txHash), (utf8 "at", Json.number time.toNat)]
  | submitFailure key failureClass time =>
    [(utf8 "key", key.toJson), (utf8 "class", failureClass.toJson), (utf8 "at", Json.number time.toNat)]
  | abandoned key failureClass attempts time =>
    [(utf8 "key", key.toJson), (utf8 "class", failureClass.toJson), (utf8 "attempts", Json.number attempts.toNat),
      (utf8 "at", Json.number time.toNat)]
  | publicationAttempt key cid policyHash successes required failures time =>
    [(utf8 "key", key.toJson), (utf8 "cid", quote cid.bytes), (utf8 "policy_hash", Json.hash policyHash),
      (utf8 "successes", Json.number successes.toNat), (utf8 "required", Json.number required.toNat),
      (utf8 "failures", array (failures.map fun failure => quote failure.bytes)),
      (utf8 "at", Json.number time.toNat)]
  | published key cid policyHash successes required time =>
    [(utf8 "key", key.toJson), (utf8 "cid", quote cid.bytes), (utf8 "policy_hash", Json.hash policyHash),
      (utf8 "successes", Json.number successes.toNat), (utf8 "required", Json.number required.toNat),
      (utf8 "at", Json.number time.toNat)]
  | compositionAvailabilityAttempt chainId instanceId checkpointId error time =>
    [(utf8 "chain_id", Json.number chainId.toNat), (utf8 "instance_id", Json.hash instanceId),
      (utf8 "checkpoint_id", Json.option (fun id : UInt64 => Json.number id.toNat) checkpointId),
      (utf8 "error", quote error.bytes), (utf8 "at", Json.number time.toNat)]

def toJson (record : Record) : Bytes := object ((utf8 "kind", Json.string record.kind) :: record.fields)

/-- A record's line. -/
def line (record : Record) : Bytes := record.toJson ++ [10]

end Record

/-- A line without the carriage return before its end. -/
def stripCarriageReturn (line : Bytes) : Bytes := if line.getLast? = some 13 then line.dropLast else line

/-- `BufRead::lines`: the lines of a text, the first of which has begun. -/
def lines (begun : Bytes) : Bytes → List Bytes
  | [] => if begun = [] then [] else [begun]
  | b :: rest => if b = 10 then stripCarriageReturn begun :: lines [] rest else lines (begun ++ [b]) rest

/-- Whether the bytes of a text are white space only. -/
def isBlank : Bytes → Bool
  | [] => true
  | 0xc2 :: 0x85 :: rest => isBlank rest
  | 0xc2 :: 0xa0 :: rest => isBlank rest
  | 0xe1 :: 0x9a :: 0x80 :: rest => isBlank rest
  | 0xe2 :: 0x81 :: 0x9f :: rest => isBlank rest
  | 0xe2 :: 0x80 :: b :: rest => ((0x80 ≤ b && b ≤ 0x8a) || b = 0xa8 || b = 0xa9 || b = 0xaf) && isBlank rest
  | 0xe3 :: 0x80 :: 0x80 :: rest => isBlank rest
  | b :: rest => ((9 ≤ b && b ≤ 13) || b = 32) && isBlank rest

/-! ## The journal -/

structure Journal where
  records : List Record
deriving DecidableEq

inductive JournalError where
  /-- The file does not read, or a line is not text. -/
  | io
  /-- The line is not a record. -/
  | parse (line : Nat)
deriving DecidableEq

/-- The loop over the lines, from an index on. A line that is not a record is an error. -/
def replay (fromStr : Bytes → Option Record) : Nat → List Bytes → Except JournalError (List Record)
  | _, [] => .ok []
  | i, line :: rest =>
    if !Text.validUtf8 line then .error .io
    else if isBlank line then replay fromStr (i + 1) rest
    else
      match fromStr line with
      | none => .error (.parse (i + 1))
      | some record => do
        let records ← replay fromStr (i + 1) rest
        .ok (record :: records)

namespace Journal

/-- `Journal::open`. There is no file before the first record. -/
def openFile (fromStr : Bytes → Option Record) (file : Bytes) : Except JournalError Journal := do
  let records ← replay fromStr 0 (lines [] file)
  .ok ⟨records⟩

/-- One more record. Its line is then in the file. -/
def append (journal : Journal) (record : Record) : Journal := ⟨journal.records ++ [record]⟩

end Journal

namespace Status

/-- The key is given up for good. -/
def isAbandoned : Status → Bool
  | abandoned .. => true
  | _ => false

/-- A status that an abandoned key does not leave. -/
def unlessAbandoned (status next : Status) : Status := if status.isAbandoned then status else next

/-- What a record does to the status of a key. -/
def apply (key : WorkKey) (status : Status) : Record → Status
  | .intent k publicValuesHash vkHash time _ _ _ _ _ =>
    if k = key then status.unlessAbandoned (outcomeUnknown publicValuesHash vkHash time) else status
  | .requested k requestId _ => if k = key then status.unlessAbandoned (inFlight requestId) else status
  | .resolved k (some requestId) _ => if k = key then status.unlessAbandoned (inFlight requestId) else status
  | .resolved k none _ => if k = key then status.unlessAbandoned untouched else status
  | .settled k outcome _ => if k = key then settled outcome else status
  | .abandoned k failureClass attempts _ => if k = key then abandoned failureClass attempts else status
  | _ => status

end Status

namespace Journal

/-- What the records say of a key. -/
def status (journal : Journal) (key : WorkKey) : Status := journal.records.foldl (Status.apply key) .untouched

/-- Whether a fresh proof request for a key is allowed. -/
def mayRequest (journal : Journal) (key : WorkKey) : Bool := journal.status key = .untouched

end Journal

/-! ## The file and the process -/

/-- The file and the process. -/
structure World where
  /-- What of the file a crash leaves. -/
  synced : Bytes
  /-- What was written behind it since. -/
  written : Bytes
  /-- The journal of the process, while one runs. -/
  journal : Option Journal

namespace World

def empty : World := ⟨[], [], none⟩

/-- What may happen to the journal, crashes included. -/
inductive Event where
  /-- A process starts, and replays the file. -/
  | start
  /-- A record is appended and synced. -/
  | append (record : Record)
  /-- An append fails after so many bytes. The process may go on. -/
  | appendFails (record : Record) (bytes : Nat)
  /-- The process ends, and so many bytes are left of those that were not synced. -/
  | crash (bytes : Nat)

def step (fromStr : Bytes → Option Record) (w : World) : Event → World
  | .start => { w with journal := (Journal.openFile fromStr (w.synced ++ w.written)).toOption }
  | .append record =>
    match w.journal with
    | none => w
    | some journal => ⟨w.synced ++ w.written ++ record.line, [], some (journal.append record)⟩
  | .appendFails record bytes =>
    match w.journal with
    | none => w
    | some _ => { w with written := w.written ++ record.line.take bytes }
  | .crash bytes => ⟨w.synced ++ w.written.take bytes, [], none⟩

def run (fromStr : Bytes → Option Record) (events : List Event) : World := events.foldl (step fromStr) empty

end World

end Trustgraphs.OperatorCore
