import Trustgraphs.Lib.BTree
import Trustgraphs.NostrEnvelope.Event

/-!
# State resolution (`nostr-envelope/src/nostr/state.rs`)

`resolveWith` runs the three passes of the source over the outcomes: eligibility, replacement and
deletion. The owner function may carry a state; `resolve` uses the plain one.
-/

namespace Trustgraphs.Nostr

open Text (Str)

def relevantKind (kind : UInt16) : Bool :=
  kind = 5 || kind = 1617 || kind = 1618 || (1630 ≤ kind && kind ≤ 1633) || kind = 13534 ||
    (36382 ≤ kind && kind ≤ 36384) || (43001 ≤ kind && kind ≤ 43006) ||
    (45001 ≤ kind && kind ≤ 45003)

def dTag (event : NostrEvent) : Option Str :=
  match event.tags.filter (tagNamed "d") with
  | [[_, value]] => some value
  | _ => none

/-- What identifies the versions of a replaceable event. -/
abbrev ReplacementKey := UInt16 ×ₗ B256 ×ₗ Bytes

def addressable (kind : UInt16) : Bool := 30000 ≤ kind && kind < 40000

/-- The key under which a later event replaces an earlier one. -/
def replacementKey (event : NostrEvent) : Option ReplacementKey :=
  if 10000 ≤ event.kind ∧ event.kind < 20000 then some (toLex (event.kind, toLex (event.pubkey, [])))
  else if addressable event.kind then
    (dTag event).map fun d => toLex (event.kind, toLex (event.pubkey, d.bytes))
  else none

/-- The later event wins, at equal dates the smaller id. -/
def winsOver (candidate current : NostrEvent) : Bool :=
  current.created_at < candidate.created_at ||
    (candidate.created_at = current.created_at && candidate.id < current.id)

def parseCoordinate (value : Str) : Option (UInt16 × B256 × Bytes) := do
  let (kind, rest) ← Text.splitOnce 58 value.bytes
  let kind ← Text.parseUnsigned 65535 kind
  let (pubkey, d) ← Text.splitOnce 58 rest
  let pubkey ← decodeHexBytes 32 pubkey
  some (UInt16.ofNat kind, pubkey, d)

/-! ## The roster -/

def memberRole (role : Str) : Bool :=
  role.bytes = utf8 "owner" || role.bytes = utf8 "admin" || role.bytes = utf8 "member"

def rosterMember (tag : List Str) : Option B256 :=
  match tag with
  | [name, member, role] =>
    if name.bytes = utf8 "member" ∧ memberRole role = true then
      match decodeHex 32 member with
      | .ok member => some member
      | .error _ => none
    else none
  | _ => none

/-- The members of a roster event, `none` when it is not in the form of one. -/
def rosterMembers (event : NostrEvent) (relay : B256) : Option (List B256) := do
  if event.pubkey ≠ relay ∨ event.content.bytes ≠ [] then none
  else match event.tags with
    | [dash] :: memberTags => do
      if dash.bytes ≠ utf8 "-" then none
      else
        let members ← memberTags.mapM rosterMember
        if members.Nodup ∧ members ≠ [] then some members else none
    | _ => none

/-- The latest version among roster events. -/
def latest : List NostrEvent → Option NostrEvent
  | [] => none
  | first :: rest =>
    some (rest.foldl (fun winner candidate =>
      if winsOver candidate winner then candidate else winner) first)

/-- The members of the winning roster event; every one of them has to be in form. -/
def roster (events : List NostrEvent) (relay : B256) : Except NostrError (BTreeSet B256) :=
  let rosters := events.filter fun event => event.kind = 13534
  if rosters = [] ∨ rosters.any (fun event => (rosterMembers event relay).isNone) then .error .badRoster
  else
    match (latest rosters).bind (rosterMembers · relay) with
    | some members => .ok (BTreeSet.ofList members)
    | none => .error .badRoster

/-! ## Eligibility -/

section Resolve

variable {σ : Type}
  (ownerForEvent : σ → NostrEvent → Except SkipReason (Option B256) × σ)

/-- The disposition of an event by its kind, its author and its owner. -/
def classify (roster : BTreeSet B256) (s : σ) (event : NostrEvent) : EventOutcome × σ :=
  if addressable event.kind = true ∧ (dTag event).isNone = true then
    (⟨event, none, .skipped .malformedEvent⟩, s)
  else if relevantKind event.kind = false then (⟨event, none, .skipped .unknownKind⟩, s)
  else if event.kind = 13534 then (⟨event, none, .accepted⟩, s)
  else
    let (result, s) := ownerForEvent s event
    match result with
    | .ok (some owner) =>
      if owner ∈ roster then (⟨event, some owner, .accepted⟩, s)
      else (⟨event, none, .skipped .rosterNonMember⟩, s)
    | .ok none =>
      if event.pubkey ∈ roster then (⟨event, none, .accepted⟩, s)
      else (⟨event, none, .skipped .rosterNonMember⟩, s)
    | .error reason => (⟨event, none, .skipped reason⟩, s)

/-- The outcome of each event, in the order of the bundle. -/
def classifyAll (roster : BTreeSet B256) : σ → List NostrEvent → List EventOutcome × σ
  | s, [] => ([], s)
  | s, event :: events =>
    let (outcome, s) := classify ownerForEvent roster s event
    let (outcomes, s) := classifyAll roster s events
    (outcome :: outcomes, s)

/-! ## Replacement -/

/-- Give the outcome at `index` another disposition. -/
def setDisposition (outcomes : List EventOutcome) (index : Nat) (disposition : EventDisposition) :
    List EventOutcome :=
  outcomes.modify index fun outcome => { outcome with disposition := disposition }

/-- One round of the replacement pass, on the outcomes and the winner of every key. -/
def replaceStep (st : List EventOutcome × BTreeMap ReplacementKey Nat) (index : Nat) :
    List EventOutcome × BTreeMap ReplacementKey Nat :=
  let (outcomes, winners) := st
  match outcomes[index]? with
  | none => st
  | some outcome =>
    if outcome.disposition ≠ .accepted then st
    else match replacementKey outcome.event with
      | none => st
      | some key =>
        match winners[key]? with
        | none => (outcomes, winners.insert key index)
        | some current =>
          match outcomes[current]? with
          | none => st
          | some winner =>
            if winsOver outcome.event winner.event then
              (setDisposition outcomes current (.skipped .lwwSuperseded), winners.insert key index)
            else (setDisposition outcomes index (.skipped .lwwSuperseded), winners)

/-- Among accepted events the winner of each key stays. -/
def replaceAll (outcomes : List EventOutcome) : List EventOutcome :=
  ((List.range outcomes.length).foldl replaceStep (outcomes, ∅)).1

/-! ## Deletion -/

/-- What a deletion is aimed at: an id, or the versions under a coordinate up to its own time. -/
inductive DeletionTarget where
  | id (target_id : B256)
  | coordinate (kind : UInt16) (d : Bytes)
deriving DecidableEq

/-- The target of a deletion event: its only tag names it. -/
def deletionTarget (deletion : NostrEvent) : Option DeletionTarget :=
  match deletion.tags with
  | [[name, value]] =>
    if name.bytes = utf8 "e" then
      match decodeHex 32 value with
      | .ok target_id => some (.id target_id)
      | .error _ => none
    else if name.bytes = utf8 "a" then
      match parseCoordinate value with
      | some (kind, pubkey, d) => if pubkey = deletion.pubkey then some (.coordinate kind d) else none
      | none => none
    else none
  | _ => none

/-- Whether a deletion is aimed at an event. -/
def targets (deletion target : NostrEvent) : Bool :=
  target.pubkey = deletion.pubkey &&
    match deletionTarget deletion with
    | some (.id target_id) => target.id = target_id
    | some (.coordinate kind d) =>
      target.kind = kind && (dTag target).map Str.bytes = some d &&
        target.created_at ≤ deletion.created_at
    | none => false

/-- Whether the outcome at `index` is hit by the deletion at `deletionIndex`. -/
def hit (deletion : NostrEvent) (deletionIndex index : Nat) (outcome : EventOutcome) : Bool :=
  index ≠ deletionIndex && targets deletion outcome.event

/-- One deletion at its targets; one without a target is invalid. -/
def deleteStep (outcomes : List EventOutcome) (deletionIndex : Nat) : List EventOutcome :=
  match outcomes[deletionIndex]? with
  | none => outcomes
  | some outcome =>
    if outcome.event.kind ≠ 5 ∨ outcome.disposition ≠ .accepted then outcomes
    else if outcomes.zipIdx.any (fun p => hit outcome.event deletionIndex p.2 p.1) then
      outcomes.mapIdx fun index target =>
        if hit outcome.event deletionIndex index target then
          { target with disposition := .skipped .deletionTombstoned }
        else target
    else setDisposition outcomes deletionIndex (.skipped .invalidDeletion)

def deleteAll (outcomes : List EventOutcome) : List EventOutcome :=
  (List.range outcomes.length).foldl deleteStep outcomes

/-- The outcomes of a list of events, and the roster. -/
def resolveWith (s : σ) (events : List NostrEvent) (relay : B256) :
    Except NostrError (List EventOutcome × BTreeSet B256) × σ :=
  match roster events relay with
  | .error e => (.error e, s)
  | .ok members =>
    let (outcomes, s) := classifyAll ownerForEvent members s events
    (.ok (deleteAll (replaceAll outcomes), members), s)

end Resolve

/-- `resolveWith` the plain owner function. -/
def resolve (H : Hashes) (S : Schnorr) (events : List NostrEvent) (relay : B256) :
    Except NostrError (List EventOutcome × BTreeSet B256) :=
  (resolveWith (fun s event => (Nostr.ownerForEvent H S event, s)) () events relay).1

end Trustgraphs.Nostr
