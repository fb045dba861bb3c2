import Trustgraphs.Lib.Outcome
import Trustgraphs.Lib.Text
import Trustgraphs.ZkCore.Words

/-!
# The types of the Nostr envelope (`nostr-envelope/src/nostr/mod.rs`, `event.rs`, `audit.rs`, `tgnw.rs`)

The signature scheme and the JSON parser come from outside the repository and are parameters:
`Schnorr` and `Json`.
-/

namespace Trustgraphs

/-- The numeric order on kinds, on top of the instances that `UInt16` already has. -/
instance UInt16.instLinearOrder : LinearOrder UInt16 where
  le_refl := UInt16.le_refl
  le_trans := fun _ _ _ => UInt16.le_trans
  le_antisymm := fun _ _ => UInt16.le_antisymm
  le_total := UInt16.le_total
  lt_iff_le_not_ge := fun a b => by simp only [UInt16.lt_iff_toNat_lt, UInt16.le_iff_toNat_le]; omega
  toDecidableLE := inferInstance
  toDecidableLT := inferInstance
  toDecidableEq := inferInstance
  compare_eq_compareOfLessAndEq := fun _ _ => rfl

namespace Nostr

open Text (Str)

inductive CommitmentVariant where
  | buzzAuditV1
  | selfLogV1
deriving DecidableEq

def CommitmentVariant.toUInt8 : CommitmentVariant → UInt8
  | .buzzAuditV1 => 1
  | .selfLogV1 => 2

/-- A signed event. -/
@[ext]
structure NostrEvent where
  id : B256
  pubkey : B256
  created_at : UInt64
  kind : UInt16
  tags : List (List Str)
  content : Str
  sig : Bytes
deriving DecidableEq

@[ext]
structure AuditEntry where
  sequence : UInt64
  hash : B256
  previous_hash : Option B256
  action : UInt8
  actor_pubkey : Option B256
  object_id : Option Str
  created_at : Str
  detail : Str
deriving DecidableEq

/-- A bundle of events with its audit trail. -/
@[ext]
structure TgnwBundle where
  variant : CommitmentVariant
  community_id : FixedBytes 16
  instance_domain : B256
  authority : B256
  audit : List AuditEntry
  events : List NostrEvent
  head_event : Option NostrEvent
deriving DecidableEq

/-- The bounds that a decoder is given. -/
structure NostrLimits where
  envelope_bytes : UInt32
  selected_heads : UInt32
  audit_entries : UInt32
  events : UInt32
  encoded_event_bytes : UInt32
  content_bytes : UInt32
  tags_per_event : UInt32
  elements_per_tag : UInt32
  tag_string_bytes : UInt32
  all_tag_strings_bytes : UInt32
  audit_detail_bytes : UInt32
  nip01_signatures : UInt32
  oa_signatures : UInt32
deriving DecidableEq

inductive NostrError where
  | malformed
  | unsupportedVariant
  | variantNotAllowed
  | limitExceeded
  | trailingBytes
  | nonCanonicalEncoding
  | nonCanonicalAuditDetail
  | identityMismatch
  | dataCommitmentMismatch
  | headMismatch
  | countMismatch
  | auditSequence
  | auditPreviousHash
  | auditHash
  | unknownAuditAction
  | badAuditDetail
  | missingEvent
  | duplicateEvent
  | unexpectedDirectEvent
  | badEventId
  | badEventSignature
  | badOa
  | badRoster
  | badSelfLogHead
deriving DecidableEq

namespace NostrLimits

/-- The limits that no instance may exceed. -/
def HARD : NostrLimits where
  envelope_bytes := 12582912
  selected_heads := 129
  audit_entries := 4096
  events := 512
  encoded_event_bytes := 131072
  content_bytes := 65536
  tags_per_event := 64
  elements_per_tag := 8
  tag_string_bytes := 1024
  all_tag_strings_bytes := 16384
  audit_detail_bytes := 4096
  nip01_signatures := 640
  oa_signatures := 256

def validate (l : NostrLimits) : Except NostrError Unit :=
  let hard := HARD
  if l.envelope_bytes > hard.envelope_bytes
    ∨ l.selected_heads > hard.selected_heads
    ∨ l.audit_entries > hard.audit_entries
    ∨ l.events > hard.events
    ∨ l.encoded_event_bytes > hard.encoded_event_bytes
    ∨ l.content_bytes > hard.content_bytes
    ∨ l.tags_per_event > hard.tags_per_event
    ∨ l.elements_per_tag > hard.elements_per_tag
    ∨ l.tag_string_bytes > hard.tag_string_bytes
    ∨ l.all_tag_strings_bytes > hard.all_tag_strings_bytes
    ∨ l.audit_detail_bytes > hard.audit_detail_bytes
    ∨ l.nip01_signatures > hard.nip01_signatures
    ∨ l.oa_signatures > hard.oa_signatures then .error .limitExceeded
  else .ok ()

end NostrLimits

inductive SkipReason where
  | malformedEvent
  | unknownKind
  | oaMalformed
  | oaInvalidSignature
  | oaWindowViolation
  | oaSelfOwned
  | oaAmbiguous
  | lwwSuperseded
  | deletionTombstoned
  | invalidDeletion
  | rosterNonMember
deriving DecidableEq

inductive EventDisposition where
  | accepted
  | skipped (reason : SkipReason)
deriving DecidableEq

/-- An event with what was decided about it. -/
structure EventOutcome where
  event : NostrEvent
  oa_owner : Option B256
  disposition : EventDisposition
deriving DecidableEq

/-- BIP-340 signatures, as the library checks them. -/
structure Schnorr where
  /-- Whether 32 bytes are a verifying key. -/
  keyOk : B256 → Bool
  /-- Whether 64 bytes are a signature. -/
  signatureOk : Bytes → Bool
  /-- Whether a signature is one of the key over a digest. -/
  verifyPrehash : B256 → B256 → Bytes → Bool

inductive Value where
  | null
  | bool (b : Bool)
  /-- A number by its text, and by its value when it is a `u64`. -/
  | number (text : Bytes) (asU64 : Option UInt64)
  | string (s : Bytes)
  | array (values : List Value)
  | object (fields : List (Bytes × Value))

structure Json where
  fromStr : Bytes → Option Value
  /-- The text of a string. -/
  quote : Bytes → Option Bytes
  /-- The text of a value that is neither array nor object. -/
  scalar : Value → Option Bytes

/-- Whether the first element of a tag is `name`. -/
def tagNamed (name : String) (tag : List Str) : Bool :=
  match tag with
  | [] => false
  | first :: _ => first.bytes = utf8 name

end Nostr

end Trustgraphs
