import Trustgraphs.NostrEnvelope.Types

/-!
# Events (`nostr-envelope/src/nostr/event.rs`)
-/

namespace Trustgraphs.Nostr

open Text (Str)

def escapeByte (byte : UInt8) : Bytes :=
  if byte = 10 then utf8 "\\n"
  else if byte = 34 then utf8 "\\\""
  else if byte = 92 then utf8 "\\\\"
  else if byte = 13 then utf8 "\\r"
  else if byte = 9 then utf8 "\\t"
  else if byte = 8 then utf8 "\\b"
  else if byte = 12 then utf8 "\\f"
  else if byte ≤ 0x1f then
    utf8 "\\u00" ++ [Text.hexDigit (byte.toNat / 16), Text.hexDigit (byte.toNat % 16)]
  else [byte]

def escapeJson (value : Str) : Bytes := value.bytes.flatMap escapeByte

/-- The value of a lowercase hexadecimal digit. -/
def nibble (value : UInt8) : Option UInt8 :=
  if 48 ≤ value ∧ value ≤ 57 then some (value - 48)
  else if 97 ≤ value ∧ value ≤ 102 then some (value - 97 + 10)
  else none

/-- The bytes of pairs of hexadecimal digits. -/
def hexPairs : Bytes → Option Bytes
  | high :: low :: rest => do
    let high ← nibble high
    let low ← nibble low
    let bytes ← hexPairs rest
    some ((high <<< 4 ||| low) :: bytes)
  | _ => some []

/-- `N` bytes from as many pairs of digits. -/
def decodeHexBytes (n : Nat) (value : Bytes) : Option (FixedBytes n) :=
  if value.length ≠ n * 2 then none
  else (hexPairs value).bind (FixedBytes.ofSlice n)

def decodeHex (n : Nat) (value : Str) : Except NostrError (FixedBytes n) :=
  match decodeHexBytes n value.bytes with
  | some bytes => .ok bytes
  | none => .error .malformed

def commas : List Bytes → Bytes
  | [] => []
  | [item] => item
  | item :: items => item ++ utf8 "," ++ commas items

def quoted (value : Str) : Bytes := utf8 "\"" ++ escapeJson value ++ utf8 "\""

/-- The text whose hash is an event's identifier. -/
def nip01Preimage (event : NostrEvent) : Bytes :=
  utf8 "[0,\"" ++ Text.encodeHex event.pubkey.bytes ++ utf8 "\"," ++
    Text.decimal event.created_at.toNat ++ utf8 "," ++ Text.decimal event.kind.toNat ++ utf8 ",[" ++
    commas (event.tags.map fun tag => utf8 "[" ++ commas (tag.map quoted) ++ utf8 "]") ++
    utf8 "]," ++ quoted event.content ++ utf8 "]"

/-- Whether the id and the signature of an event are right. -/
def verify (H : Hashes) (S : Schnorr) (event : NostrEvent) : Except NostrError Unit :=
  let id := H.sha256 (nip01Preimage event)
  if id ≠ event.id then .error .badEventId
  else if S.keyOk event.pubkey = false then .error .badEventSignature
  else if event.sig.length ≠ 64 then .error .badEventSignature
  else if S.signatureOk event.sig = false then .error .badEventSignature
  else if S.verifyPrehash event.pubkey id event.sig = false then .error .badEventSignature
  else .ok ()

end Trustgraphs.Nostr

/-! ## Delegation (`nostr-envelope/src/nostr/oa.rs`) -/

namespace Trustgraphs.Nostr

open Text

open Text (Str)

/-- A decimal number without leading zeros. -/
def canonicalDecimal (value : Bytes) (maximum : Nat) : Option Nat :=
  if value = [] ∨ (1 < value.length ∧ startsWith [48] value = true) ∨ value.all isDigit = false then none
  else if digitsValue value < 2 ^ 64 ∧ digitsValue value ≤ maximum then some (digitsValue value)
  else none

def isAsciiWhitespace (byte : UInt8) : Bool := byte = 32 || byte = 9 || byte = 10 || byte = 12 || byte = 13

/-- A clause of the conditions holds of the event. -/
def clauseApplies (kind : UInt16) (created_at : UInt64) (clause : Bytes) : Bool :=
  match stripPrefix (utf8 "kind=") clause with
  | some value => canonicalDecimal value 65535 = some kind.toNat
  | none =>
    match stripPrefix (utf8 "created_at<") clause with
    | some value => (canonicalDecimal value 4294967295).any fun bound => created_at.toNat < bound
    | none =>
      match stripPrefix (utf8 "created_at>") clause with
      | some value => (canonicalDecimal value 4294967295).any fun bound => bound < created_at.toNat
      | none => false

/-- Every clause of the conditions holds. -/
def conditionsApply (conditions : Str) (kind : UInt16) (created_at : UInt64) : Bool :=
  if conditions.bytes = [] then true
  else if conditions.bytes.any isAsciiWhitespace then false
  else (split 38 conditions.bytes).all (clauseApplies kind created_at)

/-- The owner that a delegation tag names, when the tag is one for this agent and event. -/
def verifyTag (H : Hashes) (S : Schnorr) (tag : List Str) (agent : B256) (kind : UInt16)
    (created_at : UInt64) : Except SkipReason B256 :=
  match tag with
  | [name, owner, conditions, signature] =>
    if name.bytes ≠ utf8 "auth" then .error .oaMalformed
    else match decodeHex 32 owner with
      | .error _ => .error .oaMalformed
      | .ok owner =>
        if owner = agent then .error .oaSelfOwned
        else if conditionsApply conditions kind created_at = false then .error .oaWindowViolation
        else match decodeHex 64 signature with
          | .error _ => .error .oaMalformed
          | .ok signature =>
            let preimage := utf8 "nostr:agent-auth:" ++ encodeHex agent.bytes ++ utf8 ":" ++
              conditions.bytes
            let digest := H.sha256 preimage
            if S.keyOk owner = false then .error .oaInvalidSignature
            else if S.signatureOk signature.bytes = false then .error .oaInvalidSignature
            else if S.verifyPrehash owner digest signature.bytes = false then .error .oaInvalidSignature
            else .ok owner
  | _ => .error .oaMalformed

/-- The owner that an event delegates from, if any. -/
def ownerForEvent (H : Hashes) (S : Schnorr) (event : NostrEvent) : Except SkipReason (Option B256) :=
  match event.tags.filter (tagNamed "auth") with
  | [] => .ok none
  | [tag] => (verifyTag H S tag event.pubkey event.kind event.created_at).map some
  | _ => .error .oaAmbiguous

end Trustgraphs.Nostr

/-! ## Audit rows (`nostr-envelope/src/nostr/audit.rs`) -/

namespace Trustgraphs.Nostr

open Text (Str)

def actionName (code : UInt8) : Except NostrError Bytes :=
  match code with
  | 0 => .ok (utf8 "event_created")
  | 1 => .ok (utf8 "event_deleted")
  | 2 => .ok (utf8 "channel_created")
  | 3 => .ok (utf8 "channel_updated")
  | 4 => .ok (utf8 "channel_deleted")
  | 5 => .ok (utf8 "member_added")
  | 6 => .ok (utf8 "member_removed")
  | 7 => .ok (utf8 "auth_success")
  | 8 => .ok (utf8 "auth_failure")
  | 9 => .ok (utf8 "rate_limit_exceeded")
  | 10 => .ok (utf8 "media_uploaded")
  | _ => .error .unknownAuditAction

/-! ## Canonical JSON -/

mutual

/-- The canonical text of a value: fields in the order of their keys and no blanks. -/
def canonicalJsonValue (J : Json) : Value → Option Bytes
  | .object fields => do
    let texts ← canonicalFields J fields
    let sorted := texts.mergeSort fun a b => decide (a.1 ≤ b.1)
    some (utf8 "\x7b" ++ commas (sorted.map Prod.snd) ++ utf8 "\x7d")
  | .array values => do
    let texts ← canonicalValues J values
    some (utf8 "[" ++ commas texts ++ utf8 "]")
  | .null => J.scalar .null
  | .bool b => J.scalar (.bool b)
  | .number text asU64 => J.scalar (.number text asU64)
  | .string s => J.scalar (.string s)

/-- The texts of fields, with their keys. -/
def canonicalFields (J : Json) : List (Bytes × Value) → Option (List (Bytes × Bytes))
  | [] => some []
  | (key, value) :: fields => do
    let quotedKey ← J.quote key
    let text ← canonicalJsonValue J value
    let texts ← canonicalFields J fields
    some ((key, quotedKey ++ utf8 ":" ++ text) :: texts)

def canonicalValues (J : Json) : List Value → Option (List Bytes)
  | [] => some []
  | value :: values => do
    let text ← canonicalJsonValue J value
    let texts ← canonicalValues J values
    some (text :: texts)

end

/-- The text is canonical JSON already. -/
def requireCanonicalJson (J : Json) (input : Str) : Except NostrError Unit :=
  match J.fromStr input.bytes with
  | none => .error .malformed
  | some value =>
    match canonicalJsonValue J value with
    | none => .error .malformed
    | some canonical => if canonical ≠ input.bytes then .error .nonCanonicalAuditDetail else .ok ()

end Trustgraphs.Nostr
