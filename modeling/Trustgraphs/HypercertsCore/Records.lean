import Trustgraphs.Envelopes.Commit

/-!
# Records (`hypercerts-core/src/records.rs`)

The typed decoding of the seven collections. A record of another shape is `none`, which the caller
skips.
-/

namespace Trustgraphs.Hypercerts

open Atproto (asString)

/-- A reference to one version of a record. -/
structure StrongRef where
  cid : Bytes
  uri : Bytes
deriving DecidableEq

inductive BadgeSubject where
  | did (d : Bytes)
  | ref (r : StrongRef)
deriving DecidableEq

structure Score where
  min : Bytes
  max : Bytes
  value : Bytes
deriving DecidableEq

structure Contributor where
  /-- Any string; only DIDs have a node. -/
  identity : Bytes
  /-- A decimal string. -/
  contributionWeight : Option Bytes
deriving DecidableEq

/-- The signed message of a binding; all its fields are strings in the record. -/
structure LinkEvmMessage where
  did : Bytes
  evmAddress : Bytes
  chainId : Bytes
  timestamp : Bytes
  nonce : Bytes
deriving DecidableEq

/-- The records that the round reads. -/
inductive Record where
  | follow (subjectDid createdAt : Bytes)
  /-- The badge refers to its definition. -/
  | badgeAward (badge : StrongRef) (subject : BadgeSubject) (createdAt : Bytes)
  | badgeResponse (badgeAward : StrongRef) (response : Bytes) (weight : Option Bytes)
      (createdAt : Bytes)
  | evaluation (subject : Option StrongRef) (score : Option Score) (createdAt : Bytes)
  | activity (contributors : List Contributor) (createdAt : Bytes)
  | acknowledgement (subject : StrongRef) (acknowledged : Bool) (createdAt : Bytes)
  /-- The signature is a hex string. -/
  | linkEvm (address : Bytes) (message : LinkEvmMessage) (signature createdAt : Bytes)
deriving DecidableEq

abbrev Fields := List (Bytes × Ipld)

def asMap : Ipld → Option Fields
  | .map m => some m
  | _ => none

def asBool : Ipld → Option Bool
  | .bool b => some b
  | _ => none

def getStr (m : Fields) (k : Bytes) : Option Bytes := (Ipld.get m k).bind asString

def getBool (m : Fields) (k : Bytes) : Option Bool := (Ipld.get m k).bind asBool

def getMap (m : Fields) (k : Bytes) : Option Fields := (Ipld.get m k).bind asMap

def readRef (r : Fields) : Option StrongRef := do some ⟨← getStr r (utf8 "cid"), ← getStr r (utf8 "uri")⟩

def getStrongref (m : Fields) (k : Bytes) : Option StrongRef := (getMap m k).bind readRef

/-- The subject of a badge award: a DID, also as a bare string, or a reference. -/
def readBadgeSubject : Ipld → Option BadgeSubject
  | .map sm =>
    match getStr sm (utf8 "did") with
    | some did => some (.did did)
    | none => (readRef sm).map .ref
  | .string did => some (.did did)
  | _ => none

def readScore (sm : Fields) : Option Score := do
  some ⟨← getStr sm (utf8 "min"), ← getStr sm (utf8 "max"), ← getStr sm (utf8 "value")⟩

/-- One contributor; an entry of another shape is passed over. -/
def readContributor (c : Ipld) : Option Contributor := do
  let cm ← asMap c
  let idm ← getMap cm (utf8 "contributorIdentity")
  let identity ← getStr idm (utf8 "identity")
  some ⟨identity, getStr cm (utf8 "contributionWeight")⟩

def readContributors (m : Fields) : List Contributor :=
  match Ipld.get m (utf8 "contributors") with
  | some (.list l) => l.filterMap readContributor
  | _ => []

def readLinkEvmMessage (msg : Fields) : Option LinkEvmMessage := do
  some ⟨← getStr msg (utf8 "did"), ← getStr msg (utf8 "evmAddress"), ← getStr msg (utf8 "chainId"),
    ← getStr msg (utf8 "timestamp"), ← getStr msg (utf8 "nonce")⟩

/-- The fields of a record of a collection. -/
def decodeFields (collection : Bytes) (m : Fields) (createdAt : Bytes) : Option Record :=
  if collection = utf8 "app.certified.graph.follow" then do
    some (.follow (← getStr m (utf8 "subject")) createdAt)
  else if collection = utf8 "app.certified.badge.award" then do
    let badge ← getStrongref m (utf8 "badge")
    let subject ← readBadgeSubject (← Ipld.get m (utf8 "subject"))
    some (.badgeAward badge subject createdAt)
  else if collection = utf8 "app.certified.badge.response" then do
    some (.badgeResponse (← getStrongref m (utf8 "badgeAward")) (← getStr m (utf8 "response"))
      (getStr m (utf8 "weight")) createdAt)
  else if collection = utf8 "org.hypercerts.context.evaluation" then
    some (.evaluation (getStrongref m (utf8 "subject")) ((getMap m (utf8 "score")).bind readScore)
      createdAt)
  else if collection = utf8 "org.hypercerts.claim.activity" then
    some (.activity (readContributors m) createdAt)
  else if collection = utf8 "org.hypercerts.context.acknowledgement" then do
    some (.acknowledgement (← getStrongref m (utf8 "subject")) (← getBool m (utf8 "acknowledged"))
      createdAt)
  else if collection = utf8 "app.certified.link.evm" then do
    let proof ← getMap m (utf8 "proof")
    let message ← getMap proof (utf8 "message")
    let address ← getStr m (utf8 "address")
    let message ← readLinkEvmMessage message
    some (.linkEvm address message (← getStr proof (utf8 "signature")) createdAt)
  else none

/-- Decode a record of a collection. Its type has to be the collection it is filed under. -/
def decode (D : Dagcbor) (collection bytes : Bytes) : Option Record := do
  let m ← asMap (← D.fromSlice bytes)
  if getStr m (utf8 "$type") ≠ some collection then none
  else decodeFields collection m (← getStr m (utf8 "createdAt"))

end Trustgraphs.Hypercerts

/-!
## Bindings of DIDs to addresses (`hypercerts-core/src/binding.rs`)

A record in a repository names an address, and a signature of that address names the repository. The
text parsers of the `alloy_primitives` crate are parameters.
-/

namespace Trustgraphs

/-- The parsers of the `alloy_primitives` crate. -/
structure Primitives where
  parseAddress : Bytes → Option Address
  /-- `U256::from_str_radix` in base ten. -/
  parseU256 : Bytes → Option U256
  hexDecode : Bytes → Option Bytes

namespace Hypercerts

def domainSeparator (H : Hashes) (chainId : U256) : B256 :=
  H.keccak256 (
    (H.keccak256 (utf8 "EIP712Domain(string name,string version,uint256 chainId)")).bytes ++
    (H.keccak256 (utf8 "IdentityLink")).bytes ++ (H.keccak256 (utf8 "1")).bytes ++ wordU256 chainId)

def structHash (H : Hashes) (m : LinkEvmMessage) (evmAddress : Address)
    (chainId timestamp nonce : U256) : B256 :=
  H.keccak256 (
    (H.keccak256 (utf8 "LinkAttestation(string did,address evmAddress,uint256 chainId,uint256 timestamp,uint256 nonce)")).bytes ++
    (H.keccak256 m.did).bytes ++ wordAddr evmAddress ++ wordU256 chainId ++ wordU256 timestamp ++
    wordU256 nonce)

/-- The address that a record binds to a DID, `none` when the record proves nothing. -/
def verifyBinding (H : Hashes) (K : K256) (P : Primitives) (did addressField : Bytes)
    (m : LinkEvmMessage) (signatureHex : Bytes) : Option Address :=
  if m.did ≠ did then none
  else do
    let evmAddress ← P.parseAddress m.evmAddress
    let topAddress ← P.parseAddress addressField
    if evmAddress ≠ topAddress then none
    else do
      let chainId ← P.parseU256 m.chainId
      let timestamp ← P.parseU256 m.timestamp
      let nonce ← P.parseU256 m.nonce
      let sh := structHash H m evmAddress chainId timestamp nonce
      let ds := domainSeparator H chainId
      let digest := H.keccak256 ([0x19, 0x01] ++ ds.bytes ++ sh.bytes)
      let sig ← P.hexDecode (← Text.stripPrefix (utf8 "0x") signatureHex)
      let recovered ← Envelopes.recoverAddress H K digest sig
      if recovered = evmAddress then some evmAddress else none

end Hypercerts

end Trustgraphs
