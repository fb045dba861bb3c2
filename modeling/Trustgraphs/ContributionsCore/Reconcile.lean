import Trustgraphs.Lib.Tally
import Trustgraphs.PagerankCore.Compute

/-!
# Contribution records (`contributions-core/src/records.rs`, `kind.rs`)

The payload decoders. A payload that does not have the exact ABI shape is `none`, which the programs
skip. Offsets, lengths and slots are numbers: a word above `u32::MAX` is rejected before it is used.
-/

namespace Trustgraphs.Contributions

/-! ## Kinds -/

def KIND_CLAIM_ATTEST : UInt8 := 0
def KIND_RESPONSE_ATTEST : UInt8 := 2
def KIND_VALUATION_ATTEST : UInt8 := 4

/-- The odd kinds revoke. -/
def isRevoke (kind : UInt8) : Bool := kind % 2 == 1

/-! ## Payloads -/

structure ClaimPayload where
  contentHash : B256
  /-- As attested, in order; an address may occur more than once. -/
  contributors : List Address
  shares : List UInt32
deriving DecidableEq

/-- A decoded response: 1 is accept and 2 is reject. -/
structure ResponsePayload where
  claimUid : B256
  response : UInt8
deriving DecidableEq

/-- A decoded valuation, with a score of at most 100. -/
structure ValuationPayload where
  claimUid : B256
  score : UInt8
deriving DecidableEq

/-! ## Words -/

/-- The 32-byte word at a slot, if it is in bounds. -/
def word (data : Bytes) (slot : Nat) : Option B256 :=
  let start := slot * 32
  let stop := start + 32
  if data.length < stop then none else FixedBytes.ofSlice 32 ((data.drop start).take 32)

def wordAsU8 (w : B256) : Option UInt8 := if (w.bytes.take 31).any (· != 0) then none else w.bytes[31]?

def wordAsU32 (w : B256) : Option UInt32 :=
  if (w.bytes.take 28).any (· != 0) then none else some (UInt32.ofNat (ofBeBytes (w.bytes.drop 28)))

def wordAsAddress (w : B256) : Option Address :=
  if (w.bytes.take 12).any (· != 0) then none else FixedBytes.ofSlice 20 (w.bytes.drop 12)

def wordAsUsize (w : B256) : Option Nat :=
  let v := ofBeBytes w.bytes
  if 2 ^ 32 - 1 < v then none else some v

/-- The region of a `string` at `offset`: its length word and its bytes are in bounds. -/
def checkDynamicBytes (data : Bytes) (offset : Nat) : Option Unit :=
  if offset % 32 ≠ 0 then none
  else do
    let len ← wordAsUsize (← word data (offset / 32))
    let start := offset + 32
    let stop := start + len
    if data.length < stop then none else some ()

/-! ## Decoders -/

/-- The elements of an array of `n` static words whose length word is at `offset`. -/
def elements {α : Type} (decode : B256 → Option α) (data : Bytes) (offset n : Nat) : Option (List α) :=
  (List.range n).mapM fun i => do decode (← word data (offset / 32 + 1 + i))

/-- Decode a claim. The source reserves `Vec::with_capacity(n)` before it reads the `n` elements of an array;
this is left out, so that a count whose vector cannot be allocated is an ordinary `none` here. -/
def decodeClaim (data : Bytes) : Option ClaimPayload := do
  let titleOff ← wordAsUsize (← word data 0)
  let contentHash ← word data 1
  let uriOff ← wordAsUsize (← word data 2)
  let contributorsOff ← wordAsUsize (← word data 3)
  let sharesOff ← wordAsUsize (← word data 4)
  checkDynamicBytes data titleOff
  checkDynamicBytes data uriOff
  if contributorsOff % 32 ≠ 0 ∨ sharesOff % 32 ≠ 0 then none
  else do
    let n ← wordAsUsize (← word data (contributorsOff / 32))
    let m ← wordAsUsize (← word data (sharesOff / 32))
    if n ≠ m ∨ n = 0 then none
    else do
      let contributors ← elements wordAsAddress data contributorsOff n
      let shares ← elements wordAsU32 data sharesOff n
      -- shares that are all zero leave nothing to normalize
      if shares.all (· == 0) then none else some ⟨contentHash, contributors, shares⟩

/-- A response, of two words. -/
def decodeResponse (data : Bytes) : Option ResponsePayload := do
  let claimUid ← word data 0
  let response ← wordAsU8 (← word data 1)
  if response ≠ 1 ∧ response ≠ 2 then none else some ⟨claimUid, response⟩

/-- A valuation, of two words. -/
def decodeValuation (data : Bytes) : Option ValuationPayload := do
  let claimUid ← word data 0
  let score ← wordAsU8 (← word data 1)
  if 100 < score then none else some ⟨claimUid, score⟩

/-! ## Encoders -/

/-- The region of a `string`: its length word and its bytes, padded to whole words. -/
def dynBytes (b : Bytes) : Bytes := beBytes 32 b.length ++ b ++ List.replicate ((32 - b.length % 32) % 32) 0

def encodeClaim (title : Bytes) (contentHash : B256) (uri : Bytes) (contributors : List Address)
    (shares : List UInt32) : Bytes :=
  let titleOff := 5 * 32
  let uriOff := titleOff + (32 + (title.length + 31) / 32 * 32)
  let contributorsOff := uriOff + (32 + (uri.length + 31) / 32 * 32)
  let sharesOff := contributorsOff + (32 + contributors.length * 32)
  beBytes 32 titleOff ++ contentHash.bytes ++ beBytes 32 uriOff ++ beBytes 32 contributorsOff ++
    beBytes 32 sharesOff ++ dynBytes title ++ dynBytes uri ++
    beBytes 32 contributors.length ++ contributors.flatMap wordAddr ++
    beBytes 32 shares.length ++ shares.flatMap wordU32

def encodeResponse (claimUid : B256) (response : UInt8) : Bytes := claimUid.bytes ++ wordU8 response

def encodeValuation (claimUid : B256) (score : UInt8) : Bytes := encodeResponse claimUid score

end Trustgraphs.Contributions

/-!
# Parameters of a contributions round (`contributions-core/src/lib.rs`, `params.rs`)
-/

namespace Trustgraphs.Contributions

def PARAMS_SCHEMA_VERSION : UInt32 := 3

/-- Governance-pinned parameters. All `Fp` fields are scaled by `precisionScale`. -/
structure Params where
  dampingFp : U256
  toleranceFp : U256
  maxIterations : UInt32
  minWeightFp : U256
  maxWeightFp : U256
  trustShareFp : U256
  trustDecayFp : U256
  trustedSeeds : List Address
  precisionScale : U256
  weightFieldIndex : UInt32
  /-- Claims count if their timestamp is in the round, both ends included. -/
  roundStart : UInt64
  roundEnd : UInt64
  /-- The multiplier of a share without a response. -/
  unacceptedMultFp : U256
  /-- The discount of a rater who shares a claim with a contributor. -/
  collaboratorMultFp : U256
  /-- Raters with less reputation are ignored. -/
  minRaterRepFp : U256
  evaluatorCarveoutBps : UInt32
  totalPool : U256
  claimSchemaUid : B256
  responseSchemaUid : B256
  valuationSchemaUid : B256
deriving DecidableEq

/-- The parameters of the trust program that the first stage runs with. -/
def trustParams (p : Params) : Trustgraphs.Params where
  dampingFp := p.dampingFp
  toleranceFp := p.toleranceFp
  maxIterations := p.maxIterations
  minWeightFp := p.minWeightFp
  maxWeightFp := p.maxWeightFp
  trustShareFp := p.trustShareFp
  trustDecayFp := p.trustDecayFp
  trustedSeeds := p.trustedSeeds
  totalPool := p.totalPool
  precisionScale := p.precisionScale
  schemaUid := 0
  weightFieldIndex := p.weightFieldIndex
  envelope0DomainSeparators := []
  lane2MaxHeadAge := 0
  accumulator := 0
  chainId := 0

/-- The preimage of the params hash, 21 words. -/
def paramsPreimage (p : Params) (seedSetRoot : B256) : Bytes :=
  wordU32 PARAMS_SCHEMA_VERSION ++ wordU256 p.dampingFp ++ wordU256 p.toleranceFp ++
    wordU32 p.maxIterations ++ wordU256 p.minWeightFp ++ wordU256 p.maxWeightFp ++
    wordU256 p.trustShareFp ++ wordU256 p.trustDecayFp ++ seedSetRoot.bytes ++
    wordU256 p.precisionScale ++ wordU32 p.weightFieldIndex ++ wordU64 p.roundStart ++
    wordU64 p.roundEnd ++ wordU256 p.unacceptedMultFp ++ wordU256 p.collaboratorMultFp ++
    wordU256 p.minRaterRepFp ++ wordU32 p.evaluatorCarveoutBps ++ wordU256 p.totalPool ++
    p.claimSchemaUid.bytes ++ p.responseSchemaUid.bytes ++ p.valuationSchemaUid.bytes

/-- The governance-pinned params hash, over the sorted seed set. -/
def paramsHash (H : Hashes) (p : Params) : Option B256 := do
  let seeds := p.trustedSeeds.insertionSort (· ≤ ·)
  let seedSetRoot ← seedSetRoot H seeds
  some (H.keccak256 (paramsPreimage p seedSetRoot))

end Trustgraphs.Contributions

/-!
# Reconciliation of the record log (`contributions-core/src/reconcile.rs`)

Revocation excludes a uid wherever it stands in the log. What is left is taken in the order of the
timestamps, then of the fold: claims first, then responses and valuations, the last one of a key over
the ones before it.
-/

namespace Trustgraphs.Contributions

/-- A claim that stands after the fold. -/
structure LiveClaim where
  uid : B256
  attester : Address
  blockTimestamp : UInt64
  /-- The shares of each contributor, summed over its occurrences. -/
  shares : BTreeMap Address UInt64
  totalShares : UInt64

/-- One actor's slot at one claim. -/
abbrev ActorKey := B256 ×ₗ Address

instance (priority := 1100) ActorKey.transCmp : Std.TransCmp (compare : ActorKey → ActorKey → Ordering) :=
  inferInstance

instance (priority := 1100) ActorKey.lawfulEqCmp :
    Std.LawfulEqCmp (compare : ActorKey → ActorKey → Ordering) := inferInstance

def actorKey (claimUid : B256) (actor : Address) : ActorKey := toLex (claimUid, actor)

/-- The claims, responses and valuations that stand. -/
structure LiveState where
  claims : BTreeMap B256 LiveClaim
  /-- 1 is accept and 2 is reject, of the contributors of the claim. -/
  responses : BTreeMap ActorKey UInt8
  valuations : BTreeMap ActorKey UInt8

/-- The uids that the records revoke. -/
def revoked (records : List RawEdge) : BTreeSet B256 :=
  .ofList ((records.filter fun r => isRevoke r.kind).map RawEdge.uid)

/-- The records that are no revocations and not revoked, in canonical order. -/
def ordered (records : List RawEdge) : List RawEdge :=
  let revoked := revoked records
  let kept := records.zipIdx.filter fun e => !isRevoke e.1.kind && !revoked.contains e.1.uid
  (kept.insertionSort fun a b => Reconcile.before a b).map Prod.fst

/-- The shares of a payload by contributor. -/
def sharesOf (payload : ClaimPayload) : BTreeMap Address UInt64 :=
  (payload.contributors.zip payload.shares).foldl (fun shares e => Tally.add shares e.1 e.2.toUInt64) ∅

def liveClaim (r : RawEdge) (payload : ClaimPayload) : LiveClaim :=
  let shares := sharesOf payload
  { uid := r.uid
    attester := r.attester
    blockTimestamp := r.blockTimestamp
    shares := shares
    totalShares := (shares.toList.map Prod.snd).sum }

/-- A claim of the round that decodes goes in. -/
def claimStep (p : Params) (claims : BTreeMap B256 LiveClaim) (r : RawEdge) : BTreeMap B256 LiveClaim :=
  if r.kind ≠ KIND_CLAIM_ATTEST then claims
  else if r.blockTimestamp < p.roundStart ∨ p.roundEnd < r.blockTimestamp then claims
  else match decodeClaim r.data with
    | none => claims
    | some payload => claims.insert r.uid (liveClaim r payload)

/-- One record of the loop over responses and valuations. -/
def actorStep (claims : BTreeMap B256 LiveClaim) (st : BTreeMap ActorKey UInt8 × BTreeMap ActorKey UInt8)
    (r : RawEdge) : BTreeMap ActorKey UInt8 × BTreeMap ActorKey UInt8 :=
  if r.kind = KIND_RESPONSE_ATTEST then
    match decodeResponse r.data with
    | none => st
    | some payload =>
      match claims[payload.claimUid]? with
      | none => st
      | some claim =>
        -- only an address in the claim's contributor set responds
        if !claim.shares.contains r.attester then st
        else (st.1.insert (actorKey payload.claimUid r.attester) payload.response, st.2)
  else if r.kind = KIND_VALUATION_ATTEST then
    match decodeValuation r.data with
    | none => st
    | some payload =>
      if !claims.contains payload.claimUid then st
      else (st.1, st.2.insert (actorKey payload.claimUid r.attester) payload.score)
  else st

/-- The fold of the records into the live state. -/
def reconcile (records : List RawEdge) (p : Params) : LiveState :=
  let ordered := ordered records
  let claims := ordered.foldl (claimStep p) ∅
  let (responses, valuations) := ordered.foldl (actorStep claims) (∅, ∅)
  ⟨claims, responses, valuations⟩

/-- The consent multiplier of a contributor's share: all of it when accepted, nothing when rejected. A
claim of one's own is accepted as long as one does not respond. -/
def consentMultFp (state : LiveState) (claim : LiveClaim) (a : Address) (p : Params) : U256 :=
  match state.responses[actorKey claim.uid a]? with
  | some response => if response = 1 then p.precisionScale else 0
  | none => if a = claim.attester then p.precisionScale else p.unacceptedMultFp

end Trustgraphs.Contributions
