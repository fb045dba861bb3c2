import Trustgraphs.ContributionsCore.Reconcile

/-!
# The contributions computation (`contributions-core/src/compute.rs`)

Reputation from the vouches, then the valuations of the eligible raters, each with its budget, and the
split of the pool between contributors and evaluators.
-/

namespace Trustgraphs.Contributions

/-- A panic of the round. -/
inductive Panic where
  /-- A map is indexed with a key that it does not have. -/
  | noEntry
  /-- A division by zero, or a quotient that does not fit. -/
  | arithmetic
deriving DecidableEq

def index {K V : Type} [LinearOrder K] (m : BTreeMap K V) (k : K) : Except Panic V :=
  match m[k]? with
  | some v => .ok v
  | none => .error .noEntry

def arithmetic {α : Type} : Option α → Except Panic α
  | some a => .ok a
  | none => .error .arithmetic

def ofU64 (x : UInt64) : U256 := BitVec.ofNat 256 x.toNat

/-! ## Stage 1: reputation -/

/-- The pipeline of the trust program over the vouches. -/
def reputationDetailed (trustEdges : List RawEdge) (p : Params) : Option (Pagerank.RankResult Address) := do
  let tp := trustParams p
  let graph ← Trustgraphs.Reconcile.buildGraph trustEdges tp
  Pagerank.calculateGenericDetailed graph.nodes graph.outgoing (PagerankCore.rankConfig tp)

/-! ## Eligibility -/

/-- An eligible valuation, with the discount that comes after its budget. -/
structure EligibleValuation where
  claimUid : B256
  rater : Address
  score : UInt8
  discountFp : U256
deriving DecidableEq

/-- Why a valuation does not count. -/
inductive SkipReason where
  /-- The rater is the claim's attester or one of its contributors. -/
  | selfValuation
  /-- The rater's reputation is below the minimum. -/
  | belowMinRep
deriving DecidableEq

/-- The partition of the live valuations. -/
structure Eligibility where
  eligible : List EligibleValuation
  skipped : List (B256 × Address × SkipReason)
  /-- The raters with an eligible valuation. -/
  participants : BTreeSet Address

/-- The contributors of a claim become peers of each other. -/
def addPeers (coClaim : BTreeMap Address (BTreeSet Address)) (claim : LiveClaim) :
    BTreeMap Address (BTreeSet Address) :=
  claim.shares.keys.foldl (fun coClaim a =>
    claim.shares.keys.foldl (fun coClaim b =>
      if a ≠ b then coClaim.insert a ((coClaim.getD a ∅).insert b) else coClaim) coClaim) coClaim

/-- The peers of every contributor. -/
def coClaim (claims : BTreeMap B256 LiveClaim) : BTreeMap Address (BTreeSet Address) :=
  claims.toList.foldl (fun coClaim e => addPeers coClaim e.2) ∅

/-- The rater shares a claim with a contributor of this one. -/
def conflicted (coClaim : BTreeMap Address (BTreeSet Address)) (rater : Address) (claim : LiveClaim) : Bool :=
  (coClaim[rater]?).any fun peers => claim.shares.keys.any fun a => peers.contains a

/-- One valuation, which counts or is skipped. -/
def eligibilityStep (state : LiveState) (rep : BTreeMap Address U256) (p : Params)
    (coClaim : BTreeMap Address (BTreeSet Address)) (out : Eligibility) (e : ActorKey × UInt8) :
    Except Panic Eligibility := do
  let (claimUid, rater) := ofLex e.1
  let claim ← index state.claims claimUid
  if claim.shares.contains rater || rater == claim.attester then
    .ok { out with skipped := out.skipped ++ [(claimUid, rater, .selfValuation)] }
  else
    let raterRep := rep.getD rater 0
    if raterRep < p.minRaterRepFp then
      .ok { out with skipped := out.skipped ++ [(claimUid, rater, .belowMinRep)] }
    else
      let discountFp := if conflicted coClaim rater claim then p.collaboratorMultFp else p.precisionScale
      .ok { out with
        participants := out.participants.insert rater
        eligible := out.eligible ++ [⟨claimUid, rater, e.2, discountFp⟩] }

/-- The filters over the live valuations. -/
def eligibility (state : LiveState) (rep : BTreeMap Address U256) (p : Params) : Except Panic Eligibility :=
  let coClaim := coClaim state.claims
  state.valuations.toList.foldlM (eligibilityStep state rep p coClaim) ⟨[], [], ∅⟩

/-! ## Stage 2: valuation -/

/-- The scores and weights of a round, scaled. -/
structure Stage2 where
  claimScores : BTreeMap B256 U256
  contributorWeights : BTreeMap Address U256
  combinedWeights : BTreeMap Address U256

/-- The sum of each rater's scores. -/
def budgets (elig : Eligibility) : BTreeMap Address UInt64 :=
  elig.eligible.foldl (fun budgets v => Tally.add budgets v.rater v.score.toUInt64) ∅

/-- The part of a rater's reputation that a valuation gives to its claim. A rater who only gave zeros
has nothing to allocate. -/
def addContribution (rep : BTreeMap Address U256) (budgets : BTreeMap Address UInt64) (p : Params)
    (claimScores : BTreeMap B256 U256) (v : EligibleValuation) : Except Panic (BTreeMap B256 U256) := do
  let s := p.precisionScale
  let budget ← index budgets v.rater
  if budget = 0 then .ok claimScores
  else
    let raterRep := rep.getD v.rater 0
    let sigma ← arithmetic (mulDiv (ofU64 v.score.toUInt64) s (ofU64 budget))
    let part ← arithmetic (fpMul raterRep sigma s)
    let contribution ← arithmetic (fpMul part v.discountFp s)
    .ok (Tally.add claimScores v.claimUid contribution)

/-- What a claim's score gives one of its contributors. -/
def addShare (state : LiveState) (p : Params) (claim : LiveClaim) (score : U256)
    (weights : BTreeMap Address U256) (e : Address × UInt64) : Except Panic (BTreeMap Address U256) := do
  let s := p.precisionScale
  let attrib ← arithmetic (mulDiv (ofU64 e.2) s (ofU64 claim.totalShares))
  let consent := consentMultFp state claim e.1 p
  let part ← arithmetic (fpMul score attrib s)
  let w ← arithmetic (fpMul part consent s)
  if w ≠ 0 then .ok (Tally.add weights e.1 w) else .ok weights

/-- What a claim's score gives its contributors. -/
def addClaim (state : LiveState) (p : Params) (weights : BTreeMap Address U256) (e : B256 × U256) :
    Except Panic (BTreeMap Address U256) :=
  if e.2 = 0 then .ok weights
  else do
    let claim ← index state.claims e.1
    claim.shares.toList.foldlM (addShare state p claim e.2) weights

/-- The share of one weight in a side of the pool. -/
def addSide (side total : U256) (combined : BTreeMap Address U256) (e : Address × U256) :
    Except Panic (BTreeMap Address U256) := do
  let share ← arithmetic (mulDiv e.2 side total)
  if share ≠ 0 then .ok (Tally.add combined e.1 share) else .ok combined

/-- The evaluators' side of the scale. A carve-out above the whole counts as the whole. -/
def betaFp (p : Params) : Except Panic U256 := do
  let rawBetaFp ← arithmetic (mulDiv p.precisionScale (BitVec.ofNat 256 p.evaluatorCarveoutBps.toNat) 10000)
  .ok (if p.precisionScale < rawBetaFp then p.precisionScale else rawBetaFp)

/-- The standing of the raters that count. -/
def participantRep (rep : BTreeMap Address U256) (elig : Eligibility) : BTreeMap Address U256 :=
  BTreeMap.tabulate elig.participants.toList fun r => rep.getD r 0

def total (m : BTreeMap Address U256) : U256 := (m.toList.map Prod.snd).foldl (· + ·) 0

/-- The second stage over the reconciled state. -/
def stage2 (state : LiveState) (rep : BTreeMap Address U256) (elig : Eligibility) (p : Params) :
    Except Panic Stage2 := do
  let budgets := budgets elig
  let claimScores ← elig.eligible.foldlM (addContribution rep budgets p) ∅
  let contributorWeights ← claimScores.toList.foldlM (addClaim state p) ∅
  let betaFp ← betaFp p
  let oneMinusBetaFp := p.precisionScale - betaFp
  let totalP := total contributorWeights
  let participantRep := participantRep rep elig
  let totalRep := total participantRep
  let combined ←
    if totalP = 0 then .ok ∅
    else contributorWeights.toList.foldlM (addSide oneMinusBetaFp totalP) ∅
  let combined ←
    if betaFp = 0 ∨ totalRep = 0 then .ok combined
    else participantRep.toList.foldlM (addSide betaFp totalRep) combined
  .ok ⟨claimScores, contributorWeights, combined⟩

/-! ## The pipeline -/

structure GuestInput where
  /-- Vouches in the order of the trust accumulator. -/
  trustEdges : List RawEdge
  /-- Records in the order of the contribution accumulator. -/
  records : List RawEdge
  params : Params
  binding : Binding

/-- The whole pipeline. A panic is `none`. -/
def compute (H : Hashes) (input : GuestInput) : Option ComputeResult := do
  let (acc, leafCount) := accumulate H input.trustEdges
  let (anchorAcc, anchorCount) := accumulate H input.records
  let paramsHash ← paramsHash H input.params
  let rankResult ← reputationDetailed input.trustEdges input.params
  let rank := PagerankCore.telemetry rankResult input.params.maxIterations
  let rep := rankResult.scores
  let state := reconcile input.records input.params
  let elig ← (eligibility state rep input.params).toOption
  let st2 ← (stage2 state rep elig input.params).toOption
  let weights := st2.combinedWeights.toList.filter fun e => e.2 != 0
  let (assigned, totalValue) ←
    Distribute.distributePointsGeneric weights input.params.precisionScale input.params.totalPool
  let assigned := assigned.insertionSort fun a b => a.1 ≤ b.1
  let leaves := assigned.map fun e => outputLeaf H e.1 e.2
  let outputRoot ← merkleRoot H leaves
  let blob := canonicalBlob assigned
  let digest := H.sha256 blob
  let cidStr := cidV1Raw digest
  let journal : Journal := {
    acc := acc
    leafCount := leafCount
    anchorAcc := anchorAcc
    anchorCount := anchorCount
    paramsHash := paramsHash
    outputRoot := outputRoot
    ipfsHash := digest
    cidDigest := H.keccak256 cidStr
    totalValue := totalValue
    skippedDigest := 0
    recipient := input.binding.recipient
    instanceDomain := input.binding.instanceDomain }
  some ⟨journal, assigned, blob, cidStr, rank, 0⟩

end Trustgraphs.Contributions
