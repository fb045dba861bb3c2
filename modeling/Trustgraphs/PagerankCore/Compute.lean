import Trustgraphs.PagerankCore.Pagerank
import Trustgraphs.PagerankCore.Params
import Trustgraphs.ZkCore.Cid

/-!
# The lane-1 computation (`pagerank-core/src/compute.rs`, `reconcile.rs`, `distribute.rs`)

A panic of the source is `none`.
-/

/-!
## Hamilton allocation (`pagerank-core/src/distribute.rs`)

Every account gets the floor of its proportional share, and the units that are left go to the largest
remainders.
-/

namespace Trustgraphs.Distribute

variable {K : Type} [LinearOrder K]

/-- A row of the allocation: key, value so far and the 512-bit remainder of its share. -/
abbrev Row (K : Type) := K × U256 × Nat

def distinctNeighbours : List (K × U256) → Bool
  | a :: b :: l => a.1 != b.1 && distinctNeighbours (b :: l)
  | _ => true

/-- The floor of one share. The product and the division are in 512 bits. -/
def shareRow (total totalPool : U256) (st : List (Row K) × U256) (entry : K × U256) :
    Option (List (Row K) × U256) := do
  let product := entry.2.toNat * totalPool.toNat
  if total = 0 then none
  else do
    let quotient := product / total.toNat
    if 2 ^ 256 ≤ quotient then none
    else do
      let floor : U256 := BitVec.ofNat 256 quotient
      let floorSum ← Checked.add st.2 floor
      some (st.1 ++ [(entry.1, floor, product % total.toNat)], floorSum)

/-- The order in which rows get another unit: by remainder descending, then by key ascending. -/
def before (rows : List (Row K)) (a b : Nat) : Bool :=
  match rows[a]?, rows[b]? with
  | some ra, some rb => rb.2.2 < ra.2.2 || (rb.2.2 == ra.2.2 && ra.1 ≤ rb.1)
  | _, _ => false

/-- One more unit for a row. -/
def bump (rows : List (Row K)) (index : Nat) : Option (List (Row K)) := do
  let row ← rows[index]?
  some (rows.set index (row.1, ← Checked.add row.2.1 1, row.2.2))

/-- Allocate `totalPool` in proportion to the positive scores. -/
def distributePointsGeneric (scoresFp : List (K × U256)) (_scale totalPool : U256) :
    Option (List (K × U256) × U256) :=
  let scores := (scoresFp.filter fun e => e.2 != 0).insertionSort fun a b => a.1 ≤ b.1
  if !distinctNeighbours scores then none
  else if scores.isEmpty || totalPool == 0 then some ([], 0)
  else do
    let total ← Checked.sum (scores.map Prod.snd)
    let (rows, floorSum) ← scores.foldlM (shareRow total totalPool) ([], 0)
    let missing ← Checked.sub totalPool floorSum
    if ¬ missing.toNat < rows.length then none
    else do
      let order := (List.range rows.length).insertionSort fun a b => before rows a b
      let rows ← (order.take missing.toNat).foldlM bump rows
      some (rows.filterMap fun row => if row.2.1 = 0 then none else some (row.1, row.2.1), totalPool)

def distributePoints (scoresFp : List (Address × U256)) (p : Params) : Option (List (Address × U256) × U256) :=
  distributePointsGeneric scoresFp p.precisionScale p.totalPool

end Trustgraphs.Distribute

/-!
## Reconciliation of attestations (`pagerank-core/src/reconcile.rs`)

An ordered state machine per attester and recipient: an attestation replaces the edge of the pair, a
revocation clears it only when it names the current one.
-/

namespace Trustgraphs.Reconcile

structure Graph where
  /-- Every attester and recipient of an included edge, ascending by address. -/
  nodes : List Address
  outgoing : Pagerank.Outgoing Address

/-- `Ord::clamp`, which panics on empty bounds. -/
def clamp (x lo hi : U256) : Option U256 :=
  if hi < lo then none else some (if x < lo then lo else if hi < x then hi else x)

/-- The decoded confidence in fixed point, clamped to the weight bounds. -/
def weightFp (edge : RawEdge) (p : Params) : Option U256 :=
  let confidence := (decodeWeight edge.data p.weightFieldIndex).getD 0
  let s := p.precisionScale
  if s = 0 then none
  else
    let capRaw := p.maxWeightFp / s
    if capRaw < confidence then some p.maxWeightFp
    else clamp (confidence * s) p.minWeightFp p.maxWeightFp

/-- The current uid and weight of every pair. -/
abbrev Current := BTreeMap Address (BTreeMap Address (B256 × U256))

/-- The canonical order: timestamp, then fold position. -/
def before (a b : RawEdge × Nat) : Bool :=
  a.1.blockTimestamp < b.1.blockTimestamp || (a.1.blockTimestamp == b.1.blockTimestamp && a.2 ≤ b.2)

/-- The edges in the order in which they are applied. -/
def ordered (edges : List RawEdge) : List RawEdge :=
  (edges.zipIdx.insertionSort fun a b => before a b).map Prod.fst

/-- One edge at the edges that stand. -/
def applyEvent (p : Params) (current : Current) (e : RawEdge) : Option Current :=
  if e.kind = 0 then do
    let recipients := current.getD e.attester ∅
    some (current.insert e.attester (recipients.insert e.recipient (e.uid, ← weightFp e p)))
  else if e.kind = 1 then
    match current[e.attester]? with
    | none => some current
    | some recipients =>
      let recipients :=
        if recipients[e.recipient]?.any fun entry => entry.1 == e.uid then recipients.erase e.recipient
        else recipients
      if recipients.isEmpty then some (current.erase e.attester)
      else some (current.insert e.attester recipients)
  else some current

/-- The graph of the edges that stand. -/
def ofCurrent (current : Current) : Graph :=
  let (outgoing, nodeSet) := current.toList.foldl
    (fun (st : Pagerank.Outgoing Address × BTreeSet Address) row =>
      (st.1.insert row.1 (row.2.map fun _ entry => entry.2),
        (row.2.keys.foldl (fun nodes recipient => nodes.insert recipient) st.2).insert row.1))
    (∅, ∅)
  ⟨nodeSet.toList, outgoing⟩

/-- The reconciled graph of folded edges. -/
def buildGraph (edges : List RawEdge) (p : Params) : Option Graph := do
  let current ← (ordered edges).foldlM (applyEvent p) ∅
  some (ofCurrent current)

end Trustgraphs.Reconcile

/-! ## The pipeline -/

namespace Trustgraphs.PagerankCore

/-- The part of the parameters that the rank kernel consumes. -/
def rankConfig (p : Params) : Pagerank.RankConfig Address where
  dampingFp := p.dampingFp
  toleranceFp := p.toleranceFp
  maxIterations := p.maxIterations
  trustShareFp := p.trustShareFp
  trustDecayFp := p.trustDecayFp
  scale := p.precisionScale
  seeds := BTreeSet.ofList p.trustedSeeds

def telemetry {K : Type} [LinearOrder K] (r : Pagerank.RankResult K) (maxIterations : UInt32) :
    RankTelemetry where
  uniqueNodes := r.uniqueNodes
  liveEdges := r.liveEdges
  maxOutDegree := r.maxOutDegree
  maxIterations := maxIterations
  iterationsRun := r.iterations
  converged := r.converged

def compute (H : Hashes) (input : GuestInput) : Option ComputeResult := do
  let (acc, leafCount) := accumulate H input.edges
  let paramsHash ← paramsHash H input.params
  let graph ← Reconcile.buildGraph input.edges input.params
  let rankResult ←
    Pagerank.calculateGenericDetailed graph.nodes graph.outgoing (rankConfig input.params)
  let rank := telemetry rankResult input.params.maxIterations
  let filtered := rankResult.scores.toList.filter fun e => e.2 != 0
  let (assigned, totalValue) ← Distribute.distributePoints filtered input.params
  let assigned := assigned.insertionSort fun a b => a.1 ≤ b.1
  let leaves := assigned.map fun e => outputLeaf H e.1 e.2
  let outputRoot ← merkleRoot H leaves
  let blob := canonicalBlob assigned
  let digest := H.sha256 blob
  let cidStr := cidV1Raw digest
  let journal : Journal := {
    acc := acc
    leafCount := leafCount
    anchorAcc := 0
    anchorCount := 0
    paramsHash := paramsHash
    outputRoot := outputRoot
    ipfsHash := digest
    cidDigest := H.keccak256 cidStr
    totalValue := totalValue
    skippedDigest := 0
    recipient := input.binding.recipient
    instanceDomain := input.binding.instanceDomain }
  some ⟨journal, assigned, blob, cidStr, rank, 0⟩

end Trustgraphs.PagerankCore
