import Trustgraphs.PagerankCore.Compute
import Trustgraphs.TrustgraphCore.Lane2

/-!
# The two-lane computation (`trustgraph-core/src/compute.rs`)

An abort of the guest, by an error of lane 2 or by a panic, is `none`.
-/

namespace Trustgraphs.TrustgraphCore

structure GuestInput where
  edges : List RawEdge
  params : Params
  lane2 : Option Lane2Witness
  binding : Binding

/-- The outcome of lane 2. It may be left out only where it is not configured. -/
def runLane2 (H : Hashes) (K : K256) (p : Params) : Option Lane2Witness → Option Lane2.Lane2Result
  | some w => (Lane2.process H K p w).toOption
  | none => if p.envelope0DomainSeparators.isEmpty && p.lane2MaxHeadAge == 0 then some .default else none

/-- The program: both lanes, the graph, the ranks and the journal. -/
def compute (H : Hashes) (K : K256) (input : GuestInput) : Option ComputeResult := do
  let (acc, leafCount) := accumulate H input.edges
  let paramsHash ← paramsHash H input.params
  let lane2Result ← runLane2 H K input.params input.lane2
  let allEdges := input.edges ++ lane2Result.edges
  let graph ← Reconcile.buildGraph allEdges input.params
  let rankResult ← Pagerank.calculateGenericDetailed graph.nodes graph.outgoing
    (PagerankCore.rankConfig input.params)
  let rank := PagerankCore.telemetry rankResult input.params.maxIterations
  let filtered := rankResult.scores.toList.filter fun e => e.2 != 0
  let (assigned, totalValue) ← Distribute.distributePoints filtered input.params
  let assigned := assigned.insertionSort fun a b => a.1 ≤ b.1
  let leaves := assigned.map fun e => outputLeaf H e.1 e.2
  let outputRoot ← merkleRoot H leaves
  let blob := canonicalBlob assigned
  let digest := H.sha256 blob
  let cidStr := cidV1Raw digest
  let journal : Journal := {
    acc := acc
    leafCount := leafCount
    anchorAcc := lane2Result.anchorAcc
    anchorCount := lane2Result.anchorCount
    paramsHash := paramsHash
    outputRoot := outputRoot
    ipfsHash := digest
    cidDigest := H.keccak256 cidStr
    totalValue := totalValue
    skippedDigest := skippedDigest H lane2Result.skips
    recipient := input.binding.recipient
    instanceDomain := input.binding.instanceDomain }
  some ⟨journal, assigned, blob, cidStr, rank, lane2Result.signatureChecks⟩

end Trustgraphs.TrustgraphCore
