import Trustgraphs.Lib.BTree
import Trustgraphs.ZkCore.Fixed

/-!
# The rank kernel (`pagerank-core/src/pagerank.rs`)

Fixed-point trust-aware PageRank over any ordered node key, as a push over hoisted ratio rows. A
panic of the source (a failed `checked_add`, `checked_sub`, quotient, lookup or assertion) is `none`.
-/

namespace Trustgraphs.Pagerank

open Checked

variable {K : Type} [LinearOrder K]

/-- `attester -> { recipient -> weight }`. A missing key means no outgoing edges. -/
abbrev Outgoing (K : Type) [LinearOrder K] := BTreeMap K (BTreeMap K U256)

/-- The subset of the parameters that the rank kernel consumes. -/
structure RankConfig (K : Type) [LinearOrder K] where
  dampingFp : U256
  toleranceFp : U256
  maxIterations : UInt32
  trustShareFp : U256
  trustDecayFp : U256
  scale : U256
  /-- Trust is enabled iff nonempty. -/
  seeds : BTreeSet K

/-- An influence-carrying edge participates in both reachability and rank transitions. -/
def eligibleEdge (source target : K) (weight : U256) : Bool := source != target && weight != 0

def isSeed (seeds : BTreeSet K) (a : K) : Bool := seeds.contains a

/-- The number of reachable nodes that are not seeds. -/
def regularCount (seeds : BTreeSet K) (reachable : Option (BTreeMap K U256)) : Nat :=
  match reachable with
  | some nodes => (nodes.keys.filter fun node => !isSeed seeds node).length
  | none => 0

/-- Initial scores. Without trust, uniform. With trust, the seeds share `trustShareFp` and the
reachable other nodes share the remainder; unreachable nodes start at zero. -/
def initializeScores (nodes : List K) (cfg : RankConfig K) (reachable : Option (BTreeMap K U256)) :
    Option (BTreeMap K U256) :=
  let n := nodes.length
  let s := cfg.scale
  if n = 0 then some ∅
  else if cfg.seeds.isEmpty then
    let init := divCount s n
    some (BTreeMap.tabulate nodes fun _ => init)
  else do
    let trustedCount := cfg.seeds.size
    let regularCount := regularCount cfg.seeds reachable
    let trustedTotal := cfg.trustShareFp
    let regularTotal ← sub s cfg.trustShareFp
    let trustedScore := if trustedCount > 0 then divCount trustedTotal trustedCount else 0
    let regularScore := if regularCount > 0 then divCount regularTotal regularCount else 0
    some <| BTreeMap.tabulate nodes fun node =>
      if isSeed cfg.seeds node then trustedScore
      else if reachable.any fun reachable => reachable.contains node then regularScore
      else 0

/-- One edge of `current` in `bfsDecays`. The state carries the decay of a child, which is computed at
the first new neighbour and reused for the others. -/
def bfsVisit (current : K) (baseFp scale : U256) (st : BTreeMap K U256 × List K × Option U256)
    (edge : K × U256) : Option (BTreeMap K U256 × List K × Option U256) :=
  let (decays, queue, childDecay) := st
  let (neighbor, weight) := edge
  if !eligibleEdge current neighbor weight then some st
  else if !decays.contains neighbor then do
    let value ←
      match childDecay with
      | some value => some value
      | none => do fpMul (← decays[current]?) baseFp scale
    some (decays.insert neighbor value, queue ++ [neighbor], some value)
  else some st

/-- The edges of one node in `bfsDecays`. -/
def bfsRow (current : K) (baseFp scale : U256) (edges : BTreeMap K U256)
    (decays : BTreeMap K U256) (queue : List K) : Option (BTreeMap K U256 × List K) := do
  let (decays, queue, _) ← edges.toList.foldlM (bfsVisit current baseFp scale) (decays, queue, none)
  some (decays, queue)

/-- The `while let Some(current) = queue.pop_front()` loop of `bfsDecays`. -/
def bfsDecaysLoop (outgoing : Outgoing K) (baseFp scale : U256) :
    Nat → List K → BTreeMap K U256 → Option (BTreeMap K U256)
  | _, [], decays => some decays
  | 0, _ :: _, _ => none
  | fuel + 1, current :: queue, decays =>
    match outgoing[current]? with
    | none => bfsDecaysLoop outgoing baseFp scale fuel queue decays
    | some edges => do
      let (decays, queue) ← bfsRow current baseFp scale edges decays queue
      bfsDecaysLoop outgoing baseFp scale fuel queue decays

/-- A node is queued once: as a seed, or as the target of some edge. -/
def bfsFuel (outgoing : Outgoing K) (seeds : BTreeSet K) : Nat :=
  seeds.size + (outgoing.toList.map fun row => row.2.size).sum

/-- Multi-source BFS carrying each node's fixed-point decay from the trusted seeds. -/
def bfsDecays (outgoing : Outgoing K) (seeds : BTreeSet K) (baseFp scale : U256) : Option (BTreeMap K U256) :=
  bfsDecaysLoop outgoing baseFp scale (bfsFuel outgoing seeds) seeds.toList
    (BTreeMap.tabulate seeds.toList fun _ => scale)

/-- Every source and every target of a row is a node. -/
def assertEdgeClosure (nodes : List K) (outgoing : Outgoing K) : Bool :=
  let nodeSet := BTreeSet.ofList nodes
  outgoing.toList.all fun row =>
    nodeSet.contains row.1 && row.2.keys.all fun target => nodeSet.contains target

structure RankResult (K : Type) [LinearOrder K] where
  scores : BTreeMap K U256
  iterations : Nat
  converged : Bool
  uniqueNodes : Nat
  liveEdges : Nat
  maxOutDegree : Nat

/-- The total influence-carrying weight of a row. -/
def rowTotalBase (attester : K) (edges : BTreeMap K U256) : Option U256 :=
  edges.toList.foldlM
    (fun totalBase edge =>
      if !eligibleEdge attester edge.1 edge.2 then some totalBase else add totalBase edge.2)
    0

/-- The ratios of a row. Targets outside the trusted reachable set are omitted. -/
def ratioRow (attester : K) (edges : BTreeMap K U256) (totalBase s : U256)
    (decays : Option (BTreeMap K U256)) : Option (List (K × U256)) :=
  edges.toList.foldlM
    (fun row edge =>
      if !eligibleEdge attester edge.1 edge.2 then some row
      else if decays.any fun reachable => !reachable.contains edge.1 then some row
      else do some (row ++ [(edge.1, ← fpDiv edge.2 totalBase s)]))
    []

/-- The row of one attester in `hoistRatios`. -/
def hoistRow (outgoing : Outgoing K) (s : U256) (decays : Option (BTreeMap K U256))
    (ratios : BTreeMap K (List (K × U256))) (attester : K) :
    Option (BTreeMap K (List (K × U256))) :=
  match outgoing[attester]? with
  | none => some ratios
  | some edges => do
    let totalBase ← rowTotalBase attester edges
    if totalBase = 0 then some ratios
    else do
      let row ← ratioRow attester edges totalBase s decays
      if row.isEmpty then some ratios else some (ratios.insert attester row)

/-- The complete row normalization, hoisted out of the iteration. -/
def hoistRatios (nodes : List K) (outgoing : Outgoing K) (s : U256)
    (decays : Option (BTreeMap K U256)) : Option (BTreeMap K (List (K × U256))) :=
  nodes.foldlM (hoistRow outgoing s decays) ∅

/-- One contribution of a source to a target of its row. -/
def pushEdge (cfg : RankConfig K) (current : BTreeMap K U256) (attester : K) (decay : U256)
    (newScores : BTreeMap K U256) (entry : K × U256) : Option (BTreeMap K U256) := do
  let contribution ← fpMul (← current[attester]?) entry.2 cfg.scale
  let contribution ← fpMul contribution decay cfg.scale
  let damped ← fpMul cfg.dampingFp contribution cfg.scale
  let score ← newScores[entry.1]?
  some (newScores.insert entry.1 (← add score damped))

/-- The decay that a source's contributions carry. -/
def sourceDecay (decays : Option (BTreeMap K U256)) (s : U256) (attester : K) : U256 :=
  match decays with
  | none => s
  | some values => values.getD attester 0

/-- What a node sends on in one iteration. -/
def pushRow (cfg : RankConfig K) (decays : Option (BTreeMap K U256))
    (ratios : BTreeMap K (List (K × U256))) (current newScores : BTreeMap K U256) (attester : K) :
    Option (BTreeMap K U256) :=
  match ratios[attester]? with
  | none => some newScores
  | some row => row.foldlM (pushEdge cfg current attester (sourceDecay decays cfg.scale attester)) newScores

/-- The scores that every iteration starts from. -/
def teleportScores (nodes : List K) (cfg : RankConfig K) (initial : BTreeMap K U256) :
    Option (BTreeMap K U256) :=
  let baseTeleport := cfg.scale - cfg.dampingFp
  BTreeMap.tabulateM nodes fun node => do fpMul baseTeleport (← initial[node]?) cfg.scale

/-- The new scores of one iteration. Sources stay in node order. -/
def pushScores (nodes : List K) (cfg : RankConfig K) (decays : Option (BTreeMap K U256))
    (ratios : BTreeMap K (List (K × U256))) (teleport current : BTreeMap K U256) :
    Option (BTreeMap K U256) :=
  nodes.foldlM (pushRow cfg decays ratios current) teleport

/-- The distance between a new and a previous score. -/
def scoreDelta (newScore prev : U256) : U256 := if prev < newScore then newScore - prev else prev - newScore

/-- The convergence test of one node: a node that trust does not reach takes no part. -/
def deltaStep (decays : Option (BTreeMap K U256)) (newScores current : BTreeMap K U256)
    (maxDelta : U256) (recipient : K) : Option U256 :=
  if decays.any fun reachable => !reachable.contains recipient then some maxDelta
  else do
    let delta := scoreDelta (← newScores[recipient]?) (← current[recipient]?)
    some (if maxDelta < delta then delta else maxDelta)

/-- The largest change of a node between two iterations. -/
def maxDelta (nodes : List K) (decays : Option (BTreeMap K U256))
    (newScores current : BTreeMap K U256) : Option U256 :=
  nodes.foldlM (deltaStep decays newScores current) 0

/-- The iteration loop: `remaining` rounds are left and `iterations` have been run. -/
def iterate (nodes : List K) (cfg : RankConfig K) (decays : Option (BTreeMap K U256))
    (ratios : BTreeMap K (List (K × U256))) (teleport : BTreeMap K U256) :
    (remaining iterations : Nat) → BTreeMap K U256 → Option (BTreeMap K U256 × Nat × Bool)
  | 0, iterations, current => some (current, iterations, false)
  | remaining + 1, iterations, current => do
    let newScores ← pushScores nodes cfg decays ratios teleport current
    let iterationTotal ← sum (newScores.toList.map Prod.snd)
    -- the in-guest assertion that total standing stays within the scale
    if cfg.scale < iterationTotal then none
    else do
      let delta ← maxDelta nodes decays newScores current
      if delta < cfg.toleranceFp then some (newScores, iterations + 1, true)
      else iterate nodes cfg decays ratios teleport remaining (iterations + 1) newScores

/-- The node that flooring dust is assigned to: the first one with a positive score, else the first
reachable one, else the first one. -/
def dustRecipient (scores : BTreeMap K U256) (reachable : Option (BTreeMap K U256)) : Option K :=
  ((scores.toList.find? fun entry => entry.2 != 0).map Prod.fst).or <|
    (reachable.bind fun nodes => nodes.keys.find? fun node => scores.contains node).or
      scores.keys.head?

/-- Scores as a share of the scale, rounded down. -/
def scaleScores (scores : BTreeMap K U256) (total scale : U256) : Option (BTreeMap K U256) :=
  if total = 0 then some scores
  else BTreeMap.tabulateM scores.keys fun node => do fpDiv (← scores[node]?) total scale

/-- Scores as a share of the scale, with the flooring dust on one node. -/
def normalize (scores : BTreeMap K U256) (scale : U256) (reachable : Option (BTreeMap K U256)) :
    Option (BTreeMap K U256) := do
  let total ← sum (scores.toList.map Prod.snd)
  let scores ← scaleScores scores total scale
  if scores.isEmpty then some scores
  else do
    let normalizedTotal ← sum (scores.toList.map Prod.snd)
    let remainder ← sub scale normalizedTotal
    if remainder = 0 then some scores
    else do
      let recipient ← dustRecipient scores reachable
      let score ← scores[recipient]?
      some (scores.insert recipient (← add score remainder))

def saturatingU64 (n : Nat) : Nat := min n (2 ^ 64 - 1)

/-- The nodes that are ranked: a configured seed is part of the universe even without live edges. -/
def rankNodes (nodes : List K) (seeds : BTreeSet K) : List K :=
  (BTreeSet.ofList (nodes ++ seeds.toList)).toList

/-- The decays of the reachable nodes, none when trust is off. -/
def trustDecays (outgoing : Outgoing K) (cfg : RankConfig K) : Option (Option (BTreeMap K U256)) :=
  if cfg.seeds.isEmpty then some none
  else do some (some (← bfsDecays outgoing cfg.seeds cfg.trustDecayFp cfg.scale))

/-- Normalized PageRank scores and convergence telemetry over any node key. -/
def calculateGenericDetailed (nodes : List K) (outgoing : Outgoing K) (cfg : RankConfig K) :
    Option (RankResult K) :=
  let nodes := rankNodes nodes cfg.seeds
  if !assertEdgeClosure nodes outgoing then none
  else
    let n := nodes.length
    let uniqueNodes := saturatingU64 n
    let liveEdges := saturatingU64 (outgoing.toList.map fun row => row.2.size).sum
    let maxOutDegree := saturatingU64 ((outgoing.toList.map fun row => row.2.size).foldl max 0)
    if n = 0 then some ⟨∅, 0, true, uniqueNodes, liveEdges, maxOutDegree⟩
    else do
      let s := cfg.scale
      let decays ← trustDecays outgoing cfg
      let initial ← initializeScores nodes cfg decays
      if cfg.maxIterations = 0 then do
        -- no iterative arithmetic is evaluated at the zero-iteration boundary
        let scores ← normalize initial s decays
        some ⟨scores, 0, false, uniqueNodes, liveEdges, maxOutDegree⟩
      else do
        let ratios ← hoistRatios nodes outgoing s decays
        let teleport ← teleportScores nodes cfg initial
        let (current, iterations, converged) ←
          iterate nodes cfg decays ratios teleport cfg.maxIterations.toNat 0 initial
        let scores ← normalize current s decays
        some ⟨scores, iterations, converged, uniqueNodes, liveEdges, maxOutDegree⟩

/-- The kernel without its telemetry. -/
def calculateGeneric (nodes : List K) (outgoing : Outgoing K) (cfg : RankConfig K) :
    Option (BTreeMap K U256) := do
  some (← calculateGenericDetailed nodes outgoing cfg).scores

end Trustgraphs.Pagerank
