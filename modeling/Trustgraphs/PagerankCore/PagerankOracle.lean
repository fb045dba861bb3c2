import Trustgraphs.PagerankCore.Pagerank

/-!
# The pull oracle (`pagerank-core/src/pagerank_oracle.rs`)

The independent rank kernel that the source keeps for tests. Every recipient pulls from every
attester and computes the attester's row sum, ratio and decay power again each time.
-/

namespace Trustgraphs.PagerankOracle

open Checked

open Pagerank (Outgoing RankConfig)

variable {K : Type} [LinearOrder K]

def isSeed (seeds : BTreeSet K) (node : K) : Bool := seeds.contains node

def regularCount (seeds : BTreeSet K) (distances : Option (BTreeMap K Nat)) : Nat :=
  match distances with
  | some nodes => (nodes.keys.filter fun node => !isSeed seeds node).length
  | none => 0

/-- The share of a reachable node that is not a seed. -/
def regularShare (cfg : RankConfig K) (regularCount : Nat) : Option U256 :=
  if regularCount > 0 then do some (divCount (← sub cfg.scale cfg.trustShareFp) regularCount)
  else some 0

/-- The scores before the first iteration. -/
def initializeScores (nodes : List K) (cfg : RankConfig K) (distances : Option (BTreeMap K Nat)) :
    Option (BTreeMap K U256) :=
  let n := nodes.length
  let scale := cfg.scale
  if n = 0 then some ∅
  else if cfg.seeds.isEmpty then
    let initial := divCount scale n
    some (BTreeMap.tabulate nodes fun _ => initial)
  else do
    let trustedCount := cfg.seeds.size
    let regularCount := regularCount cfg.seeds distances
    let trustedScore := if trustedCount > 0 then divCount cfg.trustShareFp trustedCount else 0
    let regularScore ← regularShare cfg regularCount
    some <| BTreeMap.tabulate nodes fun node =>
      if isSeed cfg.seeds node then trustedScore
      else if distances.any fun distances => distances.contains node then regularScore
      else 0

/-- One edge of `current` in `bfsDistances`. -/
def bfsVisit (current : K) (distance : Nat) (st : BTreeMap K Nat × List K) (edge : K × U256) :
    BTreeMap K Nat × List K :=
  let (distances, queue) := st
  let (neighbor, weight) := edge
  if neighbor == current || weight == 0 then st
  else if !distances.contains neighbor then (distances.insert neighbor (distance + 1), queue ++ [neighbor])
  else st

/-- The `while let Some(current) = queue.pop_front()` loop of `bfsDistances`. -/
def bfsDistancesLoop (outgoing : Outgoing K) : Nat → List K → BTreeMap K Nat → Option (BTreeMap K Nat)
  | _, [], distances => some distances
  | 0, _ :: _, _ => none
  | fuel + 1, current :: queue, distances => do
    let distance ← distances[current]?
    match outgoing[current]? with
    | none => bfsDistancesLoop outgoing fuel queue distances
    | some edges =>
      let st := edges.toList.foldl (bfsVisit current distance) (distances, queue)
      bfsDistancesLoop outgoing fuel st.2 st.1

/-- The distances of the nodes that the seeds reach. -/
def bfsDistances (outgoing : Outgoing K) (seeds : BTreeSet K) : Option (BTreeMap K Nat) :=
  bfsDistancesLoop outgoing (Pagerank.bfsFuel outgoing seeds) seeds.toList
    (BTreeMap.tabulate seeds.toList fun _ => 0)

/-- `distance` more products with the base. -/
def decayPowFrom (baseFp scale : U256) : (distance : Nat) → (decay : U256) → Option U256
  | 0, decay => some decay
  | distance + 1, decay => do decayPowFrom baseFp scale distance (← fpMul decay baseFp scale)

/-- The decay at a distance, factor by factor. -/
def decayPow (baseFp : U256) (distance : Nat) (scale : U256) : Option U256 :=
  decayPowFrom baseFp scale distance scale

/-- One edge of the scan over the row of an attester. -/
def scanEdge (recipient attester : K) (st : U256 × Option U256) (edge : K × U256) :
    Option (U256 × Option U256) :=
  if edge.1 == attester || edge.2 == 0 then some st
  else do
    let totalBase ← add st.1 edge.2
    some (totalBase, if edge.1 = recipient then some edge.2 else st.2)

/-- The row sum of an attester and its weight towards the recipient, if there is any. -/
def scanRow (recipient attester : K) (edges : BTreeMap K U256) : Option (U256 × Option U256) :=
  edges.toList.foldlM (scanEdge recipient attester) (0, none)

/-- The decay of an attester, from its distance. -/
def attesterDecay (cfg : RankConfig K) (distances : Option (BTreeMap K Nat)) (attester : K) : Option U256 :=
  match distances.map fun d => d[attester]? with
  | some (some distance) => decayPow cfg.trustDecayFp distance cfg.scale
  | some none => some 0
  | none => some cfg.scale

/-- What the recipient pulls from one attester, added to its new score. -/
def pullEdge (outgoing : Outgoing K) (cfg : RankConfig K) (distances : Option (BTreeMap K Nat))
    (current : BTreeMap K U256) (recipient : K) (newScore : U256) (attester : K) : Option U256 :=
  if attester = recipient then some newScore
  else
    match outgoing[attester]? with
    | none => some newScore
    | some edges => do
      let (totalBase, toRecipient) ← scanRow recipient attester edges
      if totalBase = 0 then some newScore
      else
        match toRecipient with
        | none => some newScore
        | some baseWeight => do
          let decay ← attesterDecay cfg distances attester
          let ratio ← fpDiv baseWeight totalBase cfg.scale
          let contribution ← fpMul (← current[attester]?) ratio cfg.scale
          let contribution ← fpMul contribution decay cfg.scale
          add newScore (← fpMul cfg.dampingFp contribution cfg.scale)

/-- One recipient of an iteration: its new score, and the largest change so far. -/
def pullNode (nodes : List K) (outgoing : Outgoing K) (cfg : RankConfig K)
    (distances : Option (BTreeMap K Nat)) (initial current : BTreeMap K U256)
    (st : BTreeMap K U256 × U256) (recipient : K) : Option (BTreeMap K U256 × U256) := do
  let (newScores, maxDelta) := st
  let newScore ← fpMul (cfg.scale - cfg.dampingFp) (← initial[recipient]?) cfg.scale
  -- unreachable nodes do not take part in the convergence test
  if distances.any fun distances => !distances.contains recipient then
    some (newScores.insert recipient newScore, maxDelta)
  else do
    let newScore ← nodes.foldlM (pullEdge outgoing cfg distances current recipient) newScore
    let previous ← current[recipient]?
    let delta := if previous < newScore then newScore - previous else previous - newScore
    some (newScores.insert recipient newScore, if maxDelta < delta then delta else maxDelta)

/-- The iteration loop, with the rounds that are left. -/
def iterate (nodes : List K) (outgoing : Outgoing K) (cfg : RankConfig K)
    (distances : Option (BTreeMap K Nat)) (initial : BTreeMap K U256) :
    Nat → BTreeMap K U256 → Option (BTreeMap K U256)
  | 0, current => some current
  | remaining + 1, current => do
    let (newScores, maxDelta) ←
      nodes.foldlM (pullNode nodes outgoing cfg distances initial current) (∅, 0)
    let iterationTotal ← sum (newScores.toList.map Prod.snd)
    if cfg.scale < iterationTotal then none
    else if maxDelta < cfg.toleranceFp then some newScores
    else iterate nodes outgoing cfg distances initial remaining newScores

def scaleAll (current : BTreeMap K U256) (total scale : U256) : Option (BTreeMap K U256) :=
  if total = 0 then some current
  else BTreeMap.tabulateM current.keys fun node => do fpDiv (← current[node]?) total scale

/-- What the oracle does after its last iteration. -/
def finish (scale : U256) (distances : Option (BTreeMap K Nat)) (current : BTreeMap K U256) :
    Option (BTreeMap K U256) := do
  let total ← sum (current.toList.map Prod.snd)
  let current ← scaleAll current total scale
  if current.isEmpty then some current
  else do
    let normalizedTotal ← sum (current.toList.map Prod.snd)
    let remainder ← sub scale normalizedTotal
    if remainder = 0 then some current
    else do
      let recipient ←
        ((current.toList.find? fun entry => entry.2 != 0).map Prod.fst).or <|
          (distances.bind fun nodes => nodes.keys.find? fun node => current.contains node).or
            current.keys.head?
      let score ← current[recipient]?
      some (current.insert recipient (← add score remainder))

def trustDistances (outgoing : Outgoing K) (cfg : RankConfig K) : Option (Option (BTreeMap K Nat)) :=
  if cfg.seeds.isEmpty then some none else do some (some (← bfsDistances outgoing cfg.seeds))

/-- The oracle's ranks. -/
def calculate (nodes : List K) (outgoing : Outgoing K) (cfg : RankConfig K) : Option (BTreeMap K U256) :=
  let nodes := Pagerank.rankNodes nodes cfg.seeds
  if nodes.length = 0 then some ∅
  else do
    let distances ← trustDistances outgoing cfg
    let initial ← initializeScores nodes cfg distances
    let current ← iterate nodes outgoing cfg distances initial cfg.maxIterations.toNat initial
    finish cfg.scale distances current

end Trustgraphs.PagerankOracle
