import Trustgraphs.WeightedPriorCore.Manifest
import Trustgraphs.ZkCore.Cid

/-!
# Reconciliation of attestations (`weighted-prior-core/src/reconcile.rs`)

`buildGraph` sorts all events by time and keeps the state of the pairs in nested maps. `buildFlatGraph`
sorts by pair first and runs through each pair's events on its own. A panic of the source is `none`.
-/

namespace Trustgraphs.WeightedPrior

structure Graph where
  nodes : List Address
  /-- Relative edge weights. Self loops are kept here and left out of the transitions. -/
  outgoing : BTreeMap Address (BTreeMap Address UInt64)

/-- The graph in compressed rows. -/
structure FlatGraph where
  nodes : List Address
  /-- The final states of the pairs, in ascending order. -/
  edges : List (Address × Address × UInt64)
deriving DecidableEq

/-- The word in the ABI head slot `index`, `none` when the data is too short. -/
def decodeWeight (data : Bytes) (index : UInt32) : Option U256 :=
  let start := index.toNat * 32
  let stop := start + 32
  if data.length < stop then none
  else some (BitVec.ofNat 256 (ofBeBytes ((data.drop start).take 32)))

/-- `Ord::clamp`, which panics on empty bounds. -/
def clamp (x lo hi : UInt64) : Option UInt64 :=
  if hi < lo then none else some (if x < lo then lo else if hi < x then hi else x)

/-- The confidence of an attestation within the weight bounds. -/
def edgeWeight (edge : RawEdge) (p : Params) : Option UInt64 :=
  let decoded := (decodeWeight edge.data p.weightFieldIndex).getD 0
  if p.maxWeight.toNat < decoded.toNat then some p.maxWeight
  else do clamp (← Checked.u64 decoded.toNat) p.minWeight p.maxWeight

/-- The current uid and weight of every pair. -/
abbrev Current := BTreeMap Address (BTreeMap Address (B256 × UInt64))

/-- Timestamp first, then the fold position. -/
def timeOrder (a b : RawEdge × Nat) : Bool :=
  a.1.blockTimestamp < b.1.blockTimestamp || (a.1.blockTimestamp == b.1.blockTimestamp && a.2 ≤ b.2)

/-- One edge at the edges that stand. -/
def applyEvent (p : Params) (current : Current) (edge : RawEdge) : Option Current :=
  if edge.kind = 0 then do
    let recipients := current.getD edge.attester ∅
    some (current.insert edge.attester
      (recipients.insert edge.recipient (edge.uid, ← edgeWeight edge p)))
  else if edge.kind = 1 then
    match current[edge.attester]? with
    | none => some current
    | some recipients =>
      let recipients :=
        if recipients[edge.recipient]?.any fun entry => entry.1 == edge.uid then
          recipients.erase edge.recipient
        else recipients
      if recipients.isEmpty then some (current.erase edge.attester)
      else some (current.insert edge.attester recipients)
  else some current

def ofCurrent (current : Current) : Graph :=
  let (outgoing, nodes) := current.toList.foldl
    (fun (st : BTreeMap Address (BTreeMap Address UInt64) × BTreeSet Address) row =>
      (st.1.insert row.1 (row.2.map fun _ entry => entry.2),
        row.2.keys.foldl (fun nodes recipient => nodes.insert recipient) (st.2.insert row.1)))
    (∅, ∅)
  ⟨nodes.toList, outgoing⟩

def buildGraph (edges : List RawEdge) (p : Params) : Option Graph := do
  let indexed := edges.zipIdx.insertionSort fun a b => timeOrder a b
  let current ← (indexed.map Prod.fst).foldlM (applyEvent p) ∅
  some (ofCurrent current)

def pairLt (a b : RawEdge) : Bool :=
  a.attester < b.attester || (a.attester == b.attester && a.recipient < b.recipient)

/-- Every event is an attestation, and the pairs ascend strictly. -/
def canonicalUniqueAttests (edges : List RawEdge) : Bool :=
  edges.all (fun edge => edge.kind == 0) &&
    (edges.zip edges.tail).all fun pair => pairLt pair.1 pair.2

/-- The nodes in ascending order, each once. -/
def sortDedup (nodes : List Address) : List Address := (nodes.insertionSort (· ≤ ·)).dedup

/-- The attester, then the recipient, the timestamp and the fold position. -/
def pairOrder (a b : RawEdge × Nat) : Bool :=
  a.1.attester < b.1.attester || (a.1.attester == b.1.attester &&
    (a.1.recipient < b.1.recipient || (a.1.recipient == b.1.recipient && timeOrder a b)))

/-- One event at what stands for a pair. -/
def pairEvent (p : Params) (current : Option (B256 × UInt64)) (edge : RawEdge) :
    Option (Option (B256 × UInt64)) :=
  if edge.kind = 0 then do some (some (edge.uid, ← edgeWeight edge p))
  else if edge.kind = 1 ∧ current.any fun entry => entry.1 == edge.uid then some none
  else some current

/-- The events of the pair of the first one, and the events behind them. -/
def spanPair : List RawEdge → List RawEdge × List RawEdge
  | [] => ([], [])
  | edge :: edges =>
    (edge :: edges).span fun other => other.attester == edge.attester && other.recipient == edge.recipient

theorem length_spanPair (edge : RawEdge) (edges : List RawEdge) :
    (spanPair (edge :: edges)).2.length < (edge :: edges).length := by
  rw [spanPair, List.span_eq_takeWhile_dropWhile, List.dropWhile_cons_of_pos (by simp)]
  exact Nat.lt_succ_of_le (List.length_dropWhile_le ..)

/-- The runs of equal pairs, from the cursor on. -/
def scanPairs (p : Params) : List RawEdge → Option (List (Address × Address × UInt64))
  | [] => some []
  | edge :: edges => do
    let current ← (spanPair (edge :: edges)).1.foldlM (pairEvent p) none
    let rest ← scanPairs p (spanPair (edge :: edges)).2
    match current with
    | none => some rest
    | some (_, weight) => some ((edge.attester, edge.recipient, weight) :: rest)
termination_by edges => edges.length
decreasing_by exact length_spanPair edge edges

/-- The graph of folded edges, with no nested maps. -/
def buildFlatGraph (edges : List RawEdge) (p : Params) : Option FlatGraph :=
  if canonicalUniqueAttests edges then do
    let flatEdges ← edges.mapM fun edge => do some (edge.attester, edge.recipient, ← edgeWeight edge p)
    some ⟨sortDedup (edges.flatMap fun edge => [edge.attester, edge.recipient]), flatEdges⟩
  else do
    let ordered := edges.zipIdx.insertionSort fun a b => pairOrder a b
    let flatEdges ← scanPairs p (ordered.map Prod.fst)
    some ⟨sortDedup (flatEdges.flatMap fun edge => [edge.1, edge.2.1]), flatEdges⟩

end Trustgraphs.WeightedPrior

/-!
# The mass-conserving rank (`weighted-prior-core/src/rank.rs`, `compute.rs`)

`calculateReference` is the address-keyed audit oracle. `calculateFlat` is the kernel of the guest: it
numbers the accounts and works on vectors.
-/

namespace Trustgraphs.WeightedPrior

open Outcome Checked

abbrev U128 := BitVec 128

def widen (a : UInt64) : U128 := BitVec.ofNat 128 a.toNat

/-- The rank vector by account, and how many iterations were run. -/
structure RankResult where
  scores : BTreeMap Address UInt64
  iterations : UInt32

def sumWide (l : List UInt64) : Weighted U128 :=
  orOverflow (l.foldlM (fun total a => add total (widen a)) 0)

def sumWords (l : List UInt64) : Weighted UInt64 := orOverflow (l.foldlM add64 0)

def absDiff (a b : UInt64) : UInt64 := if a < b then b - a else a - b

/-- The largest difference, zero when there is none. -/
def maxDelta (deltas : List UInt64) : UInt64 := deltas.foldl (fun m d => if m < d then d else m) 0

/-- The order of service: larger remainders first, then the smaller key. -/
def remainderOrder {K : Type} [LinearOrder K] (a b : U128 × K) : Bool :=
  b.1 < a.1 || (a.1 == b.1 && a.2 ≤ b.2)

/-- One of the units that rounding leaves. -/
def giveUnit (values : List UInt64) (index : Nat) : Weighted (List UInt64) := do
  let value ← ofPanic values[index]?
  let value ← orOverflow (add64 value 1)
  .ok (values.set index value)

/-! ## The reference -/

structure Apportioning where
  seen : BTreeSet Address
  numeratorSum : U128
  rows : List (Address × UInt64 × U128)

def apportionItem (budget : UInt64) (denominator : U128) (st : Apportioning)
    (item : Address × UInt64) : Weighted Apportioning :=
  if st.seen.contains item.1 then fail .invalidApportionment
  else do
    let numeratorSum ← orOverflow (add st.numeratorSum (widen item.2))
    let product ← orOverflow (mul (widen item.2) (widen budget))
    let floor ← orOverflow (u64 (product / denominator).toNat)
    .ok ⟨st.seen.insert item.1, numeratorSum, st.rows ++ [(item.1, floor, product % denominator)]⟩

/-- Largest-remainder allocation of a budget, ties by address. -/
def apportion (items : List (Address × UInt64)) (budget : UInt64) (denominator : U128) :
    Weighted (BTreeMap Address UInt64) :=
  if items = [] ∨ denominator = 0 then fail .invalidApportionment
  else do
    let st ← items.foldlM (apportionItem budget denominator) ⟨∅, 0, []⟩
    if st.numeratorSum ≠ denominator then fail .invalidApportionment
    else do
      let floors := st.rows.map fun row => row.2.1
      let floorSum ← sumWords floors
      match sub64 budget floorSum with
      | none => fail .invalidApportionment
      | some missing =>
        if missing.toNat > st.rows.length then fail .invalidApportionment
        else do
          let order := ((st.rows.map fun row => (row.2.2, row.1)).zipIdx).insertionSort fun a b =>
            remainderOrder a.1 b.1
          let values ← ((order.map Prod.snd).take missing.toNat).foldlM giveUnit floors
          .ok (BTreeMap.ofEntries ((st.rows.map Prod.fst).zip values))

/-- The accounts of the prior and of the graph, ascending. -/
def accounts (prior : List PriorEntry) (nodes : List Address) : List Address :=
  (BTreeSet.ofList (prior.map (·.account) ++ nodes)).toList

def priorByAccount (prior : List PriorEntry) : BTreeMap Address UInt64 :=
  BTreeMap.ofEntries (prior.map fun entry => (entry.account, entry.weight))

def initialScores (graph : Graph) (prior : List PriorEntry) : BTreeMap Address UInt64 :=
  BTreeMap.tabulate (accounts prior graph.nodes) fun account => ((priorByAccount prior)[account]?).getD 0

/-- Add a contribution to the score of an account. -/
def addScore (scores : BTreeMap Address UInt64) (e : Address × UInt64) :
    Weighted (BTreeMap Address UInt64) := do
  let value ← orOverflow (add64 (scores.getD e.1 0) e.2)
  .ok (scores.insert e.1 value)

/-- The positive edges of a source to others. -/
def transition (graph : Graph) (source : Address) : List (Address × UInt64) :=
  match graph.outgoing[source]? with
  | none => []
  | some row => row.toList.filter fun e => e.1 != source && 0 < e.2

/-- The budget of one source goes to its targets, or is dangling when there are none. -/
def spreadSource (graph : Graph) (st : BTreeMap Address UInt64 × UInt64) (source : Address × UInt64) :
    Weighted (BTreeMap Address UInt64 × UInt64) :=
  let row := transition graph source.1
  if row = [] then do
    let dangling ← orOverflow (add64 st.2 source.2)
    .ok (st.1, dangling)
  else do
    let denominator ← sumWide (row.map Prod.snd)
    let contributions ← apportion row source.2 denominator
    let scores ← contributions.toList.foldlM addScore st.1
    .ok (scores, st.2)

/-- What the prior receives: the undamped part and what is dangling. -/
def priorBudget (dampingFp dangling : UInt64) : Weighted UInt64 :=
  orOverflow do
    let base ← sub64 SCALE dampingFp
    add64 base dangling

/-- The rank vector has to sum to `SCALE`. -/
def checkSum (scores : List UInt64) : Weighted Unit := do
  let sum ← sumWords scores
  if sum ≠ SCALE then fail (.invalidNormalizedSum sum) else .ok ()

structure Iteration where
  sourceBudgets : BTreeMap Address UInt64
  danglingBudget : UInt64
  priorBudget : UInt64
  scores : BTreeMap Address UInt64

/-- One iteration of the reference. -/
def nextIteration (graph : Graph) (prior : List PriorEntry) (current : BTreeMap Address UInt64)
    (dampingFp : UInt64) : Weighted Iteration := do
  checkSum (current.toList.map Prod.snd)
  let sourceBudgets ← apportion current.toList dampingFp (widen SCALE)
  let zeros := BTreeMap.tabulate current.keys fun _ => (0 : UInt64)
  let (scores, dangling) ← sourceBudgets.toList.foldlM (spreadSource graph) (zeros, 0)
  let budget ← priorBudget dampingFp dangling
  let teleport ← apportion (prior.map fun entry => (entry.account, entry.weight)) budget (widen SCALE)
  let scores ← teleport.toList.foldlM addScore scores
  checkSum (scores.toList.map Prod.snd)
  .ok ⟨sourceBudgets, dangling, budget, scores⟩

/-- The iterations that are left, from the given number on. -/
def referenceLoop (graph : Graph) (prior : List PriorEntry) (p : Params) :
    Nat → UInt32 → BTreeMap Address UInt64 → Weighted RankResult
  | 0, _, current => .ok ⟨current, p.maxIterations⟩
  | left + 1, iteration, current => do
    let next ← nextIteration graph prior current p.dampingFp
    let deltas ← current.toList.mapM fun e => do
      let value ← ofPanic next.scores[e.1]?
      .ok (absDiff e.2 value)
    if maxDelta deltas < p.toleranceFp then .ok ⟨next.scores, iteration⟩
    else referenceLoop graph prior p left (iteration + 1) next.scores

/-- The reference kernel. -/
def calculateReference (graph : Graph) (prior : List PriorEntry) (p : Params) : Weighted RankResult :=
  referenceLoop graph prior p p.maxIterations.toNat 1 (initialScores graph prior)

/-! ## Multiply and divide -/

def BASE : UInt64 := 1000000000

/-- `numerator * budget / 10^18` and the remainder, with words of 64 bits only. -/
def mulScaleRem (numerator budget : UInt64) : Weighted (UInt64 × UInt64) := do
  let numeratorHigh := numerator / BASE
  let numeratorLow := numerator % BASE
  let budgetHigh := budget / BASE
  let budgetLow := budget % BASE
  let high ← orOverflow (mul64 numeratorHigh budgetHigh)
  let cross ← orOverflow do
    let left ← mul64 numeratorHigh budgetLow
    let right ← mul64 numeratorLow budgetHigh
    add64 left right
  let tail ← orOverflow do
    let value ← mul64 (cross % BASE) BASE
    let low ← mul64 numeratorLow budgetLow
    add64 value low
  let quotient ← orOverflow do
    let value ← add64 high (cross / BASE)
    add64 value (tail / SCALE)
  .ok (quotient, tail % SCALE)

def divideBit (low : UInt64) (divisor : U128) (st : UInt64 × U128) (bit : Nat) : UInt64 × U128 :=
  let remainder := (st.2 <<< 1) ||| widen ((low >>> UInt64.ofNat bit) &&& 1)
  if divisor ≤ remainder then (st.1 ||| (1 <<< UInt64.ofNat bit), remainder - divisor)
  else (st.1, remainder)

/-- `numerator * budget / denominator` and the remainder. -/
def mulDivRem (numerator budget : UInt64) (denominator : U128) : Weighted (UInt64 × U128) :=
  if denominator = 0 then fail .invalidApportionment
  else if denominator = widen SCALE ∧ numerator ≤ SCALE ∧ budget ≤ SCALE then do
    let (quotient, remainder) ← mulScaleRem numerator budget
    .ok (quotient, widen remainder)
  else
    match u64 denominator.toNat with
    | some denominator64 =>
      match mul64 numerator budget with
      | some product => .ok (product / denominator64, widen (product % denominator64))
      | none =>
        let product := widen numerator * widen budget
        let high := UInt64.ofNat (product >>> 64).toNat
        let low := UInt64.ofNat product.toNat
        if denominator64 ≤ high then fail .arithmeticOverflow
        else .ok ((List.range 64).reverse.foldl (divideBit low (widen denominator64)) (0, widen high))
    | none => do
      -- the weights of the row sum above `2^64 - 1`
      let product ← orOverflow (mul (widen numerator) (widen budget))
      let quotient ← orOverflow (u64 (product / denominator).toNat)
      .ok (quotient, product % denominator)

/-! ## The kernel of the guest -/

/-- The floors, their sum and the remainders so far. -/
structure Floors where
  values : List UInt64
  remainders : List U128
  floorSum : UInt64

/-- One numerator's floor and remainder. -/
def addFloor (budget : UInt64) (denominator : U128) (st : Floors) (numerator : UInt64) : Weighted Floors := do
  let (floor, remainder) ← mulDivRem numerator budget denominator
  let floorSum ← orOverflow (add64 st.floorSum floor)
  .ok ⟨st.values ++ [floor], st.remainders ++ [remainder], floorSum⟩

/-- Largest-remainder allocation of a budget, ties by index. -/
def allocateIndexed (numerators : List UInt64) (budget : UInt64) (denominator : U128) :
    Weighted (List UInt64) :=
  if numerators = [] ∨ denominator = 0 then fail .invalidApportionment
  else do
    let sum ← sumWide numerators
    if sum ≠ denominator then fail .invalidApportionment
    else do
      let st ← numerators.foldlM (addFloor budget denominator) ⟨[], [], 0⟩
      match sub64 budget st.floorSum with
      | none => fail .invalidApportionment
      | some missing =>
        if missing.toNat > st.values.length then fail .invalidApportionment
        else
          let order := st.remainders.zipIdx.insertionSort fun a b => remainderOrder a b
          ((order.map Prod.snd).take missing.toNat).foldlM giveUnit st.values

/-- Add a contribution to the score of an index. -/
def addIndexed (next : List UInt64) (e : (Nat × UInt64) × UInt64) : Weighted (List UInt64) := do
  let value ← ofPanic next[e.1.1]?
  let value ← orOverflow (add64 value e.2)
  .ok (next.set e.1.1 value)

/-- The budget of one source goes to its row, or is dangling when the row is empty. -/
def spreadIndexed (outgoing : List (List (Nat × UInt64))) (st : List UInt64 × UInt64)
    (source : UInt64 × Nat) : Weighted (List UInt64 × UInt64) := do
  let row ← ofPanic outgoing[source.2]?
  if row = [] then do
    let dangling ← orOverflow (add64 st.2 source.1)
    .ok (st.1, dangling)
  else do
    let weights := row.map Prod.snd
    let denominator ← sumWide weights
    let contributions ← allocateIndexed weights source.1 denominator
    let next ← (row.zip contributions).foldlM addIndexed st.1
    .ok (next, st.2)

/-- Add the contributions score by score. -/
def addAll : List UInt64 → List UInt64 → Weighted (List UInt64)
  | score :: scores, contribution :: contributions => do
    let value ← orOverflow (add64 score contribution)
    let rest ← addAll scores contributions
    .ok (value :: rest)
  | scores, _ => .ok scores

/-- One iteration on indices. -/
def indexedStep (priorWeights : List UInt64) (outgoing : List (List (Nat × UInt64)))
    (dampingFp : UInt64) (size : Nat) (current : List UInt64) : Weighted (List UInt64) := do
  let sourceBudgets ← allocateIndexed current dampingFp (widen SCALE)
  let (next, dangling) ← sourceBudgets.zipIdx.foldlM (spreadIndexed outgoing)
    (List.replicate size 0, 0)
  let budget ← priorBudget dampingFp dangling
  let teleport ← allocateIndexed priorWeights budget (widen SCALE)
  let next ← addAll next teleport
  checkSum next
  .ok next

/-- The iterations that are left, from the given number on. -/
def indexedLoop (priorWeights : List UInt64) (outgoing : List (List (Nat × UInt64))) (p : Params)
    (size : Nat) : Nat → UInt32 → List UInt64 → Weighted (List UInt64 × UInt32)
  | 0, _, current => .ok (current, p.maxIterations)
  | left + 1, iteration, current => do
    let next ← indexedStep priorWeights outgoing p.dampingFp size current
    let deltas := (current.zip next).map fun e => absDiff e.1 e.2
    if maxDelta deltas < p.toleranceFp then .ok (next, iteration)
    else indexedLoop priorWeights outgoing p size left (iteration + 1) next

def runIndexed (nodes : List Address) (priorWeights : List UInt64)
    (outgoing : List (List (Nat × UInt64))) (p : Params) : Weighted RankResult := do
  let (current, completed) ←
    indexedLoop priorWeights outgoing p nodes.length p.maxIterations.toNat 1 priorWeights
  .ok ⟨BTreeMap.ofEntries (nodes.zip current), completed⟩

def indicesOf (nodes : List Address) : BTreeMap Address Nat := BTreeMap.ofEntries nodes.zipIdx

def indexPrior (indices : BTreeMap Address Nat) (size : Nat) (prior : List PriorEntry) :
    Weighted (List UInt64) :=
  prior.foldlM
    (fun weights entry => do
      let index ← ofPanic indices[entry.account]?
      if index < weights.length then .ok (weights.set index entry.weight) else .error .panic)
    (List.replicate size 0)

/-- One edge of the flat graph, pushed to the row of its source. -/
def pushEdge (indices : BTreeMap Address Nat) (outgoing : List (List (Nat × UInt64)))
    (edge : Address × Address × UInt64) : Weighted (List (List (Nat × UInt64))) := do
  let source ← ofPanic indices[edge.1]?
  let target ← ofPanic indices[edge.2.1]?
  if source ≠ target ∧ 0 < edge.2.2 then do
    let row ← ofPanic outgoing[source]?
    .ok (outgoing.set source (row ++ [(target, edge.2.2)]))
  else .ok outgoing

/-- The kernel of the guest on a flat graph. -/
def calculateFlat (graph : FlatGraph) (prior : List PriorEntry) (p : Params) : Weighted RankResult := do
  let nodes := accounts prior graph.nodes
  let indices := indicesOf nodes
  let priorWeights ← indexPrior indices nodes.length prior
  let outgoing ← graph.edges.foldlM (pushEdge indices) (List.replicate nodes.length [])
  runIndexed nodes priorWeights outgoing p

end Trustgraphs.WeightedPrior

/-!
## The weighted computation (`weighted-prior-core/src/compute.rs`)

The function that native hosts and the guest share.
-/

namespace Trustgraphs.WeightedPrior

open Outcome

/-- The nonzero scores, ascending by address. -/
def nonzeroScores (scores : BTreeMap Address UInt64) : List (Address × U256) :=
  (scores.toList.filter fun e => 0 < e.2).map fun e => (e.1, BitVec.ofNat 256 e.2.toNat)

/-- The program: the manifest, the graph, the ranks and the journal. -/
def compute (H : Hashes) (input : GuestInput) : Weighted ComputeResult := do
  ofResult id input.params.validate
  let parsed ← validateManifest H input.manifest input.params
  let (acc, leafCount) := accumulate H input.edges
  let graph ← ofPanic (buildFlatGraph input.edges input.params)
  let ranked ← calculateFlat graph parsed.entries input.params
  let scores := nonzeroScores ranked.scores
  let leaves := scores.map fun e => outputLeaf H e.1 e.2
  let outputRoot ← ofPanic (merkleRoot H leaves)
  let blob := canonicalBlob scores
  let digest := H.sha256 blob
  let cid := cidV1Raw digest
  let journal : Journal := {
    acc := acc
    leafCount := leafCount
    anchorAcc := 0
    anchorCount := 0
    paramsHash := paramsHash H input.params
    outputRoot := outputRoot
    ipfsHash := digest
    cidDigest := H.keccak256 cid
    totalValue := BitVec.ofNat 256 SCALE.toNat
    skippedDigest := 0
    recipient := input.binding.recipient
    instanceDomain := input.binding.instanceDomain }
  .ok ⟨journal, scores, blob, cid, ranked.iterations⟩

end Trustgraphs.WeightedPrior
