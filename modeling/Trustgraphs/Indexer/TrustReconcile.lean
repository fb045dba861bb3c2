import Trustgraphs.Lib.InsertionMap
import Trustgraphs.Lib.Text
import Trustgraphs.ZkCore.Edge

/-!
# Live vouches of the indexer (`packages/indexer/src/trust-reconcile.ts`)

Strings are their bytes, `bigint` and `number` are integers. The functions are generic over records that
extend a vouch; `view` is the vouch of a record.
-/

namespace Trustgraphs.Indexer

def toLowerCase (s : Bytes) : Bytes := s.map fun b => if 65 ≤ b ∧ b ≤ 90 then b + 32 else b

structure FoldedVouch where
  kind : ℤ
  attester : Bytes
  recipient : Bytes
  uid : Bytes
  blockNumber : ℤ
  logIndex : ℤ
deriving DecidableEq

structure TimedVouch where
  kind : ℤ
  attester : Bytes
  recipient : Bytes
  uid : Bytes
  timestamp : ℤ
  sourceLane : ℤ
  sourceOrder : ℤ
  sourceSuborder : ℤ
deriving DecidableEq

/-- The key of an attester and a recipient. -/
def pairKey (attester recipient : Bytes) : Bytes :=
  toLowerCase attester ++ utf8 ":" ++ toLowerCase recipient

/-- The body of the loops, on the key, the kind and the uid of a record. -/
def step {T : Type} (pair : Bytes) (kind : ℤ) (uid : T → Bytes)
    (current : InsertionMap Bytes T) (record : T) : InsertionMap Bytes T :=
  if kind = 0 then current.set pair record
  else if kind = 1 ∧
      (current.get pair).any (fun r => decide (toLowerCase (uid r) = toLowerCase (uid record))) then
    current.delete pair
  else current

/-- The comparison of accumulator records. -/
def compareFolded (a b : FoldedVouch) : ℤ :=
  if a.blockNumber < b.blockNumber then -1
  else if a.blockNumber > b.blockNumber then 1
  else a.logIndex - b.logIndex

/-- The vouches that stand after the log. -/
def currentVouches {T : Type} (view : T → FoldedVouch) (records : List T) : List T :=
  let ordered := records.insertionSort fun a b => compareFolded (view a) (view b) ≤ 0
  (ordered.foldl (fun current record =>
    step (pairKey (view record).attester (view record).recipient) (view record).kind
      (fun r => (view r).uid) current record) .empty).values

/-- The comparison of mutations of both lanes. -/
def compareTimed (a b : TimedVouch) : ℤ :=
  if a.timestamp < b.timestamp then -1
  else if a.timestamp > b.timestamp then 1
  else if a.sourceLane ≠ b.sourceLane then a.sourceLane - b.sourceLane
  else if a.sourceOrder < b.sourceOrder then -1
  else if a.sourceOrder > b.sourceOrder then 1
  else a.sourceSuborder - b.sourceSuborder

/-- The vouches that stand, in the order of their times. -/
def currentTimedVouches {T : Type} (view : T → TimedVouch) (records : List T) : List T :=
  let ordered := records.insertionSort fun a b => compareTimed (view a) (view b) ≤ 0
  (ordered.foldl (fun current record =>
    step (pairKey (view record).attester (view record).recipient) (view record).kind
      (fun r => (view r).uid) current record) .empty).values

/-! ## The records (`packages/indexer/src/api/account.ts`, `packages/indexer/src/api/network.ts`) -/

structure AccumulatorRecord where
  kind : ℤ
  attester : Bytes
  recipient : Bytes
  uid : Bytes
  blockTimestamp : ℤ
  blockNumber : ℤ
  logIndex : ℤ
deriving DecidableEq

def AccumulatorRecord.folded (row : AccumulatorRecord) : FoldedVouch :=
  ⟨row.kind, row.attester, row.recipient, row.uid, row.blockNumber, row.logIndex⟩

def AccumulatorRecord.timed (row : AccumulatorRecord) : TimedVouch :=
  ⟨row.kind, row.attester, row.recipient, row.uid, row.blockTimestamp, 0, row.blockNumber, row.logIndex⟩

/-- A mutation that the indexer derived from a log of the second lane. -/
structure Mutation where
  kind : ℤ
  owner : Bytes
  recipient : Bytes
  uid : Bytes
  time : ℤ
  firstAnchorFoldIndex : ℤ
  sequence : ℤ
deriving DecidableEq

def Mutation.timed (m : Mutation) : TimedVouch :=
  ⟨m.kind, m.owner, m.recipient, m.uid, m.time, 1, m.firstAnchorFoldIndex, m.sequence⟩

/-- `currentUidsForResolver`: the uids that are live, for a resolver with the given rows. -/
def currentUidsForResolver (rows : List AccumulatorRecord) : List Bytes :=
  (currentVouches AccumulatorRecord.folded rows).map fun row => toLowerCase row.uid

/-! ## What the rows say -/

/-- Bytes as the chain client writes them. -/
def hex (bytes : Bytes) : Bytes := utf8 "0x" ++ Text.encodeHex bytes

/-- A record is about an edge, whatever the case of its letters. -/
structure TimedVouch.Spells (v : TimedVouch) (e : RawEdge) : Prop where
  kind : v.kind = e.kind.toNat
  attester : toLowerCase v.attester = hex e.attester.bytes
  recipient : toLowerCase v.recipient = hex e.recipient.bytes
  uid : toLowerCase v.uid = hex e.uid.bytes
  timestamp : v.timestamp = e.blockTimestamp.toNat

/-- The rows of an instance in the order of its two lanes, each beside its edge. -/
structure Rows where
  lane1 : List (AccumulatorRecord × RawEdge)
  lane2 : List (Mutation × RawEdge)
  spells1 : ∀ r ∈ lane1, r.1.timed.Spells r.2
  spells2 : ∀ r ∈ lane2, r.1.timed.Spells r.2
  order1 : lane1.Pairwise fun a b => a.1.blockNumber < b.1.blockNumber ∨
    a.1.blockNumber = b.1.blockNumber ∧ a.1.logIndex < b.1.logIndex
  order2 : lane2.Pairwise fun a b => a.1.firstAnchorFoldIndex < b.1.firstAnchorFoldIndex ∨
    a.1.firstAnchorFoldIndex = b.1.firstAnchorFoldIndex ∧ a.1.sequence < b.1.sequence

/-- The edges of both lanes, the first lane first. -/
def Rows.edges (rows : Rows) : List RawEdge := rows.lane1.map Prod.snd ++ rows.lane2.map Prod.snd

/-- What the network view passes on, each record beside its edge. -/
def Rows.timed (rows : Rows) : List (TimedVouch × RawEdge) :=
  rows.lane1.map (Prod.map AccumulatorRecord.timed id) ++ rows.lane2.map (Prod.map Mutation.timed id)

end Trustgraphs.Indexer
