import Trustgraphs.Envelopes.Carset

/-!
# Merkle search trees (`envelopes/src/atproto/mst.rs`)

The full walk and the range walk of a repository tree. The dag-cbor decoder of a node is a parameter.
The recursion of `walk` is bounded by a number of levels below the node it starts at, and
`Proofs/MstProofs.lean` shows how many are enough.
-/

namespace Trustgraphs.Mst

abbrev Key := Bytes

/-- An entry of a node, its key compressed against the one before. -/
structure RawEntry where
  /-- The length of the prefix shared with the previous key of the node. -/
  p : Nat
  /-- The rest of the key. -/
  k : Bytes
  v : Cid
  /-- The subtree to the right of the key. -/
  t : Option Cid

/-- A node of the tree. -/
structure RawNode where
  /-- The leftmost subtree. -/
  l : Option Cid
  e : List RawEntry

inductive MstError where
  | missing (cid : Cid)
  | decode (cid : Cid)
  | firstPrefix (cid : Cid) (p : Nat)
  | prefixTooLong (cid : Cid) (p len : Nat)
  | nonCanonicalPrefix (cid : Cid) (p shared : Nat)
  | notAscending (cid : Cid)
  | multipleLayers (cid : Cid) (l0 lk : Nat)
  | layerSkip (cid : Cid) (nodeLayer parentLayer : Nat)
  /-- Shows at most 24 bytes of the key. -/
  | keyOrder (shown : Bytes)
  /-- Not an error of the code: the bound on the recursion was too small. -/
  | tooDeep
deriving DecidableEq

def leadingZeros (b : UInt8) : Nat := if b = 0 then 8 else 7 - b.toNat.log2

/-- The leading zero bits of a byte string. -/
def countLeadingZeros : Bytes → Nat
  | [] => 0
  | b :: bs => if b = 0 then 8 + countLeadingZeros bs else leadingZeros b

/-- The layer of a key: half the leading zero bits of its hash. -/
def keyLayer (H : Hashes) (key : Key) : Nat := countLeadingZeros (H.sha256 key).bytes / 2

/-- The length of the common prefix. -/
def lcp (a b : Bytes) : Nat := ((a.zip b).takeWhile fun p => p.1 == p.2).length

/-- The range filter; no bound on either side is a full walk. -/
structure Range where
  lo : Option Key
  hi : Option Key

def Range.full : Range := ⟨none, none⟩

def Range.between (lo hi : Key) : Range := ⟨some lo, some hi⟩

/-- From the lower bound on, and below the upper one. -/
def Range.inRange (range : Range) (key : Key) : Bool :=
  if range.lo.any fun lo => key < lo then false
  else if range.hi.any fun hi => hi ≤ key then false
  else true

/-- The state of the walk: what was found, the last key and the nodes visited. -/
structure Walker where
  out : List (Key × Cid)
  prevKey : Option Key
  nodes : Nat
  nodeCids : List Cid

def Walker.init : Walker := ⟨[], none, 0, []⟩

def Walker.visit (w : Walker) (cid : Cid) : Walker :=
  { w with nodes := w.nodes + 1, nodeCids := w.nodeCids ++ [cid] }

def Walker.emit (w : Walker) (range : Range) (key : Key) (v : Cid) : Walker :=
  { w with out := if range.inRange key then w.out ++ [(key, v)] else w.out, prevKey := some key }

structure WalkOut where
  entries : List (Key × Cid)
  nodesVisited : Nat
  nodeCids : List Cid
deriving DecidableEq

/-- Rebuild the keys of a node from entry `i` on and check what holds within a node. -/
def readKeys (cid : Cid) : Nat → (prevInNode : Key) → List RawEntry → Except MstError (List Key)
  | _, _, [] => .ok []
  | i, prevInNode, e :: es =>
    if i = 0 ∧ e.p ≠ 0 then .error (.firstPrefix cid e.p)
    else if e.p > prevInNode.length then .error (.prefixTooLong cid e.p prevInNode.length)
    else
      let key := prevInNode.take e.p ++ e.k
      if i > 0 ∧ lcp prevInNode key ≠ e.p then .error (.nonCanonicalPrefix cid e.p (lcp prevInNode key))
      else if i > 0 ∧ key ≤ prevInNode then .error (.notAscending cid)
      else do
        let keys ← readKeys cid (i + 1) key es
        .ok (key :: keys)

/-- The layer of a node: that of all its keys, or one below the parent when it has none. -/
def nodeLayer (H : Hashes) (cid : Cid) (parentLayer : Option Nat) : List Key → Except MstError Nat
  | [] => .ok ((parentLayer.map (· - 1)).getD 0)
  | k :: ks =>
    match ks.find? fun k' => keyLayer H k' ≠ keyLayer H k with
    | some k' => .error (.multipleLayers cid (keyLayer H k) (keyLayer H k'))
    | none => .ok (keyLayer H k)

/-- A child pointer descends exactly one layer. -/
def checkLayer (cid : Cid) (parentLayer : Option Nat) (layer : Nat) : Except MstError Unit :=
  match parentLayer with
  | some pl => if layer + 1 ≠ pl then .error (.layerSkip cid layer pl) else .ok ()
  | none => .ok ()

section

variable (H : Hashes) (decodeNode : Bytes → Option RawNode) (car : Car) (range : Range)

/-- The block of a node, decoded. -/
def decode (cid : Cid) : Except MstError RawNode :=
  match car.get cid with
  | none => .error (.missing cid)
  | some bytes =>
    match decodeNode bytes with
    | none => .error (.decode cid)
    | some node => .ok node

/-- Fetch and decode a node, and check its keys and its layer. -/
def openNode (cid : Cid) (parentLayer : Option Nat) : Except MstError (RawNode × List Key × Nat) := do
  let node ← decode decodeNode car cid
  let keys ← readKeys cid 0 [] node.e
  let layer ← nodeLayer H cid parentLayer keys
  checkLayer cid parentLayer layer
  .ok (node, keys, layer)

/-- The walk of a subtree, given the layer of its parent. -/
abbrev Descend := Cid → Option Nat → Walker → Except MstError (Nat × Walker)

/-- Descend into a subtree between two keys unless no key of the range can be in it. -/
def maybeDescend (descend : Descend) (sub : Option Cid) (parentLayer : Nat)
    (leftKey rightKey : Option Key) (w : Walker) : Except MstError Walker :=
  match sub with
  | none => .ok w
  | some cid =>
    if range.hi.any fun hi => leftKey.any fun lk => hi ≤ lk then .ok w
    else if range.lo.any fun lo => rightKey.any fun rk => rk ≤ lo then .ok w
    else (descend cid (some parentLayer) w).map Prod.snd

/-- The entries of a node in order, each key before its right subtree. -/
def walkEntries (descend : Descend) (layer : Nat) : List (RawEntry × Key) → Walker → Except MstError Walker
  | [], w => .ok w
  | (e, key) :: rest, w =>
    if w.prevKey.any fun pk => key ≤ pk then .error (.keyOrder (key.take 24))
    else do
      let w ← maybeDescend range descend e.t layer (some key) (rest.head?.map Prod.snd) (w.emit range key e.v)
      walkEntries descend layer rest w

/-- A node: its checks, then its subtrees and entries in order. -/
def walkNode (descend : Descend) : Descend := fun cid parentLayer w => do
  let (node, keys, layer) ← openNode H decodeNode car cid parentLayer
  let w ← maybeDescend range descend node.l layer none keys.head? (w.visit cid)
  let w ← walkEntries range descend layer (node.e.zip keys) w
  .ok (layer, w)

/-- The walk of the subtree at a node, with so many levels below the node. -/
def walk : (levels : Nat) → Descend
  | 0 => walkNode H decodeNode car range fun _ _ _ => .error .tooDeep
  | levels + 1 => walkNode H decodeNode car range (walk levels)

/-- One more than the highest layer a key can have. -/
def maxLevels : Nat := 129

/-- The walk from a root. -/
def run (root : Cid) : Except MstError WalkOut := do
  let (_, w) ← walk H decodeNode car range maxLevels root none .init
  .ok ⟨w.out, w.nodes, w.nodeCids⟩

/-- The layer of the root of a tree, 0 when it has no keys or cannot be read. -/
def rootLayer (root : Cid) : Nat :=
  match openNode H decodeNode car root none with
  | .ok (_, _, layer) => layer
  | .error _ => 0

end

end Trustgraphs.Mst
