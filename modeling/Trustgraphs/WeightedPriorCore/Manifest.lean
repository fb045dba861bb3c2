import Trustgraphs.Lib.BTree
import Trustgraphs.Lib.Outcome
import Trustgraphs.Lib.Text
import Trustgraphs.ZkCore.Edge
import Trustgraphs.ZkCore.Merkle

/-!
# Prior manifests (`weighted-prior-core/src/manifest.rs`)

A `TGWP` manifest is a header and one record per account, in ascending order of the accounts. Its
weights sum to `SCALE`.
-/

/-! ## The weighted-prior program (`weighted-prior-core/src/lib.rs`, `weighted-prior-core/src/encode.rs`) -/

namespace Trustgraphs.WeightedPrior

def SCALE : UInt64 := 1000000000000000000

theorem SCALE_pos : 0 < SCALE.toNat := by decide

def PARAMS_VERSION : UInt32 := 1

def MAX_PRIOR_ENTRIES : Nat := 2048

def MAX_ITERATIONS : UInt32 := 40

def MANIFEST_MAGIC : Bytes := utf8 "TGWP"

def MANIFEST_VERSION : UInt16 := 1

inductive WeightedError where
  | emptyPrior
  | tooManyPriorEntries (count : Nat)
  | nonCanonicalDecimal (value : Bytes)
  | zeroAddress
  | duplicateAccount (account : Address)
  | accountsNotStrictlySorted (account : Address)
  | zeroWeight (account : Address)
  | zeroAfterNormalization (account : Address)
  | invalidNormalizedSum (sum : UInt64)
  | manifestTooShort (length : Nat)
  | invalidManifestLength (expected actual : Nat)
  | invalidManifestMagic
  | unsupportedManifestVersion (version : UInt16)
  | wrongManifestChain (expected actual : UInt64)
  | manifestCountMismatch (expected actual : UInt32)
  | priorRootMismatch (expected actual : B256)
  | manifestDigestMismatch (expected actual : B256)
  | unsupportedParamsVersion (version : UInt32)
  | invalidDamping (damping : UInt64)
  | invalidTolerance (tolerance : UInt64)
  | invalidIterationCount (count : UInt32)
  | invalidWeightBounds (min max : UInt64)
  | invalidParamsChain (chainId : UInt64)
  | invalidApportionment
  | arithmeticOverflow
deriving DecidableEq

/-- A result of the crate: a value, one of its errors, or a panic. -/
abbrev Weighted (α : Type) := Except (Abort WeightedError) α

def fail {α : Type} (e : WeightedError) : Weighted α := .error (.error e)

/-- The value of a checked operation, `ok_or(ArithmeticOverflow)`. -/
def orOverflow {α : Type} : Option α → Weighted α
  | some a => .ok a
  | none => fail .arithmeticOverflow

/-- An account and its share of the prior. -/
structure PriorEntry where
  account : Address
  weight : UInt64
deriving DecidableEq

/-- Governance-pinned parameters. Edge weights are relative integers; the prior and every rank vector
are at `SCALE`. -/
structure Params where
  version : UInt32
  dampingFp : UInt64
  toleranceFp : UInt64
  maxIterations : UInt32
  minWeight : UInt64
  maxWeight : UInt64
  priorRoot : B256
  priorCount : UInt32
  manifestSha256 : B256
  schemaUid : B256
  weightFieldIndex : UInt32
  accumulator : Address
  chainId : UInt64
deriving DecidableEq

structure Binding where
  recipient : Address
  instanceDomain : B256

structure GuestInput where
  edges : List RawEdge
  params : Params
  /-- The `TGWP` bytes. -/
  manifest : Bytes
  binding : Binding

structure ComputeResult where
  journal : Journal
  /-- The nonzero scores, ascending by address. -/
  scores : List (Address × U256)
  blob : Bytes
  cid : Bytes
  iterations : UInt32

/-- The ranges of the parameters. -/
def Params.validate (p : Params) : Except WeightedError Unit :=
  if p.version ≠ PARAMS_VERSION then .error (.unsupportedParamsVersion p.version)
  else if p.dampingFp = 0 ∨ SCALE ≤ p.dampingFp then .error (.invalidDamping p.dampingFp)
  else if SCALE < p.toleranceFp then .error (.invalidTolerance p.toleranceFp)
  else if p.maxIterations = 0 ∨ MAX_ITERATIONS < p.maxIterations then
    .error (.invalidIterationCount p.maxIterations)
  else if p.maxWeight = 0 ∨ p.maxWeight < p.minWeight then
    .error (.invalidWeightBounds p.minWeight p.maxWeight)
  else if p.priorCount = 0 ∨ MAX_PRIOR_ENTRIES < p.priorCount.toNat then
    .error (.tooManyPriorEntries p.priorCount.toNat)
  else if p.chainId = 0 then .error (.invalidParamsChain p.chainId)
  else .ok ()

def paramsEncoded (p : Params) : Bytes :=
  wordU32 p.version ++ wordU64 p.dampingFp ++ wordU64 p.toleranceFp ++ wordU32 p.maxIterations ++
    wordU64 p.minWeight ++ wordU64 p.maxWeight ++ p.priorRoot.bytes ++ wordU32 p.priorCount ++
    p.manifestSha256.bytes ++ p.schemaUid.bytes ++ wordU32 p.weightFieldIndex ++
    wordAddr p.accumulator ++ wordU64 p.chainId

def paramsHash (H : Hashes) (p : Params) : B256 := H.keccak256 (paramsEncoded p)

end Trustgraphs.WeightedPrior

/-! ## The parser -/

namespace Trustgraphs.WeightedPrior

open Outcome

structure ParsedManifest where
  chainId : UInt64
  entries : List PriorEntry
  root : B256
  sha256 : B256
deriving DecidableEq

/-- One entry against the one before it, and the running sum. -/
def checkEntry (st : Option Address × UInt64) (entry : PriorEntry) :
    Except WeightedError (Option Address × UInt64) :=
  if entry.account = 0 then .error .zeroAddress
  else if entry.weight = 0 then .error (.zeroWeight entry.account)
  else if st.1 = some entry.account then .error (.duplicateAccount entry.account)
  else if st.1.any fun previous => entry.account < previous then
    .error (.accountsNotStrictlySorted entry.account)
  else
    (Checked.add64 st.2 entry.weight).elim (.error .arithmeticOverflow) fun sum =>
      .ok (some entry.account, sum)

/-- The accounts ascend, and the weights sum up to the scale. -/
def validateNormalized (entries : List PriorEntry) : Except WeightedError Unit :=
  if entries = [] then .error .emptyPrior
  else if entries.length > MAX_PRIOR_ENTRIES then .error (.tooManyPriorEntries entries.length)
  else do
    let (_, sum) ← entries.foldlM checkEntry (none, 0)
    if sum ≠ SCALE then .error (.invalidNormalizedSum sum) else .ok ()

/-- The leaf of an entry: `keccak256(abi.encode(address, uint256))`. -/
def priorLeaf (H : Hashes) (entry : PriorEntry) : B256 :=
  H.keccak256 (wordAddr entry.account ++ wordU64 entry.weight)

/-- The parents of a level. An odd node is promoted. -/
def nextLevel (H : Hashes) : List B256 → List B256
  | [] => []
  | [node] => [node]
  | left :: right :: rest => hashPair H left right :: nextLevel H rest

theorem length_nextLevel (H : Hashes) (level : List B256) :
    (nextLevel H level).length = (level.length + 1) / 2 := by
  induction level using nextLevel.induct with
  | case1 => rfl
  | case2 node => simp [nextLevel]
  | case3 left right rest ih =>
    rw [nextLevel, List.length_cons, ih, List.length_cons, List.length_cons]
    omega

/-- The levels up to the root. -/
def reduceLevels (H : Hashes) (level : List B256) : List B256 :=
  if 1 < level.length then reduceLevels H (nextLevel H level) else level
termination_by level.length
decreasing_by rw [length_nextLevel]; omega

def priorRoot (H : Hashes) (entries : List PriorEntry) : Weighted B256 := do
  ofResult id (validateNormalized entries)
  ofPanic (reduceLevels H (entries.map (priorLeaf H)))[0]?

def manifestDigest (H : Hashes) (bytes : Bytes) : B256 := H.sha256 bytes

def slice (bytes : Bytes) (start stop : Nat) : Bytes := (bytes.drop start).take (stop - start)

/-- The consecutive pieces of `n` bytes, without a rest that is shorter. -/
def chunksExact (n : Nat) (bytes : Bytes) : List Bytes :=
  (List.range (bytes.length / n)).map fun i => slice bytes (i * n) (i * n + n)

def parseEntry (chunk : Bytes) : Weighted PriorEntry := do
  let account ← ofPanic (FixedBytes.ofSlice 20 (slice chunk 0 20))
  let weight ← ofPanic (FixedBytes.ofSlice 8 (slice chunk 20 28))
  .ok ⟨account, UInt64.ofNat (ofBeBytes weight.bytes)⟩

/-- A manifest, read to its last byte. -/
def parseManifest (H : Hashes) (bytes : Bytes) : Weighted ParsedManifest :=
  if bytes.length < 18 then fail (.manifestTooShort bytes.length)
  else if slice bytes 0 4 ≠ MANIFEST_MAGIC then fail .invalidManifestMagic
  else
    let version := UInt16.ofNat (ofBeBytes (slice bytes 4 6))
    if version ≠ MANIFEST_VERSION then fail (.unsupportedManifestVersion version)
    else
      let chainId := UInt64.ofNat (ofBeBytes (slice bytes 6 14))
      let count := UInt32.ofNat (ofBeBytes (slice bytes 14 18))
      if count = 0 then fail .emptyPrior
      else if count.toNat > MAX_PRIOR_ENTRIES then fail (.tooManyPriorEntries count.toNat)
      else
        -- at most 2048 records, so the length does not overflow
        let expected := 18 + count.toNat * 28
        if bytes.length ≠ expected then fail (.invalidManifestLength expected bytes.length)
        else do
          let entries ← (chunksExact 28 (bytes.drop 18)).mapM parseEntry
          ofResult id (validateNormalized entries)
          let root ← priorRoot H entries
          .ok ⟨chainId, entries, root, manifestDigest H bytes⟩

/-- A manifest against the parameters that pin it. -/
def validateManifest (H : Hashes) (bytes : Bytes) (p : Params) : Weighted ParsedManifest := do
  ofResult id p.validate
  let parsed ← parseManifest H bytes
  if parsed.chainId ≠ p.chainId then fail (.wrongManifestChain p.chainId parsed.chainId)
  else if UInt32.ofNat parsed.entries.length ≠ p.priorCount then
    fail (.manifestCountMismatch p.priorCount (UInt32.ofNat parsed.entries.length))
  else if parsed.root ≠ p.priorRoot then fail (.priorRootMismatch p.priorRoot parsed.root)
  else if parsed.sha256 ≠ p.manifestSha256 then
    fail (.manifestDigestMismatch p.manifestSha256 parsed.sha256)
  else .ok parsed

end Trustgraphs.WeightedPrior

/-!
# Normalization of raw weights (`weighted-prior-core/src/manifest.rs`)

Raw weights are decimals. They are read at 18 fractional digits, and `SCALE` is apportioned over them by
largest remainder, equal remainders by ascending address.
-/

namespace Trustgraphs.WeightedPrior

open Outcome Checked Text

structure RawPriorEntry where
  account : Address
  weight : Bytes
deriving DecidableEq

def SCALE_U256 : U256 := 1000000000000000000

/-- `str::parse` of decimal digits into a `U256`. -/
def parseDigits (digits : Bytes) : Option U256 := ofNat 256 (digitsValue digits)

/-- The digits behind the point, at 18 digits. The product of `U256` wraps. -/
def parseFraction (value fractional : Bytes) : Weighted U256 :=
  if fractional = [] then .ok 0
  else do
    let digits ← (parseDigits fractional).elim (fail (.nonCanonicalDecimal value)) .ok
    .ok (digits * BitVec.ofNat 256 (10 ^ (18 - fractional.length)))

/-- Read a canonical positive decimal at 18 fractional digits. -/
def parseDecimal (value : Bytes) : Weighted U256 :=
  if value = [] ∨ startsWith (utf8 "+") value = true ∨ startsWith (utf8 "-") value = true ∨
      101 ∈ value ∨ 69 ∈ value ∨ value.getLast? = some 46 then
    fail (.nonCanonicalDecimal value)
  else
    let parts := (splitOnce 46 value).getD (value, [])
    if parts.1 = [] ∨ (1 < parts.1.length ∧ startsWith (utf8 "0") parts.1 = true) ∨ 20 < parts.1.length ∨
        parts.1.all isDigit = false ∨ 18 < parts.2.length ∨
        (parts.2 ≠ [] ∧ (parts.2.all isDigit = false ∨ parts.2.getLast? = some 48)) then
      fail (.nonCanonicalDecimal value)
    else do
      let whole ← (parseDigits parts.1).elim (fail (.nonCanonicalDecimal value)) .ok
      let fraction ← parseFraction value parts.2
      let parsed ← orOverflow ((mul whole SCALE_U256).bind fun scaled => add scaled fraction)
      if parsed = 0 then fail (.nonCanonicalDecimal value) else .ok parsed

/-- An account with the value of its weight. -/
def parseRaw (entry : RawPriorEntry) : Weighted (Address × U256) :=
  if entry.account = 0 then fail .zeroAddress
  else do .ok (entry.account, ← parseDecimal entry.weight)

def checkDistinct (seen : BTreeSet Address) (row : Address × U256) : Weighted (BTreeSet Address) :=
  if seen.contains row.1 then fail (.duplicateAccount row.1) else .ok (seen.insert row.1)

/-- The floor and the remainder of a value's part of `SCALE`. -/
def apportionRow (total : U256) (row : Address × U256) : Weighted (Address × UInt64 × U256) := do
  let numerator ← orOverflow (mul row.2 SCALE_U256)
  if total = 0 then .error .panic
  else do
    let weight ← ofPanic (u64 (numerator / total).toNat)
    .ok (row.1, weight, numerator % total)

/-- The larger remainder first, then the smaller address. -/
def largerRemainder (a b : Address × UInt64 × U256) : Bool := b.2.2 < a.2.2 || (a.2.2 == b.2.2 && a.1 ≤ b.1)

def addUnit (apportioned : List (Address × UInt64 × U256)) (index : Nat) :
    Weighted (List (Address × UInt64 × U256)) := do
  let row ← ofPanic apportioned[index]?
  let weight ← ofPanic (add64 row.2.1 1)
  .ok (apportioned.set index (row.1, weight, row.2.2))

/-- The entry of a row, whose weight must not have come out as zero. -/
def finishRow (row : Address × UInt64 × U256) : Weighted PriorEntry :=
  if row.2.1 = 0 then fail (.zeroAfterNormalization row.1) else .ok ⟨row.1, row.2.1⟩

/-- The shares that the raw weights apportion. -/
def apportionRows (parsed : List (Address × U256)) : Weighted (List PriorEntry) := do
  let total ← orOverflow (parsed.foldlM (fun sum row => add sum row.2) 0)
  let apportioned ← parsed.mapM (apportionRow total)
  let floorSum ← orOverflow (apportioned.foldlM (fun sum row => add64 sum row.2.1) 0)
  match sub64 SCALE floorSum with
  | none => fail .invalidApportionment
  | some missing =>
    if missing.toNat > apportioned.length then fail .invalidApportionment
    else do
      let order := apportioned.zipIdx.insertionSort fun a b => largerRemainder a.1 b.1
      let apportioned ← ((order.map Prod.snd).take missing.toNat).foldlM addUnit apportioned
      let entries ← apportioned.mapM finishRow
      ofResult id (validateNormalized entries)
      .ok entries

/-- Raw weights as text, brought to the scale. -/
def normalize (raw : List RawPriorEntry) : Weighted (List PriorEntry) :=
  if raw = [] then fail .emptyPrior
  else if raw.length > MAX_PRIOR_ENTRIES then fail (.tooManyPriorEntries raw.length)
  else do
    let parsed ← raw.mapM parseRaw
    let parsed := parsed.insertionSort fun a b => a.1 ≤ b.1
    let _ ← parsed.foldlM checkDistinct ∅
    apportionRows parsed

end Trustgraphs.WeightedPrior
