import Trustgraphs.HypercertsCore.Records
import Trustgraphs.PagerankCore.Pagerank
import Trustgraphs.ZkCore.Edge

/-!
# Graph semantics (`hypercerts-core/src/semantics.rs`)

Which records become edges, with what weights, and what is skipped. An actor is the hash of its DID,
an artifact the hash of its URI.
-/

/-!
## Decimal strings (`hypercerts-core/src/decimal.rs`)

The grammar is `^[0-9]{1,20}(\.[0-9]{1,18})?$`. Any other string is `none`, which the callers skip.
-/

namespace Trustgraphs.Hypercerts

open Text Checked Option

def scale : U256 := 1000000000000000000

/-- Digits, at least one and within the bound. -/
def digitRun (bound : Nat) (s : Bytes) : Bool := !s.isEmpty && s.length ≤ bound && s.all isDigit

/-- `U256::from_str_radix` in base ten, on digits. -/
def fromDigits (s : Bytes) : Option U256 := ofNat 256 (digitsValue s)

def splitDecimal (s : Bytes) : Bytes × Option Bytes :=
  match splitOnce 46 s with
  | some (i, f) => (i, some f)
  | none => (s, none)

/-- A decimal in fixed point. -/
def parseFp (s : Bytes) : Option U256 :=
  let (intPart, fracPart) := splitDecimal s
  if ¬ digitRun 20 intPart ∨ ¬ fracPart.all (digitRun 18) then none
  else do
    let out ← mul (← fromDigits intPart) scale
    match fracPart with
    | none => some out
    | some f => add out (← mul (← fromDigits f) (BitVec.ofNat 256 (10 ^ (18 - f.length))))

def parseFpClamped01 (s : Bytes) : Option U256 := (parseFp s).map fun v => if v ≤ scale then v else scale

theorem digitsValue_lt_of_digitRun {bound : Nat} {s : Bytes} (h : digitRun bound s = true) :
    digitsValue s < 10 ^ bound := by
  simp only [digitRun, Bool.and_eq_true, decide_eq_true_eq] at h
  obtain ⟨⟨-, hlen⟩, hdigits⟩ := h
  calc digitsValue s < 10 ^ s.length := digitsValue_lt hdigits
    _ ≤ 10 ^ bound := Nat.pow_le_pow_right (by norm_num) hlen

theorem parseFp_lt {s : Bytes} {v : U256} (h : parseFp s = some v) : v.toNat < 10 ^ 39 := by
  unfold parseFp at h
  generalize splitDecimal s = parts at h
  obtain ⟨intPart, fracPart⟩ := parts
  dsimp only at h
  by_cases hc : ¬ digitRun 20 intPart ∨ ¬ fracPart.all (digitRun 18)
  · simp only [if_pos hc, reduceCtorEq] at h
  rw [if_neg hc] at h
  simp only [not_or, Bool.not_eq_true, Bool.not_eq_false] at hc
  obtain ⟨hi, hf⟩ := hc
  simp only [bind_eq_bind, bind_eq_some_iff, fromDigits, ofNat_eq_some, mul_eq_some] at h
  obtain ⟨i, hival, out, hout, h⟩ := h
  have hib := digitsValue_lt_of_digitRun hi
  have hscale : scale.toNat = 10 ^ 18 := by decide
  rw [hscale] at hout
  cases fracPart with
  | none =>
    simp only [Option.some.injEq] at h
    subst h
    omega
  | some f =>
    rw [all_some] at hf
    simp only [bind_eq_some_iff, add_eq_some] at h
    obtain ⟨d, hd, frac, hfr, hv⟩ := h
    have hfb := digitsValue_lt_of_digitRun hf
    have hpow : (BitVec.ofNat 256 (10 ^ (18 - f.length)) : U256).toNat ≤ 10 ^ 18 := by
      rw [BitVec.toNat_ofNat]
      exact (Nat.mod_le _ _).trans (Nat.pow_le_pow_right (by norm_num) (Nat.sub_le ..))
    have hmul : frac.toNat ≤ 10 ^ 18 * 10 ^ 18 := by
      rw [mul_eq_some.mp hfr, ofNat_eq_some.mp hd]
      exact Nat.mul_le_mul hfb.le hpow
    omega

example : parseFp (utf8 "87.5") = some 87500000000000000000 := by decide

end Trustgraphs.Hypercerts

/-! ## Edges and skips -/

namespace Trustgraphs

/-- The node id of a DID (`envelopes/src/atproto/mod.rs`). -/
def Atproto.didNodeId (H : Hashes) (did : Bytes) : B256 := H.keccak256 did

namespace Hypercerts

open Text Outcome
open Atproto (didNodeId)

/-! ## Reasons of the record-level skips -/

def MALFORMED_RECORD : UInt8 := 10

def NON_DID_IDENTITY : UInt8 := 11

def ALLOWED_ISSUERS_MISS : UInt8 := 12

def MISSING_SUBJECT_OR_SCORE : UInt8 := 13

def SELF_EDGE : UInt8 := 14

/-- The authenticated records of one repository. -/
structure RepoRecords where
  did : Bytes
  /-- The fold index of the consumed anchor. -/
  anchorFoldIndex : Nat
  /-- Keys and bytes in the order of the tree. -/
  records : List (Bytes × Bytes)
deriving DecidableEq

structure EdgeParams where
  wFollowFp : U256
  wBadgeFp : U256
  wEvalFp : U256
  wAttribFp : U256
  ackBoostFp : U256
  unackedAttribFp : U256
  pdsAttestedWeightFp : U256

structure DerivedGraph where
  /-- Every node of an included edge. -/
  nodes : List B256
  outgoing : Pagerank.Outgoing B256
  /-- The addresses of bound actors. -/
  bindings : BTreeMap B256 Address
  skips : List SkipEntry

def atUri (did coll rkey : Bytes) : Bytes := utf8 "at://" ++ did ++ utf8 "/" ++ coll ++ utf8 "/" ++ rkey

def artifactNodeId (H : Hashes) (did coll rkey : Bytes) : B256 := H.keccak256 (atUri did coll rkey)

/-- The three parts of an at-uri, none of them empty. -/
def parseAtUri (uri : Bytes) : Option (Bytes × Bytes × Bytes) := do
  let rest ← stripPrefix (utf8 "at://") uri
  let (did, rest) ← splitOnce 47 rest
  let (coll, rkey) ← splitOnce 47 rest
  if did.isEmpty || coll.isEmpty || rkey.isEmpty then none else some (did, coll, rkey)

/-- An edge that a record asks for. -/
structure Candidate where
  source : B256
  target : B256
  typeTag : UInt8
  weightFp : U256
  /-- The time of creation and the record key. -/
  order : Bytes × Bytes

def T_FOLLOW : UInt8 := 1

def T_BADGE : UInt8 := 2

def T_EVAL : UInt8 := 3

def T_ATTRIB : UInt8 := 4

inductive SemanticsError where
  | missingStrongRef (cid : Bytes)
  | invalidStrongRef (cid : Bytes)
deriving DecidableEq

abbrev SemanticsM (α : Type) := Except (Abort SemanticsError) α

/-! ## Decoding and indexes -/

/-- A decoded record with its repository. -/
structure Decoded where
  did : Bytes
  anchorFoldIndex : Nat
  coll : Bytes
  rkey : Bytes
  record : Record
deriving DecidableEq

def skipOf (H : Hashes) (did : Bytes) (reason : UInt8) : SkipEntry := ⟨didNodeId H did, reason, 0⟩

/-- Decode one record, `none` for a skip. -/
def decodeRecord (D : Dagcbor) (repo : RepoRecords) (entry : Bytes × Bytes) : Option Decoded := do
  let (coll, rkey) ← splitOnce 47 entry.1
  let record ← decode D coll entry.2
  some ⟨repo.did, repo.anchorFoldIndex, coll, rkey, record⟩

/-- All decoded records, in the order of repositories and keys. -/
def decodeAll (D : Dagcbor) (repos : List RepoRecords) : List Decoded :=
  repos.flatMap fun repo => repo.records.filterMap (decodeRecord D repo)

/-- The skips of the records that are not decoded. -/
def decodeSkips (H : Hashes) (D : Dagcbor) (repos : List RepoRecords) : List SkipEntry :=
  repos.flatMap fun repo => repo.records.filterMap fun entry =>
    match decodeRecord D repo entry with
    | some _ => none
    | none => some (skipOf H repo.did MALFORMED_RECORD)

/-- What is looked up across repositories. -/
structure Index where
  bindings : BTreeMap B256 Address
  /-- By acknowledging DID and subject. -/
  acks : BTreeMap (Bytes ×ₗ Bytes) Bool
  /-- By responding DID and award: the response and its weight. -/
  responses : BTreeMap (Bytes ×ₗ Bytes) (Bytes × Option Bytes)
  skips : List SkipEntry

section

variable (H : Hashes) (D : Dagcbor) (K : K256) (P : Primitives)

/-- Index one record. A later record replaces an earlier one. -/
def indexRecord (ix : Index) (d : Decoded) : Index :=
  match d.record with
  | .linkEvm address message signature _ =>
    match verifyBinding H K P d.did address message signature with
    | some a => { ix with bindings := ix.bindings.insert (didNodeId H d.did) a }
    | none => { ix with skips := ix.skips ++ [skipOf H d.did MALFORMED_RECORD] }
  | .acknowledgement subject acknowledged _ =>
    { ix with acks := ix.acks.insert (toLex (d.did, subject.uri)) acknowledged }
  | .badgeResponse badgeAward response weight _ =>
    { ix with responses := ix.responses.insert (toLex (d.did, badgeAward.uri)) (response, weight) }
  | _ => ix

/-- The index of the records that others refer to. -/
def indexAll (decoded : List Decoded) : Index := decoded.foldl (indexRecord H K P) ⟨∅, ∅, ∅, []⟩

/-! ## Candidate edges -/

/-- What a record gives: candidates, and reasons of skips of its author. -/
abbrev Found := List Candidate × Bytes

def skipped (reason : UInt8) : SemanticsM Found := .ok ([], [reason])

/-- The author of a record: DID, node, and the authorization class as a factor. -/
structure Author where
  did : Bytes
  node : B256
  authClass : U256

/-- The weight of an edge of a user-signed author is kept, that of others is discounted. -/
def authorOf (p : EdgeParams) (ix : Index) (did : Bytes) : Author where
  did := did
  node := didNodeId H did
  authClass := if ix.bindings.contains (didNodeId H did) then scale else p.pdsAttestedWeightFp

/-- A product of factors at the scale, from left to right. -/
def fpProduct (base : U256) (factors : List U256) : SemanticsM U256 :=
  factors.foldlM (fun w f => ofPanic (fpMul w f scale)) base

/-- The edge of a follow. -/
def followEdges (p : EdgeParams) (author : Author) (rkey subjectDid createdAt : Bytes) : SemanticsM Found :=
  if ¬ startsWith (utf8 "did:") subjectDid then skipped NON_DID_IDENTITY
  else
    let target := didNodeId H subjectDid
    if target = author.node then skipped SELF_EDGE
    else do
      let w ← fpProduct p.wFollowFp [author.authClass]
      .ok ([⟨author.node, target, T_FOLLOW, w, (createdAt, rkey)⟩], [])

def readIssuer : Ipld → Option Bytes
  | .string did => some did
  | .map fields => getStr fields (utf8 "did")
  | _ => none

/-- The issuers that a badge definition allows, `none` inside for all; `none` when malformed. -/
def decodeAllowedIssuers (bytes : Bytes) : Option (Option (List Bytes)) := do
  let map ← asMap (← D.fromSlice bytes)
  if getStr map (utf8 "$type") ≠ some (utf8 "app.certified.badge.definition") then none
  else
    match Ipld.get map (utf8 "allowedIssuers") with
    | none => some none
    | some (.list list) => (list.mapM readIssuer).map some
    | some _ => none

/-- The node that a badge is awarded to, or the reason of a skip. -/
def badgeTarget : BadgeSubject → Except UInt8 B256
  | .did d => if startsWith (utf8 "did:") d then .ok (didNodeId H d) else .error NON_DID_IDENTITY
  | .ref r =>
    match parseAtUri r.uri with
    | some (did, coll, rkey) => .ok (artifactNodeId H did coll rkey)
    | none => .error MALFORMED_RECORD

/-- The response of the subject to an award. -/
inductive Verdict where
  /-- Base and boost of the weight. -/
  | counts (base boost : U256)
  /-- The award is dropped without a skip. -/
  | inert
  | malformed

/-- The effect of a response. Only a response in the repository of the subject is looked up. -/
def verdictOf (p : EdgeParams) (ix : Index) (awardUri : Bytes) : BadgeSubject → Verdict
  | .ref _ => .counts scale scale
  | .did subjectDid =>
    match ix.responses[(toLex (subjectDid, awardUri) : Bytes ×ₗ Bytes)]? with
    | none => .counts scale scale
    | some (response, weight) =>
      if response = utf8 "accepted" then
        match weight with
        | none => .counts scale p.ackBoostFp
        | some ws =>
          match parseFpClamped01 ws with
          | some v => .counts v p.ackBoostFp
          | none => .malformed
      else if response = utf8 "rejected" then .inert
      else .counts scale scale

/-- A badge edge whose definition allows the issuer. -/
def awardEdges (p : EdgeParams) (ix : Index) (author : Author) (coll rkey : Bytes)
    (subject : BadgeSubject) (createdAt : Bytes) : SemanticsM Found :=
  match badgeTarget H subject with
  | .error reason => skipped reason
  | .ok target =>
    if target = author.node then skipped SELF_EDGE
    else
      match verdictOf p ix (atUri author.did coll rkey) subject with
      | .malformed => skipped MALFORMED_RECORD
      | .inert => .ok ([], [])
      | .counts base boost => do
        let w ← fpProduct base [p.wBadgeFp, boost, author.authClass]
        .ok ([⟨author.node, target, T_BADGE, w, (createdAt, rkey)⟩], [])

/-- A badge edge. The definition has to be supplied; it is checked against its identifier. -/
def badgeEdges (targets : BTreeMap Bytes Bytes) (p : EdgeParams) (ix : Index)
    (author : Author) (coll rkey : Bytes) (badge : StrongRef) (subject : BadgeSubject)
    (createdAt : Bytes) : SemanticsM Found :=
  match targets[badge.cid]? with
  | none => .error (.error (.missingStrongRef badge.cid))
  | some defBytes =>
    if ¬ verifyDagcborCid H badge.cid defBytes then .error (.error (.invalidStrongRef badge.cid))
    else
      match decodeAllowedIssuers D defBytes with
      | none => skipped MALFORMED_RECORD
      | some allowed =>
        if allowed.any fun l => author.did ∉ l then skipped ALLOWED_ISSUERS_MISS
        else awardEdges H p ix author coll rkey subject createdAt

/-- The scores of an evaluation as fixed-point numbers, with a range that is not empty. -/
def parseScore (score : Score) : Option (U256 × U256 × U256) := do
  let min ← parseFp score.min
  let max ← parseFp score.max
  let value ← parseFp score.value
  if max ≤ min then none else some (min, max, value)

def clamp (value min max : U256) : U256 := if value < min then min else if max < value then max else value

/-- The edge of an evaluation, weighted by where its value lies in its range. -/
def evaluationEdges (p : EdgeParams) (author : Author) (rkey : Bytes) (subject : Option StrongRef)
    (score : Option Score) (createdAt : Bytes) : SemanticsM Found :=
  match subject, score with
  | some subject, some score =>
    match parseAtUri subject.uri with
    | none => skipped MALFORMED_RECORD
    | some (sdid, scoll, srkey) =>
      if sdid = author.did then skipped SELF_EDGE
      else
        match parseScore score with
        | none => skipped MISSING_SUBJECT_OR_SCORE
        | some (min, max, value) => do
          let base ← ofPanic (fpDiv (clamp value min max - min) (max - min) scale)
          let w ← fpProduct base [p.wEvalFp, author.authClass]
          .ok ([⟨author.node, artifactNodeId H sdid scoll srkey, T_EVAL, w, (createdAt, rkey)⟩], [])
  | _, _ => skipped MISSING_SUBJECT_OR_SCORE

/-- The contributors of an activity: what is kept of each, their total weight, and skips. -/
structure Attribution where
  parsed : List (B256 × Bytes × U256)
  total : U256
  skips : Bytes

/-- Take one contributor. The author and unparseable ones are dropped before normalization. -/
def addContributor (author : Author) (st : Attribution) (c : Contributor) : Attribution :=
  if ¬ startsWith (utf8 "did:") c.identity then { st with skips := st.skips ++ [NON_DID_IDENTITY] }
  else if c.identity = author.did then { st with skips := st.skips ++ [SELF_EDGE] }
  else
    match c.contributionWeight.bind parseFp with
    | none => { st with skips := st.skips ++ [MALFORMED_RECORD] }
    | some w =>
      if w = 0 then st
      else ⟨st.parsed ++ [(didNodeId H c.identity, c.identity, w)], st.total + w, st.skips⟩

def attributionEdge (p : EdgeParams) (ix : Index) (author : Author) (coll rkey createdAt : Bytes)
    (total : U256) (c : B256 × Bytes × U256) : SemanticsM Candidate := do
  let share ← ofPanic (fpDiv c.2.2 total scale)
  let gate := match ix.acks[(toLex (c.2.1, atUri author.did coll rkey) : Bytes ×ₗ Bytes)]? with
    | some true => p.ackBoostFp
    | _ => p.unackedAttribFp
  let w ← fpProduct share [p.wAttribFp, gate, author.authClass]
  .ok ⟨artifactNodeId H author.did coll rkey, c.1, T_ATTRIB, w, (createdAt, c.2.1)⟩

/-- The edges of an activity's contributors. -/
def activityEdges (p : EdgeParams) (ix : Index) (author : Author) (coll rkey : Bytes)
    (contributors : List Contributor) (createdAt : Bytes) : SemanticsM Found :=
  let st := contributors.foldl (addContributor H author) ⟨[], 0, []⟩
  if st.total = 0 then .ok ([], st.skips)
  else do
    let candidates ← st.parsed.mapM (attributionEdge H p ix author coll rkey createdAt st.total)
    .ok (candidates, st.skips)

/-- The edges of a record, or why there are none. -/
def recordEdges (targets : BTreeMap Bytes Bytes) (p : EdgeParams) (ix : Index)
    (d : Decoded) : SemanticsM Found :=
  let author := authorOf H p ix d.did
  match d.record with
  | .follow subjectDid createdAt => followEdges H p author d.rkey subjectDid createdAt
  | .badgeAward badge subject createdAt =>
    badgeEdges H D targets p ix author d.coll d.rkey badge subject createdAt
  | .evaluation subject score createdAt => evaluationEdges H p author d.rkey subject score createdAt
  | .activity contributors createdAt => activityEdges H p ix author d.coll d.rkey contributors createdAt
  | .badgeResponse .. => .ok ([], [])
  | .acknowledgement .. => .ok ([], [])
  | .linkEvm .. => .ok ([], [])

/-! ## The graph -/

/-- The last write: by fold index, time of creation and record key. -/
abbrev WriteOrder := ℕ ×ₗ Bytes ×ₗ Bytes

/-- Keep the latest candidate of a source, a target and a type. -/
def addCandidate (latest : BTreeMap (B256 ×ₗ B256 ×ₗ UInt8) (WriteOrder × U256))
    (c : ℕ × Candidate) : BTreeMap (B256 ×ₗ B256 ×ₗ UInt8) (WriteOrder × U256) :=
  let key : B256 ×ₗ B256 ×ₗ UInt8 := toLex (c.2.source, toLex (c.2.target, c.2.typeTag))
  let ord : WriteOrder := toLex (c.1, toLex c.2.order)
  match latest[key]? with
  | some (prev, _) => if prev ≥ ord then latest else latest.insert key (ord, c.2.weightFp)
  | none => latest.insert key (ord, c.2.weightFp)

/-- Sum the types of an edge; zero weights are dropped. -/
def addEdge (st : BTreeSet B256 × Pagerank.Outgoing B256)
    (e : (B256 ×ₗ B256 ×ₗ UInt8) × WriteOrder × U256) : BTreeSet B256 × Pagerank.Outgoing B256 :=
  let source := (ofLex e.1).1
  let target := (ofLex (ofLex e.1).2).1
  let w := e.2.2
  if w = 0 then st
  else
    let row := st.2.getD source ∅
    ((st.1.insert source).insert target, st.2.insert source (row.insert target (row.getD target 0 + w)))

/-- Derive the trust graph from the records of all repositories. -/
def derive (repos : List RepoRecords) (targets : BTreeMap Bytes Bytes) (p : EdgeParams) :
    SemanticsM DerivedGraph := do
  let decoded := decodeAll D repos
  let ix := indexAll H K P decoded
  let found ← decoded.mapM fun d => do
    let f ← recordEdges H D targets p ix d
    .ok (d, f)
  let candidates := found.flatMap fun f => f.2.1.map fun c => (f.1.anchorFoldIndex, c)
  let skips := found.flatMap fun f => f.2.2.map (skipOf H f.1.did)
  let latest := candidates.foldl addCandidate ∅
  let (nodes, outgoing) := latest.toList.foldl addEdge (∅, ∅)
  .ok ⟨nodes.toList, outgoing, ix.bindings, sortSkips (decodeSkips H D repos ++ ix.skips ++ skips)⟩

end

end Hypercerts

end Trustgraphs
