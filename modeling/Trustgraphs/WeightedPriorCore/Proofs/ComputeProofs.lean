import Trustgraphs.WeightedPriorCore.Proofs.FastPathProofs

/-!
# The weighted computation cannot fail after admission

No error of the rank is reachable once the parameters and the manifest are valid: every iteration
keeps the sum of the rank vector at `SCALE` (`Kernel.iterate_eq`), and that bounds all the sums the
iteration checks.
-/

namespace Trustgraphs.WeightedPrior

open Outcome List

def iterateSteps (priorWeights : List UInt64) (outgoing : List (List (Nat × UInt64))) (dampingFp : UInt64)
    (size : ℕ) : ℕ → List UInt64 → Weighted (List UInt64)
  | 0, current => .ok current
  | n + 1, current => do
    let next ← indexedStep priorWeights outgoing dampingFp size current
    iterateSteps priorWeights outgoing dampingFp size n next

/-- The rank vector of `calculateFlat` after `n` iterations. -/
def ranksAfter (graph : FlatGraph) (prior : List PriorEntry) (p : Params) (n : ℕ) : Weighted (List UInt64) := do
  let nodes := accounts prior graph.nodes
  let indices := indicesOf nodes
  let priorWeights ← indexPrior indices nodes.length prior
  let outgoing ← graph.edges.foldlM (pushEdge indices) (List.replicate nodes.length [])
  iterateSteps priorWeights outgoing p.dampingFp nodes.length n priorWeights

theorem Kernel.iterate_eq (k : Kernel) (n : ℕ) {current : List UInt64} (hlen : current.length = k.size)
    (hsum : sumNat current = SCALE.toNat) :
    ∃ ranks, iterateSteps k.priorWeights k.outgoing k.dampingFp k.size n current = .ok ranks ∧
      ranks.length = k.size ∧ sumNat ranks = SCALE.toNat := by
  induction n generalizing current with
  | zero => exact ⟨current, rfl, hlen, hsum⟩
  | succ n ih =>
    obtain ⟨next, hstep, hnlen, hnsum, -⟩ := k.step_eq hlen hsum
    obtain ⟨ranks, hiterate, hrlen, hrsum⟩ := ih hnlen hnsum
    exact ⟨ranks, bind_eq_ok.mpr ⟨next, hstep, hiterate⟩, hrlen, hrsum⟩

theorem indexedLoop_iterate {priorWeights : List UInt64} {outgoing : List (List (Nat × UInt64))}
    {p : Params} {size left : ℕ} {iteration : UInt32} {current : List UInt64}
    (hmax : p.maxIterations.toNat + 1 < 2 ^ 32)
    (hit : iteration.toNat + left = p.maxIterations.toNat + 1) {final : List UInt64} {completed : UInt32}
    (h : indexedLoop priorWeights outgoing p size left iteration current = .ok (final, completed)) :
    ∃ n, completed.toNat + 1 = iteration.toNat + n ∧
      iterateSteps priorWeights outgoing p.dampingFp size n current = .ok final := by
  induction left generalizing iteration current with
  | zero =>
    obtain ⟨rfl, rfl⟩ := Prod.mk.inj (ok_inj h)
    exact ⟨0, by omega, rfl⟩
  | succ left ih =>
    rw [indexedLoop] at h
    obtain ⟨next, hstep, h⟩ := of_bind h
    dsimp only at h
    split at h
    · obtain ⟨rfl, rfl⟩ := Prod.mk.inj (ok_inj h)
      exact ⟨1, rfl, bind_eq_ok.mpr ⟨next, hstep, rfl⟩⟩
    · have hiter : (iteration + 1).toNat = iteration.toNat + 1 := by
        rw [UInt32.toNat_add]
        exact Nat.mod_eq_of_lt (by show iteration.toNat + 1 < _; omega)
      obtain ⟨n, hn, hiterate⟩ := ih (by rw [hiter]; omega) h
      exact ⟨n + 1, by omega, bind_eq_ok.mpr ⟨next, hstep, hiterate⟩⟩

namespace RankInput

variable (R : RankInput)

theorem Hands.ranksAfter_eq {g : FlatGraph} {k : Kernel} (h : R.Hands g k) (hnodes : g.nodes = R.nodes)
    (n : ℕ) : ranksAfter g R.prior R.params n =
      iterateSteps k.priorWeights k.outgoing k.dampingFp k.size n k.priorWeights := by
  unfold ranksAfter
  rw [hnodes]
  dsimp only
  rw [h.prior]
  show (do
    let outgoing ← _
    iterateSteps k.priorWeights outgoing R.params.dampingFp R.accounts.length n k.priorWeights) = _
  rw [h.rows, h.damping, h.size]
  rfl

theorem calculateFlat_ranks {g : FlatGraph} (hnodes : g.nodes = R.nodes)
    (hedges : ∀ edge ∈ g.edges, edge.1 ∈ R.accounts ∧ edge.2.1 ∈ R.accounts)
    (hrow : ∀ a ∈ R.accounts, flatRow g.edges a = R.row a) :
    (∀ n, ∃ ranks, ranksAfter g R.prior R.params n = .ok ranks ∧ sumNat ranks = SCALE.toNat) ∧
      ∃ ranks completed, calculateFlat g R.prior R.params =
          .ok ⟨BTreeMap.ofEntries (R.accounts.zip ranks), completed⟩ ∧
        ranks.length = R.accounts.length ∧ sumNat ranks = SCALE.toNat ∧
        ranksAfter g R.prior R.params completed.toNat = .ok ranks := by
  obtain ⟨k, hk⟩ := R.exists_hands hedges hrow
  obtain ⟨final, completed, hloop, hflen, hfsum, -⟩ := hk.loop_eq
  have hmax : R.params.maxIterations.toNat ≤ 40 := UInt32.le_iff_toNat_le.mp R.bounded.iterations_le
  refine ⟨fun n => ?_, final, completed, hk.calculateFlat_eq R hnodes hloop, hflen, hfsum, ?_⟩
  · obtain ⟨ranks, hiterate, -, hsum⟩ := k.iterate_eq n rfl k.sum_prior
    exact ⟨ranks, (hk.ranksAfter_eq R hnodes n).trans hiterate, hsum⟩
  · obtain ⟨n, hn, hiterate⟩ := indexedLoop_iterate (by omega) (Nat.add_comm 1 _) hloop
    have hcompleted : completed.toNat = n := by
      have hone : (1 : UInt32).toNat = 1 := rfl
      omega
    rw [hk.ranksAfter_eq R hnodes, hcompleted, ← hiterate, hk.damping]

end RankInput

theorem nonzeroScores_sorted (scores : BTreeMap Address UInt64) :
    (nonzeroScores scores).Pairwise fun x y => x.1 < y.1 := by
  unfold nonzeroScores
  rw [pairwise_map]
  exact scores.toList_sorted.filter _

theorem nonzeroScores_pos (scores : BTreeMap Address UInt64) : ∀ e ∈ nonzeroScores scores, 0 < e.2 := by
  intro e he
  obtain ⟨x, hx, rfl⟩ := mem_map.mp he
  have hpos := of_decide_eq_true (mem_filter.mp hx).2
  have hlt := x.2.toNat_lt
  rw [BitVec.lt_def, BitVec.toNat_ofNat, Nat.mod_eq_of_lt (hlt.trans (by norm_num))]
  exact UInt64.lt_iff_toNat_lt.mp hpos

section Scores

variable {l : List Address} (hl : l.Pairwise (· < ·)) {ranks : List UInt64} (hlen : ranks.length = l.length)
include hl hlen

theorem toList_ranks : (BTreeMap.ofEntries (l.zip ranks)).toList = l.zip ranks := by
  refine BTreeMap.toList_ofEntries ?_
  rw [map_fst_zip hlen.ge]
  exact hl

theorem nonzeroScores_sum :
    ((nonzeroScores (BTreeMap.ofEntries (l.zip ranks))).map fun e => e.2.toNat).sum = sumNat ranks := by
  have hfilter : ∀ m : List (Address × UInt64),
      ((m.filter fun e => 0 < e.2).map fun e => e.2.toNat).sum = (m.map fun e => e.2.toNat).sum := by
    intro m
    induction m with
    | nil => rfl
    | cons e m ih =>
      by_cases he : 0 < e.2
      · rw [filter_cons_of_pos (by simpa using he), map_cons, map_cons, sum_cons, sum_cons, ih]
      · have hzero : e.2.toNat = 0 := by
          rw [UInt64.lt_iff_toNat_lt] at he
          exact Nat.eq_zero_of_not_pos he
        rw [filter_cons_of_neg (by simpa using he), map_cons, sum_cons, hzero, ih, Nat.zero_add]
  unfold nonzeroScores
  rw [map_map, toList_ranks hl hlen, ← received_amounts hlen, ← hfilter]
  congr 1
  refine map_congr_left fun e _ => ?_
  have hlt := e.2.toNat_lt
  show (BitVec.ofNat 256 e.2.toNat).toNat = e.2.toNat
  rw [BitVec.toNat_ofNat, Nat.mod_eq_of_lt (hlt.trans (by norm_num))]

end Scores

theorem validateManifest_normalized {H : Hashes} {bytes : Bytes} {p : Params} {parsed : ParsedManifest}
    (h : validateManifest H bytes p = .ok parsed) : Normalized parsed.entries := by
  unfold validateManifest fail at h
  obtain ⟨-, -, h⟩ := of_bind h
  obtain ⟨found, hparse, h⟩ := of_bind h
  obtain ⟨-, h⟩ := of_guard h
  obtain ⟨-, h⟩ := of_guard h
  obtain ⟨-, h⟩ := of_guard h
  obtain ⟨-, h⟩ := of_guard h
  obtain rfl := ok_inj h
  exact (parseManifest_eq_ok.mp hparse).1

/-- After admission the computation returns; every iteration leaves a rank vector that sums to `SCALE`;
and the scores, which are the positive entries of the last vector, ascend by address and sum to `SCALE`,
the total of the journal. -/
theorem compute_conserves_scale (H : Hashes) (input : GuestInput) (parsed : ParsedManifest)
    (hlen : input.edges.length < 2 ^ 64) (hp : input.params.validate = .ok ())
    (hm : validateManifest H input.manifest input.params = .ok parsed) :
    ∃ result graph, compute H input = .ok result ∧ buildFlatGraph input.edges input.params = some graph ∧
      (∀ n, ∃ ranks, ranksAfter graph parsed.entries input.params n = .ok ranks ∧ sumNat ranks = SCALE.toNat) ∧
      (∃ ranks, ranksAfter graph parsed.entries input.params result.iterations.toNat = .ok ranks ∧
        result.scores = nonzeroScores (BTreeMap.ofEntries ((accounts parsed.entries graph.nodes).zip ranks))) ∧
      (result.scores.Pairwise fun x y => x.1 < y.1) ∧ (∀ e ∈ result.scores, 0 < e.2) ∧
      (result.scores.map fun e => e.2.toNat).sum = SCALE.toNat ∧
      result.journal.totalValue.toNat = SCALE.toNat := by
  have hbounded := Params.bounded hp
  have hprior := validateManifest_normalized hm
  obtain ⟨graph, flat, hgraph, hflat, hnodes, hedges⟩ := buildFlatGraph_eq hbounded.weights input.edges
  obtain ⟨graph', hgraph', -, hmem, hends⟩ := buildGraph_eq hbounded.weights input.edges
  obtain rfl : graph = graph' := Option.some_inj.mp (hgraph.symm.trans hgraph')
  have hclosed : graph.Closed := fun e he =>
    ⟨(hends _).mpr ⟨e, he, Or.inl rfl⟩, (hends _).mpr ⟨e, he, Or.inr rfl⟩⟩
  have hfits : graph.edges.length < 2 ^ 64 :=
    lt_of_le_of_lt (length_edges_le fun a r w => (hmem a r w).mp) hlen
  obtain ⟨hsteps, ranks, completed, hcalculate, hrlen, hrsum, hlast⟩ :=
    (graph.rankInput hprior hbounded hclosed hfits).calculateFlat_ranks hnodes
      (fun edge he => by
        rw [hedges] at he
        exact ⟨mem_accounts.mpr (Or.inr (hclosed _ he).1), mem_accounts.mpr (Or.inr (hclosed _ he).2)⟩)
      (fun a _ => by
        rw [hedges]
        exact flatRow_edges graph a)
  have hsorted := accounts_sorted parsed.entries graph.nodes
  obtain ⟨root, hroot⟩ := Merkle.merkleRoot_isSome H ((nonzeroScores (BTreeMap.ofEntries
    ((accounts parsed.entries graph.nodes).zip ranks))).map fun e => outputLeaf H e.1 e.2)
  obtain ⟨result, hcompute, hscores, hiterations, htotal⟩ : ∃ result, compute H input = .ok result ∧
      result.scores = nonzeroScores (BTreeMap.ofEntries
        ((accounts parsed.entries graph.nodes).zip ranks)) ∧
      result.iterations = completed ∧ result.journal.totalValue = BitVec.ofNat 256 SCALE.toNat := by
    refine ⟨_, bind_eq_ok.mpr ⟨(), ofResult_eq_ok.mpr hp, bind_eq_ok.mpr ⟨parsed, hm, bind_eq_ok.mpr
      ⟨flat, ofPanic_eq_ok.mpr hflat, bind_eq_ok.mpr ⟨_, hcalculate, bind_eq_ok.mpr
      ⟨root, ofPanic_eq_ok.mpr hroot, rfl⟩⟩⟩⟩⟩, rfl, rfl, rfl⟩
  refine ⟨result, flat, hcompute, hflat, hsteps, ⟨ranks, ?_, ?_⟩, ?_, ?_, ?_, ?_⟩
  · rw [hiterations]
    exact hlast
  · rw [hscores, hnodes]
  · rw [hscores]
    exact nonzeroScores_sorted _
  · rw [hscores]
    exact nonzeroScores_pos _
  · rw [hscores]
    exact (nonzeroScores_sum hsorted hrlen).trans hrsum
  · rw [htotal]
    rfl

namespace Example

def priorLeaf1 : B256 := .ofNat 32 0xd85b56c197fce77d411bf41c1ae5efa8612d0b10d91bbe99ade5d50049d5498d

def manifest : Bytes :=
  utf8 "TGWP" ++ [0, 1] ++ beBytes 8 10 ++ beBytes 4 1 ++ (account 1).bytes ++ beBytes 8 SCALE.toNat

def manifestSha : B256 := .ofNat 32 0xfb6a58ba38715bb54656b20538725be2435159b2f7073cc93f7c3e7625ac2b9b

def guestParams : Params :=
  { params with
    maxIterations := 1
    priorRoot := priorLeaf1
    priorCount := 1
    manifestSha256 := manifestSha }

def vouch : RawEdge := ⟨0, account 1, account 3, uid 2, 100, wordU256 70⟩

def guestInput : GuestInput := ⟨[vouch], guestParams, manifest, ⟨account 7, uid 8⟩⟩

def dataHash : B256 := .ofNat 32 0x128667f541fed74a8429f9d592c26c2c6a4beb9ae5ead9912c98b2595c842310

def vouchLeaf : B256 := .ofNat 32 0x76feda75afcad2f8a0e8e34b6a1d02629502ae4b327123e7e85a193edbf4755f

def inner1 : B256 := .ofNat 32 0x41dd48909853b79e889a23452db2d67d9c2a5db100a9c5b8f32b080a099de99f

def inner3 : B256 := .ofNat 32 0xa4f64b2c7983c14173cad01a462d31a9777b7607cc2da8a2bf96654767435281

def leaf1 : B256 := .ofNat 32 0x85f732d7a1812b4c697b2cf5179e8fbb71fb625e5bc1e6601a39a65cb715cf94

def leaf3 : B256 := .ofNat 32 0x0aa8456615c6a24ddfce5b30116e697a28bedea55ea157aa4cccb5e2b2c66f3f

def blobSha : B256 := .ofNat 32 0x0b54f26b9f4034335d9b899204d33658c758491348bb6f5be9177bbf511f7184

def lastScores : List (Address × U256) := [(account 1, 150000000000000000), (account 3, 850000000000000000)]

def keccakTable : List (Bytes × B256) :=
  [(wordAddr (account 1) ++ wordU64 SCALE, priorLeaf1), (vouch.data, dataHash),
    (edgePreimage 0 (account 1) (account 3) (uid 2) 100 dataHash, vouchLeaf),
    (foldPreimage 0 vouchLeaf, .ofNat 32 0x9a2dab0dbab0fa5009f7019827abf7fba92ea25046624c0986998f9f7a468de3),
    (paramsEncoded guestParams, .ofNat 32 0x7e6c56a9ac3167e61809bba26bfa6c87fa0c14381682995df7a083ee7171e118),
    (wordAddr (account 1) ++ wordU256 150000000000000000, inner1), (inner1.bytes, leaf1),
    (wordAddr (account 3) ++ wordU256 850000000000000000, inner3), (inner3.bytes, leaf3),
    (pairPreimage leaf1 leaf3, .ofNat 32 0x66bfa0ae338892c49ada55a66ba3edce2a6856d1d5c17e437b395a7726f5e7fa),
    (cidV1Raw blobSha, .ofNat 32 0xd243df9fb1231ac4c2ec9d33647fde4cf5ed77370f7180873263c3b936b183eb)]

def hashes : Hashes where
  keccak256 s := ((keccakTable.find? fun e => e.1 == s).map Prod.snd).getD 0
  sha256 s := if s = manifest then manifestSha else if s = canonicalBlob lastScores then blobSha else 0

def parsed : ParsedManifest := ⟨10, [⟨account 1, SCALE⟩], priorLeaf1, manifestSha⟩

theorem validateManifest_example : validateManifest hashes manifest guestParams = .ok parsed := by
  decide +kernel

end Example

open Example in
/-- The computation on one attestation. -/
theorem compute_conserves_scale_vouch : ∃ result graph, compute hashes guestInput = .ok result ∧
      buildFlatGraph guestInput.edges guestInput.params = some graph ∧
      (∀ n, ∃ ranks, ranksAfter graph parsed.entries guestInput.params n = .ok ranks ∧
        sumNat ranks = SCALE.toNat) ∧
      (∃ ranks, ranksAfter graph parsed.entries guestInput.params result.iterations.toNat = .ok ranks ∧
        result.scores = nonzeroScores (BTreeMap.ofEntries ((accounts parsed.entries graph.nodes).zip ranks))) ∧
      (result.scores.Pairwise fun x y => x.1 < y.1) ∧ (∀ e ∈ result.scores, 0 < e.2) ∧
      (result.scores.map fun e => e.2.toNat).sum = SCALE.toNat ∧
      result.journal.totalValue.toNat = SCALE.toNat :=
  compute_conserves_scale hashes guestInput parsed (by decide) (by decide) validateManifest_example

end Trustgraphs.WeightedPrior
