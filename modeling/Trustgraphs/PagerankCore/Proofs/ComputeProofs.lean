import Trustgraphs.Contracts.TrustgraphsParamsValidator
import Trustgraphs.PagerankCore.Proofs.DistributeProofs
import Trustgraphs.PagerankCore.Proofs.KernelProofs
import Trustgraphs.PagerankCore.Proofs.ReconcileProofs
import Trustgraphs.ZkCore.Proofs.MerkleProofs

/-!
# The lane-1 computation inside the parameter envelope

For parameters that the validator accepts the pipeline never panics, from the folded edges to the
committed scores, and it gives out exactly the pool.
-/

/-!
## The params hash pins the parameters

Every field but the order of the seeds is recovered from the hash.
-/

namespace Trustgraphs.Encode

open List Option

variable {H : Hashes}

theorem flatMap_bytes_injective {l l' : List B256} (h : l.flatMap FixedBytes.bytes =
    l'.flatMap FixedBytes.bytes) : l = l' := by
  induction l generalizing l' with
  | nil =>
    cases l' with
    | nil => rfl
    | cons a l' =>
      have hlen := congrArg List.length h
      simp at hlen
      omega
  | cons a l ih =>
    cases l' with
    | nil =>
      have hlen := congrArg List.length h
      simp at hlen
    | cons b l' =>
      rw [flatMap_cons, flatMap_cons] at h
      obtain ⟨hab, hrest⟩ := append_inj h (by simp)
      rw [FixedBytes.bytes_inj.mp hab, ih hrest]

def domainSetHashed (separators : List B256) : List Bytes :=
  if separators.isEmpty then [] else [separators.flatMap FixedBytes.bytes]

theorem domainSetHash_injective {S : List Bytes} (hS : CollisionFree H.keccak256 S)
    {l l' : List B256} (h : ∀ s ∈ domainSetHashed l, s ∈ S) (h' : ∀ s ∈ domainSetHashed l', s ∈ S)
    (e : domainSetHash H l = domainSetHash H l') : l = l' := by
  cases l with
  | nil =>
    cases l' with
    | nil => rfl
    | cons b l' => exact absurd e.symm (hS.ne_zero _ (h' _ (by simp [domainSetHashed])))
  | cons a l =>
    cases l' with
    | nil => exact absurd e (hS.ne_zero _ (h _ (by simp [domainSetHashed])))
    | cons b l' =>
      exact flatMap_bytes_injective
        (hS.inj _ (h _ (by simp [domainSetHashed])) _ (h' _ (by simp [domainSetHashed])) e)

theorem paramsPreimage_inj {p q : Params} {r s d f : B256} (h : paramsPreimage p r d = paramsPreimage q s f) :
    r = s ∧ d = f ∧ { p with trustedSeeds := [], envelope0DomainSeparators := [] } =
      { q with trustedSeeds := [], envelope0DomainSeparators := [] } := by
  obtain ⟨h, hchain⟩ := append_inj h (by simp)
  obtain ⟨h, hacc⟩ := append_inj h (by simp)
  obtain ⟨h, hage⟩ := append_inj h (by simp)
  obtain ⟨h, hdom⟩ := append_inj h (by simp)
  obtain ⟨h, hfield⟩ := append_inj h (by simp)
  obtain ⟨h, hschema⟩ := append_inj h (by simp)
  obtain ⟨h, hscale⟩ := append_inj h (by simp)
  obtain ⟨h, hpool⟩ := append_inj h (by simp)
  obtain ⟨h, hseeds⟩ := append_inj h (by simp)
  obtain ⟨h, hdecay⟩ := append_inj h (by simp)
  obtain ⟨h, hshare⟩ := append_inj h (by simp)
  obtain ⟨h, hmax⟩ := append_inj h (by simp)
  obtain ⟨h, hmin⟩ := append_inj h (by simp)
  obtain ⟨h, hiter⟩ := append_inj h (by simp)
  obtain ⟨h, htol⟩ := append_inj h (by simp)
  obtain ⟨-, hdamp⟩ := append_inj h (by simp)
  refine ⟨FixedBytes.bytes_inj.mp hseeds, FixedBytes.bytes_inj.mp hdom, ?_⟩
  rw [Params.mk.injEq]
  exact ⟨wordU256_inj.mp hdamp, wordU256_inj.mp htol, wordU32_inj.mp hiter, wordU256_inj.mp hmin,
    wordU256_inj.mp hmax, wordU256_inj.mp hshare, wordU256_inj.mp hdecay, rfl, wordU256_inj.mp hpool,
    wordU256_inj.mp hscale, FixedBytes.bytes_inj.mp hschema, wordU32_inj.mp hfield, rfl,
    wordU64_inj.mp hage, wordAddr_inj.mp hacc, wordU64_inj.mp hchain⟩

def sortedSeeds (p : Params) : List Address := p.trustedSeeds.insertionSort (· ≤ ·)

def paramsHashed (H : Hashes) (p : Params) : List Bytes :=
  Merkle.seedSetHashed H (sortedSeeds p) ++ domainSetHashed p.envelope0DomainSeparators ++
    [paramsPreimage p ((seedSetRoot H (sortedSeeds p)).getD 0)
      (domainSetHash H p.envelope0DomainSeparators)]

theorem paramsHash_injective {S : List Bytes} (hS : CollisionFree H.keccak256 S)
    {p q : Params} (hp : ∀ s ∈ paramsHashed H p, s ∈ S) (hq : ∀ s ∈ paramsHashed H q, s ∈ S)
    {h : B256} (ep : paramsHash H p = some h) (eq : paramsHash H q = some h) :
    q = { p with trustedSeeds := q.trustedSeeds } ∧ p.trustedSeeds.Perm q.trustedSeeds := by
  obtain ⟨r, hr⟩ := Merkle.seedSetRoot_isSome H (sortedSeeds p)
  obtain ⟨s, hs⟩ := Merkle.seedSetRoot_isSome H (sortedSeeds q)
  have ep' : paramsHash H p =
      some (H.keccak256 (paramsPreimage p r (domainSetHash H p.envelope0DomainSeparators))) := by
    have hr' : seedSetRoot H (p.trustedSeeds.insertionSort (· ≤ ·)) = some r := hr
    simp only [paramsHash, hr', bind_eq_bind, bind_some]
  have eq' : paramsHash H q =
      some (H.keccak256 (paramsPreimage q s (domainSetHash H q.envelope0DomainSeparators))) := by
    have hs' : seedSetRoot H (q.trustedSeeds.insertionSort (· ≤ ·)) = some s := hs
    simp only [paramsHash, hs', bind_eq_bind, bind_some]
  have hpre := hS.inj _ (hp _ (mem_append_right _ (by simp [hr])))
    _ (hq _ (mem_append_right _ (by simp [hs])))
    (some_inj.mp ((ep'.symm.trans ep).trans (eq.symm.trans eq')))
  obtain ⟨hroot, hdom, hrest⟩ := paramsPreimage_inj hpre
  have hmem : ∀ {p : Params}, (∀ s ∈ paramsHashed H p, s ∈ S) →
      (∀ s ∈ Merkle.seedSetHashed H (sortedSeeds p), s ∈ S) ∧
        ∀ s ∈ domainSetHashed p.envelope0DomainSeparators, s ∈ S := fun hp =>
    ⟨fun s hs => hp s (mem_append_left _ (mem_append_left _ hs)),
      fun s hs => hp s (mem_append_left _ (mem_append_right _ hs))⟩
  have hsep := domainSetHash_injective hS (hmem hp).2 (hmem hq).2 hdom
  have hperm : (sortedSeeds p).Perm (sortedSeeds q) :=
    Merkle.seedSetRoot_injective hS (hmem hp).1 (hmem hq).1 (by rw [hr, hs, hroot])
  refine ⟨?_, (perm_insertionSort _ _).symm.trans (hperm.trans (perm_insertionSort _ _))⟩
  cases p
  cases q
  simp_all

end Trustgraphs.Encode

namespace Trustgraphs.PagerankCore

open Pagerank TrustgraphsParamsValidator List BitVec Option

theorem paramsHash_isSome (H : Hashes) (p : Params) : ∃ h, paramsHash H p = some h := by
  obtain ⟨r, hr⟩ := Merkle.seedSetRoot_isSome H (p.trustedSeeds.insertionSort (· ≤ ·))
  refine ⟨H.keccak256 (paramsPreimage p r (domainSetHash H p.envelope0DomainSeparators)), ?_⟩
  simp only [paramsHash, hr, bind_eq_bind, bind_some]

theorem mem_seeds {p : Params} {a : Address} : a ∈ (rankConfig p).seeds ↔ a ∈ p.trustedSeeds :=
  BTreeSet.mem_ofList

theorem bounded_of_envelope {p : Params} (h : Envelope p) : Bounded (rankConfig p) where
  scale_pos := by
    change p.precisionScale ≠ 0
    rw [h.scale]
    decide
  damping_le := (lt_def.mp h.damping_lt).le
  share_le := le_def.mp h.share_le
  decay_le := le_def.mp h.decay_le

theorem weightBounds_of_envelope {p : Params} (h : Envelope p) : Reconcile.WeightBounds p where
  scale_pos := (bounded_of_envelope h).scale_pos
  min_le := le_def.mp h.weights

theorem closed_rankNodes {nodes : List Address} {outgoing : Outgoing Address}
    {seeds : BTreeSet Address} (h : Closed nodes outgoing) :
    Closed (rankNodes nodes seeds) outgoing where
  source i hi := mem_rankNodes.mpr (.inl (h.source i hi))
  target i edges he j hj := mem_rankNodes.mpr (.inl (h.target i edges he j hj))

theorem ready_of_envelope {p : Params} (h : Envelope p) {edges : List RawEdge} (hlen : edges.length < 2 ^ 64) :
    ∃ graph, Reconcile.buildGraph edges p = some graph ∧ Ready graph.nodes graph.outgoing (rankConfig p) := by
  obtain ⟨graph, hgraph, hclosed, hsum⟩ := Reconcile.buildGraph_spec (weightBounds_of_envelope h) edges
  refine ⟨graph, hgraph, closed_rankNodes hclosed, fun i => ?_, bounded_of_envelope h⟩
  have hmax : p.maxWeightFp.toNat ≤ 10 ^ 24 := le_def.mp h.maxWeight
  calc rowSum graph.outgoing i ≤ edges.length * p.maxWeightFp.toNat := hsum i
    _ ≤ 2 ^ 64 * 10 ^ 24 := Nat.mul_le_mul hlen.le hmax
    _ < 2 ^ 256 := by norm_num

theorem filtered_scores {scores : BTreeMap Address U256} {scale : U256} (hs : scale ≠ 0)
    (hsum : (scores.toList.map fun e => e.2.toNat).sum = scale.toNat) :
    ((scores.toList.filter fun e => e.2 != 0).map Prod.fst).Nodup ∧
      (∃ e ∈ scores.toList.filter fun e => e.2 != 0, e.2 ≠ 0) ∧
      ((scores.toList.filter fun e => e.2 != 0).map fun e => e.2.toNat).sum < 2 ^ 256 := by
  have hkeys : (scores.toList.map Prod.fst).Nodup := by
    rw [Std.ExtTreeMap.map_fst_toList_eq_keys]
    exact BTreeMap.keys_nodup scores
  refine ⟨hkeys.sublist (filter_sublist.map _), ?_, ?_⟩
  · by_contra hne
    push Not at hne
    have hzero : ∀ e ∈ scores.toList, e.2.toNat = 0 := by
      intro e he
      by_contra h0
      have hpos : e.2 ≠ 0 := U256.toNat_pos.mp (Nat.pos_of_ne_zero h0)
      exact hpos (hne e (mem_filter.mpr ⟨he, by simpa using hpos⟩))
    have hsum0 : (scores.toList.map fun e => e.2.toNat).sum = 0 :=
      sum_eq_zero fun n hn => by
        obtain ⟨e, he, rfl⟩ := List.mem_map.mp hn
        exact hzero e he
    rw [hsum0] at hsum
    exact hs (eq_of_toNat_eq hsum.symm)
  · have hle := (filter_sublist (p := fun e : Address × U256 => e.2 != 0)
      (l := scores.toList)).map fun e => e.2.toNat
    exact lt_of_le_of_lt (hle.sum_le_sum fun _ _ => Nat.zero_le _) (hsum ▸ scale.isLt)

/-- No panic and exact conservation, from the folded edges to the committed scores: in every round
the standing is at most the scale, the normalized scores add up to it, and the score list is strictly
ascending, positive and adds up to the pool that the journal states. -/
theorem compute_conserves (H : Hashes) (edges : List RawEdge) (p : Params) (binding : Binding)
    (hp : validateComputationalEnvelope p = .ok ()) (hlen : edges.length < 2 ^ 64) :
    ∃ graph, Reconcile.buildGraph edges p = some graph ∧
      (∀ n, ∃ m, scoresAfter graph.nodes graph.outgoing (rankConfig p) n = some m ∧
        (m.toList.map fun e => e.2.toNat).sum ≤ p.precisionScale.toNat) ∧
      (∃ rank, calculateGenericDetailed graph.nodes graph.outgoing (rankConfig p) = some rank ∧
        (rank.scores.toList.map fun e => e.2.toNat).sum = p.precisionScale.toNat) ∧
      ∃ r, compute H ⟨edges, p, binding⟩ = some r ∧
        r.scores.Pairwise (fun a b => a.1 < b.1) ∧ (∀ e ∈ r.scores, e.2 ≠ 0) ∧
        (r.scores.map fun e => e.2.toNat).sum = p.totalPool.toNat ∧
        r.journal.totalValue = p.totalPool := by
  have henv := envelope_of_ok hp
  obtain ⟨graph, hgraph, hready⟩ := ready_of_envelope henv hlen
  have hne : rankNodes graph.nodes (rankConfig p).seeds ≠ [] := by
    obtain ⟨seed, hseed⟩ := exists_mem_of_ne_nil _ henv.seeds_pos
    exact ne_nil_of_mem (mem_rankNodes.mpr (.inr (mem_seeds.mpr hseed)))
  obtain ⟨rank, hrank, hsum⟩ := calculateGenericDetailed_total hready hne
  obtain ⟨hnd, hpos, hlt⟩ := filtered_scores hready.bounded.scale_pos hsum
  obtain ⟨assigned, hassigned, hstrict, hnz, htotal⟩ :=
    Distribute.distributePointsGeneric_spec _ p.precisionScale p.totalPool hnd hpos hlt
  set sorted := assigned.insertionSort fun a b => a.1 ≤ b.1 with hsorted
  have hperm : sorted.Perm assigned := perm_insertionSort _ _
  obtain ⟨ph, hph⟩ := paramsHash_isSome H p
  obtain ⟨root, hroot⟩ := Merkle.merkleRoot_isSome H (sorted.map fun e => outputLeaf H e.1 e.2)
  refine ⟨graph, hgraph, fun n => scoresAfter_le hready hne n, ⟨rank, hrank, hsum⟩, ?_⟩
  refine ⟨_, by
    simp only [compute, hph, hgraph, hrank, Distribute.distributePoints, hassigned, ← hsorted, hroot,
      Option.bind_eq_bind, Option.bind_some]
    rfl, ?_, fun e he => hnz e (hperm.mem_iff.mp he), ?_, rfl⟩
  · exact Distribute.sorted_of_nodup ((pairwise_map.mpr hstrict).imp fun h => h.ne)
  · exact ((hperm.map _).sum_eq).trans htotal

def addressOf (b : UInt8) : Address := .replicate 20 b

/-- A member vouches for another with weight 95, and one seed is trusted. -/
theorem compute_conserves_one_vouch :
    let H : Hashes := ⟨fun _ => 0, fun _ => 0⟩
    let edges : List RawEdge := [⟨0, addressOf 1, addressOf 2, 0, 100, List.replicate 63 0 ++ [95]⟩]
    let p : Params := {
      dampingFp := 850000000000000000, toleranceFp := 1000000000000, maxIterations := 100,
      minWeightFp := 0, maxWeightFp := 100000000000000000000, trustShareFp := 1000000000000000000,
      trustDecayFp := 800000000000000000, trustedSeeds := [addressOf 1], totalPool := 1000000,
      precisionScale := 1000000000000000000, schemaUid := 0, weightFieldIndex := 1,
      envelope0DomainSeparators := [], lane2MaxHeadAge := 0, accumulator := 0, chainId := 10 }
    ∃ graph, Reconcile.buildGraph edges p = some graph ∧
      (∀ n, ∃ m, scoresAfter graph.nodes graph.outgoing (rankConfig p) n = some m ∧
        (m.toList.map fun e => e.2.toNat).sum ≤ p.precisionScale.toNat) ∧
      (∃ rank, calculateGenericDetailed graph.nodes graph.outgoing (rankConfig p) = some rank ∧
        (rank.scores.toList.map fun e => e.2.toNat).sum = p.precisionScale.toNat) ∧
      ∃ r, compute H ⟨edges, p, ⟨0, 0⟩⟩ = some r ∧
        r.scores.Pairwise (fun a b => a.1 < b.1) ∧ (∀ e ∈ r.scores, e.2 ≠ 0) ∧
        (r.scores.map fun e => e.2.toNat).sum = p.totalPool.toNat ∧
        r.journal.totalValue = p.totalPool := by
  intro H edges p
  exact compute_conserves H edges p ⟨0, 0⟩ (by decide +kernel) (by decide)

end Trustgraphs.PagerankCore
