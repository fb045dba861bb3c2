import Trustgraphs.Lib.Standing
import Trustgraphs.Lib.Worklist
import Trustgraphs.PagerankCore.Pagerank

/-!
# The graph that the rank kernel works on

What the kernel computes from its input before it iterates, as functions to `ℕ`: weights, row sums,
the reachable nodes, the initial split and the ratios. Under the parameter bounds these form a
`Standing` (`Admissible.standing`), and that is the meaning of a run of the kernel.
-/

namespace Trustgraphs.Pagerank

open BTreeMap

variable {K : Type} [LinearOrder K]

/-- The influence-carrying weight of the edge from `i` to `j`, zero where there is none. -/
def weight (outgoing : Outgoing K) (i j : K) : ℕ :=
  match outgoing[i]? with
  | none => 0
  | some edges =>
    match edges[j]? with
    | none => 0
    | some w => if eligibleEdge i j w then w.toNat else 0

/-- All the influence-carrying weight that leaves `i`. -/
def rowSum (outgoing : Outgoing K) (i : K) : ℕ :=
  match outgoing[i]? with
  | none => 0
  | some edges => ∑ j ∈ BTreeMap.dom edges, weight outgoing i j

/-- The targets of the influence-carrying edges of `i`, in key order. -/
def neighbours (outgoing : Outgoing K) (i : K) : List K :=
  match outgoing[i]? with
  | none => []
  | some edges => (edges.toList.filter fun e => eligibleEdge i e.1 e.2).map Prod.fst

/-- Reachable from the seeds along influence-carrying edges. -/
def Reachable (outgoing : Outgoing K) (seeds : BTreeSet K) (k : K) : Prop :=
  Worklist.Reached (neighbours outgoing) (· ∈ seeds) k

structure Closed (nodes : List K) (outgoing : Outgoing K) : Prop where
  source : ∀ i ∈ outgoing, i ∈ nodes
  target : ∀ (i : K) (edges : BTreeMap K U256), outgoing[i]? = some edges → ∀ j ∈ edges, j ∈ nodes

/-- The nodes that standing can get to: all of them when trust is off. -/
def liveNodes (nodes : List K) (decays : Option (BTreeMap K U256)) : Finset K :=
  match decays with
  | none => nodes.toFinset
  | some reachable => BTreeMap.dom reachable

/-- The initial split, on the live nodes. -/
def initialOf (nodes : List K) (cfg : RankConfig K) (live : Finset K) (k : K) : ℕ :=
  if k ∉ live then 0
  else if cfg.seeds.isEmpty then cfg.scale.toNat / nodes.length
  else if k ∈ cfg.seeds then cfg.trustShareFp.toNat / cfg.seeds.size
  else (cfg.scale.toNat - cfg.trustShareFp.toNat) / (live \ BTreeSet.dom cfg.seeds).card

/-- What the edge from `i` to `j` carries of a unit of standing. -/
def ratioOf (outgoing : Outgoing K) (cfg : RankConfig K) (live : Finset K) (i j : K) : ℕ :=
  if j ∈ live then weight outgoing i j * cfg.scale.toNat / rowSum outgoing i else 0

def decayOf (cfg : RankConfig K) (decays : Option (BTreeMap K U256)) (k : K) : ℕ :=
  (sourceDecay decays cfg.scale k).toNat

structure Bounded (cfg : RankConfig K) : Prop where
  scale_pos : cfg.scale ≠ 0
  damping_le : cfg.dampingFp.toNat ≤ cfg.scale.toNat
  share_le : cfg.trustShareFp.toNat ≤ cfg.scale.toNat
  decay_le : cfg.trustDecayFp.toNat ≤ cfg.scale.toNat

/-- The decays fit the nodes and the seeds. -/
structure DecaysFit (nodes : List K) (cfg : RankConfig K) (decays : Option (BTreeMap K U256)) : Prop where
  off : decays = none → cfg.seeds.isEmpty = true
  on : ∀ reachable, decays = some reachable → cfg.seeds.isEmpty = false
  nodes : ∀ reachable, decays = some reachable → ∀ k ∈ reachable, k ∈ nodes
  seeds : ∀ reachable, decays = some reachable → ∀ k ∈ cfg.seeds, k ∈ reachable
  le : ∀ reachable, decays = some reachable → ∀ (k : K) (v : U256), reachable[k]? = some v →
    v.toNat ≤ cfg.scale.toNat

/-- The inputs that the kernel iterates on: distinct nodes, closed edges with row sums that fit,
bounded parameters and fitting decays. -/
structure Admissible (nodes : List K) (outgoing : Outgoing K) (cfg : RankConfig K)
    (decays : Option (BTreeMap K U256)) : Prop where
  nodup : nodes.Nodup
  closed : Closed nodes outgoing
  rowSum_lt : ∀ i, rowSum outgoing i < 2 ^ 256
  bounded : Bounded cfg
  fit : DecaysFit nodes cfg decays

/-! ## Weights -/

section Weight

variable {outgoing : Outgoing K} {i j : K} {edges : BTreeMap K U256}

theorem weight_of_row (hi : outgoing[i]? = some edges) {w : U256} (hj : edges[j]? = some w) :
    weight outgoing i j = if eligibleEdge i j w then w.toNat else 0 := by
  simp only [weight, hi, hj]

theorem weight_eq_zero_of_not_mem (hi : outgoing[i]? = some edges) (hj : j ∉ edges) :
    weight outgoing i j = 0 := by
  simp only [weight, hi, not_mem_iff_getElem?.mp hj]

theorem weight_eq_zero_of_no_row (hi : outgoing[i]? = none) : weight outgoing i j = 0 := by
  simp only [weight, hi]

theorem eligibleEdge_iff {w : U256} : eligibleEdge i j w = true ↔ i ≠ j ∧ 0 < w.toNat := by
  rw [U256.toNat_pos]
  simp [eligibleEdge]

theorem mem_neighbours : j ∈ neighbours outgoing i ↔ 0 < weight outgoing i j := by
  unfold neighbours
  cases hi : outgoing[i]? with
  | none => simp [weight_eq_zero_of_no_row hi]
  | some edges =>
    simp only [List.mem_map, List.mem_filter, Prod.exists, exists_and_right, exists_eq_right, mem_toList]
    constructor
    · rintro ⟨w, hw, he⟩
      rw [weight_of_row hi hw, if_pos he]
      exact (eligibleEdge_iff.mp he).2
    · intro hpos
      by_cases hj : j ∈ edges
      · obtain ⟨w, hw⟩ := mem_iff_getElem?.mp hj
        rw [weight_of_row hi hw] at hpos
        split at hpos
        · exact ⟨w, hw, ‹_›⟩
        · exact absurd hpos (lt_irrefl 0)
      · rw [weight_eq_zero_of_not_mem hi hj] at hpos
        exact absurd hpos (lt_irrefl 0)

theorem Closed.mem_of_weight {nodes : List K} (hc : Closed nodes outgoing)
    (h : 0 < weight outgoing i j) : j ∈ nodes := by
  cases hi : outgoing[i]? with
  | none => rw [weight_eq_zero_of_no_row hi] at h; exact absurd h (lt_irrefl 0)
  | some edges =>
    by_cases hj : j ∈ edges
    · exact hc.target i edges hi j hj
    · rw [weight_eq_zero_of_not_mem hi hj] at h
      exact absurd h (lt_irrefl 0)

variable (outgoing i j) in
theorem sum_weight_le (s : Finset K) : ∑ j ∈ s, weight outgoing i j ≤ rowSum outgoing i := by
  unfold rowSum
  cases hi : outgoing[i]? with
  | none => simp [weight_eq_zero_of_no_row hi]
  | some edges =>
    apply Finset.sum_le_sum_of_ne_zero
    intro j _ hj
    rw [mem_dom]
    by_contra hn
    exact hj (weight_eq_zero_of_not_mem hi hn)

variable (outgoing i j) in
theorem weight_le_rowSum : weight outgoing i j ≤ rowSum outgoing i := by
  simpa using sum_weight_le outgoing i {j}

end Weight

/-! ## The standing of an input -/

namespace Admissible

variable {nodes : List K} {outgoing : Outgoing K} {cfg : RankConfig K}
  {decays : Option (BTreeMap K U256)} (h : Admissible nodes outgoing cfg decays)
include h

theorem live_subset : liveNodes nodes decays ⊆ nodes.toFinset := by
  intro k hk
  cases hd : decays with
  | none => rwa [hd] at hk
  | some reachable =>
    rw [hd, liveNodes, mem_dom] at hk
    exact List.mem_toFinset.mpr (h.fit.nodes reachable hd k hk)

theorem scale_pos : 0 < cfg.scale.toNat := U256.toNat_pos.mpr h.bounded.scale_pos

theorem sum_initialOf_le :
    ∑ k ∈ nodes.toFinset, initialOf nodes cfg (liveNodes nodes decays) k ≤ cfg.scale.toNat := by
  have hcard : nodes.toFinset.card = nodes.length := List.toFinset_card_of_nodup h.nodup
  by_cases hs : cfg.seeds.isEmpty = true
  · calc ∑ k ∈ nodes.toFinset, initialOf nodes cfg (liveNodes nodes decays) k
        ≤ ∑ _k ∈ nodes.toFinset, cfg.scale.toNat / nodes.length := by
          refine Finset.sum_le_sum fun k _ => ?_
          by_cases hk : k ∈ liveNodes nodes decays
          · rw [initialOf, if_neg (not_not_intro hk), if_pos hs]
          · rw [initialOf, if_pos hk]
            exact Nat.zero_le _
      _ = nodes.length * (cfg.scale.toNat / nodes.length) := by rw [Finset.sum_const, hcard, smul_eq_mul]
      _ ≤ cfg.scale.toNat := Nat.mul_div_le _ _
  · set live := liveNodes nodes decays with hlive
    have hsub := h.live_subset
    rw [← hlive] at hsub
    set D := BTreeSet.dom cfg.seeds with hD
    -- outside the live nodes nothing is given; inside, seeds and others are two separate shares
    have hsum : ∑ k ∈ nodes.toFinset, initialOf nodes cfg live k =
        ∑ k ∈ live ∩ D, initialOf nodes cfg live k + ∑ k ∈ live \ D, initialOf nodes cfg live k := by
      rw [Finset.sum_inter_add_sum_sdiff]
      exact (Finset.sum_subset hsub fun k _ hk => by simp [initialOf, hk]).symm
    have hseed : ∑ k ∈ live ∩ D, initialOf nodes cfg live k ≤ cfg.trustShareFp.toNat := by
      calc ∑ k ∈ live ∩ D, initialOf nodes cfg live k
          = ∑ _k ∈ live ∩ D, cfg.trustShareFp.toNat / cfg.seeds.size := by
            refine Finset.sum_congr rfl fun k hk => ?_
            have hk' := Finset.mem_inter.mp hk
            rw [initialOf, if_neg (not_not_intro hk'.1), if_neg hs,
              if_pos (BTreeSet.mem_dom.mp hk'.2)]
        _ = (live ∩ D).card * (cfg.trustShareFp.toNat / cfg.seeds.size) := by
            rw [Finset.sum_const, smul_eq_mul]
        _ ≤ cfg.seeds.size * (cfg.trustShareFp.toNat / cfg.seeds.size) := by
            refine Nat.mul_le_mul_right _ ?_
            rw [← BTreeSet.card_dom]
            exact Finset.card_le_card Finset.inter_subset_right
        _ ≤ cfg.trustShareFp.toNat := Nat.mul_div_le _ _
    have hreg : ∑ k ∈ live \ D, initialOf nodes cfg live k ≤ cfg.scale.toNat - cfg.trustShareFp.toNat := by
      calc ∑ k ∈ live \ D, initialOf nodes cfg live k
          = ∑ _k ∈ live \ D, (cfg.scale.toNat - cfg.trustShareFp.toNat) / (live \ D).card := by
            refine Finset.sum_congr rfl fun k hk => ?_
            have hk' := Finset.mem_sdiff.mp hk
            rw [initialOf, if_neg (not_not_intro hk'.1), if_neg hs,
              if_neg fun hm => hk'.2 (BTreeSet.mem_dom.mpr hm)]
        _ = (live \ D).card * ((cfg.scale.toNat - cfg.trustShareFp.toNat) / (live \ D).card) := by
            rw [Finset.sum_const, smul_eq_mul]
        _ ≤ cfg.scale.toNat - cfg.trustShareFp.toNat := Nat.mul_div_le _ _
    have hshare := h.bounded.share_le
    omega

theorem decayOf_le (k : K) : decayOf cfg decays k ≤ cfg.scale.toNat := by
  unfold decayOf sourceDecay
  cases hd : decays with
  | none => exact le_rfl
  | some reachable =>
    simp only [Std.ExtTreeMap.getD_eq_getD_getElem?]
    cases hk : reachable[k]? with
    | none => exact Nat.zero_le _
    | some v => exact h.fit.le reachable hd k v hk

omit h in
theorem sum_ratioOf_le (i : K) :
    ∑ j ∈ nodes.toFinset, ratioOf outgoing cfg (liveNodes nodes decays) i j ≤ cfg.scale.toNat := by
  calc ∑ j ∈ nodes.toFinset, ratioOf outgoing cfg (liveNodes nodes decays) i j
      ≤ ∑ j ∈ nodes.toFinset, weight outgoing i j * cfg.scale.toNat / rowSum outgoing i := by
        refine Finset.sum_le_sum fun j _ => ?_
        unfold ratioOf
        split
        · exact le_rfl
        · exact Nat.zero_le _
    _ ≤ (∑ j ∈ nodes.toFinset, weight outgoing i j * cfg.scale.toNat) / rowSum outgoing i :=
        sum_div_le _ _ _
    _ = (∑ j ∈ nodes.toFinset, weight outgoing i j) * cfg.scale.toNat / rowSum outgoing i := by
        rw [Finset.sum_mul]
    _ ≤ rowSum outgoing i * cfg.scale.toNat / rowSum outgoing i :=
        Nat.div_le_div_right (Nat.mul_le_mul_right _ (sum_weight_le _ _ _))
    _ ≤ cfg.scale.toNat := Nat.div_le_of_le_mul le_rfl

end Admissible

/-- The standing that a run of the kernel computes. -/
def Admissible.standing {nodes : List K} {outgoing : Outgoing K} {cfg : RankConfig K}
    {decays : Option (BTreeMap K U256)} (h : Admissible nodes outgoing cfg decays) : Standing K where
  nodes := nodes.toFinset
  live := liveNodes nodes decays
  scale := cfg.scale.toNat
  damping := cfg.dampingFp.toNat
  init := initialOf nodes cfg (liveNodes nodes decays)
  decay := decayOf cfg decays
  ratio := ratioOf outgoing cfg (liveNodes nodes decays)
  live_subset := h.live_subset
  scale_pos := h.scale_pos
  damping_le := h.bounded.damping_le
  init_sum_le := h.sum_initialOf_le
  init_dead k hk := by rw [initialOf, if_pos hk]
  decay_le := h.decayOf_le
  ratio_sum_le := sum_ratioOf_le
  ratio_dead i j hj := by rw [ratioOf, if_neg hj]

end Trustgraphs.Pagerank
