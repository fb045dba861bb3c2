import Trustgraphs.WeightedPriorCore.Proofs.ReconcileProofs
import Trustgraphs.WeightedPriorCore.Proofs.ReferenceProofs

/-!
# The fast path is its audit oracle

From any folded events the two reconciliations build the same nodes and edges, and the kernel of the guest
and the oracle return the same scores after the same number of iterations
(`flat_eq_reference`).
-/

namespace Trustgraphs.WeightedPrior

open Outcome List

theorem mem_transition {graph : Graph} {a : Address} {e : Address × UInt64} :
    e ∈ transition graph a ↔ (a, e.1, e.2) ∈ graph.edges ∧ a ≠ e.1 ∧ 0 < e.2 := by
  rw [Graph.mem_edges, BTreeMap.cell, transition]
  dsimp only
  cases graph.outgoing[a]? with
  | none => simp
  | some row =>
    show e ∈ row.toList.filter _ ↔ row[e.1]? = some e.2 ∧ _
    rw [mem_filter, ← BTreeMap.mem_toList, Bool.and_eq_true, bne_iff_ne, decide_eq_true_eq, ne_comm]

theorem flatRow_edges (graph : Graph) (a : Address) : flatRow graph.edges a = transition graph a := by
  have hrow : (flatRow graph.edges a).Pairwise fun x y => x.1 < y.1 := by
    unfold flatRow
    rw [pairwise_map]
    refine List.Pairwise.imp_of_mem (fun {x y} hx hy hxy => ?_) (graph.edges_sorted.filter _)
    obtain ⟨hxa, -⟩ := of_decide_eq_true (mem_filter.mp hx).2
    obtain ⟨hya, -⟩ := of_decide_eq_true (mem_filter.mp hy).2
    rcases Prod.Lex.toLex_lt_toLex.mp hxy with hlt | ⟨-, hlt⟩
    · rw [hxa, hya] at hlt
      exact absurd hlt (lt_irrefl a)
    · exact hlt
  have htransition : (transition graph a).Pairwise fun x y => x.1 < y.1 :=
    pairwise_map.mp (transition_sorted graph a)
  have hnodup : ∀ {l : List (Address × UInt64)}, l.Pairwise (fun x y => x.1 < y.1) → l.Nodup :=
    fun h => h.imp fun hlt heq => hlt.ne (congrArg Prod.fst heq)
  refine List.Perm.eq_of_pairwise (fun x y _ _ (hxy : x.1 < y.1) (hyx : y.1 < x.1) =>
    absurd hxy (lt_asymm hyx)) hrow htransition ?_
  refine (perm_ext_iff_of_nodup (hnodup hrow) (hnodup htransition)).mpr fun e => ?_
  rw [mem_flatRow, mem_transition]

theorem length_edges_le {p : Params} {graph : Graph} {edges : List RawEdge}
    (h : ∀ a r w, (a, r, w) ∈ graph.edges →
      (pairState p ((byTime edges).map Prod.fst) (a, r)).map Prod.snd = some w) :
    graph.edges.length ≤ edges.length := by
  have hnodup : (graph.edges.map pairKey).Nodup :=
    (pairwise_map.mpr graph.edges_sorted).imp fun hlt => hlt.ne
  have hsub : graph.edges.map pairKey ⊆ edges.map keyOf := by
    intro k hk
    obtain ⟨⟨a, r, w⟩, he, rfl⟩ := mem_map.mp hk
    obtain ⟨x, hx, -⟩ := Option.map_eq_some_iff.mp (h a r w he)
    obtain ⟨edge, hedge, hpair⟩ := exists_of_pairState hx
    have hmem : edge ∈ edges := by
      obtain ⟨y, hy, rfl⟩ := mem_map.mp hedge
      have hy' := (perm_insertionSort _ _).mem_iff.mp hy
      exact mem_of_getElem? (mem_zipIdx_iff_getElem?.mp hy')
    refine mem_map.mpr ⟨edge, hmem, ?_⟩
    rw [keyOf, hpair]
    rfl
  have hle := (hnodup.subperm hsub).length_le
  rwa [length_map, length_map] at hle

/-- The nodes of a graph are the endpoints of its edges. -/
def Graph.Closed (graph : Graph) : Prop := ∀ e ∈ graph.edges, e.1 ∈ graph.nodes ∧ e.2.1 ∈ graph.nodes

/-- What the rankers see of a graph with fewer than `2^64` edges. -/
def Graph.rankInput (graph : Graph) {prior : List PriorEntry} {p : Params} (hprior : Normalized prior)
    (hp : p.Bounded) (hclosed : graph.Closed) (hlen : graph.edges.length < 2 ^ 64) : RankInput where
  nodes := graph.nodes
  row := transition graph
  prior := prior
  params := p
  normalized := hprior
  bounded := hp
  row_mem := fun a e he => mem_accounts.mpr (Or.inr (hclosed _ (mem_transition.mp he).1).2)
  row_pos := fun a e he => (mem_transition.mp he).2.2
  length_row := by
    intro a
    rw [← flatRow_edges]
    refine lt_of_le_of_lt ?_ hlen
    rw [flatRow, length_map]
    exact length_filter_le _ _

section RankInput

variable {graph : Graph} {prior : List PriorEntry} {p : Params} (hprior : Normalized prior)
  (hp : p.Bounded) (hclosed : graph.Closed) (hlen : graph.edges.length < 2 ^ 64)

theorem calculateReference_rankInput : calculateReference graph prior p =
    .ok (graph.rankInput hprior hp hclosed hlen).result :=
  (graph.rankInput hprior hp hclosed hlen).calculateReference_eq rfl fun _ _ => rfl

theorem calculateFlat_rankInput {flat : FlatGraph} (hnodes : flat.nodes = graph.nodes)
    (hedges : flat.edges = graph.edges) : calculateFlat flat prior p =
    .ok (graph.rankInput hprior hp hclosed hlen).result := by
  refine (graph.rankInput hprior hp hclosed hlen).calculateFlat_eq hnodes (fun edge he => ?_)
    fun a _ => ?_
  · rw [hedges] at he
    exact ⟨mem_accounts.mpr (Or.inr (hclosed _ he).1), mem_accounts.mpr (Or.inr (hclosed _ he).2)⟩
  · rw [hedges]
    exact flatRow_edges graph a

end RankInput

/-- For any events, the flat reconciliation and the nested one give the same nodes and the same edges, in
ascending order of the pairs, and the kernel of the guest returns on the one what the oracle returns on
the other. -/
theorem flat_eq_reference (edges : List RawEdge) (p : Params) (prior : List PriorEntry)
    (hlen : edges.length < 2 ^ 64) (hp : p.validate = .ok ()) (hprior : validateNormalized prior = .ok ()) :
    ∃ graph flat r, buildGraph edges p = some graph ∧ buildFlatGraph edges p = some flat ∧
      flat.nodes = graph.nodes ∧ flat.edges = graph.edges ∧
      flat.edges.Pairwise (fun x y => x.1 < y.1 ∨ x.1 = y.1 ∧ x.2.1 < y.2.1) ∧
      calculateFlat flat prior p = .ok r ∧ calculateReference graph prior p = .ok r := by
  have hbounded := Params.bounded hp
  obtain ⟨graph, flat, hgraph, hflat, hnodes, hedges⟩ := buildFlatGraph_eq hbounded.weights edges
  obtain ⟨graph', hgraph', -, hmem, hends⟩ := buildGraph_eq hbounded.weights edges
  obtain rfl : graph = graph' := Option.some_inj.mp (hgraph.symm.trans hgraph')
  have hclosed : graph.Closed := fun e he =>
    ⟨(hends _).mpr ⟨e, he, Or.inl rfl⟩, (hends _).mpr ⟨e, he, Or.inr rfl⟩⟩
  have hfits : graph.edges.length < 2 ^ 64 :=
    lt_of_le_of_lt (length_edges_le fun a r w => (hmem a r w).mp) hlen
  have hsorted : flat.edges.Pairwise fun x y => x.1 < y.1 ∨ x.1 = y.1 ∧ x.2.1 < y.2.1 := by
    rw [hedges]
    exact graph.edges_sorted.imp fun h => Prod.Lex.toLex_lt_toLex.mp h
  have hprior := validateNormalized_eq_ok.mp hprior
  exact ⟨graph, flat, _, hgraph, hflat, hnodes, hedges, hsorted,
    calculateFlat_rankInput hprior hbounded hclosed hfits hnodes hedges,
    calculateReference_rankInput hprior hbounded hclosed hfits⟩

namespace Example

def account (b : UInt8) : Address := .replicate 20 b

def uid (b : UInt8) : B256 := .replicate 32 b

def params : Params where
  version := 1
  dampingFp := 850000000000000000
  toleranceFp := 1000000000000
  maxIterations := 40
  minWeight := 0
  maxWeight := 100
  priorRoot := 0
  priorCount := 2
  manifestSha256 := 0
  schemaUid := 0
  weightFieldIndex := 0
  accumulator := account 9
  chainId := 10

def prior : List PriorEntry := [⟨account 1, 400000000000000000⟩, ⟨account 2, 600000000000000000⟩]

def edges : List RawEdge :=
  [⟨0, account 1, account 3, uid 2, 200, wordU256 70⟩, ⟨0, account 1, account 3, uid 1, 100, wordU256 95⟩,
    ⟨0, account 2, account 1, uid 3, 100, wordU256 50⟩, ⟨1, account 2, account 1, uid 3, 300, []⟩]

theorem flat_eq_reference_reattested :
    ∃ graph flat r, buildGraph edges params = some graph ∧ buildFlatGraph edges params = some flat ∧
      flat.nodes = graph.nodes ∧ flat.edges = graph.edges ∧
      flat.edges.Pairwise (fun x y => x.1 < y.1 ∨ x.1 = y.1 ∧ x.2.1 < y.2.1) ∧
      calculateFlat flat prior params = .ok r ∧ calculateReference graph prior params = .ok r :=
  flat_eq_reference edges params prior (by decide) (by decide) (by decide)

end Example

end Trustgraphs.WeightedPrior

/-!
## Accounts that the prior does not reach

They score zero, and nothing they do changes another score: their rows can be replaced and more of them
can be added (`calculateFlat_isolated`).
-/

namespace Trustgraphs.WeightedPrior

open Outcome List

/-- The prior reaches an account through positive edges to others. -/
inductive Reachable (g : FlatGraph) (prior : List PriorEntry) : Address → Prop
  | prior {e : PriorEntry} (h : e ∈ prior) : Reachable g prior e.account
  | edge {source target : Address} {weight : UInt64} (h : Reachable g prior source)
      (hedge : (source, target, weight) ∈ g.edges) (hne : source ≠ target) (hpos : 0 < weight) :
      Reachable g prior target

def FlatGraph.Closed (g : FlatGraph) (prior : List PriorEntry) : Prop :=
  ∀ edge ∈ g.edges, edge.1 ∈ accounts prior g.nodes ∧ edge.2.1 ∈ accounts prior g.nodes

def FlatGraph.rankInput (g : FlatGraph) {prior : List PriorEntry} {p : Params} (hprior : Normalized prior)
    (hp : p.Bounded) (hclosed : g.Closed prior) (hlen : g.edges.length < 2 ^ 64) : RankInput where
  nodes := g.nodes
  row := flatRow g.edges
  prior := prior
  params := p
  normalized := hprior
  bounded := hp
  row_mem := fun a e he => (hclosed _ (mem_flatRow.mp he).1).2
  row_pos := fun a e he => (mem_flatRow.mp he).2.2
  length_row := by
    intro a
    rw [flatRow, length_map]
    exact lt_of_le_of_lt (length_filter_le _ _) hlen

section Extends

variable {g g' : FlatGraph} {prior : List PriorEntry} {p : Params} (hprior : Normalized prior)
  (hp : p.Bounded) (hclosed : g.Closed prior) (hclosed' : g'.Closed prior)
  (hlen : g.edges.length < 2 ^ 64) (hlen' : g'.edges.length < 2 ^ 64)

theorem extends_walk (hnodes : g.nodes ⊆ g'.nodes)
    (hrows : ∀ a, Reachable g prior a → flatRow g'.edges a = flatRow g.edges a) :
    Walk.Extends (g.rankInput hprior hp hclosed hlen).walk (g'.rankInput hprior hp hclosed' hlen').walk
      {a | Reachable g prior a} where
  nodes := by
    intro a ha
    rcases mem_accounts.mp (mem_toFinset.mp ha) with h | h
    · exact mem_toFinset.mpr (mem_accounts.mpr (Or.inl h))
    · exact mem_toFinset.mpr (mem_accounts.mpr (Or.inr (hnodes h)))
  prior := rfl
  scale := rfl
  damping := rfl
  rows := fun a ha => congrArg natRow (hrows a ha)
  prior_closed := by
    intro a ha
    obtain ⟨e, he, rfl⟩ := hprior.mem_of_priorWeight (a := a) fun hz => ha (congrArg UInt64.toNat hz)
    exact Reachable.prior he
  row_closed := by
    intro a ha e he
    obtain ⟨w, hw, -⟩ := mem_natRow.mp he
    obtain ⟨hedge, hne, hpos⟩ := mem_flatRow.mp hw
    exact Reachable.edge ha hedge hne hpos

theorem final_eq (hnodes : g.nodes ⊆ g'.nodes)
    (hrows : ∀ a, Reachable g prior a → flatRow g'.edges a = flatRow g.edges a) :
    (g'.rankInput hprior hp hclosed' hlen').final = (g.rankInput hprior hp hclosed hlen).final ∧
      ∀ a, ¬ Reachable g prior a → (g.rankInput hprior hp hclosed hlen).final.1 a = 0 := by
  have hext := extends_walk hprior hp hclosed hclosed' hlen hlen' hnodes hrows
  have hsupported : (g.rankInput hprior hp hclosed hlen).walk.Supported {a | Reachable g prior a}
      (g.rankInput hprior hp hclosed hlen).walk.prior :=
    fun a ha => ⟨hext.prior_closed a ha, (g.rankInput hprior hp hclosed hlen).walk.prior_mem a ha⟩
  obtain ⟨hrun, hstay⟩ := hext.run_eq (g.rankInput hprior hp hclosed hlen).walk.prior_sum hsupported
    p.toleranceFp.toNat p.maxIterations.toNat p.maxIterations.toNat
  refine ⟨hrun, fun a ha => ?_⟩
  by_contra hne
  exact ha (hstay a hne).1

end Extends

theorem result_scores (R : RankInput) {a : Address} (ha : a ∈ R.accounts) :
    R.result.scores[a]? = some (UInt64.ofNat (R.final.1 a)) := by
  rw [RankInput.result, BTreeMap.getElem?_tabulate, if_pos ha]

/-- Take two graphs such that the second one has all the accounts of the first and the same rows for the
accounts that the prior reaches in the first. The kernel gives every account of the first graph the same
score in both, after as many iterations, and every account that is not reached scores zero. -/
theorem calculateFlat_isolated (g g' : FlatGraph) (prior : List PriorEntry) (p : Params)
    (hp : p.validate = .ok ()) (hprior : validateNormalized prior = .ok ())
    (hclosed : g.Closed prior) (hclosed' : g'.Closed prior)
    (hlen : g.edges.length < 2 ^ 64) (hlen' : g'.edges.length < 2 ^ 64) (hnodes : g.nodes ⊆ g'.nodes)
    (hrows : ∀ a, Reachable g prior a → flatRow g'.edges a = flatRow g.edges a) :
    ∃ r r', calculateFlat g prior p = .ok r ∧ calculateFlat g' prior p = .ok r' ∧ r'.iterations = r.iterations ∧
      (∀ a ∈ accounts prior g.nodes, ∃ score, r.scores[a]? = some score ∧ r'.scores[a]? = some score) ∧
      (∀ a ∈ accounts prior g.nodes, ¬ Reachable g prior a → r.scores[a]? = some 0) ∧
      ∀ a ∈ accounts prior g'.nodes, ¬ Reachable g prior a → r'.scores[a]? = some 0 := by
  have hbounded := Params.bounded hp
  have hprior := validateNormalized_eq_ok.mp hprior
  obtain ⟨hfinal, hzero⟩ := final_eq hprior hbounded hclosed hclosed' hlen hlen' hnodes hrows
  refine ⟨(g.rankInput hprior hbounded hclosed hlen).result,
    (g'.rankInput hprior hbounded hclosed' hlen').result,
    (g.rankInput hprior hbounded hclosed hlen).calculateFlat_eq rfl hclosed fun _ _ => rfl,
    (g'.rankInput hprior hbounded hclosed' hlen').calculateFlat_eq rfl hclosed' fun _ _ => rfl,
    ?_, fun a ha => ?_, fun a ha hnot => ?_, fun a ha hnot => ?_⟩
  · rw [RankInput.result, RankInput.result, hfinal]
  · have ha' : a ∈ accounts prior g'.nodes := by
      rcases mem_accounts.mp ha with h | h
      · exact mem_accounts.mpr (Or.inl h)
      · exact mem_accounts.mpr (Or.inr (hnodes h))
    refine ⟨_, result_scores (g.rankInput hprior hbounded hclosed hlen) ha, ?_⟩
    rw [result_scores (g'.rankInput hprior hbounded hclosed' hlen') ha', hfinal]
  · rw [result_scores (g.rankInput hprior hbounded hclosed hlen) ha, hzero a hnot]
    rfl
  · rw [result_scores (g'.rankInput hprior hbounded hclosed' hlen') ha, hfinal, hzero a hnot]
    rfl

namespace Example

def graph : FlatGraph :=
  ⟨[account 1, account 2, account 3, account 4],
    [(account 1, account 3, 70), (account 3, account 2, 50), (account 4, account 1, 90)]⟩

def sybils : FlatGraph :=
  ⟨[account 1, account 2, account 3, account 4, account 5, account 6],
    [(account 1, account 3, 70), (account 3, account 2, 50), (account 4, account 5, 10),
      (account 5, account 4, 100), (account 6, account 2, 100)]⟩

theorem closed_of_nodes {g : FlatGraph} (h : ∀ edge ∈ g.edges, edge.1 ∈ g.nodes ∧ edge.2.1 ∈ g.nodes) :
    g.Closed prior :=
  fun edge he => ⟨mem_accounts.mpr (Or.inr (h edge he).1), mem_accounts.mpr (Or.inr (h edge he).2)⟩

theorem reachable_graph {a : Address} (h : Reachable graph prior a) :
    a = account 1 ∨ a = account 2 ∨ a = account 3 := by
  induction h with
  | prior he =>
    rcases mem_pair.mp he with rfl | rfl
    · exact Or.inl rfl
    · exact Or.inr (Or.inl rfl)
  | edge _ hedge _ _ ih =>
    have hedges : ∀ e ∈ graph.edges, (e.1 = account 1 ∨ e.1 = account 2 ∨ e.1 = account 3) →
        (e.2.1 = account 1 ∨ e.2.1 = account 2 ∨ e.2.1 = account 3) := by decide
    exact hedges _ hedge ih

theorem flatRow_sybils {a : Address} (h : Reachable graph prior a) :
    flatRow sybils.edges a = flatRow graph.edges a := by
  rcases reachable_graph h with rfl | rfl | rfl <;> decide

end Example

open Example in
/-- The sybils change no score. -/
theorem calculateFlat_isolated_sybils :
    ∃ r r', calculateFlat graph prior params = .ok r ∧ calculateFlat sybils prior params = .ok r' ∧
      r'.iterations = r.iterations ∧
      (∀ a ∈ accounts prior graph.nodes, ∃ score, r.scores[a]? = some score ∧ r'.scores[a]? = some score) ∧
      (∀ a ∈ accounts prior graph.nodes, ¬ Reachable graph prior a → r.scores[a]? = some 0) ∧
      ∀ a ∈ accounts prior sybils.nodes, ¬ Reachable graph prior a → r'.scores[a]? = some 0 :=
  calculateFlat_isolated graph sybils prior params (by decide) (by decide)
    (closed_of_nodes (by decide)) (closed_of_nodes (by decide)) (by decide) (by decide) (by decide)
    fun _ => flatRow_sybils

end Trustgraphs.WeightedPrior
