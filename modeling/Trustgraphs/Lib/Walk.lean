import Trustgraphs.Lib.Hamilton

/-!
# Walks that return to their prior

A fixed amount `scale` is spread over finitely many nodes. In every round the damped part is split
among the nodes as the amounts are, every node passes its part on along its row, and the undamped part
and what the nodes without a row hold go back to the prior. All splits are Hamilton apportionments, so
the total of a round is `scale` (`sum_next`).

A node that the prior does not reach holds nothing, and what such nodes do is invisible: two walks that
agree on the rows of the reached nodes give every node the same amount, round by round (`Extends`).
-/

namespace Trustgraphs

open Hamilton List Finset

/-- A graph on which an amount walks. The row of a node is a list, and its positions break the ties. -/
structure Walk (K : Type) [LinearOrder K] where
  nodes : Finset K
  row : K → List (K × ℕ)
  prior : K → ℕ
  scale : ℕ
  damping : ℕ
  row_mem : ∀ a ∈ nodes, ∀ e ∈ row a, e.1 ∈ nodes
  row_pos : ∀ a, ∀ e ∈ row a, 0 < e.2
  prior_mem : ∀ a, prior a ≠ 0 → a ∈ nodes
  prior_sum : ∑ a ∈ nodes, prior a = scale
  scale_pos : 0 < scale
  damping_le : damping ≤ scale

namespace Walk

variable {K : Type} [LinearOrder K]

/-- The weight of a row's entry. -/
def weightAt (row : List (K × ℕ)) (i : ℕ) : ℕ := (row[i]?.map Prod.snd).getD 0

/-- What the position `i` of a row receives of a budget. -/
def rowShare (row : List (K × ℕ)) (budget i : ℕ) : ℕ :=
  share (Finset.range row.length) (weightAt row) budget i

/-- What a row gives to the target. -/
def contribution (row : List (K × ℕ)) (budget : ℕ) (t : K) : ℕ :=
  (row.zipIdx.map fun e => if e.1.1 = t then rowShare row budget e.2 else 0).sum

theorem contribution_nil (budget : ℕ) (t : K) : contribution [] budget t = 0 := rfl

theorem contribution_zero (row : List (K × ℕ)) (t : K) : contribution row 0 t = 0 := by
  have h : ∀ x ∈ row.zipIdx.map fun e => if e.1.1 = t then rowShare row 0 e.2 else 0, x = 0 := by
    intro x hx
    obtain ⟨e, -, rfl⟩ := List.mem_map.mp hx
    simp [rowShare, share_budget_zero]
  exact List.sum_eq_zero h

theorem contribution_eq_zero {row : List (K × ℕ)} {t : K} (h : ∀ e ∈ row, e.1 ≠ t) (budget : ℕ) :
    contribution row budget t = 0 := by
  refine List.sum_eq_zero fun x hx => ?_
  obtain ⟨⟨e, i⟩, he, rfl⟩ := List.mem_map.mp hx
  have hmem : e ∈ row := fst_mem_of_mem_zipIdx he
  rw [if_neg (h e hmem)]

theorem sum_zipIdx_map {α : Type} (l : List α) (g : ℕ → ℕ) :
    (l.zipIdx.map fun e => g e.2).sum = ∑ i ∈ Finset.range l.length, g i := by
  have hmap : (l.zipIdx.map fun e => g e.2) = (List.range l.length).map g := by
    rw [show (fun e : α × ℕ => g e.2) = g ∘ Prod.snd from rfl, ← List.map_map, zipIdx_map_snd,
      ← range_eq_range']
  rw [hmap, ← sum_toFinset _ nodup_range, toFinset_range]

omit [LinearOrder K] in
theorem weightAt_pos {row : List (K × ℕ)} (h : ∀ e ∈ row, 0 < e.2) {i : ℕ} (hi : i < row.length) :
    0 < weightAt row i := by
  rw [weightAt, List.getElem?_eq_getElem hi]
  exact h _ (getElem_mem hi)

theorem sum_contribution {row : List (K × ℕ)} (hne : row ≠ []) (hpos : ∀ e ∈ row, 0 < e.2)
    {s : Finset K} (hmem : ∀ e ∈ row, e.1 ∈ s) (budget : ℕ) :
    ∑ t ∈ s, contribution row budget t = budget := by
  have hlen := length_pos_iff.mpr hne
  have htotal : 0 < total (Finset.range row.length) (weightAt row) :=
    sum_pos' (fun _ _ => Nat.zero_le _)
      ⟨0, Finset.mem_range.mpr hlen, weightAt_pos hpos hlen⟩
  have hsum : ∀ l : List ((K × ℕ) × ℕ), (∀ e ∈ l, e.1.1 ∈ s) →
      ∑ t ∈ s, (l.map fun e => if e.1.1 = t then rowShare row budget e.2 else 0).sum =
        (l.map fun e => rowShare row budget e.2).sum := by
    intro l hl
    induction l with
    | nil => simp
    | cons e l ih =>
      have hall := List.forall_mem_cons.mp hl
      simp only [List.map_cons, List.sum_cons, sum_add_distrib]
      rw [ih hall.2, sum_ite_eq, if_pos hall.1]
  unfold contribution
  rw [hsum _ fun e he => hmem e.1 (fst_mem_of_mem_zipIdx he), sum_zipIdx_map]
  exact sum_share htotal

variable (W : Walk K)

/-- The part of the damped amount that a node passes on. -/
def budget (f : K → ℕ) (a : K) : ℕ := share W.nodes f W.damping a

/-- The budgets of the nodes without a row. -/
def dangling (f : K → ℕ) : ℕ := ∑ a ∈ W.nodes, if W.row a = [] then W.budget f a else 0

/-- The mass that goes back to the prior. -/
def returned (f : K → ℕ) : ℕ := W.scale - W.damping + W.dangling f

/-- One step of the walk. -/
def next (f : K → ℕ) (t : K) : ℕ :=
  ∑ a ∈ W.nodes, contribution (W.row a) (W.budget f a) t + share W.nodes W.prior (W.returned f) t

/-- The largest change of a node. -/
def delta (f g : K → ℕ) : ℕ := W.nodes.sup fun a => (f a - g a) + (g a - f a)

/-- At most `left` more of `rounds` rounds, until the changes are below the tolerance: the amounts and
the rounds that were run. -/
def run (tolerance rounds : ℕ) : ℕ → (K → ℕ) → (K → ℕ) × ℕ
  | 0, f => (f, rounds)
  | left + 1, f =>
    if W.delta f (W.next f) < tolerance then (W.next f, rounds - left)
    else run tolerance rounds left (W.next f)

section Mass

variable {f : K → ℕ} (hf : ∑ a ∈ W.nodes, f a = W.scale)
include hf

theorem total_pos : 0 < total W.nodes f := by
  rw [total, hf]
  exact W.scale_pos

theorem sum_budget : ∑ a ∈ W.nodes, W.budget f a = W.damping := sum_share (W.total_pos hf)

theorem sum_rows_add_dangling :
    ∑ t ∈ W.nodes, ∑ a ∈ W.nodes, contribution (W.row a) (W.budget f a) t + W.dangling f = W.damping := by
  rw [sum_comm, dangling, ← sum_add_distrib, ← W.sum_budget hf]
  refine sum_congr rfl fun a ha => ?_
  by_cases hrow : W.row a = []
  · rw [if_pos hrow, hrow]
    simp [contribution_nil]
  · rw [if_neg hrow, Nat.add_zero]
    exact sum_contribution hrow (W.row_pos a) (W.row_mem a ha) _

theorem dangling_le : W.dangling f ≤ W.damping := by
  rw [← W.sum_rows_add_dangling hf]
  exact Nat.le_add_left ..

/-- A step conserves the scale. -/
theorem sum_next : ∑ t ∈ W.nodes, W.next f t = W.scale := by
  have hprior : 0 < total W.nodes W.prior := by
    rw [total, W.prior_sum]
    exact W.scale_pos
  have hrows := W.sum_rows_add_dangling hf
  have hle := W.damping_le
  show ∑ t ∈ W.nodes, (_ + _) = _
  rw [sum_add_distrib, sum_share hprior, returned]
  omega

end Mass

/-! ## Walks that agree where the prior reaches -/

/-- The second walk has the nodes and the prior of the first, and the rows of a set that the prior does
not leave. -/
structure Extends (W W' : Walk K) (C : Set K) : Prop where
  nodes : W.nodes ⊆ W'.nodes
  prior : W'.prior = W.prior
  scale : W'.scale = W.scale
  damping : W'.damping = W.damping
  rows : ∀ a ∈ C, W'.row a = W.row a
  prior_closed : ∀ a, W.prior a ≠ 0 → a ∈ C
  row_closed : ∀ a ∈ C, ∀ e ∈ W.row a, e.1 ∈ C

/-- All the mass lies on nodes of `C`. -/
def Supported (C : Set K) (f : K → ℕ) : Prop := ∀ a, f a ≠ 0 → a ∈ C ∧ a ∈ W.nodes

section Extends

variable {W} {W' : Walk K} {C : Set K} (h : Extends W W' C) {f : K → ℕ}
  (hf : ∑ a ∈ W.nodes, f a = W.scale) (hs : W.Supported C f)

include hf hs in
theorem Supported.budget {a : K} (ha : W.budget f a ≠ 0) : a ∈ C ∧ a ∈ W.nodes := by
  refine hs a fun hzero => ha ?_
  exact share_eq_zero (W.total_pos hf) hzero

include h hf hs

theorem Extends.budget_eq (a : K) : W'.budget f a = W.budget f a := by
  unfold Walk.budget
  rw [h.damping]
  refine share_extend h.nodes (fun k _ hk => ?_) (W.total_pos hf) a
  by_contra hne
  exact hk (hs k hne).2

theorem Extends.sum_eq {g g' : K → ℕ} (hzero : ∀ a, W.budget f a = 0 → g a = 0 ∧ g' a = 0)
    (hsame : ∀ a ∈ C, g' a = g a) : ∑ a ∈ W'.nodes, g' a = ∑ a ∈ W.nodes, g a := by
  have hout : ∀ a ∈ W'.nodes, a ∉ W.nodes → g' a = 0 := by
    intro a _ ha
    refine (hzero a ?_).2
    by_contra hne
    exact ha (hs.budget hf hne).2
  rw [← sum_subset h.nodes hout]
  refine sum_congr rfl fun a _ => ?_
  by_cases hb : W.budget f a = 0
  · rw [(hzero a hb).1, (hzero a hb).2]
  · exact hsame a (hs.budget hf hb).1

theorem Extends.dangling_eq : W'.dangling f = W.dangling f := by
  unfold dangling
  simp only [h.budget_eq hf hs]
  refine h.sum_eq hf hs (fun a ha => by simp [ha]) fun a ha => ?_
  rw [h.rows a ha]

theorem Extends.next_eq : W'.next f = W.next f := by
  funext t
  have hprior : 0 < total W.nodes W.prior := by
    rw [total, W.prior_sum]
    exact W.scale_pos
  have hrows : ∑ a ∈ W'.nodes, contribution (W'.row a) (W'.budget f a) t =
      ∑ a ∈ W.nodes, contribution (W.row a) (W.budget f a) t := by
    simp only [h.budget_eq hf hs]
    refine h.sum_eq hf hs (fun a ha => ?_) fun a ha => ?_
    · rw [ha, contribution_zero, contribution_zero]
      exact ⟨rfl, rfl⟩
    · rw [h.rows a ha]
  have hshare : share W'.nodes W'.prior (W'.returned f) t = share W.nodes W.prior (W.returned f) t := by
    rw [h.prior, returned, returned, h.scale, h.damping, h.dangling_eq hf hs]
    refine share_extend h.nodes (fun k _ hk => ?_) hprior t
    by_contra hne
    exact hk (W.prior_mem k hne)
  rw [next, next, hrows, hshare]

theorem Extends.supported_next : W.Supported C (W.next f) := by
  intro t ht
  have hprior : 0 < total W.nodes W.prior := by
    rw [total, W.prior_sum]
    exact W.scale_pos
  rcases Nat.eq_zero_or_pos (∑ a ∈ W.nodes, contribution (W.row a) (W.budget f a) t) with hz | hpos
  · have hne : W.prior t ≠ 0 := by
      intro hzero
      refine ht ?_
      rw [next, hz, share_eq_zero hprior hzero]
    exact ⟨h.prior_closed t hne, W.prior_mem t hne⟩
  · obtain ⟨a, ha, hne⟩ := exists_ne_zero_of_sum_ne_zero hpos.ne'
    have hbudget : W.budget f a ≠ 0 := by
      intro hzero
      rw [hzero] at hne
      exact hne (contribution_zero _ t)
    have htarget : ∃ e ∈ W.row a, e.1 = t := by
      by_contra hnot
      push Not at hnot
      exact hne (contribution_eq_zero hnot _)
    obtain ⟨e, he, rfl⟩ := htarget
    exact ⟨h.row_closed a (hs.budget hf hbudget).1 e he, W.row_mem a ha e he⟩

theorem Extends.delta_eq : W'.delta f (W.next f) = W.delta f (W.next f) := by
  have hnext := h.supported_next hf hs
  have hzero : ∀ a, a ∉ W.nodes → (f a - W.next f a) + (W.next f a - f a) = 0 := by
    intro a ha
    have h₁ : f a = 0 := by
      by_contra hne
      exact ha (hs a hne).2
    have h₂ : W.next f a = 0 := by
      by_contra hne
      exact ha (hnext a hne).2
    rw [h₁, h₂]
  refine le_antisymm (Finset.sup_le fun a _ => ?_) (sup_mono h.nodes)
  by_cases ha : a ∈ W.nodes
  · exact le_sup (f := fun a => (f a - W.next f a) + (W.next f a - f a)) ha
  · rw [hzero a ha]
    exact Nat.zero_le _

/-- Nodes that cannot be reached change nothing. -/
theorem Extends.run_eq (tolerance rounds left : ℕ) :
    W'.run tolerance rounds left f = W.run tolerance rounds left f ∧
      W.Supported C (W.run tolerance rounds left f).1 := by
  induction left generalizing f with
  | zero => exact ⟨rfl, hs⟩
  | succ left ih =>
    rw [run, run, h.next_eq hf hs, h.delta_eq hf hs]
    have hnext := h.supported_next hf hs
    split
    · exact ⟨rfl, hnext⟩
    · exact ih (W.sum_next hf) hnext

end Extends

/-! ## The same walk under other names -/

variable {ι : Type} [LinearOrder ι]

/-- The nodes of `W` are those of `V` under the names of `e`, in the same order. -/
structure Relabels (W : Walk K) (V : Walk ι) (e : ι → K) : Prop where
  strict : StrictMonoOn e V.nodes
  nodes : W.nodes = V.nodes.image e
  row : ∀ i ∈ V.nodes, W.row (e i) = (V.row i).map fun x => (e x.1, x.2)
  prior : ∀ i ∈ V.nodes, W.prior (e i) = V.prior i
  scale : W.scale = V.scale
  damping : W.damping = V.damping

section Relabels

theorem contribution_map {e : ι → K} {s : Set ι} (he : Set.InjOn e s) {row : List (ι × ℕ)}
    (hmem : ∀ x ∈ row, x.1 ∈ s) {t : ι} (ht : t ∈ s) (budget : ℕ) :
    contribution (row.map fun x => (e x.1, x.2)) budget (e t) = contribution row budget t := by
  have hweight : weightAt (row.map fun x => (e x.1, x.2)) = weightAt row := by
    funext i
    rw [weightAt, weightAt, List.getElem?_map]
    cases row[i]? <;> rfl
  have hshare : rowShare (row.map fun x => (e x.1, x.2)) budget = rowShare row budget := by
    funext i
    rw [rowShare, rowShare, hweight, length_map]
  unfold contribution
  rw [zipIdx_map, List.map_map, hshare]
  congr 1
  refine map_congr_left fun x hx => ?_
  have hxs : x.1.1 ∈ s := hmem x.1 (fst_mem_of_mem_zipIdx hx)
  show (if e x.1.1 = e t then _ else 0) = if x.1.1 = t then _ else 0
  by_cases hxt : x.1.1 = t
  · rw [if_pos (congrArg e hxt), if_pos hxt]
    rfl
  · rw [if_neg fun h => hxt (he hxs ht h), if_neg hxt]

variable {W : Walk K} {V : Walk ι} {e : ι → K} (h : Relabels W V e) {f : K → ℕ} {g : ι → ℕ}
  (hfg : ∀ i ∈ V.nodes, f (e i) = g i)
include h

theorem Relabels.sum_eq {F : K → ℕ} {G : ι → ℕ} (hFG : ∀ i ∈ V.nodes, F (e i) = G i) :
    ∑ a ∈ W.nodes, F a = ∑ i ∈ V.nodes, G i := by
  rw [h.nodes, sum_image h.strict.injOn]
  exact sum_congr rfl hFG

theorem Relabels.share_eq (u : ℕ) {F : K → ℕ} {G : ι → ℕ} (hFG : ∀ i ∈ V.nodes, F (e i) = G i)
    {i : ι} (hi : i ∈ V.nodes) : share W.nodes F u (e i) = share V.nodes G u i := by
  rw [h.nodes, share_image h.strict hi]
  exact share_congr hFG hi

include hfg

theorem Relabels.budget_eq {i : ι} (hi : i ∈ V.nodes) : W.budget f (e i) = V.budget g i := by
  rw [budget, budget, h.damping]
  exact h.share_eq V.damping hfg hi

theorem Relabels.dangling_eq : W.dangling f = V.dangling g := by
  refine h.sum_eq fun i hi => ?_
  rw [h.budget_eq hfg hi, h.row i hi]
  simp only [map_eq_nil_iff]

theorem Relabels.next_eq {t : ι} (ht : t ∈ V.nodes) : W.next f (e t) = V.next g t := by
  have hrows : ∑ a ∈ W.nodes, contribution (W.row a) (W.budget f a) (e t) =
      ∑ i ∈ V.nodes, contribution (V.row i) (V.budget g i) t := by
    refine h.sum_eq fun i hi => ?_
    rw [h.budget_eq hfg hi, h.row i hi]
    exact contribution_map h.strict.injOn (V.row_mem i hi) ht _
  have hreturned : W.returned f = V.returned g := by
    rw [returned, returned, h.scale, h.damping, h.dangling_eq hfg]
  rw [next, next, hrows, hreturned, h.share_eq _ h.prior ht]

theorem Relabels.delta_eq : W.delta f (W.next f) = V.delta g (V.next g) := by
  unfold delta
  rw [h.nodes, sup_image]
  refine sup_congr rfl fun i hi => ?_
  show (f (e i) - W.next f (e i)) + (W.next f (e i) - f (e i)) = _
  rw [h.next_eq hfg hi, hfg i hi]

theorem Relabels.run_eq (tolerance rounds left : ℕ) :
    (∀ i ∈ V.nodes, (W.run tolerance rounds left f).1 (e i) = (V.run tolerance rounds left g).1 i) ∧
      (W.run tolerance rounds left f).2 = (V.run tolerance rounds left g).2 := by
  induction left generalizing f g with
  | zero => exact ⟨hfg, rfl⟩
  | succ left ih =>
    have hnext : ∀ i ∈ V.nodes, W.next f (e i) = V.next g i := fun i hi => h.next_eq hfg hi
    rw [run, run, h.delta_eq hfg]
    split
    · exact ⟨hnext, rfl⟩
    · exact ih hnext

end Relabels

end Walk

end Trustgraphs
