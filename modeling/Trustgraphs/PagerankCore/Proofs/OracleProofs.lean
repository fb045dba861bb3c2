import Trustgraphs.PagerankCore.PagerankOracle
import Trustgraphs.PagerankCore.Proofs.KernelProofs

/-!
# Push equals pull

The oracle computes the same standing as the kernel: its distances are the search of the kernel with
counts in place of decays, its row scan finds the weight and the row sum of one edge, and the
contributions that a recipient pulls are the column of the flows that the sources push.
-/

namespace Trustgraphs.PagerankOracle

open Pagerank Option BTreeMap BitVec Finset

variable {K : Type} [LinearOrder K]

theorem skips_iff (source target : K) (w : U256) :
    (target == source || w == 0) = !eligibleEdge source target w := by
  rw [Bool.eq_iff_iff]
  simp only [eligibleEdge, Bool.or_eq_true, beq_iff_eq, Bool.not_eq_true', Bool.and_eq_false_iff,
    bne_eq_false_iff_eq]
  exact or_congr_left eq_comm

theorem foldl_bfsVisit (current : K) (distance : Nat) (l : List (K × U256)) (st : BTreeMap K Nat × List K) :
    l.foldl (bfsVisit current distance) st = Worklist.visitAll (distance + 1)
      ((l.filter fun e => eligibleEdge current e.1 e.2).map Prod.fst) st := by
  induction l generalizing st with
  | nil => rfl
  | cons edge l ih =>
    obtain ⟨neighbor, w⟩ := edge
    have hstep : bfsVisit current distance st (neighbor, w) =
        if eligibleEdge current neighbor w then Worklist.visit (distance + 1) st neighbor else st := by
      simp only [bfsVisit, skips_iff, Worklist.visit]
      by_cases hel : eligibleEdge current neighbor w = true
      · by_cases hc : st.1.contains neighbor = true
        · simp [hel, hc]
        · simp [hel, hc]
      · simp [hel]
    rw [List.foldl_cons, ih, hstep]
    by_cases hel : eligibleEdge current neighbor w = true
    · simp only [hel, if_true, List.filter_cons, List.map_cons, Worklist.visitAll_cons]
    · simp only [hel, Bool.false_eq_true, if_false, List.filter_cons]

theorem bfsDistancesLoop_eq (outgoing : Outgoing K) (fuel : Nat) (queue : List K) (distances : BTreeMap K Nat) :
    bfsDistancesLoop outgoing fuel queue distances =
      Worklist.search (neighbours outgoing) (· + 1) fuel queue distances := by
  induction fuel generalizing queue distances with
  | zero => cases queue <;> simp [bfsDistancesLoop, Worklist.search]
  | succ fuel ih =>
    cases queue with
    | nil => simp [bfsDistancesLoop]
    | cons current queue =>
      cases hd : distances[current]? with
      | none => simp [bfsDistancesLoop, Worklist.search, hd]
      | some distance =>
        rw [Worklist.search_cons hd]
        simp only [bfsDistancesLoop, hd, bind_eq_bind, bind_some]
        cases ho : outgoing[current]? with
        | none =>
          have hn : neighbours outgoing current = [] := by simp [neighbours, ho]
          rw [hn]
          exact ih _ _
        | some edges =>
          have hn : neighbours outgoing current =
              (edges.toList.filter fun e => eligibleEdge current e.1 e.2).map Prod.fst := by
            simp [neighbours, ho]
          simp only [foldl_bfsVisit, ← hn]
          exact ih _ _

/-- The decay at a distance: that many truncating products with the base. -/
def decayAt (cfg : RankConfig K) (distance : Nat) : U256 :=
  (nextDecay cfg.trustDecayFp cfg.scale)^[distance] cfg.scale

def decaysOf (cfg : RankConfig K) (distances : Option (BTreeMap K Nat)) : Option (BTreeMap K U256) :=
  distances.map fun d => d.map fun _ distance => decayAt cfg distance

section Decays

variable {outgoing : Outgoing K} {cfg : RankConfig K} (hb : Bounded cfg)
include hb

theorem decayPowFrom_eq (distance : Nat) (d : U256) : decayPowFrom cfg.trustDecayFp cfg.scale distance d =
      some ((nextDecay cfg.trustDecayFp cfg.scale)^[distance] d) := by
  induction distance generalizing d with
  | zero => rfl
  | succ n ih =>
    rw [decayPowFrom, fpMul_nextDecay hb.scale_pos hb.decay_le, Function.iterate_succ_apply]
    exact ih _

theorem bfsDecays_eq_map : bfsDecays outgoing cfg.seeds cfg.trustDecayFp cfg.scale =
    (bfsDistances outgoing cfg.seeds).map fun d => d.map fun _ distance => decayAt cfg distance := by
  have hstart : (BTreeMap.tabulate cfg.seeds.toList fun _ => cfg.scale) =
      (BTreeMap.tabulate cfg.seeds.toList fun _ => 0).map fun _ distance => decayAt cfg distance := by
    apply ext_getElem?
    intro k
    rw [BTreeMap.getElem?_map, BTreeMap.getElem?_tabulate, BTreeMap.getElem?_tabulate]
    split
    · rfl
    · rfl
  have hnext : ∀ n, nextDecay cfg.trustDecayFp cfg.scale (decayAt cfg n) = decayAt cfg (n + 1) :=
    fun n => (Function.iterate_succ_apply' ..).symm
  rw [bfsDecays_eq hb.scale_pos hb.decay_le, hstart, bfsDistances, bfsDistancesLoop_eq]
  exact Worklist.search_map (decayAt cfg) hnext _ _ _

theorem trustDistances_spec {decays : Option (BTreeMap K U256)} (h : trustDecays outgoing cfg = some decays) :
    ∃ distances, trustDistances outgoing cfg = some distances ∧ decays = decaysOf cfg distances := by
  unfold trustDecays at h
  unfold trustDistances
  by_cases hs : cfg.seeds.isEmpty = true
  · rw [if_pos hs, some_inj] at h
    exact ⟨none, by rw [if_pos hs], h.symm⟩
  · rw [if_neg hs, bfsDecays_eq_map hb] at h
    cases hd : bfsDistances outgoing cfg.seeds with
    | none => simp [hd] at h
    | some d =>
      refine ⟨some d, by rw [if_neg hs]; rfl, ?_⟩
      simpa [hd, decaysOf] using h.symm

theorem attesterDecay_eq (distances : Option (BTreeMap K Nat)) (attester : K) :
    attesterDecay cfg distances attester = some (sourceDecay (decaysOf cfg distances) cfg.scale attester) := by
  unfold attesterDecay sourceDecay decaysOf
  cases distances with
  | none => rfl
  | some d =>
    simp only [map_some, Std.ExtTreeMap.getD_eq_getD_getElem?, BTreeMap.getElem?_map]
    cases d[attester]? with
    | none => rfl
    | some distance => exact decayPowFrom_eq hb distance cfg.scale

end Decays

theorem keys_map (d : BTreeMap K Nat) (f : Nat → U256) : (d.map fun _ n => f n).keys = d.keys :=
  Std.ExtTreeMap.keys_map

theorem any_decaysOf (cfg : RankConfig K) (distances : Option (BTreeMap K Nat)) (k : K) :
    ((decaysOf cfg distances).any fun d => d.contains k) = distances.any fun d => d.contains k := by
  cases distances with
  | none => rfl
  | some d => simp [decaysOf]

theorem any_not_decaysOf (cfg : RankConfig K) (distances : Option (BTreeMap K Nat)) (k : K) :
    ((decaysOf cfg distances).any fun d => !d.contains k) = distances.any fun d => !d.contains k := by
  cases distances with
  | none => rfl
  | some d => simp [decaysOf]

variable {cfg : RankConfig K} {outgoing : Outgoing K}

theorem initializeScores_eq (hb : Bounded cfg) (nodes : List K) (distances : Option (BTreeMap K Nat)) :
    initializeScores nodes cfg distances = Pagerank.initializeScores nodes cfg (decaysOf cfg distances) := by
  obtain ⟨rest, hrest, -⟩ := Checked.sub_isSome hb.share_le
  have hcount : Pagerank.regularCount cfg.seeds (decaysOf cfg distances) =
      regularCount cfg.seeds distances := by
    cases distances with
    | none => rfl
    | some d =>
      simp only [decaysOf, map_some, Pagerank.regularCount, keys_map]
      rfl
  have hshare : ∀ n, regularShare cfg n = some (if n > 0 then divCount rest n else 0) := by
    intro n
    unfold regularShare
    by_cases hn : n > 0
    · rw [if_pos hn, if_pos hn, hrest]
      rfl
    · rw [if_neg hn, if_neg hn]
  unfold initializeScores Pagerank.initializeScores
  simp only [hcount, hshare, hrest, any_decaysOf, bind_eq_bind, bind_some]
  rfl

/-- The scan over a row adds up what the kernel adds up, and remembers the edge to the recipient. -/
theorem foldlM_scanRow (recipient attester : K) (l : List (K × U256)) (acc : U256) (found : Option U256)
    (h : acc.toNat + (l.map fun e => if eligibleEdge attester e.1 e.2 then e.2.toNat else 0).sum < 2 ^ 256) :
    ∃ (t : U256) (found' : Option U256), l.foldlM (scanEdge recipient attester) (acc, found) =
        some (t, found') ∧
      t.toNat = acc.toNat + (l.map fun e => if eligibleEdge attester e.1 e.2 then e.2.toNat else 0).sum ∧
      ((found' = found ∧ ∀ e ∈ l, eligibleEdge attester e.1 e.2 → e.1 ≠ recipient) ∨
        ∃ e ∈ l, eligibleEdge attester e.1 e.2 ∧ e.1 = recipient ∧ found' = some e.2) := by
  induction l generalizing acc found with
  | nil => exact ⟨acc, found, rfl, rfl, .inl ⟨rfl, by simp⟩⟩
  | cons edge l ih =>
    simp only [List.map_cons, List.sum_cons] at h
    simp only [List.foldlM_cons, List.map_cons, List.sum_cons, List.mem_cons]
    by_cases he : eligibleEdge attester edge.1 edge.2 = true
    · simp only [he, if_true] at h
      obtain ⟨a, ha, ea⟩ := Checked.add_isSome (a := acc) (b := edge.2) (by omega)
      obtain ⟨t, found', hfold, et, hfound⟩ :=
        ih a (if edge.1 = recipient then some edge.2 else found) (by omega)
      refine ⟨t, found', ?_, ?_, ?_⟩
      · simp only [scanEdge, skips_iff, he, Bool.not_true, Bool.false_eq_true, if_false, ha,
          bind_eq_bind, bind_some]
        exact hfold
      · simp only [he, if_true]
        omega
      · rcases hfound with ⟨rfl, hnone⟩ | ⟨e, hel, hek, her, hfe⟩
        · by_cases hrec : edge.1 = recipient
          · exact .inr ⟨edge, .inl rfl, he, hrec, by rw [if_pos hrec]⟩
          · refine .inl ⟨by rw [if_neg hrec], fun e hm hk => ?_⟩
            rcases hm with rfl | hm
            · exact hrec
            · exact hnone e hm hk
        · exact .inr ⟨e, .inr hel, hek, her, hfe⟩
    · simp only [he, Bool.false_eq_true, if_false, Nat.zero_add] at h
      obtain ⟨t, found', hfold, et, hfound⟩ := ih acc found h
      refine ⟨t, found', ?_, by simpa [he] using et, ?_⟩
      · simp only [scanEdge, skips_iff, he, Bool.not_false, if_true]
        exact hfold
      · rcases hfound with ⟨rfl, hnone⟩ | ⟨e, hel, hek, her, hfe⟩
        · refine .inl ⟨rfl, fun e hm hk => ?_⟩
          rcases hm with rfl | hm
          · exact absurd hk he
          · exact hnone e hm hk
        · exact .inr ⟨e, .inr hel, hek, her, hfe⟩

theorem scanRow_spec {i : K} {edges : BTreeMap K U256} (j : K)
    (hi : outgoing[i]? = some edges) (hlt : rowSum outgoing i < 2 ^ 256) :
    ∃ t found, scanRow j i edges = some (t, found) ∧ t.toNat = rowSum outgoing i ∧
      ((found = none ∧ weight outgoing i j = 0) ∨ ∃ w, found = some w ∧ w.toNat = weight outgoing i j) := by
  obtain ⟨t, found, hfold, et, hfound⟩ := foldlM_scanRow j i edges.toList 0 none
    (by simpa [sum_row hi] using hlt)
  refine ⟨t, found, hfold, by simpa [sum_row hi] using et, ?_⟩
  rcases hfound with ⟨hnone, hno⟩ | ⟨⟨j', w⟩, hmem, hel, rfl, hsome⟩
  · refine .inl ⟨hnone, ?_⟩
    by_contra hw
    by_cases hj : j ∈ edges
    · obtain ⟨w, hjw⟩ := mem_iff_getElem?.mp hj
      rw [weight_of_row hi hjw] at hw
      by_cases hel : eligibleEdge i j w = true
      · exact hno (j, w) (mem_toList.mpr hjw) hel rfl
      · rw [if_neg hel] at hw
        exact hw rfl
    · exact hw (weight_eq_zero_of_not_mem hi hj)
  · refine .inr ⟨w, hsome, ?_⟩
    rw [weight_of_row hi (mem_toList.mp hmem), if_pos hel]

section Pull

variable {nodes : List K} {outgoing : Outgoing K} {cfg : RankConfig K}
  {distances : Option (BTreeMap K Nat)}
  (h : Admissible nodes outgoing cfg (decaysOf cfg distances))
  {x : K → ℕ} {current : BTreeMap K U256}
  (hcur : Represents current h.standing.nodes x) (hx : ∀ k ∈ h.standing.nodes, x k ≤ cfg.scale.toNat)

theorem flow_eq_zero_of_weight {i j : K} (hw : weight outgoing i j = 0) : h.standing.flow x i j = 0 := by
  have hr : h.standing.ratio i j = 0 := by
    change ratioOf outgoing cfg _ i j = 0
    simp [ratioOf, hw]
  simp [Standing.flow, hr]

include hcur hx

/-- What a live recipient pulls from an attester is the flow between them. -/
theorem pullEdge_spec {i j : K} (hi : i ∈ h.standing.nodes) (hj : j ∈ h.standing.live)
    (newScore : U256) (hlt : newScore.toNat + h.standing.flow x i j < 2 ^ 256) :
    ∃ r, pullEdge outgoing cfg distances current j newScore i = some r ∧
      r.toNat = newScore.toNat + h.standing.flow x i j := by
  have hjn := h.standing.live_subset hj
  unfold pullEdge
  by_cases hij : i = j
  · have hw : weight outgoing i j = 0 := by
      by_contra hne
      have hmem := mem_neighbours.mpr (Nat.pos_of_ne_zero hne)
      unfold neighbours at hmem
      cases ho : outgoing[i]? with
      | none => simp [ho] at hmem
      | some edges =>
        simp only [ho, List.mem_map, List.mem_filter, eligibleEdge_iff] at hmem
        obtain ⟨e, ⟨-, hne', -⟩, he⟩ := hmem
        exact hne' (hij.trans he.symm)
    exact ⟨newScore, by rw [if_pos hij], by rw [flow_eq_zero_of_weight h hw, Nat.add_zero]⟩
  · rw [if_neg hij]
    cases ho : outgoing[i]? with
    | none =>
      have hw : weight outgoing i j = 0 := weight_eq_zero_of_no_row ho
      exact ⟨newScore, rfl, by rw [flow_eq_zero_of_weight h hw, Nat.add_zero]⟩
    | some edges =>
      obtain ⟨t, found, hscan, et, hfound⟩ := scanRow_spec j ho (h.rowSum_lt i)
      have hle := weight_le_rowSum outgoing i j
      simp only [hscan, bind_eq_bind, bind_some]
      by_cases ht : t = 0
      · have hw : weight outgoing i j = 0 := by
          have : t.toNat = 0 := by rw [ht]; rfl
          omega
        exact ⟨newScore, by rw [if_pos ht], by rw [flow_eq_zero_of_weight h hw, Nat.add_zero]⟩
      · rw [if_neg ht]
        rcases hfound with ⟨rfl, hw⟩ | ⟨w, rfl, ew⟩
        · exact ⟨newScore, rfl, by rw [flow_eq_zero_of_weight h hw, Nat.add_zero]⟩
        · obtain ⟨q, hq, eq⟩ := fpDiv_isSome (a := w) (s := cfg.scale) ht (by omega)
          have hratio : q.toNat = h.standing.ratio i j := by
            change _ = ratioOf outgoing cfg _ i j
            have hj' : j ∈ liveNodes nodes (decaysOf cfg distances) := hj
            rw [eq, ew, et, ratioOf, if_pos hj']
          obtain ⟨c, hc, ec⟩ := hcur.get hi
          obtain ⟨a, b, e, ha, hb, he, ee⟩ :=
            contribution_eq h.models (d := sourceDecay (decaysOf cfg distances) cfg.scale i) ec
              (hx i hi) hratio hjn rfl
          obtain ⟨r, hr, er⟩ := Checked.add_isSome (a := newScore) (b := e) (by rw [ee]; exact hlt)
          refine ⟨r, ?_, by rw [er, ee]⟩
          simp only [attesterDecay_eq h.bounded, hq, hc, ha, hb, he, bind_some, hr]

theorem foldlM_pullEdge {j : K} (hj : j ∈ h.standing.live) (l : List K)
    (hl : ∀ i ∈ l, i ∈ h.standing.nodes) (newScore : U256)
    (hlt : newScore.toNat + (l.map fun i => h.standing.flow x i j).sum < 2 ^ 256) :
    ∃ r, l.foldlM (pullEdge outgoing cfg distances current j) newScore = some r ∧
      r.toNat = newScore.toNat + (l.map fun i => h.standing.flow x i j).sum := by
  induction l generalizing newScore with
  | nil => exact ⟨newScore, rfl, rfl⟩
  | cons i l ih =>
    simp only [List.map_cons, List.sum_cons] at hlt ⊢
    obtain ⟨m, hm, em⟩ := pullEdge_spec h hcur hx (hl i (List.mem_cons_self ..)) hj newScore
      (by omega)
    obtain ⟨r, hr, er⟩ := ih (fun a ha => hl a (List.mem_cons_of_mem _ ha)) m (by omega)
    exact ⟨r, by rw [List.foldlM_cons, hm]; exact hr, by omega⟩

/-- The new score of a recipient is its share of a step; unreachable ones only keep the teleport. -/
theorem pullNode_spec {initial : BTreeMap K U256} (hinit : Represents initial h.standing.nodes h.standing.init)
    (htot : h.standing.total x ≤ cfg.scale.toNat) {N : Finset K} (newScores : BTreeMap K U256)
    (hN : Represents newScores N (h.standing.step x)) (delta : U256) {j : K} (hj : j ∈ h.standing.nodes) :
    ∃ m v, pullNode nodes outgoing cfg distances initial current (newScores, delta) j = some (m, v) ∧
      Represents m (insert j N) (h.standing.step x) ∧
      v.toNat = max delta.toNat
        (({j} ∩ h.standing.live).sup fun k => Standing.absDiff (h.standing.step x k) (x k)) := by
  have hm := h.models
  obtain ⟨v, hv, ev⟩ := hinit.get hj
  have hle : v.toNat ≤ cfg.scale.toNat := by
    rw [ev]
    exact (h.standing.le_total hj).trans h.standing.total_init_le
  obtain ⟨tel, htel, etel⟩ := fpMul_isSome (a := cfg.scale - cfg.dampingFp) hm.scale_ne hle
  have etel' : tel.toNat = h.standing.teleport j := by
    rw [etel, ev, toNat_sub_of_le (le_def.mpr h.bounded.damping_le)]
    rfl
  have hany : (distances.any fun d => !d.contains j) = true ↔ j ∉ h.standing.live := by
    rw [← any_not_decaysOf cfg]
    exact hm.any_not_contains hj
  unfold pullNode
  simp only [hv, htel, bind_eq_bind, bind_some]
  by_cases hlive : j ∈ h.standing.live
  · have hno : ¬ (distances.any fun d => !d.contains j) = true := fun ha => hany.mp ha hlive
    have hsum := hm.sum_flow (x := x) j
    have hstep : tel.toNat + (nodes.map fun i => h.standing.flow x i j).sum =
        h.standing.step x j := by rw [hsum, etel', Standing.step]
    have hlt : h.standing.step x j < 2 ^ 256 :=
      lt_of_le_of_lt ((h.standing.le_total hj).trans (h.standing.total_step_le x htot)) hm.scale_lt
    obtain ⟨r, hr, er⟩ := foldlM_pullEdge h hcur hx hlive nodes (fun i hi => hm.mem_nodes.mp hi) tel
      (by rw [hstep]; exact hlt)
    obtain ⟨c, hc, ec⟩ := hcur.get hj
    have hrs : r.toNat = h.standing.step x j := er.trans hstep
    have hdelta := toNat_scoreDelta r c
    rw [hrs, ec] at hdelta
    refine ⟨newScores.insert j r, if delta < scoreDelta r c then scoreDelta r c else delta, ?_,
      hN.insert_key hrs, ?_⟩
    · simp only [hno, Bool.false_eq_true, if_false, hr, hc, bind_some]
      rfl
    · rw [inter_eq_left.mpr (singleton_subset_iff.mpr hlive), sup_singleton, ← hdelta]
      by_cases hd : delta < scoreDelta r c
      · have := lt_def.mp hd
        rw [if_pos hd]
        omega
      · have : ¬ delta.toNat < (scoreDelta r c).toNat := fun hlt => hd (lt_def.mpr hlt)
        rw [if_neg hd]
        omega
  · have htel0 : tel.toNat = h.standing.step x j := by
      rw [etel', h.standing.dead_step x j hlive, Standing.teleport, h.standing.init_dead j hlive,
        Nat.mul_zero, Nat.zero_div]
    refine ⟨newScores.insert j tel, delta, ?_, hN.insert_key htel0, ?_⟩
    · simp only [hany.mpr hlive, if_true]
    · rw [singleton_inter_of_notMem hlive, sup_empty]
      exact (Nat.max_zero _).symm

theorem foldlM_pullNode {initial : BTreeMap K U256}
    (hinit : Represents initial h.standing.nodes h.standing.init)
    (htot : h.standing.total x ≤ cfg.scale.toNat) (l : List K)
    (hl : ∀ k ∈ l, k ∈ h.standing.nodes) {N : Finset K} (newScores : BTreeMap K U256)
    (hN : Represents newScores N (h.standing.step x)) (delta : U256) :
    ∃ m v, l.foldlM (pullNode nodes outgoing cfg distances initial current) (newScores, delta) = some (m, v) ∧
      Represents m (l.toFinset ∪ N) (h.standing.step x) ∧
      v.toNat = max delta.toNat ((l.toFinset ∩ h.standing.live).sup fun k =>
        Standing.absDiff (h.standing.step x k) (x k)) := by
  induction l generalizing N newScores delta with
  | nil => exact ⟨newScores, delta, rfl, by simpa using hN, by simp⟩
  | cons j l ih =>
    obtain ⟨m, v, hstep, hm, ev⟩ := pullNode_spec h hcur hx hinit htot newScores hN delta
      (hl j (List.mem_cons_self ..))
    obtain ⟨m', v', hfold, hm', ev'⟩ := ih (fun k hk => hl k (List.mem_cons_of_mem _ hk)) m hm v
    refine ⟨m', v', by rw [List.foldlM_cons, hstep]; exact hfold, ?_, ?_⟩
    · rwa [List.toFinset_cons, insert_union, ← union_insert]
    · rw [ev', ev, List.toFinset_cons, insert_eq, union_inter_distrib_right, sup_union]
      exact max_assoc ..

end Pull

theorem iterate_spec {nodes : List K} {distances : Option (BTreeMap K Nat)}
    (h : Admissible nodes outgoing cfg (decaysOf cfg distances)) {initial : BTreeMap K U256}
    (hinit : Represents initial h.standing.nodes h.standing.init) (remaining : Nat) {x : K → ℕ}
    {current : BTreeMap K U256} (hcur : Represents current h.standing.nodes x)
    (htot : h.standing.total x ≤ cfg.scale.toNat) :
    ∃ r, iterate nodes outgoing cfg distances initial remaining current = some r ∧
      Represents r h.standing.nodes (h.standing.run cfg.toleranceFp.toNat remaining x).1 := by
  induction remaining generalizing x current with
  | zero => exact ⟨current, rfl, hcur⟩
  | succ n ih =>
    have hm := h.models
    have hx : ∀ k ∈ h.standing.nodes, x k ≤ cfg.scale.toNat := fun k hk =>
      (h.standing.le_total hk).trans htot
    have htot' := h.standing.total_step_le x htot
    obtain ⟨new, delta, hfold, hrep, edelta⟩ := foldlM_pullNode h hcur hx hinit htot nodes
      (fun k hk => hm.mem_nodes.mp hk) ∅ Represents.empty 0
    have hnodes : nodes.toFinset ∪ ∅ = h.standing.nodes := union_empty _
    have hlive : nodes.toFinset ∩ h.standing.live = h.standing.live :=
      inter_eq_right.mpr h.standing.live_subset
    rw [hnodes] at hrep
    rw [hlive] at edelta
    obtain ⟨tot, hsum, etot⟩ := hrep.sum_eq_some (lt_of_le_of_lt htot' hm.scale_lt)
    have hle : ¬ cfg.scale < tot := by
      rw [lt_def, etot]
      exact not_lt.mpr htot'
    have edelta' : delta.toNat = h.standing.maxDelta (h.standing.step x) x := edelta.trans (Nat.zero_max _)
    have hstop : delta < cfg.toleranceFp ↔
        h.standing.maxDelta (h.standing.step x) x < cfg.toleranceFp.toNat := by
      rw [lt_def, edelta']
    simp only [iterate, Standing.run, hfold, hsum, bind_eq_bind, bind_some,
      if_neg hle, hstop]
    by_cases hs : h.standing.maxDelta (h.standing.step x) x < cfg.toleranceFp.toNat
    · simp only [if_pos hs]
      exact ⟨new, rfl, hrep⟩
    · simp only [if_neg hs]
      exact ih hrep htot'

theorem finish_eq (cfg : RankConfig K) (distances : Option (BTreeMap K Nat)) (current : BTreeMap K U256) :
    finish cfg.scale distances current = Pagerank.normalize current cfg.scale (decaysOf cfg distances) := by
  have hbind : ∀ p : K → Bool, ((decaysOf cfg distances).bind fun nodes => nodes.keys.find? p) =
      distances.bind fun nodes => nodes.keys.find? p := by
    intro p
    cases distances with
    | none => rfl
    | some d => simp only [decaysOf, map_some, bind_some, keys_map]
  unfold finish Pagerank.normalize dustRecipient
  simp only [hbind]
  rfl

theorem calculate_eq {nodes : List K} (h : Ready nodes outgoing cfg) :
    ∃ scores, calculateGeneric nodes outgoing cfg = some scores ∧
      calculate nodes outgoing cfg = some scores := by
  by_cases hne : rankNodes nodes cfg.seeds = []
  · obtain ⟨r, hr, hs, -, -⟩ := calculateGenericDetailed_empty h hne
    refine ⟨∅, ?_, ?_⟩
    · rw [calculateGeneric, hr, ← hs]
      rfl
    · simp only [calculate, hne, List.length_nil, if_true]
  · obtain ⟨decays, hdec, hadm⟩ := h.admissible
    obtain ⟨distances, hdist, rfl⟩ := trustDistances_spec h.bounded hdec
    obtain ⟨r, hr, hrep, -, -⟩ := calculateGenericDetailed_spec hdec hadm hne
    obtain ⟨initial, hinit, hirep⟩ := initializeScores_represents hadm hne
    obtain ⟨current, hcur, hcrep⟩ := iterate_spec hadm hirep cfg.maxIterations.toNat hirep
      hadm.standing.total_init_le
    have hnodes : hadm.standing.nodes.Nonempty := by
      obtain ⟨k, hk⟩ := List.exists_mem_of_ne_nil _ hne
      exact ⟨k, List.mem_toFinset.mpr hk⟩
    obtain ⟨scores, hscores, hsrep⟩ := normalize_spec hadm.models hcrep
      (hadm.standing.total_run_le _ _ _ hadm.standing.total_init_le) hnodes
    have hsame : r.scores = scores := hrep.unique hsrep
    have hlen : (rankNodes nodes cfg.seeds).length ≠ 0 := by simpa using hne
    refine ⟨scores, ?_, ?_⟩
    · rw [calculateGeneric, hr, ← hsame]
      rfl
    · simp only [calculate, hlen, if_false, hdist, initializeScores_eq h.bounded, hinit, hcur,
        finish_eq, hscores, bind_eq_bind, bind_some]

/-- The production push kernel equals the pull oracle. -/
theorem calculateGeneric_eq_oracle (nodes : List K) (outgoing : Outgoing K) (cfg : RankConfig K)
    (hscale : cfg.scale ≠ 0) (hdamping : cfg.dampingFp ≤ cfg.scale)
    (hshare : cfg.trustShareFp ≤ cfg.scale) (hdecay : cfg.trustDecayFp ≤ cfg.scale)
    (hclosed : Closed (rankNodes nodes cfg.seeds) outgoing) (hsum : ∀ i, rowSum outgoing i < 2 ^ 256) :
    ∃ scores, calculateGeneric nodes outgoing cfg = some scores ∧
      calculate nodes outgoing cfg = some scores := by
  refine calculate_eq ⟨hclosed, hsum, hscale, ?_, ?_, ?_⟩
  · exact le_def.mp hdamping
  · exact le_def.mp hshare
  · exact le_def.mp hdecay

/-- A self edge, a zero weight, a node listed twice and an unreachable part. -/
theorem calculateGeneric_eq_oracle_five_nodes :
    let outgoing : Outgoing (Fin 5) :=
      ((BTreeMap.tabulate [0] fun _ => BTreeMap.tabulate [0, 1, 2] fun _ => 5).insert 1
        (BTreeMap.tabulate [2, 3] fun j => if j = 3 then 0 else 9)).insert 3
        (BTreeMap.tabulate [0, 4] fun _ => 7)
    let cfg : RankConfig (Fin 5) := {
      dampingFp := 850, toleranceFp := 1, maxIterations := 20, trustShareFp := 500,
      trustDecayFp := 800, scale := 1000, seeds := BTreeSet.ofList [0] }
    ∃ scores, calculateGeneric [0, 1, 1, 2, 3, 4] outgoing cfg = some scores ∧
      calculate [0, 1, 1, 2, 3, 4] outgoing cfg = some scores := by
  intro outgoing cfg
  have hclosed : Closed (rankNodes [0, 1, 1, 2, 3, 4] cfg.seeds) outgoing :=
    assertEdgeClosure_iff.mp (by decide +kernel)
  exact calculateGeneric_eq_oracle [0, 1, 1, 2, 3, 4] outgoing cfg (by decide) (by decide)
    (by decide) (by decide) hclosed (by decide +kernel)

end Trustgraphs.PagerankOracle
