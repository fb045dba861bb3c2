import Trustgraphs.Lib.NatMap
import Trustgraphs.PagerankCore.RankGraph

/-!
# The rank kernel computes a standing

Every map of the kernel represents a function of the `Standing` of its input: the initial scores
`init`, the hoisted rows `ratio`, one push over all rows a `step`, the loop a `run`, and the result
`normalize` of that.
-/

/-!
## `bfs_decays`

The loop is the worklist search over the influence-carrying edges: it does not run out of fuel, what
it meets is what is reachable from the seeds, and every decay is at most the scale.
-/

namespace Trustgraphs.Pagerank

open Worklist BTreeMap Option Finset

variable {K : Type} [LinearOrder K]

def nextDecay (baseFp scale d : U256) : U256 := BitVec.ofNat 256 (d.toNat * baseFp.toNat / scale.toNat)

section Decay

variable {baseFp scale : U256}

theorem fpMul_nextDecay (hs : scale ≠ 0) (hb : baseFp.toNat ≤ scale.toNat) (d : U256) :
    fpMul d baseFp scale = some (nextDecay baseFp scale d) := by
  obtain ⟨q, hq, e⟩ := fpMul_isSome (a := d) hs hb
  rw [hq, nextDecay, ← e, BitVec.ofNat_toNat, BitVec.setWidth_eq]

theorem nextDecay_le (hb : baseFp.toNat ≤ scale.toNat) {d : U256} :
    (nextDecay baseFp scale d).toNat ≤ d.toNat := by
  have hle : d.toNat * baseFp.toNat / scale.toNat ≤ d.toNat := by
    apply Nat.div_le_of_le_mul
    rw [Nat.mul_comm scale.toNat]
    exact Nat.mul_le_mul_left _ hb
  rw [nextDecay, BitVec.toNat_ofNat, Nat.mod_eq_of_lt (lt_of_le_of_lt hle d.isLt)]
  exact hle

variable (hs : scale ≠ 0) (hb : baseFp.toNat ≤ scale.toNat)
include hs hb

theorem bfsVisit_eq (current : K) {d : U256} {decays : BTreeMap K U256} (queue : List K)
    {child : Option U256} (hd : decays[current]? = some d)
    (hc : ∀ v, child = some v → v = nextDecay baseFp scale d) (edge : K × U256) :
    ∃ child', (∀ v, child' = some v → v = nextDecay baseFp scale d) ∧
      bfsVisit current baseFp scale (decays, queue, child) edge =
        some (if eligibleEdge current edge.1 edge.2 then
            ((visit (nextDecay baseFp scale d) (decays, queue) edge.1).1,
              (visit (nextDecay baseFp scale d) (decays, queue) edge.1).2, child')
          else (decays, queue, child')) := by
  obtain ⟨neighbor, w⟩ := edge
  simp only [bfsVisit, visit]
  by_cases he : eligibleEdge current neighbor w = true
  · by_cases hn : decays.contains neighbor = true
    · exact ⟨child, hc, by simp [he, hn]⟩
    · refine ⟨some (nextDecay baseFp scale d), fun v hv => (some_inj.mp hv).symm, ?_⟩
      cases child with
      | none => simp [he, hn, hd, fpMul_nextDecay hs hb d]
      | some v => simp [he, hn, hc v rfl]
  · exact ⟨child, hc, by simp [he]⟩

theorem foldlM_bfsVisit (current : K) {d : U256} (edges : List (K × U256))
    (decays : BTreeMap K U256) (queue : List K) (child : Option U256)
    (hd : decays[current]? = some d) (hc : ∀ v, child = some v → v = nextDecay baseFp scale d) :
    ∃ child', edges.foldlM (bfsVisit current baseFp scale) (decays, queue, child) =
      some ((visitAll (nextDecay baseFp scale d)
          ((edges.filter fun e => eligibleEdge current e.1 e.2).map Prod.fst) (decays, queue)).1,
        (visitAll (nextDecay baseFp scale d)
          ((edges.filter fun e => eligibleEdge current e.1 e.2).map Prod.fst) (decays, queue)).2,
        child') := by
  induction edges generalizing decays queue child with
  | nil => exact ⟨child, rfl⟩
  | cons edge edges ih =>
    obtain ⟨child', hc', hstep⟩ := bfsVisit_eq hs hb current queue hd hc edge
    rw [List.foldlM_cons, hstep]
    by_cases he : eligibleEdge current edge.1 edge.2 = true
    · simp only [if_pos he, List.filter_cons, List.map_cons]
      have hd' : (visit (nextDecay baseFp scale d) (decays, queue) edge.1).1[current]? = some d := by
        have := getElem?_visitAll (nextDecay baseFp scale d) [edge.1] (decays, queue) current
        rw [visitAll_cons, visitAll_nil, if_pos (mem_iff_getElem?.mpr ⟨d, hd⟩)] at this
        exact this.trans hd
      exact ih _ _ child' hd' hc'
    · simp only [if_neg he, List.filter_cons]
      exact ih _ _ child' hd hc'

theorem bfsDecaysLoop_eq (outgoing : Outgoing K) (fuel : Nat) (queue : List K)
    (decays : BTreeMap K U256) (hq : ∀ k ∈ queue, k ∈ decays) :
    bfsDecaysLoop outgoing baseFp scale fuel queue decays =
      search (neighbours outgoing) (nextDecay baseFp scale) fuel queue decays := by
  induction fuel generalizing queue decays with
  | zero => cases queue <;> simp [bfsDecaysLoop, search]
  | succ fuel ih =>
    cases queue with
    | nil => simp [bfsDecaysLoop]
    | cons current queue =>
      obtain ⟨d, hd⟩ := mem_iff_getElem?.mp (hq current (List.mem_cons_self ..))
      have hq' : ∀ k ∈ queue, k ∈ decays := fun k hk => hq k (List.mem_cons_of_mem _ hk)
      rw [search_cons hd, bfsDecaysLoop]
      cases ho : outgoing[current]? with
      | none =>
        have hn : neighbours outgoing current = [] := by simp [neighbours, ho]
        rw [hn]
        exact ih _ _ hq'
      | some edges =>
        have hn : neighbours outgoing current =
            (edges.toList.filter fun e => eligibleEdge current e.1 e.2).map Prod.fst := by
          simp [neighbours, ho]
        obtain ⟨child', hrow⟩ := foldlM_bfsVisit hs hb current edges.toList decays queue none hd
          (by simp)
        rw [← hn] at hrow
        simp only [bfsRow, hrow, bind_eq_bind, bind_some]
        apply ih
        intro k hk
        rcases (mem_queue_visitAll ..).mp hk with h | h
        · exact (mem_visitAll ..).mpr (.inl (hq' k h))
        · exact (mem_visitAll ..).mpr (.inr h.1)

end Decay

def targets (outgoing : Outgoing K) : Finset K :=
  (BTreeMap.dom outgoing).biUnion fun i => (neighbours outgoing i).toFinset

theorem mem_targets {outgoing : Outgoing K} {i j : K} (h : j ∈ neighbours outgoing i) :
    j ∈ targets outgoing := by
  refine mem_biUnion.mpr ⟨i, ?_, List.mem_toFinset.mpr h⟩
  rw [mem_dom, mem_iff_getElem?]
  cases hi : outgoing[i]? with
  | none => simp [neighbours, hi] at h
  | some edges => exact ⟨edges, rfl⟩

theorem card_targets_le (outgoing : Outgoing K) :
    (targets outgoing).card ≤ (outgoing.toList.map fun row => row.2.size).sum := by
  have hrow : (outgoing.toList.map fun row => row.2.size).sum =
      ∑ i ∈ BTreeMap.dom outgoing, (outgoing[i]?.map fun edges => edges.size).getD 0 :=
    sum_toList outgoing (fun _ edges => edges.size) _ fun i edges hi => by simp [hi]
  rw [hrow]
  refine card_biUnion_le.trans (Finset.sum_le_sum fun i _ => ?_)
  refine (List.toFinset_card_le _).trans ?_
  unfold neighbours
  cases outgoing[i]? with
  | none => simp
  | some edges =>
    simp only [List.length_map, map_some, getD_some]
    rw [← Std.ExtTreeMap.length_toList]
    exact List.length_filter_le _ _

theorem getElem?_seeds (seeds : BTreeSet K) (scale : U256) (k : K) :
    (BTreeMap.tabulate seeds.toList fun _ => scale)[k]? = if k ∈ seeds then some scale else none := by
  simp [BTreeMap.getElem?_tabulate]

theorem met_seeds (outgoing : Outgoing K) (seeds : BTreeSet K) (scale : U256) :
    Met (neighbours outgoing) (· ∈ seeds) seeds.toList (BTreeMap.tabulate seeds.toList fun _ => scale) where
  queued k hk := mem_tabulate.mpr hk
  sound k hk := .of_src (by simpa using hk)
  start k hk := mem_tabulate.mpr (by simpa using hk)
  closed k hk hnq := absurd (mem_tabulate.mp hk) hnq

section Search

variable {outgoing : Outgoing K} {seeds : BTreeSet K} {baseFp scale : U256}

theorem bfsDecays_eq (hs : scale ≠ 0) (hb : baseFp.toNat ≤ scale.toNat) :
    bfsDecays outgoing seeds baseFp scale =
      search (neighbours outgoing) (nextDecay baseFp scale) (bfsFuel outgoing seeds) seeds.toList
        (BTreeMap.tabulate seeds.toList fun _ => scale) :=
  bfsDecaysLoop_eq hs hb outgoing _ _ _ (met_seeds outgoing seeds scale).queued

theorem search_seeds_isSome {V : Type*} (next : V → V) (v : V) :
    ∃ r, search (neighbours outgoing) next (bfsFuel outgoing seeds) seeds.toList
      (BTreeMap.tabulate seeds.toList fun _ => v) = some r := by
  refine search_isSome (targets outgoing) (fun k n hn => mem_targets hn) _ _ _
    (fun k hk => mem_tabulate.mpr hk) ?_
  have h1 : seeds.toList.length = seeds.size := Std.ExtTreeSet.length_toList
  have h2 := card_targets_le outgoing
  have h3 := card_le_card (sdiff_subset (s := targets outgoing)
    (t := BTreeMap.dom (BTreeMap.tabulate seeds.toList fun _ => v)))
  rw [bfsFuel]
  omega

variable (outgoing seeds) in
theorem bfsDecays_isSome (hs : scale ≠ 0) (hb : baseFp.toNat ≤ scale.toNat) :
    ∃ decays, bfsDecays outgoing seeds baseFp scale = some decays := by
  rw [bfsDecays_eq hs hb]
  exact search_seeds_isSome _ _

variable {decays : BTreeMap K U256} (hs : scale ≠ 0) (hb : baseFp.toNat ≤ scale.toNat)
  (h : bfsDecays outgoing seeds baseFp scale = some decays)
include hs hb h

theorem mem_bfsDecays (k : K) : k ∈ decays ↔ Reachable outgoing seeds k := by
  rw [bfsDecays_eq hs hb] at h
  exact mem_search_iff _ _ _ _ (met_seeds outgoing seeds scale) h k

theorem bfsDecays_le (k : K) (v : U256) (hv : decays[k]? = some v) : v.toNat ≤ scale.toNat := by
  rw [bfsDecays_eq hs hb] at h
  refine search_forall (P := fun v => v.toNat ≤ scale.toNat)
    (fun v hv => (nextDecay_le hb).trans hv) _ _ _ _ (fun k v hk => ?_) h k v hv
  rw [getElem?_seeds] at hk
  split at hk
  · rw [← some_inj.mp hk]
  · exact absurd hk (by simp)

theorem decaysFit {nodes : List K} {cfg : RankConfig K} (hne : cfg.seeds.isEmpty = false)
    (hc : Closed nodes outgoing) (hseeds : ∀ k ∈ cfg.seeds, k ∈ nodes) (e : cfg.seeds = seeds)
    (es : cfg.scale = scale) : DecaysFit nodes cfg (some decays) where
  off := by simp
  on _ _ := hne
  nodes reachable hr k hk := by
    obtain rfl := some_inj.mp hr
    obtain ⟨a, ha, hak⟩ := (mem_bfsDecays hs hb h k).mp hk
    induction hak with
    | refl => exact hseeds _ (e ▸ ha)
    | tail _ hbc _ => exact hc.mem_of_weight (mem_neighbours.mp hbc)
  seeds reachable hr k hk := by
    obtain rfl := some_inj.mp hr
    exact (mem_bfsDecays hs hb h k).mpr (.of_src (e ▸ hk))
  le reachable hr k v hv := by
    obtain rfl := some_inj.mp hr
    exact es ▸ bfsDecays_le hs hb h k v hv

end Search

end Trustgraphs.Pagerank

namespace Trustgraphs.Pagerank

open BTreeMap Option List Finset BitVec

variable {K : Type} [LinearOrder K]

/-- `G` is the standing that belongs to an input of the kernel. -/
structure Models (G : Standing K) (nodes : List K) (cfg : RankConfig K)
    (decays : Option (BTreeMap K U256)) : Prop where
  nodup : nodes.Nodup
  nodes_eq : G.nodes = nodes.toFinset
  live_eq : G.live = liveNodes nodes decays
  scale_eq : G.scale = cfg.scale.toNat
  damping_eq : G.damping = cfg.dampingFp.toNat
  decay_eq : ∀ k, G.decay k = (sourceDecay decays cfg.scale k).toNat

variable {nodes : List K} {outgoing : Outgoing K} {decays : Option (BTreeMap K U256)}

theorem Admissible.models {cfg : RankConfig K} (h : Admissible nodes outgoing cfg decays) :
    Models h.standing nodes cfg decays :=
  ⟨h.nodup, rfl, rfl, rfl, rfl, fun _ => rfl⟩

@[simp]
theorem isSeed_iff {seeds : BTreeSet K} {k : K} : isSeed seeds k = true ↔ k ∈ seeds := Iff.rfl

theorem regularCount_some (reachable : BTreeMap K U256) (seeds : BTreeSet K) :
    regularCount seeds (some reachable) = (BTreeMap.dom reachable \ BTreeSet.dom seeds).card := by
  have hnd : (reachable.keys.filter fun node => !isSeed seeds node).Nodup := (keys_nodup reachable).filter _
  rw [regularCount, ← toFinset_card_of_nodup hnd]
  congr 1
  ext k
  simp [← Bool.not_eq_true]

theorem seeds_size_pos {seeds : BTreeSet K} (h : ¬ seeds.isEmpty = true) : 0 < seeds.size := by
  rw [Std.ExtTreeSet.isEmpty_eq_size_beq_zero] at h
  simp only [beq_iff_eq] at h
  omega

theorem initializeScores_represents {cfg : RankConfig K} (h : Admissible nodes outgoing cfg decays)
    (hne : nodes ≠ []) :
    ∃ initial, initializeScores nodes cfg decays = some initial ∧
      Represents initial nodes.toFinset h.standing.init := by
  have hlen : nodes.length ≠ 0 := by simpa using hne
  have hmem : ∀ k, k ∈ nodes ↔ k ∈ nodes.toFinset := fun k => List.mem_toFinset.symm
  unfold initializeScores
  simp only [hlen, if_false]
  by_cases hs : cfg.seeds.isEmpty = true
  · have hd : decays = none := by
      cases hd : decays with
      | none => rfl
      | some reachable => rw [h.fit.on reachable hd] at hs; exact absurd hs (by simp)
    refine ⟨_, by rw [if_pos hs], Represents.tabulate hmem fun k hk => ?_⟩
    have hlive : k ∈ liveNodes nodes decays := by rw [hd]; exact (hmem k).mp hk
    change _ = initialOf nodes cfg (liveNodes nodes decays) k
    rw [toNat_divCount, initialOf, if_neg (not_not_intro hlive), if_pos hs]
  · obtain ⟨reachable, hd⟩ : ∃ reachable, decays = some reachable := by
      cases hd : decays with
      | none => exact absurd (h.fit.off hd) hs
      | some reachable => exact ⟨reachable, rfl⟩
    obtain ⟨rest, hrest, erest⟩ := Checked.sub_isSome h.bounded.share_le
    have hpos := seeds_size_pos hs
    subst hd
    refine ⟨_, by simp only [hs, hrest, bind_eq_bind, bind_some]; rfl, Represents.tabulate hmem fun k hk => ?_⟩
    change _ = initialOf nodes cfg (BTreeMap.dom reachable) k
    simp only [regularCount_some, Option.any_some]
    by_cases hk : k ∈ reachable
    · have hlive : ¬ k ∉ BTreeMap.dom reachable := not_not_intro (mem_dom.mpr hk)
      rw [initialOf, if_neg hlive, if_neg hs]
      by_cases hseed : k ∈ cfg.seeds
      · have hc : isSeed cfg.seeds k = true := hseed
        rw [if_pos hc, if_pos hseed, if_pos hpos, toNat_divCount]
      · have hc : ¬ isSeed cfg.seeds k = true := hseed
        have hkc : reachable.contains k = true := hk
        have hcard : 0 < (BTreeMap.dom reachable \ BTreeSet.dom cfg.seeds).card :=
          card_pos.mpr ⟨k, by simp [hk, hseed]⟩
        rw [if_neg hc, if_neg hseed, if_pos hkc, if_pos hcard, toNat_divCount, erest]
    · have hdead : k ∉ BTreeMap.dom reachable := fun hm => hk (mem_dom.mp hm)
      have hc : ¬ isSeed cfg.seeds k = true := fun hm => hk (h.fit.seeds reachable rfl k hm)
      have hkc : ¬ reachable.contains k = true := hk
      rw [initialOf, if_pos hdead, if_neg hc, if_neg hkc]
      rfl

theorem foldlM_rowTotalBase (attester : K) (l : List (K × U256)) (acc : U256) (h : acc.toNat +
      (l.map fun e => if eligibleEdge attester e.1 e.2 then e.2.toNat else 0).sum < 2 ^ 256) :
    ∃ t : U256, l.foldlM (fun totalBase edge =>
        if !eligibleEdge attester edge.1 edge.2 then some totalBase
        else Checked.add totalBase edge.2) acc = some t ∧
      t.toNat = acc.toNat + (l.map fun e => if eligibleEdge attester e.1 e.2 then e.2.toNat else 0).sum := by
  induction l generalizing acc with
  | nil => exact ⟨acc, rfl, rfl⟩
  | cons edge l ih =>
    simp only [List.map_cons, List.sum_cons] at h
    simp only [foldlM_cons, List.map_cons, List.sum_cons]
    by_cases he : eligibleEdge attester edge.1 edge.2 = true
    · simp only [he, if_true] at h
      obtain ⟨a, ha, ea⟩ := Checked.add_isSome (a := acc) (b := edge.2) (by omega)
      obtain ⟨t, ht, et⟩ := ih a (by omega)
      refine ⟨t, ?_, ?_⟩
      · simpa [he, ha] using ht
      · simp only [he, if_true]
        omega
    · simp only [he, Bool.false_eq_true, if_false, Nat.zero_add] at h
      obtain ⟨t, ht, et⟩ := ih acc h
      refine ⟨t, ?_, ?_⟩
      · simpa [he] using ht
      · simpa [he] using et

theorem sum_row {i : K} {edges : BTreeMap K U256} (hi : outgoing[i]? = some edges) :
    (edges.toList.map fun e => if eligibleEdge i e.1 e.2 then e.2.toNat else 0).sum = rowSum outgoing i := by
  simp only [rowSum, hi]
  exact sum_toList edges (fun j w => if eligibleEdge i j w then w.toNat else 0) _
    fun j w hj => (weight_of_row hi hj).symm

theorem rowTotalBase_eq {i : K} {edges : BTreeMap K U256}
    (hi : outgoing[i]? = some edges) (hlt : rowSum outgoing i < 2 ^ 256) :
    ∃ t, rowTotalBase i edges = some t ∧ t.toNat = rowSum outgoing i := by
  obtain ⟨t, ht, et⟩ := foldlM_rowTotalBase i edges.toList 0 (by simpa [sum_row hi] using hlt)
  exact ⟨t, ht, by simpa [sum_row hi] using et⟩

/-- A hoisted row of `G`: each target once, with its ratio, and none with a ratio left out. -/
structure RowSpec (G : Standing K) (i : K) (row : List (K × U256)) : Prop where
  nodup : (row.map Prod.fst).Nodup
  mem : ∀ e ∈ row, e.1 ∈ G.nodes ∧ e.2.toNat = G.ratio i e.1
  absent : ∀ j, j ∉ row.map Prod.fst → G.ratio i j = 0

def ratioFp (w totalBase s : U256) : U256 := BitVec.ofNat 256 (w.toNat * s.toNat / totalBase.toNat)

theorem fpDiv_ratioFp {w t s : U256} (ht : t ≠ 0) (hw : w.toNat ≤ t.toNat) :
    fpDiv w t s = some (ratioFp w t s) ∧ (ratioFp w t s).toNat = w.toNat * s.toNat / t.toNat := by
  obtain ⟨q, hq, e⟩ := fpDiv_isSome (s := s) ht hw
  have : ratioFp w t s = q := by rw [ratioFp, ← e, ofNat_toNat, setWidth_eq]
  exact ⟨this ▸ hq, this ▸ e⟩

def keepsEdge (attester : K) (decays : Option (BTreeMap K U256)) (edge : K × U256) : Bool :=
  eligibleEdge attester edge.1 edge.2 && !(decays.any fun reachable => !reachable.contains edge.1)

theorem foldlM_ratioRow (attester : K) (t s : U256) (decays : Option (BTreeMap K U256))
    (ht : t ≠ 0) (l : List (K × U256)) (row : List (K × U256))
    (h : ∀ e ∈ l, eligibleEdge attester e.1 e.2 → e.2.toNat ≤ t.toNat) :
    l.foldlM (fun row edge =>
        if !eligibleEdge attester edge.1 edge.2 then some row
        else if decays.any fun reachable => !reachable.contains edge.1 then some row
        else do some (row ++ [(edge.1, ← fpDiv edge.2 t s)])) row =
      some (row ++ (l.filter (keepsEdge attester decays)).map fun e => (e.1, ratioFp e.2 t s)) := by
  induction l generalizing row with
  | nil => simp
  | cons edge l ih =>
    have ih := fun row => ih row fun e he => h e (List.mem_cons_of_mem _ he)
    rw [foldlM_cons]
    by_cases he : eligibleEdge attester edge.1 edge.2 = true
    · by_cases hd : (decays.any fun reachable => !reachable.contains edge.1) = true
      · simpa [he, hd, keepsEdge] using ih row
      · have hq := (fpDiv_ratioFp (s := s) ht (h edge (List.mem_cons_self ..) he)).1
        simpa [he, hd, hq, keepsEdge] using ih (row ++ [(edge.1, ratioFp edge.2 t s)])
    · simpa [he, keepsEdge] using ih row

theorem any_not_contains {k : K} (hk : k ∈ nodes) :
    (decays.any fun reachable => !reachable.contains k) = true ↔ k ∉ liveNodes nodes decays := by
  cases decays with
  | none => simp [liveNodes, hk]
  | some reachable =>
    have hc : reachable.contains k = false ↔ k ∉ reachable := by
      rw [← Bool.not_eq_true, Std.ExtTreeMap.contains_iff_mem]
    simp [liveNodes, hc]

section Hoist

variable {nodes : List K} {outgoing : Outgoing K} {cfg : RankConfig K}
  {decays : Option (BTreeMap K U256)} (h : Admissible nodes outgoing cfg decays)
include h

theorem rowSpec_nil {i : K} (hi : ∀ j, weight outgoing i j = 0) : RowSpec h.standing i [] where
  nodup := nodup_nil
  mem := by simp
  absent j _ := by
    change ratioOf outgoing cfg (liveNodes nodes decays) i j = 0
    simp [ratioOf, hi j]

theorem ratioRow_spec {i : K} {edges : BTreeMap K U256} {t : U256}
    (hi : outgoing[i]? = some edges) (ht : t ≠ 0) (et : t.toNat = rowSum outgoing i) :
    ∃ row, ratioRow i edges t cfg.scale decays = some row ∧ RowSpec h.standing i row := by
  have hle : ∀ e ∈ edges.toList, eligibleEdge i e.1 e.2 → e.2.toNat ≤ t.toNat := by
    rintro ⟨j, w⟩ he hel
    have := weight_le_rowSum outgoing i j
    rw [weight_of_row hi (mem_toList.mp he), if_pos hel] at this
    exact this.trans et.ge
  refine ⟨_, foldlM_ratioRow i t cfg.scale decays ht edges.toList [] hle, ?_, ?_, ?_⟩
  · rw [nil_append, List.map_map]
    have hs := edges.toList_sorted.filter (keepsEdge i decays)
    exact (pairwise_map.mpr hs).imp fun h => h.ne
  · rw [nil_append]
    intro e' he'
    obtain ⟨⟨j, w⟩, he, rfl⟩ := List.mem_map.mp he'
    obtain ⟨hmem, hk⟩ := List.mem_filter.mp he
    have hj := mem_toList.mp hmem
    simp only [keepsEdge, Bool.and_eq_true, Bool.not_eq_true'] at hk
    have hjn : j ∈ nodes := h.closed.target i edges hi j (mem_iff_getElem?.mpr ⟨w, hj⟩)
    have hlive : j ∈ liveNodes nodes decays := by
      by_contra hn
      rw [(any_not_contains hjn).mpr hn] at hk
      exact absurd hk.2 (by simp)
    refine ⟨List.mem_toFinset.mpr hjn, ?_⟩
    change _ = ratioOf outgoing cfg (liveNodes nodes decays) i j
    rw [ratioOf, if_pos hlive, weight_of_row hi hj, if_pos hk.1, (fpDiv_ratioFp ht (hle _ hmem hk.1)).2, et]
  · rw [nil_append]
    intro j hj
    change ratioOf outgoing cfg (liveNodes nodes decays) i j = 0
    unfold ratioOf
    split
    · rename_i hlive
      by_cases hje : j ∈ edges
      · obtain ⟨w, hw⟩ := mem_iff_getElem?.mp hje
        have hjn : j ∈ nodes := h.closed.target i edges hi j hje
        by_cases hel : eligibleEdge i j w = true
        · refine absurd (List.mem_map.mpr ⟨(j, ratioFp w t cfg.scale), ?_, rfl⟩) hj
          refine List.mem_map.mpr ⟨(j, w), List.mem_filter.mpr ⟨mem_toList.mpr hw, ?_⟩, rfl⟩
          have hany : ¬ (decays.any fun reachable => !reachable.contains j) = true :=
            fun ha => (any_not_contains hjn).mp ha hlive
          simp only [keepsEdge, hel, Bool.true_and, Bool.not_eq_true'] at hany ⊢
          simpa using hany
        · rw [weight_of_row hi hw, if_neg hel, Nat.zero_mul, Nat.zero_div]
      · rw [weight_eq_zero_of_not_mem hi hje, Nat.zero_mul, Nat.zero_div]
    · rfl

theorem hoistRow_spec (i : K) (ratios : BTreeMap K (List (K × U256))) :
    (hoistRow outgoing cfg.scale decays ratios i = some ratios ∧ RowSpec h.standing i []) ∨
    ∃ row, hoistRow outgoing cfg.scale decays ratios i = some (ratios.insert i row) ∧
      RowSpec h.standing i row := by
  unfold hoistRow
  cases hi : outgoing[i]? with
  | none => exact .inl ⟨rfl, rowSpec_nil h fun j => weight_eq_zero_of_no_row hi⟩
  | some edges =>
    obtain ⟨t, ht, et⟩ := rowTotalBase_eq hi (h.rowSum_lt i)
    simp only [ht, bind_eq_bind, bind_some]
    by_cases ht0 : t = 0
    · refine .inl ⟨by rw [if_pos ht0], rowSpec_nil h fun j => ?_⟩
      have hle := weight_le_rowSum outgoing i j
      have h0 : t.toNat = 0 := by rw [ht0]; rfl
      omega
    · obtain ⟨row, hrow, hspec⟩ := ratioRow_spec h hi ht0 et
      rw [if_neg ht0, hrow]
      simp only [bind_some]
      by_cases hemp : row.isEmpty = true
      · obtain rfl := List.isEmpty_iff.mp hemp
        exact .inl ⟨rfl, hspec⟩
      · exact .inr ⟨row, by rw [if_neg hemp], hspec⟩

theorem foldlM_hoistRow (l : List K) (ratios : BTreeMap K (List (K × U256)))
    (hm : ∀ (i : K) (row : List (K × U256)), ratios[i]? = some row → RowSpec h.standing i row) :
    ∃ r, l.foldlM (hoistRow outgoing cfg.scale decays) ratios = some r ∧
      (∀ (i : K) (row : List (K × U256)), r[i]? = some row → RowSpec h.standing i row) ∧
      (∀ i ∈ ratios, i ∈ r) ∧ ∀ i ∈ l, i ∉ r → RowSpec h.standing i [] := by
  induction l generalizing ratios with
  | nil => exact ⟨ratios, rfl, hm, fun _ hi => hi, by simp⟩
  | cons a l ih =>
    rw [foldlM_cons]
    rcases hoistRow_spec h a ratios with ⟨hstep, hspec⟩ | ⟨row, hstep, hspec⟩
    · obtain ⟨r, hr, hall, hsub, hnil⟩ := ih ratios hm
      refine ⟨r, by simpa [hstep] using hr, hall, hsub, fun i hi hir => ?_⟩
      rcases List.mem_cons.mp hi with rfl | hi
      · exact hspec
      · exact hnil i hi hir
    · have hm' : ∀ (i : K) (row' : List (K × U256)), (ratios.insert a row)[i]? = some row' →
          RowSpec h.standing i row' := by
        intro i row' hi
        rw [BTreeMap.getElem?_insert] at hi
        split at hi
        · rename_i hai
          rw [← some_inj.mp hi, ← hai]
          exact hspec
        · exact hm i row' hi
      obtain ⟨r, hr, hall, hsub, hnil⟩ := ih _ hm'
      refine ⟨r, by simpa [hstep] using hr, hall, fun i hi => hsub i ?_, fun i hi hir => ?_⟩
      · exact Std.ExtTreeMap.mem_insert.mpr (.inr hi)
      · rcases List.mem_cons.mp hi with rfl | hi
        · exact absurd (hsub i Std.ExtTreeMap.mem_insert_self) hir
        · exact hnil i hi hir

theorem hoistRatios_spec : ∃ ratios, hoistRatios nodes outgoing cfg.scale decays = some ratios ∧
      ∀ i ∈ nodes, RowSpec h.standing i ((ratios[i]?).getD []) := by
  obtain ⟨r, hr, hall, -, hnil⟩ := foldlM_hoistRow h nodes ∅ (by simp)
  refine ⟨r, hr, fun i hi => ?_⟩
  cases hri : r[i]? with
  | some row => exact hall i row hri
  | none => exact hnil i hi (not_mem_iff_getElem?.mpr hri)

end Hoist

section Push

variable {G : Standing K} {nodes : List K} {cfg : RankConfig K} {decays : Option (BTreeMap K U256)}
  (hm : Models G nodes cfg decays)
include hm

theorem Models.scale_ne : cfg.scale ≠ 0 := U256.toNat_pos.mp (hm.scale_eq ▸ G.scale_pos)

theorem Models.scale_lt : G.scale < 2 ^ 256 := hm.scale_eq ▸ cfg.scale.isLt

theorem Models.mem_nodes {k : K} : k ∈ nodes ↔ k ∈ G.nodes := by rw [hm.nodes_eq, List.mem_toFinset]

variable {i : K} {y : K → ℕ} {newScores : BTreeMap K U256} {ratios : BTreeMap K (List (K × U256))}

theorem contribution_eq {x : K → ℕ} {j : K} {c r d : U256} (hc : c.toNat = x i)
    (hx : x i ≤ G.scale) (hr : r.toNat = G.ratio i j) (hj : j ∈ G.nodes) (hd : d.toNat = G.decay i) :
    ∃ a b e, fpMul c r cfg.scale = some a ∧ fpMul a d cfg.scale = some b ∧
      fpMul cfg.dampingFp b cfg.scale = some e ∧ e.toNat = G.flow x i j := by
  have hs := hm.scale_eq
  have hr' : r.toNat ≤ cfg.scale.toNat := by
    rw [hr, ← hs]
    exact G.ratio_le i hj
  obtain ⟨a, ha, ea⟩ := fpMul_isSome (a := c) hm.scale_ne hr'
  have hd' : d.toNat ≤ cfg.scale.toNat := by
    rw [hd, ← hs]
    exact G.decay_le i
  obtain ⟨b, hb, eb⟩ := fpMul_isSome (a := a) hm.scale_ne hd'
  have hac : a.toNat ≤ c.toNat := by
    rw [ea]
    apply Nat.div_le_of_le_mul
    rw [Nat.mul_comm cfg.scale.toNat]
    exact Nat.mul_le_mul_left _ hr'
  have hba : b.toNat ≤ a.toNat := by
    rw [eb]
    apply Nat.div_le_of_le_mul
    rw [Nat.mul_comm cfg.scale.toNat]
    exact Nat.mul_le_mul_left _ hd'
  obtain ⟨e, he, ee⟩ := fpMul_isSome (a := cfg.dampingFp) (b := b) hm.scale_ne (by omega)
  refine ⟨a, b, e, ha, hb, he, ?_⟩
  rw [ee, eb, ea, hc, hr, hd, Standing.flow, hs, hm.damping_eq]

variable {x : K → ℕ} {current : BTreeMap K U256} (hcur : Represents current G.nodes x)
  (hx : ∀ k ∈ G.nodes, x k ≤ G.scale)
include hcur hx

theorem pushEdge_spec (hi : i ∈ G.nodes)
    (hy : Represents newScores G.nodes y) {entry : K × U256} (hj : entry.1 ∈ G.nodes)
    (hr : entry.2.toNat = G.ratio i entry.1) (hlt : y entry.1 + G.flow x i entry.1 < 2 ^ 256) :
    ∃ r, pushEdge cfg current i (sourceDecay decays cfg.scale i) newScores entry = some r ∧
      Represents r G.nodes (Function.update y entry.1 (y entry.1 + G.flow x i entry.1)) := by
  obtain ⟨c, hc, ec⟩ := hcur.get hi
  obtain ⟨a, b, e, ha, hb, he, ee⟩ := contribution_eq hm ec (hx i hi) hr hj (hm.decay_eq i).symm
  obtain ⟨s, hs, es⟩ := hy.get hj
  obtain ⟨t, ht, et⟩ := Checked.add_isSome (a := s) (b := e) (by rw [es, ee]; exact hlt)
  refine ⟨newScores.insert entry.1 t, ?_, ?_⟩
  · simp only [pushEdge, hc, ha, hb, he, hs, ht, bind_eq_bind, bind_some]
  · rw [← es, ← ee, ← et]
    exact hy.insert hj

theorem foldlM_pushEdge (hi : i ∈ G.nodes) (row : List (K × U256))
    (hnd : (row.map Prod.fst).Nodup) (hrow : ∀ e ∈ row, e.1 ∈ G.nodes ∧ e.2.toNat = G.ratio i e.1)
      (hy : Represents newScores G.nodes y) (hlt : ∀ k ∈ row.map Prod.fst, y k + G.flow x i k < 2 ^ 256) :
    ∃ r, row.foldlM (pushEdge cfg current i (sourceDecay decays cfg.scale i)) newScores = some r ∧
      Represents r G.nodes fun k => y k + if k ∈ row.map Prod.fst then G.flow x i k else 0 := by
  induction row generalizing y newScores with
  | nil => exact ⟨newScores, rfl, by simpa using hy⟩
  | cons entry row ih =>
    obtain ⟨hnotin, hnd⟩ := nodup_cons.mp hnd
    obtain ⟨hj, hr⟩ := hrow entry (List.mem_cons_self ..)
    have hlt0 := hlt entry.1 (by simp)
    obtain ⟨m, hstep, hm'⟩ := pushEdge_spec hm hcur hx hi hy hj hr hlt0
    have hlt' : ∀ k ∈ row.map Prod.fst,
        Function.update y entry.1 (y entry.1 + G.flow x i entry.1) k + G.flow x i k < 2 ^ 256 := by
      intro k hk
      have hne : k ≠ entry.1 := by
        rintro rfl
        exact hnotin hk
      rw [Function.update_of_ne hne]
      exact hlt k (List.mem_cons_of_mem _ hk)
    obtain ⟨r, hfold, hr'⟩ := ih hnd (fun e he => hrow e (List.mem_cons_of_mem _ he)) hm' hlt'
    refine ⟨r, by rw [foldlM_cons, hstep]; exact hfold, hr'.congr fun k _ => ?_⟩
    by_cases hk : k = entry.1
    · subst hk
      simp [hnotin]
    · simp [hk]

theorem pushRow_spec (hi : i ∈ G.nodes) (hrow : RowSpec G i ((ratios[i]?).getD []))
    (hy : Represents newScores G.nodes y) (hlt : ∀ k ∈ G.nodes, y k + G.flow x i k < 2 ^ 256) :
    ∃ r, pushRow cfg decays ratios current newScores i = some r ∧
      Represents r G.nodes fun k => y k + G.flow x i k := by
  have hflow : ∀ row : List (K × U256), RowSpec G i row → ∀ k,
      (if k ∈ row.map Prod.fst then G.flow x i k else 0) = G.flow x i k := by
    intro row hrow k
    split
    · rfl
    · simp [Standing.flow, hrow.absent k ‹_›]
  unfold pushRow
  cases hri : ratios[i]? with
  | none =>
    rw [hri, getD_none] at hrow
    exact ⟨newScores, rfl, hy.congr fun k _ => by simp [← hflow [] hrow k]⟩
  | some row =>
    rw [hri, getD_some] at hrow
    obtain ⟨r, hr, hrep⟩ := foldlM_pushEdge hm hcur hx hi row hrow.nodup hrow.mem hy fun k hk => by
      obtain ⟨e, he, rfl⟩ := List.mem_map.mp hk
      exact hlt _ (hrow.mem e he).1
    exact ⟨r, hr, hrep.congr fun k _ => by rw [hflow row hrow k]⟩

theorem foldlM_pushRow (l : List K)
    (hl : ∀ i ∈ l, i ∈ G.nodes) (hrows : ∀ i ∈ l, RowSpec G i ((ratios[i]?).getD []))
      (hy : Represents newScores G.nodes y)
    (hlt : ∀ k ∈ G.nodes, y k + (l.map fun i => G.flow x i k).sum < 2 ^ 256) :
    ∃ r, l.foldlM (pushRow cfg decays ratios current) newScores = some r ∧
      Represents r G.nodes fun k => y k + (l.map fun i => G.flow x i k).sum := by
  induction l generalizing y newScores with
  | nil => exact ⟨newScores, rfl, by simpa using hy⟩
  | cons i l ih =>
    simp only [List.map_cons, List.sum_cons] at hlt ⊢
    obtain ⟨m, hstep, hm'⟩ := pushRow_spec hm hcur hx (hl i (List.mem_cons_self ..))
      (hrows i (List.mem_cons_self ..)) hy fun k hk => by have := hlt k hk; omega
    obtain ⟨r, hfold, hr⟩ := ih (fun a ha => hl a (List.mem_cons_of_mem _ ha))
      (fun a ha => hrows a (List.mem_cons_of_mem _ ha)) hm' fun k hk => by
        have := hlt k hk
        omega
    refine ⟨r, by rw [foldlM_cons, hstep]; exact hfold, hr.congr fun k _ => ?_⟩
    omega

omit hcur hx in
theorem Models.sum_flow (k : K) : (nodes.map fun i => G.flow x i k).sum = ∑ i ∈ G.nodes, G.flow x i k := by
  rw [hm.nodes_eq, sum_toFinset _ hm.nodup]

theorem pushScores_spec (htot : G.total x ≤ G.scale)
    (hrows : ∀ i ∈ nodes, RowSpec G i ((ratios[i]?).getD [])) {teleport : BTreeMap K U256}
    (ht : Represents teleport G.nodes G.teleport) :
    ∃ r, pushScores nodes cfg decays ratios teleport current = some r ∧ Represents r G.nodes (G.step x) := by
  have hstep : ∀ k, G.teleport k + (nodes.map fun i => G.flow x i k).sum = G.step x k := fun k => by
    rw [hm.sum_flow, Standing.step]
  obtain ⟨r, hr, hrep⟩ := foldlM_pushRow hm hcur hx nodes (fun i hi => hm.mem_nodes.mp hi) hrows ht
    fun k hk => by
      rw [hstep]
      exact lt_of_le_of_lt ((G.le_total hk).trans (G.total_step_le x htot)) hm.scale_lt
  exact ⟨r, hr, hrep.congr fun k _ => hstep k⟩

end Push

theorem toNat_scoreDelta (a b : U256) : (scoreDelta a b).toNat = Standing.absDiff a.toNat b.toNat := by
  unfold scoreDelta Standing.absDiff
  by_cases h : b < a
  · have h' := lt_def.mp h
    rw [if_pos h, if_pos h', toNat_sub_of_le (le_def.mpr h'.le)]
  · have h' : ¬ b.toNat < a.toNat := fun hlt => h (lt_def.mpr hlt)
    rw [if_neg h, if_neg h', toNat_sub_of_le (le_def.mpr (not_lt.mp h'))]

section Loop

variable {G : Standing K} {nodes : List K} {cfg : RankConfig K} {decays : Option (BTreeMap K U256)}
  (hm : Models G nodes cfg decays)
include hm

theorem Models.any_not_contains {k : K} (hk : k ∈ G.nodes) :
    (decays.any fun reachable => !reachable.contains k) = true ↔ k ∉ G.live := by
  rw [hm.live_eq]
  exact Pagerank.any_not_contains (hm.mem_nodes.mpr hk)

theorem foldlM_deltaStep {x y : K → ℕ} {newScores current : BTreeMap K U256}
    (hy : Represents newScores G.nodes y) (hx : Represents current G.nodes x) (l : List K)
    (hl : ∀ k ∈ l, k ∈ G.nodes) (acc : U256) :
    ∃ v, l.foldlM (deltaStep decays newScores current) acc = some v ∧ v.toNat = max acc.toNat
        ((l.toFinset ∩ G.live).sup fun k => Standing.absDiff (y k) (x k)) := by
  induction l generalizing acc with
  | nil => exact ⟨acc, rfl, by simp⟩
  | cons k l ih =>
    have hk := hl k (List.mem_cons_self ..)
    have ih := ih fun a ha => hl a (List.mem_cons_of_mem _ ha)
    rw [foldlM_cons, toFinset_cons]
    by_cases hlive : k ∈ G.live
    · obtain ⟨a, ha, ea⟩ := hy.get hk
      obtain ⟨b, hb, eb⟩ := hx.get hk
      have hany : ¬ (decays.any fun reachable => !reachable.contains k) = true :=
        fun h => (hm.any_not_contains hk).mp h hlive
      obtain ⟨v, hv, ev⟩ := ih (if acc < scoreDelta a b then scoreDelta a b else acc)
      refine ⟨v, ?_, ?_⟩
      · simp only [deltaStep, hany, Bool.false_eq_true, if_false, ha, hb, bind_eq_bind, bind_some]
        exact hv
      · rw [ev, insert_inter_of_mem hlive, sup_insert, ← ea, ← eb, ← toNat_scoreDelta]
        by_cases hlt : acc < scoreDelta a b
        · have := lt_def.mp hlt
          rw [if_pos hlt]
          omega
        · have : ¬ acc.toNat < (scoreDelta a b).toNat := fun h => hlt (lt_def.mpr h)
          rw [if_neg hlt]
          omega
    · have hany := (hm.any_not_contains hk).mpr hlive
      obtain ⟨v, hv, ev⟩ := ih acc
      refine ⟨v, ?_, ?_⟩
      · simp only [deltaStep, hany, if_true]
        exact hv
      · rw [ev, insert_inter_of_notMem hlive]

theorem maxDelta_spec {x y : K → ℕ} {newScores current : BTreeMap K U256}
    (hy : Represents newScores G.nodes y) (hx : Represents current G.nodes x) :
    ∃ v, maxDelta nodes decays newScores current = some v ∧ v.toNat = G.maxDelta y x := by
  obtain ⟨v, hv, ev⟩ := foldlM_deltaStep hm hy hx nodes (fun k hk => hm.mem_nodes.mp hk) 0
  refine ⟨v, hv, ?_⟩
  have hlive : nodes.toFinset ∩ G.live = G.live := by
    rw [← hm.nodes_eq]
    exact inter_eq_right.mpr G.live_subset
  rw [ev, hlive, Standing.maxDelta]
  exact Nat.zero_max _

theorem iterate_spec {ratios : BTreeMap K (List (K × U256))}
    (hrows : ∀ i ∈ nodes, RowSpec G i ((ratios[i]?).getD [])) {teleport : BTreeMap K U256}
    (ht : Represents teleport G.nodes G.teleport) (remaining iterations : Nat) {x : K → ℕ}
    {current : BTreeMap K U256} (hcur : Represents current G.nodes x) (htot : G.total x ≤ G.scale) :
    ∃ r, iterate nodes cfg decays ratios teleport remaining iterations current =
        some (r, iterations + (G.run cfg.toleranceFp.toNat remaining x).2.1,
          (G.run cfg.toleranceFp.toNat remaining x).2.2) ∧
      Represents r G.nodes (G.run cfg.toleranceFp.toNat remaining x).1 := by
  induction remaining generalizing iterations x current with
  | zero => exact ⟨current, rfl, hcur⟩
  | succ n ih =>
    have hxle : ∀ k ∈ G.nodes, x k ≤ G.scale := fun k hk => (G.le_total hk).trans htot
    have htot' := G.total_step_le x htot
    obtain ⟨new, hnew, hnrep⟩ := pushScores_spec hm hcur hxle htot hrows ht
    obtain ⟨tot, hsum, etot⟩ := hnrep.sum_eq_some (lt_of_le_of_lt htot' hm.scale_lt)
    have hle : ¬ cfg.scale < tot := by
      rw [lt_def, etot, ← hm.scale_eq]
      exact not_lt.mpr htot'
    obtain ⟨delta, hdelta, edelta⟩ := maxDelta_spec hm hnrep hcur
    have hstop : delta < cfg.toleranceFp ↔ G.maxDelta (G.step x) x < cfg.toleranceFp.toNat := by
      rw [lt_def, edelta]
    simp only [iterate, Standing.run, hnew, hsum, bind_eq_bind, bind_some,
      if_neg hle, hdelta, hstop]
    by_cases hs : G.maxDelta (G.step x) x < cfg.toleranceFp.toNat
    · simp only [if_pos hs]
      exact ⟨new, rfl, hnrep⟩
    · simp only [if_neg hs]
      obtain ⟨r, hr, hrep⟩ := ih (iterations + 1) hnrep htot'
      exact ⟨r, by rw [hr, Nat.add_assoc, Nat.add_comm 1], hrep⟩

end Loop

end Trustgraphs.Pagerank
