import Trustgraphs.PagerankCore.Proofs.PagerankProofs

/-!
# Normalization and the whole kernel

On a closed graph with bounded parameters the kernel does not panic, and its result is the
normalized run of the standing of its input (`calculateGenericDetailed_spec`).
-/

namespace Trustgraphs.Pagerank

open Option BTreeMap List

variable {K : Type} [LinearOrder K]

section Normalize

variable {G : Standing K} {nodes : List K} {cfg : RankConfig K} {decays : Option (BTreeMap K U256)}
  (hm : Models G nodes cfg decays) {scores : BTreeMap K U256} {x : K → ℕ}
include hm

theorem scaleScores_spec (hs : Represents scores G.nodes x) {total : U256} (ht : total.toNat = G.total x) :
    ∃ r, scaleScores scores total cfg.scale = some r ∧ Represents r G.nodes (G.scaled x) := by
  unfold scaleScores
  by_cases h0 : total = 0
  · have hz : G.total x = 0 := by rw [← ht, h0]; rfl
    refine ⟨scores, by rw [if_pos h0], hs.congr fun k _ => ?_⟩
    rw [Standing.scaled, if_pos hz]
  · have hz : G.total x ≠ 0 := by
      rw [← ht]
      exact (U256.toNat_pos.mpr h0).ne'
    have hkeys : ∀ k, k ∈ scores.keys ↔ k ∈ G.nodes := fun k => by rw [Std.ExtTreeMap.mem_keys, hs.mem]
    rw [if_neg h0]
    refine Represents.tabulateM hkeys fun k hk => ?_
    obtain ⟨s, hsk, es⟩ := hs.get hk
    obtain ⟨q, hq, eq⟩ := fpDiv_isSome (a := s) (s := cfg.scale) h0 (by
      rw [es, ht]
      exact G.le_total hk)
    refine ⟨q, by simp only [hsk, bind_eq_bind, bind_some, hq], ?_⟩
    rw [eq, es, ht, Standing.scaled, if_neg hz, hm.scale_eq]

omit hm in
theorem find?_positive (hs : Represents scores G.nodes (G.scaled x)) :
    (scores.toList.find? fun entry => entry.2 != 0).map Prod.fst =
      if h : (G.positive x).Nonempty then some ((G.positive x).min' h) else none := by
  have hval : ∀ (k : K) (v : U256), scores[k]? = some v → (v ≠ 0 ↔ G.scaled x k ≠ 0) := by
    intro k v hk
    rw [← hs.val k v hk, ← U256.toNat_pos, Nat.pos_iff_ne_zero]
  split
  · rename_i h
    have hmin := (G.positive x).min'_mem h
    obtain ⟨hmem, hne⟩ := Finset.mem_filter.mp hmin
    obtain ⟨v, hv, -⟩ := hs.get hmem
    have hfind : scores.toList.find? (fun entry => entry.2 != 0) = some ((G.positive x).min' h, v) := by
      refine BTreeMap.find?_toList_eq_some.mpr ⟨hv, by simpa using (hval _ _ hv).mpr hne, ?_⟩
      intro a w ha hw
      have haN := (hs.mem a).mp (mem_iff_getElem?.mpr ⟨w, ha⟩)
      have hpos : G.scaled x a ≠ 0 := (hval _ _ ha).mp (by simpa using hw)
      exact (G.positive x).min'_le a (Finset.mem_filter.mpr ⟨haN, hpos⟩)
    rw [hfind]
    rfl
  · rename_i h
    have hnone : scores.toList.find? (fun entry => entry.2 != 0) = none := by
      refine BTreeMap.find?_toList_eq_none.mpr fun k v hk hv => h ⟨k, ?_⟩
      refine Finset.mem_filter.mpr ⟨?_, (hval _ _ hk).mp (by simpa using hv)⟩
      exact (hs.mem k).mp (mem_iff_getElem?.mpr ⟨v, hk⟩)
    rw [hnone]
    rfl

omit hm in
theorem head?_keys {y : K → ℕ} (hs : Represents scores G.nodes y) :
    scores.keys.head? = if h : G.nodes.Nonempty then some (G.nodes.min' h) else none := by
  have hfind : scores.keys.head? = scores.keys.find? fun _ => true := by cases scores.keys <;> simp
  rw [hfind]
  split
  · rename_i h
    refine BTreeMap.find?_keys_eq_some.mpr ⟨(hs.mem _).mpr (G.nodes.min'_mem h), rfl, ?_⟩
    intro a ha _
    exact Finset.min'_le _ _ ((hs.mem a).mp ha)
  · rename_i h
    rw [find?_eq_none]
    intro k hk
    exact absurd ⟨k, (hs.mem k).mp (by simpa using hk)⟩ h

theorem dustRecipient_eq (hs : Represents scores G.nodes (G.scaled x)) :
    dustRecipient scores decays = G.recipient x := by
  unfold dustRecipient Standing.recipient
  rw [find?_positive hs, head?_keys hs]
  split
  · rfl
  · rw [none_or]
    cases hd : decays with
    | none =>
      have hlive : G.live = G.nodes := by rw [hm.live_eq, hm.nodes_eq, hd]; rfl
      simp only [hlive, bind_none, none_or]
      split
      · rfl
      · rfl
    | some reachable =>
      have hlive : G.live = BTreeMap.dom reachable := by rw [hm.live_eq, hd]; rfl
      rw [bind_some]
      by_cases h : G.live.Nonempty
      · have hfind : (reachable.keys.find? fun node => scores.contains node) = some (G.live.min' h) := by
          refine BTreeMap.find?_keys_eq_some.mpr ⟨?_, ?_, ?_⟩
          · exact mem_dom.mp (hlive ▸ G.live.min'_mem h)
          · exact (hs.mem _).mpr (G.live_subset (G.live.min'_mem h))
          · intro a ha _
            exact Finset.min'_le _ _ (hlive ▸ mem_dom.mpr ha)
        rw [hfind, dif_pos h]
        rfl
      · have hfind : (reachable.keys.find? fun node => scores.contains node) = none := by
          rw [find?_eq_none]
          intro k hk
          exact absurd ⟨k, hlive ▸ mem_dom.mpr (by simpa using hk)⟩ h
        rw [hfind, none_or, dif_neg h]

theorem normalize_spec (hs : Represents scores G.nodes x) (htot : G.total x ≤ G.scale)
    (hne : G.nodes.Nonempty) :
    ∃ r, normalize scores cfg.scale decays = some r ∧ Represents r G.nodes (G.normalize x) := by
  obtain ⟨total, ht, et⟩ := hs.sum_eq_some (lt_of_le_of_lt htot hm.scale_lt)
  obtain ⟨scaled, hsc, hrep⟩ := scaleScores_spec hm hs et
  have hle := G.total_scaled_le x
  obtain ⟨norm, hnorm, enorm⟩ := hrep.sum_eq_some (lt_of_le_of_lt hle hm.scale_lt)
  have enorm' : norm.toNat = G.total (G.scaled x) := enorm
  obtain ⟨rem, hrem, erem⟩ := Checked.sub_isSome (a := cfg.scale) (b := norm) (by
    rw [enorm', ← hm.scale_eq]
    exact hle)
  rw [enorm', ← hm.scale_eq] at erem
  obtain ⟨k, hk⟩ := G.recipient_isSome x hne
  have hkn := G.recipient_mem hk
  obtain ⟨s, hsk, es⟩ := hrep.get hkn
  have hfit : s.toNat + rem.toNat < 2 ^ 256 := by
    have := G.le_total (x := G.scaled x) hkn
    have := hm.scale_lt
    omega
  obtain ⟨sum, hsum, esum⟩ := Checked.add_isSome hfit
  have hemp : ¬ scaled.isEmpty = true := fun he => hne.ne_empty (hrep.isEmpty_iff.mp he)
  unfold normalize
  simp only [ht, hsc, hemp, hnorm, hrem, bind_eq_bind, bind_some, Bool.false_eq_true, if_false]
  by_cases h0 : rem = 0
  · have hz : G.scale - G.total (G.scaled x) = 0 := by rw [← erem, h0]; rfl
    refine ⟨scaled, by rw [if_pos h0], hrep.congr fun a _ => ?_⟩
    rw [Standing.normalize, hz, ite_self, Nat.add_zero]
  · refine ⟨scaled.insert k sum, ?_, (hrep.insert hkn).congr fun a _ => ?_⟩
    · simp only [if_neg h0, dustRecipient_eq hm hrep, hk, hsk, hsum, bind_some]
    · rw [Standing.normalize, hk]
      by_cases ha : a = k
      · rw [ha, Function.update_self, if_pos rfl, esum, es, erem]
      · have hne' : some k ≠ some a := fun e => ha (some_inj.mp e).symm
        rw [Function.update_of_ne ha, if_neg hne', Nat.add_zero]

end Normalize

variable {nodes : List K} {outgoing : Outgoing K} {cfg : RankConfig K}
  {decays : Option (BTreeMap K U256)}

theorem assertEdgeClosure_iff : assertEdgeClosure nodes outgoing = true ↔ Closed nodes outgoing := by
  have hset : ∀ k, (BTreeSet.ofList nodes).contains k = true ↔ k ∈ nodes := fun k => BTreeSet.mem_ofList
  simp only [assertEdgeClosure, List.all_eq_true, Bool.and_eq_true, hset, Prod.forall]
  constructor
  · intro h
    refine ⟨fun i hi => ?_, fun i edges hi j hj => ?_⟩
    · obtain ⟨edges, he⟩ := mem_iff_getElem?.mp hi
      exact (h i edges (mem_toList.mpr he)).1
    · exact (h i edges (mem_toList.mpr hi)).2 j (Std.ExtTreeMap.mem_keys.mpr hj)
  · intro h i edges hi
    have hi' := mem_toList.mp hi
    exact ⟨h.source i (mem_iff_getElem?.mpr ⟨edges, hi'⟩),
      fun j hj => h.target i edges hi' j (Std.ExtTreeMap.mem_keys.mp hj)⟩

theorem mem_rankNodes {seeds : BTreeSet K} {k : K} : k ∈ rankNodes nodes seeds ↔ k ∈ nodes ∨ k ∈ seeds := by
  simp [rankNodes]

theorem rankNodes_nodup (nodes : List K) (seeds : BTreeSet K) : (rankNodes nodes seeds).Nodup :=
  BTreeSet.toList_nodup _

/-- What the kernel asks of its caller: a closed graph, row sums that fit and bounded parameters. -/
structure Ready (nodes : List K) (outgoing : Outgoing K) (cfg : RankConfig K) : Prop where
  closed : Closed (rankNodes nodes cfg.seeds) outgoing
  rowSum_lt : ∀ i, rowSum outgoing i < 2 ^ 256
  bounded : Bounded cfg

namespace Ready

variable {nodes : List K} {outgoing : Outgoing K} {cfg : RankConfig K}
  (h : Ready nodes outgoing cfg)
include h

theorem admissible : ∃ decays, trustDecays outgoing cfg = some decays ∧
    Admissible (rankNodes nodes cfg.seeds) outgoing cfg decays := by
  have hs := h.bounded.scale_pos
  have hb := h.bounded.decay_le
  unfold trustDecays
  by_cases hemp : cfg.seeds.isEmpty = true
  · rw [if_pos hemp]
    refine ⟨none, rfl, rankNodes_nodup .., h.closed, h.rowSum_lt, h.bounded, ?_⟩
    exact ⟨fun _ => hemp, by simp, by simp, by simp, by simp⟩
  · obtain ⟨d, hd⟩ := bfsDecays_isSome outgoing cfg.seeds hs hb
    rw [if_neg hemp, hd]
    refine ⟨some d, rfl, rankNodes_nodup .., h.closed, h.rowSum_lt, h.bounded, ?_⟩
    have hseeds : ∀ k ∈ cfg.seeds, k ∈ rankNodes nodes cfg.seeds := fun k hk => mem_rankNodes.mpr (.inr hk)
    exact decaysFit hs hb hd (by simpa using hemp) h.closed hseeds rfl rfl

end Ready

theorem teleportScores_spec (h : Admissible nodes outgoing cfg decays)
    {initial : BTreeMap K U256} (hinit : Represents initial h.standing.nodes h.standing.init) :
    ∃ teleport, teleportScores nodes cfg initial = some teleport ∧
      Represents teleport h.standing.nodes h.standing.teleport := by
  have hm := h.models
  refine Represents.tabulateM (fun k => hm.mem_nodes) fun k hk => ?_
  obtain ⟨v, hv, ev⟩ := hinit.get hk
  have hle : v.toNat ≤ cfg.scale.toNat := by
    rw [ev]
    exact (h.standing.le_total hk).trans h.standing.total_init_le
  obtain ⟨q, hq, eq⟩ := fpMul_isSome (a := cfg.scale - cfg.dampingFp) hm.scale_ne hle
  refine ⟨q, by simp only [hv, bind_eq_bind, bind_some, hq], ?_⟩
  rw [eq, ev, BitVec.toNat_sub_of_le (BitVec.le_def.mpr h.bounded.damping_le)]
  rfl

theorem calculateGenericDetailed_spec (hdec : trustDecays outgoing cfg = some decays)
    (h : Admissible (rankNodes nodes cfg.seeds) outgoing cfg decays) (hne : rankNodes nodes cfg.seeds ≠ []) :
    ∃ r, calculateGenericDetailed nodes outgoing cfg = some r ∧
      Represents r.scores h.standing.nodes (h.standing.normalize
        (h.standing.run cfg.toleranceFp.toNat cfg.maxIterations.toNat h.standing.init).1) ∧
      r.iterations = (h.standing.run cfg.toleranceFp.toNat cfg.maxIterations.toNat h.standing.init).2.1 ∧
      r.converged = (h.standing.run cfg.toleranceFp.toNat cfg.maxIterations.toNat h.standing.init).2.2 := by
  have hm := h.models
  have hclosed := assertEdgeClosure_iff.mpr h.closed
  have hlen : (rankNodes nodes cfg.seeds).length ≠ 0 := by simpa using hne
  have hnodes : h.standing.nodes.Nonempty := by
    obtain ⟨k, hk⟩ := exists_mem_of_ne_nil _ hne
    exact ⟨k, List.mem_toFinset.mpr hk⟩
  obtain ⟨initial, hinit, hirep⟩ := initializeScores_represents h hne
  unfold calculateGenericDetailed
  simp only [hclosed, Bool.not_true, Bool.false_eq_true, if_false, hlen, hdec, hinit, bind_eq_bind, bind_some]
  by_cases hit : cfg.maxIterations = 0
  · have hit' : cfg.maxIterations.toNat = 0 := by rw [hit]; rfl
    obtain ⟨r, hr, hrep⟩ := normalize_spec hm hirep h.standing.total_init_le hnodes
    rw [if_pos hit, hit', hr]
    exact ⟨_, rfl, hrep, rfl, rfl⟩
  · obtain ⟨ratios, hratios, hrows⟩ := hoistRatios_spec h
    obtain ⟨teleport, hteleport, htrep⟩ := teleportScores_spec h hirep
    obtain ⟨current, hcurrent, hcrep⟩ := iterate_spec hm hrows htrep cfg.maxIterations.toNat 0 hirep
      h.standing.total_init_le
    obtain ⟨r, hr, hrep⟩ := normalize_spec hm hcrep
      (h.standing.total_run_le _ _ _ h.standing.total_init_le) hnodes
    rw [Nat.zero_add] at hcurrent
    simp only [if_neg hit, hratios, hteleport, hcurrent, hr, bind_some]
    exact ⟨_, rfl, hrep, rfl, rfl⟩

theorem calculateGenericDetailed_total (h : Ready nodes outgoing cfg) (hne : rankNodes nodes cfg.seeds ≠ []) :
    ∃ r, calculateGenericDetailed nodes outgoing cfg = some r ∧
      (r.scores.toList.map fun e => e.2.toNat).sum = cfg.scale.toNat := by
  obtain ⟨decays, hdec, hadm⟩ := h.admissible
  obtain ⟨r, hr, hrep, -, -⟩ := calculateGenericDetailed_spec hdec hadm hne
  have hnodes : hadm.standing.nodes.Nonempty := by
    obtain ⟨k, hk⟩ := exists_mem_of_ne_nil _ hne
    exact ⟨k, List.mem_toFinset.mpr hk⟩
  have htotal := hadm.standing.total_normalize
    (hadm.standing.run cfg.toleranceFp.toNat cfg.maxIterations.toNat hadm.standing.init).1 hnodes
  have hsum := hrep.sum_toNat
  rw [List.map_map] at hsum
  exact ⟨r, hr, hsum.trans htotal⟩

/-- The scores after `n` rounds of the loop, without its convergence test. -/
def rounds (nodes : List K) (cfg : RankConfig K) (decays : Option (BTreeMap K U256))
    (ratios : BTreeMap K (List (K × U256))) (teleport : BTreeMap K U256) :
    Nat → BTreeMap K U256 → Option (BTreeMap K U256)
  | 0, current => some current
  | n + 1, current => do
    rounds nodes cfg decays ratios teleport n (← pushScores nodes cfg decays ratios teleport current)

def scoresAfter (nodes : List K) (outgoing : Outgoing K) (cfg : RankConfig K) (n : Nat) :
    Option (BTreeMap K U256) := do
  let nodes := rankNodes nodes cfg.seeds
  let decays ← trustDecays outgoing cfg
  let initial ← initializeScores nodes cfg decays
  let ratios ← hoistRatios nodes outgoing cfg.scale decays
  let teleport ← teleportScores nodes cfg initial
  rounds nodes cfg decays ratios teleport n initial

theorem rounds_spec {G : Standing K} (hm : Models G nodes cfg decays) {ratios : BTreeMap K (List (K × U256))}
    (hrows : ∀ i ∈ nodes, RowSpec G i ((ratios[i]?).getD [])) {teleport : BTreeMap K U256}
    (ht : Represents teleport G.nodes G.teleport) (n : Nat) {x : K → ℕ} {current : BTreeMap K U256}
    (hcur : Represents current G.nodes x) (htot : G.total x ≤ G.scale) :
    ∃ r y, rounds nodes cfg decays ratios teleport n current = some r ∧ Represents r G.nodes y ∧
      G.total y ≤ G.scale := by
  induction n generalizing x current with
  | zero => exact ⟨current, x, rfl, hcur, htot⟩
  | succ n ih =>
    have hx : ∀ k ∈ G.nodes, x k ≤ G.scale := fun k hk => (G.le_total hk).trans htot
    obtain ⟨m, hstep, hrep⟩ := pushScores_spec hm hcur hx htot hrows ht
    obtain ⟨r, y, hr, hy, hle⟩ := ih hrep (G.total_step_le x htot)
    exact ⟨r, y, by rw [rounds, hstep]; exact hr, hy, hle⟩

theorem scoresAfter_le (h : Ready nodes outgoing cfg) (hne : rankNodes nodes cfg.seeds ≠ []) (n : Nat) :
    ∃ r, scoresAfter nodes outgoing cfg n = some r ∧
      (r.toList.map fun e => e.2.toNat).sum ≤ cfg.scale.toNat := by
  obtain ⟨decays, hdec, hadm⟩ := h.admissible
  have hm := hadm.models
  obtain ⟨initial, hinit, hirep⟩ := initializeScores_represents hadm hne
  obtain ⟨ratios, hratios, hrows⟩ := hoistRatios_spec hadm
  obtain ⟨teleport, hteleport, htrep⟩ := teleportScores_spec hadm hirep
  obtain ⟨r, y, hr, hrep, hle⟩ := rounds_spec hm hrows htrep n hirep hadm.standing.total_init_le
  have hsum := hrep.sum_toNat
  rw [List.map_map] at hsum
  refine ⟨r, ?_, hsum.trans_le hle⟩
  simp only [scoresAfter, hdec, hinit, hratios, hteleport, hr, bind_eq_bind, bind_some]

theorem calculateGenericDetailed_empty (h : Ready nodes outgoing cfg) (he : rankNodes nodes cfg.seeds = []) :
    ∃ r, calculateGenericDetailed nodes outgoing cfg = some r ∧ r.scores = ∅ ∧
      r.iterations = 0 ∧ r.converged = true := by
  have hclosed := assertEdgeClosure_iff.mpr h.closed
  rw [he] at hclosed
  unfold calculateGenericDetailed
  simp only [he, hclosed, Bool.not_true, Bool.false_eq_true, if_false, length_nil, if_true]
  exact ⟨_, rfl, rfl, rfl, rfl⟩

end Trustgraphs.Pagerank

/-!
## Nodes that the seeds do not reach

What an unreachable attester does is invisible to the reachable part of the graph: two graphs that
differ in such rows only have the same decays, so one extends the other as a standing, and the two
runs of the kernel stay in lock-step.
-/

namespace Trustgraphs.Pagerank

open BitVec List

variable {K : Type} [LinearOrder K]

/-- The second graph has the nodes of the first and keeps the rows that the seeds reach in it. The
other rows are free, and so are the nodes that are added. -/
structure ChangesUnreachable (nodes nodes' : List K) (outgoing outgoing' : Outgoing K)
    (seeds : BTreeSet K) : Prop where
  nodes : ∀ k ∈ nodes, k ∈ nodes'
  rows : ∀ k, Reachable outgoing seeds k → outgoing'[k]? = outgoing[k]?

section Rows

variable {outgoing outgoing' : Outgoing K} {i : K} (h : outgoing'[i]? = outgoing[i]?)
include h

theorem weight_congr (j : K) : weight outgoing' i j = weight outgoing i j := by simp only [weight, h]

theorem rowSum_congr : rowSum outgoing' i = rowSum outgoing i := by
  unfold rowSum
  rw [h]
  cases outgoing[i]? with
  | none => rfl
  | some edges => exact Finset.sum_congr rfl fun j _ => weight_congr h j

theorem neighbours_congr : neighbours outgoing' i = neighbours outgoing i := by simp only [neighbours, h]

end Rows

section Isolation

variable {nodes nodes' : List K} {outgoing outgoing' : Outgoing K} {cfg : RankConfig K}
  (hr : Ready nodes outgoing cfg) (hr' : Ready nodes' outgoing' cfg)
  (hc : ChangesUnreachable nodes nodes' outgoing outgoing' cfg.seeds)
include hc

theorem reachable_congr {k : K} (h : Reachable outgoing cfg.seeds k) : Reachable outgoing' cfg.seeds k := by
  obtain ⟨a, ha, hak⟩ := h
  induction hak with
  | refl => exact .of_src ha
  | @tail b c hab hbc ih =>
    have hrow := hc.rows b ⟨a, ha, hab⟩
    exact ih.step (by rwa [neighbours_congr hrow])

theorem bfsDecays_congr {d d' : BTreeMap K U256} (hb : Bounded cfg)
    (h : bfsDecays outgoing cfg.seeds cfg.trustDecayFp cfg.scale = some d)
    (h' : bfsDecays outgoing' cfg.seeds cfg.trustDecayFp cfg.scale = some d') : d' = d := by
  rw [bfsDecays_eq hb.scale_pos hb.decay_le] at h h'
  refine Worklist.search_congr (R := Reachable outgoing cfg.seeds) (fun k hk n hn => hk.step hn)
    (fun k hk => neighbours_congr (hc.rows k hk)) _ _ _ _ _ _ (fun k hk => .of_src ?_) h h'
  simpa using hk

theorem standing_extends {d : BTreeMap K U256} (hb : Bounded cfg)
    (hd : bfsDecays outgoing cfg.seeds cfg.trustDecayFp cfg.scale = some d)
    (h : Admissible (rankNodes nodes cfg.seeds) outgoing cfg (some d))
    (h' : Admissible (rankNodes nodes' cfg.seeds) outgoing' cfg (some d)) :
    Standing.Extends h.standing h'.standing where
  nodes k hk := by
    change k ∈ (rankNodes nodes' cfg.seeds).toFinset
    replace hk : k ∈ (rankNodes nodes cfg.seeds).toFinset := hk
    rw [mem_toFinset, mem_rankNodes] at hk ⊢
    exact hk.imp_left (hc.nodes k)
  live := rfl
  scale := rfl
  damping := rfl
  init k hk := by
    change initialOf (rankNodes nodes' cfg.seeds) cfg (BTreeMap.dom d) k =
      initialOf (rankNodes nodes cfg.seeds) cfg (BTreeMap.dom d) k
    have hne : ¬ cfg.seeds.isEmpty = true := by rw [h.fit.on d rfl]; simp
    simp only [initialOf, hne, Bool.false_eq_true, if_false]
  decay _ _ := rfl
  ratio i hi j := by
    have hreach : Reachable outgoing cfg.seeds i :=
      (mem_bfsDecays hb.scale_pos hb.decay_le hd i).mp (BTreeMap.mem_dom.mp hi)
    have hrow := hc.rows i hreach
    change ratioOf outgoing' cfg (BTreeMap.dom d) i j = ratioOf outgoing cfg (BTreeMap.dom d) i j
    simp only [ratioOf, weight_congr hrow, rowSum_congr hrow]

include hr hr'

theorem isolated_runs (hne : cfg.seeds.isEmpty = false) :
    ∃ r r', calculateGenericDetailed nodes outgoing cfg = some r ∧
      calculateGenericDetailed nodes' outgoing' cfg = some r' ∧
      (∃ x : K → ℕ, Represents r.scores (rankNodes nodes cfg.seeds).toFinset x ∧
        Represents r'.scores (rankNodes nodes' cfg.seeds).toFinset x ∧
        ∀ k, ¬ Reachable outgoing cfg.seeds k → x k = 0) ∧
      r'.iterations = r.iterations ∧ r'.converged = r.converged := by
  have hb := hr.bounded
  have hemp : ¬ cfg.seeds.isEmpty = true := by simp [hne]
  obtain ⟨decays, hdec, h⟩ := hr.admissible
  obtain ⟨decays', hdec', h'⟩ := hr'.admissible
  obtain ⟨d, hd⟩ := bfsDecays_isSome outgoing cfg.seeds hb.scale_pos hb.decay_le
  obtain ⟨d', hd'⟩ := bfsDecays_isSome outgoing' cfg.seeds hb.scale_pos hb.decay_le
  obtain rfl := bfsDecays_congr hc hb hd hd'
  obtain rfl : some d' = decays := by simpa [trustDecays, hne, hd] using hdec
  obtain rfl : some d' = decays' := by simpa [trustDecays, hne, hd'] using hdec'
  have e := standing_extends hc hb hd h h'
  obtain ⟨seed, hseed⟩ : ∃ seed, seed ∈ BTreeSet.dom cfg.seeds := by
    refine Finset.card_pos.mp ?_
    rw [BTreeSet.card_dom]
    exact seeds_size_pos hemp
  rw [BTreeSet.mem_dom] at hseed
  have hlive : h.standing.live.Nonempty := ⟨seed, BTreeMap.mem_dom.mpr (h.fit.seeds d' rfl seed hseed)⟩
  have hne1 : rankNodes nodes cfg.seeds ≠ [] := ne_nil_of_mem (mem_rankNodes.mpr (.inr hseed))
  have hne2 : rankNodes nodes' cfg.seeds ≠ [] := ne_nil_of_mem (mem_rankNodes.mpr (.inr hseed))
  obtain ⟨r, hrun, hrep, hit, hconv⟩ := calculateGenericDetailed_spec hdec h hne1
  obtain ⟨r', hrun', hrep', hit', hconv'⟩ := calculateGenericDetailed_spec hdec' h' hne2
  have hdead := h.standing.dead_run cfg.toleranceFp.toNat cfg.maxIterations.toNat _
    h.standing.dead_init
  rw [e.init_eq, e.run_eq _ _ _ h.standing.dead_init, e.normalize_eq hdead hlive] at hrep'
  rw [e.init_eq, e.run_eq _ _ _ h.standing.dead_init] at hit' hconv'
  refine ⟨r, r', hrun, hrun', ⟨_, hrep, hrep', fun k hk => ?_⟩, hit'.trans hit.symm, hconv'.trans hconv.symm⟩
  refine h.standing.dead_normalize hdead hlive k fun hkl => hk ?_
  exact (mem_bfsDecays hb.scale_pos hb.decay_le hd k).mp (BTreeMap.mem_dom.mp hkl)

end Isolation

theorem Represents.getElem?_eq {m m' : BTreeMap K U256} {N N' : Finset K} {x : K → ℕ}
    (h : Represents m N x) (h' : Represents m' N' x) {k : K} (hk : k ∈ N) (hk' : k ∈ N') :
    m'[k]? = m[k]? := by
  obtain ⟨v, hv, ev⟩ := h.get hk
  obtain ⟨v', hv', ev'⟩ := h'.get hk'
  rw [hv, hv', eq_of_toNat_eq (ev'.trans ev.symm)]

theorem Represents.getElem?_zero {m : BTreeMap K U256} {N : Finset K} {x : K → ℕ}
    (h : Represents m N x) {k : K} (hk : k ∈ N) (hx : x k = 0) : m[k]? = some 0 := by
  obtain ⟨v, hv, ev⟩ := h.get hk
  rw [hv, eq_of_toNat_eq (y := (0 : U256)) (ev.trans hx)]

/-- Sybil isolation: changing the rows of unreachable attesters and adding unreachable nodes changes
no score of the graph, no iteration count and no convergence flag, and what the seeds do not reach
has score zero. -/
theorem calculateGenericDetailed_isolation (nodes nodes' : List K) (outgoing outgoing' : Outgoing K)
    (cfg : RankConfig K) (hseeds : cfg.seeds.isEmpty = false) (hscale : cfg.scale ≠ 0)
    (hdamping : cfg.dampingFp < cfg.scale) (hshare : cfg.trustShareFp ≤ cfg.scale)
    (hdecay : cfg.trustDecayFp ≤ cfg.scale) (hclosed : Closed (rankNodes nodes cfg.seeds) outgoing)
    (hclosed' : Closed (rankNodes nodes' cfg.seeds) outgoing')
    (hsum : ∀ i, rowSum outgoing i < 2 ^ 256) (hsum' : ∀ i, rowSum outgoing' i < 2 ^ 256)
    (hc : ChangesUnreachable nodes nodes' outgoing outgoing' cfg.seeds) :
    ∃ r r', calculateGenericDetailed nodes outgoing cfg = some r ∧
      calculateGenericDetailed nodes' outgoing' cfg = some r' ∧
      (∀ k ∈ rankNodes nodes cfg.seeds, r'.scores[k]? = r.scores[k]?) ∧
      r'.iterations = r.iterations ∧ r'.converged = r.converged ∧
      (∀ k ∈ rankNodes nodes cfg.seeds, ¬ Reachable outgoing cfg.seeds k → r.scores[k]? = some 0) ∧
      (∀ k ∈ rankNodes nodes' cfg.seeds, ¬ Reachable outgoing' cfg.seeds k → r'.scores[k]? = some 0) := by
  have hb : Bounded cfg := ⟨hscale, (lt_def.mp hdamping).le, le_def.mp hshare, le_def.mp hdecay⟩
  obtain ⟨r, r', hrun, hrun', ⟨x, hx, hx', hzero⟩, hit, hconv⟩ :=
    isolated_runs ⟨hclosed, hsum, hb⟩ ⟨hclosed', hsum', hb⟩ hc hseeds
  refine ⟨r, r', hrun, hrun', fun k hk => ?_, hit, hconv, fun k hk hn => ?_, fun k hk hn => ?_⟩
  · have hk' : k ∈ rankNodes nodes' cfg.seeds :=
      mem_rankNodes.mpr ((mem_rankNodes.mp hk).imp_left (hc.nodes k))
    exact Represents.getElem?_eq hx hx' (mem_toFinset.mpr hk) (mem_toFinset.mpr hk')
  · exact Represents.getElem?_zero hx (mem_toFinset.mpr hk) (hzero k hn)
  · refine Represents.getElem?_zero hx' (mem_toFinset.mpr hk) (hzero k fun hreach => hn ?_)
    exact reachable_congr hc hreach

/-- Two graphs over a seed `0` and a node `1` that it reaches: in the second one the unreachable `2`
gets an edge into the reachable part and a new friend `3`. -/
theorem calculateGenericDetailed_isolation_two_graphs :
    let outgoing : Outgoing (Fin 4) := BTreeMap.tabulate [0] fun _ => BTreeMap.tabulate [1] fun _ => 5
    let outgoing' : Outgoing (Fin 4) := outgoing.insert 2 (BTreeMap.tabulate [1, 3] fun _ => 7)
    let cfg : RankConfig (Fin 4) := {
      dampingFp := 850, toleranceFp := 1, maxIterations := 20, trustShareFp := 500,
      trustDecayFp := 800, scale := 1000, seeds := BTreeSet.ofList [0] }
    ∃ r r', calculateGenericDetailed [0, 1, 2] outgoing cfg = some r ∧
      calculateGenericDetailed [0, 1, 2, 3] outgoing' cfg = some r' ∧
      (∀ k ∈ rankNodes [0, 1, 2] cfg.seeds, r'.scores[k]? = r.scores[k]?) ∧
      r'.iterations = r.iterations ∧ r'.converged = r.converged ∧
      (∀ k ∈ rankNodes [0, 1, 2] cfg.seeds, ¬ Reachable outgoing cfg.seeds k → r.scores[k]? = some 0) ∧
      (∀ k ∈ rankNodes [0, 1, 2, 3] cfg.seeds, ¬ Reachable outgoing' cfg.seeds k → r'.scores[k]? = some 0) := by
  intro outgoing outgoing' cfg
  have hdecays : bfsDecays outgoing cfg.seeds cfg.trustDecayFp cfg.scale =
      some ((BTreeMap.tabulate [0] fun _ => 1000).insert 1 800) := by decide
  have hclosed : Closed (rankNodes [0, 1, 2] cfg.seeds) outgoing := assertEdgeClosure_iff.mp (by decide)
  have hclosed' : Closed (rankNodes [0, 1, 2, 3] cfg.seeds) outgoing' :=
    assertEdgeClosure_iff.mp (by decide)
  refine calculateGenericDetailed_isolation [0, 1, 2] [0, 1, 2, 3] outgoing outgoing' cfg
    (by decide) (by decide) (by decide) (by decide) (by decide) hclosed hclosed'
    (by decide) (by decide) ⟨by decide, fun k hk => ?_⟩
  rw [← mem_bfsDecays (by decide) (by decide) hdecays] at hk
  have hrow : ∀ k, k ∈ (BTreeMap.tabulate [0] fun _ => (1000 : U256)).insert (1 : Fin 4) 800 →
      outgoing'[k]? = outgoing[k]? := by decide
  exact hrow k hk

end Trustgraphs.Pagerank
