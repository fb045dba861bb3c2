import Trustgraphs.Lib.Hamilton
import Trustgraphs.PagerankCore.Compute

/-!
# The allocation gives out the whole pool

Over distinct keys with a positive score among them the allocation does not panic, its accounts are
strictly ascending and hold something, and together they hold the pool.
-/

namespace Trustgraphs.Distribute

open List Option

variable {K : Type} [LinearOrder K]

def rowOf (total totalPool : U256) (entry : K × U256) : Row K :=
  (entry.1, BitVec.ofNat 256 (entry.2.toNat * totalPool.toNat / total.toNat),
    entry.2.toNat * totalPool.toNat % total.toNat)

omit [LinearOrder K] in
theorem toNat_rowOf {total totalPool : U256} {entry : K × U256} (h : entry.2.toNat ≤ total.toNat) :
    (rowOf total totalPool entry).2.1.toNat = entry.2.toNat * totalPool.toNat / total.toNat := by
  have hle : entry.2.toNat * totalPool.toNat / total.toNat ≤ totalPool.toNat :=
    Nat.div_le_of_le_mul (Nat.mul_le_mul_right _ h)
  rw [rowOf, BitVec.toNat_ofNat, Nat.mod_eq_of_lt (lt_of_le_of_lt hle totalPool.isLt)]

omit [LinearOrder K] in
theorem foldlM_shareRow (total totalPool : U256) (ht : total ≠ 0) (l : List (K × U256))
    (hl : ∀ e ∈ l, e.2.toNat ≤ total.toNat) (rows : List (Row K)) (floorSum : U256)
    (hlt : floorSum.toNat + (l.map fun e => e.2.toNat * totalPool.toNat / total.toNat).sum < 2 ^ 256) :
    ∃ f : U256, l.foldlM (shareRow total totalPool) (rows, floorSum) =
        some (rows ++ l.map (rowOf total totalPool), f) ∧
      f.toNat = floorSum.toNat + (l.map fun e => e.2.toNat * totalPool.toNat / total.toNat).sum := by
  induction l generalizing rows floorSum with
  | nil => exact ⟨floorSum, by simp, rfl⟩
  | cons e l ih =>
    simp only [map_cons, sum_cons] at hlt ⊢
    have he := hl e (mem_cons_self ..)
    have hval : (rowOf total totalPool e).2.1.toNat = e.2.toNat * totalPool.toNat / total.toNat :=
      toNat_rowOf he
    have hq : ¬ 2 ^ 256 ≤ e.2.toNat * totalPool.toNat / total.toNat := by
      rw [← hval, not_le]
      exact (rowOf total totalPool e).2.1.isLt
    obtain ⟨s, hs, es⟩ := Checked.add_isSome (a := floorSum) (b := (rowOf total totalPool e).2.1)
      (by rw [hval]; omega)
    have hstep : shareRow total totalPool (rows, floorSum) e = some (rows ++ [rowOf total totalPool e], s) := by
      simp only [shareRow, if_neg ht, if_neg hq]
      rw [rowOf] at hs
      rw [hs]
      rfl
    rw [hval] at es
    obtain ⟨f, hf, ef⟩ := ih (fun a ha => hl a (mem_cons_of_mem _ ha))
      (rows ++ [rowOf total totalPool e]) s (by omega)
    refine ⟨f, ?_, by omega⟩
    rw [foldlM_cons, hstep]
    simpa using hf

def bumped (row : Row K) : Row K := (row.1, row.2.1 + 1, row.2.2)

omit [LinearOrder K] in
theorem toNat_bumped {row : Row K} (hfits : row.2.1.toNat + 1 < 2 ^ 256) :
    (bumped row).2.1.toNat = row.2.1.toNat + 1 := by
  have hone : (1 : U256).toNat = 1 := rfl
  rw [bumped, BitVec.toNat_add, hone, Nat.mod_eq_of_lt hfits]

omit [LinearOrder K] in
theorem bump_eq {rows : List (Row K)} {i : ℕ} (hi : i < rows.length)
    (hfits : rows[i].2.1.toNat + 1 < 2 ^ 256) : bump rows i = some (rows.set i (bumped rows[i])) := by
  obtain ⟨value, hadd, hvalue⟩ := Checked.add_isSome (a := rows[i].2.1) (b := 1) hfits
  have hsum : value = rows[i].2.1 + 1 := BitVec.eq_of_toNat_eq (hvalue.trans (toNat_bumped hfits).symm)
  rw [bump, getElem?_eq_getElem hi, bind_eq_bind, bind_some, hadd, hsum]
  rfl

/-- The order of service, on rows with their positions. -/
def servedBefore (a b : Row K × ℕ) : Bool := b.1.2.2 < a.1.2.2 || (b.1.2.2 == a.1.2.2 && a.1.1 ≤ b.1.1)

theorem servedBefore_iff {a b : Row K × ℕ} :
    servedBefore a b = true ↔ Hamilton.NotAfter (a.1.2.2, a.1.1) (b.1.2.2, b.1.1) := by
  simp only [Hamilton.NotAfter, servedBefore, Bool.or_eq_true, Bool.and_eq_true, decide_eq_true_eq, beq_iff_eq]
  rw [eq_comm (a := b.1.2.2)]

theorem servedBefore_total (a b : Row K × ℕ) : servedBefore a b = true ∨ servedBefore b a = true := by
  rw [servedBefore_iff, servedBefore_iff]
  exact Hamilton.NotAfter.total _ _

theorem servedBefore_trans (a b c : Row K × ℕ) (h : servedBefore a b = true)
    (h' : servedBefore b c = true) : servedBefore a c = true := by
  rw [servedBefore_iff] at h h' ⊢
  exact h.trans h'

theorem order_eq (rows : List (Row K)) : ((List.range rows.length).insertionSort fun a b => before rows a b) =
      (rows.zipIdx.insertionSort fun a b => servedBefore a b).map Prod.snd := by
  have hrange : rows.zipIdx.map Prod.snd = List.range rows.length := by
    rw [zipIdx_map_snd, ← range_eq_range']
  rw [← hrange]
  refine (map_insertionSort _ _ _ _ fun a ha b hb => ?_).symm
  have hrowA := mem_zipIdx_iff_getElem?.mp ha
  have hrowB := mem_zipIdx_iff_getElem?.mp hb
  rw [before, hrowA, hrowB]
  exact Iff.rfl

theorem distinctNeighbours_of_sorted {l : List (K × U256)} (h : l.Pairwise fun a b => a.1 < b.1) :
    distinctNeighbours l = true := by
  induction l with
  | nil => rfl
  | cons a l ih =>
    cases l with
    | nil => rfl
    | cons b l =>
      have hab := (pairwise_cons.mp h).1 b (mem_cons_self ..)
      rw [distinctNeighbours, ih (pairwise_cons.mp h).2]
      simp [hab.ne]

theorem sorted_of_nodup {V : Type*} {l : List (K × V)} (h : (l.map Prod.fst).Nodup) :
    (l.insertionSort fun a b => a.1 ≤ b.1).Pairwise fun a b => a.1 < b.1 := by
  have hperm := perm_insertionSort (fun a b : K × V => a.1 ≤ b.1) l
  have hnd : ((l.insertionSort fun a b => a.1 ≤ b.1).map Prod.fst).Nodup :=
    (hperm.map Prod.fst).nodup_iff.mpr h
  have hsort : (l.insertionSort fun a b => a.1 ≤ b.1).Pairwise fun a b => a.1 ≤ b.1 := by
    have : Std.Total fun a b : K × V => a.1 ≤ b.1 := ⟨fun a b => le_total a.1 b.1⟩
    have : IsTrans (K × V) fun a b => a.1 ≤ b.1 := ⟨fun _ _ _ => le_trans⟩
    exact pairwise_insertionSort _ l
  have hne := pairwise_map.mp hnd
  exact (hsort.and hne).imp fun h => lt_of_le_of_ne h.1 h.2

omit [LinearOrder K] in
theorem filterMap_rows (rows : List (Row K)) :
    (rows.filterMap fun row => if row.2.1 = 0 then none else some (row.1, row.2.1)) =
      (rows.map fun row => (row.1, row.2.1)).filter fun e => e.2 != 0 := by
  induction rows with
  | nil => rfl
  | cons row rows ih =>
    by_cases h0 : row.2.1 = 0
    · rw [filterMap_cons, if_pos h0, ih, map_cons, filter_cons_of_neg (by simpa using h0)]
    · rw [filterMap_cons, if_neg h0, ih, map_cons, filter_cons_of_pos (by simpa using h0)]

omit [LinearOrder K] in
theorem sum_filter_pos (l : List (K × U256)) :
    ((l.filter fun e => e.2 != 0).map fun e => e.2.toNat).sum = (l.map fun e => e.2.toNat).sum := by
  induction l with
  | nil => rfl
  | cons e l ih =>
    by_cases h0 : e.2 = 0
    · rw [filter_cons_of_neg (by simpa using h0), ih, map_cons, sum_cons, h0]
      exact (Nat.zero_add _).symm
    · rw [filter_cons_of_pos (by simpa using h0), map_cons, map_cons, sum_cons, sum_cons, ih]

/-- The scores that the pool is divided among, in the order of their keys. -/
def ranked (scores : List (K × U256)) : List (K × U256) :=
  (scores.filter fun e => e.2 != 0).insertionSort fun a b => a.1 ≤ b.1

theorem mem_ranked {scores : List (K × U256)} {e : K × U256} : e ∈ ranked scores ↔ e ∈ scores ∧ e.2 ≠ 0 := by
  rw [ranked, (perm_insertionSort _ _).mem_iff, mem_filter, bne_iff_ne]

section Shares

variable {scores : List (K × U256)} (hnd : (scores.map Prod.fst).Nodup)
include hnd

theorem ranked_strict : (ranked scores).Pairwise fun a b => a.1 < b.1 :=
  sorted_of_nodup (hnd.sublist (filter_sublist.map _))

theorem ranked_nodup : ((ranked scores).map Prod.fst).Nodup :=
  pairwise_map.mpr ((ranked_strict hnd).imp fun h => h.ne)

theorem ranked_eq_of_perm {scores' : List (K × U256)} (h : scores'.Perm scores) :
    ranked scores' = ranked scores := by
  have hperm : (ranked scores').Perm (ranked scores) :=
    ((perm_insertionSort _ _).trans (h.filter _)).trans (perm_insertionSort _ _).symm
  have hnd' : (scores'.map Prod.fst).Nodup := (h.map Prod.fst).nodup_iff.mpr hnd
  refine hperm.eq_of_pairwise (fun a b _ _ (hab : a.1 < b.1) (hba : b.1 < a.1) => ?_)
    (ranked_strict hnd') (ranked_strict hnd)
  exact absurd hab (lt_asymm hba)

variable {f : K → ℕ}

theorem total_pos (hf : ∀ e ∈ scores, f e.1 = e.2.toNat) (hne : ∃ e ∈ scores, e.2 ≠ 0) :
    0 < Hamilton.total (scores.map Prod.fst).toFinset f := by
  obtain ⟨e, he, hpos⟩ := hne
  rw [Hamilton.total_toFinset hnd hf]
  refine lt_of_lt_of_le (U256.toNat_pos.mpr hpos) (le_sum_of_mem ?_)
  exact List.mem_map_of_mem (f := fun e : K × U256 => e.2.toNat) he

theorem ranked_total_pos (hf : ∀ e ∈ scores, f e.1 = e.2.toNat)
    (hne : ∃ e ∈ scores, e.2 ≠ 0) : 0 < Hamilton.total ((ranked scores).map Prod.fst).toFinset f := by
  obtain ⟨e, he, hpos⟩ := hne
  exact total_pos (ranked_nodup hnd) (fun e he => hf e (mem_ranked.mp he).1)
    ⟨e, mem_ranked.mpr ⟨he, hpos⟩, hpos⟩

theorem share_ranked (hf : ∀ e ∈ scores, f e.1 = e.2.toNat) (hne : ∃ e ∈ scores, e.2 ≠ 0)
    (pool : ℕ) (k : K) : Hamilton.share (scores.map Prod.fst).toFinset f pool k =
      Hamilton.share ((ranked scores).map Prod.fst).toFinset f pool k := by
  refine Hamilton.share_extend ?_ ?_ (ranked_total_pos hnd hf hne) k
  · intro k hk
    rw [List.mem_toFinset, List.mem_map] at hk ⊢
    obtain ⟨e, he, rfl⟩ := hk
    exact ⟨e, (mem_ranked.mp he).1, rfl⟩
  · intro k hk hnot
    rw [List.mem_toFinset, List.mem_map] at hk hnot
    obtain ⟨e, he, rfl⟩ := hk
    by_cases hzero : e.2 = 0
    · rw [hf e he, hzero]
      rfl
    · exact absurd ⟨e, mem_ranked.mpr ⟨he, hzero⟩, rfl⟩ hnot

theorem toNat_share (hf : ∀ e ∈ scores, f e.1 = e.2.toNat) (hne : ∃ e ∈ scores, e.2 ≠ 0)
    (pool : U256) {e : K × U256} (he : e ∈ scores) :
    (BitVec.ofNat 256 (Hamilton.share (scores.map Prod.fst).toFinset f pool.toNat e.1)).toNat =
      Hamilton.share (scores.map Prod.fst).toFinset f pool.toNat e.1 := by
  rw [BitVec.toNat_ofNat, Nat.mod_eq_of_lt]
  refine lt_of_le_of_lt (Hamilton.share_le (total_pos hnd hf hne) ?_) pool.isLt
  rw [List.mem_toFinset]
  exact List.mem_map_of_mem he

/-- Every key that is allocated something gets the share of Hamilton's method. -/
theorem distributePointsGeneric_eq (scale totalPool : U256) (hne : ∃ e ∈ scores, e.2 ≠ 0)
    (hsum : (scores.map fun e => e.2.toNat).sum < 2 ^ 256) (hf : ∀ e ∈ scores, f e.1 = e.2.toNat) :
    distributePointsGeneric scores scale totalPool = some (((ranked scores).map fun e => (e.1, BitVec.ofNat 256
        (Hamilton.share (scores.map Prod.fst).toFinset f totalPool.toNat e.1))).filter
          fun e => e.2 != 0, totalPool) := by
  simp only [share_ranked hnd hf hne]
  obtain ⟨e₀, he₀, hpos₀⟩ := hne
  have hkeys := ranked_nodup hnd
  have hstrict := ranked_strict hnd
  have hmem₀ : e₀ ∈ ranked scores := mem_ranked.mpr ⟨he₀, hpos₀⟩
  have hf : ∀ e ∈ ranked scores, f e.1 = e.2.toNat := fun e he => hf e (mem_ranked.mp he).1
  have hfle : ((ranked scores).map fun e => e.2.toNat).sum ≤ (scores.map fun e => e.2.toNat).sum := by
    rw [ranked, ((perm_insertionSort (fun a b : K × U256 => a.1 ≤ b.1) _).map _).sum_eq]
    exact (filter_sublist.map _).sum_le_sum fun _ _ => Nat.zero_le _
  unfold distributePointsGeneric
  rw [← ranked]
  obtain ⟨sorted, hsorted⟩ : ∃ sorted, sorted = ranked scores := ⟨_, rfl⟩
  rw [← hsorted] at hkeys hstrict hmem₀ hf hfle ⊢
  have hemp : sorted.isEmpty = false := isEmpty_eq_false_iff.mpr (ne_nil_of_mem hmem₀)
  obtain ⟨s, hs⟩ : ∃ s, s = (sorted.map Prod.fst).toFinset := ⟨_, rfl⟩
  rw [← hs]
  simp only [distinctNeighbours_of_sorted hstrict, hemp, Bool.not_true, Bool.false_eq_true, if_false,
    Bool.false_or, beq_iff_eq]
  by_cases hpool : totalPool = 0
  · rw [if_pos hpool, hpool, filter_eq_nil_iff.mpr]
    intro e he
    obtain ⟨e, -, rfl⟩ := List.mem_map.mp he
    have hzero : (0 : U256).toNat = 0 := rfl
    simp only [hzero, Hamilton.share_budget_zero]
    simp
  rw [if_neg hpool]
  -- the sum of the scores, and the floors in terms of it
  obtain ⟨total, htotal, htotalNat⟩ := Checked.sum_isSome (l := sorted.map Prod.snd)
    (by rw [List.map_map]; exact lt_of_le_of_lt hfle hsum)
  rw [List.map_map] at htotalNat
  have hsumNat : total.toNat = Hamilton.total s f := by
    rw [htotalNat, hs, Hamilton.total_toFinset hkeys hf]
    rfl
  have hle : ∀ e ∈ sorted, e.2.toNat ≤ total.toNat := by
    intro e he
    rw [htotalNat]
    exact le_sum_of_mem (List.mem_map_of_mem (f := fun e : K × U256 => e.2.toNat) he)
  have htpos : 0 < Hamilton.total s f := by
    rw [hs]
    exact total_pos hkeys hf ⟨e₀, hmem₀, hpos₀⟩
  have ht : total ≠ 0 := by
    refine U256.toNat_pos.mp ?_
    rwa [hsumNat]
  have hfloor : ∀ e ∈ sorted, e.2.toNat * totalPool.toNat / total.toNat =
      Hamilton.floor s f totalPool.toNat e.1 := by
    intro e he
    rw [Hamilton.floor, hsumNat, hf e he]
  have hfloors : (sorted.map fun e => e.2.toNat * totalPool.toNat / total.toNat).sum =
      ∑ k ∈ s, Hamilton.floor s f totalPool.toNat k := by
    rw [map_congr_left hfloor]
    conv_rhs => rw [hs, sum_toFinset _ hkeys, List.map_map, ← hs]
    rfl
  have hfloorLe := Hamilton.sum_floor_le (u := totalPool.toNat) htpos
  have hpoollt := totalPool.isLt
  have h0 : (0 : U256).toNat = 0 := rfl
  obtain ⟨floorSum, hfold, hfloorSum⟩ := foldlM_shareRow total totalPool ht sorted hle [] 0 (by
    rw [hfloors, h0]
    omega)
  rw [hfloors, h0, Nat.zero_add] at hfloorSum
  rw [nil_append] at hfold
  obtain ⟨rows, hrows⟩ : ∃ rows, rows = sorted.map (rowOf total totalPool) := ⟨_, rfl⟩
  rw [← hrows] at hfold
  have hlen : rows.length = sorted.length := by rw [hrows, length_map]
  have hrow : ∀ i (h : i < rows.length) (h' : i < sorted.length), rows[i].1 = sorted[i].1 ∧
        rows[i].2.1.toNat = Hamilton.floor s f totalPool.toNat sorted[i].1 ∧
        rows[i].2.2 = Hamilton.remainder s f totalPool.toNat sorted[i].1 := by
    intro i h h'
    have hmem := getElem_mem h'
    simp only [hrows, getElem_map]
    refine ⟨rfl, ?_, ?_⟩
    · rw [toNat_rowOf (hle _ hmem), hfloor _ hmem]
    · rw [Hamilton.remainder, ← hsumNat, hf _ hmem]
      rfl
  obtain ⟨missing, hmissing, hmissingNat⟩ := Checked.sub_isSome (a := totalPool) (b := floorSum)
    (by omega)
  have hmissingEq : missing.toNat = Hamilton.missing s f totalPool.toNat := by
    rw [hmissingNat, hfloorSum, Hamilton.missing]
  have hmlt : missing.toNat < rows.length := by
    have hmiss := Apportion.missing_lt totalPool.toNat (sorted.map fun e => e.2.toNat) (by
      rw [← Hamilton.total_toFinset hkeys hf, ← hs]
      exact htpos)
    rw [← Hamilton.total_toFinset hkeys hf, ← hs, ← hsumNat, List.map_map, length_map] at hmiss
    have hcomp : (sorted.map ((fun a => a * totalPool.toNat / total.toNat) ∘ fun e => e.2.toNat)) =
        sorted.map fun e => e.2.toNat * totalPool.toNat / total.toNat := rfl
    rw [hcomp, hfloors, ← Hamilton.missing, ← hmissingEq] at hmiss
    rwa [hlen]
  -- the units that are missing go to the first rows in the order of service
  have hrowKeys : rows.map Prod.fst = sorted.map Prod.fst := by
    rw [hrows, List.map_map]
    rfl
  obtain ⟨taken, htakenNodup, htakenLt, htaken, hshares⟩ := Hamilton.exists_served (l := rows)
    (g := Prod.fst) (r := servedBefore) (f := f) (u := totalPool.toNat) (by rw [hrowKeys]; exact hkeys)
    servedBefore_total servedBefore_trans (fun i j hi hj hij h => by
      have hi' : i < sorted.length := by rwa [← hlen]
      have hj' : j < sorted.length := by rwa [← hlen]
      obtain ⟨hki, -, hri⟩ := hrow i hi hi'
      obtain ⟨hkj, -, hrj⟩ := hrow j hj hj'
      rw [servedBefore_iff, hri, hrj, hki, hkj] at h
      rw [hrowKeys, ← hs, hki, hkj]
      exact h.before fun heq => hij (Hamilton.index_eq_of_key hkeys hi' hj' heq))
  rw [hrowKeys, ← hs] at htaken hshares
  have hshareAt : ∀ i (h : i < rows.length), rows[i].2.1.toNat + (if i ∈ taken then 1 else 0) =
      Hamilton.share s f totalPool.toNat rows[i].1 := by
    intro i h
    have h' : i < sorted.length := by rwa [← hlen]
    rw [hshares i h, (hrow i h h').2.1, (hrow i h h').1]
  have hshareLt : ∀ i (h : i < rows.length), Hamilton.share s f totalPool.toNat rows[i].1 < 2 ^ 256 := by
    intro i h
    refine lt_of_le_of_lt (Hamilton.share_le htpos ?_) hpoollt
    rw [hs, List.mem_toFinset, ← hrowKeys]
    exact List.mem_map_of_mem (getElem_mem h)
  have hgive := Hamilton.foldlM_set (M := Option) (g := bump) (f := bumped) htakenNodup
    (t := rows) htakenLt fun l i hi h hget => by
      have h' := htakenLt i hi
      rw [getElem?_eq_getElem h, getElem?_eq_getElem h', some_inj] at hget
      refine bump_eq h ?_
      have hshare := hshareAt i h'
      rw [if_pos hi] at hshare
      rw [hget, hshare]
      exact hshareLt i h'
  rw [hmissingEq] at hmlt
  simp only [htotal, hfold, hmissing, order_eq, hmissingEq, htaken, hgive, Option.pure_def,
    bind_eq_bind, bind_some]
  rw [if_neg (not_not.mpr hmlt)]
  refine congrArg (fun l => some (l, totalPool)) ?_
  rw [filterMap_rows]
  refine congrArg (List.filter _) (ext_getElem (by simp [hlen]) fun i h h' => ?_)
  have hi : i < rows.length := by simpa using h
  have hi' : i < sorted.length := by rwa [← hlen]
  rw [getElem_map, getElem_map, getElem_mapIdx]
  have hvalue := hshareAt i hi
  rw [(hrow i hi hi').1] at hvalue
  have hlt := hshareLt i hi
  rw [(hrow i hi hi').1] at hlt
  by_cases hi'' : i ∈ taken
  · rw [if_pos hi''] at hvalue ⊢
    refine Prod.ext (hrow i hi hi').1 (BitVec.eq_of_toNat_eq ?_)
    rw [BitVec.toNat_ofNat, Nat.mod_eq_of_lt hlt, ← hvalue]
    exact toNat_bumped (by rw [hvalue]; exact hlt)
  · rw [if_neg hi''] at hvalue ⊢
    refine Prod.ext (hrow i hi hi').1 (BitVec.eq_of_toNat_eq ?_)
    rw [BitVec.toNat_ofNat, Nat.mod_eq_of_lt hlt, ← hvalue, Nat.add_zero]

theorem sum_share_ranked (hf : ∀ e ∈ scores, f e.1 = e.2.toNat) (hne : ∃ e ∈ scores, e.2 ≠ 0) (pool : U256) :
    ((ranked scores).map fun e => (BitVec.ofNat 256
      (Hamilton.share (scores.map Prod.fst).toFinset f pool.toNat e.1)).toNat).sum = pool.toNat := by
  have hvalue : ∀ e ∈ ranked scores, (BitVec.ofNat 256
      (Hamilton.share (scores.map Prod.fst).toFinset f pool.toNat e.1)).toNat =
        Hamilton.share ((ranked scores).map Prod.fst).toFinset f pool.toNat e.1 := by
    intro e he
    rw [toNat_share hnd hf hne pool (mem_ranked.mp he).1, share_ranked hnd hf hne]
  rw [map_congr_left hvalue]
  have hsum := Hamilton.sum_share (u := pool.toNat) (ranked_total_pos hnd hf hne)
  rw [sum_toFinset _ (ranked_nodup hnd), List.map_map] at hsum
  exact hsum

end Shares

theorem distributePointsGeneric_spec (scores : List (K × U256)) (scale totalPool : U256)
    (hnd : (scores.map Prod.fst).Nodup) (hne : ∃ e ∈ scores, e.2 ≠ 0)
    (hsum : (scores.map fun e => e.2.toNat).sum < 2 ^ 256) :
    ∃ assigned, distributePointsGeneric scores scale totalPool = some (assigned, totalPool) ∧
      assigned.Pairwise (fun a b => a.1 < b.1) ∧ (∀ e ∈ assigned, e.2 ≠ 0) ∧
      (assigned.map fun e => e.2.toNat).sum = totalPool.toNat := by
  obtain ⟨f, hf, -⟩ := Hamilton.exists_numerator hnd fun e => e.2.toNat
  refine ⟨_, distributePointsGeneric_eq hnd scale totalPool hne hsum hf, ?_, ?_, ?_⟩
  · refine List.Pairwise.sublist filter_sublist ?_
    exact pairwise_map.mpr (ranked_strict hnd)
  · intro e he
    simpa using (mem_filter.mp he).2
  · rw [sum_filter_pos, List.map_map]
    exact sum_share_ranked hnd hf hne totalPool

/-- What an allocation gives a key, zero when it does not name it. -/
def unitsOf (assigned : List (K × U256)) (k : K) : ℕ :=
  ((assigned.find? fun e => e.1 = k).map fun e => e.2.toNat).getD 0

theorem unitsOf_eq {assigned : List (K × U256)} (hnd : (assigned.map Prod.fst).Nodup) {e : K × U256}
    (he : e ∈ assigned) : unitsOf assigned e.1 = e.2.toNat := by
  unfold unitsOf
  cases hf : assigned.find? fun a => a.1 = e.1 with
  | none => exact absurd (find?_eq_none.mp hf e he) (by simp)
  | some a =>
    have ha : a.1 = e.1 := by simpa using find?_some hf
    rw [inj_on_of_nodup_map hnd (mem_of_find?_eq_some hf) he ha]
    rfl

theorem unitsOf_eq_zero {assigned : List (K × U256)} {k : K} (h : ∀ e ∈ assigned, e.1 ≠ k) :
    unitsOf assigned k = 0 := by
  unfold unitsOf
  rw [find?_eq_none.mpr]
  · rfl
  · intro e he
    simpa using h e he

section Units

variable {scores : List (K × U256)} (hnd : (scores.map Prod.fst).Nodup) (hne : ∃ e ∈ scores, e.2 ≠ 0)
  {f : K → ℕ} (hf : ∀ e ∈ scores, f e.1 = e.2.toNat)
include hnd hne hf

theorem unitsOf_share (pool : U256) {e : K × U256} (he : e ∈ scores) :
    unitsOf (((ranked scores).map fun e => (e.1, BitVec.ofNat 256
      (Hamilton.share (scores.map Prod.fst).toFinset f pool.toNat e.1))).filter fun e => e.2 != 0) e.1 =
        Hamilton.share (scores.map Prod.fst).toFinset f pool.toNat e.1 := by
  obtain ⟨share, hshare⟩ : ∃ share : K → ℕ,
      share = Hamilton.share (scores.map Prod.fst).toFinset f pool.toNat := ⟨_, rfl⟩
  have hfits := toNat_share hnd hf hne pool he
  rw [← hshare] at hfits ⊢
  by_cases hzero : BitVec.ofNat 256 (share e.1) = 0
  · -- a key without a share is not listed
    rw [unitsOf_eq_zero, ← hfits, hzero]
    · rfl
    · intro a ha hkey
      obtain ⟨hmem, ha⟩ := mem_filter.mp ha
      obtain ⟨b, -, rfl⟩ := List.mem_map.mp hmem
      rw [bne_iff_ne] at ha
      exact ha (by rw [show b.1 = e.1 from hkey, hzero])
  · have hpos : e.2 ≠ 0 := by
      intro h0
      have hshare0 : share e.1 = 0 := by
        rw [hshare]
        exact Hamilton.share_eq_zero (total_pos hnd hf hne) (by rw [hf e he, h0]; rfl)
      exact hzero (by rw [hshare0]; rfl)
    have hlisted : (e.1, BitVec.ofNat 256 (share e.1)) ∈ ((ranked scores).map fun e =>
        (e.1, BitVec.ofNat 256 (share e.1))).filter fun e => e.2 != 0 := by
      refine mem_filter.mpr ⟨List.mem_map.mpr ⟨e, mem_ranked.mpr ⟨he, hpos⟩, rfl⟩, ?_⟩
      exact bne_iff_ne.mpr hzero
    have hkeys : ((((ranked scores).map fun e => (e.1, BitVec.ofNat 256 (share e.1))).filter
        fun e => e.2 != 0).map Prod.fst).Nodup := by
      refine List.Nodup.sublist (filter_sublist.map _) ?_
      rw [List.map_map]
      exact ranked_nodup hnd
    exact (unitsOf_eq hkeys hlisted).trans hfits

end Units

theorem distributePointsGeneric_zero {scores : List (K × U256)} (scale pool : U256)
    (h : ∀ e ∈ scores, e.2 = 0) : distributePointsGeneric scores scale pool = some ([], 0) := by
  have hfilter : (scores.filter fun e => e.2 != 0) = [] := by
    rw [filter_eq_nil_iff]
    intro e he
    simpa using h e he
  unfold distributePointsGeneric
  rw [hfilter]
  rfl

/-- Hamilton's method is exact, fair and independent of the order of the scores. -/
theorem distributePointsGeneric_hamilton (scores : List (K × U256)) (scale pool : U256)
    (hnd : (scores.map Prod.fst).Nodup) (hsum : (scores.map fun e => e.2.toNat).sum < 2 ^ 256) :
    ∃ assigned given, distributePointsGeneric scores scale pool = some (assigned, given) ∧
      ((∃ e ∈ scores, e.2 ≠ 0) → given = pool ∧ (assigned.map fun e => e.2.toNat).sum = pool.toNat) ∧
      (assigned.map Prod.fst).Nodup ∧ (∀ a ∈ assigned, ∃ e ∈ scores, e.1 = a.1 ∧ e.2 ≠ 0) ∧
      (∀ e ∈ scores, unitsOf assigned e.1 = pool.toNat * e.2.toNat / (scores.map fun e => e.2.toNat).sum ∨
          unitsOf assigned e.1 = pool.toNat * e.2.toNat / (scores.map fun e => e.2.toNat).sum + 1) ∧
      (∀ e ∈ scores, e.2 = 0 → unitsOf assigned e.1 = 0) ∧
      (∀ e ∈ scores, ∀ e' ∈ scores, e.2 < e'.2 → unitsOf assigned e.1 ≤ unitsOf assigned e'.1) ∧
      ∀ scores' : List (K × U256), scores'.Perm scores →
        distributePointsGeneric scores' scale pool = some (assigned, given) := by
  have horder : ∀ scores' : List (K × U256), scores'.Perm scores →
      distributePointsGeneric scores' scale pool = distributePointsGeneric scores scale pool := by
    intro scores' hperm
    have hranked := ranked_eq_of_perm hnd hperm
    unfold distributePointsGeneric
    rw [← ranked, ← ranked, hranked]
  by_cases hne : ∃ e ∈ scores, e.2 ≠ 0
  · obtain ⟨f, hf, -⟩ := Hamilton.exists_numerator hnd fun e => e.2.toNat
    have heq := distributePointsGeneric_eq hnd scale pool hne hsum hf
    have htotal := Hamilton.total_toFinset hnd hf
    refine ⟨_, _, heq, fun _ => ⟨rfl, ?_⟩, ?_, ?_, ?_, ?_, ?_, fun scores' hperm =>
      (horder scores' hperm).trans heq⟩
    · rw [sum_filter_pos, List.map_map]
      exact sum_share_ranked hnd hf hne pool
    · refine List.Nodup.sublist (filter_sublist.map _) ?_
      rw [List.map_map]
      exact ranked_nodup hnd
    · intro a ha
      obtain ⟨e, he, rfl⟩ := List.mem_map.mp (mem_filter.mp ha).1
      obtain ⟨he, hpos⟩ := mem_ranked.mp he
      exact ⟨e, he, rfl, hpos⟩
    · intro e he
      have h := Hamilton.share_eq_or (s := (scores.map Prod.fst).toFinset) (f := f) (u := pool.toNat) e.1
      rw [htotal, hf e he, Nat.mul_comm] at h
      rwa [unitsOf_share hnd hne hf pool he]
    · intro e he hzero
      rw [unitsOf_share hnd hne hf pool he]
      exact Hamilton.share_eq_zero (total_pos hnd hf hne) (by rw [hf e he, hzero]; rfl)
    · intro e he e' he' hlt
      rw [unitsOf_share hnd hne hf pool he, unitsOf_share hnd hne hf pool he']
      refine Hamilton.share_mono ?_ (by rw [hf e he, hf e' he']; exact hlt)
      rw [List.mem_toFinset]
      exact List.mem_map_of_mem he'
  · -- nothing to divide by: nobody is allocated anything
    have hzero : ∀ e ∈ scores, e.2 = 0 := by
      intro e he
      by_contra hpos
      exact hne ⟨e, he, hpos⟩
    have heq := distributePointsGeneric_zero scale pool hzero
    refine ⟨[], 0, heq, fun h => absurd h hne, nodup_nil, fun a ha => absurd ha not_mem_nil,
      fun e he => Or.inl ?_, fun _ _ _ => rfl, fun _ _ _ _ _ => le_rfl, fun scores' hperm =>
        (horder scores' hperm).trans heq⟩
    have h0 : e.2.toNat = 0 := by rw [hzero e he]; rfl
    rw [h0, Nat.mul_zero, Nat.zero_div]
    rfl

/-- Ten units among equal scores, an unequal one and none. -/
theorem distributePointsGeneric_hamilton_ten : ∃ assigned given, distributePointsGeneric
        [((3 : ℕ), (1 : U256)), (1, 1), (2, 0), (4, 2)] 1 10 = some (assigned, given) ∧
      (assigned.map fun e => e.2.toNat).sum = 10 ∧
      distributePointsGeneric [((4 : ℕ), (2 : U256)), (2, 0), (1, 1), (3, 1)] 1 10 =
        some (assigned, given) := by
  obtain ⟨assigned, given, heq, hexact, -, -, -, -, -, horder⟩ := distributePointsGeneric_hamilton
    [((3 : ℕ), (1 : U256)), (1, 1), (2, 0), (4, 2)] 1 10 (by decide) (by decide)
  exact ⟨assigned, given, heq, (hexact ⟨(3, 1), by decide, by decide⟩).2, horder _ (by decide)⟩

end Trustgraphs.Distribute
