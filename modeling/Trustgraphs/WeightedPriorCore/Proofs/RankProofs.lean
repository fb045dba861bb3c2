import Trustgraphs.Lib.Walk
import Trustgraphs.WeightedPriorCore.Proofs.AllocateProofs

/-!
# The rounds of the ranker are rounds of a walk

The reference keeps its scores in a map by address and the kernel of the guest in a vector.
-/

namespace Trustgraphs.WeightedPrior

open Outcome Checked Hamilton List Finset UInt64

def natRow {K : Type} (row : List (K × UInt64)) : List (K × ℕ) := row.map fun e => (e.1, e.2.toNat)

section Row

variable {K : Type} {row : List (K × UInt64)}

@[simp]
theorem length_natRow : (natRow row).length = row.length := length_map ..

@[simp]
theorem natRow_eq_nil : natRow row = [] ↔ row = [] := map_eq_nil_iff

theorem mem_natRow {e : K × ℕ} : e ∈ natRow row ↔ ∃ w, (e.1, w) ∈ row ∧ w.toNat = e.2 := by
  unfold natRow
  rw [List.mem_map]
  constructor
  · rintro ⟨⟨t, w⟩, hw, rfl⟩
    exact ⟨w, hw, rfl⟩
  · rintro ⟨w, hw, he⟩
    exact ⟨(e.1, w), hw, Prod.ext rfl he⟩

theorem weightAt_natRow : Walk.weightAt (natRow row) = numberAt (row.map Prod.snd) := by
  funext i
  simp only [Walk.weightAt, natRow, numberAt, getD_eq_getElem?_getD, List.getElem?_map]
  cases row[i]? <;> rfl

variable [LinearOrder K]

omit [LinearOrder K] in
theorem shareAt_weights (row : List (K × UInt64)) (budget i : ℕ) :
    shareAt (row.map Prod.snd) budget i = Walk.rowShare (natRow row) budget i := by
  rw [shareAt, Walk.rowShare, weightAt_natRow, length_natRow, length_map]

def received (es : List (K × UInt64)) (t : K) : ℕ := (es.map fun e => if e.1 = t then e.2.toNat else 0).sum

theorem received_shares {contributions : List UInt64} {budget : ℕ} (hlen : contributions.length = row.length)
    (h : ∀ i, i < row.length → numberAt contributions i = Walk.rowShare (natRow row) budget i) (t : K) :
    received ((row.map Prod.fst).zip contributions) t = Walk.contribution (natRow row) budget t := by
  unfold received Walk.contribution
  congr 1
  refine ext_getElem (by simp [hlen]) fun i hi _ => ?_
  have hi : i < row.length := by simpa [hlen] using hi
  have hshare := h i hi
  rw [numberAt_of_lt (by rwa [hlen])] at hshare
  simp [natRow, hshare]

theorem contribution_add_dangling {s : Finset K} {r : List (K × ℕ)} (hpos : ∀ e ∈ r, 0 < e.2)
    (hmem : ∀ e ∈ r, e.1 ∈ s) (budget : ℕ) :
    ∑ t ∈ s, Walk.contribution r budget t + (if r = [] then budget else 0) = budget := by
  by_cases hr : r = []
  · subst hr
    simp [Walk.contribution_nil]
  · rw [if_neg hr, Walk.sum_contribution hr hpos hmem, Nat.add_zero]

theorem sumNat_lt {l : List UInt64} (h : l.length < 2 ^ 64) : sumNat l < 2 ^ 128 := by
  have hle : sumNat l ≤ l.length * 2 ^ 64 := by
    have := List.sum_le_card_nsmul (l.map UInt64.toNat) (2 ^ 64) fun a ha => by
      obtain ⟨w, -, rfl⟩ := List.mem_map.mp ha
      exact w.toNat_lt.le
    rwa [length_map, smul_eq_mul] at this
  calc sumNat l ≤ l.length * 2 ^ 64 := hle
    _ < 2 ^ 64 * 2 ^ 64 := Nat.mul_lt_mul_of_pos_right h (by norm_num)
    _ = 2 ^ 128 := by norm_num

theorem exists_sumWide {l : List UInt64} (h : l.length < 2 ^ 64) :
    ∃ total, sumWide l = .ok total ∧ total.toNat = sumNat l := by
  obtain ⟨total, ht⟩ := exists_toNat (w := 128) (sumNat_lt h)
  exact ⟨total, sumWide_eq_ok.mpr ht, ht⟩

theorem sumNat_pos {l : List UInt64} (hne : l ≠ []) (hpos : ∀ a ∈ l, 0 < a) : 0 < sumNat l := by
  obtain ⟨a, rest, rfl⟩ := exists_cons_of_ne_nil hne
  have ha : 0 < a.toNat := lt_iff_toNat_lt.mp (hpos a List.mem_cons_self)
  exact ha.trans_le (le_sumNat List.mem_cons_self)

theorem sumNat_shares {ns values : List UInt64} {budget : ℕ} (hpos : 0 < sumNat ns)
    (hlen : values.length = ns.length)
    (h : ∀ i, i < ns.length → numberAt values i = shareAt ns budget i) : sumNat values = budget := by
  have htotal : 0 < total (Finset.range ns.length) (numberAt ns) := by rwa [total_numberAt]
  rw [← total_numberAt, hlen, total, sum_congr rfl fun i hi => h i (Finset.mem_range.mp hi)]
  exact sum_share htotal

end Row

section Store

variable {S K E : Type} [LinearOrder K] (nodes : Finset K) (Valid : S → Prop) (score : S → K → ℕ)

theorem foldlM_add {add : S → E → Weighted S} (target : E → K) (amount : E → ℕ)
    (hadd : ∀ s e, Valid s → target e ∈ nodes → score s (target e) + amount e < 2 ^ 64 →
      ∃ s', add s e = .ok s' ∧ Valid s' ∧ ∀ t, score s' t = score s t + if target e = t then amount e else 0)
    {l : List E} {s : S} (hs : Valid s) (hmem : ∀ e ∈ l, target e ∈ nodes)
    (hfit : ∑ t ∈ nodes, score s t + (l.map amount).sum < 2 ^ 64) :
    ∃ s', l.foldlM add s = .ok s' ∧ Valid s' ∧
      ∀ t, score s' t = score s t + (l.map fun e => if target e = t then amount e else 0).sum := by
  induction l generalizing s with
  | nil => exact ⟨s, rfl, hs, fun t => rfl⟩
  | cons e l ih =>
    obtain ⟨he, hmem⟩ := List.forall_mem_cons.mp hmem
    rw [List.map_cons, List.sum_cons] at hfit
    have hle : score s (target e) ≤ ∑ t ∈ nodes, score s t :=
      Finset.single_le_sum (fun _ _ => Nat.zero_le _) he
    obtain ⟨s₁, hstep, hs₁, hscore⟩ := hadd s e hs he (by omega)
    have hsum : ∑ t ∈ nodes, score s₁ t = ∑ t ∈ nodes, score s t + amount e := by
      simp only [hscore, sum_add_distrib]
      rw [sum_ite_eq, if_pos he]
    obtain ⟨s', hfold, hs', hall⟩ := ih hs₁ hmem (by rw [hsum]; omega)
    refine ⟨s', ?_, hs', fun t => ?_⟩
    · rw [foldlM_cons]
      exact bind_eq_ok.mpr ⟨s₁, hstep, hfold⟩
    · rw [hall, hscore, List.map_cons, List.sum_cons, Nat.add_assoc]

theorem foldlM_spread {spread : S × UInt64 → E → Weighted (S × UInt64)} (row : E → List (K × ℕ))
    (budget : E → ℕ) {l : List E} (hpos : ∀ x ∈ l, ∀ e ∈ row x, 0 < e.2)
    (hmem : ∀ x ∈ l, ∀ e ∈ row x, e.1 ∈ nodes)
    (hspread : ∀ st x, x ∈ l → Valid st.1 → ∑ t ∈ nodes, score st.1 t + st.2.toNat + budget x < 2 ^ 64 →
      ∃ s' dangling, spread st x = .ok (s', dangling) ∧ Valid s' ∧
        (∀ t, score s' t = score st.1 t + Walk.contribution (row x) (budget x) t) ∧
        dangling.toNat = st.2.toNat + if row x = [] then budget x else 0) (st : S × UInt64) (hs : Valid st.1)
    (hfit : ∑ t ∈ nodes, score st.1 t + st.2.toNat + (l.map budget).sum < 2 ^ 64) :
    ∃ s' dangling, l.foldlM spread st = .ok (s', dangling) ∧ Valid s' ∧ (∀ t, score s' t =
        score st.1 t + (l.map fun x => Walk.contribution (row x) (budget x) t).sum) ∧
      dangling.toNat = st.2.toNat + (l.map fun x => if row x = [] then budget x else 0).sum := by
  induction l generalizing st with
  | nil => exact ⟨st.1, st.2, rfl, hs, fun t => rfl, rfl⟩
  | cons x l ih =>
    obtain ⟨hx, hpos⟩ := List.forall_mem_cons.mp hpos
    obtain ⟨hxmem, hmem⟩ := List.forall_mem_cons.mp hmem
    rw [List.map_cons, List.sum_cons] at hfit
    obtain ⟨s₁, d₁, hstep, hs₁, hscore, hd₁⟩ := hspread st x List.mem_cons_self hs (by omega)
    -- what is given away and what dangles is the budget of the source
    have hsum : ∑ t ∈ nodes, score s₁ t + d₁.toNat = ∑ t ∈ nodes, score st.1 t + st.2.toNat + budget x := by
      have hgiven := contribution_add_dangling hx hxmem (budget x)
      simp only [hscore, sum_add_distrib, hd₁]
      omega
    obtain ⟨s', d', hfold, hs', hall, hd'⟩ := ih hpos hmem
      (fun st y hy => hspread st y (List.mem_cons_of_mem x hy)) (s₁, d₁) hs₁
      (by simp only [hsum]; omega)
    refine ⟨s', d', ?_, hs', fun t => ?_, ?_⟩
    · rw [foldlM_cons]
      exact bind_eq_ok.mpr ⟨(s₁, d₁), hstep, hfold⟩
    · rw [hall, hscore, List.map_cons, List.sum_cons, Nat.add_assoc]
    · rw [hd', hd₁, List.map_cons, List.sum_cons, Nat.add_assoc]

end Store

theorem toNat_absDiff (a b : UInt64) : (absDiff a b).toNat = (a.toNat - b.toNat) + (b.toNat - a.toNat) := by
  unfold absDiff
  by_cases h : a < b
  · have hlt := lt_iff_toNat_lt.mp h
    rw [if_pos h, UInt64.toNat_sub_of_le _ _ (le_iff_toNat_le.mpr hlt.le)]
    omega
  · have hle : b.toNat ≤ a.toNat := by
      rw [lt_iff_toNat_lt] at h
      exact not_lt.mp h
    rw [if_neg h, UInt64.toNat_sub_of_le _ _ (le_iff_toNat_le.mpr hle)]
    omega

theorem maxDelta_lt {deltas : List UInt64} {tolerance : UInt64} :
    maxDelta deltas < tolerance ↔ 0 < tolerance ∧ ∀ d ∈ deltas, d < tolerance := by
  have hfold : ∀ (l : List UInt64) (m : UInt64), l.foldl (fun m d => if m < d then d else m) m < tolerance ↔
        m < tolerance ∧ ∀ d ∈ l, d < tolerance := by
    intro l
    induction l with
    | nil => simp
    | cons d l ih =>
      intro m
      rw [foldl_cons, ih, List.forall_mem_cons, ← and_assoc]
      refine and_congr_left fun _ => ?_
      split
      · rename_i h
        exact ⟨fun hd => ⟨UInt64.lt_trans h hd, hd⟩, fun hd => hd.2⟩
      · rename_i h
        exact ⟨fun hm => ⟨hm, UInt64.lt_of_le_of_lt (UInt64.not_lt.mp h) hm⟩, fun hm => hm.1⟩
  exact hfold deltas 0

theorem maxDelta_lt_iff {K : Type} [LinearOrder K] (W : Walk K) {f g : K → ℕ} {deltas : List UInt64}
    (tolerance : UInt64) (h : ∀ n, (∃ d ∈ deltas, d.toNat = n) ↔ ∃ a ∈ W.nodes, (f a - g a) + (g a - f a) = n) :
    maxDelta deltas < tolerance ↔ W.delta f g < tolerance.toNat := by
  rw [maxDelta_lt]
  unfold Walk.delta
  constructor
  · rintro ⟨hpos, hall⟩
    refine (Finset.sup_lt_iff (lt_iff_toNat_lt.mp hpos)).mpr fun a ha => ?_
    obtain ⟨d, hd, hval⟩ := (h _).mpr ⟨a, ha, rfl⟩
    rw [← hval]
    exact lt_iff_toNat_lt.mp (hall d hd)
  · intro hsup
    have hpos : 0 < tolerance.toNat := lt_of_le_of_lt (Nat.zero_le _) hsup
    refine ⟨lt_iff_toNat_lt.mpr hpos, fun d hd => ?_⟩
    obtain ⟨a, ha, hval⟩ := (h _).mp ⟨d, hd, rfl⟩
    rw [lt_iff_toNat_lt, ← hval]
    exact (Finset.sup_lt_iff hpos).mp hsup a ha

structure Kernel where
  priorWeights : List UInt64
  outgoing : List (List (Nat × UInt64))
  dampingFp : UInt64
  length_outgoing : outgoing.length = priorWeights.length
  target_lt : ∀ row ∈ outgoing, ∀ e ∈ row, e.1 < priorWeights.length
  weight_pos : ∀ row ∈ outgoing, ∀ e ∈ row, 0 < e.2
  length_row : ∀ row ∈ outgoing, row.length < 2 ^ 64
  sum_prior : sumNat priorWeights = SCALE.toNat
  damping_le : dampingFp ≤ SCALE

namespace Kernel

variable (k : Kernel)

abbrev size : ℕ := k.priorWeights.length

def row (i : ℕ) : List (Nat × UInt64) := k.outgoing.getD i []

theorem row_eq {i : ℕ} (h : i < k.size) : k.outgoing[i]? = some (k.row i) := by
  have hi : i < k.outgoing.length := by rwa [k.length_outgoing]
  rw [row, getD_eq_getElem _ _ hi, List.getElem?_eq_getElem hi]

theorem row_mem_or (i : ℕ) : k.row i ∈ k.outgoing ∨ k.row i = [] := by
  unfold row
  by_cases h : i < k.outgoing.length
  · rw [getD_eq_getElem _ _ h]
    exact Or.inl (getElem_mem h)
  · rw [getD_eq_default _ _ (not_lt.mp h)]
    exact Or.inr rfl

theorem row_target (i : ℕ) : ∀ e ∈ natRow (k.row i), e.1 ∈ Finset.range k.size := by
  intro e he
  obtain ⟨w, hw, -⟩ := mem_natRow.mp he
  rcases k.row_mem_or i with hrow | hrow
  · exact Finset.mem_range.mpr (k.target_lt _ hrow _ hw)
  · rw [hrow] at hw
    exact absurd hw not_mem_nil

theorem row_pos (i : ℕ) : ∀ e ∈ natRow (k.row i), 0 < e.2 := by
  intro e he
  obtain ⟨w, hw, hwe⟩ := mem_natRow.mp he
  rw [← hwe]
  rcases k.row_mem_or i with hrow | hrow
  · exact lt_iff_toNat_lt.mp (k.weight_pos _ hrow _ hw)
  · rw [hrow] at hw
    exact absurd hw not_mem_nil

def walk : Walk ℕ where
  nodes := Finset.range k.size
  row := fun i => natRow (k.row i)
  prior := numberAt k.priorWeights
  scale := SCALE.toNat
  damping := k.dampingFp.toNat
  row_mem := fun i _ => k.row_target i
  row_pos := k.row_pos
  prior_mem := by
    intro i hi
    by_contra hnot
    refine hi ?_
    rw [numberAt, List.getD_eq_default _ _ (not_lt.mp fun h => hnot (Finset.mem_range.mpr h))]
    rfl
  prior_sum := (total_numberAt _).trans k.sum_prior
  scale_pos := SCALE_pos
  damping_le := UInt64.le_iff_toNat_le.mp k.damping_le

end Kernel

theorem addIndexed_eq {n : ℕ} {next : List UInt64} {e : (Nat × UInt64) × UInt64} (hlen : next.length = n)
    (he : e.1.1 ∈ Finset.range n) (hfit : numberAt next e.1.1 + e.2.toNat < 2 ^ 64) :
    ∃ next', addIndexed next e = .ok next' ∧ next'.length = n ∧
      ∀ t, numberAt next' t = numberAt next t + if e.1.1 = t then e.2.toNat else 0 := by
  have hi : e.1.1 < next.length := by rw [hlen]; exact Finset.mem_range.mp he
  obtain ⟨value, hvalue⟩ := exists_toNat64 hfit
  refine ⟨next.set e.1.1 value, ?_, by rw [length_set, hlen], fun t => ?_⟩
  · unfold addIndexed
    refine bind_eq_ok.mpr ⟨next[e.1.1], ofPanic_eq_ok.mpr (List.getElem?_eq_getElem hi),
      bind_eq_ok.mpr ⟨value, orOverflow_eq_ok.mpr (add64_eq_some.mpr ?_), rfl⟩⟩
    rw [hvalue, numberAt_of_lt hi]
  · by_cases ht : e.1.1 = t
    · subst ht
      rw [numberAt_of_lt (by rwa [length_set]), getElem_set_self, hvalue, if_pos rfl]
    · rw [numberAt, getD_eq_getElem?_getD, getElem?_set_ne ht, if_neg ht, Nat.add_zero,
        numberAt, getD_eq_getElem?_getD]

theorem addAll_eq {scores contributions : List UInt64} (hlen : contributions.length = scores.length)
    (hfit : ∀ t, t < scores.length → numberAt scores t + numberAt contributions t < 2 ^ 64) :
    ∃ sums, addAll scores contributions = .ok sums ∧ sums.length = scores.length ∧
      ∀ t, numberAt sums t = numberAt scores t + numberAt contributions t := by
  induction scores generalizing contributions with
  | nil =>
    obtain rfl := length_eq_zero_iff.mp hlen
    exact ⟨[], rfl, rfl, fun t => rfl⟩
  | cons score scores ih =>
    obtain ⟨contribution, contributions, rfl⟩ := exists_cons_of_length_eq_add_one hlen
    obtain ⟨sum, hsum⟩ := exists_toNat64 (hfit 0 (Nat.succ_pos _))
    obtain ⟨sums, hadd, hsums, hall⟩ := ih (Nat.succ_inj.mp hlen)
      fun t ht => hfit (t + 1) (Nat.succ_lt_succ ht)
    refine ⟨sum :: sums, ?_, by rw [length_cons, hsums, length_cons], fun t => ?_⟩
    · rw [addAll]
      exact bind_eq_ok.mpr ⟨sum, orOverflow_eq_ok.mpr (add64_eq_some.mpr hsum),
        bind_eq_ok.mpr ⟨sums, hadd, rfl⟩⟩
    · cases t with
      | zero => exact hsum
      | succ t => exact hall t

theorem checkSum_eq_ok {scores : List UInt64} : checkSum scores = .ok () ↔ sumNat scores = SCALE.toNat := by
  unfold checkSum fail
  constructor
  · intro h
    obtain ⟨sum, hsum, h⟩ := of_bind h
    obtain ⟨heq, -⟩ := of_guard h
    rw [← sumWords_eq_ok.mp hsum, not_not.mp heq]
  · intro h
    exact bind_eq_ok.mpr ⟨SCALE, sumWords_eq_ok.mpr h.symm, ite_error_eq_ok.mpr ⟨fun h => h rfl, rfl⟩⟩

theorem priorBudget_eq {dampingFp dangling : UInt64} (hd : dampingFp ≤ SCALE) (hle : dangling ≤ dampingFp) :
    ∃ budget, priorBudget dampingFp dangling = .ok budget ∧
      budget.toNat = SCALE.toNat - dampingFp.toNat + dangling.toNat := by
  have hd := le_iff_toNat_le.mp hd
  have hle := le_iff_toNat_le.mp hle
  have hscale := SCALE.toNat_lt
  obtain ⟨base, hbase⟩ := exists_toNat64 (n := SCALE.toNat - dampingFp.toNat) (by omega)
  obtain ⟨budget, hbudget⟩ := exists_toNat64 (n := base.toNat + dangling.toNat) (by omega)
  refine ⟨budget, orOverflow_eq_ok.mpr (Option.bind_eq_some_iff.mpr ⟨base,
    sub64_eq_some.mpr (by omega), add64_eq_some.mpr hbudget⟩), ?_⟩
  rw [hbudget, hbase]

theorem sum_zipIdx_words (l : List UInt64) (g : ℕ → ℕ → ℕ) : (l.zipIdx.map fun x => g x.2 x.1.toNat).sum =
      ∑ i ∈ Finset.range l.length, g i (numberAt l i) := by
  have hmap : (l.zipIdx.map fun x => g x.2 x.1.toNat) =
      (List.range l.length).map fun i => g i (numberAt l i) := by
    refine ext_getElem (by simp) fun i hi _ => ?_
    have hi : i < l.length := by simpa using hi
    simp [numberAt_of_lt hi]
  rw [hmap, ← sum_toFinset _ nodup_range, toFinset_range]

theorem numberAt_of_le {l : List UInt64} {i : ℕ} (h : l.length ≤ i) : numberAt l i = 0 := by
  rw [numberAt, getD_eq_default _ _ h]
  rfl

theorem numberAt_replicate (n t : ℕ) : numberAt (List.replicate n 0) t = 0 := by
  rw [numberAt, getD_eq_getElem?_getD, getElem?_replicate]
  split <;> rfl

namespace Kernel

variable (k : Kernel)

/-- A source gives its budget to its row, or the budget dangles. -/
theorem spreadIndexed_eq {st : List UInt64 × UInt64} {x : UInt64 × ℕ} (hx : x.2 < k.size)
    (hlen : st.1.length = k.size)
    (hfit : ∑ t ∈ Finset.range k.size, numberAt st.1 t + st.2.toNat + x.1.toNat < 2 ^ 64) :
    ∃ next dangling, spreadIndexed k.outgoing st x = .ok (next, dangling) ∧ next.length = k.size ∧
      (∀ t, numberAt next t = numberAt st.1 t + Walk.contribution (natRow (k.row x.2)) x.1.toNat t) ∧
      dangling.toNat = st.2.toNat + if natRow (k.row x.2) = [] then x.1.toNat else 0 := by
  have hrow := ofPanic_eq_ok (F := WeightedError) |>.mpr (k.row_eq hx)
  unfold spreadIndexed
  by_cases hempty : k.row x.2 = []
  · obtain ⟨dangling, hd⟩ := exists_toNat64 (n := st.2.toNat + x.1.toNat) (by omega)
    refine ⟨st.1, dangling, bind_eq_ok.mpr ⟨_, hrow, ?_⟩, hlen, fun t => ?_, ?_⟩
    · rw [if_pos hempty]
      exact bind_eq_ok.mpr ⟨dangling, orOverflow_eq_ok.mpr (add64_eq_some.mpr hd), rfl⟩
    · rw [natRow_eq_nil.mpr hempty, Walk.contribution_nil, Nat.add_zero]
    · rw [if_pos (natRow_eq_nil.mpr hempty), hd]
  · have hmem : k.row x.2 ∈ k.outgoing := (k.row_mem_or x.2).resolve_right hempty
    have hweights : ∀ a ∈ (k.row x.2).map Prod.snd, 0 < a := by
      intro a ha
      obtain ⟨e, he, rfl⟩ := List.mem_map.mp ha
      exact k.weight_pos _ hmem e he
    obtain ⟨total, htotal, hsum⟩ := exists_sumWide (l := (k.row x.2).map Prod.snd)
      (by rw [length_map]; exact k.length_row _ hmem)
    obtain ⟨contributions, halloc, hclen, hshare⟩ := allocateIndexed_eq x.1 hsum
      (sumNat_pos (by simpa using hempty) hweights)
    rw [length_map] at hclen hshare
    have hshares : ∀ i, i < (k.row x.2).length →
        numberAt contributions i = Walk.rowShare (natRow (k.row x.2)) x.1.toNat i :=
      fun i hi => by rw [hshare i hi, shareAt_weights]
    have hamounts : (((k.row x.2).zip contributions).map fun e => e.2.toNat).sum = x.1.toNat := by
      have hsnd : ((k.row x.2).zip contributions).map (fun e => e.2.toNat) =
          contributions.map UInt64.toNat := by
        conv_rhs => rw [← map_snd_zip hclen.le, List.map_map]
        rfl
      rw [hsnd]
      exact sumNat_shares (sumNat_pos (by simpa using hempty) hweights)
        (by rw [length_map, hclen]) (by rwa [length_map])
    obtain ⟨next, hfold, hnext, hscore⟩ := foldlM_add (Finset.range k.size)
      (fun v => v.length = k.size) numberAt (fun e : (ℕ × UInt64) × UInt64 => e.1.1)
      (fun e => e.2.toNat) (fun v e => addIndexed_eq) (l := (k.row x.2).zip contributions) hlen
      (fun e he => Finset.mem_range.mpr (k.target_lt _ hmem _ (of_mem_zip he).1))
      (by rw [hamounts]; omega)
    refine ⟨next, st.2, bind_eq_ok.mpr ⟨_, hrow, ?_⟩, hnext, fun t => ?_, ?_⟩
    · rw [if_neg hempty]
      exact bind_eq_ok.mpr ⟨total, htotal, bind_eq_ok.mpr ⟨contributions, halloc,
        bind_eq_ok.mpr ⟨next, hfold, rfl⟩⟩⟩
    · rw [hscore, ← received_shares hclen hshares, received, zip_map_left, List.map_map]
      rfl
    · rw [if_neg (by simpa using hempty), Nat.add_zero]

/-- One iteration is one round of the walk. -/
theorem step_eq {current : List UInt64} (hlen : current.length = k.size) (hsum : sumNat current = SCALE.toNat) :
    ∃ next, indexedStep k.priorWeights k.outgoing k.dampingFp k.size current = .ok next ∧
      next.length = k.size ∧ sumNat next = SCALE.toNat ∧
      numberAt next = k.walk.next (numberAt current) := by
  have hscale : (widen SCALE).toNat = SCALE.toNat := toNat_widen SCALE
  have hpos : 0 < SCALE.toNat := by decide
  have hlt : 2 * SCALE.toNat < 2 ^ 64 := by decide
  have hd := le_iff_toNat_le.mp k.damping_le
  have htotal : ∑ i ∈ k.walk.nodes, numberAt current i = k.walk.scale := by
    have h := total_numberAt current
    rw [hlen, hsum] at h
    exact h
  -- the budgets of the sources
  obtain ⟨budgets, hbudgets, hblen, hshare⟩ := allocateIndexed_eq k.dampingFp
    (hscale.trans hsum.symm) (by rw [hsum]; exact hpos)
  have hbudget : ∀ i, i < k.size → numberAt budgets i = k.walk.budget (numberAt current) i := by
    intro i hi
    rw [hshare i (by rwa [hlen]), shareAt, hlen]
    rfl
  have hbsum : sumNat budgets = k.dampingFp.toNat := sumNat_shares (by rw [hsum]; exact hpos) hblen hshare
  -- the rows
  have hzero : ∑ t ∈ Finset.range k.size, numberAt (List.replicate k.size 0) t = 0 :=
    Finset.sum_eq_zero fun t _ => numberAt_replicate _ t
  have hlist : (budgets.zipIdx.map fun x => x.1.toNat).sum = k.dampingFp.toNat := by
    rw [sum_zipIdx_words budgets fun _ b => b, ← hbsum, ← total_numberAt]
    rfl
  obtain ⟨spread, dangling, hspread, hslen, hscore, hdangling⟩ := foldlM_spread
    (Finset.range k.size) (fun v => v.length = k.size) numberAt
    (fun x : UInt64 × ℕ => natRow (k.row x.2)) (fun x => x.1.toNat) (l := budgets.zipIdx)
    (fun x _ => k.row_pos x.2) (fun x _ => k.row_target x.2)
    (fun st x hx => k.spreadIndexed_eq (by
      have := snd_lt_of_mem_zipIdx hx
      omega))
    (List.replicate k.size 0, 0) length_replicate
    (by
      rw [hlist]
      dsimp only
      rw [hzero]
      show 0 + 0 + _ < _
      omega)
  have hrows : ∀ t, numberAt spread t = ∑ i ∈ k.walk.nodes,
      Walk.contribution (k.walk.row i) (k.walk.budget (numberAt current) i) t := by
    intro t
    rw [hscore, numberAt_replicate, Nat.zero_add,
      sum_zipIdx_words budgets fun i b => Walk.contribution (natRow (k.row i)) b t, hblen, hlen]
    refine sum_congr rfl fun i hi => ?_
    rw [hbudget i (Finset.mem_range.mp hi)]
    rfl
  have hdangle : dangling.toNat = k.walk.dangling (numberAt current) := by
    rw [hdangling, sum_zipIdx_words budgets fun i b => if natRow (k.row i) = [] then b else 0, hblen, hlen]
    show 0 + _ = _
    rw [Nat.zero_add]
    refine sum_congr rfl fun i hi => ?_
    rw [hbudget i (Finset.mem_range.mp hi)]
    rfl
  have hdle : dangling.toNat ≤ k.dampingFp.toNat := hdangle.trans_le (k.walk.dangling_le htotal)
  -- the prior
  obtain ⟨budget, hbudgetok, hbudgetval⟩ := priorBudget_eq k.damping_le
    (le_iff_toNat_le.mpr hdle)
  obtain ⟨teleport, hteleport, htlen, htshare⟩ := allocateIndexed_eq budget
    (hscale.trans k.sum_prior.symm) (by rw [k.sum_prior]; exact hpos)
  have hreturned : budget.toNat = k.walk.returned (numberAt current) := by
    rw [hbudgetval, hdangle]
    rfl
  have hprior : ∀ t, numberAt teleport t =
      share k.walk.nodes k.walk.prior (k.walk.returned (numberAt current)) t := by
    intro t
    by_cases ht : t < k.size
    · rw [htshare t ht, hreturned]
      rfl
    · rw [numberAt_of_le (by rw [htlen]; exact not_lt.mp ht), share_eq_zero]
      · rw [total, k.walk.prior_sum]
        exact k.walk.scale_pos
      · exact numberAt_of_le (not_lt.mp ht)
  have hnext : ∀ t, numberAt spread t + numberAt teleport t = k.walk.next (numberAt current) t := by
    intro t
    rw [hrows, hprior]
    rfl
  have hmass := k.walk.sum_next htotal
  have hfits : ∀ t, t < spread.length → numberAt spread t + numberAt teleport t < 2 ^ 64 := by
    intro t ht
    rw [hnext]
    have hle : k.walk.next (numberAt current) t ≤ ∑ t ∈ k.walk.nodes, k.walk.next (numberAt current) t :=
      Finset.single_le_sum (fun _ _ => Nat.zero_le _) (Finset.mem_range.mpr (by rwa [hslen] at ht))
    rw [hmass] at hle
    have : k.walk.scale = SCALE.toNat := rfl
    omega
  obtain ⟨next, hadd, hnlen, hall⟩ := addAll_eq (htlen.trans hslen.symm) hfits
  have hfinal : numberAt next = k.walk.next (numberAt current) := funext fun t => by rw [hall, hnext]
  have hnsum : sumNat next = SCALE.toNat := by
    rw [← total_numberAt, hnlen, hslen, hfinal]
    exact hmass
  refine ⟨next, ?_, hnlen.trans hslen, hnsum, hfinal⟩
  unfold indexedStep
  exact bind_eq_ok.mpr ⟨budgets, hbudgets, bind_eq_ok.mpr ⟨(spread, dangling), hspread,
    bind_eq_ok.mpr ⟨budget, hbudgetok, bind_eq_ok.mpr ⟨teleport, hteleport,
    bind_eq_ok.mpr ⟨next, hadd, bind_eq_ok.mpr ⟨(), checkSum_eq_ok.mpr hnsum, rfl⟩⟩⟩⟩⟩⟩

/-- The loop of the kernel runs the walk. -/
theorem loop_eq {p : Params} (hp : p.dampingFp = k.dampingFp) (hmax : p.maxIterations.toNat + 1 < 2 ^ 32)
    (left : ℕ) (iteration : UInt32) (hit : iteration.toNat + left = p.maxIterations.toNat + 1)
    (current : List UInt64) (hlen : current.length = k.size) (hsum : sumNat current = SCALE.toNat) :
    ∃ final completed,
      indexedLoop k.priorWeights k.outgoing p k.size left iteration current = .ok (final, completed) ∧
      final.length = k.size ∧ sumNat final = SCALE.toNat ∧ (numberAt final, completed.toNat) =
        k.walk.run p.toleranceFp.toNat p.maxIterations.toNat left (numberAt current) := by
  induction left generalizing iteration current with
  | zero => exact ⟨current, p.maxIterations, rfl, hlen, hsum, rfl⟩
  | succ left ih =>
    obtain ⟨next, hstep, hnlen, hnsum, hnext⟩ := k.step_eq hlen hsum
    have hdeltas : ∀ n, (∃ d ∈ (current.zip next).map fun e => absDiff e.1 e.2, d.toNat = n) ↔
        ∃ i ∈ k.walk.nodes, (numberAt current i - k.walk.next (numberAt current) i) +
          (k.walk.next (numberAt current) i - numberAt current i) = n := by
      intro n
      rw [← hnext]
      constructor
      · rintro ⟨d, hd, rfl⟩
        obtain ⟨i, hi, rfl⟩ := mem_iff_getElem.mp hd
        have hi' : i < k.size := by simpa [hlen, hnlen] using hi
        refine ⟨i, Finset.mem_range.mpr hi', ?_⟩
        rw [getElem_map, getElem_zip, toNat_absDiff,
          numberAt_of_lt (by rwa [hlen]), numberAt_of_lt (by rwa [hnlen])]
      · rintro ⟨i, hi, rfl⟩
        have hi' : i < k.size := Finset.mem_range.mp hi
        have hzip : i < ((current.zip next).map fun e => absDiff e.1 e.2).length := by
          simpa [hlen, hnlen] using hi'
        refine ⟨_, getElem_mem hzip, ?_⟩
        rw [getElem_map, getElem_zip, toNat_absDiff,
          numberAt_of_lt (by rwa [hlen]), numberAt_of_lt (by rwa [hnlen])]
    have hstop := maxDelta_lt_iff k.walk p.toleranceFp hdeltas
    rw [indexedLoop, Walk.run, hp, hstep]
    by_cases hd : k.walk.delta (numberAt current) (k.walk.next (numberAt current)) < p.toleranceFp.toNat
    · refine ⟨next, iteration, if_pos (hstop.mpr hd), hnlen, hnsum, ?_⟩
      rw [if_pos hd, hnext]
      exact Prod.ext rfl (by show iteration.toNat = _; omega)
    · have hiter : (iteration + 1).toNat = iteration.toNat + 1 := by
        rw [UInt32.toNat_add]
        exact Nat.mod_eq_of_lt (by show iteration.toNat + 1 < _; omega)
      obtain ⟨final, completed, hloop, hflen, hfsum, hrun⟩ := ih (iteration + 1)
        (by rw [hiter]; omega) next hnlen hnsum
      refine ⟨final, completed, ?_, hflen, hfsum, ?_⟩
      · exact (if_neg fun h => hd (hstop.mp h)).trans hloop
      · rw [if_neg hd, ← hnext]
        exact hrun

end Kernel

end Trustgraphs.WeightedPrior
