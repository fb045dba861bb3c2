import Trustgraphs.WeightedPriorCore.Proofs.ManifestProofs
import Trustgraphs.WeightedPriorCore.Proofs.RankProofs

/-!
# The kernel of the guest ranks the accounts

`RankInput` is what both rankers see of their graphs: the accounts, the rows of the sources and the
prior.
-/

namespace Trustgraphs.WeightedPrior

open Outcome Option List

variable {prior : List PriorEntry} {a : Address} {l : List Address}

theorem mem_accounts {nodes : List Address} :
    a ∈ accounts prior nodes ↔ (∃ e ∈ prior, e.account = a) ∨ a ∈ nodes := by
  unfold accounts
  rw [Std.ExtTreeSet.mem_toList, BTreeSet.mem_ofList, mem_append, List.mem_map]

theorem accounts_sorted (prior : List PriorEntry) (nodes : List Address) :
    (accounts prior nodes).Pairwise (· < ·) := BTreeSet.toList_sorted _

def priorWeight (prior : List PriorEntry) (a : Address) : UInt64 := ((priorByAccount prior)[a]?).getD 0

theorem Normalized.nodup (h : Normalized prior) : (prior.map (·.account)).Nodup :=
  (pairwise_map.mpr h.ascending).imp fun hlt => hlt.ne

theorem Normalized.getElem?_priorByAccount (h : Normalized prior)
    {w : UInt64} : (priorByAccount prior)[a]? = some w ↔ (⟨a, w⟩ : PriorEntry) ∈ prior := by
  have hkeys : (prior.map fun entry => (entry.account, entry.weight)).map Prod.fst =
      prior.map (·.account) := by rw [List.map_map]; rfl
  unfold priorByAccount
  rw [BTreeMap.getElem?_ofEntries (by rw [hkeys]; exact h.nodup), List.mem_map]
  constructor
  · rintro ⟨e, he, heq⟩
    obtain ⟨rfl, rfl⟩ := Prod.mk.inj heq
    exact he
  · intro he
    exact ⟨⟨a, w⟩, he, rfl⟩

theorem Normalized.priorWeight_of_mem (h : Normalized prior) {e : PriorEntry}
    (he : e ∈ prior) : priorWeight prior e.account = e.weight := by
  rw [priorWeight, h.getElem?_priorByAccount.mpr he, getD_some]

theorem Normalized.mem_of_priorWeight (h : Normalized prior)
    (ha : priorWeight prior a ≠ 0) : ∃ e ∈ prior, e.account = a := by
  unfold priorWeight at ha
  cases hw : (priorByAccount prior)[a]? with
  | none =>
    rw [hw] at ha
    exact absurd rfl ha
  | some w => exact ⟨⟨a, w⟩, h.getElem?_priorByAccount.mp hw, rfl⟩

theorem Normalized.sum_priorWeight (h : Normalized prior) {s : Finset Address}
    (hs : ∀ e ∈ prior, e.account ∈ s) : ∑ a ∈ s, (priorWeight prior a).toNat = SCALE.toNat := by
  have hsub : (prior.map (·.account)).toFinset ⊆ s := by
    intro a ha
    obtain ⟨e, he, rfl⟩ := List.mem_map.mp (List.mem_toFinset.mp ha)
    exact hs e he
  have hout : ∀ a ∈ s, a ∉ (prior.map (·.account)).toFinset → (priorWeight prior a).toNat = 0 := by
    intro a _ hnot
    by_contra hne
    obtain ⟨e, he, rfl⟩ := h.mem_of_priorWeight (a := a) fun hz => hne (by rw [hz]; rfl)
    exact hnot (List.mem_toFinset.mpr (List.mem_map_of_mem he))
  rw [← Finset.sum_subset hsub hout, sum_toFinset _ h.nodup, List.map_map, ← h.sum, totalWeight]
  congr 1
  refine map_congr_left fun e he => ?_
  exact congrArg UInt64.toNat (h.priorWeight_of_mem he)

theorem zip_eq_map {values : List UInt64} (hlen : values.length = l.length)
    {f : Address → ℕ} (h : ∀ i, i < l.length → numberAt values i = f (l.getD i 0)) :
    l.zip values = l.map fun a => (a, UInt64.ofNat (f a)) := by
  refine ext_getElem (by simp [hlen]) fun i hi _ => ?_
  have hi : i < l.length := by simpa [hlen] using hi
  have hvalue := h i hi
  rw [numberAt_of_lt (by rwa [hlen]), getD_eq_getElem _ _ hi] at hvalue
  rw [getElem_zip, getElem_map, ← hvalue, UInt64.ofNat_toNat]

structure Params.Bounded (p : Params) : Prop where
  damping_pos : 0 < p.dampingFp
  damping_lt : p.dampingFp < SCALE
  iterations_pos : 0 < p.maxIterations
  iterations_le : p.maxIterations ≤ MAX_ITERATIONS
  weights : p.minWeight ≤ p.maxWeight

theorem Params.bounded {p : Params} (h : p.validate = .ok ()) : p.Bounded := by
  unfold Params.validate at h
  obtain ⟨-, h⟩ := of_guard h
  obtain ⟨hd, h⟩ := of_guard h
  obtain ⟨-, h⟩ := of_guard h
  obtain ⟨hi, h⟩ := of_guard h
  obtain ⟨hw, -⟩ := of_guard h
  obtain ⟨hd₀, hd⟩ := not_or.mp hd
  obtain ⟨hi₀, hi⟩ := not_or.mp hi
  obtain ⟨-, hw⟩ := not_or.mp hw
  exact ⟨UInt64.pos_iff_ne_zero.mpr hd₀, UInt64.not_le.mp hd, UInt32.pos_iff_ne_zero.mpr hi₀,
    UInt32.not_lt.mp hi, UInt64.not_lt.mp hw⟩

structure RankInput where
  nodes : List Address
  /-- The positive edges of a source to others. -/
  row : Address → List (Address × UInt64)
  prior : List PriorEntry
  params : Params
  normalized : Normalized prior
  bounded : params.Bounded
  row_mem : ∀ a, ∀ e ∈ row a, e.1 ∈ accounts prior nodes
  row_pos : ∀ a, ∀ e ∈ row a, 0 < e.2
  length_row : ∀ a, (row a).length < 2 ^ 64

namespace RankInput

variable (R : RankInput)

abbrev accounts : List Address := WeightedPrior.accounts R.prior R.nodes

theorem prior_mem : ∀ e ∈ R.prior, e.account ∈ R.accounts :=
  fun e he => mem_accounts.mpr (Or.inl ⟨e, he, rfl⟩)

def walk : Walk Address where
  nodes := R.accounts.toFinset
  row := fun a => natRow (R.row a)
  prior := fun a => (priorWeight R.prior a).toNat
  scale := SCALE.toNat
  damping := R.params.dampingFp.toNat
  row_mem := by
    intro a _ e he
    obtain ⟨w, hw, -⟩ := mem_natRow.mp he
    exact List.mem_toFinset.mpr (R.row_mem a _ hw)
  row_pos := by
    intro a e he
    obtain ⟨w, hw, hwe⟩ := mem_natRow.mp he
    rw [← hwe]
    exact UInt64.lt_iff_toNat_lt.mp (R.row_pos a _ hw)
  prior_mem := by
    intro a ha
    obtain ⟨e, he, rfl⟩ := R.normalized.mem_of_priorWeight (a := a) fun hz => ha (by rw [hz]; rfl)
    exact List.mem_toFinset.mpr (R.prior_mem e he)
  prior_sum := R.normalized.sum_priorWeight fun e he => List.mem_toFinset.mpr (R.prior_mem e he)
  scale_pos := SCALE_pos
  damping_le := (UInt64.lt_iff_toNat_lt.mp R.bounded.damping_lt).le

/-- The amounts at the end, and the rounds that were run. -/
def final : (Address → ℕ) × ℕ :=
  R.walk.run R.params.toleranceFp.toNat R.params.maxIterations.toNat R.params.maxIterations.toNat
    R.walk.prior

def result : RankResult :=
  ⟨BTreeMap.tabulate R.accounts fun a => UInt64.ofNat (R.final.1 a), UInt32.ofNat R.final.2⟩

def nameOf (i : ℕ) : Address := R.accounts.getD i 0

theorem nameOf_eq {i : ℕ} {a : Address} (h : R.accounts[i]? = some a) : R.nameOf i = a := by
  rw [nameOf, getD_eq_getElem?_getD, h, getD_some]

theorem getElem?_accounts {i : ℕ} (h : i < R.accounts.length) : R.accounts[i]? = some (R.nameOf i) := by
  rw [nameOf, getD_eq_getElem _ _ h, getElem?_eq_getElem h]

theorem nameOf_strictMonoOn : StrictMonoOn R.nameOf (Finset.range R.accounts.length) :=
  strictMonoOn_getD (accounts_sorted R.prior R.nodes)

theorem toFinset_accounts : R.accounts.toFinset = (Finset.range R.accounts.length).image R.nameOf :=
  toFinset_eq_image_getD _

theorem ofEntries_scores {scores : List UInt64} (hlen : scores.length = R.accounts.length)
    {f : Address → ℕ} (h : ∀ i, i < R.accounts.length → numberAt scores i = f (R.nameOf i)) :
    BTreeMap.ofEntries (R.accounts.zip scores) = BTreeMap.tabulate R.accounts fun a => UInt64.ofNat (f a) := by
  have hkeys : (R.accounts.map fun a => (a, UInt64.ofNat (f a))).map Prod.fst = R.accounts := by
    rw [List.map_map]
    exact List.map_id _
  have hnodup : R.accounts.Nodup := (accounts_sorted R.prior R.nodes).imp fun hlt => hlt.ne
  rw [zip_eq_map hlen h]
  refine BTreeMap.ext_getElem? fun a => Option.ext fun w => ?_
  rw [BTreeMap.getElem?_ofEntries (by rw [hkeys]; exact hnodup), BTreeMap.getElem?_tabulate, List.mem_map]
  constructor
  · rintro ⟨b, hb, heq⟩
    obtain ⟨rfl, rfl⟩ := Prod.mk.inj heq
    rw [if_pos hb]
  · intro hsome
    split at hsome
    · rename_i ha
      exact ⟨a, ha, Prod.ext rfl (some_inj.mp hsome)⟩
    · exact absurd hsome (by simp)

end RankInput

theorem getElem?_indicesOf (hl : l.Nodup) {i : ℕ} : (indicesOf l)[a]? = some i ↔ l[i]? = some a := by
  unfold indicesOf
  rw [BTreeMap.getElem?_ofEntries (by rwa [zipIdx_map_fst]), mem_zipIdx_iff_getElem?]

section Indices

variable {l : List Address} (hl : l.Nodup)
include hl

theorem exists_index {a : Address} (ha : a ∈ l) :
    ∃ i, (indicesOf l)[a]? = some i ∧ l[i]? = some a ∧ i < l.length := by
  obtain ⟨i, hi, rfl⟩ := mem_iff_getElem.mp ha
  have hget : l[i]? = some l[i] := getElem?_eq_getElem hi
  exact ⟨i, (getElem?_indicesOf hl).mpr hget, hget, hi⟩

theorem foldlM_indexPrior {prior : List PriorEntry} (hmem : ∀ e ∈ prior, e.account ∈ l)
    {weights : List UInt64} {m : BTreeMap Address UInt64} (hlen : weights.length = l.length)
    (hsame : ∀ i a, l[i]? = some a → weights.getD i 0 = (m[a]?).getD 0) :
    ∃ weights', prior.foldlM (fun weights entry => do
          let index ← ofPanic (indicesOf l)[entry.account]?
          if index < weights.length then .ok (weights.set index entry.weight) else .error .panic)
        weights = (.ok weights' : Weighted (List UInt64)) ∧ weights'.length = l.length ∧
      ∀ i a, l[i]? = some a → weights'.getD i 0 =
        (((prior.map fun e => (e.account, e.weight)).foldl (fun m e => m.insert e.1 e.2) m)[a]?).getD 0 := by
  induction prior generalizing weights m with
  | nil => exact ⟨weights, rfl, hlen, hsame⟩
  | cons e prior ih =>
    obtain ⟨he, hmem⟩ := forall_mem_cons.mp hmem
    obtain ⟨i, hindex, hget, hi⟩ := exists_index hl he
    have hset : ∀ j a, l[j]? = some a →
        (weights.set i e.weight).getD j 0 = ((m.insert e.account e.weight)[a]?).getD 0 := by
      intro j a hj
      rw [getD_eq_getElem?_getD, getElem?_set, BTreeMap.getElem?_insert]
      by_cases hij : i = j
      · subst hij
        obtain rfl : e.account = a := some_inj.mp (hget.symm.trans hj)
        rw [if_pos rfl, if_pos rfl, if_pos (by rwa [hlen])]
      · have hne : e.account ≠ a := by
          rintro rfl
          have hj' := (getElem?_indicesOf hl).mpr hj
          exact hij (some_inj.mp (hindex.symm.trans hj'))
        rw [if_neg hij, if_neg hne, ← hsame j a hj, getD_eq_getElem?_getD]
    obtain ⟨weights', hfold, hlen', hall⟩ := ih hmem
      (show (weights.set i e.weight).length = l.length by rw [length_set, hlen]) hset
    refine ⟨weights', ?_, hlen', hall⟩
    rw [foldlM_cons]
    refine bind_eq_ok.mpr ⟨weights.set i e.weight, ?_, hfold⟩
    refine bind_eq_ok.mpr ⟨i, ofPanic_eq_ok.mpr hindex, ?_⟩
    rw [if_pos (by rwa [hlen])]

end Indices

theorem indexPrior_eq (hl : l.Nodup) (hmem : ∀ e ∈ prior, e.account ∈ l) :
    ∃ weights, indexPrior (indicesOf l) l.length prior = .ok weights ∧ weights.length = l.length ∧
      ∀ i a, l[i]? = some a → weights.getD i 0 = priorWeight prior a := by
  have hzero : ∀ i a, l[i]? = some a →
      (List.replicate l.length (0 : UInt64)).getD i 0 = ((∅ : BTreeMap Address UInt64)[a]?).getD 0 := by
    intro i a _
    rw [getD_eq_getElem?_getD, getElem?_replicate]
    split <;> simp
  exact foldlM_indexPrior hl hmem length_replicate hzero

/-- The positive edges of a source to others, in the order of the flat graph. -/
def flatRow (edges : List (Address × Address × UInt64)) (a : Address) : List (Address × UInt64) :=
  (edges.filter fun edge => edge.1 = a ∧ edge.1 ≠ edge.2.1 ∧ 0 < edge.2.2).map Prod.snd

theorem mem_flatRow {edges : List (Address × Address × UInt64)} {e : Address × UInt64} :
    e ∈ flatRow edges a ↔ (a, e.1, e.2) ∈ edges ∧ a ≠ e.1 ∧ 0 < e.2 := by
  unfold flatRow
  rw [List.mem_map]
  constructor
  · rintro ⟨⟨b, t, w⟩, hmem, rfl⟩
    obtain ⟨hin, hkeep⟩ := mem_filter.mp hmem
    obtain ⟨rfl, hne, hpos⟩ := of_decide_eq_true hkeep
    exact ⟨hin, hne, hpos⟩
  · rintro ⟨hin, hne, hpos⟩
    exact ⟨(a, e.1, e.2), mem_filter.mpr ⟨hin, by simpa using ⟨hne, hpos⟩⟩, rfl⟩

def indexOf (l : List Address) (a : Address) : ℕ := ((indicesOf l)[a]?).getD 0

theorem indexOf_eq (hl : l.Nodup) {i : ℕ} (h : l[i]? = some a) : indexOf l a = i := by
  rw [indexOf, (getElem?_indicesOf hl).mpr h, getD_some]

/-- An edge is put behind the row of its source. -/
theorem pushEdge_eq (hl : l.Nodup) {edge : Address × Address × UInt64}
    (hsource : edge.1 ∈ l) (htarget : edge.2.1 ∈ l) {outgoing : List (List (Nat × UInt64))}
    (hlen : outgoing.length = l.length) :
    ∃ outgoing', pushEdge (indicesOf l) outgoing edge = .ok outgoing' ∧ outgoing'.length = l.length ∧
      ∀ i a, l[i]? = some a → outgoing'.getD i [] = outgoing.getD i [] ++
        (flatRow [edge] a).map fun e => (indexOf l e.1, e.2) := by
  obtain ⟨s, hsindex, hs, hslt⟩ := exists_index hl hsource
  obtain ⟨t, htindex, ht, -⟩ := exists_index hl htarget
  have hst : s ≠ t ↔ edge.1 ≠ edge.2.1 := by
    refine not_congr ⟨fun h => ?_, fun h => ?_⟩
    · rw [h] at hs
      exact some_inj.mp (hs.symm.trans ht)
    · rw [h] at hsindex
      exact some_inj.mp (hsindex.symm.trans htindex)
  have hslen : s < outgoing.length := by rwa [hlen]
  unfold pushEdge
  by_cases hkeep : s ≠ t ∧ 0 < edge.2.2
  · have hkeep' : edge.1 ≠ edge.2.1 ∧ 0 < edge.2.2 := ⟨hst.mp hkeep.1, hkeep.2⟩
    refine ⟨outgoing.set s (outgoing[s] ++ [(t, edge.2.2)]), ?_, by rw [length_set, hlen], ?_⟩
    · refine bind_eq_ok.mpr ⟨s, ofPanic_eq_ok.mpr hsindex, bind_eq_ok.mpr
        ⟨t, ofPanic_eq_ok.mpr htindex, ?_⟩⟩
      rw [if_pos hkeep]
      exact bind_eq_ok.mpr ⟨outgoing[s], ofPanic_eq_ok.mpr (getElem?_eq_getElem hslen), rfl⟩
    · intro i a hi
      by_cases hsi : s = i
      · subst hsi
        obtain rfl : edge.1 = a := some_inj.mp (hs.symm.trans hi)
        have hrow : flatRow [edge] edge.1 = [edge.2] := by simp [flatRow, hkeep'.1, hkeep'.2]
        rw [hrow, getD_eq_getElem _ _ (by rwa [length_set]), getElem_set_self,
          getD_eq_getElem _ _ hslen, map_singleton, indexOf_eq hl ht]
      · have hne : edge.1 ≠ a := by
          rintro rfl
          exact hsi (some_inj.mp (hsindex.symm.trans ((getElem?_indicesOf hl).mpr hi)))
        have hrow : flatRow [edge] a = [] := by simp [flatRow, hne]
        rw [hrow, map_nil, append_nil, getD_eq_getElem?_getD, getElem?_set_ne hsi, getD_eq_getElem?_getD]
  · refine ⟨outgoing, ?_, hlen, fun i a _ => ?_⟩
    · refine bind_eq_ok.mpr ⟨s, ofPanic_eq_ok.mpr hsindex, bind_eq_ok.mpr
        ⟨t, ofPanic_eq_ok.mpr htindex, ?_⟩⟩
      rw [if_neg hkeep]
    · have hrow : flatRow [edge] a = [] := by
        rw [hst] at hkeep
        simp only [flatRow, map_eq_nil_iff, filter_eq_nil_iff, mem_singleton, decide_eq_true_eq]
        rintro e rfl ⟨-, h⟩
        exact hkeep h
      rw [hrow, map_nil, append_nil]

theorem flatRow_cons (edge : Address × Address × UInt64) (edges : List (Address × Address × UInt64))
    (a : Address) : flatRow (edge :: edges) a = flatRow [edge] a ++ flatRow edges a := by
  rw [flatRow, ← singleton_append, filter_append, map_append]
  rfl

theorem foldlM_pushEdge (hl : l.Nodup) {edges : List (Address × Address × UInt64)}
    (hmem : ∀ edge ∈ edges, edge.1 ∈ l ∧ edge.2.1 ∈ l) {outgoing : List (List (Nat × UInt64))}
    (hlen : outgoing.length = l.length) :
    ∃ outgoing', edges.foldlM (pushEdge (indicesOf l)) outgoing = .ok outgoing' ∧
      outgoing'.length = l.length ∧ ∀ i a, l[i]? = some a → outgoing'.getD i [] =
        outgoing.getD i [] ++ (flatRow edges a).map fun e => (indexOf l e.1, e.2) := by
  induction edges generalizing outgoing with
  | nil => exact ⟨outgoing, rfl, hlen, fun i a _ => by simp [flatRow]⟩
  | cons edge edges ih =>
    obtain ⟨⟨hs, ht⟩, hmem⟩ := forall_mem_cons.mp hmem
    obtain ⟨next, hstep, hnlen, hnext⟩ := pushEdge_eq hl hs ht hlen
    obtain ⟨outgoing', hfold, hlen', hall⟩ := ih hmem hnlen
    refine ⟨outgoing', ?_, hlen', fun i a hi => ?_⟩
    · rw [foldlM_cons]
      exact bind_eq_ok.mpr ⟨next, hstep, hfold⟩
    · rw [hall i a hi, hnext i a hi, flatRow_cons edge edges, map_append, append_assoc]

namespace RankInput

variable (R : RankInput)

theorem accounts_nodup : R.accounts.Nodup := (accounts_sorted R.prior R.nodes).imp fun h => h.ne

/-- Vectors with the prior and the rows of the accounts are a kernel, and its walk is the walk over the
accounts. -/
theorem exists_kernel {weights : List UInt64} {outgoing : List (List (Nat × UInt64))}
    (hwlen : weights.length = R.accounts.length)
    (hweights : ∀ i a, R.accounts[i]? = some a → weights.getD i 0 = priorWeight R.prior a)
    (holen : outgoing.length = R.accounts.length) (hrows : ∀ i a, R.accounts[i]? = some a →
      outgoing.getD i [] = (R.row a).map fun e => (indexOf R.accounts e.1, e.2)) :
    ∃ k : Kernel, k.priorWeights = weights ∧ k.outgoing = outgoing ∧
      k.dampingFp = R.params.dampingFp ∧ Walk.Relabels R.walk k.walk R.nameOf := by
  have hrow : ∀ row ∈ outgoing, ∃ a, row = (R.row a).map fun e => (indexOf R.accounts e.1, e.2) := by
    intro row hrow
    obtain ⟨i, hi, rfl⟩ := mem_iff_getElem.mp hrow
    have h := hrows i _ (R.getElem?_accounts (by rwa [← holen]))
    rw [getD_eq_getElem _ _ hi] at h
    exact ⟨_, h⟩
  have hindex : ∀ a ∈ R.accounts, indexOf R.accounts a < R.accounts.length ∧
      R.nameOf (indexOf R.accounts a) = a := by
    intro a ha
    obtain ⟨i, hi, hget, hlt⟩ := exists_index R.accounts_nodup ha
    rw [indexOf_eq R.accounts_nodup hget]
    exact ⟨hlt, R.nameOf_eq hget⟩
  have hnumber : ∀ i ∈ Finset.range weights.length, numberAt weights i = R.walk.prior (R.nameOf i) := by
    intro i hi
    have hi := Finset.mem_range.mp hi
    rw [numberAt, hweights i _ (R.getElem?_accounts (by rwa [← hwlen]))]
    rfl
  have hsum : sumNat weights = SCALE.toNat := by
    rw [← total_numberAt, Hamilton.total, Finset.sum_congr rfl hnumber, hwlen,
      ← Finset.sum_image (f := R.walk.prior) R.nameOf_strictMonoOn.injOn, ← R.toFinset_accounts]
    exact R.walk.prior_sum
  obtain ⟨k, hkw, hko, hkd⟩ : ∃ k : Kernel, k.priorWeights = weights ∧ k.outgoing = outgoing ∧
      k.dampingFp = R.params.dampingFp := by
    refine ⟨⟨weights, outgoing, R.params.dampingFp, holen.trans hwlen.symm, ?_, ?_, ?_, hsum,
      UInt64.le_of_lt R.bounded.damping_lt⟩, rfl, rfl, rfl⟩
    · intro row hmem e he
      obtain ⟨a, rfl⟩ := hrow row hmem
      obtain ⟨x, hx, rfl⟩ := List.mem_map.mp he
      rw [hwlen]
      exact (hindex _ (R.row_mem a x hx)).1
    · intro row hmem e he
      obtain ⟨a, rfl⟩ := hrow row hmem
      obtain ⟨x, hx, rfl⟩ := List.mem_map.mp he
      exact R.row_pos a x hx
    · intro row hmem
      obtain ⟨a, rfl⟩ := hrow row hmem
      rw [length_map]
      exact R.length_row a
  have hsize : k.size = R.accounts.length := by rw [Kernel.size, hkw, hwlen]
  refine ⟨k, hkw, hko, hkd, ?_⟩
  constructor
  · show StrictMonoOn R.nameOf (Finset.range k.size : Finset ℕ)
    rw [hsize]
    exact R.nameOf_strictMonoOn
  · show R.accounts.toFinset = (Finset.range k.size).image R.nameOf
    rw [hsize]
    exact R.toFinset_accounts
  · intro i hi
    have hi : i < R.accounts.length := by
      rw [← hsize]
      exact Finset.mem_range.mp hi
    show natRow (R.row (R.nameOf i)) = (natRow (k.row i)).map _
    rw [Kernel.row, hko, hrows i _ (R.getElem?_accounts hi)]
    unfold natRow
    rw [List.map_map, List.map_map]
    refine map_congr_left fun e he => ?_
    show (e.1, e.2.toNat) = (R.nameOf (indexOf R.accounts e.1), e.2.toNat)
    rw [(hindex _ (R.row_mem _ e he)).2]
  · intro i hi
    show R.walk.prior (R.nameOf i) = numberAt k.priorWeights i
    rw [hkw]
    refine (hnumber i ?_).symm
    have hi := Finset.mem_range.mp hi
    exact Finset.mem_range.mpr (by rwa [hwlen, ← hsize])
  · rfl
  · show R.params.dampingFp.toNat = k.dampingFp.toNat
    rw [hkd]

structure Hands (g : FlatGraph) (k : Kernel) : Prop where
  prior : indexPrior (indicesOf R.accounts) R.accounts.length R.prior = .ok k.priorWeights
  rows : g.edges.foldlM (pushEdge (indicesOf R.accounts)) (List.replicate R.accounts.length []) = .ok k.outgoing
  damping : R.params.dampingFp = k.dampingFp
  size : k.size = R.accounts.length
  relabels : Walk.Relabels R.walk k.walk R.nameOf

theorem exists_hands {g : FlatGraph} (hedges : ∀ edge ∈ g.edges, edge.1 ∈ R.accounts ∧ edge.2.1 ∈ R.accounts)
    (hrow : ∀ a ∈ R.accounts, flatRow g.edges a = R.row a) : ∃ k, R.Hands g k := by
  obtain ⟨weights, hprior, hwlen, hweights⟩ := indexPrior_eq R.accounts_nodup R.prior_mem
  obtain ⟨outgoing, hpush, holen, hrows⟩ := foldlM_pushEdge R.accounts_nodup hedges
    (length_replicate (n := R.accounts.length) (a := ([] : List (Nat × UInt64))))
  have hrows' : ∀ i a, R.accounts[i]? = some a →
      outgoing.getD i [] = (R.row a).map fun e => (indexOf R.accounts e.1, e.2) := by
    intro i a hi
    have hempty : (List.replicate R.accounts.length ([] : List (Nat × UInt64))).getD i [] = [] := by
      rw [getD_eq_getElem?_getD, getElem?_replicate]
      split <;> rfl
    rw [hrows i a hi, hempty, nil_append, hrow a (mem_of_getElem? hi)]
  obtain ⟨k, hkw, hko, hkd, hrel⟩ := R.exists_kernel hwlen hweights holen hrows'
  exact ⟨k, hkw ▸ hprior, hko ▸ hpush, hkd.symm, by rw [Kernel.size, hkw, hwlen], hrel⟩

theorem Hands.loop_eq {g : FlatGraph} {k : Kernel} (h : R.Hands g k) :
    ∃ final completed, indexedLoop k.priorWeights k.outgoing R.params k.size
        R.params.maxIterations.toNat 1 k.priorWeights = .ok (final, completed) ∧
      final.length = R.accounts.length ∧ sumNat final = SCALE.toNat ∧
      (numberAt final, completed.toNat) = k.walk.run R.params.toleranceFp.toNat
        R.params.maxIterations.toNat R.params.maxIterations.toNat k.walk.prior := by
  have hmax : R.params.maxIterations.toNat ≤ 40 := UInt32.le_iff_toNat_le.mp R.bounded.iterations_le
  obtain ⟨final, completed, hloop, hflen, hfsum, hrun⟩ := k.loop_eq h.damping (by omega)
    R.params.maxIterations.toNat 1 (Nat.add_comm 1 _) k.priorWeights rfl k.sum_prior
  exact ⟨final, completed, hloop, hflen.trans h.size, hfsum, hrun⟩

theorem Hands.calculateFlat_eq {g : FlatGraph} {k : Kernel} (h : R.Hands g k) (hnodes : g.nodes = R.nodes)
    {final : List UInt64} {completed : UInt32} (hloop : indexedLoop k.priorWeights k.outgoing R.params
      k.size R.params.maxIterations.toNat 1 k.priorWeights = .ok (final, completed)) :
    calculateFlat g R.prior R.params = .ok ⟨BTreeMap.ofEntries (R.accounts.zip final), completed⟩ := by
  unfold calculateFlat runIndexed
  rw [hnodes]
  refine bind_eq_ok.mpr ⟨k.priorWeights, h.prior, bind_eq_ok.mpr ⟨k.outgoing, h.rows, bind_eq_ok.mpr
    ⟨(final, completed), ?_, rfl⟩⟩⟩
  rw [← hloop, h.size]

theorem calculateFlat_eq {g : FlatGraph} (hnodes : g.nodes = R.nodes)
    (hedges : ∀ edge ∈ g.edges, edge.1 ∈ R.accounts ∧ edge.2.1 ∈ R.accounts)
    (hrow : ∀ a ∈ R.accounts, flatRow g.edges a = R.row a) :
    calculateFlat g R.prior R.params = .ok R.result := by
  obtain ⟨k, hk⟩ := R.exists_hands hedges hrow
  obtain ⟨final, completed, hloop, hflen, -, hrun⟩ := hk.loop_eq
  obtain ⟨hscores, hrounds⟩ := hk.relabels.run_eq hk.relabels.prior R.params.toleranceFp.toNat
    R.params.maxIterations.toNat R.params.maxIterations.toNat
  have hfinal : ∀ i, i < R.accounts.length → numberAt final i = R.final.1 (R.nameOf i) := by
    intro i hi
    have h := hscores i (Finset.mem_range.mpr (by rwa [hk.size]))
    rw [← hrun] at h
    exact h.symm
  have hcompleted : completed = UInt32.ofNat R.final.2 := by
    rw [← hrun] at hrounds
    rw [RankInput.final, hrounds, UInt32.ofNat_toNat]
  rw [hk.calculateFlat_eq R hnodes hloop, R.ofEntries_scores hflen hfinal, hcompleted]
  rfl

end RankInput

end Trustgraphs.WeightedPrior
