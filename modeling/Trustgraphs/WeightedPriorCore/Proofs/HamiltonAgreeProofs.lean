import Trustgraphs.CompositionCore.Proofs.HamiltonProofs
import Trustgraphs.PagerankCore.Proofs.DistributeProofs
import Trustgraphs.WeightedPriorCore.Proofs.AllocateProofs

/-!
# The implementations of Hamilton's method agree

Four programs divide a budget: the composition (128-bit values with a quotient and a remainder), the
weighted prior by account, the weighted prior by position (with its own multiply-divide), and the
points distribution (512-bit products).
-/

namespace Trustgraphs.HamiltonAgree

open WeightedPrior Hamilton List

def accounts (items : List (Address × UInt64)) : List Address := (items.map Prod.fst).insertionSort (· ≤ ·)

def numerators (items : List (Address × UInt64)) : List UInt64 :=
  (items.insertionSort fun a b => a.1 ≤ b.1).map Prod.snd

def compositionItems (items : List (Address × UInt64)) : List (Address × U128) :=
  items.map fun item => (item.1, widen item.2)

def scores (items : List (Address × UInt64)) : List (Address × U256) :=
  items.map fun item => (item.1, BitVec.ofNat 256 item.2.toNat)

/-- All four succeed, and every account is given the same units. -/
def SameUnits (items : List (Address × UInt64)) (budget : UInt64) (denominator : U128) (scale : U256) : Prop :=
  ∃ (units : Address → ℕ) (rows : List (Composition.Apportioned Address)) (m : BTreeMap Address UInt64)
    (values : List UInt64) (assigned : List (Address × U256)),
    Composition.apportion (widen budget) denominator (compositionItems items) = .ok rows ∧
    apportion items budget denominator = .ok m ∧
    allocateIndexed (numerators items) budget denominator = .ok values ∧
    Distribute.distributePointsGeneric (scores items) scale (BitVec.ofNat 256 budget.toNat) =
      some (assigned, BitVec.ofNat 256 budget.toNat) ∧
    (rows.map fun row => (row.key, row.allocation.toNat)) = (accounts items).map (fun a => (a, units a)) ∧
    (m.toList.map fun e => (e.1, e.2.toNat)) = (accounts items).map (fun a => (a, units a)) ∧
    values.map UInt64.toNat = (accounts items).map units ∧
    (assigned.map fun e => (e.1, e.2.toNat)) =
      ((accounts items).map fun a => (a, units a)).filter fun e => e.2 ≠ 0

theorem toNat_wide (a : UInt64) : (BitVec.ofNat 256 a.toNat).toNat = a.toNat := by
  have h := a.toNat_lt
  rw [BitVec.toNat_ofNat, Nat.mod_eq_of_lt (by omega)]

section Items

variable {items : List (Address × UInt64)}

theorem compositionItems_keys : (compositionItems items).map Prod.fst = items.map Prod.fst := by
  rw [compositionItems, map_map]
  rfl

theorem scores_keys : (scores items).map Prod.fst = items.map Prod.fst := by
  rw [scores, map_map]
  rfl

theorem sumOf_compositionItems : Composition.sumOf (compositionItems items) = sumNat (items.map Prod.snd) := by
  rw [Composition.sumOf, compositionItems, map_map, sumNat, map_map]
  exact congrArg List.sum (map_congr_left fun item _ => toNat_widen item.2)

theorem sum_scores : ((scores items).map fun e => e.2.toNat).sum = sumNat (items.map Prod.snd) := by
  rw [scores, map_map, sumNat, map_map]
  exact congrArg List.sum (map_congr_left fun item _ => toNat_wide item.2)

theorem accounts_eq : accounts items = (items.insertionSort fun a b => a.1 ≤ b.1).map Prod.fst := by
  symm
  exact map_insertionSort _ _ _ _ fun _ _ _ _ => Iff.rfl

theorem mem_compositionItems {e : Address × U128} (he : e ∈ compositionItems items) :
    ∃ item ∈ items, e = (item.1, widen item.2) := by
  obtain ⟨item, hitem, rfl⟩ := mem_map.mp he
  exact ⟨item, hitem, rfl⟩

theorem accounts_perm : (accounts items).Perm (items.map Prod.fst) := perm_insertionSort _ _

theorem sumNat_numerators : sumNat (numerators items) = sumNat (items.map Prod.snd) := by
  have hperm := perm_insertionSort (fun a b : Address × UInt64 => a.1 ≤ b.1) items
  exact ((hperm.map Prod.snd).map UInt64.toNat).sum_eq

theorem sumNat_pos (hne : items ≠ []) (hpos : ∀ item ∈ items, item.2 ≠ 0) :
    0 < sumNat (items.map Prod.snd) := by
  obtain ⟨item, hitem⟩ := exists_mem_of_ne_nil items hne
  refine lt_of_lt_of_le ?_ (le_sumNat (mem_map_of_mem (f := Prod.snd) hitem))
  refine Nat.pos_of_ne_zero fun h => hpos item hitem (UInt64.toNat_inj.mp ?_)
  rw [h]
  rfl

end Items

section Shares

variable {items : List (Address × UInt64)} {denominator : U128} (hne : items ≠ [])
  (hkeys : (items.map Prod.fst).Nodup) (hpos : ∀ item ∈ items, item.2 ≠ 0)
  (hsum : denominator.toNat = sumNat (items.map Prod.snd)) {f : Address → ℕ}
  (hf : ∀ item ∈ items, f item.1 = item.2.toNat) (budget : UInt64)

include hkeys in
theorem accounts_strict : (accounts items).Pairwise (· < ·) := by
  rw [accounts_eq]
  exact pairwise_map.mpr (Distribute.sorted_of_nodup hkeys)

theorem eq_of_shares {V : Type*} {l : List V} {key : V → Address} {value : V → ℕ} {units : Address → ℕ}
    (hl : l.map key = accounts items) (hvalue : ∀ v ∈ l, value v = units (key v)) :
    (l.map fun v => (key v, value v)) = (accounts items).map fun a => (a, units a) := by
  rw [← hl, map_map]
  exact map_congr_left fun v hv => congrArg (Prod.mk _) (hvalue v hv)

include hne hkeys hpos hsum hf

theorem composition_shares : ∃ rows,
    Composition.apportion (widen budget) denominator (compositionItems items) = .ok rows ∧
      (rows.map fun row => (row.key, row.allocation.toNat)) = (accounts items).map fun a =>
        (a, share (items.map Prod.fst).toFinset f budget.toNat a) := by
  have hpositive : Composition.Positive (compositionItems items) := by
    refine ⟨fun h => hne (map_eq_nil_iff.mp h), fun e he h => ?_⟩
    obtain ⟨item, hitem, rfl⟩ := mem_compositionItems he
    refine hpos item hitem (UInt64.toNat_inj.mp ?_)
    rw [← toNat_widen, show widen item.2 = 0 from h]
    rfl
  obtain ⟨rows, hok, hrowKeys, hshares⟩ := Composition.apportion_shares hpositive
    (hsum.trans sumOf_compositionItems.symm) (by rw [compositionItems_keys]; exact hkeys)
  rw [compositionItems_keys] at hrowKeys
  refine ⟨rows, hok, eq_of_shares hrowKeys fun row hrow => ?_⟩
  have hmem : row.key ∈ (items.map Prod.fst).toFinset := by
    rw [mem_toFinset, ← accounts_perm.mem_iff, accounts, ← hrowKeys]
    exact mem_map_of_mem hrow
  rw [hshares row hrow, Composition.shareOf, Composition.keysOf, compositionItems_keys, toNat_widen]
  refine share_congr (fun a ha => ?_) hmem
  obtain ⟨item, hitem, rfl⟩ := mem_map.mp (mem_toFinset.mp ha)
  have hmem' : (item.1, widen item.2) ∈ compositionItems items :=
    mem_map_of_mem (f := fun item : Address × UInt64 => (item.1, widen item.2)) hitem
  have h := Composition.valueOf_eq (by rw [compositionItems_keys]; exact hkeys) hmem'
  rw [hf item hitem]
  exact h.trans (toNat_widen item.2)

theorem weighted_shares : ∃ m, apportion items budget denominator = .ok m ∧
    (m.toList.map fun e => (e.1, e.2.toNat)) = (accounts items).map fun a =>
      (a, share (items.map Prod.fst).toFinset f budget.toNat a) := by
  obtain ⟨values, hok, hlen, hshares⟩ := apportion_shares budget hkeys hsum (sumNat_pos hne hpos) hf
  have hzip : ((items.map Prod.fst).zip values).map Prod.fst = items.map Prod.fst :=
    map_fst_zip (by rw [length_map, hlen])
  have hperm := BTreeMap.toList_ofEntries_perm (l := (items.map Prod.fst).zip values)
    (by rw [hzip]; exact hkeys)
  refine ⟨_, hok, eq_of_shares ?_ fun e he => ?_⟩
  · have hmap := hperm.map Prod.fst
    rw [hzip] at hmap
    refine (hmap.trans accounts_perm.symm).eq_of_pairwise
      (fun a b _ _ hab hba => absurd hab (lt_asymm hba)) ?_ (accounts_strict hkeys)
    exact pairwise_map.mpr (BTreeMap.toList_sorted _)
  · obtain ⟨i, hi, rfl⟩ := mem_iff_getElem.mp (hperm.mem_iff.mp he)
    have hi' : i < items.length := by simpa [hlen] using hi
    have hvalue := hshares i hi'
    rw [numberAt_of_lt (by rwa [hlen])] at hvalue
    rw [getElem_zip, getElem_map]
    exact hvalue

theorem indexed_shares : ∃ values, allocateIndexed (numerators items) budget denominator = .ok values ∧
    values.map UInt64.toNat = (accounts items).map fun a =>
      share (items.map Prod.fst).toFinset f budget.toNat a := by
  have hperm := perm_insertionSort (fun a b : Address × UInt64 => a.1 ≤ b.1) items
  obtain ⟨values, hok, hlen, hshares⟩ := allocateIndexed_eq budget
    (hsum.trans sumNat_numerators.symm) (by rw [sumNat_numerators]; exact sumNat_pos hne hpos)
  have hnlen : (numerators items).length = (accounts items).length := by
    rw [accounts_eq, numerators, length_map, length_map]
  refine ⟨values, hok, ext_getElem (by rw [length_map, hlen, hnlen, length_map])
    fun i hi hi' => ?_⟩
  rw [length_map] at hi hi'
  have hset : (items.map Prod.fst).toFinset = (accounts items).toFinset :=
    (toFinset_eq_of_perm _ _ accounts_perm).symm
  have hvalue := hshares i (by rw [hnlen]; exact hi')
  rw [numberAt_of_lt hi, shareAt_eq_share (accounts_strict hkeys) hnlen (f := f) ?_ _ hi',
    getD_eq_getElem _ _ hi', ← hset] at hvalue
  · rw [getElem_map, getElem_map, hvalue]
  · intro j hj
    have hj' : j < (items.insertionSort fun a b => a.1 ≤ b.1).length := by
      rwa [accounts_eq, length_map] at hj
    rw [numberAt_of_lt (by rwa [hnlen]), getD_eq_getElem _ _ hj]
    simp only [accounts_eq, numerators, getElem_map]
    exact (hf _ (hperm.mem_iff.mp (getElem_mem hj'))).symm

/-- The points distribution gives the shares that are not zero. -/
theorem points_shares (scale : U256) : ∃ assigned,
    Distribute.distributePointsGeneric (scores items) scale (BitVec.ofNat 256 budget.toNat) =
      some (assigned, BitVec.ofNat 256 budget.toNat) ∧
    (assigned.map fun e => (e.1, e.2.toNat)) = ((accounts items).map fun a =>
      (a, share (items.map Prod.fst).toFinset f budget.toNat a)).filter fun e => e.2 ≠ 0 := by
  have hscores : ∀ e ∈ scores items, e.2 ≠ 0 ∧ f e.1 = e.2.toNat := by
    intro e he
    obtain ⟨item, hitem, rfl⟩ := mem_map.mp he
    refine ⟨fun h => hpos item hitem (UInt64.toNat_inj.mp ?_), ?_⟩
    · rw [← toNat_wide, show BitVec.ofNat 256 item.2.toNat = 0 from h]
      rfl
    · exact (hf item hitem).trans (toNat_wide item.2).symm
  have hnodup : ((scores items).map Prod.fst).Nodup := by rwa [scores_keys]
  have hsome : ∃ e ∈ scores items, e.2 ≠ 0 := by
    obtain ⟨item, hitem⟩ := exists_mem_of_ne_nil items hne
    have he := mem_map_of_mem (f := fun item : Address × UInt64 =>
      (item.1, BitVec.ofNat 256 item.2.toNat)) hitem
    exact ⟨_, he, (hscores _ he).1⟩
  have hf' : ∀ e ∈ scores items, f e.1 = e.2.toNat := fun e he => (hscores e he).2
  have hlt := denominator.isLt
  refine ⟨_, Distribute.distributePointsGeneric_eq hnodup scale _ hsome (by rw [sum_scores]; omega) hf', ?_⟩
  -- every score is positive, so the accounts that are ranked are all of them
  have hranked : (Distribute.ranked (scores items)).map Prod.fst = accounts items := by
    have hall : (scores items).filter (fun e => e.2 != 0) = scores items := by
      rw [filter_eq_self]
      exact fun e he => bne_iff_ne.mpr (hscores e he).1
    rw [Distribute.ranked, hall, accounts, ← scores_keys]
    exact map_insertionSort _ _ _ _ fun _ _ _ _ => Iff.rfl
  rw [scores_keys, toNat_wide]
  rw [← hranked, map_map, filter_map, filter_map, map_map]
  have hvalue : ∀ e ∈ Distribute.ranked (scores items),
      (BitVec.ofNat 256 (share (items.map Prod.fst).toFinset f budget.toNat e.1)).toNat =
        share (items.map Prod.fst).toFinset f budget.toNat e.1 := by
    intro e he
    have h := Distribute.toNat_share hnodup hf' hsome (BitVec.ofNat 256 budget.toNat)
      (Distribute.mem_ranked.mp he).1
    rwa [scores_keys, toNat_wide] at h
  have hfilter : ∀ e ∈ Distribute.ranked (scores items),
      (BitVec.ofNat 256 (share (items.map Prod.fst).toFinset f budget.toNat e.1) != 0) =
        decide (share (items.map Prod.fst).toFinset f budget.toNat e.1 ≠ 0) := by
    intro e he
    rw [Bool.eq_iff_iff, bne_iff_ne, decide_eq_true_eq, ← U256.toNat_pos, hvalue e he, Nat.pos_iff_ne_zero]
  have hcongr := filter_congr hfilter
  show List.map _ (List.filter (fun e => BitVec.ofNat 256 _ != 0) _) =
    List.map _ (List.filter (fun e => decide (_ ≠ 0)) _)
  rw [hcongr]
  refine map_congr_left fun e he => ?_
  exact congrArg (Prod.mk e.1) (hvalue e (mem_filter.mp he).1)

end Shares

/-- The four implementations give the same units, and the composition divides by every positive values
that sum to its denominator. -/
theorem hamilton_agree :
    (∀ (items : List (Address × UInt64)) (budget : UInt64) (denominator : U128) (scale : U256),
      items ≠ [] → (items.map Prod.fst).Nodup → (∀ item ∈ items, item.2 ≠ 0) →
        denominator.toNat = sumNat (items.map Prod.snd) → SameUnits items budget denominator scale) ∧
    ∀ (K : Type) [LinearOrder K] (pool denominator : U128) (items : List (K × U128)),
      items ≠ [] → (∀ item ∈ items, item.2 ≠ 0) → denominator.toNat = Composition.sumOf items →
        ∃ rows, Composition.apportion pool denominator items = .ok rows := by
  constructor
  · intro items budget denominator scale hne hkeys hpos hsum
    obtain ⟨f, hf, -⟩ := exists_numerator hkeys fun item => item.2.toNat
    obtain ⟨rows, hrows, hrowUnits⟩ := composition_shares hne hkeys hpos hsum hf budget
    obtain ⟨m, hm, hmUnits⟩ := weighted_shares hne hkeys hpos hsum hf budget
    obtain ⟨values, hvalues, hvalueUnits⟩ := indexed_shares hne hkeys hpos hsum hf budget
    obtain ⟨assigned, hassigned, hassignedUnits⟩ := points_shares hne hkeys hpos hsum hf budget scale
    exact ⟨_, rows, m, values, assigned, hrows, hm, hvalues, hassigned, hrowUnits, hmUnits, hvalueUnits,
      hassignedUnits⟩
  · intro K _ pool denominator items hne hpos hsum
    exact ⟨_, Composition.apportion_rows ⟨hne, hpos⟩ hsum⟩

/-- Equal numerators with a unit left over. -/
theorem hamilton_agree_two : SameUnits [(FixedBytes.replicate 20 2, 1), (FixedBytes.replicate 20 1, 1)] 3 2 1 ∧
      ∃ rows, Composition.apportion 3 2 [((1 : ℕ), (1 : U128)), (2, 1)] = .ok rows :=
  ⟨hamilton_agree.1 _ _ _ _ (by decide) (by decide) (by decide) (by decide),
    hamilton_agree.2 ℕ _ _ _ (by decide) (by decide) (by decide)⟩

/-- Without items the composition and the weighted prior refuse to divide. -/
theorem not_hamilton_agree_nil :
    ¬ ∀ (items : List (Address × UInt64)) (budget : UInt64) (denominator : U128) (scale : U256),
      (items.map Prod.fst).Nodup → (∀ item ∈ items, item.2 ≠ 0) →
        denominator.toNat = sumNat (items.map Prod.snd) → budget ≠ 0 →
          SameUnits items budget denominator scale := by
  intro h
  obtain ⟨_, rows, _, _, _, hrows, -⟩ :=
    h [] 1 0 1 nodup_nil (fun item hitem => absurd hitem not_mem_nil) rfl (by decide)
  exact absurd hrows (by simp [Composition.apportion, Composition.reject])

end Trustgraphs.HamiltonAgree
