import Trustgraphs.CompositionCore.Compute
import Trustgraphs.Lib.Hamilton

/-!
# The allocation of a composition is a Hamilton apportionment

`apportion` succeeds exactly when the values are positive and sum to the denominator (`apportion_rows`,
`valid_of_apportion`), and over distinct keys every item gets the share of its key (`apportion_shares`).
-/

namespace Trustgraphs.Composition

open Outcome Hamilton Checked List

theorem orOverflow_eq_ok {α : Type} {o : Option α} {a : α} : orOverflow o = .ok a ↔ o = some a := by
  cases o with
  | none => simp [orOverflow, reject]
  | some b => simp [orOverflow]

variable {K : Type}

def sumOf (items : List (K × U128)) : ℕ := (items.map fun item => item.2.toNat).sum

variable {items : List (K × U128)}

theorem le_sumOf {item : K × U128} (h : item ∈ items) : item.2.toNat ≤ sumOf items :=
  single_le_sum (fun _ _ => Nat.zero_le _) _
    (mem_map_of_mem (f := fun item : K × U128 => item.2.toNat) h)

/-- Values that may be allocated by: at least one, all of them positive. -/
structure Positive (items : List (K × U128)) : Prop where
  ne_nil : items ≠ []
  pos : ∀ item ∈ items, item.2 ≠ 0

theorem Positive.sum_pos (h : Positive items) : 0 < sumOf items := by
  obtain ⟨item, hitem⟩ := exists_mem_of_ne_nil items h.ne_nil
  have hle := le_sumOf hitem
  have hne : item.2.toNat ≠ 0 := fun h0 => h.pos item hitem (BitVec.eq_of_toNat_eq h0)
  omega

theorem positiveSum_eq_ok {s : U128} :
    positiveSum items = .ok s ↔ (∀ item ∈ items, item.2 ≠ 0) ∧ s.toNat = sumOf items := by
  unfold positiveSum sumOf
  suffices h : ∀ a : U128, items.foldlM (fun sum item =>
      if item.2 = 0 then reject .invalidHamiltonInputs else orOverflow (add sum item.2)) a =
        .ok s ↔ (∀ item ∈ items, item.2 ≠ 0) ∧ s.toNat = a.toNat + (items.map fun item => item.2.toNat).sum by
    have := h 0
    rwa [show (0 : U128).toNat = 0 from rfl, Nat.zero_add] at this
  induction items with
  | nil =>
    intro a
    rw [foldlM_nil, map_nil, sum_nil, Nat.add_zero, BitVec.toNat_inj]
    constructor
    · intro h
      exact ⟨fun item hitem => absurd hitem not_mem_nil, (ok_inj h).symm⟩
    · rintro ⟨-, rfl⟩
      rfl
  | cons item items ih =>
    intro a
    rw [foldlM_cons, bind_eq_ok, map_cons, sum_cons]
    constructor
    · rintro ⟨b, hb, h⟩
      obtain ⟨hne, hadd⟩ := of_guard hb
      have hb := add_eq_some.mp (orOverflow_eq_ok.mp hadd)
      obtain ⟨hpos, hs⟩ := (ih b).mp h
      exact ⟨forall_mem_cons.mpr ⟨hne, hpos⟩, by omega⟩
    · rintro ⟨hpos, hs⟩
      obtain ⟨hne, hpos⟩ := forall_mem_cons.mp hpos
      have hlt := s.isLt
      obtain ⟨b, hadd, hb⟩ := add_isSome (a := a) (b := item.2) (by omega)
      exact ⟨b, ite_error_eq_ok.mpr ⟨hne, orOverflow_eq_ok.mpr hadd⟩, (ih b).mpr ⟨hpos, by omega⟩⟩

def floorRow (pool denominator : U128) (item : K × U128) : Apportioned K where
  key := item.1
  allocation := BitVec.ofNat 128 (item.2.toNat * pool.toNat / denominator.toNat)
  remainder := BitVec.ofNat 256 (item.2.toNat * pool.toNat % denominator.toNat)

section FloorRow

variable {pool denominator : U128} {item : K × U128}

theorem floor_le_pool (h : item.2.toNat ≤ denominator.toNat) :
    item.2.toNat * pool.toNat / denominator.toNat ≤ pool.toNat :=
  Nat.div_le_of_le_mul (Nat.mul_le_mul_right _ h)

theorem toNat_allocation (h : item.2.toNat ≤ denominator.toNat) :
    (floorRow pool denominator item).allocation.toNat = item.2.toNat * pool.toNat / denominator.toNat := by
  have hle := @floor_le_pool _ pool _ _ h
  have hlt := pool.isLt
  exact (BitVec.toNat_ofNat ..).trans (Nat.mod_eq_of_lt (by omega))

theorem toNat_remainder (hd : denominator ≠ 0) : (floorRow pool denominator item).remainder.toNat =
      item.2.toNat * pool.toNat % denominator.toNat := by
  have hpos : 0 < denominator.toNat := Nat.pos_of_ne_zero fun h => hd (BitVec.eq_of_toNat_eq h)
  have hlt := Nat.mod_lt (item.2.toNat * pool.toNat) hpos
  have hd' := denominator.isLt
  exact (BitVec.toNat_ofNat ..).trans (Nat.mod_eq_of_lt (by omega))

theorem floorShare_eq (h : item.2.toNat ≤ denominator.toNat) :
    floorShare pool denominator item = .ok (floorRow pool denominator item) := by
  have hwide : ∀ a : U128, (a.setWidth 256).toNat = a.toNat := by
    intro a
    have ha := a.isLt
    rw [BitVec.toNat_setWidth]
    exact Nat.mod_eq_of_lt (by omega)
  have hp := pool.isLt
  have hv := item.2.isLt
  have hprod : pool.toNat * item.2.toNat < 2 ^ 256 := by
    have := Nat.mul_le_mul (Nat.le_of_lt_succ hp) (Nat.le_of_lt_succ hv)
    omega
  obtain ⟨numerator, hnumerator⟩ := exists_toNat (w := 256) hprod
  have hquot : (numerator / denominator.setWidth 256).toNat =
      item.2.toNat * pool.toNat / denominator.toNat := by
    rw [BitVec.toNat_udiv, hnumerator, hwide, Nat.mul_comm]
  have hrem : (numerator % denominator.setWidth 256).toNat = item.2.toNat * pool.toNat % denominator.toNat := by
    rw [BitVec.toNat_umod, hnumerator, hwide, Nat.mul_comm]
  have hle := @floor_le_pool _ pool _ _ h
  unfold floorShare
  refine bind_eq_ok.mpr ⟨numerator, orOverflow_eq_ok.mpr (mul_eq_some.mpr ?_), ite_error_eq_ok.mpr ⟨?_, ?_⟩⟩
  · rw [hnumerator, hwide, hwide]
  · rw [BitVec.lt_def, hquot, hwide]
    show ¬ 2 ^ 128 - 1 < _
    omega
  · refine congrArg Except.ok (Apportioned.ext rfl ?_ ?_)
    · refine BitVec.eq_of_toNat_eq ?_
      rw [BitVec.toNat_setWidth, hquot]
      exact (BitVec.toNat_ofNat ..).symm
    · refine BitVec.eq_of_toNat_eq ?_
      have hlt := (numerator % denominator.setWidth 256).isLt
      rw [hrem] at hlt
      rw [hrem]
      exact ((BitVec.toNat_ofNat ..).trans (Nat.mod_eq_of_lt hlt)).symm

theorem mapM_floorShare {items : List (K × U128)} (h : ∀ item ∈ items, item.2.toNat ≤ denominator.toNat) :
    items.mapM (floorShare pool denominator) = .ok (items.map (floorRow pool denominator)) := by
  rw [mapM_eq_ok, forall₂_map_right_iff, forall₂_same]
  exact fun item hitem => floorShare_eq (h item hitem)

end FloorRow

def Apportioned.bump (row : Apportioned K) : Apportioned K := { row with allocation := row.allocation + 1 }

theorem giveUnit_eq {rows : List (Apportioned K)} {i : ℕ} (h : i < rows.length)
    (hfits : rows[i].allocation.toNat + 1 < 2 ^ 128) :
    giveUnit rows i = .ok (rows.set i rows[i].bump) := by
  obtain ⟨allocation, hadd, -⟩ := add_isSome (a := rows[i].allocation) (b := 1) hfits
  have hsum : allocation = rows[i].allocation + 1 := by
    unfold add at hadd
    split at hadd
    · exact (Option.some_inj.mp hadd).symm
    · exact absurd hadd (by simp)
  unfold giveUnit
  refine bind_eq_ok.mpr ⟨rows[i], ofPanic_eq_ok.mpr (getElem?_eq_getElem h),
    bind_eq_ok.mpr ⟨allocation, orOverflow_eq_ok.mpr hadd, ?_⟩⟩
  rw [hsum]
  rfl

variable [LinearOrder K]

theorem servedFirst_iff {a b : Apportioned K} : servedFirst a b = true ↔
    NotAfter (a.remainder.toNat, a.key) (b.remainder.toNat, b.key) := by
  simp only [NotAfter, servedFirst, Bool.or_eq_true, Bool.and_eq_true, decide_eq_true_eq, beq_iff_eq,
    BitVec.lt_def, BitVec.toNat_inj]

theorem servedFirst_total (a b : Apportioned K) : servedFirst a b = true ∨ servedFirst b a = true := by
  rw [servedFirst_iff, servedFirst_iff]
  exact NotAfter.total _ _

theorem servedFirst_trans (a b c : Apportioned K) (h : servedFirst a b = true)
    (h' : servedFirst b c = true) : servedFirst a c = true := by
  rw [servedFirst_iff] at h h' ⊢
  exact h.trans h'

def keysOf (items : List (K × U128)) : Finset K := (items.map Prod.fst).toFinset

def valueOf (items : List (K × U128)) (k : K) : ℕ :=
  ((items.find? fun item => item.1 = k).map fun item => item.2.toNat).getD 0

def shareOf (items : List (K × U128)) (pool : ℕ) (k : K) : ℕ := share (keysOf items) (valueOf items) pool k

section Shares

variable {items : List (K × U128)} (hkeys : (items.map Prod.fst).Nodup)
include hkeys

theorem valueOf_eq {item : K × U128} (h : item ∈ items) : valueOf items item.1 = item.2.toNat := by
  unfold valueOf
  cases hf : items.find? fun e => e.1 = item.1 with
  | none => exact absurd (find?_eq_none.mp hf item h) (by simp)
  | some e =>
    have he := mem_of_find?_eq_some hf
    have hkey : e.1 = item.1 := by simpa using find?_some hf
    rw [inj_on_of_nodup_map hkeys he h hkey]
    rfl

theorem sum_keysOf (g : K → ℕ) : ∑ k ∈ keysOf items, g k = (items.map fun item => g item.1).sum := by
  rw [keysOf, sum_toFinset _ hkeys, map_map]
  rfl

theorem total_valueOf : total (keysOf items) (valueOf items) = sumOf items := by
  rw [total, sum_keysOf hkeys]
  refine congrArg List.sum (map_congr_left fun item hitem => ?_)
  exact valueOf_eq hkeys hitem

theorem sum_shareOf (hpos : Positive items) (pool : ℕ) :
    (items.map fun item => shareOf items pool item.1).sum = pool := by
  rw [← sum_keysOf hkeys]
  refine sum_share ?_
  rw [total_valueOf hkeys]
  exact hpos.sum_pos

end Shares

section Allocation

variable {items : List (K × U128)} {pool denominator : U128}

omit [LinearOrder K] in
theorem le_denominator (hsum : denominator.toNat = sumOf items) {item : K × U128} (h : item ∈ items) :
    item.2.toNat ≤ denominator.toNat := by
  rw [hsum]
  exact le_sumOf h

def residualOf (items : List (K × U128)) (pool denominator : ℕ) : ℕ :=
  pool - (items.map fun item => item.2.toNat * pool / denominator).sum

def served (items : List (K × U128)) (pool denominator : U128) : List ℕ :=
  (((items.map (floorRow pool denominator)).zipIdx.insertionSort fun a b => servedFirst a.1 b.1).map
    Prod.snd).take (residualOf items pool.toNat denominator.toNat)

theorem served_perm : (((items.map (floorRow pool denominator)).zipIdx.insertionSort fun a b =>
      servedFirst a.1 b.1).map Prod.snd).Perm (List.range items.length) := by
  have h := (perm_insertionSort (fun a b : Apportioned K × ℕ => servedFirst a.1 b.1 = true)
    (items.map (floorRow pool denominator)).zipIdx).map Prod.snd
  rwa [zipIdx_map_snd, length_map, ← range_eq_range'] at h

theorem served_nodup : (served items pool denominator).Nodup :=
  (take_sublist _ _).nodup (served_perm.nodup_iff.mpr nodup_range)

theorem lt_of_served {i : ℕ} (h : i ∈ served items pool denominator) : i < items.length :=
  mem_range.mp (served_perm.mem_iff.mp (mem_of_mem_take h))

variable (hpos : Positive items) (hsum : denominator.toNat = sumOf items)
include hpos hsum

/-- Positive values that sum to the denominator are always allocated: every row gets its floor, and those
that are served a unit more. -/
theorem apportion_rows : apportion pool denominator items =
    .ok (((items.map (floorRow pool denominator)).mapIdx fun i row =>
      if i ∈ served items pool denominator then row.bump else row).insertionSort
        fun a b => a.key ≤ b.key) := by
  obtain ⟨rows, hrows⟩ : ∃ rows, rows = items.map (floorRow pool denominator) := ⟨_, rfl⟩
  have hlen : rows.length = items.length := by rw [hrows, length_map]
  have hne : denominator ≠ 0 := by
    rintro rfl
    exact absurd hpos.sum_pos (by rw [← hsum]; exact lt_irrefl 0)
  have halloc : ∀ i (h : i < items.length) (h' : i < rows.length), rows[i].allocation.toNat =
      items[i].2.toNat * pool.toNat / denominator.toNat := by
    intro i h h'
    simp only [hrows, getElem_map]
    exact toNat_allocation (le_denominator hsum (getElem_mem h))
  -- the floors do not exceed the pool, and what is missing is less than one unit for each item
  have hfloors : ((rows.map Apportioned.allocation).map BitVec.toNat).sum =
      (items.map fun item => item.2.toNat * pool.toNat / denominator.toNat).sum := by
    rw [hrows, map_map, map_map]
    refine congrArg List.sum (map_congr_left fun item hitem => ?_)
    exact toNat_allocation (le_denominator hsum hitem)
  have hscores : (items.map fun item => item.2.toNat * pool.toNat / denominator.toNat) =
      (items.map fun item => item.2.toNat).map fun s =>
        s * pool.toNat / (items.map fun item => item.2.toNat).sum := by
    rw [hsum, map_map]
    rfl
  have hle : (items.map fun item => item.2.toNat * pool.toNat / denominator.toNat).sum ≤ pool.toNat := by
    rw [hscores]
    exact Apportion.sum_floor_le pool.toNat _ hpos.sum_pos
  have hmissing : residualOf items pool.toNat denominator.toNat < items.length := by
    have h := Apportion.missing_lt pool.toNat _ hpos.sum_pos
    rw [length_map] at h
    rw [residualOf, hscores]
    exact h
  have hpool := pool.isLt
  obtain ⟨allocated, hallocated, hallocatedNat⟩ := sum_isSome
    (l := rows.map Apportioned.allocation) (by rw [hfloors]; omega)
  obtain ⟨residual, hsub, hresidual⟩ := sub_isSome (a := pool) (b := allocated)
    (by rw [hallocatedNat, hfloors]; exact hle)
  rw [hallocatedNat, hfloors] at hresidual
  -- a unit more fits where one is left
  have hfits : ∀ i ∈ served items pool denominator, ∀ h' : i < rows.length,
      rows[i].allocation.toNat + 1 < 2 ^ 128 := by
    intro i hi h'
    have h := lt_of_served hi
    have hleft : 0 < residualOf items pool.toNat denominator.toNat := by
      by_contra hnot
      rw [served, Nat.eq_zero_of_not_pos hnot, take_zero] at hi
      exact absurd hi not_mem_nil
    have hmem := single_le_sum (fun _ _ => Nat.zero_le _) _
      (mem_map_of_mem (f := fun item : K × U128 => item.2.toNat * pool.toNat / denominator.toNat)
        (getElem_mem h))
    rw [halloc i h h']
    unfold residualOf at hleft
    omega
  have hgive : (served items pool denominator).foldlM giveUnit rows =
      .ok (rows.mapIdx fun i row => if i ∈ served items pool denominator then row.bump else row) := by
    refine foldlM_set served_nodup (fun i hi => by rw [hlen]; exact lt_of_served hi) ?_
    intro l i hi h hget
    have h' : i < rows.length := by rw [hlen]; exact lt_of_served hi
    rw [getElem?_eq_getElem h, getElem?_eq_getElem h', Option.some_inj] at hget
    exact giveUnit_eq h (by rw [hget]; exact hfits i hi h')
  unfold apportion
  rw [if_neg (by
    rw [not_or, List.isEmpty_iff]
    exact ⟨hne, hpos.ne_nil⟩)]
  refine bind_eq_ok.mpr ⟨denominator, positiveSum_eq_ok.mpr ⟨hpos.pos, hsum⟩,
    ite_error_eq_ok.mpr ⟨not_not.mpr rfl, bind_eq_ok.mpr ⟨rows, ?_,
      bind_eq_ok.mpr ⟨allocated, orOverflow_eq_ok.mpr hallocated,
        bind_eq_ok.mpr ⟨residual, orOverflow_eq_ok.mpr hsub,
          ite_error_eq_ok.mpr ⟨?_, bind_eq_ok.mpr ⟨_, ?_, rfl⟩⟩⟩⟩⟩⟩⟩
  · rw [hrows]
    exact mapM_floorShare fun item hitem => le_denominator hsum hitem
  · rw [not_lt, hresidual, hlen]
    exact hmissing.le
  · rw [← hrows, ← hgive, served, hrows, residualOf, hresidual]

variable (hkeys : (items.map Prod.fst).Nodup)
include hkeys

/-- The allocation exists, ascends by key and gives every key its share. -/
theorem apportion_shares : ∃ rows, apportion pool denominator items = .ok rows ∧
    rows.map Apportioned.key = (items.map Prod.fst).insertionSort (· ≤ ·) ∧
    ∀ row ∈ rows, row.allocation.toNat = shareOf items pool.toNat row.key := by
  obtain ⟨rows, hrows⟩ : ∃ rows, rows = items.map (floorRow pool denominator) := ⟨_, rfl⟩
  have hlen : rows.length = items.length := by rw [hrows, length_map]
  have hrowKeys : rows.map Apportioned.key = items.map Prod.fst := by
    rw [hrows, map_map]
    rfl
  have hkeySet : (rows.map Apportioned.key).toFinset = keysOf items := by rw [hrowKeys, keysOf]
  have hne : denominator ≠ 0 := by
    rintro rfl
    exact absurd hpos.sum_pos (by rw [← hsum]; exact lt_irrefl 0)
  have htotal : total (keysOf items) (valueOf items) = denominator.toNat := by
    rw [total_valueOf hkeys, hsum]
  -- the row of a position holds the floor and the remainder of its key
  have hrow : ∀ i (h : i < rows.length), ∃ item ∈ items, rows[i].key = item.1 ∧
      rows[i].allocation.toNat = floor (keysOf items) (valueOf items) pool.toNat rows[i].key ∧
      rows[i].remainder.toNat = remainder (keysOf items) (valueOf items) pool.toNat rows[i].key := by
    intro i h
    have h' : i < items.length := by rwa [hlen] at h
    have hmem := getElem_mem h'
    have hrow : rows[i] = floorRow pool denominator items[i] := by simp only [hrows, getElem_map]
    refine ⟨items[i], hmem, by rw [hrow]; rfl, ?_, ?_⟩
    · rw [hrow, toNat_allocation (le_denominator hsum hmem), floor, htotal]
      exact congrArg (· * _ / _) (valueOf_eq hkeys hmem).symm
    · rw [hrow, toNat_remainder hne, remainder, htotal]
      exact congrArg (· * _ % _) (valueOf_eq hkeys hmem).symm
  obtain ⟨taken, -, -, htaken, hshares⟩ := exists_served (l := rows) (g := Apportioned.key)
    (r := fun a b => servedFirst a.1 b.1) (f := valueOf items) (u := pool.toNat)
    (by rw [hrowKeys]; exact hkeys) (fun a b => servedFirst_total a.1 b.1)
    (fun a b c => servedFirst_trans a.1 b.1 c.1) (fun i j hi hj hij h => by
      obtain ⟨-, -, -, -, hri⟩ := hrow i hi
      obtain ⟨-, -, -, -, hrj⟩ := hrow j hj
      rw [servedFirst_iff, hri, hrj] at h
      rw [hkeySet]
      rw [← hrowKeys] at hkeys
      exact h.before fun heq => hij (index_eq_of_key hkeys hi hj heq))
  rw [hkeySet] at htaken hshares
  have hresidual : residualOf items pool.toNat denominator.toNat =
      missing (keysOf items) (valueOf items) pool.toNat := by
    rw [residualOf, missing, sum_keysOf hkeys]
    refine congrArg (_ - List.sum ·) (map_congr_left fun item hitem => ?_)
    rw [floor, htotal, valueOf_eq hkeys hitem]
  have hserved : served items pool denominator = taken := by rw [served, ← hrows, hresidual, htaken]
  obtain ⟨final, hfinal⟩ : ∃ final, final =
      rows.mapIdx fun i row => if i ∈ taken then row.bump else row := ⟨_, rfl⟩
  have hflen : final.length = rows.length := by rw [hfinal, length_mapIdx]
  have hfinalAt : ∀ i (h : i < final.length) (h' : i < rows.length), final[i].key = rows[i].key ∧
      final[i].allocation.toNat = shareOf items pool.toNat final[i].key := by
    intro i h h'
    obtain ⟨item, hitem, hkey, hfloor, -⟩ := hrow i h'
    have hshare := hshares i h'
    rw [← hfloor] at hshare
    simp only [hfinal, getElem_mapIdx]
    by_cases hi : i ∈ taken
    · rw [if_pos hi] at hshare ⊢
      refine ⟨rfl, ?_⟩
      show (rows[i].allocation + 1).toNat = share (keysOf items) (valueOf items) pool.toNat rows[i].key
      have hle : share (keysOf items) (valueOf items) pool.toNat rows[i].key ≤ pool.toNat := by
        refine share_le (by rw [total_valueOf hkeys]; exact hpos.sum_pos) ?_
        rw [hkey, keysOf, mem_toFinset]
        exact mem_map_of_mem hitem
      have hpool := pool.isLt
      rw [hshare, BitVec.toNat_add]
      exact Nat.mod_eq_of_lt (by show _ + 1 < _; omega)
    · rw [if_neg hi] at hshare ⊢
      exact ⟨rfl, hshare.symm⟩
  have hfinalKeys : final.map Apportioned.key = items.map Prod.fst := by
    rw [← hrowKeys]
    refine ext_getElem (by simp [hflen]) fun i h h' => ?_
    rw [getElem_map, getElem_map]
    simp only [length_map] at h h'
    exact (hfinalAt i h h').1
  refine ⟨final.insertionSort fun a b => a.key ≤ b.key, ?_, ?_, ?_⟩
  · rw [apportion_rows hpos hsum, ← hrows, hserved, hfinal]
  · rw [← hfinalKeys]
    exact map_insertionSort _ _ _ _ fun a _ b _ => Iff.rfl
  · intro row hmem
    have hmem := (perm_insertionSort _ _).mem_iff.mp hmem
    obtain ⟨i, hi, rfl⟩ := mem_iff_getElem.mp hmem
    exact (hfinalAt i hi (by rw [← hflen]; exact hi)).2

omit hkeys in
theorem apportion_eq (hkeys : (items.map Prod.fst).Pairwise (· < ·)) :
    ∃ rows, apportion pool denominator items = .ok rows ∧ rows.map Apportioned.key = items.map Prod.fst ∧
      rows.map (fun row => row.allocation.toNat) = items.map fun item => shareOf items pool.toNat item.1 := by
  obtain ⟨rows, hok, hrowKeys, hshares⟩ :=
    @apportion_shares _ _ _ pool _ hpos hsum (hkeys.imp fun h => h.ne)
  rw [List.Pairwise.insertionSort_eq (hkeys.imp fun h => h.le)] at hrowKeys
  refine ⟨rows, hok, hrowKeys, ?_⟩
  rw [map_congr_left hshares]
  have h := congrArg (List.map (shareOf items pool.toNat)) hrowKeys
  rwa [map_map, map_map] at h

omit hkeys hpos hsum in
theorem share_of_mem {rows : List (Apportioned K)} {pool : ℕ}
    (hkeys : rows.map Apportioned.key = items.map Prod.fst)
    (hshares : rows.map (fun row => row.allocation.toNat) =
      items.map fun item => shareOf items pool item.1) {row : Apportioned K} (h : row ∈ rows) :
    row.key ∈ items.map Prod.fst ∧ row.allocation.toNat = shareOf items pool row.key := by
  refine ⟨hkeys ▸ mem_map_of_mem h, ?_⟩
  obtain ⟨i, hi, rfl⟩ := mem_iff_getElem.mp h
  have hkeyAt := getElem_of_eq hkeys (by simpa using hi)
  have hshareAt := getElem_of_eq hshares (by simpa using hi)
  rw [getElem_map, getElem_map] at hkeyAt hshareAt
  rw [hkeyAt, hshareAt]

end Allocation

end Trustgraphs.Composition
