import Trustgraphs.Lib.BTree
import Trustgraphs.Lib.Checked

/-!
# Maps of machine integers as functions to `ℕ`

`Represents m N x` says that the map `m` has the keys `N` and that its value at `k` is the number
`x k`. A loop that updates such a map is then a function update, a loop that sums it is a sum over
`N`, and the map is determined by `N` and `x` (`Represents.unique`).
-/

namespace Trustgraphs

open BTreeMap

variable {K : Type} [LinearOrder K] {w : Nat}

/-- The map holds the numbers `x` at the keys `N`. -/
structure Represents (m : BTreeMap K (BitVec w)) (N : Finset K) (x : K → ℕ) : Prop where
  mem : ∀ k, k ∈ m ↔ k ∈ N
  val : ∀ (k : K) (v : BitVec w), m[k]? = some v → v.toNat = x k

namespace Represents

variable {m m' : BTreeMap K (BitVec w)} {N : Finset K} {x y : K → ℕ}

theorem get (h : Represents m N x) {k : K} (hk : k ∈ N) : ∃ v, m[k]? = some v ∧ v.toNat = x k := by
  obtain ⟨v, hv⟩ := mem_iff_getElem?.mp ((h.mem k).mpr hk)
  exact ⟨v, hv, h.val k v hv⟩

theorem get_none (h : Represents m N x) {k : K} (hk : k ∉ N) : m[k]? = none :=
  not_mem_iff_getElem?.mp fun hm => hk ((h.mem k).mp hm)

theorem congr (h : Represents m N x) (hxy : ∀ k ∈ N, x k = y k) : Represents m N y where
  mem := h.mem
  val k v hv := (h.val k v hv).trans (hxy k ((h.mem k).mp (mem_iff_getElem?.mpr ⟨v, hv⟩)))

theorem unique (h : Represents m N x) (h' : Represents m' N x) : m = m' := by
  apply ext_getElem?
  intro k
  by_cases hk : k ∈ N
  · obtain ⟨v, hv, e⟩ := h.get hk
    obtain ⟨v', hv', e'⟩ := h'.get hk
    rw [hv, hv', BitVec.eq_of_toNat_eq (e.trans e'.symm)]
  · rw [h.get_none hk, h'.get_none hk]

theorem dom_eq (h : Represents m N x) : BTreeMap.dom m = N := by
  ext k
  rw [mem_dom, h.mem]

theorem insert (h : Represents m N x) {k : K} (hk : k ∈ N) {v : BitVec w} :
    Represents (m.insert k v) N (Function.update x k v.toNat) where
  mem a := by
    rw [Std.ExtTreeMap.mem_insert, compare_eq_iff_eq, h.mem]
    constructor
    · rintro (rfl | ha)
      · exact hk
      · exact ha
    · exact .inr
  val a u ha := by
    rw [BTreeMap.getElem?_insert] at ha
    by_cases hka : k = a
    · subst hka
      rw [if_pos rfl, Option.some_inj] at ha
      rw [Function.update_self, ha]
    · rw [if_neg hka] at ha
      rw [Function.update_of_ne (Ne.symm hka), h.val a u ha]

theorem insert_key (h : Represents m N x) {k : K} {v : BitVec w} (hv : v.toNat = x k) :
    Represents (m.insert k v) (Insert.insert k N) x where
  mem a := by
    rw [Std.ExtTreeMap.mem_insert, compare_eq_iff_eq, h.mem, Finset.mem_insert]
    exact or_congr_left eq_comm
  val a u ha := by
    rw [BTreeMap.getElem?_insert] at ha
    by_cases hka : k = a
    · rw [if_pos hka, Option.some_inj] at ha
      rw [← ha, hv, hka]
    · rw [if_neg hka] at ha
      exact h.val a u ha

theorem empty : Represents (∅ : BTreeMap K (BitVec w)) ∅ x where
  mem a := by simp
  val a u ha := absurd ha (by simp)

theorem tabulate {l : List K} {f : K → BitVec w} (hN : ∀ k, k ∈ l ↔ k ∈ N)
    (hf : ∀ k ∈ l, (f k).toNat = x k) : Represents (BTreeMap.tabulate l f) N x where
  mem k := by rw [mem_tabulate, hN]
  val k v hv := by
    rw [BTreeMap.getElem?_tabulate] at hv
    by_cases hk : k ∈ l
    · rw [if_pos hk, Option.some_inj] at hv
      rw [← hv, hf k hk]
    · rw [if_neg hk] at hv
      exact absurd hv (by simp)

theorem tabulateM {l : List K} {f : K → Option (BitVec w)} (hN : ∀ k, k ∈ l ↔ k ∈ N)
    (hf : ∀ k ∈ N, ∃ v, f k = some v ∧ v.toNat = x k) :
    ∃ m, BTreeMap.tabulateM l f = some m ∧ Represents m N x := by
  classical
  let g : K → BitVec w := fun k => (f k).getD 0
  have hg : ∀ k ∈ l, f k = some (g k) := by
    intro k hk
    obtain ⟨v, hv, -⟩ := hf k ((hN k).mp hk)
    simp [g, hv]
  refine ⟨_, tabulateM_eq_some hg, tabulate hN fun k hk => ?_⟩
  obtain ⟨v, hv, e⟩ := hf k ((hN k).mp hk)
  simp [g, hv, e]

theorem sum_toNat (h : Represents m N x) : ((m.toList.map Prod.snd).map BitVec.toNat).sum = ∑ k ∈ N, x k := by
  rw [← h.dom_eq, List.map_map]
  exact sum_toList m (fun _ v => v.toNat) x h.val

theorem sum_eq_some (h : Represents m N x) (hx : ∑ k ∈ N, x k < 2 ^ w) :
    ∃ s, Checked.sum (m.toList.map Prod.snd) = some s ∧ s.toNat = ∑ k ∈ N, x k := by
  obtain ⟨s, hs, e⟩ := Checked.sum_isSome (l := m.toList.map Prod.snd) (by rwa [h.sum_toNat])
  exact ⟨s, hs, e.trans h.sum_toNat⟩

theorem isEmpty_iff (h : Represents m N x) : m.isEmpty = true ↔ N = ∅ := by
  rw [Std.ExtTreeMap.isEmpty_iff, ← h.dom_eq]
  constructor
  · rintro rfl
    ext k
    simp
  · intro he
    apply ext_getElem?
    intro k
    have hk : k ∉ m := fun hm => by
      have := mem_dom.mpr hm
      rw [he] at this
      exact Finset.notMem_empty k this
    rw [not_mem_iff_getElem?.mp hk]
    simp

end Represents

end Trustgraphs
