import Trustgraphs.Lib.Bytes

/-!
# Sums over a mapping

There are finitely many byte arrays of a length, so a mapping from them to numbers has a sum. It changes
by what an entry changes.
-/

namespace Trustgraphs

namespace FixedBytes

variable {n : Nat}

instance : Finite (FixedBytes n) :=
  Finite.of_injective (fun a i => a.bytes.get (i.cast a.size.symm) : FixedBytes n → Fin n → UInt8) <| by
    intro a b h
    refine FixedBytes.ext (List.ext_get (a.size.trans b.size.symm) fun i ha hb => ?_)
    exact congrFun h ⟨i, ha.trans_eq a.size⟩

/-- Not an instance: a search through all arrays decides nothing. -/
@[reducible] noncomputable def fintype : Fintype (FixedBytes n) := Fintype.ofFinite _

end FixedBytes

namespace Ledger

variable {K : Type*} [Fintype K] [DecidableEq K] {f g : K → ℕ} {k : K} {x : ℕ}

theorem sum_grown (h : ∀ i, g i = f i + if i = k then x else 0) : ∑ i, g i = ∑ i, f i + x := by
  rw [Finset.sum_congr rfl fun i _ => h i, Finset.sum_add_distrib, Finset.sum_ite_eq']
  simp

theorem sum_shrunk (h : ∀ i, g i + (if i = k then x else 0) = f i) : ∑ i, g i + x = ∑ i, f i :=
  (sum_grown fun i => (h i).symm).symm

theorem sum_changed (h : ∀ i, i ≠ k → g i = f i) : ∑ i, g i + f k = ∑ i, f i + g k := by
  have hrest : ∑ i ∈ Finset.univ.erase k, g i = ∑ i ∈ Finset.univ.erase k, f i :=
    Finset.sum_congr rfl fun i hi => h i (Finset.ne_of_mem_erase hi)
  rw [← Finset.sum_erase_add _ g (Finset.mem_univ k), ← Finset.sum_erase_add _ f (Finset.mem_univ k), hrest]
  omega

theorem sum_set {α : Type} (f : α → ℕ) {l : List α} {i : ℕ} {a b : α} (h : l[i]? = some a) :
    ((l.set i b).map f).sum + f a = (l.map f).sum + f b := by
  induction l generalizing i with
  | nil => exact nomatch h
  | cons c l ih =>
    cases i with
    | zero =>
      obtain rfl : c = a := Option.some.inj h
      simp only [List.set_cons_zero, List.map_cons, List.sum_cons]
      omega
    | succ i =>
      have hrest := ih (i := i) h
      simp only [List.set_cons_succ, List.map_cons, List.sum_cons]
      omega

end Ledger

end Trustgraphs
