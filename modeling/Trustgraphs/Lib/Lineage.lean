import Mathlib

/-!
# Lineages

Lists in which the first element has no predecessor and every other element names the one before it.
Where names are unique, a lineage is determined by its last element.
-/

namespace Trustgraphs

open List

/-- Every element names its predecessor, and the first one has none. -/
structure Lineage {α ι : Type*} (name : α → ι) (prev : α → Option ι) (l : List α) : Prop where
  root : ∀ x, l.head? = some x → prev x = none
  links : l.IsChain fun p x => prev x = some (name p)

namespace Lineage

variable {α ι : Type*} {name : α → ι} {prev : α → Option ι} {l m : List α} {x y : α}

theorem singleton (h : prev x = none) : Lineage name prev [x] where
  root y hy := by
    obtain rfl : x = y := by simpa using hy
    exact h
  links := isChain_singleton x

theorem append_singleton (hl : Lineage name prev l) (hy : l.getLast? = some y)
    (hx : prev x = some (name y)) : Lineage name prev (l ++ [x]) where
  root z hz := by
    have hne : l ≠ [] := by
      rintro rfl
      simp at hy
    rw [head?_append_of_ne_nil _ hne] at hz
    exact hl.root z hz
  links := by
    refine isChain_append.mpr ⟨hl.links, isChain_singleton x, ?_⟩
    intro p hp z hz
    obtain rfl : y = p := Option.some.inj (hy.symm.trans hp)
    obtain rfl : x = z := by simpa using hz
    exact hx

theorem dropLast (hl : Lineage name prev (l ++ [x])) : Lineage name prev l where
  root y hy := by
    refine hl.root y ?_
    rw [head?_append, hy]
    rfl
  links := (isChain_append.mp hl.links).1

theorem prev_last (hl : Lineage name prev (l ++ [x])) (hy : l.getLast? = some y) : prev x = some (name y) :=
  (isChain_append.mp hl.links).2.2 y hy x rfl

theorem eq_of_getLast? (hl : Lineage name prev l) (hm : Lineage name prev m)
    (hinj : ∀ p ∈ l, ∀ q ∈ m, name p = name q → p = q) (hlast : l.getLast? = m.getLast?) : l = m := by
  induction l using List.reverseRecOn generalizing m with
  | nil =>
    rw [getLast?_nil] at hlast
    exact (getLast?_eq_none_iff.mp hlast.symm).symm
  | append_singleton l x ih =>
    rcases eq_nil_or_concat' m with rfl | ⟨m, z, rfl⟩
    · simp at hlast
    obtain rfl : x = z := by simpa using hlast
    rcases eq_nil_or_concat' l with rfl | ⟨l', y, rfl⟩
    · -- the last element is the root, so it has no predecessor in the other lineage either
      have hroot : prev x = none := hl.root x rfl
      rcases eq_nil_or_concat' m with rfl | ⟨m', z, rfl⟩
      · rfl
      · have hz := hm.prev_last (y := z) (by simp)
        rw [hroot] at hz
        simp at hz
    · have hy := hl.prev_last (y := y) (by simp)
      rcases eq_nil_or_concat' m with rfl | ⟨m', z, rfl⟩
      · have hroot : prev x = none := hm.root x rfl
        rw [hroot] at hy
        simp at hy
      · have hz := hm.prev_last (y := z) (by simp)
        have hname : name y = name z := Option.some.inj (hy.symm.trans hz)
        have hyz : y = z := hinj y (by simp) z (by simp) hname
        subst hyz
        have heq := ih (m := m' ++ [y]) hl.dropLast hm.dropLast
          (fun p hp q hq => hinj p (mem_append_left _ hp) q (mem_append_left _ hq)) (by simp)
        rw [heq]

end Lineage

end Trustgraphs
