import Mathlib

/-!
# Hash chains

A chain folds a list into an accumulator. When the step is injective on the pairs it is applied to
and never returns the start value, the accumulator determines the list: its length, its order and
every item (`foldl_injective`).
-/

namespace Trustgraphs.HashChain

open List

variable {A L : Type*}

/-- The accumulator and item pairs that a fold over `xs` steps through. -/
def steps (f : A → L → A) : A → List L → List (A × L)
  | _, [] => []
  | a, x :: xs => (a, x) :: steps f (f a x) xs

@[simp]
theorem steps_nil (f : A → L → A) (a : A) : steps f a [] = [] := rfl

@[simp]
theorem steps_cons (f : A → L → A) (a : A) (x : L) (xs : List L) :
    steps f a (x :: xs) = (a, x) :: steps f (f a x) xs := rfl

theorem steps_append (f : A → L → A) (a : A) (xs ys : List L) :
    steps f a (xs ++ ys) = steps f a xs ++ steps f (xs.foldl f a) ys := by
  induction xs generalizing a with
  | nil => rfl
  | cons x xs ih => simp [ih]

/-- The step is injective on the pairs of `S` and leaves the start value behind. -/
structure Injective (f : A → L → A) (start : A) (S : List (A × L)) : Prop where
  inj : ∀ p ∈ S, ∀ q ∈ S, f p.1 p.2 = f q.1 q.2 → p = q
  ne_start : ∀ p ∈ S, f p.1 p.2 ≠ start

/-- A chain of an injective step fixes its items. -/
theorem foldl_injective {f : A → L → A} {start : A} (xs ys : List L)
    (h : Injective f start (steps f start xs ++ steps f start ys))
    (e : xs.foldl f start = ys.foldl f start) : xs = ys := by
  induction xs using List.reverseRecOn generalizing ys with
  | nil =>
    cases ys using List.reverseRecOn with
    | nil => rfl
    | append_singleton ys y =>
      rw [foldl_append] at e
      exact absurd e.symm (h.ne_start (ys.foldl f start, y) (by simp [steps_append]))
  | append_singleton xs x ih =>
    cases ys using List.reverseRecOn with
    | nil =>
      rw [foldl_append] at e
      exact absurd e (h.ne_start (xs.foldl f start, x) (by simp [steps_append]))
    | append_singleton ys y =>
      rw [foldl_append, foldl_append] at e
      have hp := h.inj (xs.foldl f start, x) (by simp [steps_append]) (ys.foldl f start, y)
        (by simp [steps_append]) e
      obtain ⟨hacc, hxy⟩ := Prod.mk.inj hp
      have hsub : ∀ p ∈ steps f start xs ++ steps f start ys,
          p ∈ steps f start (xs ++ [x]) ++ steps f start (ys ++ [y]) := by
        intro p hp
        rw [steps_append, steps_append]
        rcases mem_append.mp hp with hp | hp
        · simp [hp]
        · simp [hp]
      have hrest := ih ys ⟨fun p hp q hq => h.inj p (hsub p hp) q (hsub q hq),
        fun p hp => h.ne_start p (hsub p hp)⟩ hacc
      rw [hrest, hxy]

theorem eq_of_map_eq {f : A → L} {xs ys : List A}
    (hf : ∀ a, a ∈ xs ∨ a ∈ ys → ∀ b, b ∈ xs ∨ b ∈ ys → f a = f b → a = b)
    (h : xs.map f = ys.map f) : xs = ys := by
  induction xs generalizing ys with
  | nil => exact (map_eq_nil_iff.mp h.symm).symm
  | cons x xs ih =>
    cases ys with
    | nil => simp at h
    | cons y ys =>
      rw [map_cons, map_cons, List.cons.injEq] at h
      have hxy : x = y := hf x (by simp) y (by simp) h.1
      have hrest : xs = ys := ih (fun a ha b hb => hf a (by
        rcases ha with ha | ha <;> simp [ha]) b (by rcases hb with hb | hb <;> simp [hb])) h.2
      rw [hxy, hrest]

end Trustgraphs.HashChain
