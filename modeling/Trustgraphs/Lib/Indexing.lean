import Trustgraphs.Lib.Bytes
import Trustgraphs.Lib.Outcome

/-!
# Indexing that may panic

An index or a slice out of range is a panic, and so is a conversion to an array of another length. A
computation with such operations never panics when it lifts one without them (`Lifts`): both return
related values, or both fail with the same error (`Agrees`).
-/

namespace Trustgraphs.Indexing

open Outcome List

variable {E F α β γ : Type}

/-- Indexing, which panics out of bounds. -/
def index (l : List α) (i : ℕ) : Except (Abort E) α := ofPanic l[i]?

/-- The slice `start..stop`, which panics out of bounds. -/
def slice (l : List α) (start stop : ℕ) : Except (Abort E) (List α) :=
  if start ≤ stop ∧ stop ≤ l.length then .ok ((l.drop start).take (stop - start)) else .error .panic

/-- The slice `start..`, which panics out of bounds. -/
def sliceFrom (l : List α) (start : ℕ) : Except (Abort E) (List α) :=
  if start ≤ l.length then .ok (l.drop start) else .error .panic

/-- `from_slice`, or `try_into` with its result unwrapped. -/
def fromSlice (n : ℕ) (l : Bytes) : Except (Abort E) (FixedBytes n) := ofPanic (FixedBytes.ofSlice n l)

theorem index_of_getElem? {l : List α} {i : ℕ} {a : α} (h : l[i]? = some a) :
    (index l i : Except (Abort E) α) = .ok a :=
  ofPanic_eq_ok.mpr h

theorem slice_of_le {l : List α} {start stop : ℕ} (h : start ≤ stop) (h' : stop ≤ l.length) :
    (slice l start stop : Except (Abort E) (List α)) = .ok ((l.drop start).take (stop - start)) :=
  if_pos ⟨h, h'⟩

theorem sliceFrom_of_le {l : List α} {start : ℕ} (h : start ≤ l.length) :
    (sliceFrom l start : Except (Abort E) (List α)) = .ok (l.drop start) :=
  if_pos h

theorem fromSlice_of_length {n : ℕ} {l : Bytes} (h : l.length = n) :
    (fromSlice n l : Except (Abort E) (FixedBytes n)) = .ok ⟨l, h⟩ :=
  ofPanic_eq_ok.mpr (dif_pos h)

/-! ## Computations that agree -/

/-- Both computations return, related values, or both fail, with related errors. -/
def Agrees {E F α β : Type} (S : E → F → Prop) (R : α → β → Prop) : Except E α → Except F β → Prop
  | .ok a, .ok b => R a b
  | .error e, .error f => S e f
  | _, _ => False

/-- The first computation, whose operations may panic, does what the second one does. -/
abbrev Lifts {E α β : Type} (R : α → β → Prop) : Except (Abort E) α → Except E β → Prop :=
  Agrees (fun e f => e = .error f) R

namespace Agrees

variable {α' β' : Type} {S : E → F → Prop} {R : α → α' → Prop} {Q : β → β' → Prop}

theorem ok {a : α} {b : α'} (h : R a b) : Agrees S R (.ok a) (.ok b) := h

variable {f : F} {x : Except E α}

theorem error {e : E} (h : S e f) : Agrees S R (.error e) (.error f) := h

theorem of_ok {b : α'} (h : Agrees S R x (.ok b)) : ∃ a, x = .ok a ∧ R a b := by
  match x, h with
  | .ok a, h => exact ⟨a, rfl, h⟩

theorem of_error (h : Agrees S R x (.error f)) : ∃ e, x = .error e ∧ S e f := by
  match x, h with
  | .error e, h => exact ⟨e, rfl, h⟩

theorem bind {y : Except F α'} {f : α → Except E β} {g : α' → Except F β'}
    (h : Agrees S R x y) (hfg : ∀ a b, R a b → y = .ok b → Agrees S Q (f a) (g b)) :
    Agrees S Q (x >>= f) (y >>= g) := by
  match x, y, h with
  | .ok a, .ok b, h => exact hfg a b h rfl
  | .error e, .error e', h => exact h

theorem ite_error {c : Prop} [Decidable c] {e : E} {y : Except F α'} (hS : S e f)
    (h : ¬ c → Agrees S R x y) : Agrees S R (if c then .error e else x) (if c then .error f else y) := by
  by_cases hc : c
  · rw [if_pos hc, if_pos hc]
    exact hS
  · rw [if_neg hc, if_neg hc]
    exact h hc

theorem foldlM {l : List γ} {f : α → γ → Except E α} {g : α' → γ → Except F α'} {s : α} {t : α'}
    (hfg : ∀ c ∈ l, ∀ a b, R a b → Agrees S R (f a c) (g b c)) (h : R s t) :
    Agrees S R (l.foldlM f s) (l.foldlM g t) := by
  induction l generalizing s t with
  | nil => exact h
  | cons c l ih =>
    rw [foldlM_cons, foldlM_cons]
    refine (hfg c (mem_cons_self ..) s t h).bind fun a b hab _ => ?_
    exact ih (fun c' hc' => hfg c' (mem_cons_of_mem _ hc')) hab

theorem forM {l : List γ} {f : γ → Except E Unit} {g : γ → Except F Unit}
    (hfg : ∀ c ∈ l, Agrees S Eq (f c) (g c)) : Agrees S Eq (l.forM f) (l.forM g) := by
  induction l with
  | nil => exact ok rfl
  | cons c l ih =>
    refine (hfg c (mem_cons_self ..)).bind fun _ _ _ _ => ?_
    exact ih fun c' hc' => hfg c' (mem_cons_of_mem _ hc')

theorem eq {y : Except E α} (h : Agrees Eq Eq x y) : x = y := by
  match x, y, h with
  | .ok a, .ok b, h => exact congrArg Except.ok h
  | .error e, .error f, h => exact congrArg Except.error h

end Agrees

namespace Lifts

variable {α' : Type} {R : α → α' → Prop}

theorem refl (x : Except E α) : Lifts Eq (ofResult id x) x := by
  cases x with
  | ok a => exact Agrees.ok rfl
  | error e => exact Agrees.error rfl

theorem ite_error {c : Prop} [Decidable c] {e : E} {x : Except (Abort E) α} {y : Except E α'}
    (h : ¬ c → Lifts R x y) : Lifts R (if c then .error (.error e) else x) (if c then .error e else y) :=
  Agrees.ite_error rfl h

end Lifts

end Trustgraphs.Indexing
