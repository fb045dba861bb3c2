import Mathlib

/-!
# Fallible computations

Inversion lemmas for `Except`: a computation that succeeds is taken apart into the steps that
succeed, with no unfolding of the monad. `Abort` adds to the errors of a computation the panic.
-/

namespace Trustgraphs

open List

/-- How a computation that does not return ends. -/
inductive Abort (E : Type) where
  | error (e : E)
  /-- A failed assertion, an overflow or an index out of bounds. -/
  | panic
deriving DecidableEq

namespace Outcome

variable {E F α β : Type}

@[simp]
theorem ok_bind (a : α) (f : α → Except E β) : (Except.ok a >>= f) = f a := rfl

@[simp]
theorem error_bind (e : E) (f : α → Except E β) : (Except.error e >>= f) = .error e := rfl

variable {x : Except E α} {f : α → Except E β} {b : β} {e : E} {a : α} {l : List α}

theorem bind_eq_ok : x >>= f = .ok b ↔ ∃ a, x = .ok a ∧ f a = .ok b := by
  cases x with
  | error e => simp
  | ok a => simp

theorem bind_eq_error : x >>= f = .error e ↔ x = .error e ∨ ∃ a, x = .ok a ∧ f a = .error e := by
  cases x with
  | error e => simp
  | ok a => simp

theorem ite_error_eq_ok {c : Prop} [Decidable c] : (if c then .error e else x) = .ok a ↔ ¬ c ∧ x = .ok a := by
  by_cases h : c
  · simp [h]
  · simp [h]

theorem ite_error_eq_error {c : Prop} [Decidable c] {e' : E} :
    (if c then .error e else x) = .error e' ↔ c ∧ e = e' ∨ ¬ c ∧ x = .error e' := by
  by_cases h : c
  · simp [h]
  · simp [h]

/-- A bind that returns has passed through its first half. -/
theorem of_bind (h : x >>= f = .ok b) : ∃ a, x = .ok a ∧ f a = .ok b := bind_eq_ok.mp h

/-- A guard that lets the computation return was not met. -/
theorem of_guard {c : Prop} [Decidable c] (h : (if c then .error e else x) = .ok a) : ¬ c ∧ x = .ok a :=
  ite_error_eq_ok.mp h

theorem ok_inj {a a' : α} (h : (Except.ok a : Except E α) = .ok a') : a = a' := Except.ok.inj h

theorem map_eq_ok {f : α → β} : x.map f = .ok b ↔ ∃ a, x = .ok a ∧ f a = b := by
  cases x with
  | error e => simp [Except.map]
  | ok a => simp [Except.map]

theorem map_eq_error {f : α → β} : x.map f = .error e ↔ x = .error e := by
  cases x with
  | error e => simp [Except.map]
  | ok a => simp [Except.map]

theorem mapM_eq_ok {m : List β} : l.mapM f = .ok m ↔ List.Forall₂ (fun a b => f a = .ok b) l m := by
  induction l generalizing m with
  | nil =>
    rw [mapM_nil, forall₂_nil_left_iff]
    exact ⟨fun h => (Except.ok.inj h).symm, fun h => h ▸ rfl⟩
  | cons a l ih =>
    rw [mapM_cons, bind_eq_ok]
    constructor
    · rintro ⟨b, hb, h⟩
      obtain ⟨bs, hbs, h⟩ := of_bind h
      obtain rfl : b :: bs = m := Except.ok.inj h
      exact .cons hb (ih.mp hbs)
    · intro h
      cases h with
      | cons hb hbs => exact ⟨_, hb, bind_eq_ok.mpr ⟨_, ih.mpr hbs, rfl⟩⟩

theorem mapM_eq_map {g : α → β} (h : ∀ a ∈ l, f a = .ok (g a)) : l.mapM f = .ok (l.map g) := by
  rw [mapM_eq_ok, forall₂_map_right_iff, forall₂_same]
  exact h

theorem exists_of_mapM_eq_ok {m : List β} (h : l.mapM f = .ok m) (ha : a ∈ l) : ∃ b ∈ m, f a = .ok b := by
  rw [mapM_eq_ok] at h
  induction h with
  | nil => exact absurd ha not_mem_nil
  | cons hab _ ih =>
    rcases mem_cons.mp ha with rfl | ha
    · exact ⟨_, mem_cons_self, hab⟩
    · obtain ⟨b, hb, hfb⟩ := ih ha
      exact ⟨b, mem_cons_of_mem _ hb, hfb⟩

theorem exists_of_mapM_eq_error (h : l.mapM f = .error e) : ∃ a ∈ l, f a = .error e := by
  induction l with
  | nil => exact absurd h (by simp [pure, Except.pure])
  | cons a l ih =>
    rw [mapM_cons] at h
    rcases bind_eq_error.mp h with h | ⟨b, -, h⟩
    · exact ⟨a, mem_cons_self .., h⟩
    · rcases bind_eq_error.mp h with h | ⟨bs, -, h⟩
      · obtain ⟨a', ha', hfails⟩ := ih h
        exact ⟨a', mem_cons_of_mem _ ha', hfails⟩
      · exact absurd h (by simp [pure, Except.pure])

theorem foldlM_congr {f g : β → α → Except E β} (h : ∀ a ∈ l, ∀ b, f b a = g b a) (b : β) :
    l.foldlM f b = l.foldlM g b := by
  induction l generalizing b with
  | nil => rfl
  | cons a l ih =>
    rw [foldlM_cons, foldlM_cons, h a (mem_cons_self ..) b]
    cases g b a with
    | error e => rfl
    | ok b' => exact ih (fun a' ha' => h a' (mem_cons_of_mem _ ha')) b'

theorem exists_of_foldlM_eq_error {f : β → α → Except E β}
    (h : l.foldlM f b = .error e) : ∃ a ∈ l, ∃ b', f b' a = .error e := by
  induction l generalizing b with
  | nil => exact absurd h (by simp [pure, Except.pure])
  | cons a l ih =>
    rw [foldlM_cons] at h
    rcases bind_eq_error.mp h with h | ⟨b', -, h⟩
    · exact ⟨a, mem_cons_self .., b, h⟩
    · obtain ⟨a', ha', hfails⟩ := ih h
      exact ⟨a', mem_cons_of_mem _ ha', hfails⟩

theorem exists_of_forM_eq_error {f : α → Except E Unit}
    (h : l.forM f = .error e) : ∃ a ∈ l, f a = .error e := by
  induction l with
  | nil => exact absurd (show Except.ok () = Except.error e from h) (by simp)
  | cons a l ih =>
    rcases bind_eq_error.mp (show (f a >>= fun _ => l.forM f) = .error e from h) with h | ⟨-, -, h⟩
    · exact ⟨a, mem_cons_self .., h⟩
    · obtain ⟨a', ha', hfails⟩ := ih h
      exact ⟨a', mem_cons_of_mem _ ha', hfails⟩

theorem forM_eq_ok {f : α → Except E Unit} : l.forM f = .ok () ↔ ∀ a ∈ l, f a = .ok () := by
  induction l with
  | nil => exact ⟨fun _ => by simp, fun _ => rfl⟩
  | cons a l ih =>
    rw [forall_mem_cons, ← ih]
    exact bind_eq_ok.trans ⟨fun ⟨_, ha, hl⟩ => ⟨ha, hl⟩, fun ⟨ha, hl⟩ => ⟨(), ha, hl⟩⟩

theorem isOk_iff : x.isOk = true ↔ ∃ a, x = .ok a := by
  cases x with
  | error e => simp [Except.isOk, Except.toBool]
  | ok a => simp [Except.isOk, Except.toBool]

theorem toOption_eq_some : x.toOption = some a ↔ x = .ok a := by
  cases x with
  | ok b => simp [Except.toOption]
  | error e => simp [Except.toOption]

/-- The error, if there is one. -/
def errorOf : Except E α → Option E
  | .ok _ => none
  | .error e => some e

theorem errorOf_eq_some : errorOf x = some e ↔ x = .error e := by
  cases x with
  | ok a => simp [errorOf]
  | error e' => simp [errorOf]

/-! ## Errors of another type -/

/-- `map_err`. -/
def withError (f : E → F) : Except E α → Except F α
  | .ok a => .ok a
  | .error e => .error (f e)

/-- A function without panics inside one that may panic. -/
def ofResult (f : E → F) (x : Except E α) : Except (Abort F) α := withError (fun e => .error (f e)) x

/-- An option whose none is a panic. -/
def ofPanic : Option α → Except (Abort F) α
  | some a => .ok a
  | none => .error .panic

/-- The errors of a computation renamed, its panics kept. -/
def renameError (f : E → F) (x : Except (Abort E) α) : Except (Abort F) α :=
  withError (fun
    | .error e => .error (f e)
    | .panic => .panic) x

@[simp]
theorem withError_eq_ok {f : E → F} : withError f x = .ok a ↔ x = .ok a := by
  cases x with
  | error e => simp [withError]
  | ok b => simp [withError]

theorem withError_eq_error {f : E → F} {e : F} : withError f x = .error e ↔ ∃ e', x = .error e' ∧ f e' = e := by
  cases x with
  | ok a => simp [withError]
  | error e' => simp [withError]

@[simp]
theorem ofResult_eq_ok {f : E → F} : ofResult f x = .ok a ↔ x = .ok a := withError_eq_ok

@[simp]
theorem renameError_eq_ok {f : E → F} {x : Except (Abort E) α} : renameError f x = .ok a ↔ x = .ok a :=
  withError_eq_ok

@[simp]
theorem ofPanic_eq_ok {x : Option α} : (ofPanic x : Except (Abort F) α) = .ok a ↔ x = some a := by
  cases x with
  | none => simp [ofPanic]
  | some b => simp [ofPanic]

theorem ofPanic_eq_error {x : Option α} {e : Abort F} : ofPanic x = .error e ↔ x = none ∧ .panic = e := by
  cases x with
  | none => simp [ofPanic]
  | some b => simp [ofPanic]

/-! ## Two computations side by side -/

/-- When both return a value, the two values are related. -/
def Related {α' : Type} (R : α → α' → Prop) (x : Except E α) (y : Except F α') : Prop :=
  ∀ a b, x = .ok a → y = .ok b → R a b

namespace Related

variable {α' β' γ : Type} {R : α → α' → Prop} {Q : β → β' → Prop}

theorem refl (x : Except E α) : Related Eq x x := fun _ _ ha hb => Except.ok.inj (ha.symm.trans hb)

theorem pure {a : α} {b : α'} (h : R a b) : Related R (.ok a : Except E α) (.ok b : Except F α') := by
  intro a' b' ha hb
  rw [← Except.ok.inj ha, ← Except.ok.inj hb]
  exact h

variable {y : Except F α'} {x : Except E α}

theorem left_error {e : E} : Related R (.error e : Except E α) y := fun _ _ ha _ => absurd ha (by simp)

theorem right_error {e : F} : Related R x (.error e : Except F α') := fun _ _ _ hb => absurd hb (by simp)

theorem bind {f : α → Except E β} {g : α' → Except F β'}
    (hxy : Related R x y) (hfg : ∀ a b, x = .ok a → y = .ok b → R a b → Related Q (f a) (g b)) :
    Related Q (x >>= f) (y >>= g) := by
  intro a b ha hb
  obtain ⟨u, hu, hfu⟩ := of_bind ha
  obtain ⟨v, hv, hgv⟩ := of_bind hb
  exact hfg u v hu hv (hxy u v hu hv) a b hfu hgv

theorem ite_error {c d : Prop} [Decidable c] [Decidable d] {e : E} {e' : F} (h : ¬ c → ¬ d → Related R x y) :
    Related R (if c then .error e else x) (if d then .error e' else y) := by
  intro a b ha hb
  obtain ⟨hc, hx⟩ := of_guard ha
  obtain ⟨hd, hy⟩ := of_guard hb
  exact h hc hd a b hx hy

theorem foldlM {l : List γ} {f : α → γ → Except E α} {g : α' → γ → Except F α'} {s : α} {t : α'}
    (h : ∀ c ∈ l, ∀ s t, R s t → Related R (f s c) (g t c)) (hst : R s t) :
    Related R (l.foldlM f s) (l.foldlM g t) := by
  induction l generalizing s t with
  | nil => exact pure hst
  | cons c l ih =>
    rw [foldlM_cons, foldlM_cons]
    refine bind (h c (mem_cons_self ..) s t hst) fun a b _ _ hab => ?_
    exact ih (fun d hd => h d (mem_cons_of_mem _ hd)) hab

end Related

end Outcome

end Trustgraphs
