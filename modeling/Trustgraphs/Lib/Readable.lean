import Mathlib

/-!
# Unique readability

A writer puts an item down as a text. Its items can be read back when the text of an item, with what
stands behind it, determines the item and the rest. What stands behind may have to begin in a certain
way: a number is over where no digit follows, and a list where its bracket closes.
-/

namespace Trustgraphs.Readable

open List

variable {α β γ : Type*}

/-- Before a rest that `stop`s it, the text of an item determines the item and the rest. -/
def Delimited (stop : List β → Prop) (write : α → List β) : Prop :=
  ∀ a b r r', stop r → stop r' → write a ++ r = write b ++ r' → a = b ∧ r = r'

/-- No condition on what follows. -/
def Any (_ : List β) : Prop := True

/-- What follows starts with `c`. -/
def Begins (c : β) (r : List β) : Prop := ∃ t, r = c :: t

theorem begins_cons (c : β) (r : List β) : Begins c (c :: r) := ⟨r, rfl⟩

variable {stop : List β → Prop} {write : α → List β}

theorem Delimited.of_decode {decode : List β → Option (α × List β)}
    (h : ∀ a r, stop r → decode (write a ++ r) = some (a, r)) : Delimited stop write := by
  intro a b r r' hr hr' heq
  have ha := h a r hr
  rw [heq, h b r' hr', Option.some_inj] at ha
  exact ⟨(Prod.mk.inj ha).1.symm, (Prod.mk.inj ha).2.symm⟩

theorem Delimited.of_length (hinj : Function.Injective write)
    (hlen : ∀ a b, (write a).length = (write b).length) : Delimited Any write := by
  intro a b r r' _ _ heq
  obtain ⟨hab, hr⟩ := append_inj heq (hlen a b)
  exact ⟨hinj hab, hr⟩

/-- A list is cut at its first mark in one way. -/
theorem cut_unique {α : Type*} {p : α → Prop} {l l' r r' : List α} {a a' : α} (hl : ∀ x ∈ l, ¬ p x)
    (hl' : ∀ x ∈ l', ¬ p x) (ha : p a) (ha' : p a') (h : l ++ a :: r = l' ++ a' :: r') :
    l = l' ∧ a = a' ∧ r = r' := by
  induction l generalizing l' with
  | nil =>
    cases l' with
    | nil =>
      obtain ⟨rfl, rfl⟩ := List.cons.inj h
      exact ⟨rfl, rfl, rfl⟩
    | cons x l' =>
      obtain ⟨rfl, -⟩ := List.cons.inj h
      exact absurd ha (hl' _ mem_cons_self)
  | cons y l ih =>
    cases l' with
    | nil =>
      obtain ⟨rfl, -⟩ := List.cons.inj h
      exact absurd ha' (hl _ mem_cons_self)
    | cons x l' =>
      obtain ⟨rfl, htail⟩ := List.cons.inj h
      obtain ⟨rfl, rfl, rfl⟩ := ih (fun z hz => hl z (mem_cons_of_mem _ hz))
        (fun z hz => hl' z (mem_cons_of_mem _ hz)) htail
      exact ⟨rfl, rfl, rfl⟩

theorem Delimited.of_not_mem {c : β} (hinj : Function.Injective write) (hc : ∀ a, c ∉ write a) :
    Delimited (Begins c) write := by
  have hne : ∀ a, ∀ x ∈ write a, ¬ x = c := by
    rintro a x hx rfl
    exact hc a hx
  rintro a b r r' ⟨t, rfl⟩ ⟨t', rfl⟩ heq
  obtain ⟨hab, -, rfl⟩ := cut_unique (p := fun x => x = c) (hne a) (hne b) rfl rfl heq
  exact ⟨hinj hab, rfl⟩

theorem Delimited.bracket {close : β} (h : Delimited (Begins close) write) (left : List β) :
    Delimited Any fun a => left ++ write a ++ [close] := by
  intro a b r r' _ _ heq
  simp only [append_assoc, append_cancel_left_eq] at heq
  obtain ⟨rfl, hr⟩ := h a b _ _ (begins_cons close r) (begins_cons close r') heq
  exact ⟨rfl, (List.cons.inj hr).2⟩

/-! ## Lists -/

theorem Delimited.flatMap {close : β} (h : Delimited Any write) (hne : ∀ a r, ¬ Begins close (write a ++ r)) :
    Delimited (Begins close) fun l : List α => l.flatMap write := by
  intro l
  induction l with
  | nil =>
    intro m r r' hr hr' heq
    dsimp only at heq
    cases m with
    | nil => exact ⟨rfl, heq⟩
    | cons b m =>
      rw [flatMap_nil, nil_append, flatMap_cons, append_assoc] at heq
      exact absurd (heq ▸ hr) (hne b _)
  | cons a l ih =>
    intro m r r' hr hr' heq
    dsimp only at heq
    cases m with
    | nil =>
      rw [flatMap_nil, nil_append, flatMap_cons, append_assoc] at heq
      exact absurd (heq ▸ hr') (hne a _)
    | cons b m =>
      rw [flatMap_cons, flatMap_cons, append_assoc, append_assoc] at heq
      obtain ⟨rfl, hrest⟩ := h a b _ _ trivial trivial heq
      obtain ⟨rfl, hr⟩ := ih m r r' hr hr' hrest
      exact ⟨rfl, hr⟩

/-- Items with a separator between them. -/
def separated (sep : β) : List (List β) → List β
  | [] => []
  | [item] => item
  | item :: next :: items => item ++ sep :: separated sep (next :: items)

/-- Separated items are read back before a `close` that begins none of them and is not the separator. -/
theorem Delimited.list {sep close : β} (hstop : ∀ r, Begins sep r ∨ Begins close r → stop r)
    (h : Delimited stop write) (hne : ∀ a r, ¬ Begins close (write a ++ r)) (hsep : sep ≠ close) :
    Delimited (Begins close) fun l : List α => separated sep (l.map write) := by
  -- a list begins with its first item
  have hcons : ∀ a l r, ∃ t, separated sep ((a :: l).map write) ++ r = write a ++ t := by
    intro a l r
    cases l with
    | nil => exact ⟨r, rfl⟩
    | cons b l => exact ⟨_, append_assoc ..⟩
  intro l
  induction l with
  | nil =>
    intro m r r' hr hr' heq
    cases m with
    | nil => exact ⟨rfl, heq⟩
    | cons b m =>
      obtain ⟨t, ht⟩ := hcons b m r'
      exact absurd ((heq.trans ht) ▸ hr) (hne b t)
  | cons a l ih =>
    intro m r r' hr hr' heq
    cases m with
    | nil =>
      obtain ⟨t, ht⟩ := hcons a l r
      exact absurd ((heq.symm.trans ht) ▸ hr') (hne a t)
    | cons b m =>
      -- after an item comes the separator or the end
      cases l with
      | nil =>
        cases m with
        | nil =>
          obtain ⟨rfl, hr⟩ := h a b r r' (hstop r (Or.inr hr)) (hstop r' (Or.inr hr')) heq
          exact ⟨rfl, hr⟩
        | cons c m =>
          have heq : write a ++ r = write b ++ (sep :: (separated sep ((c :: m).map write) ++ r')) :=
            heq.trans (append_assoc ..)
          obtain ⟨-, hrest⟩ := h a b _ _ (hstop r (Or.inr hr)) (hstop _ (Or.inl (begins_cons ..))) heq
          obtain ⟨t, ht⟩ := hr
          exact absurd (List.cons.inj (hrest.symm.trans ht)).1 hsep
      | cons c l =>
        cases m with
        | nil =>
          have heq : write a ++ (sep :: (separated sep ((c :: l).map write) ++ r)) = write b ++ r' :=
            (append_assoc ..).symm.trans heq
          obtain ⟨-, hrest⟩ := h a b _ _ (hstop _ (Or.inl (begins_cons ..))) (hstop r' (Or.inr hr')) heq
          obtain ⟨t, ht⟩ := hr'
          exact absurd (List.cons.inj (hrest.trans ht)).1 hsep
        | cons d m =>
          have heq : write a ++ (sep :: (separated sep ((c :: l).map write) ++ r)) =
              write b ++ (sep :: (separated sep ((d :: m).map write) ++ r')) :=
            (append_assoc ..).symm.trans (heq.trans (append_assoc ..))
          obtain ⟨rfl, hrest⟩ := h a b _ _ (hstop _ (Or.inl (begins_cons ..)))
            (hstop _ (Or.inl (begins_cons ..))) heq
          obtain ⟨hl, hr⟩ := ih (d :: m) r r' hr hr' (List.cons.inj hrest).2
          exact ⟨congrArg (a :: ·) hl, hr⟩

end Trustgraphs.Readable
