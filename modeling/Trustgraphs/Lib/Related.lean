import Mathlib

/-!
# Lists related item by item

Facts on `List.Forall₂`: every item has a partner, relations compose, and related lists have the same
images where the relation says so.
-/

namespace Trustgraphs.Related

open List

variable {α β γ : Type*} {R : α → β → Prop} {S : β → γ → Prop} {l : List α} {m : List β}

theorem exists_of_forall₂ (h : List.Forall₂ R l m) {b : β} (hb : b ∈ m) : ∃ a ∈ l, R a b := by
  induction h with
  | nil => exact absurd hb not_mem_nil
  | cons hab _ ih =>
    rcases mem_cons.mp hb with rfl | hb
    · exact ⟨_, mem_cons_self, hab⟩
    · obtain ⟨a, ha, hab⟩ := ih hb
      exact ⟨a, mem_cons_of_mem _ ha, hab⟩

theorem exists_append_of_forall₂ {l' : List α} {a : α} (h : List.Forall₂ R (l ++ a :: l') m) :
    ∃ k b k', m = k ++ b :: k' ∧ List.Forall₂ R l k ∧ R a b ∧ List.Forall₂ R l' k' := by
  induction l generalizing m with
  | nil =>
    cases h with
    | cons hab h => exact ⟨[], _, _, rfl, .nil, hab, h⟩
  | cons x l ih =>
    cases h with
    | cons hxy h =>
      obtain ⟨k, b, k', rfl, hl, hab, hl'⟩ := ih h
      exact ⟨_ :: k, b, k', rfl, .cons hxy hl, hab, hl'⟩

theorem forall₂_of_map_eq {f : α → γ} {g : β → γ} (h : l.map f = m.map g) :
    List.Forall₂ (fun a b => f a = g b) l m := by
  have hrefl : List.Forall₂ (· = ·) (l.map f) (m.map g) := by
    rw [h]
    exact forall₂_refl _
  rwa [forall₂_map_left_iff, forall₂_map_right_iff] at hrefl

theorem forall₂_trans {n : List γ} (h : List.Forall₂ R l m) (h' : List.Forall₂ S m n) :
    List.Forall₂ (fun a c => ∃ b, R a b ∧ S b c) l n := by
  induction h generalizing n with
  | nil =>
    cases h'
    exact .nil
  | cons hab _ ih =>
    cases h' with
    | cons hbc hrest => exact .cons ⟨_, hab, hbc⟩ (ih hrest)

theorem map_eq_map_of_forall₂ {f : β → γ} {g : α → γ} (h : List.Forall₂ R l m)
    (hR : ∀ a ∈ l, ∀ b, R a b → f b = g a) : m.map f = l.map g := by
  induction h with
  | nil => rfl
  | @cons a b _ _ hab _ ih =>
    rw [map_cons, map_cons, hR a (mem_cons_self ..) b hab, ih fun a' ha' => hR a' (mem_cons_of_mem _ ha')]

theorem exists_of_mem_zipWith {f : α → β → γ} (h : List.Forall₂ R l m) {c : γ}
    (hc : c ∈ List.zipWith f l m) : ∃ a ∈ l, ∃ b, R a b ∧ f a b = c := by
  induction h with
  | nil => exact absurd hc not_mem_nil
  | cons hab _ ih =>
    rw [zipWith_cons_cons] at hc
    rcases mem_cons.mp hc with rfl | hc
    · exact ⟨_, mem_cons_self, _, hab, rfl⟩
    · obtain ⟨a, ha, b, hb, hf⟩ := ih hc
      exact ⟨a, mem_cons_of_mem _ ha, b, hb, hf⟩

end Trustgraphs.Related
