import Mathlib.Data.List.Nodup
import Mathlib.Logic.Function.Basic

/-!
# Linked lists that are held in a function

`next` gives each element the one that follows it. A list begins and ends at a sentinel, and what is not in the
list has no successor. The updates of a linked list are updates of `next` at two or three elements.
-/

namespace Trustgraphs.LinkedList

open Function List

variable {α : Type} {next f : α → α} {a b c x y s z : α} {xs ys : List α}

/-- The pointers lead from `a` through the list to `b`. -/
def Links (next : α → α) : α → List α → α → Prop
  | a, [], b => next a = b
  | a, x :: xs, b => next a = x ∧ Links next x xs b

theorem links_append : Links next a (xs ++ x :: ys) b ↔ Links next a xs x ∧ Links next x ys b := by
  induction xs generalizing a with
  | nil => exact Iff.rfl
  | cons y xs ih =>
    show next a = y ∧ Links next y (xs ++ x :: ys) b ↔ (next a = y ∧ Links next y xs x) ∧ Links next x ys b
    rw [ih, and_assoc]

theorem Links.congr (h : Links next a xs b) (hf : ∀ v ∈ a :: xs, f v = next v) : Links f a xs b := by
  induction xs generalizing a with
  | nil => exact (hf a mem_cons_self).trans h
  | cons x xs ih =>
    obtain ⟨hfirst, hrest⟩ := h
    exact ⟨(hf a mem_cons_self).trans hfirst, ih hrest fun v hv => hf v (mem_cons_of_mem a hv)⟩

theorem Links.start (h : Links next a xs b) (hstart : f c = next a) (hf : ∀ v ∈ xs, f v = next v) :
    Links f c xs b := by
  cases xs with
  | nil => exact hstart.trans h
  | cons x xs =>
    obtain ⟨hfirst, hrest⟩ := h
    exact ⟨hstart.trans hfirst, hrest.congr hf⟩

theorem Links.join (h : Links f a xs (next x)) (hrest : Links next x ys b) (hf : ∀ v ∈ ys, f v = next v) :
    Links f a (xs ++ ys) b := by
  cases ys with
  | nil =>
    have hend : next x = b := hrest
    rwa [append_nil, ← hend]
  | cons y ys =>
    obtain ⟨hfirst, hrest⟩ := hrest
    rw [hfirst] at h
    exact links_append.mpr ⟨h, hrest.congr hf⟩

theorem Links.next_last (h : Links next a xs b) : next (xs.getLastD a) = b := by
  induction xs generalizing a with
  | nil => exact h
  | cons x xs ih =>
    rw [getLastD_cons]
    exact ih h.2

theorem getLastD_mem (a : α) (xs : List α) : xs.getLastD a ∈ a :: xs := by
  induction xs generalizing a with
  | nil => exact mem_cons_self
  | cons x xs ih =>
    rw [getLastD_cons]
    exact mem_cons_of_mem a (ih x)

section Update

variable [DecidableEq α]

theorem Links.redirect (h : Links next a xs b) (hnodup : (a :: xs).Nodup) (c : α) :
    Links (update next (xs.getLastD a) c) a xs c := by
  induction xs generalizing a with
  | nil => exact update_self a c next
  | cons x xs ih =>
    obtain ⟨hfirst, hrest⟩ := h
    obtain ⟨ha, hnodup⟩ := nodup_cons.mp hnodup
    rw [getLastD_cons]
    refine ⟨?_, ih hrest hnodup⟩
    -- the last element is not the first
    have hne : a ≠ xs.getLastD x := fun heq => ha (heq ▸ getLastD_mem x xs)
    rw [update_of_ne hne, hfirst]

end Update

/-- A list from the sentinel back to it. Nothing else has a successor. -/
structure Ring (next : α → α) (s z : α) (list : List α) : Prop where
  nodup : (s :: list).Nodup
  links : Links next s list s
  absent : ∀ v, v ∉ s :: list → next v = z

namespace Ring

theorem sentinel_not_mem (h : Ring next s z xs) : s ∉ xs := (nodup_cons.mp h.nodup).1

theorem next_pred (h : Ring next s z (xs ++ x :: ys)) : next (xs.getLastD s) = x :=
  (links_append.mp h.links).1.next_last

theorem split_nodup (h : Ring next s z (xs ++ x :: ys)) :
    (s :: xs).Nodup ∧ x ∉ s :: xs ∧ x ∉ ys ∧ (∀ v ∈ ys, v ∉ s :: xs) ∧ ys.Nodup := by
  have hnodup := h.nodup
  rw [← cons_append, nodup_append] at hnodup
  obtain ⟨hfront, hback, hapart⟩ := hnodup
  obtain ⟨hx, hys⟩ := nodup_cons.mp hback
  refine ⟨hfront, fun hmem => hapart x hmem x mem_cons_self rfl, hx, fun v hv hmem => ?_, hys⟩
  exact hapart v hmem v (mem_cons_of_mem x hv) rfl

variable [DecidableEq α]

/-- A new head. -/
theorem push (h : Ring next s z xs) (hx : x ∉ s :: xs) :
    Ring (update (update next x (next s)) s x) s z (x :: xs) := by
  obtain ⟨hxs, hmem⟩ := not_or.mp (mt mem_cons.mpr hx)
  have hkeep : ∀ v, v ≠ s → v ≠ x → update (update next x (next s)) s x v = next v := by
    intro v hs hne
    rw [update_of_ne hs, update_of_ne hne]
  refine ⟨?_, ⟨update_self .., h.links.start ?_ fun v hv => hkeep v ?_ ?_⟩, fun v hv => ?_⟩
  · have hs : s ∉ x :: xs := by
      rw [mem_cons, not_or]
      exact ⟨Ne.symm hxs, h.sentinel_not_mem⟩
    exact nodup_cons.mpr ⟨hs, nodup_cons.mpr ⟨hmem, h.nodup.of_cons⟩⟩
  · rw [update_of_ne hxs, update_self]
  · exact ne_of_mem_of_not_mem hv h.sentinel_not_mem
  · exact ne_of_mem_of_not_mem hv hmem
  · simp only [mem_cons, not_or] at hv
    rw [hkeep v hv.1 hv.2.1]
    exact h.absent v (by simp only [mem_cons, not_or]; exact ⟨hv.1, hv.2.2⟩)

/-- A member is taken out after its predecessor. -/
theorem erase (h : Ring next s z (xs ++ x :: ys)) :
    Ring (update (update next (xs.getLastD s) (next x)) x z) s z (xs ++ ys) := by
  obtain ⟨hfront, hxs, hys, hapart, hback⟩ := h.split_nodup
  obtain ⟨hto, hfrom⟩ := links_append.mp h.links
  have hlast := getLastD_mem s xs
  refine ⟨?_, ?_, fun v hv => ?_⟩
  · rw [← cons_append, nodup_append]
    exact ⟨hfront, hback, fun v hv w hw heq => hapart w hw (heq ▸ hv)⟩
  · refine Links.join (Links.congr (hto.redirect hfront (next x)) fun v hv => ?_) hfrom fun v hv => ?_
    · rw [update_of_ne (ne_of_mem_of_not_mem hv hxs)]
    · rw [update_of_ne (ne_of_mem_of_not_mem hv hys),
        update_of_ne (ne_of_mem_of_not_mem hlast (hapart v hv)).symm]
  · by_cases hvx : v = x
    · rw [hvx, update_self]
    · have hmem : v ∉ s :: (xs ++ x :: ys) := by
        simp only [mem_cons, mem_append, not_or] at hv ⊢
        exact ⟨hv.1, hv.2.1, hvx, hv.2.2⟩
      have hne : v ≠ xs.getLastD s := (ne_of_mem_of_not_mem (mem_append_left (x :: ys) hlast) hmem).symm
      rw [update_of_ne hvx, update_of_ne hne]
      exact h.absent v hmem

/-- A member is replaced in its place. -/
theorem replace (h : Ring next s z (xs ++ x :: ys)) (hy : y ∉ s :: (xs ++ x :: ys)) :
    Ring (update (update (update next y (next x)) (xs.getLastD s) y) x z) s z (xs ++ y :: ys) := by
  obtain ⟨hfront, hxs, hys, hapart, hback⟩ := h.split_nodup
  obtain ⟨hto, hfrom⟩ := links_append.mp h.links
  have hlast := getLastD_mem s xs
  simp only [mem_cons, mem_append, not_or] at hy
  obtain ⟨hys', hyxs, hyx, hyys⟩ := hy
  have hyfront : y ∉ s :: xs := by simp only [mem_cons, not_or]; exact ⟨hys', hyxs⟩
  refine ⟨?_, links_append.mpr ⟨?_, hfrom.start ?_ fun v hv => ?_⟩, fun v hv => ?_⟩
  · rw [← cons_append, nodup_append]
    refine ⟨hfront, nodup_cons.mpr ⟨hyys, hback⟩, fun v hv w hw heq => ?_⟩
    rcases mem_cons.mp hw with hwy | hw
    · exact hyfront (hwy ▸ heq ▸ hv)
    · exact hapart w hw (heq ▸ hv)
  · have hwas : Links (update next y (next x)) s xs x :=
      hto.congr fun v hv => update_of_ne (ne_of_mem_of_not_mem hv hyfront) ..
    refine Links.congr (hwas.redirect hfront y) fun v hv => ?_
    rw [update_of_ne (ne_of_mem_of_not_mem hv hxs)]
  · rw [update_of_ne hyx, update_of_ne (ne_of_mem_of_not_mem hlast hyfront).symm, update_self]
  · rw [update_of_ne (ne_of_mem_of_not_mem hv hys), update_of_ne (ne_of_mem_of_not_mem hlast (hapart v hv)).symm,
      update_of_ne (ne_of_mem_of_not_mem hv hyys)]
  · by_cases hvx : v = x
    · rw [hvx, update_self]
    · simp only [mem_cons, mem_append, not_or] at hv
      obtain ⟨hvs, hvxs, hvy, hvys⟩ := hv
      have hmem : v ∉ s :: (xs ++ x :: ys) := by
        simp only [mem_cons, mem_append, not_or]
        exact ⟨hvs, hvxs, hvx, hvys⟩
      have hne : v ≠ xs.getLastD s := (ne_of_mem_of_not_mem (mem_append_left (x :: ys) hlast) hmem).symm
      rw [update_of_ne hvx, update_of_ne hne, update_of_ne hvy]
      exact h.absent v hmem

end Ring

end Trustgraphs.LinkedList
