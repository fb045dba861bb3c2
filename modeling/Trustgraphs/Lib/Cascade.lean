import Mathlib

/-!
# Cascades

Items act in turn. An item acts when it is armed, strikes some other item, and no item that acted
before aims at it. Which items act depends on the order only through the pairs of armed items of which
one aims at the other (`mem_acted_perm`). An item that comes last changes nothing for the others but
for those that aim at it (`acted_concat`).
-/

namespace Trustgraphs.Cascade

open List

variable {α : Type*} [DecidableEq α] (armed : α → Bool) (aims : α → α → Bool)

/-- Some other element aims at this one. -/
def strikes (all : List α) (x : α) : Bool := all.any fun y => decide (y ≠ x) && aims x y

/-- One armed element acts if it is struck and nothing that acted has struck it. -/
def turn (all acted : List α) (x : α) : List α :=
  if (armed x && strikes aims all x && !acted.any fun e => aims e x) = true then acted ++ [x]
  else acted

/-- The elements that have acted, in the order of the list. -/
def acted (all pre : List α) : List α := pre.foldl (turn armed aims all) []

variable {armed aims} {all l l' pre post : List α} {e x : α}

theorem strikes_iff : strikes aims all x = true ↔ ∃ y ∈ all, y ≠ x ∧ aims x y = true := by simp [strikes]

theorem acted_append_singleton : acted armed aims all (pre ++ [x]) =
    turn armed aims all (acted armed aims all pre) x := by
  simp [acted]

theorem mem_turn {done : List α} : e ∈ turn armed aims all done x ↔
    e ∈ done ∨ e = x ∧ armed x = true ∧ strikes aims all x = true ∧ ∀ f ∈ done, aims f x = false := by
  unfold turn
  split
  · rename_i h
    simp only [Bool.and_eq_true, Bool.not_eq_true', any_eq_false] at h
    rw [mem_append, mem_singleton]
    constructor
    · rintro (h1 | rfl)
      · exact .inl h1
      · exact .inr ⟨rfl, h.1.1, h.1.2, fun f hf => by simpa using h.2 f hf⟩
    · rintro (h1 | ⟨rfl, -⟩)
      · exact .inl h1
      · exact .inr rfl
  · rename_i h
    refine ⟨.inl, ?_⟩
    rintro (h1 | ⟨rfl, h1, h2, h3⟩)
    · exact h1
    · refine absurd ?_ h
      simp only [Bool.and_eq_true, Bool.not_eq_true', any_eq_false]
      exact ⟨⟨h1, h2⟩, fun f hf => by simp [h3 f hf]⟩

theorem of_mem_acted (h : e ∈ acted armed aims all pre) :
    e ∈ pre ∧ armed e = true ∧ strikes aims all e = true := by
  induction pre using List.reverseRecOn with
  | nil => exact absurd h (not_mem_nil)
  | append_singleton pre x ih =>
    rw [acted_append_singleton, mem_turn] at h
    rcases h with h | ⟨rfl, h1, h2, -⟩
    · exact ⟨mem_append_left _ (ih h).1, (ih h).2⟩
    · exact ⟨by simp, h1, h2⟩

theorem acted_subset_append (h : e ∈ acted armed aims all pre) : e ∈ acted armed aims all (pre ++ post) := by
  induction post using List.reverseRecOn with
  | nil => rwa [append_nil]
  | append_singleton post x ih =>
    rw [← append_assoc, acted_append_singleton, mem_turn]
    exact .inl ih

theorem mem_acted_initial (hnd : (pre ++ post).Nodup) (he : e ∈ pre) :
    e ∈ acted armed aims all (pre ++ post) ↔ e ∈ acted armed aims all pre := by
  refine ⟨fun h => ?_, acted_subset_append⟩
  induction post using List.reverseRecOn with
  | nil => rwa [append_nil] at h
  | append_singleton post x ih =>
    rw [← append_assoc] at hnd h
    rw [acted_append_singleton, mem_turn] at h
    rcases h with h | ⟨rfl, -⟩
    · exact ih (nodup_append.mp hnd).1 h
    · have hdisj := (nodup_append.mp hnd).2.2 e (mem_append_left _ he) e (by simp)
      exact absurd rfl hdisj

/-- Who has acted: armed, struck and not hit by an actor before. -/
theorem mem_acted_iff (hnd : (pre ++ x :: post).Nodup) : x ∈ acted armed aims all (pre ++ x :: post) ↔
      armed x = true ∧ strikes aims all x = true ∧
        ∀ e ∈ acted armed aims all (pre ++ x :: post), e ∈ pre → aims e x = false := by
  have hsplit : pre ++ x :: post = (pre ++ [x]) ++ post := by simp
  have hx : x ∉ acted armed aims all pre := by
    intro h
    have hdisj := (nodup_append.mp hnd).2.2 x (of_mem_acted h).1 x (by simp)
    exact hdisj rfl
  rw [hsplit] at hnd ⊢
  rw [mem_acted_initial hnd (by simp), acted_append_singleton, mem_turn]
  constructor
  · rintro (h | ⟨-, h1, h2, h3⟩)
    · exact absurd h hx
    · refine ⟨h1, h2, fun e he hpre => h3 e ?_⟩
      rw [append_assoc] at hnd he
      exact (mem_acted_initial hnd hpre).mp he
  · rintro ⟨h1, h2, h3⟩
    refine .inr ⟨rfl, h1, h2, fun e he => h3 e ?_ (of_mem_acted he).1⟩
    rw [append_assoc]
    exact acted_subset_append he

theorem strikes_perm (h : l.Perm l') (x : α) : strikes aims l x = strikes aims l' x := by
  rw [Bool.eq_iff_iff, strikes_iff, strikes_iff]
  exact ⟨fun ⟨y, hy, h1⟩ => ⟨y, h.mem_iff.mp hy, h1⟩, fun ⟨y, hy, h1⟩ => ⟨y, h.mem_iff.mpr hy, h1⟩⟩

omit [DecidableEq α] in
theorem pair_sublist_iff (hnd : (pre ++ x :: post).Nodup) : [e, x].Sublist (pre ++ x :: post) ↔ e ∈ pre := by
  constructor
  · intro h
    obtain ⟨r₁, r₂, hr, he, hx⟩ := cons_sublist_iff.mp h
    have hx₂ := singleton_sublist.mp hx
    rcases append_eq_append_iff.mp hr with ⟨a, h1, h2⟩ | ⟨a, h1, h2⟩
    · -- the first part reaches beyond `pre`, so that `x` occurs in it as well
      cases a with
      | nil => simpa [h1] using he
      | cons b a =>
        obtain ⟨rfl, -⟩ := List.cons.inj h2
        rw [hr, h1] at hnd
        have hdisj := (nodup_append.mp hnd).2.2 x (by simp) x hx₂
        exact absurd rfl hdisj
    · rw [h1]
      exact mem_append_left _ he
  · intro he
    obtain ⟨a, b, rfl⟩ := append_of_mem he
    rw [append_assoc]
    refine (List.Sublist.cons_cons e ?_).trans (sublist_append_right _ _)
    exact singleton_sublist.mpr (by simp)

/-- Which items act depends on the order of those pairs only of which one aims at the other. -/
theorem mem_acted_perm (hnd : l.Nodup) (hp : l'.Perm l)
    (horder : ∀ e ∈ l, ∀ x ∈ l, armed e = true → armed x = true → e ≠ x → aims e x = true →
      ([e, x].Sublist l ↔ [e, x].Sublist l')) (x : α) :
    x ∈ acted armed aims l l ↔ x ∈ acted armed aims l' l' := by
  have hnd' : l'.Nodup := hp.nodup_iff.mpr hnd
  by_cases hx : x ∈ l
  swap
  · exact ⟨fun h => absurd (of_mem_acted h).1 hx,
      fun h => absurd (hp.mem_iff.mp (of_mem_acted h).1) hx⟩
  obtain ⟨pre, post, hl⟩ := append_of_mem hx
  -- by induction on the number of items before `x` in the first order
  obtain ⟨n, hn⟩ : ∃ n, pre.length = n := ⟨_, rfl⟩
  induction n using Nat.strong_induction_on generalizing x pre post with
  | _ n ih =>
    obtain ⟨pre', post', hl'⟩ := append_of_mem (hp.mem_iff.mpr hx)
    have h1 : x ∈ acted armed aims l (pre ++ x :: post) ↔ _ := mem_acted_iff (hl ▸ hnd)
    have h2 : x ∈ acted armed aims l' (pre' ++ x :: post') ↔ _ := mem_acted_iff (hl' ▸ hnd')
    rw [← hl] at h1
    rw [← hl'] at h2
    rw [h1, h2, strikes_perm hp.symm]
    refine and_congr_right fun harmed => and_congr_right fun _ => ?_
    -- the armed items before `x` that aim at it are the same in both orders
    have hbefore : ∀ e ∈ l, armed e = true → aims e x = true → e ≠ x → (e ∈ pre ↔ e ∈ pre') := by
      intro e he hearmed haims hne
      rw [← pair_sublist_iff (hl ▸ hnd), ← pair_sublist_iff (hl' ▸ hnd'), ← hl, ← hl']
      exact horder e he x hx hearmed harmed hne haims
    have hact : ∀ e ∈ pre, e ∈ acted armed aims l l ↔ e ∈ acted armed aims l' l' := by
      intro e he
      obtain ⟨a, b, hab⟩ := append_of_mem he
      have hlen : a.length < n := by rw [← hn, hab]; simp
      exact ih a.length hlen e (by rw [hl]; simp [he]) a (b ++ x :: post)
        (by rw [hl, hab]; simp) rfl
    constructor
    · intro h e he hpre'
      have hel : e ∈ l := hp.mem_iff.mp (of_mem_acted he).1
      have hne : e ≠ x := by
        rintro rfl
        exact (nodup_append.mp (hl' ▸ hnd')).2.2 e hpre' e (by simp) rfl
      by_contra haims
      have haims' : aims e x = true := by simpa using haims
      have hpre := (hbefore e hel (of_mem_acted he).2.1 haims' hne).mpr hpre'
      exact haims (h e ((hact e hpre).mpr he) hpre)
    · intro h e he hpre
      have hne : e ≠ x := by
        rintro rfl
        exact (nodup_append.mp (hl ▸ hnd)).2.2 e hpre e (by simp) rfl
      by_contra haims
      have haims' : aims e x = true := by simpa using haims
      have hpre' := (hbefore e (of_mem_acted he).1 (of_mem_acted he).2.1 haims' hne).mp hpre
      exact haims (h e ((hact e hpre).mp he) hpre')

theorem acted_concat (d : α) (hnd : pre.Nodup) (hpre : pre ⊆ l) :
    (∀ e ∈ acted armed aims l pre, e ∈ acted armed aims (l ++ [d]) pre) ∧
      ∀ e ∈ acted armed aims (l ++ [d]) pre, e ∈ acted armed aims l pre ∨ strikes aims l e = false := by
  have hmono : ∀ y, strikes aims l y = true → strikes aims (l ++ [d]) y = true := by
    intro y h
    obtain ⟨z, hz, h1⟩ := strikes_iff.mp h
    exact strikes_iff.mpr ⟨z, mem_append_left _ hz, h1⟩
  induction pre using List.reverseRecOn with
  | nil => exact ⟨fun e h => h, fun e h => absurd h (not_mem_nil)⟩
  | append_singleton pre x ih =>
    have hx : x ∈ l := hpre (by simp)
    have hnot : ∀ f ∈ acted armed aims (l ++ [d]) pre, f ≠ x := by
      rintro f hf rfl
      exact (nodup_append.mp hnd).2.2 f (of_mem_acted hf).1 f (by simp) rfl
    obtain ⟨ih1, ih2⟩ := ih (nodup_append.mp hnd).1 fun y hy => hpre (mem_append_left _ hy)
    rw [acted_append_singleton, acted_append_singleton]
    constructor
    · intro e he
      rw [mem_turn] at he ⊢
      rcases he with he | ⟨rfl, h1, h2, h3⟩
      · exact .inl (ih1 e he)
      · refine .inr ⟨rfl, h1, hmono e h2, fun f hf => ?_⟩
        rcases ih2 f hf with hold | hnone
        · exact h3 f hold
        · -- an item that acts because of the new one alone aims at no other
          by_contra haims
          have hstrikes : strikes aims l f = true :=
            strikes_iff.mpr ⟨e, hx, (hnot f hf).symm, by simpa using haims⟩
          rw [hnone] at hstrikes
          exact absurd hstrikes (by simp)
    · intro e he
      rw [mem_turn] at he ⊢
      rcases he with he | ⟨rfl, h1, -, h3⟩
      · exact (ih2 e he).imp .inl id
      · cases hs : strikes aims l e with
        | false => exact .inr rfl
        | true => exact .inl (.inr ⟨rfl, h1, rfl, fun f hf => h3 f (ih1 f hf)⟩)

end Trustgraphs.Cascade
