import Mathlib

/-!
# Forests by parent pointers

A parent function, the chains that follow it, and the heights that go with them. Bounded chains rule
cycles out. Heights that are right locally, each from those of the children, are the lengths of the
longest descending chains (`Levels.isHeight`). A new link keeps the bound when the longest chain
through it does (`bounded_link`).
-/

namespace Trustgraphs.Forest

open Function

variable {α : Type*} {parent parent' : α → Option α}

/-- `a` is `n` parents above `d`. -/
inductive Chain (parent : α → Option α) : Nat → α → α → Prop where
  | refl (a : α) : Chain parent 0 a a
  | step {n : Nat} {d p a : α} (hp : parent d = some p) (h : Chain parent n p a) : Chain parent (n + 1) d a

/-- No chain is longer than the cap. -/
def Bounded (parent : α → Option α) (cap : Nat) : Prop := ∀ n d a, Chain parent n d a → n ≤ cap

/-- The longest chain below `a`. -/
def IsHeight (parent : α → Option α) (a : α) (n : Nat) : Prop := IsGreatest {m | ∃ d, Chain parent m d a} n

/-- Heights that are right locally, as far as they are below `cap`: a node is above its children, and
if it is not a leaf then by one above some child. -/
structure Levels (parent : α → Option α) (cap : Nat) (height : α → Nat) : Prop where
  above : ∀ c a, parent c = some a → height c < cap → height c < height a
  attained : ∀ a, height a ≠ 0 → ∃ c, parent c = some a ∧ height c + 1 = height a

/-! ## Chains -/

namespace Chain

variable {n : Nat} {d a b : α}

theorem snoc (h : Chain parent n d a) (hb : parent a = some b) : Chain parent (n + 1) d b := by
  induction h with
  | refl a => exact .step hb (.refl b)
  | step hp _ ih => exact .step hp (ih hb)

theorem append {m : Nat} (h : Chain parent m d a) (h' : Chain parent n a b) : Chain parent (m + n) d b := by
  induction h with
  | refl a => rwa [Nat.zero_add]
  | step hp _ ih =>
    rw [Nat.add_right_comm]
    exact .step hp (ih h')

theorem mono (h : Chain parent n d a)
    (hsub : ∀ c p, parent c = some p → parent' c = some p) : Chain parent' n d a := by
  induction h with
  | refl a => exact .refl a
  | step hp _ ih => exact .step (hsub _ _ hp) ih

theorem unique (h : Chain parent n d a) (h' : Chain parent n d b) : a = b := by
  induction h with
  | refl a => cases h'; rfl
  | step hp _ ih =>
    cases h' with
    | step hp' h' =>
      rw [hp] at hp'
      obtain rfl := Option.some_inj.mp hp'
      exact ih h'

theorem of_transGen (h : Relation.TransGen (fun c p => parent c = some p) d a) :
    ∃ n, Chain parent (n + 1) d a := by
  induction h with
  | single hp => exact ⟨0, .step hp (.refl _)⟩
  | tail _ hp ih =>
    obtain ⟨n, hn⟩ := ih
    exact ⟨n + 1, hn.snoc hp⟩

end Chain

/-! ## Bounded forests -/

variable {cap n : Nat} {height : α → Nat} {c a p : α}

theorem Bounded.mono (h : Bounded parent cap)
    (hsub : ∀ c p, parent' c = some p → parent c = some p) : Bounded parent' cap :=
  fun n d a hc => h n d a (hc.mono hsub)

/-- Bounded chains have no cycle. -/
theorem Bounded.no_cycle (h : Bounded parent cap) (a : α) : ¬ Chain parent (n + 1) a a := by
  intro hc
  have hrep : ∀ k, ∃ m, k ≤ m ∧ Chain parent m a a := by
    intro k
    induction k with
    | zero => exact ⟨0, le_rfl, .refl a⟩
    | succ k ih =>
      obtain ⟨m, hkm, hm⟩ := ih
      exact ⟨m + (n + 1), by omega, hm.append hc⟩
  obtain ⟨m, hm, hchain⟩ := hrep (cap + 1)
  have := h m a a hchain
  omega

theorem Bounded.acyclic (h : Bounded parent cap) (a : α) :
    ¬ Relation.TransGen (fun c p => parent c = some p) a a := by
  intro hc
  obtain ⟨n, hn⟩ := Chain.of_transGen hc
  exact h.no_cycle a hn

theorem Bounded.encard_ancestors_le (h : Bounded parent cap) (d : α) :
    {a | Relation.TransGen (fun c p => parent c = some p) d a}.encard ≤ cap := by
  classical
  -- the n-th ancestor, for every n that has one
  let nth : Nat → α := fun n => if hn : ∃ a, Chain parent (n + 1) d a then hn.choose else d
  have hsub : {a | Relation.TransGen (fun c p => parent c = some p) d a} ⊆
      nth '' {n | n < cap} := by
    intro a ha
    obtain ⟨n, hn⟩ := Chain.of_transGen ha
    have hex : ∃ a, Chain parent (n + 1) d a := ⟨a, hn⟩
    refine ⟨n, ?_, ?_⟩
    · have := h _ _ _ hn
      show n < cap
      omega
    · show (if hn : ∃ a, Chain parent (n + 1) d a then hn.choose else d) = a
      rw [dif_pos hex]
      exact hex.choose_spec.unique hn
  calc {a | Relation.TransGen (fun c p => parent c = some p) d a}.encard
      ≤ (nth '' {n | n < cap}).encard := Set.encard_le_encard hsub
    _ ≤ ({n | n < cap} : Set Nat).encard := Set.encard_image_le _ _
    _ = cap := by
      have hcoe : ({n | n < cap} : Set Nat) = (Finset.range cap : Set Nat) := by ext n; simp
      rw [hcoe, Set.encard_coe_eq_coe_finsetCard, Finset.card_range]

/-! ## Heights -/

theorem Levels.exists_chain (h : Levels parent cap height) (a : α) : ∃ d, Chain parent (height a) d a := by
  obtain ⟨n, hn⟩ : ∃ n, height a = n := ⟨_, rfl⟩
  induction n generalizing a with
  | zero => exact ⟨a, hn ▸ .refl a⟩
  | succ n ih =>
    obtain ⟨c, hc, hca⟩ := h.attained a (by omega)
    obtain ⟨d, hd⟩ := ih c (by omega)
    exact ⟨d, hca ▸ hd.snoc hc⟩

theorem Levels.child_lt (h : Levels parent cap height)
    (hb : Bounded parent cap) (hc : parent c = some a) : height c < height a := by
  obtain ⟨d, hd⟩ := h.exists_chain c
  have := hb _ _ _ (hd.snoc hc)
  exact h.above c a hc (by omega)

theorem Levels.isHeight (h : Levels parent cap height)
    (hb : Bounded parent cap) (a : α) : IsHeight parent a (height a) := by
  refine ⟨h.exists_chain a, ?_⟩
  rintro n ⟨d, hd⟩
  have hle : n + height d ≤ height a := by
    induction hd with
    | refl a => omega
    | step hp _ ih =>
      have := h.child_lt hb hp
      omega
  omega

/-! ## Children by height -/

/-- The children of one height. -/
def bucket (parent : α → Option α) (height : α → Nat) (a : α) (h : Nat) : Set α :=
  {c | parent c = some a ∧ height c = h}

section Bucket

variable {height : α → Nat} {a b c : α} {h : Nat}

theorem encard_bucket (hc : parent c = some a) : (bucket parent height a h).encard =
    (bucket parent height a h \ {c}).encard + if h = height c then 1 else 0 := by
  by_cases hh : h = height c
  · have hmem : c ∈ bucket parent height a h := ⟨hc, hh.symm⟩
    rw [if_pos hh, Set.encard_sdiff_singleton_add_one hmem]
  · have hnot : c ∉ bucket parent height a h := fun hmem => hh hmem.2.symm
    rw [if_neg hh, Set.sdiff_singleton_eq_self hnot, add_zero]

theorem bucket_of_ne (hc : parent c ≠ some a) : bucket parent height a h \ {c} = bucket parent height a h :=
  Set.sdiff_singleton_eq_self fun hmem => hc hmem.1

variable [DecidableEq α]

theorem bucket_update_height (n : Nat) :
    bucket parent (update height c n) a h \ {c} = bucket parent height a h \ {c} := by
  ext x
  simp only [bucket, Set.mem_sdiff, Set.mem_ofPred_eq, Set.mem_singleton_iff]
  constructor
  · rintro ⟨⟨hp, hx⟩, hne⟩
    exact ⟨⟨hp, by rwa [update_of_ne hne] at hx⟩, hne⟩
  · rintro ⟨⟨hp, hx⟩, hne⟩
    exact ⟨⟨hp, by rwa [update_of_ne hne]⟩, hne⟩

theorem bucket_update_parent (q : Option α) :
    bucket (update parent c q) height a h \ {c} = bucket parent height a h \ {c} := by
  ext x
  simp only [bucket, Set.mem_sdiff, Set.mem_ofPred_eq, Set.mem_singleton_iff]
  constructor
  · rintro ⟨⟨hp, hx⟩, hne⟩
    exact ⟨⟨by rwa [update_of_ne hne] at hp, hx⟩, hne⟩
  · rintro ⟨⟨hp, hx⟩, hne⟩
    exact ⟨⟨by rwa [update_of_ne hne], hx⟩, hne⟩

theorem encard_bucket_height (hc : parent c = some a) (n : Nat) :
    (bucket parent (update height c n) a h).encard + (if h = height c then 1 else 0) =
      (bucket parent height a h).encard + if h = n then 1 else 0 := by
  have h₁ : (bucket parent height a h).encard =
      (bucket parent height a h \ {c}).encard + if h = height c then 1 else 0 := encard_bucket hc
  rw [encard_bucket hc, h₁, bucket_update_height, update_self, add_right_comm]

theorem bucket_height_of_ne (hc : parent c ≠ some a) (n : Nat) :
    bucket parent (update height c n) a h = bucket parent height a h := by
  rw [← bucket_of_ne hc, bucket_update_height, bucket_of_ne hc]

theorem encard_bucket_link (hc : parent c = none) : (bucket (update parent c (some a)) height a h).encard =
      (bucket parent height a h).encard + if h = height c then 1 else 0 := by
  rw [encard_bucket (c := c) (by rw [update_self]), bucket_update_parent, bucket_of_ne (by simp [hc])]

theorem bucket_parent_of_ne {q : Option α} (hc : parent c ≠ some a) (hq : q ≠ some a) :
    bucket (update parent c q) height a h = bucket parent height a h := by
  have hq' : update parent c q c ≠ some a := by rwa [update_self]
  rw [← bucket_of_ne hq', bucket_update_parent, bucket_of_ne hc]

theorem encard_bucket_unlink (hc : parent c = some a) : (bucket parent height a h).encard =
      (bucket (update parent c none) height a h).encard + if h = height c then 1 else 0 := by
  have hnone : update parent c none c ≠ some a := by simp
  rw [encard_bucket hc, ← bucket_of_ne hnone, bucket_update_parent]

end Bucket

/-! ## A new link -/

theorem Chain.of_link [DecidableEq α] {d : α} (h : Chain (update parent c (some p)) n d a)
    (hd : ∀ k, ¬ Chain parent k d c) : Chain parent n d a := by
  induction h with
  | refl a => exact .refl a
  | @step n d q a hp _ ih =>
    have hne : d ≠ c := fun e => hd 0 (e ▸ .refl _)
    rw [update_of_ne hne] at hp
    exact .step hp (ih fun k hk => hd (k + 1) (.step hp hk))

theorem Chain.link_cases [DecidableEq α] {d : α}
    (h : Chain (update parent c (some p)) n d a) (hp : ∀ k, ¬ Chain parent k p c) :
    Chain parent n d a ∨ ∃ m k, n = m + 1 + k ∧ Chain parent m d c ∧ Chain parent k p a := by
  induction h with
  | refl a => exact .inl (.refl a)
  | @step n d q a hq h ih =>
    by_cases hdc : d = c
    · subst hdc
      rw [update_self] at hq
      obtain rfl := Option.some_inj.mp hq
      exact .inr ⟨0, n, by omega, .refl d, h.of_link hp⟩
    · rw [update_of_ne hdc] at hq
      rcases ih with ih | ⟨m, k, hn, hm, hk⟩
      · exact .inl (.step hq ih)
      · exact .inr ⟨m + 1, k, by omega, .step hq hm, hk⟩

/-- A link that keeps the chains through it within the cap keeps the bound. -/
theorem bounded_link [DecidableEq α] (h : Bounded parent cap) (hp : ∀ k, ¬ Chain parent k p c)
    (hthrough : ∀ m k d a, Chain parent m d c → Chain parent k p a → m + 1 + k ≤ cap) :
    Bounded (update parent c (some p)) cap := by
  intro n d a hchain
  rcases hchain.link_cases hp with hold | ⟨m, k, rfl, hm, hk⟩
  · exact h n d a hold
  · exact hthrough m k d a hm hk

end Trustgraphs.Forest
