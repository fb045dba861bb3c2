import Mathlib

/-!
# Replaying events on registers

Every event belongs to a register. An event may put itself in its register, or clear the register when
it holds an event with the same name. What a register holds in the end is the last event that was put
there, unless its name was cleared afterwards (`replay_eq_some`); so it depends on the order of the
events only through what comes after what (`replay_sorted`).
-/

namespace Trustgraphs

open Function List

/-- Events that set a register, or clear it by naming what it holds. -/
structure Registers (E K I : Type*) where
  /-- The register of an event. -/
  key : E → K
  /-- The name of an event. -/
  name : E → I
  sets : E → Bool
  clears : E → Bool

namespace Registers

variable {E E' K I : Type*} [DecidableEq K] [DecidableEq I] (R : Registers E K I)

/-- One event at the registers. -/
def apply (held : K → Option E) (e : E) : K → Option E :=
  if R.sets e then update held (R.key e) (some e)
  else if R.clears e ∧ (held (R.key e)).any (fun f => decide (R.name f = R.name e)) then
    update held (R.key e) none
  else held

/-- The registers after a list of events. -/
def replay (l : List E) : K → Option E := l.foldl R.apply fun _ => none

/-- After `e`, the event `f` puts another one in its register or clears it. -/
def Displaces (e f : E) : Prop :=
  R.key f = R.key e ∧ (R.sets f = true ∨ R.clears f = true ∧ R.name f = R.name e)

variable {R} {l pre post : List E} {e f : E} {k : K}

theorem replay_concat (l : List E) (e : E) : R.replay (l ++ [e]) = R.apply (R.replay l) e := by
  simp [replay]

theorem apply_eq_some {held : K → Option E} : R.apply held f k = some e ↔
    (R.sets f = true ∧ R.key f = k ∧ f = e) ∨ held k = some e ∧ ¬ (R.key f = k ∧ (R.sets f = true ∨
        R.clears f = true ∧ R.name f = R.name e)) := by
  unfold apply
  by_cases hset : R.sets f = true
  · by_cases hk : R.key f = k
    · subst hk
      simp [hset]
    · simp [hset, hk, update_of_ne (Ne.symm hk)]
  · by_cases hk : R.key f = k
    · subst hk
      cases hheld : held (R.key f) with
      | none => simp [hset, hheld]
      | some g =>
        by_cases hg : R.name g = R.name f
        · by_cases hc : R.clears f = true
          · simp only [hset, hc, hg, Option.any_some, decide_true, and_self, if_true, if_false,
              Bool.false_eq_true, update_self, false_and, false_or, true_and]
            constructor
            · simp
            · rintro ⟨hge, hne⟩
              exact absurd (by rw [← Option.some.inj hge, hg]) hne
          · simp [hset, hc, hheld]
        · simp only [hset, hg, Option.any_some, decide_false, Bool.false_eq_true, and_false, if_false,
            hheld, false_and, false_or, true_and, not_and]
          refine ⟨fun hge => ⟨hge, fun _ he => hg ?_⟩, And.left⟩
          rw [Option.some.inj hge, he]
    · have hupdate : update held (R.key f) none k = held k :=
        update_of_ne (Ne.symm hk) ..
      by_cases hc : R.clears f ∧ (held (R.key f)).any (fun g => decide (R.name g = R.name f))
      · rw [if_neg hset, if_pos hc, hupdate]
        simp [hset, hk]
      · rw [if_neg hset, if_neg hc]
        simp [hset, hk]

/-- A register holds the last event that set it and was not displaced. -/
theorem replay_eq_some : R.replay l k = some e ↔
    R.sets e = true ∧ R.key e = k ∧ ∃ pre post, l = pre ++ e :: post ∧ ∀ f ∈ post, ¬ R.Displaces e f := by
  induction l using List.reverseRecOn generalizing e with
  | nil => simp [replay]
  | append_singleton l f ih =>
    rw [replay_concat, apply_eq_some, ih]
    constructor
    · rintro (⟨hset, hk, rfl⟩ | ⟨⟨hset, hk, pre, post, rfl, hpost⟩, hf⟩)
      · exact ⟨hset, hk, l, [], rfl, fun _ h => absurd h not_mem_nil⟩
      · refine ⟨hset, hk, pre, post ++ [f], by simp, fun g hg => ?_⟩
        rcases mem_append.mp hg with hg | hg
        · exact hpost g hg
        · rw [mem_singleton.mp hg, Displaces, hk]
          exact hf
    · rintro ⟨hset, hk, pre, post, hl, hpost⟩
      rcases eq_nil_or_concat post with rfl | ⟨post, g, rfl⟩
      · obtain ⟨rfl, he⟩ := append_inj' hl rfl
        exact .inl ⟨by rw [List.cons.inj he |>.1]; exact hset, by rw [List.cons.inj he |>.1]; exact hk,
          (List.cons.inj he).1⟩
      · have hl' : l ++ [f] = (pre ++ e :: post) ++ [g] := by simp [hl]
        obtain ⟨rfl, he⟩ := append_inj' hl' rfl
        obtain rfl : f = g := (List.cons.inj he).1
        have hf := hpost f (by simp)
        rw [Displaces, hk] at hf
        exact .inr ⟨⟨hset, hk, pre, post, rfl, fun h hh => hpost h (by simp [hh])⟩, hf⟩

theorem replay_mem (h : R.replay l k = some e) : e ∈ l ∧ R.sets e = true ∧ R.key e = k := by
  obtain ⟨hset, hk, pre, post, rfl, -⟩ := replay_eq_some.mp h
  exact ⟨by simp, hset, hk⟩

theorem replay_sorted {lt : E → E → Prop} (hs : l.Pairwise lt) (hasymm : ∀ a b, lt a b → ¬ lt b a) :
    R.replay l k = some e ↔ e ∈ l ∧ R.sets e = true ∧ R.key e = k ∧ ∀ f ∈ l, lt e f → ¬ R.Displaces e f := by
  have hirrefl : ∀ a, ¬ lt a a := fun a h => hasymm a a h h
  rw [replay_eq_some]
  constructor
  · rintro ⟨hset, hk, pre, post, rfl, hpost⟩
    refine ⟨by simp, hset, hk, fun f hf hlt => ?_⟩
    rw [pairwise_append, pairwise_cons] at hs
    obtain ⟨-, ⟨-, -⟩, hcross⟩ := hs
    rcases mem_append.mp hf with hf | hf
    · exact absurd hlt (hasymm _ _ (hcross f hf e (by simp)))
    · rcases mem_cons.mp hf with rfl | hf
      · exact absurd hlt (hirrefl _)
      · exact hpost f hf
  · rintro ⟨he, hset, hk, hlater⟩
    obtain ⟨pre, post, rfl⟩ := append_of_mem he
    refine ⟨hset, hk, pre, post, rfl, fun f hf => hlater f (by simp [hf]) ?_⟩
    rw [pairwise_append, pairwise_cons] at hs
    exact hs.2.1.1 f hf

theorem replay_rename {K' I' : Type*} [DecidableEq K'] [DecidableEq I'] {R' : Registers E K' I'}
    {onKey : K → K'} {onName : I → I'} (hkey : Injective onKey) (hname : Injective onName)
    (h : ∀ a ∈ l, R'.key a = onKey (R.key a) ∧ R'.name a = onName (R.name a) ∧
      R'.sets a = R.sets a ∧ R'.clears a = R.clears a) :
    R'.replay l (onKey k) = R.replay l k := by
  refine Option.ext fun e => ?_
  rw [replay_eq_some, replay_eq_some]
  have hdisplaces : ∀ a ∈ l, ∀ b ∈ l, (R'.Displaces a b ↔ R.Displaces a b) := by
    intro a ha b hb
    obtain ⟨hka, hna, -, -⟩ := h a ha
    obtain ⟨hkb, hnb, hsb, hcb⟩ := h b hb
    rw [Displaces, Displaces, hka, hkb, hna, hnb, hsb, hcb, hkey.eq_iff, hname.eq_iff]
  constructor
  · rintro ⟨hset, hk, pre, post, rfl, hpost⟩
    obtain ⟨hke, -, hse, -⟩ := h e (by simp)
    refine ⟨hse ▸ hset, hkey (hke ▸ hk), pre, post, rfl, fun f hf hd => hpost f hf ?_⟩
    exact (hdisplaces e (by simp) f (by simp [hf])).mpr hd
  · rintro ⟨hset, hk, pre, post, rfl, hpost⟩
    obtain ⟨hke, -, hse, -⟩ := h e (by simp)
    refine ⟨hse.trans hset, hke.trans (congrArg onKey hk), pre, post, rfl, fun f hf hd => hpost f hf ?_⟩
    exact (hdisplaces e (by simp) f (by simp [hf])).mp hd

theorem replay_sorted_once {lt : E → E → Prop} (hs : l.Pairwise lt) (hasymm : ∀ a b, lt a b → ¬ lt b a)
    (hclear : ∀ c ∈ l, R.clears c = true → ∀ a ∈ l, R.sets a = true → R.name c = R.name a →
      R.key c = R.key a ∧ lt a c) :
    R.replay l k = some e ↔ e ∈ l ∧ R.sets e = true ∧ R.key e = k ∧
      (∀ f ∈ l, R.clears f = true → R.name f ≠ R.name e) ∧
      ∀ f ∈ l, R.sets f = true → R.key f = k → ¬ lt e f := by
  rw [replay_sorted hs hasymm]
  constructor
  · rintro ⟨he, hset, hk, hlater⟩
    refine ⟨he, hset, hk, fun f hf hc hn => ?_, fun f hf hsf hkf hlt => ?_⟩
    · obtain ⟨hkf, hlt⟩ := hclear f hf hc e he hset hn
      exact hlater f hf hlt ⟨hkf, .inr ⟨hc, hn⟩⟩
    · exact hlater f hf hlt ⟨hkf.trans hk.symm, .inl hsf⟩
  · rintro ⟨he, hset, hk, hnot, hlast⟩
    refine ⟨he, hset, hk, fun f hf hlt hd => ?_⟩
    obtain ⟨hkf, hsf | ⟨hc, hn⟩⟩ := hd
    · exact hlast f hf hsf (hkf.trans hk) hlt
    · exact hnot f hf hc hn

/-- The registers of events seen through a map. -/
def comap (R : Registers E K I) (g : E' → E) : Registers E' K I :=
  ⟨R.key ∘ g, R.name ∘ g, R.sets ∘ g, R.clears ∘ g⟩

theorem replay_map (g : E' → E) (l : List E') : R.replay (l.map g) k = ((R.comap g).replay l k).map g := by
  refine Option.ext fun e => ?_
  rw [Option.map_eq_some_iff]
  induction l using List.reverseRecOn generalizing e with
  | nil => simp [replay]
  | append_singleton l f ih =>
    rw [map_append, map_singleton, replay_concat, replay_concat, apply_eq_some, ih]
    simp only [apply_eq_some]
    constructor
    · rintro (⟨hset, hk, rfl⟩ | ⟨⟨a, ha, rfl⟩, hf⟩)
      · exact ⟨f, .inl ⟨hset, hk, rfl⟩, rfl⟩
      · exact ⟨a, .inr ⟨ha, hf⟩, rfl⟩
    · rintro ⟨a, ⟨hset, hk, rfl⟩ | ⟨ha, hf⟩, rfl⟩
      · exact .inl ⟨hset, hk, rfl⟩
      · exact .inr ⟨⟨a, ha, rfl⟩, hf⟩

end Registers

end Trustgraphs
