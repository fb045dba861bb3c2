import Mathlib

/-!
# Runs of a machine that may refuse

A machine takes an input to its next state, or refuses it and stays where it is. A run is a list of
inputs. What accepted inputs preserve holds throughout a run (`run_holds`); a condition that holds at
the end and not at the start began with an accepted input and has held ever since (`exists_onset`);
what is pending has been pending since an input put it there (`exists_undisturbed`); a number that one
kind of input raises and no input lowers is never given out twice (`marks_pairwise`).
-/

namespace Trustgraphs.Run

open List

variable {σ ι : Type*} (step : ι → σ → Option σ)

/-- A step, where a failed one leaves the state. -/
def apply (s : σ) (i : ι) : σ := (step i s).getD s

/-- The state after a list of inputs. -/
def run (s : σ) (is : List ι) : σ := is.foldl (apply step) s

/-- The values of `f` right after the accepted inputs of the kind `p`, oldest first. -/
def marks {ν : Type*} (p : ι → Bool) (f : σ → ν) : σ → List ι → List ν
  | _, [] => []
  | s, i :: is =>
    match step i s with
    | some s' => if p i then f s' :: marks p f s' is else marks p f s' is
    | none => marks p f s is

/-- The inputs `since` leave what is pending in `s` as it is, and none that withdraws it is accepted. -/
structure Undisturbed {π : Type*} (pending : σ → π) (withdraws : ι → Prop) (s : σ) (since : List ι) : Prop where
  pending_eq : ∀ mid rest, since = mid ++ rest → pending (run step s mid) = pending s
  refused : ∀ mid k rest, since = mid ++ k :: rest → withdraws k → step k (run step s mid) = none

variable {step}

@[simp]
theorem run_nil (s : σ) : run step s [] = s := rfl

@[simp]
theorem run_cons (s : σ) (i : ι) (is : List ι) : run step s (i :: is) = run step (apply step s i) is := rfl

@[simp]
theorem run_append (s : σ) (is js : List ι) : run step s (is ++ js) = run step (run step s is) js := by
  simp only [run, foldl_append]

theorem apply_accepted {s s' : σ} {i : ι} (h : step i s = some s') : apply step s i = s' := by
  rw [apply, h]
  rfl

theorem apply_refused {s : σ} {i : ι} (h : step i s = none) : apply step s i = s := by
  rw [apply, h]
  rfl

theorem apply_holds {P : σ → Prop} (hstep : ∀ i s s', P s → step i s = some s' → P s') {s : σ}
    (hs : P s) (i : ι) : P (apply step s i) := by
  cases h : step i s with
  | none => exact (apply_refused h).symm ▸ hs
  | some s' => exact (apply_accepted h).symm ▸ hstep i s s' hs h

/-- What accepted inputs preserve holds after every run. -/
theorem run_holds {P : σ → Prop} (hstep : ∀ i s s', P s → step i s = some s' → P s') {s : σ}
    (hs : P s) (is : List ι) : P (run step s is) := by
  induction is generalizing s with
  | nil => exact hs
  | cons i is ih => exact ih (apply_holds hstep hs i)

/-- A condition that the run brought about began with an accepted input and held ever since. -/
theorem exists_onset {P : σ → Prop} {s : σ} {is : List ι} (hs : ¬ P s) (hP : P (run step s is)) :
    ∃ before i after s', is = before ++ i :: after ∧ ¬ P (run step s before) ∧
      step i (run step s before) = some s' ∧ P s' ∧
      ∀ mid rest, after = mid ++ rest → P (run step s' mid) := by
  induction is using List.reverseRecOn with
  | nil => exact absurd hP hs
  | append_singleton is i ih =>
    by_cases hbefore : P (run step s is)
    · obtain ⟨before, j, after, s', rfl, hnot, hj, hs', hsince⟩ := ih hbefore
      refine ⟨before, j, after ++ [i], s', by simp, hnot, hj, hs', fun mid rest hsplit => ?_⟩
      rcases eq_nil_or_concat rest with rfl | ⟨rest, k, rfl⟩
      · have hend : run step s (before ++ j :: after ++ [i]) = run step s' (after ++ [i]) := by
          rw [append_assoc, run_append, cons_append, run_cons, apply_accepted hj]
        rw [append_nil] at hsplit
        rw [← hsplit, ← hend]
        exact hP
      · have hsplit' : after ++ [i] = (mid ++ rest) ++ [k] := by
          rw [hsplit, concat_eq_append, append_assoc]
        exact hsince mid rest (append_inj' hsplit' rfl).1
    · -- the last input makes the condition true
      rw [run_append, run_cons, run_nil] at hP
      cases hi : step i (run step s is) with
      | none =>
        rw [apply_refused hi] at hP
        exact absurd hP hbefore
      | some s' =>
        rw [apply_accepted hi] at hP
        refine ⟨is, i, [], s', rfl, hbefore, hi, hP, fun mid rest hsplit => ?_⟩
        obtain ⟨rfl, -⟩ := append_eq_nil_iff.mp hsplit.symm
        exact hP

/-- What is pending was put there by an input and has not been touched since. -/
theorem exists_undisturbed {π : Type*} (step : ι → σ → Option σ) (pending : σ → π) (idle : π → Prop)
    (puts : ι → σ → σ → Prop) (withdraws : ι → Prop) {P : σ → Prop}
    (hP : ∀ i s s', P s → step i s = some s' → P s') (hstep : ∀ i s s', P s → step i s = some s' →
      pending s' = pending s ∧ ¬ withdraws i ∨ idle (pending s') ∨ puts i s s' ∧ ¬ withdraws i)
    {s : σ} {before : List ι} (hs : P s) (hidle : idle (pending s))
    (hpending : ¬ idle (pending (run step s before))) :
    ∃ earlier j since s', before = earlier ++ j :: since ∧
      step j (run step s earlier) = some s' ∧ puts j (run step s earlier) s' ∧
      pending s' = pending (run step s before) ∧ Undisturbed step pending withdraws s' since := by
  have hstart : ¬ pending s = pending (run step s before) := fun heq => hpending (heq ▸ hidle)
  obtain ⟨earlier, j, since, s', hsplit, hnot, hj, hs', hsince⟩ :=
    exists_onset (P := fun t => pending t = pending (run step s before)) hstart rfl
  have hafter : ∀ mid, P (run step s' mid) :=
    fun mid => run_holds hP (hP j _ s' (run_holds hP hs earlier) hj) mid
  refine ⟨earlier, j, since, s', hsplit, hj, ?_, hs', fun mid rest hmid => ?_, fun mid k rest hmid hk => ?_⟩
  · rcases hstep j _ s' (run_holds hP hs earlier) hj with ⟨hsame, -⟩ | hidle' | ⟨hputs, -⟩
    · exact absurd (hsame.symm.trans hs') hnot
    · exact absurd (hs' ▸ hidle') hpending
    · exact hputs
  · exact (hsince mid rest hmid).trans hs'.symm
  · cases hc : step k (run step s' mid) with
    | none => rfl
    | some t =>
      have hrun : run step s' (mid ++ [k]) = t := by
        rw [run_append]
        exact apply_accepted hc
      have hkept := hsince (mid ++ [k]) rest (by rw [hmid, append_assoc, singleton_append])
      rw [hrun] at hkept
      rcases hstep k _ t (hafter mid) hc with ⟨-, hno⟩ | hidle' | ⟨-, hno⟩
      · exact absurd hk hno
      · exact absurd (hkept ▸ hidle') hpending
      · exact absurd hk hno

section MarksOfParts

variable {ν : Type*} {p : ι → Bool} {f : σ → ν}

theorem marks_refused {s : σ} {i : ι} (h : step i s = none) (is : List ι) :
    marks step p f s (i :: is) = marks step p f s is := by
  rw [marks, h]

theorem marks_accepted {s s' : σ} {i : ι} (h : step i s = some s') (is : List ι) :
    marks step p f s (i :: is) = if p i then f s' :: marks step p f s' is else marks step p f s' is := by
  rw [marks, h]

theorem marks_append (s : σ) (is js : List ι) :
    marks step p f s (is ++ js) = marks step p f s is ++ marks step p f (run step s is) js := by
  induction is generalizing s with
  | nil => rfl
  | cons i is ih =>
    rw [cons_append, run_cons]
    cases h : step i s with
    | none =>
      rw [apply_refused h, marks_refused h, marks_refused h]
      exact ih s
    | some s' =>
      rw [apply_accepted h, marks_accepted h, marks_accepted h, ih]
      by_cases hp : p i = true
      · rw [if_pos hp, if_pos hp, cons_append]
      · rw [if_neg hp, if_neg hp]

end MarksOfParts

section Marks

variable {ν : Type*} [Preorder ν] {p : ι → Bool} {f : σ → ν}

theorem lt_of_mem_marks {P : σ → Prop}
    (hstep : ∀ i s s', P s → step i s = some s' → P s' ∧ f s ≤ f s' ∧ (p i = true → f s < f s'))
    {s : σ} (hs : P s) {is : List ι} {n : ν} (hn : n ∈ marks step p f s is) : f s < n := by
  induction is generalizing s with
  | nil => exact absurd hn not_mem_nil
  | cons i is ih =>
    unfold marks at hn
    cases h : step i s with
    | none =>
      rw [h] at hn
      exact ih hs hn
    | some s' =>
      rw [h] at hn
      obtain ⟨hs', hle, hlt⟩ := hstep i s s' hs h
      dsimp only at hn
      by_cases hp : p i = true
      · rw [if_pos hp] at hn
        rcases mem_cons.mp hn with rfl | hn
        · exact hlt hp
        · exact lt_of_le_of_lt hle (ih hs' hn)
      · rw [if_neg hp] at hn
        exact lt_of_le_of_lt hle (ih hs' hn)

/-- The marks of a run rise. -/
theorem marks_pairwise {P : σ → Prop}
    (hstep : ∀ i s s', P s → step i s = some s' → P s' ∧ f s ≤ f s' ∧ (p i = true → f s < f s'))
    {s : σ} (hs : P s) (is : List ι) : (marks step p f s is).Pairwise (· < ·) := by
  induction is generalizing s with
  | nil => exact List.Pairwise.nil
  | cons i is ih =>
    unfold marks
    cases h : step i s with
    | none => exact ih hs
    | some s' =>
      obtain ⟨hs', -, -⟩ := hstep i s s' hs h
      dsimp only
      by_cases hp : p i = true
      · rw [if_pos hp]
        exact List.Pairwise.cons (fun n hn => lt_of_mem_marks hstep hs' hn) (ih hs')
      · rw [if_neg hp]
        exact ih hs'

end Marks

end Trustgraphs.Run
