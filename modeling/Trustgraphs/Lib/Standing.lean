import Trustgraphs.Lib.Tally

/-!
# Standing on a finite weighted graph

A fixed amount `scale` of standing is spread over finitely many nodes. In every round a node keeps a
share of its initial standing (`teleport`) and receives, from every source, a damped and decayed
fraction of the source's standing. All divisions round down, so standing can be lost but never
created: the total of a round stays at most `scale` (`total_step_le`), and the rounding dust is given
back once at the end (`total_normalize`).

Only *live* nodes take part. What the other nodes do is invisible: two graphs that agree on the live
nodes give every node the same standing, round by round (`Extends`).
-/

namespace Trustgraphs

open Option Finset

theorem sum_div_le {ι : Type*} (s : Finset ι) (f : ι → ℕ) (d : ℕ) : ∑ i ∈ s, f i / d ≤ (∑ i ∈ s, f i) / d := by
  have h := Rounding.sum_floor_le (s.toList.map f) d
  rwa [List.map_map, sum_map_toList, sum_map_toList] at h

/-- A graph on which standing is spread. `ratio i j` is the fraction of `i`'s standing that goes to
`j` and `decay i` the fraction of it that is left to pass on, both out of `scale`. -/
structure Standing (K : Type) [LinearOrder K] where
  nodes : Finset K
  live : Finset K
  scale : ℕ
  damping : ℕ
  init : K → ℕ
  decay : K → ℕ
  ratio : K → K → ℕ
  live_subset : live ⊆ nodes
  scale_pos : 0 < scale
  damping_le : damping ≤ scale
  init_sum_le : ∑ k ∈ nodes, init k ≤ scale
  init_dead : ∀ k ∉ live, init k = 0
  decay_le : ∀ k, decay k ≤ scale
  ratio_sum_le : ∀ i, ∑ j ∈ nodes, ratio i j ≤ scale
  ratio_dead : ∀ i, ∀ j ∉ live, ratio i j = 0

namespace Standing

variable {K : Type} [LinearOrder K] (G : Standing K)

/-- The part of the step that does not come from the standings. -/
def teleport (k : K) : ℕ := (G.scale - G.damping) * G.init k / G.scale

/-- What `i` passes on to `j` when standing is spread as `x`. -/
def flow (x : K → ℕ) (i j : K) : ℕ :=
  G.damping * (x i * G.ratio i j / G.scale * G.decay i / G.scale) / G.scale

/-- One step of the iteration. -/
def step (x : K → ℕ) (j : K) : ℕ := G.teleport j + ∑ i ∈ G.nodes, G.flow x i j

/-- The sum over the nodes. -/
def total (x : K → ℕ) : ℕ := ∑ k ∈ G.nodes, x k

/-- The distance of two numbers. -/
def absDiff (a b : ℕ) : ℕ := if b < a then a - b else b - a

/-- The largest change of a live node between two rounds. -/
def maxDelta (x y : K → ℕ) : ℕ := G.live.sup fun k => absDiff (x k) (y k)

/-- At most `n` rounds, stopping after the first one that changes no live node by `tol` or more.
Returns the standing, the number of rounds and whether that stop was reached. -/
def run (tol : ℕ) : ℕ → (K → ℕ) → (K → ℕ) × ℕ × Bool
  | 0, x => (x, 0, false)
  | n + 1, x =>
    if G.maxDelta (G.step x) x < tol then (G.step x, 1, true)
    else
      let r := run tol n (G.step x)
      (r.1, r.2.1 + 1, r.2.2)

/-- The standing brought to the scale, rounded down. -/
def scaled (x : K → ℕ) (k : K) : ℕ := if G.total x = 0 then x k else x k * G.scale / G.total x

/-- The nodes that rounding leaves a standing. -/
def positive (x : K → ℕ) : Finset K := G.nodes.filter fun k => G.scaled x k ≠ 0

/-- The node that the rounding dust goes to: the first one with standing, else the first live one,
else the first one. -/
def recipient (x : K → ℕ) : Option K :=
  if h : (G.positive x).Nonempty then some ((G.positive x).min' h)
  else if h : G.live.Nonempty then some (G.live.min' h)
  else if h : G.nodes.Nonempty then some (G.nodes.min' h)
  else none

/-- The scaled standing, what rounding took given to one recipient. -/
def normalize (x : K → ℕ) (k : K) : ℕ :=
  G.scaled x k + if G.recipient x = some k then G.scale - G.total (G.scaled x) else 0

/-! ## One round creates no standing -/

theorem ratio_le (i : K) {j : K} (hj : j ∈ G.nodes) : G.ratio i j ≤ G.scale :=
  (single_le_sum (f := G.ratio i) (fun _ _ => Nat.zero_le _) hj).trans (G.ratio_sum_le i)

theorem sum_flow_le (x : K → ℕ) (i : K) : ∑ j ∈ G.nodes, G.flow x i j ≤ G.damping * x i / G.scale := by
  have hS := G.scale_pos
  have hdec : ∀ j, x i * G.ratio i j / G.scale * G.decay i / G.scale ≤ x i * G.ratio i j / G.scale := by
    intro j
    apply Nat.div_le_of_le_mul
    rw [Nat.mul_comm G.scale]
    exact Nat.mul_le_mul_left _ (G.decay_le i)
  have hshare : ∑ j ∈ G.nodes, x i * G.ratio i j / G.scale ≤ x i := by
    calc ∑ j ∈ G.nodes, x i * G.ratio i j / G.scale
        ≤ (∑ j ∈ G.nodes, x i * G.ratio i j) / G.scale := sum_div_le _ _ _
      _ = x i * (∑ j ∈ G.nodes, G.ratio i j) / G.scale := by rw [mul_sum]
      _ ≤ x i * G.scale / G.scale := Nat.div_le_div_right (Nat.mul_le_mul_left _ (G.ratio_sum_le i))
      _ = x i := Nat.mul_div_cancel _ hS
  calc ∑ j ∈ G.nodes, G.flow x i j
      ≤ ∑ j ∈ G.nodes, G.damping * (x i * G.ratio i j / G.scale) / G.scale :=
        sum_le_sum fun j _ => Nat.div_le_div_right (Nat.mul_le_mul_left _ (hdec j))
    _ ≤ (∑ j ∈ G.nodes, G.damping * (x i * G.ratio i j / G.scale)) / G.scale := sum_div_le _ _ _
    _ = G.damping * (∑ j ∈ G.nodes, x i * G.ratio i j / G.scale) / G.scale := by rw [mul_sum]
    _ ≤ G.damping * x i / G.scale := Nat.div_le_div_right (Nat.mul_le_mul_left _ hshare)

theorem sum_teleport_le : ∑ j ∈ G.nodes, G.teleport j ≤ G.scale - G.damping := by
  calc ∑ j ∈ G.nodes, G.teleport j
      ≤ (∑ j ∈ G.nodes, (G.scale - G.damping) * G.init j) / G.scale := sum_div_le _ _ _
    _ = (G.scale - G.damping) * (∑ j ∈ G.nodes, G.init j) / G.scale := by rw [mul_sum]
    _ ≤ (G.scale - G.damping) * G.scale / G.scale :=
        Nat.div_le_div_right (Nat.mul_le_mul_left _ G.init_sum_le)
    _ = G.scale - G.damping := Nat.mul_div_cancel _ G.scale_pos

theorem total_step_le (x : K → ℕ) (hx : G.total x ≤ G.scale) : G.total (G.step x) ≤ G.scale := by
  have hflow : ∑ j ∈ G.nodes, ∑ i ∈ G.nodes, G.flow x i j ≤ G.damping := by
    rw [sum_comm]
    calc ∑ i ∈ G.nodes, ∑ j ∈ G.nodes, G.flow x i j
        ≤ ∑ i ∈ G.nodes, G.damping * x i / G.scale := sum_le_sum fun i _ => G.sum_flow_le x i
      _ ≤ (∑ i ∈ G.nodes, G.damping * x i) / G.scale := sum_div_le _ _ _
      _ = G.damping * G.total x / G.scale := by rw [← mul_sum]; rfl
      _ ≤ G.damping * G.scale / G.scale := Nat.div_le_div_right (Nat.mul_le_mul_left _ hx)
      _ = G.damping := Nat.mul_div_cancel _ G.scale_pos
  have htel := G.sum_teleport_le
  have hd := G.damping_le
  have hsum : G.total (G.step x) = ∑ j ∈ G.nodes, G.teleport j + ∑ j ∈ G.nodes, ∑ i ∈ G.nodes, G.flow x i j :=
    sum_add_distrib
  omega

variable {x : K → ℕ} {k : K}

theorem le_total (hk : k ∈ G.nodes) : x k ≤ G.total x :=
  single_le_sum (f := x) (fun _ _ => Nat.zero_le _) hk

theorem total_init_le : G.total G.init ≤ G.scale := G.init_sum_le

/-- No iteration makes more standing than the scale. -/
theorem total_run_le (tol n : ℕ) (x : K → ℕ) (hx : G.total x ≤ G.scale) :
    G.total (G.run tol n x).1 ≤ G.scale := by
  induction n generalizing x with
  | zero => exact hx
  | succ n ih =>
    rw [run]
    split
    · exact G.total_step_le x hx
    · exact ih _ (G.total_step_le x hx)

/-! ## Nodes that are not live -/

/-- No standing outside the live nodes. -/
def Dead (x : K → ℕ) : Prop := ∀ k ∉ G.live, x k = 0

theorem dead_init : G.Dead G.init := G.init_dead

theorem dead_step (x : K → ℕ) : G.Dead (G.step x) := by
  intro k hk
  have ht : G.teleport k = 0 := by simp [teleport, G.init_dead k hk]
  have hf : ∀ i ∈ G.nodes, G.flow x i k = 0 := fun i _ => by simp [flow, G.ratio_dead i k hk]
  rw [step, ht, sum_eq_zero hf, Nat.add_zero]

/-- Dead nodes stay dead. -/
theorem dead_run (tol n : ℕ) (x : K → ℕ) (hx : G.Dead x) : G.Dead (G.run tol n x).1 := by
  induction n generalizing x with
  | zero => exact hx
  | succ n ih =>
    rw [run]
    split
    · exact G.dead_step x
    · exact ih _ (G.dead_step x)

theorem total_eq_sum_live (hx : G.Dead x) : G.total x = ∑ k ∈ G.live, x k :=
  (sum_subset G.live_subset fun k _ hk => hx k hk).symm

theorem dead_scaled (hx : G.Dead x) : G.Dead (G.scaled x) := by
  intro k hk
  simp [scaled, hx k hk]

/-! ## Normalization -/

theorem total_scaled_le (x : K → ℕ) : G.total (G.scaled x) ≤ G.scale := by
  by_cases h : G.total x = 0
  · have e : G.scaled x = x := funext fun k => by simp [scaled, h]
    rw [e, h]
    exact Nat.zero_le _
  · have e : G.total (G.scaled x) = ∑ k ∈ G.nodes, x k * G.scale / G.total x :=
      sum_congr rfl fun k _ => by simp [scaled, h]
    calc G.total (G.scaled x) = ∑ k ∈ G.nodes, x k * G.scale / G.total x := e
      _ ≤ (∑ k ∈ G.nodes, x k * G.scale) / G.total x := sum_div_le _ _ _
      _ = G.total x * G.scale / G.total x := by rw [← sum_mul]; rfl
      _ = G.scale := Nat.mul_div_cancel_left _ (Nat.pos_of_ne_zero h)

theorem recipient_mem (h : G.recipient x = some k) : k ∈ G.nodes := by
  unfold recipient at h
  split at h
  · rename_i hne
    rw [← some_inj.mp h]
    exact (mem_filter.mp ((G.positive x).min'_mem hne)).1
  · split at h
    · rename_i hne
      rw [← some_inj.mp h]
      exact G.live_subset (G.live.min'_mem hne)
    · split at h
      · rename_i hne
        rw [← some_inj.mp h]
        exact G.nodes.min'_mem hne
      · exact absurd h (by simp)

theorem recipient_isSome (x : K → ℕ) (h : G.nodes.Nonempty) : ∃ k, G.recipient x = some k := by
  unfold recipient
  split
  · exact ⟨_, rfl⟩
  · split
    · exact ⟨_, rfl⟩
    · exact ⟨_, rfl⟩

theorem recipient_mem_live (hx : G.Dead x) (hl : G.live.Nonempty)
    (h : G.recipient x = some k) : k ∈ G.live := by
  unfold recipient at h
  split at h
  · rename_i hne
    rw [← some_inj.mp h]
    have hmem := (mem_filter.mp ((G.positive x).min'_mem hne)).2
    by_contra hk
    exact hmem (G.dead_scaled hx _ hk)
  · rw [← some_inj.mp h]
    exact G.live.min'_mem hl

/-- The normalized standings sum up to the scale. -/
theorem total_normalize (x : K → ℕ) (h : G.nodes.Nonempty) : G.total (G.normalize x) = G.scale := by
  obtain ⟨r, hr⟩ := G.recipient_isSome x h
  have hle := G.total_scaled_le x
  have hdust : ∑ k ∈ G.nodes, (if G.recipient x = some k then G.scale - G.total (G.scaled x) else 0) =
      G.scale - G.total (G.scaled x) := by
    rw [hr]
    simp only [some_inj]
    rw [sum_ite_eq, if_pos (G.recipient_mem hr)]
  have hsum : G.total (G.normalize x) = G.total (G.scaled x) +
      ∑ k ∈ G.nodes, (if G.recipient x = some k then G.scale - G.total (G.scaled x) else 0) :=
    sum_add_distrib
  omega

theorem dead_normalize (hx : G.Dead x) (hl : G.live.Nonempty) : G.Dead (G.normalize x) := by
  intro k hk
  have hne : G.recipient x ≠ some k := fun h => hk (G.recipient_mem_live hx hl h)
  simp [normalize, G.dead_scaled hx k hk, hne]

/-! ## Graphs that agree on the live nodes -/

/-- `H` has the nodes of `G` and possibly others, the same live ones, and agrees with `G` on what the
live nodes do. What the other nodes do is free. -/
structure Extends (G H : Standing K) : Prop where
  nodes : G.nodes ⊆ H.nodes
  live : H.live = G.live
  scale : H.scale = G.scale
  damping : H.damping = G.damping
  init : ∀ k ∈ G.live, H.init k = G.init k
  decay : ∀ k ∈ G.live, H.decay k = G.decay k
  ratio : ∀ i ∈ G.live, ∀ j, H.ratio i j = G.ratio i j

namespace Extends

variable {G} {H : Standing K} (e : Extends G H)
include e

variable {x : K → ℕ}

theorem dead_iff : H.Dead x ↔ G.Dead x := by rw [Dead, Dead, e.live]

theorem init_eq : H.init = G.init := by
  funext k
  by_cases hk : k ∈ G.live
  · exact e.init k hk
  · rw [G.init_dead k hk, H.init_dead k (e.live ▸ hk)]

theorem total_eq (hx : G.Dead x) : H.total x = G.total x := by
  rw [H.total_eq_sum_live (e.dead_iff.mpr hx), G.total_eq_sum_live hx, e.live]

theorem flow_eq (hx : G.Dead x) (i j : K) : H.flow x i j = G.flow x i j := by
  by_cases hi : i ∈ G.live
  · simp only [flow, e.scale, e.damping, e.decay i hi, e.ratio i hi j]
  · simp [flow, hx i hi]

theorem step_eq (hx : G.Dead x) : H.step x = G.step x := by
  funext j
  have ht : H.teleport j = G.teleport j := by simp only [teleport, e.scale, e.damping, e.init_eq]
  have hdead : ∀ i ∉ G.live, G.flow x i j = 0 := fun i hi => by simp [flow, hx i hi]
  have hG : ∑ i ∈ G.nodes, G.flow x i j = ∑ i ∈ G.live, G.flow x i j :=
    (sum_subset G.live_subset fun i _ hi => hdead i hi).symm
  have hH : ∑ i ∈ H.nodes, G.flow x i j = ∑ i ∈ G.live, G.flow x i j :=
    (sum_subset (e.live ▸ H.live_subset) fun i _ hi => hdead i hi).symm
  rw [step, step, ht, sum_congr rfl fun i _ => e.flow_eq hx i j, hG, hH]

theorem maxDelta_eq (x y : K → ℕ) : H.maxDelta x y = G.maxDelta x y := by rw [maxDelta, maxDelta, e.live]

theorem run_eq (tol n : ℕ) (x : K → ℕ) (hx : G.Dead x) : H.run tol n x = G.run tol n x := by
  induction n generalizing x with
  | zero => rfl
  | succ n ih => simp only [run, e.step_eq hx, e.maxDelta_eq, ih _ (G.dead_step x)]

theorem scaled_eq (hx : G.Dead x) : H.scaled x = G.scaled x := by
  funext k
  simp only [scaled, e.total_eq hx, e.scale]

theorem positive_eq (hx : G.Dead x) : H.positive x = G.positive x := by
  ext k
  simp only [positive, mem_filter, e.scaled_eq hx]
  constructor
  · rintro ⟨-, h⟩
    have hk : k ∈ G.live := by
      by_contra hk
      exact h (G.dead_scaled hx k hk)
    exact ⟨G.live_subset hk, h⟩
  · rintro ⟨hk, h⟩
    exact ⟨e.nodes hk, h⟩

theorem recipient_eq (hx : G.Dead x) (hl : G.live.Nonempty) : H.recipient x = G.recipient x := by
  unfold recipient
  simp only [e.positive_eq hx, e.live]
  split
  · rfl
  · rfl

theorem normalize_eq (hx : G.Dead x) (hl : G.live.Nonempty) : H.normalize x = G.normalize x := by
  funext k
  simp only [normalize, e.scaled_eq hx, e.recipient_eq hx hl, e.scale, e.total_eq (G.dead_scaled hx)]

end Extends

end Standing

end Trustgraphs
