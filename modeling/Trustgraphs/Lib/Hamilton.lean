import Mathlib

/-!
# Hamilton apportionment with ties

A budget is split among finitely many keys in proportion to their numerators. Every key gets the floor
of its quota, and the units that are missing go to the largest remainders, the smaller key first among
equal ones. The budget is spent exactly (`sum_share`), and a key with numerator zero neither receives
a unit nor takes one from another key (`share_eq_zero`, `share_extend`).
-/

/-!
## Largest-remainder apportionment

A pool is split in proportion to scores, each share rounded down. The floors do not overspend the
pool, and what is missing is less than one unit for each score.
-/

namespace Trustgraphs.Apportion

variable (pool : ℕ) (scores : List ℕ)

theorem sum_div_mod (d : ℕ) : d * (scores.map fun s => s * pool / d).sum +
    (scores.map fun s => s * pool % d).sum = scores.sum * pool := by
  induction scores with
  | nil => simp
  | cons s scores ih =>
    have hs := Nat.div_add_mod (s * pool) d
    simp only [List.map_cons, List.sum_cons, Nat.mul_add, Nat.add_mul]
    omega

theorem sum_mod_lt {d : ℕ} (hd : 0 < d) (hne : scores ≠ []) :
    (scores.map fun s => s * pool % d).sum < scores.length * d := by
  induction scores with
  | nil => exact absurd rfl hne
  | cons s scores ih =>
    have hs := Nat.mod_lt (s * pool) hd
    simp only [List.map_cons, List.sum_cons, List.length_cons, Nat.add_mul, Nat.one_mul]
    by_cases h : scores = []
    · subst h
      simpa using hs
    · have := ih h
      omega

theorem sum_floor_le (h : 0 < scores.sum) : (scores.map fun s => s * pool / scores.sum).sum ≤ pool := by
  have e := sum_div_mod pool scores scores.sum
  refine Nat.le_of_mul_le_mul_left (c := scores.sum) ?_ h
  omega

theorem missing_lt (h : 0 < scores.sum) :
    pool - (scores.map fun s => s * pool / scores.sum).sum < scores.length := by
  have hne : scores ≠ [] := by
    rintro rfl
    simp at h
  have e := sum_div_mod pool scores scores.sum
  have hmod := sum_mod_lt pool scores h hne
  have hle := sum_floor_le pool scores h
  refine Nat.lt_of_mul_lt_mul_left (a := scores.sum) ?_
  rw [Nat.mul_sub]
  rw [Nat.mul_comm scores.length] at hmod
  omega

end Trustgraphs.Apportion

/-! ## Ties -/

namespace Trustgraphs.Hamilton

open List Finset

variable {K : Type*} [LinearOrder K] (s : Finset K) (f : K → ℕ) (u : ℕ)

/-- The sum of the weights. -/
def total : ℕ := ∑ k ∈ s, f k

/-- The whole units of a key. -/
def floor (k : K) : ℕ := f k * u / total s f

/-- What rounding down takes from a key. -/
def remainder (k : K) : ℕ := f k * u % total s f

/-- `j` is served first: a larger remainder, or a smaller key at equal remainders. -/
def Before (j k : K) : Prop :=
  remainder s f u k < remainder s f u j ∨ remainder s f u j = remainder s f u k ∧ j < k

instance (j k : K) : Decidable (Before s f u j k) := by
  unfold Before
  infer_instance

/-- How many keys are served before this one. -/
def rank (k : K) : ℕ := (s.filter fun j => Before s f u j k).card

/-- The units that rounding down leaves. -/
def missing : ℕ := u - ∑ k ∈ s, floor s f u k

/-- The apportionment: the floor, and one unit for the first keys served. -/
def share (k : K) : ℕ := floor s f u k + if rank s f u k < missing s f u then 1 else 0

variable {s f u}

/-! ## The order of service -/

variable {j k : K} {α : Type*} {l : List α} {r : α × ℕ → α × ℕ → Bool} {u : ℕ}

theorem Before.trans {i : K} (h : Before s f u i j) (h' : Before s f u j k) : Before s f u i k := by
  rcases h with h | ⟨h, hlt⟩
  · rcases h' with h' | ⟨h', -⟩
    · exact Or.inl (h'.trans h)
    · exact Or.inl (h' ▸ h)
  · rcases h' with h' | ⟨h', hlt'⟩
    · exact Or.inl (h ▸ h')
    · exact Or.inr ⟨h.trans h', hlt.trans hlt'⟩

theorem Before.irrefl (k : K) : ¬ Before s f u k k := by
  rintro (h | ⟨-, h⟩)
  · exact lt_irrefl _ h
  · exact lt_irrefl _ h

theorem before_or_before (h : j ≠ k) : Before s f u j k ∨ Before s f u k j := by
  rcases lt_trichotomy (remainder s f u j) (remainder s f u k) with hr | hr | hr
  · exact Or.inr (Or.inl hr)
  · rcases lt_or_gt_of_ne h with hlt | hlt
    · exact Or.inl (Or.inr ⟨hr, hlt⟩)
    · exact Or.inr (Or.inr ⟨hr.symm, hlt⟩)
  · exact Or.inl (Or.inl hr)

theorem rank_lt_of_before (hj : j ∈ s) (h : Before s f u j k) : rank s f u j < rank s f u k := by
  refine card_lt_card (ssubset_iff_of_subset ?_ |>.mpr ⟨j, ?_, ?_⟩)
  · intro i hi
    obtain ⟨his, hij⟩ := Finset.mem_filter.mp hi
    exact Finset.mem_filter.mpr ⟨his, hij.trans h⟩
  · exact Finset.mem_filter.mpr ⟨hj, h⟩
  · intro hmem
    exact Before.irrefl j (Finset.mem_filter.mp hmem).2

theorem rank_lt_card (hk : k ∈ s) : rank s f u k < s.card := by
  refine card_lt_card (filter_ssubset.mpr ⟨k, hk, Before.irrefl k⟩)

theorem rank_injOn : Set.InjOn (rank s f u) s := by
  intro j hj k hk h
  by_contra hne
  rcases before_or_before (s := s) (f := f) (u := u) hne with hb | hb
  · exact absurd h (rank_lt_of_before hj hb).ne
  · exact absurd h (rank_lt_of_before hk hb).ne'

theorem card_rank_lt {m : ℕ} (hm : m ≤ s.card) : (s.filter fun k => rank s f u k < m).card = m := by
  have himage : s.image (rank s f u) = Finset.range s.card := by
    refine eq_of_subset_of_card_le ?_ ?_
    · intro i hi
      obtain ⟨k, hk, rfl⟩ := mem_image.mp hi
      exact Finset.mem_range.mpr (rank_lt_card hk)
    · rw [card_range, card_image_of_injOn rank_injOn]
  have hfilter : (s.filter fun k => rank s f u k < m).image (rank s f u) = Finset.range m := by
    ext i
    rw [mem_image, Finset.mem_range]
    constructor
    · rintro ⟨k, hk, rfl⟩
      exact (Finset.mem_filter.mp hk).2
    · intro hi
      have hmem : i ∈ s.image (rank s f u) := by
        rw [himage, Finset.mem_range]
        omega
      obtain ⟨k, hk, rfl⟩ := mem_image.mp hmem
      exact ⟨k, Finset.mem_filter.mpr ⟨hk, hi⟩, rfl⟩
  have hinj : Set.InjOn (rank s f u) (s.filter fun k => rank s f u k < m) := by
    intro j hj k hk h
    exact rank_injOn (Finset.mem_filter.mp hj).1 (Finset.mem_filter.mp hk).1 h
  rw [← card_image_of_injOn hinj, hfilter, card_range]

/-! ## Floors and remainders -/

omit [LinearOrder K] in
theorem total_mul_floor_add_remainder : total s f * ∑ k ∈ s, floor s f u k + ∑ k ∈ s, remainder s f u k =
      total s f * u := by
  have hkey : ∀ k ∈ s, total s f * floor s f u k + remainder s f u k = f k * u :=
    fun k _ => Nat.div_add_mod ..
  rw [mul_sum, ← sum_add_distrib, sum_congr rfl hkey, ← sum_mul]
  rfl

omit [LinearOrder K] in
theorem sum_floor_le (h : 0 < total s f) : ∑ k ∈ s, floor s f u k ≤ u := by
  have e := total_mul_floor_add_remainder (s := s) (f := f) (u := u)
  refine Nat.le_of_mul_le_mul_left (c := total s f) ?_ h
  omega

omit [LinearOrder K] in
theorem total_mul_missing : total s f * missing s f u = ∑ k ∈ s, remainder s f u k := by
  have e := total_mul_floor_add_remainder (s := s) (f := f) (u := u)
  rw [missing, Nat.mul_sub]
  omega

omit [LinearOrder K] in
theorem missing_le (h : 0 < total s f) : missing s f u ≤ (s.filter fun k => 0 < remainder s f u k).card := by
  have hsum : ∑ k ∈ s, remainder s f u k =
      ∑ k ∈ s.filter (fun k => 0 < remainder s f u k), remainder s f u k := by
    refine (sum_subset (Finset.filter_subset _ s) ?_).symm
    intro k hk hnot
    by_contra hne
    exact hnot (Finset.mem_filter.mpr ⟨hk, Nat.pos_of_ne_zero hne⟩)
  have hle : ∑ k ∈ s.filter (fun k => 0 < remainder s f u k), remainder s f u k ≤
      (s.filter fun k => 0 < remainder s f u k).card * total s f := by
    rw [← smul_eq_mul]
    exact Finset.sum_le_card_nsmul _ _ _ fun k _ => (Nat.mod_lt _ h).le
  rw [← hsum, ← total_mul_missing, Nat.mul_comm] at hle
  exact Nat.le_of_mul_le_mul_right hle h

omit [LinearOrder K] in
theorem missing_le_card (h : 0 < total s f) : missing s f u ≤ s.card :=
  (missing_le h).trans (card_filter_le ..)

theorem missing_le_rank (h : 0 < total s f) (hk : remainder s f u k = 0) : missing s f u ≤ rank s f u k := by
  refine (missing_le h).trans (card_le_card ?_)
  intro j hj
  obtain ⟨hjs, hpos⟩ := Finset.mem_filter.mp hj
  exact Finset.mem_filter.mpr ⟨hjs, Or.inl (by rw [hk]; exact hpos)⟩

/-! ## Shares -/

/-- The shares spend the whole budget. -/
theorem sum_share (h : 0 < total s f) : ∑ k ∈ s, share s f u k = u := by
  have hbonus : ∑ k ∈ s, (if rank s f u k < missing s f u then 1 else 0) = missing s f u := by
    rw [← card_filter]
    exact card_rank_lt (missing_le_card h)
  have hle := sum_floor_le (u := u) h
  show ∑ k ∈ s, (floor s f u k + _) = _
  rw [sum_add_distrib, hbonus, missing]
  omega

theorem share_le (h : 0 < total s f) (hk : k ∈ s) : share s f u k ≤ u := by
  conv_rhs => rw [← sum_share (u := u) h]
  exact Finset.single_le_sum (fun _ _ => Nat.zero_le _) hk

theorem share_eq_zero (h : 0 < total s f) (hk : f k = 0) : share s f u k = 0 := by
  have hrem : remainder s f u k = 0 := by simp [remainder, hk]
  have hrank := missing_le_rank h hrem
  simp [share, floor, hk, hrank]

theorem share_budget_zero (k : K) : share s f 0 k = 0 := by simp [share, floor, missing]

theorem share_eq_or (k : K) :
    share s f u k = f k * u / total s f ∨ share s f u k = f k * u / total s f + 1 := by
  by_cases h : rank s f u k < missing s f u
  · exact Or.inr (by rw [share, if_pos h, floor])
  · exact Or.inl (by rw [share, if_neg h, floor, Nat.add_zero])

/-- A larger weight has no smaller share. -/
theorem share_mono (hk : k ∈ s) (h : f j < f k) : share s f u j ≤ share s f u k := by
  rcases Nat.eq_zero_or_pos u with rfl | hu
  · rw [share_budget_zero, share_budget_zero]
  have hmul : f j * u < f k * u := Nat.mul_lt_mul_of_pos_right h hu
  have hfloor : floor s f u j ≤ floor s f u k := Nat.div_le_div_right hmul.le
  rcases hfloor.lt_or_eq with hlt | heq
  · -- the floors differ by a unit at least
    have hj := share_eq_or (s := s) (f := f) (u := u) j
    have hjk : share s f u j ≤ floor s f u j + 1 := by
      rcases hj with hj | hj
      · exact hj.le.trans (Nat.le_succ _)
      · exact hj.le
    exact hjk.trans (hlt.trans_le (Nat.le_add_right _ _))
  · -- equal floors: the larger remainder is served first
    have hj := Nat.div_add_mod (f j * u) (total s f)
    have hk' := Nat.div_add_mod (f k * u) (total s f)
    have hrem : remainder s f u j < remainder s f u k := by
      rw [floor, floor] at heq
      rw [heq] at hj
      rw [remainder, remainder]
      omega
    have hrank : rank s f u k < rank s f u j := rank_lt_of_before hk (Or.inl hrem)
    rw [share, share, heq]
    refine Nat.add_le_add_left ?_ _
    by_cases hjm : rank s f u j < missing s f u
    · rw [if_pos hjm, if_pos (hrank.trans hjm)]
    · rw [if_neg hjm]
      exact Nat.zero_le _

/-- Keys with numerator zero can be added: the shares stay the same. -/
theorem share_extend {t : Finset K} (hst : s ⊆ t) (hzero : ∀ k ∈ t, k ∉ s → f k = 0)
    (h : 0 < total s f) (k : K) : share t f u k = share s f u k := by
  have htotal : total t f = total s f := (sum_subset hst hzero).symm
  have hfloor : floor t f u = floor s f u := by
    funext j
    rw [floor, floor, htotal]
  have hrem : remainder t f u = remainder s f u := by
    funext j
    rw [remainder, remainder, htotal]
  have hbefore : ∀ j k, Before t f u j k ↔ Before s f u j k := by
    intro j k
    rw [Before, Before, hrem]
  have hmissing : missing t f u = missing s f u := by
    have hsum : ∑ j ∈ t, floor s f u j = ∑ j ∈ s, floor s f u j := by
      refine (sum_subset hst fun j hj hjs => ?_).symm
      rw [floor, hzero j hj hjs, Nat.zero_mul, Nat.zero_div]
    rw [missing, missing, hfloor, hsum]
  have hbonus : rank t f u k < missing t f u ↔ rank s f u k < missing s f u := by
    rw [hmissing]
    by_cases hk : remainder s f u k = 0
    · have hs := missing_le_rank h hk
      have ht := missing_le_rank (s := t) (f := f) (u := u) (k := k) (by rwa [htotal])
        (by rw [hrem]; exact hk)
      rw [hmissing] at ht
      exact iff_of_false (Nat.not_lt.mpr ht) (Nat.not_lt.mpr hs)
    · -- the keys that are added come after those with a remainder
      have hrank : rank t f u k = rank s f u k := by
        refine congrArg Finset.card (Finset.ext fun j => ?_)
        rw [Finset.mem_filter, Finset.mem_filter, hbefore]
        refine and_congr_left fun hj => ⟨fun hjt => ?_, fun hjs => hst hjs⟩
        by_contra hjs
        have hj0 : remainder s f u j = 0 := by rw [remainder, hzero j hjt hjs, Nat.zero_mul, Nat.zero_mod]
        rcases hj with hj | ⟨hj, -⟩
        · rw [hj0] at hj
          exact absurd hj (Nat.not_lt_zero _)
        · exact hk (hj.symm.trans hj0)
      rw [hrank]
  unfold share
  rw [hfloor]
  simp only [hbonus]

theorem share_congr {g : K → ℕ} (hfg : ∀ k ∈ s, f k = g k) (hk : k ∈ s) : share s f u k = share s g u k := by
  have htotal : total s f = total s g := sum_congr rfl hfg
  have hfloor : ∀ j ∈ s, floor s f u j = floor s g u j := by
    intro j hj
    rw [floor, floor, htotal, hfg j hj]
  have hrem : ∀ j ∈ s, remainder s f u j = remainder s g u j := by
    intro j hj
    rw [remainder, remainder, htotal, hfg j hj]
  have hmissing : missing s f u = missing s g u := by rw [missing, missing, sum_congr rfl hfloor]
  have hrank : rank s f u k = rank s g u k := by
    refine congrArg Finset.card (Finset.filter_congr fun j hj => ?_)
    rw [Before, Before, hrem j hj, hrem k hk]
  rw [share, share, hfloor k hk, hrank, hmissing]

/-- Shares depend on the order of the keys only. -/
theorem share_image {ι : Type*} [LinearOrder ι] {t : Finset ι} {e : ι → K}
    (he : StrictMonoOn e t) {i : ι} (hi : i ∈ t) :
    share (t.image e) f u (e i) = share t (fun i => f (e i)) u i := by
  have hinj : Set.InjOn e t := he.injOn
  have htotal : total (t.image e) f = total t fun i => f (e i) := sum_image hinj
  have hfloor : ∀ j, floor (t.image e) f u (e j) = floor t (fun i => f (e i)) u j := by
    intro j
    rw [floor, floor, htotal]
  have hrem : ∀ j, remainder (t.image e) f u (e j) = remainder t (fun i => f (e i)) u j := by
    intro j
    rw [remainder, remainder, htotal]
  have hmissing : missing (t.image e) f u = missing t (fun i => f (e i)) u := by
    rw [missing, missing, sum_image hinj]
    simp only [hfloor]
  have hrank : rank (t.image e) f u (e i) = rank t (fun i => f (e i)) u i := by
    have hfilter : ((t.image e).filter fun j => Before (t.image e) f u j (e i)) =
        (t.filter fun j => Before t (fun i => f (e i)) u j i).image e := by
      rw [filter_image]
      refine congrArg (Finset.image e) (Finset.filter_congr fun j hj => ?_)
      rw [Before, Before, hrem, hrem, he.lt_iff_lt hj hi]
    rw [rank, hfilter, card_image_of_injOn]
    · rfl
    · exact hinj.mono (Finset.filter_subset _ t)
  rw [share, share, hfloor, hrank, hmissing]

/-! ## Service by sorting -/

/-- A remainder with its key is served no later than another: the larger remainder first, then the
smaller key. -/
def NotAfter (a b : ℕ × K) : Prop := b.1 < a.1 ∨ a.1 = b.1 ∧ a.2 ≤ b.2

theorem NotAfter.total (a b : ℕ × K) : NotAfter a b ∨ NotAfter b a := by
  rcases lt_trichotomy a.1 b.1 with h | h | h
  · exact Or.inr (Or.inl h)
  · rcases le_total a.2 b.2 with hle | hle
    · exact Or.inl (Or.inr ⟨h, hle⟩)
    · exact Or.inr (Or.inr ⟨h.symm, hle⟩)
  · exact Or.inl (Or.inl h)

theorem NotAfter.trans {a b c : ℕ × K} (h : NotAfter a b) (h' : NotAfter b c) : NotAfter a c := by
  rcases h with h | ⟨h, hle⟩
  · rcases h' with h' | ⟨h', -⟩
    · exact Or.inl (h'.trans h)
    · exact Or.inl (h' ▸ h)
  · rcases h' with h' | ⟨h', hle'⟩
    · exact Or.inl (h ▸ h')
    · exact Or.inr ⟨h.trans h', hle.trans hle'⟩

theorem NotAfter.before (h : NotAfter (remainder s f u j, j) (remainder s f u k, k))
    (hne : j ≠ k) : Before s f u j k := by
  rcases h with h | ⟨h, hle⟩
  · exact Or.inl h
  · exact Or.inr ⟨h, lt_of_le_of_ne hle hne⟩

theorem mem_take_of_sorted {before : α → α → Prop} [DecidableRel before]
    (hl : l.Pairwise fun a b => before a b ∧ ¬ before b a) (hirrefl : ∀ a, ¬ before a a) {a : α}
    (ha : a ∈ l) (m : ℕ) : a ∈ l.take m ↔ l.countP (fun b => before b a) < m := by
  induction l generalizing m with
  | nil => simp at ha
  | cons b l ih =>
    obtain ⟨hb, hl⟩ := List.pairwise_cons.mp hl
    cases m with
    | zero => simp
    | succ m =>
      rw [take_succ_cons, List.mem_cons, countP_cons]
      by_cases hab : a = b
      · subst hab
        have hcount : l.countP (fun b => before b a) = 0 := by
          rw [countP_eq_zero]
          intro c hc
          simpa using (hb c hc).2
        simp [hcount, hirrefl]
      · have hal : a ∈ l := (List.mem_cons.mp ha).resolve_left hab
        rw [if_pos (by simpa using (hb a hal).1), ih hl hal]
        simp [hab]

theorem mem_take_insertionSort {r p : α → α → Prop} [DecidableRel r]
    [DecidableRel p] [Std.Total r] [IsTrans α r] (hl : l.Nodup)
    (hr : ∀ a ∈ l, ∀ b ∈ l, a ≠ b → r a b → p a b ∧ ¬ p b a)
    (hirrefl : ∀ a, ¬ p a a) {a : α} (ha : a ∈ l) (m : ℕ) :
    a ∈ (l.insertionSort r).take m ↔ l.countP (fun b => p b a) < m := by
  have hperm := perm_insertionSort r l
  have hsorted : (l.insertionSort r).Pairwise fun a b => p a b ∧ ¬ p b a := by
    refine ((pairwise_insertionSort r l).and (hperm.nodup_iff.mpr hl)).imp_of_mem ?_
    rintro a b ha hb ⟨hab, hne⟩
    exact hr a (hperm.mem_iff.mp ha) b (hperm.mem_iff.mp hb) hne hab
  rw [mem_take_of_sorted hsorted hirrefl (hperm.mem_iff.mpr ha), hperm.countP_eq]

theorem countP_zipIdx (l : List α) (p : α × ℕ → Bool) (g : ℕ → α) (hg : ∀ i (h : i < l.length), l[i] = g i) :
    l.zipIdx.countP p = ((Finset.range l.length).filter fun i => p (g i, i)).card := by
  have hzip : l.zipIdx = (List.range l.length).map fun i => (g i, i) := by
    refine ext_getElem (by simp) fun i h h' => ?_
    simp only [length_zipIdx] at h
    simp [hg i h]
  rw [hzip, countP_map, ← Nat.count_eq_card_filter_range]
  induction l.length with
  | zero => rfl
  | succ n ih => simp [range_succ, Nat.count_succ, ih]

/-- The positions of a list, sorted by the order of service of their keys: the first `m` are those whose
keys have a rank below `m`. -/
theorem mem_take_order_of_key {g : ℕ → K} (hkey : Set.InjOn g (Finset.range l.length))
    (htotal : ∀ a b, r a b = true ∨ r b a = true)
    (htrans : ∀ a b c, r a b = true → r b c = true → r a c = true) {f : K → ℕ}
    (hr : ∀ i j (hi : i < l.length) (hj : j < l.length), i ≠ j → r (l[i], i) (l[j], j) = true →
      Before ((Finset.range l.length).image g) f u (g i) (g j)) {i : ℕ} (hi : i < l.length) (m : ℕ) :
    i ∈ ((l.zipIdx.insertionSort fun a b => r a b).map Prod.snd).take m ↔
      rank ((Finset.range l.length).image g) f u (g i) < m := by
  have : Std.Total fun a b : α × ℕ => r a b = true := ⟨htotal⟩
  have : IsTrans (α × ℕ) fun a b => r a b = true := ⟨htrans⟩
  have hnodup : l.zipIdx.Nodup := by
    refine List.Nodup.of_map Prod.snd ?_
    rw [zipIdx_map_snd]
    exact nodup_range'
  have hmem : ∀ a ∈ l.zipIdx, ∃ h : a.2 < l.length, a = (l[a.2], a.2) := by
    rintro ⟨x, k⟩ hx
    have hget := mem_zipIdx_iff_getElem?.mp hx
    obtain ⟨hk, hx⟩ := List.getElem?_eq_some_iff.mp hget
    exact ⟨hk, Prod.ext hx.symm rfl⟩
  have hitem : (l[i], i) ∈ l.zipIdx := mem_zipIdx_iff_getElem?.mpr (getElem?_eq_getElem hi)
  have hserve := mem_take_insertionSort (r := fun a b => r a b = true)
    (p := fun a b : α × ℕ => Before ((Finset.range l.length).image g) f u (g a.2) (g b.2)) hnodup
    (fun a ha b hb hne hab => by
      obtain ⟨ha', hae⟩ := hmem a ha
      obtain ⟨hb', hbe⟩ := hmem b hb
      have hidx : a.2 ≠ b.2 := by
        intro h
        refine hne ?_
        rw [hae, hbe]
        simp only [h]
      rw [hae, hbe] at hab
      have hbefore := hr a.2 b.2 ha' hb' hidx hab
      exact ⟨hbefore, fun h => Before.irrefl _ (hbefore.trans h)⟩)
    (fun a => Before.irrefl (g a.2)) hitem m
  have htake : i ∈ ((l.zipIdx.insertionSort fun a b => r a b).map Prod.snd).take m ↔
      (l[i], i) ∈ (l.zipIdx.insertionSort fun a b => r a b).take m := by
    rw [← map_take, List.mem_map]
    constructor
    · rintro ⟨a, ha, rfl⟩
      obtain ⟨_, hae⟩ := hmem a ((perm_insertionSort _ _).mem_iff.mp (mem_of_mem_take ha))
      rw [← hae]
      exact ha
    · intro h
      exact ⟨_, h, rfl⟩
  have hcount : l.zipIdx.countP
      (fun a => decide (Before ((Finset.range l.length).image g) f u (g a.2) (g i))) =
      rank ((Finset.range l.length).image g) f u (g i) := by
    have h := countP_zipIdx l
      (fun a => decide (Before ((Finset.range l.length).image g) f u (g a.2) (g i)))
      (fun k => l.getD k l[i]) (fun k hk => by rw [getD_eq_getElem _ _ hk])
    rw [h, rank, filter_image, card_image_of_injOn]
    · simp only [decide_eq_true_eq]
    · exact hkey.mono (by exact_mod_cast Finset.filter_subset _ _)
  rw [htake, hserve, ← hcount]

/-- The head of a sorted list of remainders is the keys of the first ranks. -/
theorem mem_take_order (htotal : ∀ a b, r a b = true ∨ r b a = true)
    (htrans : ∀ a b c, r a b = true → r b c = true → r a c = true) {f : ℕ → ℕ}
    (hr : ∀ i j (hi : i < l.length) (hj : j < l.length), i ≠ j → r (l[i], i) (l[j], j) = true →
      Before (Finset.range l.length) f u i j) {i : ℕ} (hi : i < l.length) (m : ℕ) :
    i ∈ ((l.zipIdx.insertionSort fun a b => r a b).map Prod.snd).take m ↔
      rank (Finset.range l.length) f u i < m := by
  have himage : (Finset.range l.length).image id = Finset.range l.length := image_id
  have h := mem_take_order_of_key (g := id) (Set.injOn_id _) htotal htrans (f := f) (u := u)
    (by rw [himage]; exact hr) hi m
  rwa [himage] at h

omit [LinearOrder K] in
theorem index_eq_of_key {α : Type*} {l : List α} {key : α → K} (hkeys : (l.map key).Nodup) {i j : ℕ}
    (hi : i < l.length) (hj : j < l.length) (h : key l[i] = key l[j]) : i = j := by
  have hi' : i < (l.map key).length := by rwa [length_map]
  have hj' : j < (l.map key).length := by rwa [length_map]
  refine (getElem?_inj hi' hkeys).mp ?_
  rw [getElem?_eq_getElem hi', getElem?_eq_getElem hj', getElem_map, getElem_map, h]

theorem exists_numerator {key : α → K} (hkeys : (l.map key).Nodup) (g : α → ℕ) :
    ∃ f : K → ℕ, (∀ a ∈ l, f (key a) = g a) ∧ ∀ k, k ∉ l.map key → f k = 0 := by
  refine ⟨fun k => ((l.find? fun a => key a = k).map g).getD 0, fun a ha => ?_, fun k hk => ?_⟩
  · show ((l.find? fun b => key b = key a).map g).getD 0 = g a
    cases hfind : l.find? fun b => key b = key a with
    | none => exact absurd (find?_eq_none.mp hfind a ha) (by simp)
    | some b =>
      have hb : key b = key a := by simpa using find?_some hfind
      rw [inj_on_of_nodup_map hkeys (mem_of_find?_eq_some hfind) ha hb]
      rfl
  · show ((l.find? fun a => key a = k).map g).getD 0 = 0
    rw [find?_eq_none.mpr]
    · rfl
    · intro a ha
      have hne : key a ≠ k := by
        rintro rfl
        exact hk (List.mem_map_of_mem ha)
      simpa using hne

theorem total_toFinset {key : α → K} (hkeys : (l.map key).Nodup) {g : α → ℕ}
    (hf : ∀ a ∈ l, f (key a) = g a) : total (l.map key).toFinset f = (l.map g).sum := by
  rw [total, sum_toFinset _ hkeys, List.map_map]
  exact congrArg List.sum (map_congr_left hf)

/-- Keys of a list that are served in order: the positions that get one of the missing units are those
whose share has one more than the floor. -/
theorem exists_served {g : α → K} (hkeys : (l.map g).Nodup) (htotal : ∀ a b, r a b = true ∨ r b a = true)
    (htrans : ∀ a b c, r a b = true → r b c = true → r a c = true) {f : K → ℕ}
    (hr : ∀ i j (hi : i < l.length) (hj : j < l.length), i ≠ j → r (l[i], i) (l[j], j) = true →
      Before (l.map g).toFinset f u (g l[i]) (g l[j])) :
    ∃ taken : List ℕ, taken.Nodup ∧ (∀ i ∈ taken, i < l.length) ∧
      ((l.zipIdx.insertionSort fun a b => r a b).map Prod.snd).take (missing (l.map g).toFinset f u) = taken ∧
      ∀ i (h : i < l.length), share (l.map g).toFinset f u (g l[i]) =
        floor (l.map g).toFinset f u (g l[i]) + if i ∈ taken then 1 else 0 := by
  obtain ⟨order, horder⟩ : ∃ order, order = (l.zipIdx.insertionSort fun a b => r a b).map Prod.snd := ⟨_, rfl⟩
  have hperm : order.Perm (List.range l.length) := by
    have h := (perm_insertionSort (fun a b : α × ℕ => r a b = true) l.zipIdx).map Prod.snd
    rw [zipIdx_map_snd, ← range_eq_range'] at h
    rw [horder]
    exact h
  have hlt : ∀ {m : ℕ}, ∀ i ∈ order.take m, i < l.length := fun i hi =>
    List.mem_range.mp (hperm.mem_iff.mp (mem_of_mem_take hi))
  rw [← horder]
  refine ⟨_, (take_sublist _ _).nodup (hperm.nodup_iff.mpr nodup_range), hlt, rfl, ?_⟩
  intro i hi
  -- the g at a position
  obtain ⟨keyAt, hat⟩ : ∃ keyAt : ℕ → K, keyAt = fun j => (l.map g).getD j (g l[i]) := ⟨_, rfl⟩
  have hkeyAt : ∀ j (h : j < l.length), keyAt j = g l[j] := by
    intro j h
    have hj : j < (l.map g).length := by simpa using h
    rw [hat]
    show (l.map g).getD j _ = _
    rw [getD_eq_getElem _ _ hj, getElem_map]
  have hinj : Set.InjOn keyAt (Finset.range l.length) := by
    intro j hj k hk hjk
    rw [coe_range, Set.mem_Iio] at hj hk
    rw [hkeyAt j hj, hkeyAt k hk] at hjk
    exact index_eq_of_key hkeys hj hk hjk
  have himage : (Finset.range l.length).image keyAt = (l.map g).toFinset := by
    ext k
    rw [mem_toFinset, mem_image, List.mem_map]
    constructor
    · rintro ⟨j, hj, rfl⟩
      rw [Finset.mem_range] at hj
      exact ⟨l[j], getElem_mem hj, (hkeyAt j hj).symm⟩
    · rintro ⟨a, ha, rfl⟩
      obtain ⟨j, hj, rfl⟩ := mem_iff_getElem.mp ha
      exact ⟨j, Finset.mem_range.mpr hj, hkeyAt j hj⟩
  have hserve := mem_take_order_of_key hinj htotal htrans (f := f) (u := u)
    (fun j k hj hk hne h => by
      rw [himage, hkeyAt j hj, hkeyAt k hk]
      exact hr j k hj hk hne h) hi (missing (l.map g).toFinset f u)
  rw [himage, hkeyAt i hi, ← horder] at hserve
  rw [share]
  simp only [hserve]

/-! ## Units -/

theorem foldlM_set.{v, w} {M : Type v → Type w} [Monad M] [LawfulMonad M] {α : Type v}
    {g : List α → ℕ → M (List α)} {f : α → α} {taken : List ℕ}
    (hnodup : taken.Nodup) {t : List α} (hlt : ∀ i ∈ taken, i < t.length)
    (hstep : ∀ (l : List α) i, i ∈ taken → (h : i < l.length) → l[i]? = t[i]? →
      g l i = pure (l.set i (f l[i]))) :
    taken.foldlM g t = pure (t.mapIdx fun i a => if i ∈ taken then f a else a) := by
  induction taken generalizing t with
  | nil =>
    rw [foldlM_nil]
    exact congrArg pure (ext_getElem (by simp) fun i h h' => by simp)
  | cons k taken ih =>
    obtain ⟨hk, hnodup⟩ := nodup_cons.mp hnodup
    have hklt := hlt k List.mem_cons_self
    rw [foldlM_cons, hstep t k List.mem_cons_self hklt rfl, pure_bind]
    have hother : ∀ i ∈ taken, (t.set k (f t[k]))[i]? = t[i]? := by
      intro i hi
      refine getElem?_set_ne ?_
      rintro rfl
      exact hk hi
    rw [ih hnodup (fun i hi => by rw [length_set]; exact hlt i (List.mem_cons_of_mem k hi))
      (fun l i hi h hget => hstep l i (List.mem_cons_of_mem k hi) h (hget.trans (hother i hi)))]
    refine congrArg pure (ext_getElem (by simp) fun i h h' => ?_)
    rw [getElem_mapIdx, getElem_mapIdx, getElem_set]
    by_cases hik : k = i
    · subst hik
      simp [hk]
    · simp [hik, Ne.symm hik]

end Trustgraphs.Hamilton
