import Trustgraphs.Contracts.SubnetworkRegistry
import Trustgraphs.Lib.Forest
import Trustgraphs.Lib.Outcome
import Trustgraphs.ZkCore.Proofs.CidProofs

/-!
# The subnetwork hierarchy is a bounded forest

Between calls the child counts are right and every height follows from the counts of its node
(`Consistent`).
-/

namespace Trustgraphs.SubnetworkRegistry

open Forest Function Outcome Option

def parent (s : State) (c : B256) : Option B256 := if s.parentOf c = 0 then none else some (s.parentOf c)

variable {s : State} {c p : B256} {h : Nat} {a : B256} {old new : Nat} {remove add : Bool}

theorem parent_eq_some : parent s c = some p ↔ s.parentOf c = p ∧ p ≠ 0 := by
  unfold parent
  by_cases h : s.parentOf c = 0
  · rw [if_pos h]
    exact ⟨fun e => absurd e (by simp), fun e => absurd (h ▸ e.1.symm) e.2⟩
  · rw [if_neg h, some_inj]
    exact ⟨fun e => ⟨e, e ▸ h⟩, fun e => e.1⟩

theorem parent_eq_none : parent s c = none ↔ s.parentOf c = 0 := by
  unfold parent
  by_cases h : s.parentOf c = 0
  · simp [h]
  · simp [h]

abbrev children (s : State) (a : B256) (h : Nat) : Set B256 := bucket (parent s) s.subtreeHeight a h

def count (s : State) (a : B256) (h : Nat) : ℕ∞ := ((s.childHeightCounts a h).toNat : ℕ∞)

/-- The counts are those of the children, and the heights follow from the counts. -/
structure Consistent (s : State) : Prop where
  counts : ∀ a h, count s a h = (children s a h).encard
  heights : ∀ a, s.subtreeHeight a = tallest (s.childHeightCounts a) MAXIMUM_DEPTH

/-- As `Consistent`, but the counts of `a` still have a child of height `old` that it lost and lack one
of height `new` that it won. -/
structure Repair (s : State) (a : B256) (old new : Nat) (remove add : Bool) : Prop where
  counts : ∀ b h, b ≠ a → count s b h = (children s b h).encard
  due : ∀ h, count s a h + (if add = true ∧ h = new then 1 else 0) =
    (children s a h).encard + if remove = true ∧ h = old then 1 else 0
  heights : ∀ b, s.subtreeHeight b = tallest (s.childHeightCounts b) MAXIMUM_DEPTH

theorem lt_tallest {counts : Nat → U256} {cap : Nat} (hlt : h < cap) (hne : counts h ≠ 0) :
    h < tallest counts cap := by
  induction cap with
  | zero => omega
  | succ cap ih =>
    unfold tallest
    by_cases hc : counts cap ≠ 0
    · rw [if_pos hc]
      exact hlt
    · rw [if_neg hc]
      have hne' : h ≠ cap := fun e => hc (e ▸ hne)
      exact ih (by omega)

theorem tallest_attained {counts : Nat → U256} {cap : Nat} (h : tallest counts cap ≠ 0) :
    ∃ n, tallest counts cap = n + 1 ∧ counts n ≠ 0 := by
  induction cap with
  | zero => exact absurd rfl h
  | succ cap ih =>
    unfold tallest at h ⊢
    by_cases hc : counts cap ≠ 0
    · rw [if_pos hc]
      exact ⟨cap, rfl, hc⟩
    · rw [if_neg hc] at h ⊢
      exact ih h

theorem count_ne_zero (hs : Consistent s) :
    s.childHeightCounts a h ≠ 0 ↔ ∃ c, parent s c = some a ∧ s.subtreeHeight c = h := by
  have hcount := hs.counts a h
  constructor
  · intro hne
    have hpos : (children s a h).encard ≠ 0 := by
      rw [← hcount, count]
      intro e
      exact hne (BitVec.eq_of_toNat_eq (by exact_mod_cast e))
    obtain ⟨c, hc⟩ := Set.encard_ne_zero.mp hpos
    exact ⟨c, hc⟩
  · rintro ⟨c, hc⟩ e
    have hpos : (children s a h).encard ≠ 0 := Set.encard_ne_zero.mpr ⟨c, hc⟩
    rw [← hcount, count, e] at hpos
    exact hpos rfl

theorem Consistent.levels (hs : Consistent s) : Levels (parent s) MAXIMUM_DEPTH s.subtreeHeight where
  above c a hc hlt := by
    rw [hs.heights a]
    exact lt_tallest hlt ((count_ne_zero hs).mpr ⟨c, hc, rfl⟩)
  attained a ha := by
    rw [hs.heights a] at ha ⊢
    obtain ⟨n, hn, hne⟩ := tallest_attained ha
    obtain ⟨c, hc, hch⟩ := (count_ne_zero hs).mp hne
    exact ⟨c, hc, by rw [hch, hn]⟩

theorem encard_univ_le : (Set.univ : Set B256).encard ≤ 2 ^ 256 := by
  let value : B256 → Fin (2 ^ 256) := fun x => ⟨ofBeBytes x.bytes, by
    have h := ofBeBytes_lt x.bytes
    rwa [x.size, show (256 : Nat) ^ 32 = 2 ^ 256 by norm_num] at h⟩
  have hinj : Injective value := by
    intro x y h
    have hxy : ofBeBytes x.bytes = ofBeBytes y.bytes := congrArg Fin.val h
    exact FixedBytes.ext (ofBeBytes_injective (by rw [x.size, y.size]) hxy)
  calc (Set.univ : Set B256).encard ≤ (Set.univ : Set (Fin (2 ^ 256))).encard :=
        Set.encard_le_encard_of_injOn (fun _ _ => Set.mem_univ _) hinj.injOn
    _ = 2 ^ 256 := by
      rw [Set.encard_univ, ENat.card_eq_coe_fintype_card, Fintype.card_fin]
      norm_cast

theorem encard_children_lt (ha : parent s a ≠ some a) (h : Nat) : (children s a h).encard + 1 ≤ 2 ^ 256 := by
  have hnot : a ∉ children s a h := fun hmem => ha hmem.1
  rw [← Set.encard_insert_of_notMem hnot]
  exact (Set.encard_le_encard (Set.subset_univ _)).trans encard_univ_le

def adjust (s : State) (a : B256) (old new : Nat) (remove add : Bool) : Except Error State := do
  let s ← (if remove then decrement s a old else .ok s)
  if add then increment s a new else .ok s

def withCounts (s : State) (a : B256) (counts : Nat → U256) : State :=
  { s with childHeightCounts := update s.childHeightCounts a counts }

theorem decrement_ok (hpos : 1 ≤ (s.childHeightCounts a h).toNat) :
    ∃ counts, decrement s a h = .ok (withCounts s a counts) ∧
      ∀ k, (counts k).toNat + (if k = h then 1 else 0) = (s.childHeightCounts a k).toNat := by
  obtain ⟨c, hc, hval⟩ := Checked.sub_isSome (a := s.childHeightCounts a h) (b := 1) hpos
  refine ⟨update (s.childHeightCounts a) h c, ?_, fun k => ?_⟩
  · unfold decrement
    rw [hc]
    rfl
  · have h1 : (1 : U256).toNat = 1 := rfl
    by_cases hk : k = h
    · subst hk
      rw [update_self, if_pos rfl]
      omega
    · rw [update_of_ne hk, if_neg hk, Nat.add_zero]

theorem increment_ok (hlt : (s.childHeightCounts a h).toNat + 1 < 2 ^ 256) :
    ∃ counts, increment s a h = .ok (withCounts s a counts) ∧
      ∀ k, (counts k).toNat = (s.childHeightCounts a k).toNat + if k = h then 1 else 0 := by
  obtain ⟨c, hc, hval⟩ := Checked.add_isSome (a := s.childHeightCounts a h) (b := 1) hlt
  refine ⟨update (s.childHeightCounts a) h c, ?_, fun k => ?_⟩
  · unfold increment
    rw [hc]
    rfl
  · have h1 : (1 : U256).toNat = 1 := rfl
    by_cases hk : k = h
    · subst hk
      rw [update_self, if_pos rfl]
      omega
    · rw [update_of_ne hk, if_neg hk, Nat.add_zero]

theorem Repair.due_nat (hs : Repair s a old new remove add) (ha : parent s a ≠ some a) (h : Nat) :
    ∃ n : Nat, (children s a h).encard = n ∧ n + 1 ≤ 2 ^ 256 ∧
      (s.childHeightCounts a h).toNat + (if add = true ∧ h = new then 1 else 0) =
        n + if remove = true ∧ h = old then 1 else 0 := by
  have hle := encard_children_lt ha h
  have hfin : (children s a h).encard ≠ ⊤ := by
    intro htop
    rw [htop] at hle
    exact absurd hle (by decide)
  obtain ⟨n, hn⟩ := ENat.ne_top_iff_exists.mp hfin
  refine ⟨n, hn.symm, ?_, ?_⟩
  · rw [← hn] at hle
    exact_mod_cast hle
  · have hdue := hs.due h
    rw [← hn, count] at hdue
    by_cases h1 : add = true ∧ h = new
    · by_cases h2 : remove = true ∧ h = old
      · rw [if_pos h1, if_pos h2] at hdue ⊢
        exact_mod_cast hdue
      · rw [if_pos h1, if_neg h2] at hdue ⊢
        exact_mod_cast hdue
    · by_cases h2 : remove = true ∧ h = old
      · rw [if_neg h1, if_pos h2] at hdue ⊢
        exact_mod_cast hdue
      · rw [if_neg h1, if_neg h2] at hdue ⊢
        exact_mod_cast hdue

/-- The adjustment succeeds, and afterwards the counts are right. -/
theorem adjust_ok (hs : Repair s a old new remove add) (ha : parent s a ≠ some a)
    (hmove : remove = true → add = true → old ≠ new) :
    ∃ counts, adjust s a old new remove add = .ok (withCounts s a counts) ∧
      ∀ h, ((counts h).toNat : ℕ∞) = (children s a h).encard := by
  -- after the removal the counts lack at most the new child
  have hremoved : ∃ counts, (if remove then decrement s a old else .ok s) =
      .ok (withCounts s a counts) ∧ ∀ h, ∃ n : Nat, (children s a h).encard = n ∧ n + 1 ≤ 2 ^ 256 ∧
        (counts h).toNat + (if add = true ∧ h = new then 1 else 0) = n := by
    cases remove with
    | false =>
      refine ⟨s.childHeightCounts a, ?_, fun h => ?_⟩
      · rw [withCounts, update_eq_self]
        rfl
      · obtain ⟨n, hn, hlt, hdue⟩ := hs.due_nat ha h
        exact ⟨n, hn, hlt, by simpa using hdue⟩
    | true =>
      have hpos : 1 ≤ (s.childHeightCounts a old).toNat := by
        obtain ⟨n, -, -, hdue⟩ := hs.due_nat ha old
        have hnot : ¬ (add = true ∧ old = new) := fun h => hmove rfl h.1 h.2
        rw [if_neg hnot, if_pos ⟨rfl, rfl⟩] at hdue
        omega
      obtain ⟨counts, hok, hcounts⟩ := decrement_ok hpos
      refine ⟨counts, hok, fun h => ?_⟩
      obtain ⟨n, hn, hlt, hdue⟩ := hs.due_nat ha h
      have hk := hcounts h
      simp only [true_and] at hdue
      exact ⟨n, hn, hlt, by omega⟩
  obtain ⟨counts, hok, hcounts⟩ := hremoved
  unfold adjust
  rw [hok, ok_bind]
  cases add with
  | false =>
    refine ⟨counts, rfl, fun h => ?_⟩
    obtain ⟨n, hn, -, hk⟩ := hcounts h
    rw [hn]
    simp only [Bool.false_eq_true, false_and, if_false, Nat.add_zero] at hk
    exact_mod_cast hk
  | true =>
    have hat : (withCounts s a counts).childHeightCounts a = counts := update_self ..
    have hlt : ((withCounts s a counts).childHeightCounts a new).toNat + 1 < 2 ^ 256 := by
      obtain ⟨n, -, hlt, hk⟩ := hcounts new
      rw [hat]
      simp only [and_self, if_true] at hk
      omega
    obtain ⟨counts', hok', hcounts'⟩ := increment_ok hlt
    refine ⟨counts', ?_, fun h => ?_⟩
    · show increment (withCounts s a counts) a new = _
      rw [hok', withCounts, withCounts, withCounts]
      simp
    · obtain ⟨n, hn, -, hk⟩ := hcounts h
      have hk' := hcounts' h
      rw [hat] at hk'
      rw [hn]
      simp only [true_and] at hk
      have hval : (counts' h).toNat = n := by omega
      exact_mod_cast hval

theorem updateAncestorHeights_succ (s : State) (gas : Nat) (ha : a ≠ 0) (old new : Nat)
    (remove add : Bool) : updateAncestorHeights s (gas + 1) a old new remove add =
      adjust s a old new remove add >>= fun s =>
        let newHeight := tallest (s.childHeightCounts a) MAXIMUM_DEPTH
        if newHeight = s.subtreeHeight a then .ok s
        else updateAncestorHeights
          { s with subtreeHeight := update s.subtreeHeight a newHeight } gas (s.parentOf a)
          (s.subtreeHeight a) newHeight true true := by
  rw [updateAncestorHeights, if_neg ha, adjust]
  cases (if remove then decrement s a old else .ok s) with
  | error e => rfl
  | ok s₁ => rfl

/-- The loop ends in a consistent state, or the gas ends first on a chain of ancestors of that
length. -/
theorem updateAncestorHeights_spec (gas : Nat) (hb : Bounded (parent s) MAXIMUM_DEPTH)
    (hzero : a = 0 → Consistent s)
    (hs : a ≠ 0 → Repair s a old new remove add) (hmove : remove = true → add = true → old ≠ new) :
    (∃ s', updateAncestorHeights s gas a old new remove add = .ok s' ∧ Consistent s' ∧
      s'.parentOf = s.parentOf ∧ s'.pendingParentOf = s.pendingParentOf) ∨
    (updateAncestorHeights s gas a old new remove add = .error .outOfGas ∧ ∃ b, Chain (parent s) gas a b) := by
  induction gas generalizing s a old new remove add with
  | zero =>
    unfold updateAncestorHeights
    by_cases ha : a = 0
    · rw [if_pos ha]
      exact .inl ⟨s, rfl, hzero ha, rfl, rfl⟩
    · rw [if_neg ha]
      exact .inr ⟨rfl, a, .refl a⟩
  | succ gas ih =>
    by_cases ha : a = 0
    · rw [updateAncestorHeights, if_pos ha]
      exact .inl ⟨s, rfl, hzero ha, rfl, rfl⟩
    have hself : parent s a ≠ some a := fun h => hb.no_cycle a (.step h (.refl a))
    obtain ⟨counts, hok, hcounts⟩ := adjust_ok (hs ha) hself hmove
    rw [updateAncestorHeights_succ s gas ha, hok, ok_bind]
    have hat : (withCounts s a counts).childHeightCounts a = counts := update_self ..
    have hne : ∀ b, b ≠ a → (withCounts s a counts).childHeightCounts b = s.childHeightCounts b :=
      fun b h => update_of_ne h ..
    simp only [hat]
    -- with the new counts all buckets are right, and all heights but that of `a`
    have hall : ∀ b h, count (withCounts s a counts) b h = (children s b h).encard := by
      intro b h
      by_cases hba : b = a
      · subst hba
        rw [count, hat]
        exact hcounts h
      · rw [count, hne b hba]
        exact (hs ha).counts b h hba
    have hheights : ∀ b, b ≠ a → s.subtreeHeight b =
        tallest ((withCounts s a counts).childHeightCounts b) MAXIMUM_DEPTH := by
      intro b hba
      rw [hne b hba]
      exact (hs ha).heights b
    by_cases hsame : tallest counts MAXIMUM_DEPTH = (withCounts s a counts).subtreeHeight a
    · rw [if_pos hsame]
      refine .inl ⟨_, rfl, ⟨hall, fun b => ?_⟩, rfl, rfl⟩
      by_cases hba : b = a
      · subst hba
        rw [hat]
        exact hsame.symm
      · exact hheights b hba
    · rw [if_neg hsame]
      obtain ⟨newHeight, hnew⟩ : ∃ n, tallest counts MAXIMUM_DEPTH = n := ⟨_, rfl⟩
      rw [hnew] at hsame ⊢
      -- the state of the next round
      obtain ⟨s₁, hs₁⟩ : ∃ s₁ : State, { withCounts s a counts with
          subtreeHeight := update (withCounts s a counts).subtreeHeight a newHeight } = s₁ :=
        ⟨_, rfl⟩
      rw [hs₁]
      have hparent : parent s₁ = parent s := by rw [← hs₁]; rfl
      have hheight : s₁.subtreeHeight = update s.subtreeHeight a newHeight := by rw [← hs₁]; rfl
      have hcount : ∀ b h, count s₁ b h = (children s b h).encard := by
        intro b h
        rw [← hall b h, ← hs₁]
        rfl
      have hheights₁ : ∀ b, s₁.subtreeHeight b = tallest (s₁.childHeightCounts b) MAXIMUM_DEPTH := by
        intro b
        rw [hheight]
        by_cases hba : b = a
        · subst hba
          rw [update_self, ← hs₁]
          show newHeight = tallest ((withCounts s b counts).childHeightCounts b) MAXIMUM_DEPTH
          rw [hat, hnew]
        · rw [update_of_ne hba, hheights b hba, ← hs₁]
      have hother : ∀ b h, parent s a ≠ some b → count s₁ b h = (children s₁ b h).encard := by
        intro b h hab
        rw [hcount, children, children, hparent, hheight, bucket_height_of_ne hab]
      have hih := @ih s₁ (s.parentOf a) (s.subtreeHeight a) newHeight true true
        (by rw [hparent]; exact hb) ?_ ?_ (fun _ _ h => hsame h.symm)
      · have hpa : (withCounts s a counts).parentOf a = s.parentOf a := rfl
        have hha : (withCounts s a counts).subtreeHeight a = s.subtreeHeight a := rfl
        rw [hpa, hha]
        rcases hih with ⟨s', hok', hcons, hp, hpp⟩ | ⟨hgas, b, hchain⟩
        · exact .inl ⟨s', hok', hcons, by rw [hp, ← hs₁]; rfl, by rw [hpp, ← hs₁]; rfl⟩
        · refine .inr ⟨hgas, ?_⟩
          rw [hparent] at hchain
          by_cases hz : s.parentOf a = 0
          · -- the loop has ended at the root, so the gas was enough
            rw [hz] at hgas
            cases gas with
            | zero => simp [updateAncestorHeights] at hgas
            | succ gas => simp [updateAncestorHeights] at hgas
          · exact ⟨b, .step (parent_eq_some.mpr ⟨rfl, hz⟩) hchain⟩
      · intro hz
        have hnone : parent s a = none := parent_eq_none.mpr hz
        exact ⟨fun b h => hother b h (by simp [hnone]), hheights₁⟩
      · intro hz
        have hsome : parent s a = some (s.parentOf a) := parent_eq_some.mpr ⟨rfl, hz⟩
        refine ⟨fun b h hba => hother b h ?_, fun h => ?_, hheights₁⟩
        · rw [hsome]
          exact fun e => hba (some_inj.mp e).symm
        · rw [hcount, children, children, hparent, hheight]
          simp only [true_and]
          exact (encard_bucket_height hsome newHeight).symm

structure Inv (s : State) : Prop where
  bounded : Bounded (parent s) MAXIMUM_DEPTH
  consistent : Consistent s
  pending : ∀ c, s.pendingParentOf c = 0 ∨ s.parentOf c = 0

/-- What the validation of a link has seen: the child is not above the parent, and neither branch is
too long. -/
theorem checkAncestors_ok {rounds depth : Nat} {ancestor : B256}
    (h : checkAncestors s c p rounds depth ancestor = .ok ()) :
    (∀ k, ¬ Chain (parent s) k ancestor c) ∧
      ∀ k a, Chain (parent s) k ancestor a → s.subtreeHeight c + depth + k + 1 ≤ MAXIMUM_DEPTH := by
  induction rounds generalizing depth ancestor with
  | zero => simp [checkAncestors] at h
  | succ rounds ih =>
    unfold checkAncestors at h
    obtain ⟨hne, h⟩ := of_guard h
    obtain ⟨hdepth, h⟩ := of_guard h
    by_cases hroot : s.parentOf ancestor = 0
    · have hnone : parent s ancestor = none := parent_eq_none.mpr hroot
      constructor
      · intro k hk
        cases hk with
        | refl => exact hne rfl
        | step hp _ => simp [hnone] at hp
      · intro k a hk
        cases hk with
        | refl => omega
        | step hp _ => simp [hnone] at hp
    · rw [if_neg hroot] at h
      obtain ⟨hnot, hlen⟩ := ih h
      have hsome : parent s ancestor = some (s.parentOf ancestor) := parent_eq_some.mpr ⟨rfl, hroot⟩
      constructor
      · intro k hk
        cases hk with
        | refl => exact hne rfl
        | step hp hk =>
          rw [hsome] at hp
          obtain rfl := some_inj.mp hp
          exact hnot _ hk
      · intro k a hk
        cases hk with
        | refl => omega
        | step hp hk =>
          rw [hsome] at hp
          obtain rfl := some_inj.mp hp
          have := hlen _ a hk
          omega

def withParent (s : State) (c p : B256) : State := { s with parentOf := update s.parentOf c p }

theorem parent_withParent (s : State) (c p : B256) :
    parent (withParent s c p) = update (parent s) c (if p = 0 then none else some p) := by
  funext x
  by_cases hx : x = c
  · subst hx
    simp only [parent, withParent, update_self]
  · simp only [parent, withParent, update_of_ne hx]

theorem link_repair (hs : Inv s) (hc : s.parentOf c = 0) (h : validateHierarchy s c p = .ok ()) :
    Bounded (parent (withParent s c p)) MAXIMUM_DEPTH ∧ (p = 0 → Consistent (withParent s c p)) ∧
      (p ≠ 0 → Repair (withParent s c p) p (s.subtreeHeight c) (s.subtreeHeight c) false true) := by
  have hnone : parent s c = none := parent_eq_none.mpr hc
  obtain ⟨hnot, hlen⟩ := checkAncestors_ok h
  by_cases hp : p = 0
  · have hsame : parent (withParent s c p) = parent s := by
      rw [parent_withParent, if_pos hp, ← hnone, update_eq_self]
    refine ⟨hsame ▸ hs.bounded, fun _ => ⟨fun a h => ?_, hs.consistent.heights⟩, fun h => absurd hp h⟩
    rw [children, hsame]
    exact hs.consistent.counts a h
  · have hlink : parent (withParent s c p) = update (parent s) c (some p) := by
      rw [parent_withParent, if_neg hp]
    refine ⟨?_, fun h => absurd h hp, fun _ => ⟨fun b h hb => ?_, fun h => ?_, hs.consistent.heights⟩⟩
    · rw [hlink]
      refine bounded_link hs.bounded hnot fun m k d a hm hk => ?_
      have hheight : m ≤ s.subtreeHeight c := (hs.consistent.levels.isHeight hs.bounded c).2 ⟨d, hm⟩
      have := hlen k a hk
      omega
    · have hcb : parent s c ≠ some b := by simp [hnone]
      have hpb : some p ≠ some b := fun e => hb (some_inj.mp e).symm
      rw [children, hlink, bucket_parent_of_ne hcb hpb]
      exact hs.consistent.counts b h
    · rw [children, hlink]
      simp only [Bool.false_eq_true, false_and, if_false, true_and, add_zero]
      refine Eq.trans ?_ (encard_bucket_link hnone).symm
      congr 1
      exact hs.consistent.counts p h

theorem unlink_repair (hs : Inv s) (hc : s.parentOf c ≠ 0) : Bounded (parent (withParent s c 0)) MAXIMUM_DEPTH ∧
      Repair (withParent s c 0) (s.parentOf c) (s.subtreeHeight c) (s.subtreeHeight c) true false := by
  have hsome : parent s c = some (s.parentOf c) := parent_eq_some.mpr ⟨rfl, hc⟩
  have hunlink : parent (withParent s c 0) = update (parent s) c none := by
    rw [parent_withParent, if_pos rfl]
  refine ⟨hs.bounded.mono fun d p h => ?_, fun b h hb => ?_, fun h => ?_, hs.consistent.heights⟩
  · rw [hunlink] at h
    by_cases hd : d = c
    · subst hd
      simp at h
    · rwa [update_of_ne hd] at h
  · have hcb : parent s c ≠ some b := by
      rw [hsome]
      exact fun e => hb (some_inj.mp e).symm
    rw [children, hunlink, bucket_parent_of_ne hcb (by simp)]
    exact hs.consistent.counts b h
  · rw [children, hunlink]
    simp only [Bool.false_eq_true, false_and, if_false, true_and, add_zero]
    exact (hs.consistent.counts (s.parentOf c) h).trans (encard_bucket_unlink hsome)

theorem Inv.withPending (hs : Inv s) (pending : B256 → B256)
    (hp : ∀ c, pending c = 0 ∨ s.parentOf c = 0) : Inv { s with pendingParentOf := pending } :=
  ⟨hs.bounded, ⟨hs.consistent.counts, hs.consistent.heights⟩, hp⟩

theorem requireAvailableChild_ok (h : requireAvailableChild s c = .ok ()) :
    s.parentOf c = 0 ∧ s.pendingParentOf c = 0 := by
  unfold requireAvailableChild at h
  obtain ⟨h1, h⟩ := of_guard h
  obtain ⟨h2, -⟩ := of_guard h
  exact ⟨not_not.mp h1, not_not.mp h2⟩

theorem link_inv (hs : Inv s) (hc : s.parentOf c = 0)
    (hpend : s.pendingParentOf c = 0) (hv : validateHierarchy s c p = .ok ()) {gas : Nat}
    {s' : State} (h : updateAncestorHeights (withParent s c p) gas p (s.subtreeHeight c)
      (s.subtreeHeight c) false true = .ok s') : Inv s' := by
  obtain ⟨hb, hzero, hrepair⟩ := link_repair hs hc hv
  rcases updateAncestorHeights_spec gas hb hzero hrepair (fun h => by simp at h) with
    ⟨s₁, hok, hcons, hp, hpp⟩ | ⟨hgas, -⟩
  · rw [hok] at h
    obtain rfl := ok_inj h
    refine ⟨?_, hcons, fun x => ?_⟩
    · have hsame : parent s₁ = parent (withParent s c p) := by
        funext x
        simp only [parent, hp]
      rw [hsame]
      exact hb
    · rw [hp, hpp]
      by_cases hx : x = c
      · subst hx
        exact .inl hpend
      · rcases hs.pending x with h0 | h0
        · exact .inl h0
        · refine .inr ?_
          show update s.parentOf c p x = 0
          rw [update_of_ne hx]
          exact h0
  · rw [hgas] at h
    exact absurd h (by simp)

/-- Every call keeps what holds between calls. -/
theorem call_inv {env : Env} {s' : State} {f : Call} (hs : Inv s) (h : call env s f = .ok s') : Inv s' := by
  cases f with
  | claimParent c p =>
    simp only [call, claimParent] at h
    obtain ⟨_, havail, h⟩ := of_bind h
    obtain ⟨-, h⟩ := of_guard h
    obtain ⟨childAuthority, -, h⟩ := of_bind h
    obtain ⟨-, -, h⟩ := of_bind h
    obtain ⟨-, h⟩ := of_guard h
    obtain ⟨-, -, h⟩ := of_bind h
    rw [← ok_inj h]
    refine hs.withPending _ fun x => ?_
    by_cases hx : x = c
    · subst hx
      exact .inr (requireAvailableChild_ok havail).1
    · rw [update_of_ne hx]
      exact hs.pending x
  | acceptChild c =>
    simp only [call, acceptChild] at h
    obtain ⟨-, h⟩ := of_guard h
    obtain ⟨parentAuthority, -, h⟩ := of_bind h
    obtain ⟨-, h⟩ := of_guard h
    obtain ⟨hc, h⟩ := of_guard h
    obtain ⟨-, -, h⟩ := of_bind h
    obtain ⟨_, hv, h⟩ := of_bind h
    -- the claim is withdrawn before the link is made
    have hs₁ : Inv { s with pendingParentOf := update s.pendingParentOf c 0 } := by
      refine hs.withPending _ fun x => ?_
      by_cases hx : x = c
      · subst hx
        exact .inl (update_self ..)
      · rw [update_of_ne hx]
        exact hs.pending x
    exact link_inv (c := c) hs₁ (not_not.mp hc) (update_self ..) hv h
  | cancelParentClaim c =>
    simp only [call, cancelParentClaim] at h
    obtain ⟨-, h⟩ := of_guard h
    obtain ⟨childAuthority, -, h⟩ := of_bind h
    obtain ⟨parentAuthority, -, h⟩ := of_bind h
    obtain ⟨-, h⟩ := of_guard h
    rw [← ok_inj h]
    refine hs.withPending _ fun x => ?_
    by_cases hx : x = c
    · subst hx
      exact .inl (update_self ..)
    · rw [update_of_ne hx]
      exact hs.pending x
  | registerSubnetwork c p =>
    simp only [call, registerSubnetwork] at h
    obtain ⟨-, h⟩ := of_guard h
    obtain ⟨_, havail, h⟩ := of_bind h
    obtain ⟨-, h⟩ := of_guard h
    obtain ⟨-, -, h⟩ := of_bind h
    obtain ⟨-, -, h⟩ := of_bind h
    obtain ⟨_, hv, h⟩ := of_bind h
    obtain ⟨hc, hpend⟩ := requireAvailableChild_ok havail
    exact link_inv (c := c) hs hc hpend hv h
  | release c =>
    simp only [call, release] at h
    obtain ⟨hc, h⟩ := of_guard h
    obtain ⟨parentAuthority, -, h⟩ := of_bind h
    obtain ⟨-, h⟩ := of_guard h
    obtain ⟨hb, hrepair⟩ := unlink_repair hs hc
    rcases updateAncestorHeights_spec env.gas hb (fun h => absurd h hc) (fun _ => hrepair)
        (fun _ h => by simp at h) with ⟨s₁, hok, hcons, hp, hpp⟩ | ⟨hgas, -⟩
    · have hs₁ : s₁ = s' := ok_inj (hok.symm.trans h)
      subst hs₁
      refine ⟨?_, hcons, fun x => ?_⟩
      · have hsame : parent s₁ = parent (withParent s c 0) := by
          funext x
          simp only [parent, hp]
        rw [hsame]
        exact hb
      · rw [hp, hpp]
        by_cases hx : x = c
        · subst hx
          exact .inr (update_self ..)
        · rcases hs.pending x with h0 | h0
          · exact .inl h0
          · refine .inr ?_
            show update s.parentOf c 0 x = 0
            rw [update_of_ne hx]
            exact h0
    · exact absurd (hgas.symm.trans h) (by simp)

theorem constructor_inv {instanceRegistry_ admin : Address}
    (h : constructor instanceRegistry_ admin = .ok s) : Inv s := by
  unfold constructor at h
  obtain ⟨-, h⟩ := of_guard h
  rw [← ok_inj h]
  have hnone : ∀ x : B256, parent ⟨fun _ => 0, fun _ => 0, fun _ => 0, fun _ _ => 0⟩ x = none :=
    fun x => parent_eq_none.mpr rfl
  refine ⟨?_, ⟨fun a h => ?_, fun a => ?_⟩, fun c => .inl rfl⟩
  · intro n d a hchain
    cases hchain with
    | refl => exact Nat.zero_le _
    | step hp _ => exact absurd ((hnone _).symm.trans hp) (Option.some_ne_none _).symm
  · have hempty : children ⟨fun _ => 0, fun _ => 0, fun _ => 0, fun _ _ => 0⟩ a h = ∅ := by
      refine Set.eq_empty_of_forall_notMem fun c hc => ?_
      exact absurd ((hnone c).symm.trans hc.1) (Option.some_ne_none _).symm
    rw [hempty, Set.encard_empty]
    rfl
  · rfl

theorem run_inv (hs : Inv s) (calls : List (Env × Call)) : Inv (run s calls) := by
  induction calls generalizing s with
  | nil => exact hs
  | cons c calls ih =>
    have hstep : Inv (apply s c) := by
      unfold apply
      cases hc : call c.1 s c.2 with
      | error e => exact hs
      | ok s' => exact call_inv hs hc
    exact ih hstep

/-- The hierarchy of a state: a forest of bounded depth with exact heights and child counts, no
instance with both a pending and an accepted parent, and releases that cannot fail. -/
structure BoundedForest (s : State) : Prop where
  acyclic : ∀ a, ¬ Relation.TransGen (fun c p => s.parentOf c = p ∧ p ≠ 0) a a
  depth : ∀ c, {a | Relation.TransGen (fun c p => s.parentOf c = p ∧ p ≠ 0) c a}.encard ≤ MAXIMUM_DEPTH
  height : ∀ a, IsHeight (parent s) a (s.subtreeHeight a)
  counts : ∀ a h, ((s.childHeightCounts a h).toNat : ℕ∞) =
    {c | (s.parentOf c = a ∧ a ≠ 0) ∧ s.subtreeHeight c = h}.encard
  one_parent : ∀ c, ¬ (s.pendingParentOf c ≠ 0 ∧ s.parentOf c ≠ 0)
  release_no_underflow : ∀ env c, release env s c ≠ .error .underflow
  release_ok : ∀ env c, s.parentOf c ≠ 0 → authorityOf env (s.parentOf c) = .ok env.msgSender →
    MAXIMUM_DEPTH < env.gas → ∃ s', release env s c = .ok s'

theorem resolveAuthority_error {env : Env} {id : B256} {e : Error}
    (h : authorityOf env id = .error e) : e ≠ .underflow := by
  rintro rfl
  simp only [authorityOf, resolveAuthority] at h
  split at h
  · simp at h
  · split at h
    · simp at h
    · split at h
      · simp at h
      · split at h
        · split at h <;> simp at h
        · simp at h

theorem release_spec (hs : Inv s) (hc : s.parentOf c ≠ 0) (gas : Nat) :
    (∃ s', updateAncestorHeights (withParent s c 0) gas (s.parentOf c) (s.subtreeHeight c)
      (s.subtreeHeight c) true false = .ok s') ∨
    (updateAncestorHeights (withParent s c 0) gas (s.parentOf c) (s.subtreeHeight c)
      (s.subtreeHeight c) true false = .error .outOfGas ∧ gas ≤ MAXIMUM_DEPTH) := by
  obtain ⟨hb, hrepair⟩ := unlink_repair hs hc
  rcases updateAncestorHeights_spec gas hb (fun h => absurd h hc) (fun _ => hrepair)
      (fun _ h => by simp at h) with ⟨s₁, hok, -⟩ | ⟨hgas, b, hchain⟩
  · exact .inl ⟨s₁, hok⟩
  · exact .inr ⟨hgas, hb _ _ _ hchain⟩

theorem Inv.boundedForest (hs : Inv s) : BoundedForest s where
  acyclic a h := by
    simp only [← parent_eq_some] at h
    exact hs.bounded.acyclic a h
  depth c := by
    simp only [← parent_eq_some]
    exact hs.bounded.encard_ancestors_le c
  height a := hs.consistent.levels.isHeight hs.bounded a
  counts a h := by
    simp only [← parent_eq_some]
    exact hs.consistent.counts a h
  one_parent c h := by
    rcases hs.pending c with h0 | h0
    · exact h.1 h0
    · exact h.2 h0
  release_no_underflow env c h := by
    unfold release at h
    rcases ite_error_eq_error.mp h with ⟨-, h⟩ | ⟨hc, h⟩
    · exact absurd h (by simp)
    · rcases bind_eq_error.mp h with h | ⟨parentAuthority, -, h⟩
      · exact resolveAuthority_error h rfl
      · rcases ite_error_eq_error.mp h with ⟨-, h⟩ | ⟨-, h⟩
        · exact absurd h (by simp)
        · rcases release_spec hs hc env.gas with ⟨s', hok⟩ | ⟨hgas, -⟩
          · exact absurd (hok.symm.trans h) (by simp)
          · exact absurd (hgas.symm.trans h) (by simp)
  release_ok env c hc hauth hgas := by
    rcases release_spec hs hc env.gas with ⟨s', hok⟩ | ⟨-, hle⟩
    · refine ⟨s', ?_⟩
      unfold release
      rw [if_neg hc, hauth, ok_bind, if_neg (not_not.mpr rfl)]
      exact hok
    · omega

/-- The subnetwork hierarchy is a bounded forest with exact heights, after every run of calls by any
callers, whatever the authorities of the instances are at each of them. -/
theorem run_boundedForest (instanceRegistry_ admin : Address) (s : State)
    (h : constructor instanceRegistry_ admin = .ok s) (calls : List (Env × Call)) :
    BoundedForest (run s calls) :=
  (run_inv (constructor_inv h) calls).boundedForest

namespace Example

def addr (b : UInt8) : Address := .replicate 20 b

def env (msgSender : Address) : Env :=
  ⟨msgSender, ⟨fun _ => true, fun id => if id = .ofNat 32 1 then addr 1 else addr 2, fun _ => none⟩,
    fun account => account = addr 2, 20⟩

def calls : List (Env × Call) :=
  [(env (addr 1), .claimParent (.ofNat 32 1) (.ofNat 32 2)), (env (addr 2), .acceptChild (.ofNat 32 1)),
    (env (addr 2), .registerSubnetwork (.ofNat 32 3) (.ofNat 32 1)),
    (env (addr 2), .release (.ofNat 32 1))]

def initial : State := ⟨fun _ => 0, fun _ => 0, fun _ => 0, fun _ _ => 0⟩

end Example

open Example in
/-- Three instances in a line, before and after the release of the upper link. -/
theorem run_boundedForest_line : BoundedForest (run initial (calls.take 3)) ∧
    (run initial (calls.take 3)).subtreeHeight (.ofNat 32 2) = 2 ∧
    BoundedForest (run initial calls) ∧ (run initial calls).subtreeHeight (.ofNat 32 2) = 0 := by
  have hc : constructor (addr 9) (addr 8) = .ok initial := by
    have h : ¬ (addr 9 = 0 ∨ addr 8 = 0) := by decide
    rw [constructor, if_neg h]
    rfl
  obtain ⟨hlinked, hreleased⟩ : (run initial (calls.take 3)).subtreeHeight (.ofNat 32 2) = 2 ∧
      (run initial calls).subtreeHeight (.ofNat 32 2) = 0 := by
    decide +kernel
  exact ⟨run_boundedForest (addr 9) (addr 8) initial hc _, hlinked,
    run_boundedForest (addr 9) (addr 8) initial hc _, hreleased⟩

end Trustgraphs.SubnetworkRegistry
