import Trustgraphs.Contracts.Proofs.SnapshotHistoryProofs

/-!
# The schedule of a snapshot does not drift

While the length of the epochs is fixed, an accepted trigger consumes the boundary of its own window
(`consumedBoundary_eq`), however late it comes.
-/

namespace Trustgraphs

open Outcome List UInt64 Option

namespace Window

variable {o L k b : Nat}

/-- The window of a block, counted from the origin `o`. -/
def of (o L b : Nat) : Nat := (b - o) / L

def Contains (o L k b : Nat) : Prop := o + k * L ≤ b ∧ b < o + (k + 1) * L

theorem le_of_iff (hL : 0 < L) (ho : o ≤ b) : k ≤ of o L b ↔ o + k * L ≤ b := by
  rw [of, Nat.le_div_iff_mul_le hL]
  omega

theorem of_eq (hL : 0 < L) (h : Contains o L k b) : of o L b = k := by
  have ho : o ≤ b := le_trans (Nat.le_add_right o _) h.1
  refine Nat.le_antisymm ?_ ((le_of_iff hL ho).mpr h.1)
  by_contra hlt
  have hnext := (le_of_iff hL ho).mp (by omega : k + 1 ≤ of o L b)
  exact absurd h.2 (not_lt.mpr hnext)

end Window

namespace MerkleSnapshot

theorem consumedBoundary_eq {env : BlockEnv} {s : State} {block boundary : UInt64}
    (henv : env.blockNumber = uint256 block) (hlength : 0 < s.epochLength)
    (h : consumedBoundary env s = .ok boundary) :
    boundary.toNat = s.epochOriginBlock.toNat +
      Window.of s.epochOriginBlock.toNat s.epochLength.toNat block.toNat * s.epochLength.toNat := by
  unfold consumedBoundary at h
  rw [if_pos hlength] at h
  obtain ⟨elapsed, helapsed, h⟩ := of_bind h
  obtain ⟨offset, hoffset, h⟩ := of_bind h
  obtain ⟨sum, hsum, h⟩ := of_bind h
  have hword : ∀ b : UInt64, (uint256 b).toNat = b.toNat := by
    intro b
    rw [uint256, BitVec.toNat_ofNat]
    exact Nat.mod_eq_of_lt (b.toNat_lt.trans (by decide))
  have helapsed' := Checked.sub_eq_some.mp (ofPanic_eq_ok.mp helapsed)
  have hoffset' := Checked.mul_eq_some.mp (ofPanic_eq_ok.mp hoffset)
  have hsum' := Checked.add_eq_some.mp (ofPanic_eq_ok.mp hsum)
  rw [henv, hword, hword] at helapsed'
  rw [BitVec.toNat_udiv, hword] at hoffset'
  rw [hword] at hsum'
  have hsub : block.toNat - s.epochOriginBlock.toNat = elapsed.toNat := by omega
  -- the boundary is not after the block, so that it fits
  have hbelow := Nat.div_mul_le_self elapsed.toNat s.epochLength.toNat
  have hblock := block.toNat_lt
  have hsize : UInt64.size = 2 ^ 64 := rfl
  rw [← ok_inj h, toNat_ofNat_of_lt' (by omega), hsum', hoffset', Window.of, hsub]

theorem anchorEpoch_same {blockNumber : U256} {s : State} {epochLength : UInt64}
    (h : epochLength = s.epochLength) : anchorEpoch blockNumber s epochLength = s := by
  rw [anchorEpoch, if_neg (not_not.mpr h)]

theorem anchorEpoch_epochLength (blockNumber : U256) (s : State) (epochLength : UInt64) :
    (anchorEpoch blockNumber s epochLength).epochLength = epochLength := by
  unfold anchorEpoch
  split
  · split
    · rfl
    · rfl
  · rename_i h
    exact (not_not.mp h).symm

theorem anchorEpoch_new {blockNumber : U256} {s : State} {epochLength : UInt64}
    (h : epochLength ≠ s.epochLength) (hpos : epochLength ≠ 0) :
    (anchorEpoch blockNumber s epochLength).schedule =
      ⟨epochLength, UInt64.ofNat blockNumber.toNat, UInt64.ofNat blockNumber.toNat⟩ := by
  rw [anchorEpoch, if_pos h, if_neg hpos]
  rfl

theorem trigger_epochNotElapsed {σ : Type} {L : Accumulator σ} {self : Address} {env : BlockEnv}
    {anchors : AnchorView} {s : State} {lane : σ} :
    (∃ last length, trigger L self env anchors s lane = .error (.error (.epochNotElapsed last length))) ↔
      0 < s.epochLength ∧ env.blockNumber.toNat < s.lastTriggerBlock.toNat + s.epochLength.toNat := by
  constructor
  · rintro ⟨last, length, h⟩
    rcases trigger_eq_error h with ⟨hpos, hlt, -⟩ | h | h | h | ⟨lane, id, -, -, h⟩
    · exact ⟨hpos, hlt⟩
    · exact absurd h (by simp)
    · exact absurd h (by simp)
    · exact absurd h (by simp)
    · exact absurd h (by simp)
  · intro h
    refine ⟨s.lastTriggerBlock, s.epochLength, ?_⟩
    unfold trigger revert
    rw [if_pos h]

end MerkleSnapshot

namespace SnapshotWorld

open MerkleSnapshot

variable {H : Hashes} {self : Address} {i : Input} {w w' : World} {env : BlockEnv}

theorem step_schedule (h : step H self i w = some w') : (∃ anchors view, i.call = .trigger anchors view ∧
      Triggered H self i.env anchors view (w.advance i.block) w') ∨
    (∀ anchors view, i.call ≠ .trigger anchors view) ∧ w'.snapshot.schedule = w.snapshot.schedule ∨
    (∀ anchors view, i.call ≠ .trigger anchors view) ∧ w'.snapshot.epochLength ≠ w.snapshot.epochLength := by
  obtain ⟨-, -, -, heffect⟩ := step_cases h
  generalize i.call = c at heffect
  cases heffect with
  | triggered anchors view htriggered => exact .inl ⟨anchors, view, rfl, htriggered⟩
  | submitted v p c index _ hsubmitted =>
    refine .inr (.inl ⟨fun _ _ => by simp, ?_⟩)
    rw [hsubmitted.toState]
    rfl
  | lane address view c l hsnapshot _ _ =>
    refine .inr (.inl ⟨fun _ _ => by simp, ?_⟩)
    rw [hsnapshot]
    rfl
  | governed _ hgoverned =>
    have hcall : ∀ anchors view, c ≠ .trigger anchors view := by
      intro anchors view hc
      have hgoverns := hgoverned.governs
      rw [hc] at hgoverns
      exact Bool.noConfusion hgoverns
    rcases hgoverned.schedule with hsame | ⟨epochLength, -, hset⟩
    · exact .inr (.inl ⟨hcall, hsame⟩)
    · by_cases hlength : epochLength = w.snapshot.epochLength
      · have hkept := congrArg State.schedule
          (@anchorEpoch_same i.env.blockNumber w.snapshot.toState epochLength hlength)
        exact .inr (.inl ⟨hcall, hset.trans hkept⟩)
      · refine .inr (.inr ⟨hcall, ?_⟩)
        have hnew := (congrArg Schedule.epochLength hset).trans (anchorEpoch_epochLength ..)
        rw [show w'.snapshot.epochLength = epochLength from hnew]
        exact hlength

theorem step_setEpochLength {epochLength : UInt64} (h : step H self i w = some w')
    (hcall : i.call = .setEpochLength epochLength) (hpos : epochLength ≠ 0)
    (hchanged : w.snapshot.epochLength ≠ epochLength) :
    w'.snapshot.schedule = ⟨epochLength, i.block, i.block⟩ := by
  unfold step at h
  simp only [ite_none_left_eq_some, hcall] at h
  obtain ⟨-, -, h⟩ := h
  obtain ⟨s', hs', rfl⟩ := map_eq_some_iff.mp h
  have hset := onlyConstitutional_eq_ok (toOption_eq_some.mp hs')
  obtain rfl := ok_inj hset
  have hnumber : UInt64.ofNat i.env.blockNumber.toNat = i.block := by
    show UInt64.ofNat (uint256 i.block).toNat = i.block
    rw [uint256, BitVec.toNat_ofNat, Nat.mod_eq_of_lt (i.block.toNat_lt.trans (by decide)), UInt64.ofNat_toNat]
  show (anchorEpoch i.env.blockNumber w.snapshot.toState epochLength).schedule = _
  rw [anchorEpoch_new (Ne.symm hchanged) hpos, hnumber]

def Input.isTrigger (i : Input) : Bool :=
  match i.call with
  | .trigger _ _ => true
  | _ => false

/-- The blocks of the triggers that a run accepts, oldest first. -/
def triggerBlocks (H : Hashes) (self : Address) (w : World) (is : List Input) : List Nat :=
  Run.marks (step H self) Input.isTrigger (fun w => w.block.toNat) w is

/-- The window of the last trigger, the window of the origin when there was none. -/
def lastWindow (o L : Nat) (blocks : List Nat) : Nat := (blocks.getLast?.map (Window.of o L)).getD 0

/-- The schedule after triggers at `blocks`: the last boundary is that of the last window, each trigger has
a window of its own, and none is in the window of the origin. -/
structure Scheduled (length origin : UInt64) (blocks : List Nat) (w : World) : Prop where
  epochLength : w.snapshot.epochLength = length
  epochOriginBlock : w.snapshot.epochOriginBlock = origin
  started : origin ≤ w.block
  boundary : w.snapshot.lastTriggerBlock.toNat =
    origin.toNat + lastWindow origin.toNat length.toNat blocks * length.toNat
  reached : w.snapshot.lastTriggerBlock.toNat ≤ w.block.toNat
  below : ∀ b ∈ blocks, origin.toNat ≤ b ∧
    Window.of origin.toNat length.toNat b ≤ lastWindow origin.toNat length.toNat blocks
  positive : ∀ b ∈ blocks, 1 ≤ Window.of origin.toNat length.toNat b
  ascending : blocks.Pairwise fun b b' =>
    Window.of origin.toNat length.toNat b < Window.of origin.toNat length.toNat b'

variable {length origin : UInt64} {blocks : List Nat}

theorem lastWindow_concat (o L b : Nat) : lastWindow o L (blocks ++ [b]) = Window.of o L b := by
  rw [lastWindow, getLast?_concat]
  rfl

theorem Scheduled.of_schedule (h : Scheduled length origin blocks w)
    (hsame : w'.snapshot.schedule = w.snapshot.schedule) (hblock : w.block ≤ w'.block) :
    Scheduled length origin blocks w' := by
  have hlength : w'.snapshot.epochLength = w.snapshot.epochLength := congrArg Schedule.epochLength hsame
  have horigin : w'.snapshot.epochOriginBlock = w.snapshot.epochOriginBlock :=
    congrArg Schedule.epochOriginBlock hsame
  have hlast : w'.snapshot.lastTriggerBlock = w.snapshot.lastTriggerBlock :=
    congrArg Schedule.lastTriggerBlock hsame
  exact {
    epochLength := hlength.trans h.epochLength
    epochOriginBlock := horigin.trans h.epochOriginBlock
    started := UInt64.le_trans h.started hblock
    boundary := by
      rw [hlast]
      exact h.boundary
    reached := by
      rw [hlast]
      exact h.reached.trans (le_iff_toNat_le.mp hblock)
    below := h.below
    positive := h.positive
    ascending := h.ascending }

/-- A trigger is in a window after the last one, and consumes its boundary. -/
theorem Scheduled.trigger {anchors : AnchorView} {view : LaneView} (hpos : 0 < length)
    (h : Scheduled length origin blocks w) (hblock : w'.block = w.block)
    (henv : env.blockNumber = uint256 w.block) (htrigger : Triggered H self env anchors view w w') :
    Scheduled length origin (blocks ++ [w.block.toNat]) w' := by
  obtain ⟨boundary, hboundary, hs⟩ := htrigger.pinned
  have hlength' : 0 < w.snapshot.epochLength := h.epochLength ▸ hpos
  have hL : 0 < length.toNat := lt_iff_toNat_lt.mp hpos
  have hnumber : env.blockNumber.toNat = w.block.toNat := by
    rw [henv, uint256, BitVec.toNat_ofNat]
    exact Nat.mod_eq_of_lt (w.block.toNat_lt.trans (by decide))
  have hafter : w.snapshot.lastTriggerBlock.toNat + length.toNat ≤ w.block.toNat := by
    rw [← hnumber, ← h.epochLength]
    exact not_lt.mp fun hlt => htrigger.scheduled ⟨hlength', hlt⟩
  have hconsumed := consumedBoundary_eq henv hlength' hboundary
  rw [h.epochOriginBlock, h.epochLength] at hconsumed
  have hlast : w'.snapshot.lastTriggerBlock = boundary := by
    rw [hs]
    show consumed env w.snapshot.toState boundary = boundary
    rw [consumed, if_neg fun hzero => ?_]
    rw [hzero] at hlength'
    exact absurd hlength' (by decide)
  have ho := le_iff_toNat_le.mp h.started
  -- the window of the trigger is a later one
  have hlater : lastWindow origin.toNat length.toNat blocks + 1 ≤
      Window.of origin.toNat length.toNat w.block.toNat := by
    rw [Window.le_of_iff hL ho, Nat.add_mul, Nat.one_mul]
    rw [h.boundary] at hafter
    omega
  have hbelow := (Window.le_of_iff hL ho).mp (le_refl (Window.of origin.toNat length.toNat w.block.toNat))
  refine ⟨?_, ?_, ?_, ?_, ?_, fun b hb => ?_, fun b hb => ?_, ?_⟩
  · rw [hs]
    exact h.epochLength
  · rw [hs]
    exact h.epochOriginBlock
  · rw [hblock]
    exact h.started
  · rw [lastWindow_concat, hlast, hconsumed]
  · rw [hlast, hblock, hconsumed]
    exact hbelow
  · rw [lastWindow_concat]
    rcases mem_append.mp hb with hb | hb
    · obtain ⟨hob, hle⟩ := h.below b hb
      exact ⟨hob, by omega⟩
    · rw [mem_singleton.mp hb]
      exact ⟨ho, le_refl _⟩
  · rcases mem_append.mp hb with hb | hb
    · exact h.positive b hb
    · rw [mem_singleton.mp hb]
      omega
  · rw [pairwise_append]
    refine ⟨h.ascending, pairwise_singleton .., fun b hb b' hb' => ?_⟩
    rw [mem_singleton.mp hb']
    have := (h.below b hb).2
    omega

theorem Scheduled.advance (h : Scheduled length origin blocks w) {block : UInt64}
    (hblock : w.block ≤ block) : Scheduled length origin blocks (w.advance block) :=
  h.of_schedule rfl hblock

theorem Scheduled.step (hpos : 0 < length) (h : Scheduled length origin blocks w)
    (hstep : SnapshotWorld.step H self i w = some w') (hfixed : w'.snapshot.epochLength = length) :
    Scheduled length origin (blocks ++ if i.isTrigger then [w'.block.toNat] else []) w' := by
  obtain ⟨hle, hblock, -, -⟩ := step_cases hstep
  have hadvanced : Scheduled length origin blocks (w.advance i.block) := h.advance hle
  have hisTrigger : (∀ anchors view, i.call ≠ .trigger anchors view) → ¬ i.isTrigger = true := by
    intro hno htrigger
    unfold Input.isTrigger at htrigger
    split at htrigger
    · rename_i anchors view hcall
      exact hno anchors view hcall
    · exact absurd htrigger (by simp)
  rcases step_schedule hstep with ⟨anchors, view, hcall, htrigger⟩ | ⟨hno, hsame⟩ | ⟨-, hchanged⟩
  · have hisTrigger' : i.isTrigger = true := by
      unfold Input.isTrigger
      rw [hcall]
    rw [if_pos hisTrigger', hblock]
    exact hadvanced.trigger hpos hblock rfl htrigger
  · rw [if_neg (hisTrigger hno), append_nil]
    exact h.of_schedule hsame (hblock ▸ hle)
  · exact absurd (hfixed.trans h.epochLength.symm) hchanged

def Fixed (H : Hashes) (self : Address) (length : UInt64) (w : World) (is : List Input) : Prop :=
  ∀ mid rest, is = mid ++ rest → (run H self w mid).snapshot.epochLength = length

theorem run_scheduled {w₁ : World} (hpos : 0 < length) (h : Scheduled length origin [] w₁)
    (is : List Input) (hfixed : Fixed H self length w₁ is) :
    Scheduled length origin (triggerBlocks H self w₁ is) (run H self w₁ is) := by
  induction is using List.reverseRecOn with
  | nil => exact h
  | append_singleton is i ih =>
    have hprefix := ih fun mid rest hsplit => hfixed mid (rest ++ [i]) (by rw [hsplit, append_assoc])
    have hend := hfixed (is ++ [i]) [] (append_nil _).symm
    have hrun : run H self w₁ (is ++ [i]) = Run.apply (SnapshotWorld.step H self) (run H self w₁ is) i := by
      show Run.run (SnapshotWorld.step H self) w₁ (is ++ [i]) = _
      rw [Run.run_append]
      rfl
    have hmarks : triggerBlocks H self w₁ (is ++ [i]) = triggerBlocks H self w₁ is ++
        Run.marks (SnapshotWorld.step H self) Input.isTrigger (fun w => w.block.toNat)
          (run H self w₁ is) [i] := Run.marks_append ..
    rw [hrun] at hend ⊢
    rw [hmarks]
    cases hi : SnapshotWorld.step H self i (run H self w₁ is) with
    | none =>
      rw [Run.apply_refused hi, Run.marks_refused hi]
      show Scheduled length origin (triggerBlocks H self w₁ is ++ []) _
      rw [append_nil]
      exact hprefix
    | some w' =>
      rw [Run.apply_accepted hi] at hend ⊢
      rw [Run.marks_accepted hi]
      exact hprefix.step hpos hi hend

def RefusedBySchedule (H : Hashes) (self : Address) (w : World) (i : Input) (anchors : AnchorView)
    (view : LaneView) : Prop :=
  ∃ last length, (w.advance i.block).trigger H self i.env anchors view =
    .error (.error (.epochNotElapsed last length))

theorem Scheduled.refused_iff (hpos : 0 < length) (h : Scheduled length origin blocks w) (i : Input)
    (anchors : AnchorView) (view : LaneView) : RefusedBySchedule H self w i anchors view ↔
      i.block.toNat < origin.toNat + (lastWindow origin.toNat length.toNat blocks + 1) * length.toNat := by
  have hlength : 0 < w.snapshot.epochLength := h.epochLength ▸ hpos
  have hnumber : i.env.blockNumber.toNat = i.block.toNat := by
    show (uint256 i.block).toNat = i.block.toNat
    rw [uint256, BitVec.toNat_ofNat]
    exact Nat.mod_eq_of_lt (i.block.toNat_lt.trans (by decide))
  have hbase : RefusedBySchedule H self w i anchors view ↔ 0 < w.snapshot.epochLength ∧
      i.env.blockNumber.toNat < w.snapshot.lastTriggerBlock.toNat + w.snapshot.epochLength.toNat := by
    rw [RefusedBySchedule]
    refine Iff.trans ?_ (@trigger_epochNotElapsed _ (Lane.accumulator H view w.snapshot.accumulator) self _ anchors
      w.snapshot.toState w.lane)
    exact exists_congr fun last => exists_congr fun length => map_eq_error
  rw [hbase, hnumber, h.epochLength, h.boundary, Nat.add_mul, Nat.one_mul]
  constructor
  · rintro ⟨-, hlt⟩
    omega
  · intro hlt
    exact ⟨hpos, by omega⟩

/-- A run under epochs of length `L` from the origin `o`. -/
structure NoDrift (H : Hashes) (address : Address) (o L : Nat) (w₁ : World) (is : List Input) : Prop where
  /-- No two triggers are in one window. -/
  once : (triggerBlocks H address w₁ is).Pairwise fun b b' =>
    ∀ k, Window.Contains o L k b → ¬ Window.Contains o L k b'
  /-- The last boundary is that of the last window, however late its trigger came. -/
  boundary : (run H address w₁ is).snapshot.lastTriggerBlock.toNat =
    o + lastWindow o L (triggerBlocks H address w₁ is) * L
  phase : (run H address w₁ is).snapshot.lastTriggerBlock.toNat ≡ o [MOD L]
  /-- The next permitted block is the next boundary. -/
  next : ∀ (i : Input) anchors view, RefusedBySchedule H address (run H address w₁ is) i anchors view ↔
    i.block.toNat < o + (lastWindow o L (triggerBlocks H address w₁ is) + 1) * L
  /-- A later window without a trigger is open. -/
  isOpen : ∀ (i : Input) anchors view k, (run H address w₁ is).block ≤ i.block → 1 ≤ k →
    Window.Contains o L k i.block.toNat →
    (∀ b ∈ triggerBlocks H address w₁ is, ¬ Window.Contains o L k b) →
    ¬ RefusedBySchedule H address (run H address w₁ is) i anchors view

theorem Scheduled.noDrift (hpos : 0 < length) {w₁ : World} {is : List Input}
    (h : Scheduled length origin (triggerBlocks H self w₁ is) (run H self w₁ is)) :
    NoDrift H self origin.toNat length.toNat w₁ is := by
  have hL : 0 < length.toNat := lt_iff_toNat_lt.mp hpos
  refine ⟨h.ascending.imp fun hlt k hk hk' => ?_, h.boundary, ?_, h.refused_iff hpos,
    fun i anchors view k hle hk hcontains hnone => ?_⟩
  · rw [Window.of_eq hL hk, Window.of_eq hL hk'] at hlt
    exact absurd hlt (lt_irrefl k)
  · rw [h.boundary]
    exact (Nat.modEq_iff_dvd' (Nat.le_add_right ..)).mpr (by simp) |>.symm
  · rw [h.refused_iff hpos, not_lt]
    -- the last window is before `k`
    have hwindow := Window.of_eq hL hcontains
    have hlt : lastWindow origin.toNat length.toNat (triggerBlocks H self w₁ is) < k := by
      cases hlast : (triggerBlocks H self w₁ is).getLast? with
      | none =>
        rw [lastWindow, hlast]
        exact hk
      | some b =>
        have hmem := mem_of_getLast? hlast
        have heq : lastWindow origin.toNat length.toNat (triggerBlocks H self w₁ is) =
            Window.of origin.toNat length.toNat b := by
          rw [lastWindow, hlast]
          rfl
        have hreached := h.reached.trans (le_iff_toNat_le.mp hle)
        rw [h.boundary] at hreached
        have hle' := (Window.le_of_iff hL (le_trans (Nat.le_add_right ..) hreached)).mpr hreached
        rw [hwindow] at hle'
        refine lt_of_le_of_ne hle' fun hsame => hnone b hmem ?_
        have hob := (h.below b hmem).1
        rw [← hsame, heq]
        refine ⟨(Window.le_of_iff hL hob).mp (le_refl _), ?_⟩
        by_contra hge
        have := (Window.le_of_iff hL hob).mpr (not_lt.mp hge)
        omega
    calc origin.toNat + (lastWindow origin.toNat length.toNat (triggerBlocks H self w₁ is) + 1) * length.toNat
        ≤ origin.toNat + k * length.toNat := Nat.add_le_add_left (Nat.mul_le_mul_right _ hlt) _
      _ ≤ i.block.toNat := hcontains.1

/-- Governance sets a new length of the epochs, at the block `o`, and it is not changed after that. Whatever
is called, at blocks that do not go back: at most one trigger succeeds in each window from `o`; the boundary
that is stored stays one of the windows, and the next block that the schedule permits is the next boundary,
however late a trigger came; and in a window after the first that has had no trigger, none is refused by the
schedule. -/
theorem setEpochLength_noDrift (H : Hashes) (self : Address) (w w₁ : World) (i : Input) (length : UInt64)
    (hcall : i.call = .setEpochLength length) (hpos : length ≠ 0)
    (hchanged : w.snapshot.epochLength ≠ length) (hset : step H self i w = some w₁) (is : List Input)
    (hfixed : Fixed H self length w₁ is) : NoDrift H self i.block.toNat length.toNat w₁ is := by
  have hpos' : 0 < length := by
    rw [UInt64.lt_iff_toNat_lt]
    exact Nat.pos_of_ne_zero fun hzero => hpos (UInt64.toNat_inj.mp hzero)
  have hschedule := step_setEpochLength hset hcall hpos hchanged
  obtain ⟨-, hblock, -, -⟩ := step_cases hset
  have hlast : w₁.snapshot.lastTriggerBlock = i.block := congrArg Schedule.lastTriggerBlock hschedule
  have hstart : Scheduled length i.block [] w₁ := {
    epochLength := congrArg Schedule.epochLength hschedule
    epochOriginBlock := congrArg Schedule.epochOriginBlock hschedule
    started := hblock ▸ UInt64.le_refl _
    boundary := by
      rw [hlast]
      simp [lastWindow]
    reached := by rw [hlast, hblock]
    below := fun b hb => absurd hb not_mem_nil
    positive := fun b hb => absurd hb not_mem_nil
    ascending := .nil }
  exact (run_scheduled hpos' hstart is hfixed).noDrift hpos'

namespace EpochExample

open HistoryExample (contract accumulator binder constitution operator prover hashes view anchors input
  deployed start)

def bound : Input := input 5 binder (.lane accumulator view (.bindSnapshot contract accumulator))

def setLength : Input := input 5 constitution (.setEpochLength 10)

def attempts : List Input :=
  [input 14 prover (.trigger anchors view), input 27 prover (.trigger anchors view),
    input 28 operator (.setParamsHash (.ofNat 32 2)),
    input 34 prover (.trigger anchors view),
    input 36 prover (.trigger anchors view)]

theorem triggered : (deployed.toOption.bind fun s =>
    (step hashes contract setLength (run hashes contract (start s) [bound])).map fun w₁ =>
      ((run hashes contract (start s) [bound]).snapshot.epochLength, triggerBlocks hashes contract w₁ attempts,
        attempts.inits.all fun mid => (run hashes contract w₁ mid).snapshot.epochLength = 10)) =
    some (0, [27, 36], true) := by
  decide +kernel

end EpochExample

open EpochExample HistoryExample in
theorem setEpochLength_noDrift_late_trigger : ∃ s w₁, deployed = .ok s ∧
    step hashes contract setLength (run hashes contract (start s) [bound]) = some w₁ ∧
    triggerBlocks hashes contract w₁ attempts = [27, 36] ∧ NoDrift hashes contract 5 10 w₁ attempts := by
  obtain ⟨s, hs, htriggered⟩ := Option.bind_eq_some_iff.mp triggered
  obtain ⟨w₁, hw₁, hresult⟩ := Option.map_eq_some_iff.mp htriggered
  obtain ⟨hlength, hrest⟩ := Prod.mk.inj hresult
  obtain ⟨hblocks, hinits⟩ := Prod.mk.inj hrest
  have hfixed : Fixed hashes contract 10 w₁ attempts := by
    intro mid rest hsplit
    have hmem : mid ∈ attempts.inits := by
      rw [mem_inits, hsplit]
      exact prefix_append ..
    exact of_decide_eq_true (List.all_eq_true.mp hinits mid hmem)
  exact ⟨s, w₁, toOption_eq_some.mp hs, hw₁, hblocks, setEpochLength_noDrift hashes contract _ w₁ setLength
    10 rfl (by decide) (by rw [hlength]; decide) hw₁ attempts hfixed⟩

end SnapshotWorld

end Trustgraphs
