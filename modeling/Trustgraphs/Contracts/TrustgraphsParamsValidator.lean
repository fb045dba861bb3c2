import Trustgraphs.PagerankCore.Params

/-!
# The computational envelope of the factory (`contracts/src/params/TrustgraphsParamsValidator.sol`)
-/

namespace Trustgraphs.TrustgraphsParamsValidator

def PRECISION_SCALE : U256 := 1000000000000000000
def MAX_ITERATIONS : UInt32 := 500
def MAX_TOLERANCE_FP : U256 := 1000000000000000
def MIN_TOLERANCE_FP : U256 := 1000000
def MAX_WEIGHT_FP : U256 := 1000000 * PRECISION_SCALE
def MAX_TRUSTED_SEEDS : Nat := 64

inductive Error where
  | invalidDamping (dampingFp : U256)
  | invalidTolerance (toleranceFp : U256)
  | invalidIterations (maxIterations : UInt32)
  | invalidWeightBounds (minWeightFp maxWeightFp : U256)
  | invalidTrustShare (trustShareFp : U256)
  | invalidTrustDecay (trustDecayFp : U256)
  | invalidPrecisionScale (precisionScale : U256)
  | invalidTotalPool
  | noTrustedSeeds
  | tooManyTrustedSeeds (count : Nat)
  | invalidSeed (seed : Address)
deriving DecidableEq

/-- The seed loop: no seed is zero or among the ones before it. -/
def checkSeeds : (earlier seeds : List Address) → Except Error Unit
  | _, [] => .ok ()
  | earlier, seed :: seeds =>
    if seed = 0 then .error (.invalidSeed seed)
    else if seed ∈ earlier then .error (.invalidSeed seed)
    else checkSeeds (earlier ++ [seed]) seeds

def validateComputationalEnvelope (p : Params) : Except Error Unit :=
  if p.dampingFp = 0 ∨ PRECISION_SCALE ≤ p.dampingFp then .error (.invalidDamping p.dampingFp)
  else if p.toleranceFp < MIN_TOLERANCE_FP ∨ MAX_TOLERANCE_FP < p.toleranceFp then
    .error (.invalidTolerance p.toleranceFp)
  else if p.maxIterations = 0 ∨ MAX_ITERATIONS < p.maxIterations then
    .error (.invalidIterations p.maxIterations)
  else if p.maxWeightFp = 0 ∨ p.maxWeightFp < p.minWeightFp ∨ MAX_WEIGHT_FP < p.maxWeightFp then
    .error (.invalidWeightBounds p.minWeightFp p.maxWeightFp)
  else if PRECISION_SCALE < p.trustShareFp then .error (.invalidTrustShare p.trustShareFp)
  else if PRECISION_SCALE < p.trustDecayFp then .error (.invalidTrustDecay p.trustDecayFp)
  else if p.precisionScale ≠ PRECISION_SCALE then .error (.invalidPrecisionScale p.precisionScale)
  else if p.totalPool = 0 then .error .invalidTotalPool
  else if p.trustedSeeds.length = 0 then .error .noTrustedSeeds
  else if MAX_TRUSTED_SEEDS < p.trustedSeeds.length then .error (.tooManyTrustedSeeds p.trustedSeeds.length)
  else checkSeeds [] p.trustedSeeds

structure Envelope (p : Params) : Prop where
  damping_pos : p.dampingFp ≠ 0
  damping_lt : p.dampingFp < p.precisionScale
  tolerance : MIN_TOLERANCE_FP ≤ p.toleranceFp ∧ p.toleranceFp ≤ MAX_TOLERANCE_FP
  iterations : p.maxIterations ≠ 0 ∧ p.maxIterations ≤ MAX_ITERATIONS
  weights : p.minWeightFp ≤ p.maxWeightFp
  maxWeight : p.maxWeightFp ≤ MAX_WEIGHT_FP
  share_le : p.trustShareFp ≤ p.precisionScale
  decay_le : p.trustDecayFp ≤ p.precisionScale
  scale : p.precisionScale = PRECISION_SCALE
  pool_pos : p.totalPool ≠ 0
  seeds_pos : p.trustedSeeds ≠ []
  seeds_le : p.trustedSeeds.length ≤ MAX_TRUSTED_SEEDS
  seeds_ne_zero : ∀ seed ∈ p.trustedSeeds, seed ≠ 0
  seeds_nodup : p.trustedSeeds.Nodup

theorem checkSeeds_ok {earlier seeds : List Address} (h : checkSeeds earlier seeds = .ok ()) :
    (∀ seed ∈ seeds, seed ≠ 0 ∧ seed ∉ earlier) ∧ seeds.Nodup := by
  induction seeds generalizing earlier with
  | nil => exact ⟨by simp, List.nodup_nil⟩
  | cons seed seeds ih =>
    rw [checkSeeds] at h
    by_cases h0 : seed = 0
    · simp [h0] at h
    · by_cases hmem : seed ∈ earlier
      · simp [h0, hmem] at h
      · rw [if_neg h0, if_neg hmem] at h
        obtain ⟨hall, hnd⟩ := ih h
        refine ⟨fun s hs => ?_, List.nodup_cons.mpr ⟨fun hs => (hall seed hs).2 (by simp), hnd⟩⟩
        rcases List.mem_cons.mp hs with rfl | hs
        · exact ⟨h0, hmem⟩
        · exact ⟨(hall s hs).1, fun he => (hall s hs).2 (by simp [he])⟩

theorem envelope_of_ok {p : Params} (h : validateComputationalEnvelope p = .ok ()) : Envelope p := by
  unfold validateComputationalEnvelope at h
  simp only [ite_eq_iff, reduceCtorEq, and_false, false_or, not_or, BitVec.not_le, BitVec.not_lt,
    UInt32.not_lt, ne_eq, not_not] at h
  obtain ⟨⟨hd0, hd⟩, ⟨ht1, ht2⟩, ⟨hi0, hi⟩, ⟨-, hw, hmax⟩, hs, hdec, hscale, hpool, hne, hle, hseeds⟩ := h
  obtain ⟨hall, hnd⟩ := checkSeeds_ok hseeds
  exact {
    damping_pos := hd0
    damping_lt := hscale ▸ hd
    tolerance := ⟨ht1, ht2⟩
    iterations := ⟨hi0, hi⟩
    weights := hw
    maxWeight := hmax
    share_le := hscale ▸ hs
    decay_le := hscale ▸ hdec
    scale := hscale
    pool_pos := hpool
    seeds_pos := fun he => hne (by rw [he]; rfl)
    seeds_le := Nat.not_lt.mp hle
    seeds_ne_zero := fun s hs => (hall s hs).1
    seeds_nodup := hnd }

end Trustgraphs.TrustgraphsParamsValidator
