import Trustgraphs.ContributionsCore.Reconcile
import Trustgraphs.Contracts.TrustgraphsParamsValidator

/-!
# The envelope of a contributions round (`contracts/src/params/ContributionsParamsValidator.sol`)

The bounds of the trust program for the fields that the first stage reads, then the bounds of the round.
-/

namespace Trustgraphs.ContributionsParamsValidator

open Outcome

def PRECISION_SCALE : U256 := 1000000000000000000
def WEIGHT_FIELD_INDEX : UInt32 := 1
def MAX_ITERATIONS : UInt32 := 500
def MAX_TOLERANCE_FP : U256 := 1000000000000000
def MIN_TOLERANCE_FP : U256 := 1000000
def MAX_WEIGHT_FP : U256 := 1000000 * PRECISION_SCALE
def MAX_RANK_FP : U256 := BitVec.allOnes 256 / PRECISION_SCALE
def MAX_TRUSTED_SEEDS : Nat := 64
def MAX_CARVEOUT_BPS : UInt32 := 10000

inductive Error where
  /-- An error that the envelope of the trust program has under the same signature. -/
  | trust (e : TrustgraphsParamsValidator.Error)
  | invalidWeightFieldIndex (weightFieldIndex : UInt32)
  | invalidRoundWindow (roundStart roundEnd : UInt64)
  | invalidCarveout (evaluatorCarveoutBps : UInt32)
  | invalidUnacceptedMultiplier (unacceptedMultFp : U256)
  | invalidCollaboratorMultiplier (collaboratorMultFp : U256)
  | invalidTotalPool (totalPool : U256)
deriving DecidableEq

def validateRound (p : Contributions.Params) : Except Error Unit :=
  if p.roundEnd ≤ p.roundStart then .error (.invalidRoundWindow p.roundStart p.roundEnd)
  else if MAX_CARVEOUT_BPS < p.evaluatorCarveoutBps then .error (.invalidCarveout p.evaluatorCarveoutBps)
  else if PRECISION_SCALE < p.unacceptedMultFp then .error (.invalidUnacceptedMultiplier p.unacceptedMultFp)
  else if PRECISION_SCALE < p.collaboratorMultFp then
    .error (.invalidCollaboratorMultiplier p.collaboratorMultFp)
  else if p.totalPool = 0 ∨ MAX_RANK_FP < p.totalPool then .error (.invalidTotalPool p.totalPool)
  else .ok ()

def validateComputationalEnvelope (p : Contributions.Params) : Except Error Unit :=
  if p.dampingFp = 0 ∨ PRECISION_SCALE ≤ p.dampingFp then .error (.trust (.invalidDamping p.dampingFp))
  else if p.toleranceFp < MIN_TOLERANCE_FP ∨ MAX_TOLERANCE_FP < p.toleranceFp then
    .error (.trust (.invalidTolerance p.toleranceFp))
  else if p.maxIterations = 0 ∨ MAX_ITERATIONS < p.maxIterations then
    .error (.trust (.invalidIterations p.maxIterations))
  else if p.maxWeightFp = 0 ∨ p.maxWeightFp < p.minWeightFp ∨ MAX_WEIGHT_FP < p.maxWeightFp then
    .error (.trust (.invalidWeightBounds p.minWeightFp p.maxWeightFp))
  else if PRECISION_SCALE < p.trustShareFp then .error (.trust (.invalidTrustShare p.trustShareFp))
  else if PRECISION_SCALE < p.trustDecayFp then .error (.trust (.invalidTrustDecay p.trustDecayFp))
  else if p.precisionScale ≠ PRECISION_SCALE then .error (.trust (.invalidPrecisionScale p.precisionScale))
  else if p.weightFieldIndex ≠ WEIGHT_FIELD_INDEX then .error (.invalidWeightFieldIndex p.weightFieldIndex)
  else if p.trustedSeeds.length = 0 then .error (.trust .noTrustedSeeds)
  else if MAX_TRUSTED_SEEDS < p.trustedSeeds.length then
    .error (.trust (.tooManyTrustedSeeds p.trustedSeeds.length))
  else do
    withError .trust (TrustgraphsParamsValidator.checkSeeds [] p.trustedSeeds)
    validateRound p

structure Envelope (p : Contributions.Params) : Prop where
  /-- The first stage runs inside the envelope of the trust program. -/
  trust : TrustgraphsParamsValidator.Envelope (Contributions.trustParams p)
  window : p.roundStart < p.roundEnd
  carveout : p.evaluatorCarveoutBps ≤ MAX_CARVEOUT_BPS
  unaccepted : p.unacceptedMultFp ≤ p.precisionScale
  collaborator : p.collaboratorMultFp ≤ p.precisionScale
  pool : p.totalPool ≠ 0 ∧ p.totalPool ≤ MAX_RANK_FP

theorem envelope_of_ok {p : Contributions.Params} (h : validateComputationalEnvelope p = .ok ()) : Envelope p := by
  unfold validateComputationalEnvelope at h
  rw [ite_error_eq_ok, ite_error_eq_ok, ite_error_eq_ok, ite_error_eq_ok,
    ite_error_eq_ok, ite_error_eq_ok, ite_error_eq_ok, ite_error_eq_ok,
    ite_error_eq_ok, ite_error_eq_ok] at h
  obtain ⟨hdamping, htolerance, hiterations, hweights, hshare, hdecay, hscale, -, hne, hle, h⟩ := h
  obtain ⟨⟨⟩, hseeds, h⟩ := of_bind h
  unfold validateRound at h
  rw [ite_error_eq_ok, ite_error_eq_ok, ite_error_eq_ok, ite_error_eq_ok, ite_error_eq_ok] at h
  obtain ⟨hwindow, hcarve, hunaccepted, hcollaborator, hpool, -⟩ := h
  have hscale : p.precisionScale = PRECISION_SCALE := not_not.mp hscale
  obtain ⟨hd0, hd⟩ := not_or.mp hdamping
  obtain ⟨ht1, ht2⟩ := not_or.mp htolerance
  obtain ⟨hi0, hi⟩ := not_or.mp hiterations
  obtain ⟨-, hw⟩ := not_or.mp hweights
  obtain ⟨hw, hmax⟩ := not_or.mp hw
  obtain ⟨hp0, hp⟩ := not_or.mp hpool
  obtain ⟨hall, hnd⟩ := TrustgraphsParamsValidator.checkSeeds_ok (withError_eq_ok.mp hseeds)
  refine ⟨?_, UInt64.not_le.mp hwindow, UInt32.not_lt.mp hcarve, ?_, ?_, hp0, BitVec.not_lt.mp hp⟩
  · exact {
      damping_pos := hd0
      damping_lt := by rw [Contributions.trustParams, hscale]; exact BitVec.not_le.mp hd
      tolerance := ⟨BitVec.not_lt.mp ht1, BitVec.not_lt.mp ht2⟩
      iterations := ⟨hi0, UInt32.not_lt.mp hi⟩
      weights := BitVec.not_lt.mp hw
      maxWeight := BitVec.not_lt.mp hmax
      share_le := by rw [Contributions.trustParams, hscale]; exact BitVec.not_lt.mp hshare
      decay_le := by rw [Contributions.trustParams, hscale]; exact BitVec.not_lt.mp hdecay
      scale := hscale
      pool_pos := hp0
      seeds_pos := fun he => hne (by rw [show p.trustedSeeds = [] from he]; rfl)
      seeds_le := Nat.not_lt.mp hle
      seeds_ne_zero := fun s hs => (hall s hs).1
      seeds_nodup := hnd }
  · rw [hscale]
    exact BitVec.not_lt.mp hunaccepted
  · rw [hscale]
    exact BitVec.not_lt.mp hcollaborator

end Trustgraphs.ContributionsParamsValidator
