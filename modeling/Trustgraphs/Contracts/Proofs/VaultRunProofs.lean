import Trustgraphs.Contracts.Proofs.ProvingVaultProofs

/-!
# Runs of the vault

At most one call of the vault waits at a time, and it is the one that holds the lock (`Kept.locked`).
-/

namespace Trustgraphs.ProvingVault

open Outcome Evm

section

variable {H : Hashes} {imm : Immutables} {env : Env} {w w' : World}

theorem Waits.congr {k : Waiting} (h : Waits k w) (hclaimed : w'.claimed = w.claimed)
    (hpolicies : w'.policies = w.policies) : Waits k w' := by
  cases k with
  | submitting env instanceId args t =>
    obtain ⟨hunclaimed, hpolicy⟩ := h
    refine ⟨?_, ?_⟩
    · rw [hclaimed]
      exact hunclaimed
    · rw [hpolicies]
      exact hpolicy
  | sendingETH => trivial
  | sendingToken => trivial

theorem Guarded.entered (h : Guarded H imm env w w') : w'.entered = w.entered := by
  cases h with
  | nothing => rfl
  | migrated => rfl
  | settled s _ hs =>
    obtain ⟨fee, gas, w₁, w₂, hfee, hgas, -, -, rfl⟩ := hs.legs
    show w₂.entered = w.entered
    rw [hgas.frame, hfee.frame]
  | policySet => rfl
  | requested => rfl
  | cancelled => rfl
  | withdrawn => rfl
  | creditWithdrawn => rfl

/-- What happens without the lock leaves it, and what a waiting call relies on. -/
theorem Opened.unlocked {call : Call} (hopened : Opened imm w call w') :
    w'.entered = w.entered ∧ ∀ k, Waits k w → Waits k w' := by
  cases hopened with
  | fees => exact ⟨rfl, fun _ h => h.congr rfl rfl⟩
  | depositedETH => exact ⟨rfl, fun _ h => h.congr rfl rfl⟩
  | depositedUSDC => exact ⟨rfl, fun _ h => h.congr rfl rfl⟩

/-- The event hands the vault these answers of the other contracts. -/
def Answers (view : View) : Event → Prop
  | .enter i => i.1.view = view
  | .answer (some r) => r.view = view
  | _ => False

/-- `J` is kept by what calls do, where `ok` allows them, and by what happens without the vault. -/
structure Kept (H : Hashes) (imm : Immutables) (ok : Event → World → Prop) (J : World → Prop) : Prop where
  opened : ∀ {i w w'}, ok (.enter i) w → enter H imm i w = .returned w' → Opened imm w i.2 w' → J w → J w'
  guarded : ∀ {env e w₀ w w'}, ok e w₀ → Answers env.view e → Guarded H imm env w w' → J w → J w'
  lock : ∀ {w} (entered : Bool), J w → J (w.lock entered)
  outside : ∀ {w} (o : Gift), J w → J (give w o)
  between : ∀ {w w'} (h : Header), advance h w = some w' → J w → J w'

variable {ok : Event → World → Prop} {J : World → Prop}

theorem Kept.locked (hJ : Kept H imm ok J) :
    CallStack.Kept (fun w : World => w.entered) Waits (contract H imm) ok J where
  enter i w hok hw := by
    show CallStack.EnterHolds _ _ J w (enter H imm i w)
    rcases (enter_spec i w : TurnSpec H imm i w (enter H imm i w)) with ⟨w', hreturn, hopened⟩ | ⟨e, hrevert⟩ |
      ⟨hentered, hguarded⟩
    · rw [hreturn]
      exact ⟨hJ.opened hok hreturn hopened hw, hopened.unlocked.1, fun _ => hopened.unlocked.2⟩
    · rw [hrevert]
      trivial
    · generalize enter H imm i w = turn at hguarded
      cases turn with
      | returned w' =>
        obtain ⟨w₁, hguarded, rfl⟩ := hguarded
        refine ⟨hJ.lock false (hJ.guarded hok rfl hguarded (hJ.lock true hw)), hentered.symm, fun hheld => ?_⟩
        exact absurd (hentered.symm.trans hheld) (by simp)
      | reverted e => trivial
      | waits w' k =>
        obtain ⟨hguarded, hwaits⟩ := hguarded
        exact ⟨hJ.guarded hok rfl hguarded (hJ.lock true hw), hentered, hguarded.entered, hwaits⟩
  resume k a w hok hheld hwaits hw := by
    show CallStack.ResumeHolds _ _ J (resume H imm k a w)
    rcases @resume_spec H imm w k hwaits a with ⟨e, hrevert⟩ | ⟨r, env, w₁, rfl, hreturn, hguarded⟩
    · rw [hrevert]
      trivial
    · rw [hreturn]
      have hanswers : Answers ({ env with view := r.view } : Env).view (.answer (some r)) := rfl
      exact ⟨hJ.lock false (hJ.guarded (hok rfl) hanswers hguarded hw), rfl⟩
  outside o w hok hw := by
    refine ⟨hJ.outside o hw, ?_⟩
    cases o with
    | eth amount => exact ⟨rfl, fun _ h => h.congr rfl rfl⟩
    | usdc amount => exact ⟨rfl, fun _ h => h.congr rfl rfl⟩
  between b w w' hok hfree hw hb := by
    refine ⟨hJ.between b hb hw, ?_⟩
    change advance b w = some w' at hb
    rw [advance, Option.ite_none_left_eq_some] at hb
    rw [← Option.some.inj hb.2]
    exact hfree

theorem Start.entered (h : Start imm w) : w.entered = false := by
  obtain ⟨registry, feed, feeSetter, admin, feedDecimals, stablecoinDecimals, hok⟩ := h.constructed
  obtain ⟨-, hok⟩ := of_guard hok
  obtain ⟨-, hok⟩ := of_guard hok
  obtain ⟨-, hok⟩ := of_guard hok
  rw [← (Prod.mk.inj (ok_inj hok)).2]

theorem Kept.run_holds (hJ : Kept H imm ok J) (hstart : Start imm w) (hw : J w) {events : List Event}
    (hok : CallStack.Allowed (contract H imm) ok w events) : J (run H imm w events).world :=
  (hJ.locked.run hstart.entered hw hok).2

end

namespace VaultExample

def addr (n : ℕ) : Address := .ofNat 20 n

def word (n : ℕ) : B256 := .ofNat 32 n

def program : B256 := word 0xdb036dae12e8641d1e58d416eec22090955469d8da1c292e2b6b02ecb9e8d380

def identity : B256 := word 0x76649a0a7ae7214383d758a83b1475f86cbb04ebfd8334179a54cf64b82dc847

def noCid : B256 := word 0xc5d2460186f7233c927e7db2dcc703c0e500b653ca82273b7bfad8045d85a470

def statement : B256 := word 0xca215fc9d547d17e1a8d49c1883ef50ddfb8de40b2ca0fe17246c1aef46274e8

def snapshot : Address := addr 0x66

def hashes : Hashes where
  keccak256 s :=
    if s = utf8 "trust-graph" then program
    else if s = wordU64 5 ++ wordU64 0 ++ wordU64 0 then identity
    else if s = [] then noCid
    else if s = wordAddr snapshot ++ wordU64 1 ++ wordU64 3 ++ wordU64 0 ++ wordU64 0 ++ (word 0x47).bytes ++
        identity.bytes ++ (word 0x52).bytes ++ (word 0x53).bytes ++ noCid.bytes ++ wordU64 1000 then statement
    else 0
  sha256 _ := 0

def imm : Immutables where
  address := addr 0x77
  usdc := addr 0x22
  feedMaxStaleness := 3600
  minEthUsd := 10000000000
  maxEthUsd := 10000000000000

def governance : Address := addr 0x99

def prover : Address := addr 0xaa

def view : View where
  getInstance _ := .value ⟨snapshot, program⟩
  provenanceEnabled _ := .value true
  hasConstitutionalRole _ account := .value (account = governance)
  hasAppliedCheckpoint _ := .value true
  lastAppliedCheckpoint _ := .value 0
  checkpointRecipient _ _ := .value prover
  getAcceptedCheckpoint _ _ := .value (⟨99, 999000, word 0x52, word 0x53, [], 1000⟩,
    ⟨0, 0, 99, word 0x47, addr 0x88, word 0x48, word 5⟩)
  accumulator _ := .value (addr 0xbb)
  getCheckpoint _ _ := .value ⟨word 1, 3, 90⟩
  anchorCheckpoints _ _ := .value (0, 0)
  checkpointWorkCount _ _ := .value 0
  latestRoundData := .value (300000000000, 1000000)

def call (sender : Address) (c : Call) : Event := .enter (⟨sender, 10000000000, view, true⟩, c)

def constructed : Result (Immutables × Storage) :=
  constructor (addr 0x77) (addr 0x11) (addr 0x22) (addr 0x33) 3600 10000000000 10000000000000 governance
    governance 8 6

def start (s : Storage) : World where
  toStorage := s
  ethBalance := 0
  usdcBalance := 0
  timestamp := 1000000
  blockNumber := 100
  history := []

def setup : List Event :=
  [call governance (.setFeePerRootUsd program 1 1000000000),
    call prover (.depositETH (word 1) 1000000000000000000),
    call prover (.depositUSDC (word 2) 100000000),
    call governance (.setPolicy (word 1) 10 2000000000),
    call governance (.setPolicy (word 2) 10 2000000000)]

theorem constructed_isOk : constructed.toOption.isSome = true := by decide +kernel

theorem exists_start : ∃ s, constructed = .ok (imm, s) ∧ Start imm (start s) := by
  obtain ⟨⟨imm', s⟩, hs⟩ := Option.isSome_iff_exists.mp constructed_isOk
  rw [toOption_eq_some] at hs
  have himm : imm' = imm := by
    have hok := hs
    rw [constructed, constructor, ite_error_eq_ok, ite_error_eq_ok, ite_error_eq_ok] at hok
    exact (Prod.mk.inj (ok_inj hok.2.2.2)).1.symm
  subst himm
  exact ⟨s, hs, ⟨addr 0x11, addr 0x33, governance, governance, 8, 6, hs⟩, rfl, fun h => nomatch h⟩

end VaultExample

end Trustgraphs.ProvingVault
