import Trustgraphs.Contracts.Proofs.VaultSolvencyProofs

/-!
# The notice of a withdrawal

Requests add up, and each of them is compared with the balance alone. What is pending can therefore
exceed what an account holds, and then the next deposit leaves without a notice of its own.
-/

namespace Trustgraphs.ProvingVault

open Function Outcome List Evm

section

variable {H : Hashes} {imm : Immutables} {env : Env} {w w' : World} {instanceId : B256}

inductive Asset where
  | eth
  | usdc

def Asset.pick {α : Type} (asset : Asset) (eth usdc : α) : α :=
  match asset with
  | .eth => eth
  | .usdc => usdc

def World.held (w : World) (asset : Asset) (instanceId : B256) : ℕ :=
  asset.pick (w.ethOf instanceId) (w.usdcOf instanceId)

def World.asked (w : World) (asset : Asset) (instanceId : B256) : ℕ :=
  asset.pick (w.pending instanceId).ethAmount.toNat (w.pending instanceId).usdcAmount.toNat

/-- The balance of an account after an entry of the history. -/
def balanceAfter (imm : Immutables) (asset : Asset) (instanceId : B256) (balance : ℕ) (n : Noted) : ℕ :=
  match n.entry with
  | .deposited i token amount =>
    if i = instanceId ∧ token = asset.pick ETH imm.usdc then balance + amount.toNat else balance
  | .settled s => if s.instanceId = instanceId then balance - (asset.pick s.ethSpent s.usdcSpent).toNat else balance
  | .withdrawn i eth usdc => if i = instanceId then balance - (asset.pick eth usdc).toNat else balance
  | .requested .. => balance
  | .cancelled .. => balance

def balanceOf (imm : Immutables) (asset : Asset) (instanceId : B256) (history : List Noted) : ℕ :=
  history.foldl (balanceAfter imm asset instanceId) 0

theorem balanceOf_append (asset : Asset) (history : List Noted) (n : Noted) :
    balanceOf imm asset instanceId (history ++ [n]) =
      balanceAfter imm asset instanceId (balanceOf imm asset instanceId history) n := by
  rw [balanceOf, foldl_append]
  rfl

/-- The entries neither cancel nor execute the withdrawal of an account. -/
def Untouched (instanceId : B256) (entries : List Noted) : Prop :=
  ∀ n ∈ entries, n.entry ≠ .cancelled instanceId ∧ ∀ eth usdc, n.entry ≠ .withdrawn instanceId eth usdc

/-- The request is open at the end of the history, and the account has held `amount` ever since. -/
def HeldSince (imm : Immutables) (instanceId : B256) (history : List Noted) (request : Noted)
    (amount : Asset → ℕ) : Prop :=
  ∃ earlier later, history = earlier ++ request :: later ∧
    (∃ ethAmount usdcAmount, request.entry = .requested instanceId ethAmount usdcAmount) ∧
    Untouched instanceId later ∧
    ∀ asset during rest, later = during ++ rest →
      amount asset ≤ balanceOf imm asset instanceId (earlier ++ request :: during)

/-- What is paid at a time was in the account when a withdrawal was requested, a notice before, and ever since. -/
def Noticed (imm : Immutables) (instanceId : B256) (history : List Noted) (timestamp : UInt64)
    (paid : Asset → ℕ) : Prop :=
  ∃ request, HeldSince imm instanceId history request paid ∧
    request.timestamp.toNat + WITHDRAWAL_NOTICE.toNat ≤ timestamp.toNat

variable {history : List Noted} {amount : Asset → ℕ} {entry : Entry} {eth usdc : U128}

theorem HeldSince.append {request n : Noted} {amount' : Asset → ℕ}
    (h : HeldSince imm instanceId history request amount) (hn : Untouched instanceId [n])
    (hle : ∀ asset, amount' asset ≤ amount asset)
    (hheld : ∀ asset, amount' asset ≤ balanceOf imm asset instanceId (history ++ [n])) :
    HeldSince imm instanceId (history ++ [n]) request amount' := by
  obtain ⟨earlier, later, rfl, hrequest, huntouched, hsince⟩ := h
  refine ⟨earlier, later ++ [n], by simp, hrequest, ?_, ?_⟩
  · intro m hm
    rcases mem_append.mp hm with hm | hm
    · exact huntouched m hm
    · exact hn m hm
  · intro asset during rest hsplit
    rcases eq_nil_or_concat rest with rfl | ⟨front, last, rfl⟩
    · rw [append_nil] at hsplit
      subst hsplit
      have hthis := hheld asset
      rw [append_assoc, cons_append] at hthis
      exact hthis
    · rw [concat_eq_append, ← append_assoc] at hsplit
      obtain ⟨hlater, -⟩ := append_inj' hsplit rfl
      exact (hle asset).trans (hsince asset during front hlater)

theorem HeldSince.request {n : Noted} {ethAmount usdcAmount : U256}
    (hentry : n.entry = .requested instanceId ethAmount usdcAmount)
    (hheld : ∀ asset, amount asset ≤ balanceOf imm asset instanceId (history ++ [n])) :
    HeldSince imm instanceId (history ++ [n]) n amount := by
  refine ⟨history, [], rfl, ⟨ethAmount, usdcAmount, hentry⟩, (fun m hm => nomatch hm), ?_⟩
  intro asset during rest hsplit
  obtain ⟨rfl, -⟩ := append_eq_nil_iff.mp hsplit.symm
  exact hheld asset

theorem HeldSince.mono {request : Noted} {amount' : Asset → ℕ}
    (h : HeldSince imm instanceId history request amount) (hle : ∀ asset, amount' asset ≤ amount asset) :
    HeldSince imm instanceId history request amount' := by
  obtain ⟨earlier, later, hhistory, hrequest, huntouched, hsince⟩ := h
  exact ⟨earlier, later, hhistory, hrequest, huntouched,
    fun asset during rest hsplit => (hle asset).trans (hsince asset during rest hsplit)⟩

/-- The history tells the balances; what a pending withdrawal can take was held since the last request; and
every withdrawal was noticed. -/
structure Notice (imm : Immutables) (w : World) : Prop where
  balance : ∀ asset i, balanceOf imm asset i w.history = w.held asset i
  pending : ∀ i, (w.pending i).readyAt ≠ 0 → ∃ request,
    HeldSince imm i w.history request (fun asset => min (w.asked asset i) (w.held asset i)) ∧
    request.timestamp.toNat + WITHDRAWAL_NOTICE.toNat = (w.pending i).readyAt.toNat
  withdrawn : ∀ before n later i eth usdc, w.history = before ++ n :: later → n.entry = .withdrawn i eth usdc →
    Noticed imm i before n.timestamp fun asset => (asset.pick eth usdc).toNat

theorem Notice.congr (h : Notice imm w) (hhistory : w'.history = w.history) (hpending : w'.pending = w.pending)
    (hheld : ∀ asset i, w'.held asset i = w.held asset i) : Notice imm w' where
  balance asset i := by
    rw [hhistory, hheld]
    exact h.balance asset i
  pending i hready := by
    rw [hpending] at hready
    obtain ⟨request, hsince, htime⟩ := h.pending i hready
    refine ⟨request, ?_, hpending ▸ htime⟩
    rw [hhistory]
    refine hsince.mono fun asset => ?_
    rw [hheld, World.asked, hpending]
    exact le_rfl
  withdrawn := by
    rw [hhistory]
    exact h.withdrawn

/-- An entry is added, and the balances move as it tells. -/
structure Moved (imm : Immutables) (entry : Entry) (w w' : World) : Prop where
  history : w'.history = w.history ++ [⟨w.timestamp, w.blockNumber, entry⟩]
  held : ∀ asset i, w'.held asset i =
    balanceAfter imm asset i (w.held asset i) ⟨w.timestamp, w.blockNumber, entry⟩

theorem Moved.balance (hmoved : Moved imm entry w w') (h : Notice imm w) (asset : Asset) (i : B256) :
    balanceOf imm asset i w'.history = w'.held asset i := by
  rw [hmoved.history, balanceOf_append, h.balance, hmoved.held]

theorem Moved.pending {i : B256} (hmoved : Moved imm entry w w') (h : Notice imm w)
    (hpending : w'.pending i = w.pending i) (hcancelled : entry ≠ .cancelled i)
    (hwithdrawn : ∀ eth usdc, entry ≠ .withdrawn i eth usdc)
    (hle : ∀ asset, min (w.asked asset i) (w'.held asset i) ≤ min (w.asked asset i) (w.held asset i))
    (hready : (w'.pending i).readyAt ≠ 0) : ∃ request,
    HeldSince imm i w'.history request (fun asset => min (w'.asked asset i) (w'.held asset i)) ∧
    request.timestamp.toNat + WITHDRAWAL_NOTICE.toNat = (w'.pending i).readyAt.toNat := by
  rw [hpending] at hready
  obtain ⟨request, hsince, htime⟩ := h.pending i hready
  refine ⟨request, ?_, hpending ▸ htime⟩
  have hasked : ∀ asset, w'.asked asset i = w.asked asset i := by
    intro asset
    rw [World.asked, hpending]
    rfl
  have hbalance := hmoved.balance h
  rw [hmoved.history] at hbalance ⊢
  refine hsince.append (fun n hn => ?_) (fun asset => ?_) fun asset => ?_
  · rw [mem_singleton] at hn
    subst hn
    exact ⟨hcancelled, hwithdrawn⟩
  · rw [hasked]
    exact hle asset
  · rw [hbalance]
    exact min_le_right _ _

theorem Moved.withdrawn (hmoved : Moved imm entry w w') (h : Notice imm w)
    (hentry : ∀ i eth usdc, entry = .withdrawn i eth usdc →
      Noticed imm i w.history w.timestamp fun asset => (asset.pick eth usdc).toNat)
    (before : List Noted) (n : Noted) (later : List Noted) (i : B256) (eth usdc : U128)
    (hsplit : w'.history = before ++ n :: later) (hn : n.entry = .withdrawn i eth usdc) :
    Noticed imm i before n.timestamp fun asset => (asset.pick eth usdc).toNat := by
  rw [hmoved.history] at hsplit
  rcases eq_nil_or_concat later with rfl | ⟨front, last, rfl⟩
  · obtain ⟨rfl, hlast⟩ := append_inj' hsplit rfl
    obtain ⟨rfl, -⟩ := List.cons.inj hlast
    exact hentry i eth usdc hn
  · rw [concat_eq_append, ← cons_append, ← append_assoc] at hsplit
    obtain ⟨hhistory, -⟩ := append_inj' hsplit rfl
    exact h.withdrawn before n front i eth usdc hhistory hn

theorem held_update {a : Account} (h : w'.accounts = update w.accounts instanceId a) (asset : Asset)
    (i : B256) : w'.held asset i =
      if i = instanceId then asset.pick a.ethBalance.toNat a.usdcBalance.toNat else w.held asset i := by
  cases asset with
  | eth => exact ethOf_update h i
  | usdc => exact usdcOf_update h i

/-- A top-up waits until the account holds what is pending of the asset. -/
def CoveredTopUp (H : Hashes) (imm : Immutables) (e : Event) (w : World) : Prop :=
  match e with
  | .enter (env, .depositETH instanceId msgValue) =>
    (∃ w', enter H imm (env, .depositETH instanceId msgValue) w = .returned w') →
      (w.pending instanceId).ethAmount.toNat ≤ (w.accounts instanceId).ethBalance.toNat
  | .enter (env, .depositUSDC instanceId amount) =>
    (∃ w', enter H imm (env, .depositUSDC instanceId amount) w = .returned w') →
      (w.pending instanceId).usdcAmount.toNat ≤ (w.accounts instanceId).usdcBalance.toNat
  | _ => True

theorem Notice.deposited {asset : Asset} {amount : U128} (h : Notice imm w)
    (hmoved : Moved imm (.deposited instanceId (asset.pick ETH imm.usdc) amount) w w')
    (hpending : w'.pending = w.pending) (hne : imm.usdc ≠ ETH)
    (hcovered : w.asked asset instanceId ≤ w.held asset instanceId) : Notice imm w' where
  balance := hmoved.balance h
  pending i hready := by
    refine hmoved.pending h (congrFun hpending i) (by simp) (by simp) (fun other => ?_) hready
    rw [hmoved.held other i]
    show min _ (if instanceId = i ∧ asset.pick ETH imm.usdc = other.pick ETH imm.usdc then _ else _) ≤ _
    by_cases hsame : instanceId = i ∧ asset.pick ETH imm.usdc = other.pick ETH imm.usdc
    · obtain ⟨rfl, htoken⟩ := hsame
      have hother : other = asset := by
        cases asset with
        | eth =>
          cases other with
          | eth => rfl
          | usdc => exact absurd htoken.symm hne
        | usdc =>
          cases other with
          | eth => exact absurd htoken hne
          | usdc => rfl
      subst hother
      rw [min_eq_left hcovered]
      exact min_le_left _ _
    · rw [if_neg hsame]
  withdrawn := hmoved.withdrawn h (by simp)

theorem depositedETH_notice {snapshot : Address} {program : B256} {amount : U128} (hne : imm.usdc ≠ ETH)
    (heth : eth.toNat = w.ethOf instanceId + amount.toNat) (h : Notice imm w)
    (hcovered : w.asked .eth instanceId ≤ w.held .eth instanceId) :
    Notice imm (({ w with ethBalance := w.ethBalance + amount.toNat }.setAccount instanceId
      ⟨snapshot, program, eth, (w.accounts instanceId).usdcBalance⟩).note (.deposited instanceId ETH amount)) := by
  refine h.deposited ⟨rfl, fun asset i => ?_⟩ rfl hne hcovered
  rw [held_update (w := w) rfl]
  cases asset with
  | eth =>
    show (if i = instanceId then eth.toNat else w.ethOf i) =
      if instanceId = i ∧ ETH = ETH then w.ethOf i + amount.toNat else w.ethOf i
    by_cases hi : i = instanceId
    · rw [if_pos hi, if_pos ⟨hi.symm, rfl⟩, hi, heth]
    · rw [if_neg hi, if_neg fun hand => hi hand.1.symm]
  | usdc =>
    show (if i = instanceId then (w.accounts instanceId).usdcBalance.toNat else w.usdcOf i) =
      if instanceId = i ∧ ETH = imm.usdc then w.usdcOf i + amount.toNat else w.usdcOf i
    have hother : ¬ (instanceId = i ∧ ETH = imm.usdc) := fun hand => hne hand.2.symm
    rw [if_neg hother]
    by_cases hi : i = instanceId
    · rw [if_pos hi, hi]
      rfl
    · rw [if_neg hi]

theorem depositedUSDC_notice {snapshot : Address} {program : B256} {amount : U128} (hne : imm.usdc ≠ ETH)
    (husdc : usdc.toNat = w.usdcOf instanceId + amount.toNat) (h : Notice imm w)
    (hcovered : w.asked .usdc instanceId ≤ w.held .usdc instanceId) :
    Notice imm (({ w with usdcBalance := w.usdcBalance + amount.toNat }.setAccount instanceId
      ⟨snapshot, program, (w.accounts instanceId).ethBalance, usdc⟩).note
        (.deposited instanceId imm.usdc amount)) := by
  refine h.deposited ⟨rfl, fun asset i => ?_⟩ rfl hne hcovered
  rw [held_update (w := w) rfl]
  cases asset with
  | eth =>
    show (if i = instanceId then (w.accounts instanceId).ethBalance.toNat else w.ethOf i) =
      if instanceId = i ∧ imm.usdc = ETH then w.ethOf i + amount.toNat else w.ethOf i
    have hother : ¬ (instanceId = i ∧ imm.usdc = ETH) := fun hand => hne hand.2
    rw [if_neg hother]
    by_cases hi : i = instanceId
    · rw [if_pos hi, hi]
      rfl
    · rw [if_neg hi]
  | usdc =>
    show (if i = instanceId then usdc.toNat else w.usdcOf i) =
      if instanceId = i ∧ imm.usdc = imm.usdc then w.usdcOf i + amount.toNat else w.usdcOf i
    by_cases hi : i = instanceId
    · rw [if_pos hi, if_pos ⟨hi.symm, rfl⟩, hi, husdc]
    · rw [if_neg hi, if_neg fun hand => hi hand.1.symm]

theorem Paid.held {payee : Address} {paid : Payment} (h : Paid imm instanceId payee paid w w') (asset : Asset)
    (i : B256) : w'.held asset i = if instanceId = i then
      w.held asset i - (asset.pick paid.ethSpent paid.usdcSpent).toNat else w.held asset i := by
  by_cases hi : instanceId = i
  · subst hi
    rw [if_pos rfl]
    cases asset with
    | eth => exact Nat.eq_sub_of_add_eq h.eth
    | usdc => exact Nat.eq_sub_of_add_eq h.usdc
  · obtain ⟨eth, usdc, haccounts⟩ := h.account
    rw [if_neg hi, held_update haccounts, if_neg (Ne.symm hi)]

theorem Settled.moved {s : Settlement} (h : Settled imm s w w') :
    Moved imm (.settled s) w w' ∧ w'.pending = w.pending := by
  obtain ⟨fee, gas, w₁, w₂, hfee, hgas, heth, husdc, rfl⟩ := h.legs
  have hw₂ : w₂ = { w with accounts := w₂.accounts, credit := w₂.credit } := by rw [hgas.frame, hfee.frame]
  have hhistory : w₂.history = w.history := by rw [hw₂]
  have htime : w₂.timestamp = w.timestamp := by rw [hw₂]
  have hblock : w₂.blockNumber = w.blockNumber := by rw [hw₂]
  have hpending : w₂.pending = w.pending := by rw [hw₂]
  refine ⟨⟨?_, fun asset i => ?_⟩, hpending⟩
  · show w₂.history ++ [⟨w₂.timestamp, w₂.blockNumber, _⟩] = _
    rw [hhistory, htime, hblock]
  · show w₂.held asset i =
      if s.instanceId = i then w.held asset i - (asset.pick s.ethSpent s.usdcSpent).toNat else w.held asset i
    rw [hgas.held, hfee.held]
    by_cases hi : s.instanceId = i
    · rw [if_pos hi, if_pos hi, if_pos hi, Nat.sub_sub]
      cases asset with
      | eth => exact congrArg _ heth.symm
      | usdc => exact congrArg _ husdc.symm
    · rw [if_neg hi, if_neg hi, if_neg hi]

theorem Settled.notice {s : Settlement} (hs : Settled imm s w w') (h : Notice imm w) : Notice imm w' := by
  obtain ⟨hmoved, hpending⟩ := hs.moved
  refine ⟨hmoved.balance h, fun i hready => ?_, hmoved.withdrawn h (by simp)⟩
  refine hmoved.pending h (congrFun hpending i) (by simp) (by simp) (fun asset => ?_) hready
  refine min_le_min_left _ ?_
  rw [hmoved.held asset i]
  show (if s.instanceId = i then _ else _) ≤ _
  by_cases hi : s.instanceId = i
  · rw [if_pos hi]
    exact Nat.sub_le _ _
  · rw [if_neg hi]

theorem moved_note (w : World) (p : PendingWithdrawal)
    (hentry : ∀ asset i balance, balanceAfter imm asset i balance ⟨w.timestamp, w.blockNumber, entry⟩ = balance) :
    Moved imm entry w ((w.setPending instanceId p).note entry) where
  history := rfl
  held asset i := by
    rw [hentry]
    cases asset with
    | eth => rfl
    | usdc => rfl

theorem requested_notice {ethAmount usdcAmount : U256} {readyAt : UInt64}
    (hready : readyAt.toNat = w.timestamp.toNat + WITHDRAWAL_NOTICE.toNat) (h : Notice imm w) :
    Notice imm ((w.setPending instanceId ⟨eth, usdc, readyAt⟩).note
      (.requested instanceId ethAmount usdcAmount)) := by
  have hmoved : Moved imm (.requested instanceId ethAmount usdcAmount) w
      ((w.setPending instanceId ⟨eth, usdc, readyAt⟩).note (.requested instanceId ethAmount usdcAmount)) :=
    moved_note w _ fun _ _ _ => rfl
  refine ⟨hmoved.balance h, fun i hpending => ?_, hmoved.withdrawn h (by simp)⟩
  by_cases hi : i = instanceId
  · subst hi
    have hself : ((w.setPending i ⟨eth, usdc, readyAt⟩).note (.requested i ethAmount usdcAmount)).pending i =
        ⟨eth, usdc, readyAt⟩ := update_self ..
    refine ⟨⟨w.timestamp, w.blockNumber, .requested i ethAmount usdcAmount⟩, ?_, ?_⟩
    · refine HeldSince.request rfl fun asset => ?_
      exact (min_le_right _ _).trans_eq (hmoved.balance h asset i).symm
    · rw [hself]
      exact hready.symm
  · refine hmoved.pending h (update_of_ne hi ..) (by simp) (by simp) (fun asset => ?_) hpending
    rw [hmoved.held asset i]
    exact le_rfl

theorem cancelled_notice (h : Notice imm w) :
    Notice imm ((w.setPending instanceId ⟨0, 0, 0⟩).note (.cancelled instanceId)) := by
  have hmoved : Moved imm (.cancelled instanceId) w
      ((w.setPending instanceId ⟨0, 0, 0⟩).note (.cancelled instanceId)) := moved_note w _ fun _ _ _ => rfl
  refine ⟨hmoved.balance h, fun i hpending => ?_, hmoved.withdrawn h (by simp)⟩
  by_cases hi : i = instanceId
  · subst hi
    have hself : ((w.setPending i ⟨0, 0, 0⟩).note (.cancelled i)).pending i = ⟨0, 0, 0⟩ := update_self ..
    rw [hself] at hpending
    exact absurd rfl hpending
  · refine hmoved.pending h (update_of_ne hi ..) (fun he => hi (Entry.cancelled.inj he).symm) (by simp)
      (fun asset => ?_) hpending
    rw [hmoved.held asset i]
    exact le_rfl

/-- What a ready withdrawal pays was noticed: it is no more than what is pending, nor than what is held. -/
theorem withdrawn_notice {ethLeft usdcLeft : U128} {ethBalance usdcBalance : ℕ}
    (hpending : (w.pending instanceId).readyAt ≠ 0)
    (hready : (w.pending instanceId).readyAt.toNat ≤ w.timestamp.toNat)
    (hethAtMost : eth.toNat ≤ (w.pending instanceId).ethAmount.toNat)
    (husdcAtMost : usdc.toNat ≤ (w.pending instanceId).usdcAmount.toNat)
    (hethDebit : ethLeft.toNat + eth.toNat = w.ethOf instanceId)
    (husdcDebit : usdcLeft.toNat + usdc.toNat = w.usdcOf instanceId) (h : Notice imm w) :
    Notice imm { ((w.setAccount instanceId
      { w.accounts instanceId with ethBalance := ethLeft, usdcBalance := usdcLeft }).setPending instanceId
        ⟨0, 0, 0⟩).note (.withdrawn instanceId eth usdc) with
      ethBalance := ethBalance, usdcBalance := usdcBalance } := by
  set v := { ((w.setAccount instanceId
    { w.accounts instanceId with ethBalance := ethLeft, usdcBalance := usdcLeft }).setPending instanceId
      ⟨0, 0, 0⟩).note (.withdrawn instanceId eth usdc) with
    ethBalance := ethBalance, usdcBalance := usdcBalance } with hv
  have hmoved : Moved imm (.withdrawn instanceId eth usdc) w v := by
    refine ⟨rfl, fun asset i => ?_⟩
    show v.held asset i = if instanceId = i then w.held asset i - (asset.pick eth usdc).toNat else w.held asset i
    rw [held_update (w := w) rfl]
    by_cases hi : i = instanceId
    · subst hi
      rw [if_pos rfl, if_pos rfl]
      cases asset with
      | eth => exact Nat.eq_sub_of_add_eq hethDebit
      | usdc => exact Nat.eq_sub_of_add_eq husdcDebit
    · rw [if_neg hi, if_neg (Ne.symm hi)]
  refine ⟨hmoved.balance h, fun i hset => ?_, hmoved.withdrawn h fun i eth' usdc' he => ?_⟩
  · by_cases hi : i = instanceId
    · subst hi
      have hself : v.pending i = ⟨0, 0, 0⟩ := update_self ..
      rw [hself] at hset
      exact absurd rfl hset
    · refine hmoved.pending h (update_of_ne hi ..) (by simp)
        (fun _ _ he => hi (Entry.withdrawn.inj he).1.symm) (fun asset => ?_) hset
      rw [hmoved.held asset i]
      show min _ (if instanceId = i then _ else _) ≤ _
      rw [if_neg (Ne.symm hi)]
  · obtain ⟨rfl, rfl, rfl⟩ := Entry.withdrawn.inj he
    obtain ⟨request, hsince, htime⟩ := h.pending instanceId hpending
    refine ⟨request, hsince.mono fun asset => le_min ?_ ?_, htime.trans_le hready⟩
    · cases asset with
      | eth => exact hethAtMost
      | usdc => exact husdcAtMost
    · cases asset with
      | eth => exact Nat.le.intro ((Nat.add_comm _ _).trans hethDebit)
      | usdc => exact Nat.le.intro ((Nat.add_comm _ _).trans husdcDebit)

theorem Guarded.notice (hguarded : Guarded H imm env w w') (h : Notice imm w) : Notice imm w' := by
  cases hguarded with
  | nothing => exact h
  | migrated instanceId snapshot program =>
    refine h.congr rfl rfl fun asset i => ?_
    rw [held_update (w := w) rfl]
    by_cases hi : i = instanceId
    · rw [if_pos hi, hi]
      rfl
    · rw [if_neg hi]
  | settled s _ hs => exact hs.notice h
  | policySet => exact h.congr rfl rfl fun _ _ => rfl
  | requested _ _ _ _ _ _ _ _ _ _ hready => exact requested_notice hready h
  | cancelled => exact cancelled_notice h
  | withdrawn _ _ _ _ _ _ _ hpending hready hethAtMost husdcAtMost hethDebit husdcDebit =>
    exact withdrawn_notice hpending hready hethAtMost husdcAtMost hethDebit husdcDebit h
  | creditWithdrawn => exact h.congr rfl rfl fun _ _ => rfl

theorem kept_notice (hne : imm.usdc ≠ ETH) : Kept H imm (CoveredTopUp H imm) (Notice imm) where
  opened {i w w'} hok hreturn hopened h := by
    obtain ⟨env, call⟩ := i
    cases hopened with
    | fees => exact h.congr rfl rfl fun _ _ => rfl
    | depositedETH _ _ _ _ _ _ heth => exact depositedETH_notice hne heth h (hok ⟨_, hreturn⟩)
    | depositedUSDC _ _ _ _ _ _ husdc => exact depositedUSDC_notice hne husdc h (hok ⟨_, hreturn⟩)
  guarded _ _ hguarded h := hguarded.notice h
  lock _ h := h.congr rfl rfl fun _ _ => rfl
  outside o h := by
    cases o with
    | eth amount => exact h.congr rfl rfl fun _ _ => rfl
    | usdc amount => exact h.congr rfl rfl fun _ _ => rfl
  between b hb h := by
    rw [advance, Option.ite_none_left_eq_some] at hb
    rw [← Option.some.inj hb.2]
    exact h.congr rfl rfl fun _ _ => rfl

theorem Start.notice (h : Start imm w) : Notice imm w := by
  obtain ⟨registry, feed, feeSetter, admin, feedDecimals, stablecoinDecimals, hok⟩ := h.constructed
  obtain ⟨-, hok⟩ := of_guard hok
  obtain ⟨-, hok⟩ := of_guard hok
  obtain ⟨-, hok⟩ := of_guard hok
  have hstorage := (Prod.mk.inj (ok_inj hok)).2
  have haccounts : w.accounts = fun _ => ⟨0, 0, 0, 0⟩ := by rw [← hstorage]
  have hpending : w.pending = fun _ => ⟨0, 0, 0⟩ := by rw [← hstorage]
  refine ⟨fun asset i => ?_, fun i hready => ?_, fun before n later i eth usdc hsplit => ?_⟩
  · rw [h.history]
    cases asset with
    | eth =>
      show 0 = (w.accounts i).ethBalance.toNat
      rw [haccounts]
      rfl
    | usdc =>
      show 0 = (w.accounts i).usdcBalance.toNat
      rw [haccounts]
      rfl
  · rw [hpending] at hready
    exact absurd rfl hready
  · rw [h.history] at hsplit
    exact absurd hsplit.symm (by simp)

/-- When every top-up finds an account that holds what is pending, every withdrawal of the history was noticed:
what it paid was in the account when a withdrawal was requested, a notice before, and ever since. The history
tells the balances. -/
theorem run_withdrawal_noticed (H : Hashes) (imm : Immutables) (w : World) (hstart : Start imm w)
    (events : List Event) (hok : CallStack.Allowed (contract H imm) (CoveredTopUp H imm) w events) :
    (∀ before n later instanceId eth usdc, (run H imm w events).world.history = before ++ n :: later →
      n.entry = .withdrawn instanceId eth usdc →
      Noticed imm instanceId before n.timestamp fun asset => (asset.pick eth usdc).toNat) ∧
    ∀ asset instanceId, balanceOf imm asset instanceId (run H imm w events).world.history =
      (run H imm w events).world.held asset instanceId := by
  have h := (kept_notice hstart.solvent.1).run_holds hstart hstart.notice hok
  exact ⟨h.withdrawn, h.balance⟩

end

namespace VaultExample

def later : Event := .between ⟨1604800, 200⟩

def deposit (amount : ℕ) : Event := call prover (.depositETH (word 1) amount)

def request : Event := call governance (.requestWithdrawal (word 1) 10 0)

def execute : List Event := [call governance (.executeWithdrawal (word 1) prover), .answer (some ⟨view, 0⟩)]

/-- A deposit while a withdrawal is pending, of an account that holds what is pending. -/
def withdrawal : List Event := [deposit 10, request, deposit 5, later] ++ execute

def pull : List Event := [deposit 10, request, request, later, deposit 10] ++ execute

def announced : List Noted :=
  [⟨1000000, 100, .deposited (word 1) ETH 10⟩, ⟨1000000, 100, .requested (word 1) 10 0⟩,
    ⟨1000000, 100, .requested (word 1) 10 0⟩, ⟨1604800, 200, .deposited (word 1) ETH 10⟩]

def noticed : List Noted :=
  [⟨1000000, 100, .deposited (word 1) ETH 10⟩, ⟨1000000, 100, .requested (word 1) 10 0⟩,
    ⟨1000000, 100, .deposited (word 1) ETH 5⟩]

def coveredAfter (s : Storage) (before : List Event) : Bool :=
  let w := (run hashes imm (start s) before).world
  decide ((w.pending (word 1)).ethAmount.toNat ≤ (w.accounts (word 1)).ethBalance.toNat)

theorem withdrawal_histories : (constructed.toOption.map fun r =>
    ((run hashes imm (start r.2) withdrawal).world.history, (run hashes imm (start r.2) pull).world.history,
      coveredAfter r.2 [], coveredAfter r.2 [deposit 10, request])) =
    some (noticed ++ [⟨1604800, 200, .withdrawn (word 1) 10 0⟩],
      announced ++ [⟨1604800, 200, .withdrawn (word 1) 20 0⟩], true, true) := by
  decide +kernel

theorem withdrawal_facts {s : Storage} (hs : constructed = .ok (imm, s)) :
    (run hashes imm (start s) withdrawal).world.history = noticed ++ [⟨1604800, 200, .withdrawn (word 1) 10 0⟩] ∧
      (run hashes imm (start s) pull).world.history = announced ++ [⟨1604800, 200, .withdrawn (word 1) 20 0⟩] ∧
      coveredAfter s [] = true ∧ coveredAfter s [deposit 10, request] = true := by
  have h := withdrawal_histories
  rw [hs] at h
  simpa only [Except.toOption, Option.map_some, Option.some.injEq, Prod.mk.injEq] using h

theorem withdrawal_covered {s : Storage} (hs : constructed = .ok (imm, s)) :
    CallStack.Allowed (contract hashes imm) (CoveredTopUp hashes imm) (start s) withdrawal := by
  obtain ⟨-, -, hfirst, hsecond⟩ := withdrawal_facts hs
  intro before event after hsplit
  rw [withdrawal] at hsplit
  rcases before with - | ⟨e₁, - | ⟨e₂, - | ⟨e₃, before⟩⟩⟩
  · obtain ⟨rfl, -⟩ := List.cons.inj hsplit
    exact fun _ => of_decide_eq_true hfirst
  · simp only [cons_append, nil_append, List.cons.injEq] at hsplit
    obtain ⟨-, rfl, -⟩ := hsplit
    trivial
  · simp only [cons_append, nil_append, List.cons.injEq] at hsplit
    obtain ⟨rfl, rfl, rfl, -⟩ := hsplit
    exact fun _ => of_decide_eq_true hsecond
  · simp only [cons_append, nil_append, List.cons.injEq] at hsplit
    have hmem : event ∈ later :: execute := hsplit.2.2.2 ▸ mem_append_right _ mem_cons_self
    simp only [execute, mem_cons, not_mem_nil, or_false] at hmem
    rcases hmem with rfl | rfl | rfl
    · trivial
    · trivial
    · trivial

end VaultExample

open VaultExample in
/-- A withdrawal of all that was requested, when the notice is over. -/
theorem run_withdrawal_noticed_once : ∃ s, Start imm (start s) ∧
    (run hashes imm (start s) withdrawal).world.history = noticed ++ [⟨1604800, 200, .withdrawn (word 1) 10 0⟩] ∧
    Noticed imm (word 1) noticed 1604800 fun asset => (asset.pick (10 : U128) 0).toNat := by
  obtain ⟨s, hs, hstart⟩ := exists_start
  have hhistory := (withdrawal_facts hs).1
  exact ⟨s, hstart, hhistory, (run_withdrawal_noticed hashes imm (start s) hstart _ (withdrawal_covered hs)).1
    _ _ _ _ _ _ hhistory rfl⟩

open VaultExample in
theorem not_noticed_announced :
    ¬ Noticed imm (word 1) announced 1604800 fun asset => (asset.pick (20 : U128) 0).toNat := by
  rintro ⟨request, ⟨earlier, later, hsplit, ⟨ethAmount, usdcAmount, hrequest⟩, -, hsince⟩, -⟩
  have hheld := hsince .eth [] later rfl
  have hfirst : ∀ k < 3, balanceOf imm .eth (word 1) (announced.take (k + 1)) < 20 := by decide
  have htake : announced.take (earlier.length + 1) = earlier ++ [request] := by
    rw [hsplit, show earlier ++ request :: later = (earlier ++ [request]) ++ later by simp]
    exact take_left' (by simp)
  rw [← htake] at hheld
  by_cases hk : earlier.length < 3
  · exact absurd hheld (not_le.mpr (hfirst earlier.length hk))
  · -- the last entry is the second deposit
    have hlength := congrArg List.length hsplit
    have hlast : announced[3]? = some request := by
      have hearlier : earlier.length = 3 := by
        rw [length_append, length_cons] at hlength
        change 4 = _ at hlength
        omega
      rw [hsplit, ← hearlier, getElem?_append_right le_rfl, Nat.sub_self]
      rfl
    rw [← Option.some.inj hlast] at hrequest
    exact nomatch hrequest

open VaultExample in
/-- A run that pays 20 wei, of which no request has announced more than 10. -/
theorem run_withdrawal_not_noticed : ∃ s before n later, Start imm (start s) ∧
    (run hashes imm (start s) pull).world.history = before ++ n :: later ∧
    n.entry = .withdrawn (word 1) 20 0 ∧
    ¬ Noticed imm (word 1) before n.timestamp fun asset => (asset.pick (20 : U128) 0).toNat := by
  obtain ⟨s, hs, hstart⟩ := exists_start
  exact ⟨s, announced, ⟨1604800, 200, .withdrawn (word 1) 20 0⟩, [], hstart, (withdrawal_facts hs).2.1, rfl,
    not_noticed_announced⟩

end Trustgraphs.ProvingVault
