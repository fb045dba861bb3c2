import Trustgraphs.Contracts.Proofs.DistributorRunProofs

/-!
# The claim window across pauses

Within a transaction neither the time nor the pause clock moves, so no window opens or closes
(`SameInstant`).
-/

namespace Trustgraphs.MerkleFundDistributor

open Evm CallStack Option Function List

section

variable {H : Hashes} {self : Address} {w w₀ w' : World}

def WindowClosed (w : World) (i : ℕ) : Prop :=
  ∃ deadline, effectiveClaimDeadline w i = .ok deadline ∧ deadline ≠ 0 ∧ deadline.toNat < w.timestamp.toNat

theorem windowClosed_iff (h : Sound w) (i : ℕ) :
    WindowClosed w i ↔ ∃ d, w.distributions[i]? = some d ∧ Closed w i d := by
  constructor
  · rintro ⟨deadline, hdeadline, hlate⟩
    cases hd : w.distributions[i]? with
    | none =>
      rw [effectiveClaimDeadline, hd] at hdeadline
      cases hdeadline
    | some d => exact ⟨d, rfl, (closed_iff h hd hdeadline).mpr hlate⟩
  · rintro ⟨d, hd, hclosed⟩
    obtain ⟨deadline, hdeadline, -⟩ := effectiveClaimDeadline_eq h hd
    exact ⟨deadline, hdeadline, (closed_iff h hd hdeadline).mp hclosed⟩

/-- The world `w` is one of the transaction that began at `w₀`: the clocks stand, the rounds keep their
deadlines, and what rounds are new are open. -/
structure SameInstant (w₀ w : World) : Prop where
  time : w.timestamp = w₀.timestamp
  clock : w.elapsed = w₀.elapsed
  old : ∀ j < w₀.distributions.length, w.distributions[j]?.map DistributionState.claimDeadline =
        w₀.distributions[j]?.map DistributionState.claimDeadline ∧
      w.distributionPausedDuration j = w₀.distributionPausedDuration j
  fresh : ∀ j d, w₀.distributions.length ≤ j → w.distributions[j]? = some d → ¬ Closed w j d

theorem SameInstant.refl (w : World) : SameInstant w w where
  time := rfl
  clock := rfl
  old _ _ := ⟨rfl, rfl⟩
  fresh _ _ hj hd := absurd (List.getElem?_eq_some_iff.mp hd).1 (not_lt.mpr hj)

theorem closed_congr {i : ℕ} {d d' : DistributionState} (htime : w'.timestamp = w.timestamp)
    (hclock : w'.elapsed = w.elapsed) (hdeadline : d'.claimDeadline = d.claimDeadline)
    (hbaseline : w'.distributionPausedDuration i = w.distributionPausedDuration i) :
    Closed w' i d' ↔ Closed w i d := by
  rw [Closed, Closed, htime, hclock, hdeadline, hbaseline]

theorem SameInstant.congr (h : SameInstant w₀ w) (htime : w'.timestamp = w.timestamp)
    (hclock : w'.elapsed = w.elapsed)
    (hrounds : ∀ j : ℕ, w'.distributions[j]?.map DistributionState.claimDeadline =
      w.distributions[j]?.map DistributionState.claimDeadline)
    (hbaseline : w'.distributionPausedDuration = w.distributionPausedDuration) : SameInstant w₀ w' where
  time := htime.trans h.time
  clock := hclock.trans h.clock
  old j hj := by
    rw [hrounds, hbaseline]
    exact h.old j hj
  fresh j d' hj hd' := by
    have hround := hrounds j
    rw [hd', map_some, eq_comm, map_eq_some_iff] at hround
    obtain ⟨d, hd, hdeadline⟩ := hround
    rw [closed_congr htime hclock hdeadline.symm (congrFun hbaseline j)]
    exact h.fresh j d hj hd

theorem claimDeadline_set {ds : List DistributionState} {i : ℕ} {d d' : DistributionState}
    (hd : ds[i]? = some d) (hdeadline : d'.claimDeadline = d.claimDeadline) (j : ℕ) :
    (ds.set i d')[j]?.map DistributionState.claimDeadline = ds[j]?.map DistributionState.claimDeadline := by
  by_cases hj : j = i
  · subst hj
    rw [getElem?_set_self (List.getElem?_eq_some_iff.mp hd).1, hd, map_some, map_some, hdeadline]
  · rw [getElem?_set_ne (Ne.symm hj)]

theorem Guarded.sameInstant (hguarded : Guarded w w') (h : SameInstant w₀ w)
    (hle : w₀.distributions.length ≤ w.distributions.length) : SameInstant w₀ w' := by
  cases hguarded with
  | nothing => exact h
  | distributed d balance _ _ _ hdeadline =>
    refine ⟨h.time, h.clock, fun j hj => ?_, fun j e hj he => ?_⟩
    · have hlt : j < w.distributions.length := hj.trans_le hle
      show Option.map _ (w.distributions ++ [d])[j]? = _ ∧
        update w.distributionPausedDuration w.distributions.length w.totalPausedDuration j = _
      rw [getElem?_append_left hlt, update_of_ne hlt.ne]
      exact h.old j hj
    · change (w.distributions ++ [d])[j]? = some e at he
      by_cases hlt : j < w.distributions.length
      · rw [getElem?_append_left hlt] at he
        intro hclosed
        refine h.fresh j e hj he ((closed_congr ?_ ?_ ?_ ?_).mp hclosed)
        · rfl
        · rfl
        · rfl
        · exact update_of_ne hlt.ne ..
      · rw [getElem?_append_right (not_lt.mp hlt)] at he
        obtain rfl := mem_singleton.mp (mem_of_getElem? he)
        have hlast : j = w.distributions.length := by
          have hzero := (List.getElem?_eq_some_iff.mp he).1
          rw [length_singleton] at hzero
          omega
        subst hlast
        -- its deadline lies ahead, and its baseline is not ahead of the clock
        rintro ⟨hset, hlate⟩
        have hahead := hdeadline hset
        have htotal : w.totalPausedDuration.toNat ≤ w.elapsed := Nat.le_add_right _ _
        change e.claimDeadline.toNat + w.elapsed < w.timestamp.toNat +
          (update w.distributionPausedDuration w.distributions.length w.totalPausedDuration
            w.distributions.length).toNat at hlate
        rw [update_self] at hlate
        omega
  | claimed i d account amount amountDistributed _ balance hfound =>
    exact h.congr rfl rfl (claimDeadline_set hfound rfl) rfl
  | swept i d amount _ balance hfound => exact h.congr rfl rfl (claimDeadline_set hfound rfl) rfl

theorem Opened.sameInstant (hopened : Opened w w') (hsound : Sound w) (h : SameInstant w₀ w) :
    SameInstant w₀ w' := by
  obtain ⟨htime, hclock⟩ := hopened.clock hsound
  cases hopened with
  | configured => exact h.congr htime hclock (fun _ => rfl) rfl
  | feeLowered => exact h.congr htime hclock (fun _ => rfl) rfl
  | feeScheduled => exact h.congr htime hclock (fun _ => rfl) rfl
  | feeApplied => exact h.congr htime hclock (fun _ => rfl) rfl
  | paused => exact h.congr htime hclock (fun _ => rfl) rfl
  | unpaused => exact h.congr htime hclock (fun _ => rfl) rfl

theorem length_le_of_opened (h : Opened w w') : w'.distributions.length = w.distributions.length := by
  cases h with
  | configured => rfl
  | feeLowered => rfl
  | feeScheduled => rfl
  | feeApplied => rfl
  | paused => rfl
  | unpaused => rfl

theorem length_le_of_guarded (h : Guarded w w') : w.distributions.length ≤ w'.distributions.length := by
  cases h with
  | nothing => exact le_rfl
  | distributed d =>
    show _ ≤ (w.distributions ++ [d]).length
    rw [length_append]
    exact Nat.le_add_right _ _
  | claimed i d account amount amountDistributed => exact length_set.ge
  | swept i d amount => exact length_set.ge

theorem keeps_sameInstant (w₀ : World) : Keeps (fun e _ => e.Inside)
    fun w => SameInstant w₀ w ∧ w₀.distributions.length ≤ w.distributions.length where
  opened hsound hopened h := ⟨hopened.sameInstant hsound h.1, (length_le_of_opened hopened).symm ▸ h.2⟩
  guarded _ hguarded h := ⟨hguarded.sameInstant h.1 h.2, h.2.trans (length_le_of_guarded hguarded)⟩
  lock _ h := ⟨h.1.congr rfl rfl (fun _ => rfl) rfl, h.2⟩
  credit _ _ h := ⟨h.1.congr rfl rfl (fun _ => rfl) rfl, h.2⟩
  between hok := nomatch hok

theorem SameInstant.windowClosed_iff (h : SameInstant w₀ w) (hsound₀ : Sound w₀) (hsound : Sound w) (i : ℕ) :
    WindowClosed w i ↔ WindowClosed w₀ i := by
  rw [MerkleFundDistributor.windowClosed_iff hsound, MerkleFundDistributor.windowClosed_iff hsound₀]
  constructor
  · rintro ⟨d, hd, hclosed⟩
    have hi : i < w₀.distributions.length := by
      by_contra hge
      exact h.fresh i d (not_lt.mp hge) hd hclosed
    obtain ⟨hround, hbaseline⟩ := h.old i hi
    rw [hd, map_some, eq_comm, map_eq_some_iff] at hround
    obtain ⟨d₀, hd₀, hdeadline⟩ := hround
    exact ⟨d₀, hd₀, (closed_congr h.time h.clock hdeadline.symm hbaseline).mp hclosed⟩
  · rintro ⟨d₀, hd₀, hclosed⟩
    obtain ⟨hround, hbaseline⟩ := h.old i (List.getElem?_eq_some_iff.mp hd₀).1
    rw [hd₀, map_some, map_eq_some_iff] at hround
    obtain ⟨d, hd, hdeadline⟩ := hround
    exact ⟨d, hd, (closed_congr h.time h.clock hdeadline hbaseline).mpr hclosed⟩

variable (H self)

theorem run_sameInstant (hsound : Sound w₀) (hfree : w₀.entered = false) {inside : List Event}
    (hinside : ∀ e ∈ inside, e.Inside) :
    Sound (run H self w₀ inside).world ∧ SameInstant w₀ (run H self w₀ inside).world := by
  have hallowed : Allowed (contract H self) (fun e _ => e.Inside) w₀ inside := by
    rintro before e after rfl
    exact hinside e (mem_append_right _ mem_cons_self)
  have h := ((keeps_sameInstant w₀).kept.run hfree ⟨hsound, .refl w₀, le_rfl⟩ hallowed).2
  exact ⟨h.1, h.2.1⟩

theorem run_sound (hstart : Start w) (events : List Event) : Sound (run H self w events).world :=
  (keeps_true.run_holds H self hstart trivial events).1

theorem run_free (hstart : Start w) {events : List Event} (hframes : (run H self w events).frames = []) :
    (run H self w events).world.entered = false := by
  have hkept : Kept (fun w => w.entered) Waits (contract H self) (fun _ _ => True) _ := keeps_true.kept
  have hlocked := (hkept.run hstart.sound.2 ⟨hstart.sound.1, trivial⟩ (allowed_true w events)).1
  change Locked _ _ (waiting (run H self w events).frames) _ at hlocked
  rw [hframes] at hlocked
  rcases hlocked with ⟨-, hfree⟩ | ⟨k, hks, -⟩
  · exact hfree
  · exact nomatch hks

/-- An event leaves the instant and the windows alone, or it is a later block. -/
theorem step_window (hstart : Start w) (events : List Event) (e : Event) :
    ((run H self w (events ++ [e])).world.timestamp = (run H self w events).world.timestamp ∧
      ∀ i, WindowClosed (run H self w (events ++ [e])).world i ↔ WindowClosed (run H self w events).world i) ∨
    ∃ b, advance b (run H self w events).world = some (run H self w (events ++ [e])).world := by
  have hstep : run H self w (events ++ [e]) = step (contract H self) (run H self w events) e :=
    run_append_singleton w events e
  by_cases hinside : e.Inside
  · obtain ⟨before, inside, hframes, hall, hrun⟩ := exists_transaction (contract H self) w events
    have hsound := run_sound H self hstart before
    have hfree := run_free H self hstart hframes
    have hall' : ∀ e' ∈ inside ++ [e], e'.Inside := by
      intro e' he'
      rcases mem_append.mp he' with he' | he'
      · exact hall e' he'
      · exact mem_singleton.mp he' ▸ hinside
    obtain ⟨hsound₁, h₁⟩ := run_sameInstant H self hsound hfree hall
    obtain ⟨hsound₂, h₂⟩ := run_sameInstant H self hsound hfree hall'
    have hrun' : run H self w (events ++ [e]) = run H self (run H self w before).world (inside ++ [e]) := by
      rw [hstep]
      change run H self w events = run H self (run H self w before).world inside at hrun
      rw [hrun]
      exact (run_append_singleton _ inside e).symm
    change run H self w events = run H self (run H self w before).world inside at hrun
    rw [hrun, hrun']
    refine .inl ⟨h₂.time.trans h₁.time.symm, fun i => ?_⟩
    rw [h₂.windowClosed_iff hsound hsound₂, h₁.windowClosed_iff hsound hsound₁]
  · cases e with
    | between b =>
      cases hframes : (run H self w events).frames with
      | nil =>
        have hworld : (run H self w (events ++ [.between b])).world =
            (advance b (run H self w events).world).getD (run H self w events).world := by
          rw [hstep, eq_of_frames_nil hframes]
          rfl
        cases hb : advance b (run H self w events).world with
        | none =>
          rw [hb] at hworld
          refine .inl ?_
          rw [hworld]
          exact ⟨rfl, fun i => Iff.rfl⟩
        | some v =>
          rw [hb] at hworld
          exact .inr ⟨b, by rw [hworld, hb]; rfl⟩
      | cons frame frames =>
        refine .inl ?_
        rw [hstep, step, hframes]
        exact ⟨rfl, fun i => Iff.rfl⟩
    | _ => exact absurd trivial hinside

theorem advance_window (hsound : Sound w) {b : Header} (hb : advance b w = some w') (i : ℕ) :
    (WindowClosed w i → WindowClosed w' i) ∧
    (w.paused = true ∨ w'.timestamp = w.timestamp → WindowClosed w' i → WindowClosed w i) := by
  obtain ⟨htime, hw'⟩ := advance_eq_some hb
  have hsound' := hsound.advance hb
  have hframe : w'.paused = w.paused ∧ w'.pauseStartedAt = w.pauseStartedAt ∧
      w'.totalPausedDuration = w.totalPausedDuration := by
    rw [hw']
    exact ⟨rfl, rfl, rfl⟩
  have hrounds : w'.distributions = w.distributions := by rw [hw']
  have hbaseline : w'.distributionPausedDuration = w.distributionPausedDuration := by rw [hw']
  have hclock := clock_later hsound hframe.1 hframe.2.1 hframe.2.2 htime
  have helapsed := elapsed_later hsound hframe.1 hframe.2.1 hframe.2.2 htime
  rw [windowClosed_iff hsound, windowClosed_iff hsound', hrounds]
  constructor
  · rintro ⟨d, hd, hclosed⟩
    exact ⟨d, hd, hclosed.mono rfl (congrFun hbaseline i) hclock⟩
  · rintro hstill ⟨d, hd, hset, hlate⟩
    refine ⟨d, hd, hset, ?_⟩
    rw [hbaseline] at hlate
    rcases hstill with hpaused | hsame
    · rw [if_pos hpaused] at helapsed
      omega
    · rw [hsame] at hlate helapsed
      rw [Nat.sub_self, ite_self] at helapsed
      omega

theorem run_closed (hstart : Start w) (events more : List Event) (i : ℕ)
    (h : WindowClosed (run H self w events).world i) : WindowClosed (run H self w (events ++ more)).world i := by
  induction more using List.reverseRecOn with
  | nil =>
    rw [append_nil]
    exact h
  | append_singleton more e ih =>
    rw [← append_assoc]
    rcases step_window H self hstart (events ++ more) e with ⟨-, hsame⟩ | ⟨b, hb⟩
    · exact (hsame i).mpr ih
    · exact (advance_window (run_sound H self hstart _) hb i).1 ih

theorem run_open_of_paused (hstart : Start w) (events more : List Event) (i : ℕ)
    (hpaused : ∀ before after, more = before ++ after → (run H self w (events ++ before)).world.paused = true)
    (h : ¬ WindowClosed (run H self w events).world i) :
    ¬ WindowClosed (run H self w (events ++ more)).world i := by
  induction more using List.reverseRecOn with
  | nil =>
    rw [append_nil]
    exact h
  | append_singleton more e ih =>
    have ih := ih fun before after hsplit => hpaused before (after ++ [e]) (by
      rw [hsplit, append_assoc])
    rw [← append_assoc]
    rcases step_window H self hstart (events ++ more) e with ⟨-, hsame⟩ | ⟨b, hb⟩
    · rw [hsame i]
      exact ih
    · intro hclosed
      exact ih ((advance_window (run_sound H self hstart _) hb i).2 (.inl (hpaused more [e] rfl)) hclosed)

theorem run_time_le (hstart : Start w) (events more : List Event) :
    (run H self w events).world.timestamp.toNat ≤ (run H self w (events ++ more)).world.timestamp.toNat := by
  induction more using List.reverseRecOn with
  | nil => rw [append_nil]
  | append_singleton more e ih =>
    rw [← append_assoc]
    rcases step_window H self hstart (events ++ more) e with ⟨htime, -⟩ | ⟨b, hb⟩
    · rw [htime]
      exact ih
    · exact ih.trans (advance_eq_some hb).1

theorem run_instant (hstart : Start w) (events more : List Event) (i : ℕ)
    (htime : (run H self w (events ++ more)).world.timestamp = (run H self w events).world.timestamp) :
    WindowClosed (run H self w (events ++ more)).world i ↔ WindowClosed (run H self w events).world i := by
  induction more using List.reverseRecOn with
  | nil => rw [append_nil]
  | append_singleton more e ih =>
    rw [← append_assoc] at htime ⊢
    have hle := run_time_le H self hstart events more
    rcases step_window H self hstart (events ++ more) e with ⟨hsame, hiff⟩ | ⟨b, hb⟩
    · rw [hiff]
      exact ih (hsame.symm.trans htime)
    · have hnow := (advance_eq_some hb).1
      have hbefore : (run H self w (events ++ more)).world.timestamp = (run H self w events).world.timestamp := by
        rw [htime] at hnow
        exact UInt64.toNat_inj.mp (Nat.le_antisymm hnow hle)
      have hwindow := advance_window (run_sound H self hstart _) hb i
      rw [← ih hbefore]
      exact ⟨hwindow.2 (.inr (htime.trans hbefore.symm)), hwindow.1⟩

def ClaimEnabled (H : Hashes) (self : Address) (w : World) (i : ℕ) : Prop :=
  ∃ env account value proof, ∀ e, enter H self (env, .claim i account value proof) w ≠ .reverted e

def SweepEnabled (H : Hashes) (self : Address) (w : World) (i : ℕ) : Prop :=
  ∃ env, ∀ e, enter H self (env, .sweep i) w ≠ .reverted e

variable {H self}

theorem ClaimEnabled.not_windowClosed {i : ℕ} (h : ClaimEnabled H self w i) : ¬ WindowClosed w i := by
  obtain ⟨env, account, value, proof, hturn⟩ := h
  rintro ⟨deadline, hdeadline, hset, hlate⟩
  rcases enter_claim H self w env i account value proof with ⟨e, he⟩ | ⟨⟨w₁, token, amount⟩, hcredit⟩
  · exact hturn e he
  · obtain ⟨d, deadline', _, _, _, _, _, hdeadline', hearly, _⟩ := creditClaim_eq_ok hcredit
    change effectiveClaimDeadline w i = .ok deadline' at hdeadline'
    obtain rfl : deadline = deadline' := Except.ok.inj (hdeadline.symm.trans hdeadline')
    rcases hearly with hzero | hle
    · exact hset hzero
    · exact absurd hlate (not_lt.mpr hle)

theorem SweepEnabled.windowClosed {i : ℕ} (h : SweepEnabled H self w i) : WindowClosed w i := by
  obtain ⟨env, hturn⟩ := h
  rcases enter_sweep H self w env i with ⟨e, he⟩ | ⟨⟨w₁, d, amount⟩, hdebit⟩
  · exact absurd he (hturn e)
  · obtain ⟨deadline, _, hdeadline, hlate, _⟩ := debitSweep_eq_ok hdebit
    exact ⟨deadline, hdeadline, hlate⟩

theorem effectiveClaimDeadline_ne_underflow (h : Sound w) (i : ℕ) :
    effectiveClaimDeadline w i ≠ .error .underflow := by
  cases hd : w.distributions[i]? with
  | none =>
    rw [effectiveClaimDeadline, hd]
    rintro ⟨⟩
  | some d =>
    obtain ⟨deadline, hdeadline, -⟩ := effectiveClaimDeadline_eq h hd
    rw [hdeadline]
    rintro ⟨⟩

theorem unpause_ne_underflow (h : Sound w) (env : Env) : unpause env w ≠ .error .underflow := by
  rw [unpause, onlyOwner]
  by_cases howner : env.msgSender ≠ w.owner
  · rw [if_pos howner]
    rintro ⟨⟩
  rw [if_neg howner]
  by_cases hpaused : w.paused = false
  · rw [if_pos hpaused]
    rintro ⟨⟩
  rw [if_neg hpaused]
  obtain ⟨since, hsince, -⟩ := minus_isOk (a := uint256 w.timestamp) (b := w.pauseStartedAt) (by
    rw [toNat_uint256]
    exact h.started (by simpa using hpaused))
  intro he
  rcases Outcome.bind_eq_error.mp he with he | ⟨since', -, he⟩
  · exact absurd (hsince.symm.trans he) (by rintro ⟨⟩)
  · rcases Outcome.bind_eq_error.mp he with he | ⟨total, -, he⟩
    · cases hadd : Checked.add w.totalPausedDuration since' with
      | none =>
        rw [hadd] at he
        cases he
      | some total =>
        rw [hadd] at he
        cases he
    · cases he

/-- Along a run: an open window stays open while the contract is paused, a closed one stays closed, at no
instant are both a claim and a sweep of a round possible, and the arithmetic of the clocks does not underflow. -/
theorem run_claim_window (H : Hashes) (self : Address) (w : World) (hstart : Start w) (events more : List Event)
    (i : ℕ) :
    ((∀ before after, more = before ++ after → (run H self w (events ++ before)).world.paused = true) →
      ¬ WindowClosed (run H self w events).world i → ¬ WindowClosed (run H self w (events ++ more)).world i) ∧
    (WindowClosed (run H self w events).world i → WindowClosed (run H self w (events ++ more)).world i) ∧
    ((run H self w (events ++ more)).world.timestamp = (run H self w events).world.timestamp →
      ¬ (ClaimEnabled H self (run H self w events).world i ∧
        SweepEnabled H self (run H self w (events ++ more)).world i) ∧
      ¬ (SweepEnabled H self (run H self w events).world i ∧
        ClaimEnabled H self (run H self w (events ++ more)).world i)) ∧
    effectiveClaimDeadline (run H self w events).world i ≠ .error .underflow ∧
    ∀ env, unpause env (run H self w events).world ≠ .error .underflow := by
  have hsound := run_sound H self hstart events
  refine ⟨run_open_of_paused H self hstart events more i, run_closed H self hstart events more i,
    fun htime => ⟨?_, ?_⟩, effectiveClaimDeadline_ne_underflow hsound i, unpause_ne_underflow hsound⟩
  · rintro ⟨hclaim, hsweep⟩
    exact hclaim.not_windowClosed ((run_instant H self hstart events more i htime).mp hsweep.windowClosed)
  · rintro ⟨hsweep, hclaim⟩
    exact hclaim.not_windowClosed ((run_instant H self hstart events more i htime).mpr hsweep.windowClosed)

end

namespace DistributorExample

def pausing : List Event := [call funder 1000 (round 1000 1000500), .answer (some ()), call owner 0 .pause]

def paused : List Event := [later 1000501]

theorem pausing_paused : (constructed.toOption.map fun s =>
    ((run hashes self (start s) pausing).world.paused, (run hashes self (start s) (pausing ++ paused)).world.paused,
      (effectiveClaimDeadline (run hashes self (start s) pausing).world 0).toOption,
      (run hashes self (start s) pausing).world.timestamp)) =
    some (true, true, some 1000500, 1000000) := by
  decide +kernel

end DistributorExample

open DistributorExample in
/-- A pause that lasts beyond the configured deadline. -/
theorem run_claim_window_paused : ∃ s, Start (start s) ∧
    ¬ WindowClosed (run hashes self (start s) (pausing ++ paused)).world 0 := by
  obtain ⟨s, hs, hstart⟩ := exists_start
  have h := pausing_paused
  rw [hs] at h
  obtain ⟨hbefore, h⟩ := Prod.mk.inj (Option.some.inj h)
  obtain ⟨hafter, h⟩ := Prod.mk.inj h
  obtain ⟨hdeadline, htime⟩ := Prod.mk.inj h
  refine ⟨s, hstart, (run_claim_window hashes self (start s) hstart pausing paused 0).1 ?_ ?_⟩
  · intro before after hsplit
    cases before with
    | nil => exact hbefore
    | cons e before =>
      obtain ⟨rfl, hrest⟩ := List.cons.inj hsplit
      obtain ⟨rfl, -⟩ := append_eq_nil_iff.mp hrest.symm
      exact hafter
  · rintro ⟨deadline, hok, -, hlate⟩
    rw [hok] at hdeadline
    obtain rfl : deadline = 1000500 := Option.some.inj hdeadline
    rw [htime] at hlate
    exact absurd hlate (by decide)

end Trustgraphs.MerkleFundDistributor
