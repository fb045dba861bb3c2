import Mathlib

/-!
# A contract that calls out

A contract's code runs in turns. A turn ends when the call returns or reverts, or when it hands control to
code of others, which may call the contract again before it returns or reverts. A revert takes back
everything since the call that reverts began. So a configuration is a world with a stack of unfinished
calls, each of which remembers the worlds that a revert goes back to.

What every turn preserves, relative to the calls that wait below it, holds in every world that is reached,
also while calls are unfinished (`run_holds`). It may be that only some events preserve it: then it holds
after the runs of these.
-/

namespace Trustgraphs.CallStack

open List

/-- How a turn ends: `K` is what a call remembers while it waits. -/
inductive Turn (W K E : Type*) where
  | returned (w : W)
  | reverted (e : E)
  | waits (w : W) (k : K)

/-- A contract with calls `I`, where `A` is what a call that waited sees when the code it called returns,
and what happens to the world without the contract: `O` at any time and `B` only between transactions. -/
structure Contract (W I K A O B E : Type*) where
  enter : I → W → Turn W K E
  /-- `none` when the code that was called has reverted. -/
  resume : K → Option A → W → Turn W K E
  outside : O → W → W
  between : B → W → Option W

/-- A call that has not returned. -/
inductive Frame (W K : Type*) where
  /-- A call of the contract that waits, with the worlds at its entry and when it began to wait. -/
  | waiting (entry called : W) (k : K)
  /-- A call of some other code. -/
  | foreign (entry : W)

/-- A world with the calls that have not returned in it, innermost first. -/
structure Configuration (W K : Type*) where
  world : W
  frames : List (Frame W K)

/-- What may happen next: to the contract, to other code and between transactions. -/
inductive Event (I A O B : Type*) where
  | enter (i : I)
  /-- The code that the waiting call has called returns, or reverts. -/
  | answer (a : Option A)
  | foreignEnter
  | foreignReturn
  | foreignRevert
  | outside (o : O)
  | between (b : B)

variable {W I K A O B E : Type*}

/-- A turn that began with the unfinished calls `frames` and goes back to `entry` when it reverts. -/
def settle (entry : W) (frames : List (Frame W K)) : Turn W K E → Configuration W K
  | .returned w => ⟨w, frames⟩
  | .reverted _ => ⟨entry, frames⟩
  | .waits w k => ⟨w, .waiting entry w k :: frames⟩

variable (C : Contract W I K A O B E)

/-- The next configuration; an event that cannot happen changes nothing. -/
def step (c : Configuration W K) : Event I A O B → Configuration W K
  | .enter i => settle c.world c.frames (C.enter i c.world)
  | .answer a =>
    match c.frames with
    | .waiting entry called k :: frames =>
      settle entry frames (C.resume k a (if a.isSome then c.world else called))
    | _ => c
  | .foreignEnter => ⟨c.world, .foreign c.world :: c.frames⟩
  | .foreignReturn =>
    match c.frames with
    | .foreign _ :: frames => ⟨c.world, frames⟩
    | _ => c
  | .foreignRevert =>
    match c.frames with
    | .foreign entry :: frames => ⟨entry, frames⟩
    | _ => c
  | .outside o => ⟨C.outside o c.world, c.frames⟩
  | .between b =>
    match c.frames with
    | [] => ⟨(C.between b c.world).getD c.world, []⟩
    | _ => c

/-- The configuration after a run from between two transactions. -/
def run (w : W) (events : List (Event I A O B)) : Configuration W K := events.foldl (step C) ⟨w, []⟩

/-- The calls of the contract that wait, the last one first. -/
def waiting : List (Frame W K) → List K
  | [] => []
  | .waiting _ _ k :: frames => k :: waiting frames
  | .foreign _ :: frames => waiting frames

/-- Every world that a configuration has or may go back to satisfies `P`, relative to what waits there. -/
def FramesHold (P : List K → W → Prop) : List (Frame W K) → Prop
  | [] => True
  | .waiting entry called k :: frames =>
    P (waiting frames) entry ∧ P (k :: waiting frames) called ∧ FramesHold P frames
  | .foreign entry :: frames => P (waiting frames) entry ∧ FramesHold P frames

/-- `P` of the world and of every snapshot a revert would bring back. -/
structure Holds (P : List K → W → Prop) (c : Configuration W K) : Prop where
  world : P (waiting c.frames) c.world
  frames : FramesHold P c.frames

/-- What a turn leaves satisfies `P`, when the calls `ks` wait below it. -/
def TurnHolds (P : List K → W → Prop) (ks : List K) : Turn W K E → Prop
  | .returned w => P ks w
  | .reverted _ => True
  | .waits w k => P (k :: ks) w

/-- `P` is preserved by each turn and by what happens outside, where `ok` allows it. -/
structure Preserved (ok : Event I A O B → W → Prop) (P : List K → W → Prop) : Prop where
  enter : ∀ i ks w, ok (.enter i) w → P ks w → TurnHolds P ks (C.enter i w)
  resume : ∀ k ks a w, (a.isSome → ok (.answer a) w) → P (k :: ks) w → TurnHolds P ks (C.resume k a w)
  outside : ∀ o ks w, ok (.outside o) w → P ks w → P ks (C.outside o w)
  between : ∀ b w w', ok (.between b) w → P [] w → C.between b w = some w' → P [] w'

/-- Every event of the run meets its condition where it happens. -/
def Allowed (ok : Event I A O B → W → Prop) (w : W) (events : List (Event I A O B)) : Prop :=
  ∀ before event after, events = before ++ event :: after → ok event (run C w before).world

variable {C} {ok : Event I A O B → W → Prop} {P : List K → W → Prop}

theorem settle_holds {entry : W} {frames : List (Frame W K)} {turn : Turn W K E}
    (hentry : P (waiting frames) entry) (hframes : FramesHold P frames)
    (hturn : TurnHolds P (waiting frames) turn) : Holds P (settle entry frames turn) := by
  cases turn with
  | returned w => exact ⟨hturn, hframes⟩
  | reverted e => exact ⟨hentry, hframes⟩
  | waits w k => exact ⟨hturn, hentry, hturn, hframes⟩

/-- One event. -/
theorem step_holds (hP : Preserved C ok P) {c : Configuration W K} (hc : Holds P c)
    {event : Event I A O B} (hok : ok event c.world) : Holds P (step C c event) := by
  obtain ⟨w, frames⟩ := c
  obtain ⟨hworld, hframes⟩ := hc
  cases event with
  | enter i => exact settle_holds hworld hframes (hP.enter i _ _ hok hworld)
  | answer a =>
    cases frames with
    | nil => exact ⟨hworld, hframes⟩
    | cons frame frames =>
      cases frame with
      | foreign entry => exact ⟨hworld, hframes⟩
      | waiting entry called k =>
        obtain ⟨hentry, hcalled, hrest⟩ := hframes
        refine settle_holds hentry hrest ?_
        cases a with
        | none => exact hP.resume k _ none _ (fun h => absurd h (by simp)) hcalled
        | some a => exact hP.resume k _ (some a) _ (fun _ => hok) hworld
  | foreignEnter => exact ⟨hworld, hworld, hframes⟩
  | foreignReturn =>
    cases frames with
    | nil => exact ⟨hworld, hframes⟩
    | cons frame frames =>
      cases frame with
      | foreign entry => exact ⟨hworld, hframes.2⟩
      | waiting entry called k => exact ⟨hworld, hframes⟩
  | foreignRevert =>
    cases frames with
    | nil => exact ⟨hworld, hframes⟩
    | cons frame frames =>
      cases frame with
      | foreign entry => exact ⟨hframes.1, hframes.2⟩
      | waiting entry called k => exact ⟨hworld, hframes⟩
  | outside o => exact ⟨hP.outside o _ _ hok hworld, hframes⟩
  | between b =>
    cases frames with
    | cons frame frames => exact ⟨hworld, hframes⟩
    | nil =>
      refine ⟨?_, hframes⟩
      cases hb : C.between b w with
      | none =>
        show P [] ((C.between b w).getD w)
        rw [hb]
        exact hworld
      | some w' =>
        show P [] ((C.between b w).getD w)
        rw [hb]
        exact hP.between b w w' hok hworld hb

theorem run_append_singleton (w : W) (events : List (Event I A O B)) (event : Event I A O B) :
    run C w (events ++ [event]) = step C (run C w events) event := by
  rw [run, foldl_append]
  rfl

theorem run_append (w : W) (before after : List (Event I A O B)) :
    run C w (before ++ after) = after.foldl (step C) (run C w before) := foldl_append

/-- What every event preserves holds of the world and of every snapshot below. -/
theorem run_holds (hP : Preserved C ok P) {w : W} (hw : P [] w) {events : List (Event I A O B)}
    (hok : Allowed C ok w events) : Holds P (run C w events) := by
  induction events using List.reverseRecOn with
  | nil => exact ⟨hw, trivial⟩
  | append_singleton events event ih =>
    rw [run_append_singleton]
    refine step_holds hP (ih fun before e after hsplit => ?_) (hok events event [] rfl)
    exact hok before e (after ++ [event]) (by rw [hsplit, append_assoc, cons_append])

theorem allowed_true (w : W) (events : List (Event I A O B)) : Allowed C (fun _ _ => True) w events :=
  fun _ _ _ _ => trivial

/-! ## Transactions -/

/-- An event of a transaction; what happens between two transactions is none. -/
def Event.Inside : Event I A O B → Prop
  | .between _ => False
  | _ => True

theorem eq_of_frames_nil {c : Configuration W K} (h : c.frames = []) : c = ⟨c.world, []⟩ := by
  obtain ⟨w, frames⟩ := c
  change frames = [] at h
  rw [h]

/-- The last transaction of a run, begun without open calls. -/
theorem exists_transaction (C : Contract W I K A O B E) (w : W) (events : List (Event I A O B)) :
    ∃ before inside, (run C w before).frames = [] ∧ (∀ e ∈ inside, e.Inside) ∧
      run C w events = run C (run C w before).world inside := by
  induction events using List.reverseRecOn with
  | nil => exact ⟨[], [], rfl, fun e he => absurd he not_mem_nil, rfl⟩
  | append_singleton events event ih =>
    obtain ⟨before, inside, hframes, hinside, hrun⟩ := ih
    by_cases hevent : event.Inside
    · refine ⟨before, inside ++ [event], hframes, fun e he => ?_, ?_⟩
      · rcases mem_append.mp he with he | he
        · exact hinside e he
        · exact mem_singleton.mp he ▸ hevent
      · rw [run_append_singleton, run_append_singleton, hrun]
    · cases event with
      | between b =>
        cases hframe : (run C w events).frames with
        | nil =>
          -- the transaction is over, and the block may be
          have hstep : run C w (events ++ [.between b]) =
              ⟨(C.between b (run C w events).world).getD (run C w events).world, []⟩ := by
            rw [run_append_singleton, eq_of_frames_nil hframe]
            rfl
          refine ⟨events ++ [.between b], [], ?_, fun e he => absurd he not_mem_nil, ?_⟩
          · rw [hstep]
          · rw [hstep]
            rfl
        | cons frame frames =>
          have hstep : run C w (events ++ [.between b]) = run C w events := by
            rw [run_append_singleton, step, hframe]
          exact ⟨before, inside, hframes, hinside, hstep.trans hrun⟩
      | _ => exact absurd trivial hevent

/-! ## A lock -/

section Lock

variable (entered : W → Bool) (Waits : K → W → Prop)

/-- The lock is held by the one call that waits, which can rely on `Waits`. -/
def Locked (ks : List K) (w : W) : Prop :=
  ks = [] ∧ entered w = false ∨ ∃ k, ks = [k] ∧ entered w = true ∧ Waits k w

/-- What the first turn of a call does to the lock and to `J`: it leaves the lock as it is, or takes it. -/
def EnterHolds (J : W → Prop) (w : W) : Turn W K E → Prop
  | .returned w' => J w' ∧ entered w' = entered w ∧ (entered w = true → ∀ k, Waits k w → Waits k w')
  | .reverted _ => True
  | .waits w' k => J w' ∧ entered w = false ∧ entered w' = true ∧ Waits k w'

/-- What the rest of a call does to them: it releases the lock, or it waits again. -/
def ResumeHolds (J : W → Prop) : Turn W K E → Prop
  | .returned w' => J w' ∧ entered w' = false
  | .reverted _ => True
  | .waits w' k => J w' ∧ entered w' = true ∧ Waits k w'

/-- `J` is kept by the turns that the lock lets happen, and by what happens without the contract. -/
structure Kept (C : Contract W I K A O B E) (ok : Event I A O B → W → Prop) (J : W → Prop) : Prop where
  enter : ∀ i w, ok (.enter i) w → J w → EnterHolds entered Waits J w (C.enter i w)
  resume : ∀ k a w, (a.isSome → ok (.answer a) w) → entered w = true → Waits k w → J w →
    ResumeHolds entered Waits J (C.resume k a w)
  outside : ∀ o w, ok (.outside o) w → J w → J (C.outside o w) ∧ entered (C.outside o w) = entered w ∧
    ∀ k, Waits k w → Waits k (C.outside o w)
  between : ∀ b w w', ok (.between b) w → entered w = false → J w → C.between b w = some w' →
    J w' ∧ entered w' = false

variable {entered Waits} {J : W → Prop}

/-- A call that waits is the only one. -/
theorem Locked.held {k : K} {ks : List K} {w : W} (h : Locked entered Waits (k :: ks) w) :
    ks = [] ∧ entered w = true ∧ Waits k w := by
  rcases h with ⟨hks, -⟩ | ⟨k', hks, hheld, hwaits⟩
  · exact nomatch hks
  · obtain ⟨rfl, rfl⟩ := List.cons.inj hks
    exact ⟨rfl, hheld, hwaits⟩

theorem Kept.preserved (hJ : Kept entered Waits C ok J) :
    Preserved C ok fun ks w => Locked entered Waits ks w ∧ J w where
  enter i ks w hok h := by
    obtain ⟨hlocked, hw⟩ := h
    have hturn := hJ.enter i w hok hw
    cases hresult : C.enter i w with
    | returned w' =>
      rw [hresult] at hturn
      obtain ⟨hw', hentered, hwaits⟩ := hturn
      refine ⟨?_, hw'⟩
      rcases hlocked with ⟨hks, hfree⟩ | ⟨k, hks, hheld, hk⟩
      · exact .inl ⟨hks, hentered.trans hfree⟩
      · exact .inr ⟨k, hks, hentered.trans hheld, hwaits hheld k hk⟩
    | reverted e => trivial
    | waits w' k =>
      rw [hresult] at hturn
      obtain ⟨hw', hfree, hheld, hk⟩ := hturn
      rcases hlocked with ⟨rfl, -⟩ | ⟨_, -, hheld', -⟩
      · exact ⟨.inr ⟨k, rfl, hheld, hk⟩, hw'⟩
      · rw [hfree] at hheld'
        exact nomatch hheld'
  resume k ks a w hok h := by
    obtain ⟨hlocked, hw⟩ := h
    obtain ⟨rfl, hheld, hk⟩ := hlocked.held
    have hturn := hJ.resume k a w hok hheld hk hw
    cases hresult : C.resume k a w with
    | returned w' =>
      rw [hresult] at hturn
      exact ⟨.inl ⟨rfl, hturn.2⟩, hturn.1⟩
    | reverted e => trivial
    | waits w' k' =>
      rw [hresult] at hturn
      exact ⟨.inr ⟨k', rfl, hturn.2.1, hturn.2.2⟩, hturn.1⟩
  outside o ks w hok h := by
    obtain ⟨hlocked, hw⟩ := h
    obtain ⟨hw', hentered, hwaits⟩ := hJ.outside o w hok hw
    refine ⟨?_, hw'⟩
    rcases hlocked with ⟨hks, hfree⟩ | ⟨k, hks, hheld, hk⟩
    · exact .inl ⟨hks, hentered.trans hfree⟩
    · exact .inr ⟨k, hks, hentered.trans hheld, hwaits k hk⟩
  between b w w' hok h hb := by
    obtain ⟨hlocked, hw⟩ := h
    rcases hlocked with ⟨-, hfree⟩ | ⟨k, hks, -⟩
    · obtain ⟨hw', hfree'⟩ := hJ.between b w w' hok hfree hw hb
      exact ⟨.inl ⟨rfl, hfree'⟩, hw'⟩
    · exact nomatch hks

/-- Behind a lock, what each transaction keeps holds throughout the run. -/
theorem Kept.run (hJ : Kept entered Waits C ok J) {w : W} (hfree : entered w = false) (hw : J w)
    {events : List (Event I A O B)} (hok : Allowed C ok w events) :
    Locked entered Waits (waiting (run C w events).frames) (run C w events).world ∧ J (run C w events).world :=
  (run_holds hJ.preserved ⟨.inl ⟨rfl, hfree⟩, hw⟩ hok).world

end Lock

/-! ## Calls that end with the call they make -/

/-- A contract whose calls call out as their last step, if they do (the flag), and fail when that call fails. -/
def relaying (call : I → W → Option (W × Bool)) : Contract W I Unit Unit Empty Empty Unit where
  enter i w :=
    match call i w with
    | none => .reverted ()
    | some (w', false) => .returned w'
    | some (w', true) => .waits w' ()
  resume _ a w :=
    match a with
    | none => .reverted ()
    | some _ => .returned w
  outside o _ := nomatch o
  between b _ := nomatch b

theorem relaying_holds {call : I → W → Option (W × Bool)} {Q : W → Prop}
    (hQ : ∀ i w w' b, Q w → call i w = some (w', b) → Q w') {w : W} (hw : Q w)
    (events : List (Event I Unit Empty Empty)) : Q (run (relaying call) w events).world := by
  have hpreserved : Preserved (relaying call) (fun _ _ => True) fun _ => Q := {
    enter := fun i ks w _ h => by
      show TurnHolds _ ks (match call i w with
        | none => _
        | some (w', false) => _
        | some (w', true) => _)
      cases hcall : call i w with
      | none => trivial
      | some r =>
        obtain ⟨w', b⟩ := r
        cases b with
        | false => exact hQ i w w' false h hcall
        | true => exact hQ i w w' true h hcall
    resume := fun k ks a w _ h => by
      cases a with
      | none => trivial
      | some a => exact h
    outside := fun o => nomatch o
    between := fun b => nomatch b }
  exact (run_holds hpreserved hw (allowed_true w events)).world

end Trustgraphs.CallStack

/-!
# Where a call began

A contract whose calls wait at most once: each unfinished call was entered at a point of the run from which the
frames below it stem (`exists_entry`), and that is what a revert of the call goes back to. The state of the
other contracts can be put beside that of the contract (`Contract.beside`); a revert takes it back too.
-/

namespace Trustgraphs.CallStack

variable {W K E I A O B : Type*}

/-! ## The state of others -/

/-- A turn of a contract whose state is a part of another's. -/
def Turn.map {W' : Type*} (f : W → W') : Turn W K E → Turn W' K E
  | .returned w => .returned (f w)
  | .reverted e => .reverted e
  | .waits w k => .waits (f w) k

/-- The contract and a state of other contracts, which may change at any time and in any way. -/
def Contract.beside (C : Contract W I K A O B E) (S : Type*) : Contract (W × S) I K A (O ⊕ (S → S)) B E where
  enter i w := (C.enter i w.1).map (·, w.2)
  resume k a w := (C.resume k a w.1).map (·, w.2)
  outside o w :=
    match o with
    | .inl o => (C.outside o w.1, w.2)
    | .inr f => (w.1, f w.2)
  between b w := (C.between b w.1).map (·, w.2)

/-! ## Entries -/

variable {C : Contract W I K A O B E}

/-- The call was entered at a point of the run, with these frames below it. -/
def Entered (C : Contract W I K A O B E) (w : W) (events : List (Event I A O B)) (entry called : W) (k : K)
    (frames : List (Frame W K)) : Prop :=
  ∃ before i after, events = before ++ .enter i :: after ∧ run C w before = ⟨entry, frames⟩ ∧
    C.enter i entry = .waits called k

variable {entry called : W} {k : K} {frames : List (Frame W K)}

theorem Entered.append {w : W}
    {events : List (Event I A O B)} (h : Entered C w events entry called k frames) (event : Event I A O B) :
    Entered C w (events ++ [event]) entry called k frames := by
  obtain ⟨before, i, after, rfl, hrun, hturn⟩ := h
  exact ⟨before, i, after ++ [event], by simp, hrun, hturn⟩

/-- The frames of a step: one more, one less, or the same. -/
inductive FramesStep (C : Contract W I K A O B E) (c : Configuration W K) (event : Event I A O B) :
    List (Frame W K) → Prop
  | same : FramesStep C c event c.frames
  | popped (frame : Frame W K) (frames : List (Frame W K)) (h : c.frames = frame :: frames) :
      FramesStep C c event frames
  | foreign : FramesStep C c event (.foreign c.world :: c.frames)
  | waiting (i : I) (called : W) (k : K) (event_eq : event = .enter i)
      (turn : C.enter i c.world = .waits called k) :
      FramesStep C c event (.waiting c.world called k :: c.frames)

theorem step_frames (hresume : ∀ k a w w' k', C.resume k a w ≠ .waits w' k') (c : Configuration W K)
    (event : Event I A O B) : FramesStep C c event (step C c event).frames := by
  obtain ⟨w, frames⟩ := c
  cases event with
  | enter i =>
    show FramesStep C _ _ (settle w frames (C.enter i w)).frames
    cases hturn : C.enter i w with
    | returned w' => exact .same
    | reverted e => exact .same
    | waits w' k => exact .waiting i w' k rfl hturn
  | answer a =>
    cases frames with
    | nil => exact .same
    | cons frame frames =>
      cases frame with
      | foreign entry => exact .same
      | waiting entry called k =>
        show FramesStep C _ _ (settle entry frames (C.resume k a (if a.isSome then w else called))).frames
        cases hturn : C.resume k a (if a.isSome then w else called) with
        | returned w' => exact .popped _ _ rfl
        | reverted e => exact .popped _ _ rfl
        | waits w' k' => exact absurd hturn (hresume _ _ _ _ _)
  | foreignEnter => exact .foreign
  | foreignReturn =>
    cases frames with
    | nil => exact .same
    | cons frame frames =>
      cases frame with
      | foreign entry => exact .popped _ _ rfl
      | waiting entry called k => exact .same
  | foreignRevert =>
    cases frames with
    | nil => exact .same
    | cons frame frames =>
      cases frame with
      | foreign entry => exact .popped _ _ rfl
      | waiting entry called k => exact .same
  | outside o => exact .same
  | between b =>
    cases frames with
    | nil => exact .same
    | cons frame frames => exact .same

theorem entered_of_suffix (hresume : ∀ k a w w' k', C.resume k a w ≠ .waits w' k') (w : W)
    (events : List (Event I A O B)) {above : List (Frame W K)}
    (h : (run C w events).frames = above ++ .waiting entry called k :: frames) :
    Entered C w events entry called k frames := by
  induction events using List.reverseRecOn generalizing above entry called k frames with
  | nil =>
    change [] = above ++ .waiting entry called k :: frames at h
    exact absurd h.symm (by simp)
  | append_singleton events event ih =>
    rw [run_append_singleton] at h
    have hstep := step_frames hresume (run C w events) event
    rw [h] at hstep
    generalize hframes : above ++ .waiting entry called k :: frames = after at hstep
    cases hstep with
    | same => exact (ih hframes.symm).append event
    | popped frame frames' hpopped =>
      rw [← hframes] at hpopped
      exact (ih (show _ = (frame :: above) ++ _ from hpopped)).append event
    | foreign =>
      cases above with
      | nil => exact absurd (List.cons.inj hframes).1 (by simp)
      | cons frame above => exact (ih (List.cons.inj hframes).2.symm).append event
    | waiting i called' k' hevent hturn =>
      cases above with
      | nil =>
        obtain ⟨hframe, hrest⟩ := List.cons.inj hframes
        obtain ⟨rfl, rfl, rfl⟩ := Frame.waiting.inj hframe
        subst hevent hrest
        exact ⟨events, i, [], rfl, rfl, hturn⟩
      | cons frame above => exact (ih (List.cons.inj hframes).2.symm).append event

/-- A waiting call has its entry in the run. -/
theorem exists_entry (hresume : ∀ k a w w' k', C.resume k a w ≠ .waits w' k') (w : W)
    (events : List (Event I A O B)) (h : (run C w events).frames = .waiting entry called k :: frames) :
    Entered C w events entry called k frames := 
  entered_of_suffix hresume w events (show _ = [] ++ _ from h)

end Trustgraphs.CallStack
