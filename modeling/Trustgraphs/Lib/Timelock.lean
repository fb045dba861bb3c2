import Mathlib

/-!
# Timelocks

The history of a queue of delayed actions as a log of entries. An authority schedules tickets, an
identifier of a ticket may be cancelled, and a ticket whose delay is over may be executed; a rotation
of the authority starts a new generation and outdates all tickets of the earlier ones.

`Valid` says of every entry what an implementation checks when it makes it. The bookkeeping of an
implementation (a table of ready times, a nonce counter, a generation counter) follows the log when it
satisfies `Books`, and each operation of a timelock keeps `Books`. From a valid log, when no two of its
tickets share an identifier, follows what a timelock is for (`VetoWindow`).
-/

namespace Trustgraphs.Timelock

open List Option

/-- An action with the numbers that tell it from others. -/
@[ext]
structure Ticket (α : Type*) where
  generation : Nat
  nonce : Nat
  action : α
deriving DecidableEq

/-- What the log records of an action. -/
inductive Entry (β α ι : Type*) where
  | scheduled (scheduler : β) (ticket : Ticket α) (time : Nat)
  | cancelled (id : ι)
  | rotated (authority : β)
  | renounced
  | executed (ticket : Ticket α) (time : Nat)
deriving DecidableEq

variable {β α ι : Type*}

namespace Entry

/-- The entry schedules. -/
def isScheduled : Entry β α ι → Bool
  | .scheduled .. => true
  | _ => false

/-- The entry moves the authority. -/
def isRotated : Entry β α ι → Bool
  | .rotated _ => true
  | _ => false

/-- The ticket an entry is about. -/
def ticket? : Entry β α ι → Option (Ticket α)
  | .scheduled _ t _ => some t
  | .executed t _ => some t
  | _ => none

/-- The nonce executed. -/
def executedNonce? : Entry β α ι → Option Nat
  | .executed t _ => some t.nonce
  | _ => none

/-- The nonce scheduled. -/
def scheduledNonce? : Entry β α ι → Option Nat
  | .scheduled _ t _ => some t.nonce
  | _ => none

/-- The entry ends the life of the scheduled id. -/
def Closes (idOf : Ticket α → ι) (id : ι) : Entry β α ι → Prop
  | .cancelled id' => id' = id
  | .executed t _ => idOf t = id
  | _ => False

end Entry

/-- The entries in the order they were made. -/
abbrev Log (β α ι : Type*) := List (Entry β α ι)

namespace Log

/-- The authority after the log. -/
def authority (init : β) (log : Log β α ι) : β :=
  log.foldl (fun b e => match e with | .rotated b' => b' | _ => b) init

/-- How often the authority has moved. -/
def rotations (log : Log β α ι) : Nat := log.countP Entry.isRotated

/-- How often something was scheduled. -/
def schedules (log : Log β α ι) : Nat := log.countP Entry.isScheduled

/-- The tickets of the log. -/
def tickets (log : Log β α ι) : List (Ticket α) := log.filterMap Entry.ticket?

end Log

/-- The delays and the naming of tickets. -/
structure Rules (β α ι : Type*) where
  delay : Nat
  window : Nat
  /-- The first authority. -/
  init : β
  idOf : Ticket α → ι

variable (R : Rules β α ι)

/-- A scheduling of `id` that becomes ready at `ready` and has neither been cancelled nor executed. -/
def Live (log : Log β α ι) (id : ι) (ready : Nat) : Prop :=
  ∃ before scheduler t time after, log = before ++ .scheduled scheduler t time :: after ∧
    R.idOf t = id ∧ ready = time + R.delay ∧ ∀ e ∈ after, ¬ e.Closes R.idOf id

/-- What an implementation checks before it makes an entry. -/
def Admissible (before : Log β α ι) : Entry β α ι → Prop
  | .scheduled scheduler t _ => scheduler = before.authority R.init ∧
      t.generation = before.rotations ∧ t.nonce = before.schedules ∧ .renounced ∉ before
  | .executed t time => t.generation = before.rotations ∧ .renounced ∉ before ∧
      ∃ ready, Live R before (R.idOf t) ready ∧ ready ≤ time ∧ time ≤ ready + R.window
  | _ => True

/-- Every entry was admissible when it was made. -/
def Valid (log : Log β α ι) : Prop := ∀ before e after, log = before ++ e :: after → Admissible R before e

/-- The bookkeeping of an implementation: the table of ready times (zero where there is none), the
current authority, generation and nonce, and whether the authority has been renounced. -/
structure Books (log : Log β α ι) (readyAt : ι → Nat) (authority : β) (generation nonce : Nat)
    (renounced : Bool) : Prop where
  valid : Valid R log
  live : ∀ id, readyAt id ≠ 0 → Live R log id (readyAt id)
  authority : log.authority R.init = authority
  generation : log.rotations = generation
  nonce : log.schedules = nonce
  renounced : .renounced ∈ log ↔ renounced = true

/-- The execution of `t` at `time` was open to a veto: the authority of the time scheduled this very
ticket, the delay has passed and the window has not, and since then the ticket was neither cancelled
nor executed and the authority neither rotated nor renounced. -/
def Vetoable (before : Log β α ι) (t : Ticket α) (time : Nat) : Prop :=
  ∃ earlier scheduledAt since,
    before = earlier ++ .scheduled (Log.authority R.init earlier) t scheduledAt :: since ∧
    scheduledAt + R.delay ≤ time ∧ time ≤ scheduledAt + R.delay + R.window ∧
    .cancelled (R.idOf t) ∉ since ∧ (∀ b, .rotated b ∉ since) ∧ .renounced ∉ since ∧
    ∀ time', .executed t time' ∉ since

/-- What a timelock is for: every execution was open to a veto, and a scheduled ticket, which its
nonce names, is executed at most once. -/
structure VetoWindow (log : Log β α ι) : Prop where
  vetoable : ∀ before t time after, log = before ++ .executed t time :: after → Vetoable R before t time
  scheduled_once : (log.filterMap Entry.scheduledNonce?).Nodup
  executed_once : (log.filterMap Entry.executedNonce?).Nodup

/-! ## Logs that grow by one entry -/

variable {R}

section Grow

variable {log : Log β α ι}

@[simp]
theorem authority_concat (b : β) (e : Entry β α ι) :
    Log.authority b (log ++ [e]) = match e with | .rotated b' => b' | _ => log.authority b := by
  simp only [Log.authority, foldl_append, foldl_cons, foldl_nil]

@[simp]
theorem rotations_concat (e : Entry β α ι) :
    Log.rotations (log ++ [e]) = log.rotations + if e.isRotated then 1 else 0 := by
  simp [Log.rotations, countP_append, countP_cons]

@[simp]
theorem schedules_concat (e : Entry β α ι) :
    Log.schedules (log ++ [e]) = log.schedules + if e.isScheduled then 1 else 0 := by
  simp [Log.schedules, countP_append, countP_cons]

theorem Valid.concat (h : Valid R log) {e : Entry β α ι} (he : Admissible R log e) : Valid R (log ++ [e]) := by
  intro before e' after hsplit
  rcases eq_nil_or_concat after with rfl | ⟨after', x, rfl⟩
  · obtain ⟨h1, h2⟩ := append_inj' hsplit rfl
    obtain rfl : e = e' := by simpa using h2
    exact h1 ▸ he
  · have hsplit' : log ++ [e] = (before ++ e' :: after') ++ [x] := by
      rw [hsplit]; simp
    exact h before e' after' (append_inj' hsplit' rfl).1

theorem Live.concat {id : ι} {ready : Nat} (h : Live R log id ready) {e : Entry β α ι}
    (he : ¬ e.Closes R.idOf id) : Live R (log ++ [e]) id ready := by
  obtain ⟨before, scheduler, t, time, after, rfl, hid, hready, hopen⟩ := h
  refine ⟨before, scheduler, t, time, after ++ [e], by simp, hid, hready, ?_⟩
  intro e' he'
  rcases mem_append.mp he' with h | h
  · exact hopen e' h
  · rw [mem_singleton.mp h]
    exact he

end Grow

/-! ## The operations keep the books -/

section Operations

variable {log : Log β α ι} {readyAt readyAt' : ι → Nat} {authority : β} {generation nonce : Nat}
  {renounced : Bool}

theorem Books.empty (R : Rules β α ι) : Books R [] (fun _ => 0) R.init 0 0 false where
  valid before e after h := by simp at h
  live id h := absurd rfl h
  authority := rfl
  generation := rfl
  nonce := rfl
  renounced := by simp

theorem Books.schedule (h : Books R log readyAt authority generation nonce false) {t : Ticket α}
    {time : Nat} (hgen : t.generation = generation) (hnonce : t.nonce = nonce)
    (hat : readyAt' (R.idOf t) = time + R.delay) (hother : ∀ id, id ≠ R.idOf t → readyAt' id = readyAt id) :
    Books R (log ++ [.scheduled authority t time]) readyAt' authority generation (nonce + 1)
      false := by
  have hnot : .renounced ∉ log := fun hmem => absurd (h.renounced.mp hmem) (by simp)
  refine ⟨h.valid.concat ⟨h.authority.symm, hgen.trans h.generation.symm,
    hnonce.trans h.nonce.symm, hnot⟩, ?_, ?_, ?_, ?_, ?_⟩
  · intro id hid
    by_cases he : id = R.idOf t
    · subst he
      exact ⟨log, authority, t, time, [], rfl, rfl, hat, by simp⟩
    · rw [hother id he] at hid ⊢
      exact (h.live id hid).concat (fun hc => hc)
  · rw [authority_concat]; exact h.authority
  · rw [rotations_concat, h.generation]; rfl
  · rw [schedules_concat, h.nonce]; rfl
  · rw [mem_append, h.renounced]; simp

theorem Books.cancel (h : Books R log readyAt authority generation nonce renounced) {id : ι}
    (hat : readyAt' id = 0) (hother : ∀ id', id' ≠ id → readyAt' id' = readyAt id') :
    Books R (log ++ [.cancelled id]) readyAt' authority generation nonce renounced := by
  refine ⟨h.valid.concat trivial, ?_, ?_, ?_, ?_, ?_⟩
  · intro id' hid
    by_cases he : id' = id
    · exact absurd (he ▸ hat) hid
    · rw [hother id' he] at hid ⊢
      exact (h.live id' hid).concat (fun hc => he (Eq.symm hc))
  · rw [authority_concat]; exact h.authority
  · rw [rotations_concat, h.generation]; rfl
  · rw [schedules_concat, h.nonce]; rfl
  · rw [mem_append, h.renounced]; simp

theorem Books.rotate (h : Books R log readyAt authority generation nonce renounced) (authority' : β) :
    Books R (log ++ [.rotated authority']) readyAt authority' (generation + 1) nonce renounced := by
  refine ⟨h.valid.concat trivial, ?_, ?_, ?_, ?_, ?_⟩
  · exact fun id hid => (h.live id hid).concat (fun hc => hc)
  · rw [authority_concat]
  · rw [rotations_concat, h.generation]; rfl
  · rw [schedules_concat, h.nonce]; rfl
  · rw [mem_append, h.renounced]; simp

theorem Books.renounce (h : Books R log readyAt authority generation nonce renounced) :
    Books R (log ++ [.renounced]) readyAt authority generation nonce true := by
  refine ⟨h.valid.concat trivial, ?_, ?_, ?_, ?_, ?_⟩
  · exact fun id hid => (h.live id hid).concat (fun hc => hc)
  · rw [authority_concat]; exact h.authority
  · rw [rotations_concat, h.generation]; rfl
  · rw [schedules_concat, h.nonce]; rfl
  · simp

theorem Books.execute (h : Books R log readyAt authority generation nonce false) {t : Ticket α}
    {time : Nat} (hgen : t.generation = generation) (hready : readyAt (R.idOf t) ≠ 0)
    (hfrom : readyAt (R.idOf t) ≤ time) (huntil : time ≤ readyAt (R.idOf t) + R.window)
    (hat : readyAt' (R.idOf t) = 0) (hother : ∀ id, id ≠ R.idOf t → readyAt' id = readyAt id) :
    Books R (log ++ [.executed t time]) readyAt' authority generation nonce false := by
  have hnot : .renounced ∉ log := fun hmem => absurd (h.renounced.mp hmem) (by simp)
  refine ⟨h.valid.concat ⟨hgen.trans h.generation.symm, hnot, _, h.live _ hready, hfrom, huntil⟩,
    ?_, ?_, ?_, ?_, ?_⟩
  · intro id hid
    by_cases he : id = R.idOf t
    · exact absurd (he ▸ hat) hid
    · rw [hother id he] at hid ⊢
      exact (h.live id hid).concat (fun hc => he (Eq.symm hc))
  · rw [authority_concat]; exact h.authority
  · rw [rotations_concat, h.generation]; rfl
  · rw [schedules_concat, h.nonce]; rfl
  · rw [mem_append, h.renounced]; simp

end Operations

/-! ## What a valid log grants -/

section Grants

variable {log : Log β α ι}

theorem Valid.initial {before after : Log β α ι} (h : Valid R (before ++ after)) : Valid R before := by
  intro b e a hsplit
  exact h b e (a ++ after) (by rw [hsplit]; simp)

theorem split_unique {γ : Type*} {p : γ → Bool} {l₁ l₂ r₁ r₂ : List γ} {x y : γ}
    (h : l₁ ++ x :: r₁ = l₂ ++ y :: r₂) (hx : p x = true) (hy : p y = true)
    (hcount : l₁.countP p = l₂.countP p) : l₁ = l₂ ∧ x = y ∧ r₁ = r₂ := by
  induction l₁ generalizing l₂ with
  | nil =>
    cases l₂ with
    | nil => simpa using h
    | cons z l₂ =>
      obtain ⟨rfl, -⟩ := List.cons.inj h
      rw [countP_nil, countP_cons, if_pos hx] at hcount
      omega
  | cons z l₁ ih =>
    cases l₂ with
    | nil =>
      obtain ⟨rfl, -⟩ := List.cons.inj h
      rw [countP_nil, countP_cons, if_pos hy] at hcount
      omega
    | cons w l₂ =>
      obtain ⟨rfl, htail⟩ := List.cons.inj h
      rw [countP_cons, countP_cons] at hcount
      obtain ⟨rfl, hxy, hr⟩ := ih htail (by omega)
      exact ⟨rfl, hxy, hr⟩

theorem mem_tickets {e : Entry β α ι} {t : Ticket α} (he : e ∈ log) (ht : e.ticket? = some t) :
    t ∈ log.tickets :=
  mem_filterMap.mpr ⟨e, he, ht⟩

theorem Valid.vetoable (h : Valid R log) (hinj : Set.InjOn R.idOf {t | t ∈ log.tickets})
    {before after : Log β α ι} {t : Ticket α} {time : Nat}
    (hsplit : log = before ++ .executed t time :: after) : Vetoable R before t time := by
  obtain ⟨hgen, hrenounced, ready, ⟨earlier, scheduler, t', scheduledAt, since, hbefore, hid, hready,
    hopen⟩, hfrom, huntil⟩ := h before _ after hsplit
  have hmem : t ∈ log.tickets := mem_tickets (e := .executed t time) (by rw [hsplit]; simp) rfl
  have hmem' : t' ∈ log.tickets :=
    mem_tickets (e := .scheduled scheduler t' scheduledAt) (by rw [hsplit, hbefore]; simp) rfl
  obtain rfl : t' = t := hinj hmem' hmem hid
  -- the scheduling carried the generation of its time, which is still the current one
  obtain ⟨hscheduler, hgen', -, -⟩ := h earlier (.scheduled scheduler t' scheduledAt)
    (since ++ .executed t' time :: after) (by rw [hsplit, hbefore]; simp)
  have hnorot : since.countP Entry.isRotated = 0 := by
    rw [hgen] at hgen'
    rw [hbefore] at hgen'
    simp only [Log.rotations, countP_append, countP_cons, Entry.isRotated] at hgen'
    simp only [Bool.false_eq_true, if_false] at hgen'
    omega
  refine ⟨earlier, scheduledAt, since, by rw [hbefore, hscheduler], by omega, by omega, ?_, ?_, ?_, ?_⟩
  · exact fun hc => hopen _ hc rfl
  · intro b hb
    have hcount := countP_eq_zero.mp hnorot _ hb
    exact hcount rfl
  · exact fun hc => hrenounced (by rw [hbefore]; simp [hc])
  · exact fun time' hc => hopen _ hc rfl

theorem Valid.scheduledNonce_lt (h : Valid R log) {n : Nat}
    (hn : n ∈ log.filterMap Entry.scheduledNonce?) : n < log.schedules := by
  obtain ⟨e, he, hen⟩ := mem_filterMap.mp hn
  obtain ⟨before, after, rfl⟩ := append_of_mem he
  cases e with
  | scheduled scheduler t time =>
    obtain ⟨-, -, hnonce, -⟩ := h before _ after rfl
    obtain rfl : t.nonce = n := by simpa [Entry.scheduledNonce?] using hen
    rw [hnonce]
    simp only [Log.schedules, countP_append, countP_cons, Entry.isScheduled, if_true]
    omega
  | cancelled id => exact absurd hen (by simp [Entry.scheduledNonce?])
  | rotated authority => exact absurd hen (by simp [Entry.scheduledNonce?])
  | renounced => exact absurd hen (by simp [Entry.scheduledNonce?])
  | executed t time => exact absurd hen (by simp [Entry.scheduledNonce?])

theorem nodup_filterMap {γ δ : Type*} {f : γ → Option δ} {l : List γ}
    (h : ∀ before x between y after n, l = before ++ x :: (between ++ y :: after) →
      f x = some n → f y ≠ some n) : (l.filterMap f).Nodup := by
  rw [List.Nodup, pairwise_filterMap, pairwise_iff_forall_sublist]
  intro x y hsub n hn m hm hnm
  obtain ⟨l₁, l₂, rfl, hx, hy⟩ := cons_sublist_iff.mp hsub
  obtain ⟨b₁, a₁, rfl⟩ := append_of_mem hx
  obtain ⟨b₂, a₂, rfl⟩ := append_of_mem (singleton_sublist.mp hy)
  exact h b₁ x (a₁ ++ b₂) y a₂ n (by simp) hn (hnm ▸ hm)

theorem Valid.scheduledNonces_nodup (h : Valid R log) : (log.filterMap Entry.scheduledNonce?).Nodup := by
  refine nodup_filterMap fun before x between y after n hsplit hx hy => ?_
  cases y with
  | scheduled scheduler t time =>
    obtain rfl : t.nonce = n := some_inj.mp hy
    have hsplit' : log = (before ++ x :: between) ++ .scheduled scheduler t time :: after := by
      rw [hsplit]; simp
    obtain ⟨-, -, hnonce, -⟩ := h _ _ _ hsplit'
    have hbefore : Valid R (before ++ x :: between) := Valid.initial (hsplit' ▸ h)
    have hlt := hbefore.scheduledNonce_lt (mem_filterMap.mpr ⟨x, by simp, hx⟩)
    exact absurd hnonce hlt.ne
  | cancelled id => exact absurd hy (some_ne_none _).symm
  | rotated authority => exact absurd hy (some_ne_none _).symm
  | renounced => exact absurd hy (some_ne_none _).symm
  | executed t time => exact absurd hy (some_ne_none _).symm

theorem Valid.executed_nonce_ne (h : Valid R log) (hinj : Set.InjOn R.idOf {t | t ∈ log.tickets})
    {before between after : Log β α ι} {t₁ t₂ : Ticket α} {time₁ time₂ : Nat}
    (hsplit : log = before ++ .executed t₁ time₁ :: (between ++ .executed t₂ time₂ :: after)) :
    t₁.nonce ≠ t₂.nonce := by
  intro hsame
  have hsplit' : log = (before ++ .executed t₁ time₁ :: between) ++ .executed t₂ time₂ :: after := by
    rw [hsplit]; simp
  -- both executions go back to the scheduling with their nonce, which is one and the same
  obtain ⟨l₁, s₁, r₁, hl₁, -⟩ := h.vetoable hinj hsplit
  obtain ⟨l₂, s₂, r₂, hl₂, -, -, -, -, -, hnone⟩ := h.vetoable hinj hsplit'
  have hn₁ : t₁.nonce = Log.schedules l₁ :=
    (h l₁ (.scheduled (Log.authority R.init l₁) t₁ s₁) _ (by
      rw [hsplit, hl₁, append_assoc, cons_append])).2.2.1
  have hn₂ : t₂.nonce = Log.schedules l₂ :=
    (h l₂ (.scheduled (Log.authority R.init l₂) t₂ s₂) _ (by
      rw [hsplit', hl₂, append_assoc, cons_append])).2.2.1
  have heq : l₁ ++ .scheduled (Log.authority R.init l₁) t₁ s₁ :: (r₁ ++ .executed t₁ time₁ :: between) =
      l₂ ++ .scheduled (Log.authority R.init l₂) t₂ s₂ :: r₂ := by
    rw [← hl₂, hl₁]; simp
  have hcount : Log.schedules l₁ = Log.schedules l₂ := by omega
  obtain ⟨-, hxy, hr⟩ := split_unique heq rfl rfl hcount
  obtain ⟨-, rfl, -⟩ := Entry.scheduled.inj hxy
  exact hnone time₁ (by rw [← hr]; simp)

theorem Valid.executedNonces_nodup (h : Valid R log) (hinj : Set.InjOn R.idOf {t | t ∈ log.tickets}) :
    (log.filterMap Entry.executedNonce?).Nodup := by
  refine nodup_filterMap fun before x between y after n hsplit hx hy => ?_
  cases x with
  | executed t₁ time₁ =>
    cases y with
    | executed t₂ time₂ =>
      have hne := h.executed_nonce_ne hinj hsplit
      exact hne ((some_inj.mp hx).trans (some_inj.mp hy).symm)
    | scheduled scheduler t time => exact absurd hy (some_ne_none _).symm
    | cancelled id => exact absurd hy (some_ne_none _).symm
    | rotated authority => exact absurd hy (some_ne_none _).symm
    | renounced => exact absurd hy (some_ne_none _).symm
  | scheduled scheduler t time => exact absurd hx (some_ne_none _).symm
  | cancelled id => exact absurd hx (some_ne_none _).symm
  | rotated authority => exact absurd hx (some_ne_none _).symm
  | renounced => exact absurd hx (some_ne_none _).symm

/-- A valid log leaves a veto window before every execution. -/
theorem Valid.vetoWindow (h : Valid R log) (hinj : Set.InjOn R.idOf {t | t ∈ log.tickets}) :
    VetoWindow R log where
  vetoable _ _ _ _ hsplit := h.vetoable hinj hsplit
  scheduled_once := h.scheduledNonces_nodup
  executed_once := h.executedNonces_nodup hinj

end Grants

end Trustgraphs.Timelock
