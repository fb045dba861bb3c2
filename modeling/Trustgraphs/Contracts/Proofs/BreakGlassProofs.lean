import Trustgraphs.Contracts.DelayedRecoveryModule
import Trustgraphs.Contracts.ParentAuthorityModule
import Trustgraphs.Lib.Outcome

/-!
# The veto window of the break-glass modules

Both modules keep the books of a timelock over all interleavings of calls, calls from inside the
Safe included.
-/

namespace Trustgraphs

open Outcome Function List BitVec

theorem Operation.toUInt8_injective : Injective Operation.toUInt8 := by
  intro a b h
  cases a <;> cases b <;> first | rfl | exact absurd h (by decide)

theorem actionPreimage_inj {H : Hashes} {chainId chainId' : U256} {self : Address}
    {g g' n n' : U256} {a a' : SafeAction}
    (h : actionPreimage H chainId self g n a = actionPreimage H chainId' self g' n' a') :
    chainId = chainId' ∧ g = g' ∧ n = n' ∧ a.target = a'.target ∧ a.value = a'.value ∧
      H.keccak256 a.data = H.keccak256 a'.data ∧ a.operation = a'.operation := by
  simp only [actionPreimage, List.append_assoc] at h
  obtain ⟨hchain, h⟩ := append_inj h (by simp)
  obtain ⟨-, h⟩ := append_inj h (by simp)
  obtain ⟨hg, h⟩ := append_inj h (by simp)
  obtain ⟨hn, h⟩ := append_inj h (by simp)
  obtain ⟨htarget, h⟩ := append_inj h (by simp)
  obtain ⟨hvalue, h⟩ := append_inj h (by simp)
  obtain ⟨hdata, hop⟩ := append_inj h (by simp)
  exact ⟨wordU256_inj.mp hchain, wordU256_inj.mp hg, wordU256_inj.mp hn, wordAddr_inj.mp htarget,
    wordU256_inj.mp hvalue, FixedBytes.bytes_inj.mp hdata,
    Operation.toUInt8_injective (wordU8_inj.mp hop)⟩

/-- What a ticket of the modules is about: a chain and a Safe action. -/
abbrev ActionTicket := Timelock.Ticket (U256 × SafeAction)

/-- The identifier of a ticket in the module at `self`. -/
def actionId (H : Hashes) (self : Address) (t : ActionTicket) : B256 :=
  H.keccak256 (actionPreimage H t.action.1 self (BitVec.ofNat 256 t.generation)
    (BitVec.ofNat 256 t.nonce) t.action.2)

def actionIdHashed (H : Hashes) (self : Address) (t : ActionTicket) : List Bytes :=
  actionHashed H t.action.1 self (BitVec.ofNat 256 t.generation) (BitVec.ofNat 256 t.nonce) t.action.2

/-- The numbers of a ticket are those of the counters of a contract. -/
def FitsU256 (t : ActionTicket) : Prop := t.generation < 2 ^ 256 ∧ t.nonce < 2 ^ 256

theorem actionId_injOn {H : Hashes} {self : Address} {T : List ActionTicket} (hfits : ∀ t ∈ T, FitsU256 t)
    (hfree : Set.InjOn H.keccak256 {s | s ∈ T.flatMap (actionIdHashed H self)}) :
    Set.InjOn (actionId H self) {t | t ∈ T} := by
  intro t ht t' ht' h
  have hmem : ∀ u ∈ T, ∀ s ∈ actionIdHashed H self u, s ∈ T.flatMap (actionIdHashed H self) :=
    fun u hu s hs => mem_flatMap.mpr ⟨u, hu, hs⟩
  have hpre := hfree (hmem t ht _ (by simp [actionIdHashed, actionHashed]))
    (hmem t' ht' _ (by simp [actionIdHashed, actionHashed])) h
  obtain ⟨hchain, hg, hn, htarget, hvalue, hdata, hop⟩ := actionPreimage_inj hpre
  have hbytes : t.action.2.data = t'.action.2.data :=
    hfree (hmem t ht _ (by simp [actionIdHashed, actionHashed]))
      (hmem t' ht' _ (by simp [actionIdHashed, actionHashed])) hdata
  have hback : ∀ {m n : Nat}, m < 2 ^ 256 → n < 2 ^ 256 →
      (BitVec.ofNat 256 m : U256) = BitVec.ofNat 256 n → m = n := by
    intro m n hm hn e
    have e' := congrArg BitVec.toNat e
    rwa [BitVec.toNat_ofNat, BitVec.toNat_ofNat, Nat.mod_eq_of_lt hm, Nat.mod_eq_of_lt hn] at e'
  obtain ⟨hgt, hnt⟩ := hfits t ht
  obtain ⟨hgt', hnt'⟩ := hfits t' ht'
  exact Timelock.Ticket.ext (hback hgt hgt' hg) (hback hnt hnt' hn)
    (Prod.ext hchain (SafeAction.ext htarget hvalue hbytes hop))

theorem actionId_mk (H : Hashes) (self : Address) (generation nonce chainId : U256)
    (a : SafeAction) : actionId H self ⟨generation.toNat, nonce.toNat, (chainId, a)⟩ =
      H.keccak256 (actionPreimage H chainId self generation nonce a) := by
  simp [actionId]

theorem fits_mk (generation nonce : U256) (a : U256 × SafeAction) :
    FitsU256 ⟨generation.toNat, nonce.toNat, a⟩ := ⟨generation.isLt, nonce.isLt⟩

theorem fits_concat {log : DelayedRecoveryModule.Log} {e : Timelock.Entry Address (U256 × SafeAction) B256}
    (h : ∀ t ∈ log.tickets, FitsU256 t) (he : ∀ t, e.ticket? = some t → FitsU256 t) :
    ∀ t ∈ Timelock.Log.tickets (log ++ [e]), FitsU256 t := by
  intro t ht
  obtain ⟨e', he', hte⟩ := List.mem_filterMap.mp ht
  rcases mem_append.mp he' with hold | hnew
  · exact h t (List.mem_filterMap.mpr ⟨e', hold, hte⟩)
  · rw [List.mem_singleton.mp hnew] at hte
    exact he t hte

theorem toNat_update (readyAt : B256 → U256) (id id' : B256) (r : U256) : (update readyAt id r id').toNat =
      if id' = id then r.toNat else (readyAt id').toNat := by
  by_cases h : id' = id
  · rw [if_pos h, h, update_self]
  · rw [if_neg h, update_of_ne h]

theorem toNat_delay (delay : U48) : (delay.setWidth 256 : U256).toNat = delay.toNat := by
  rw [toNat_setWidth, Nat.mod_eq_of_lt]
  exact delay.isLt.trans (by norm_num)

theorem toNat_ne_zero {x : U256} (h : ¬ x = 0) : x.toNat ≠ 0 := fun e => h (eq_of_toNat_eq e)

/-- The books of a module whose counters and ready times are words. -/
structure Tracked (R : Timelock.Rules Address (U256 × SafeAction) B256) (log : DelayedRecoveryModule.Log)
    (readyAt : B256 → U256) (authority : Address) (generation nonce : U256) (renounced : Bool) : Prop where
  books : Timelock.Books R log (fun id => (readyAt id).toNat) authority generation.toNat nonce.toNat
    renounced
  fits : ∀ t ∈ log.tickets, FitsU256 t

section

variable {R : Timelock.Rules Address (U256 × SafeAction) B256} {log : DelayedRecoveryModule.Log}
  {readyAt : B256 → U256} {authority : Address} {generation nonce : U256} {renounced : Bool}

theorem Tracked.schedule (h : Tracked R log readyAt authority generation nonce false) {nextNonce at_ : U256}
    {time : Nat} (a : U256 × SafeAction) (hnonce : nextNonce.toNat = nonce.toNat + 1)
    (hat : at_.toNat = time + R.delay) :
    Tracked R (log ++ [.scheduled authority ⟨generation.toNat, nonce.toNat, a⟩ time])
      (update readyAt (R.idOf ⟨generation.toNat, nonce.toNat, a⟩) at_) authority generation nextNonce
      false := by
  refine ⟨?_, fits_concat h.fits fun t ht => ?_⟩
  · rw [hnonce]
    refine h.books.schedule rfl rfl ?_ fun id hne => ?_
    · rw [toNat_update, if_pos rfl, hat]
    · rw [toNat_update, if_neg hne]
  · rw [← Option.some_inj.mp ht]
    exact fits_mk _ _ _

theorem Tracked.execute (h : Tracked R log readyAt authority generation nonce false) {n : U256} {time : Nat}
    {a : U256 × SafeAction} {id : B256} (hid : R.idOf ⟨generation.toNat, n.toNat, a⟩ = id)
    (hready : (readyAt id).toNat ≠ 0) (hfrom : (readyAt id).toNat ≤ time)
    (huntil : time ≤ (readyAt id).toNat + R.window) :
    Tracked R (log ++ [.executed ⟨generation.toNat, n.toNat, a⟩ time]) (update readyAt id 0) authority
      generation nonce false := by
  subst hid
  refine ⟨h.books.execute rfl hready hfrom huntil ?_ fun id hne => ?_, fits_concat h.fits fun t ht => ?_⟩
  · rw [toNat_update, if_pos rfl]
    rfl
  · rw [toNat_update, if_neg hne]
  · rw [← Option.some_inj.mp ht]
    exact fits_mk _ _ _

theorem Tracked.cancel (h : Tracked R log readyAt authority generation nonce renounced) (id : B256) :
    Tracked R (log ++ [.cancelled id]) (update readyAt id 0) authority generation nonce renounced := by
  refine ⟨h.books.cancel ?_ fun id' hne => ?_, fits_concat h.fits nofun⟩
  · rw [toNat_update, if_pos rfl]
    rfl
  · rw [toNat_update, if_neg hne]

theorem Tracked.rotate (h : Tracked R log readyAt authority generation nonce renounced) {next : U256}
    (hnext : next.toNat = generation.toNat + 1) (authority' : Address) :
    Tracked R (log ++ [.rotated authority']) readyAt authority' next nonce renounced :=
  ⟨hnext ▸ h.books.rotate authority', fits_concat h.fits nofun⟩

theorem Tracked.renounce (h : Tracked R log readyAt authority generation nonce renounced) :
    Tracked R (log ++ [.renounced]) readyAt authority generation nonce true :=
  ⟨h.books.renounce, fits_concat h.fits nofun⟩

theorem Tracked.empty (R : Timelock.Rules Address (U256 × SafeAction) B256) :
    Tracked R [] (fun _ => 0) R.init 0 0 false :=
  ⟨Timelock.Books.empty R, nofun⟩

end

namespace DelayedRecoveryModule

variable {H : Hashes} {c : Config} {msg : Msg} {s s' : State}

def rules (H : Hashes) (c : Config) (init : Address) : Timelock.Rules Address (U256 × SafeAction) B256 :=
  ⟨c.delay.toNat, EXECUTION_WINDOW.toNat, init, actionId H c.self⟩

theorem add_eq_ok {a b r : U256} : add a b = .ok r ↔ r.toNat = a.toNat + b.toNat := by
  rw [← Checked.add_eq_some, add]
  cases Checked.add a b with
  | none => simp
  | some q => simp

theorem schedule_spec {a : SafeAction} {id : B256} (h : schedule H c msg s a = .ok (s', id)) :
    msg.sender = s.proposer ∧ ∃ nextNonce executableAt : U256, nextNonce.toNat = s.nextNonce.toNat + 1 ∧
      executableAt.toNat = msg.blockTimestamp.toNat + c.delay.toNat ∧
      s' = { s with
        nextNonce := nextNonce
        readyAt := update s.readyAt (hashAction H c msg s s.nextNonce a) executableAt } := by
  unfold schedule at h
  obtain ⟨hsender, h⟩ := of_guard h
  obtain ⟨-, h⟩ := of_guard h
  obtain ⟨nextNonce, hnonce, h⟩ := of_bind h
  obtain ⟨executableAt, hat, h⟩ := of_bind h
  have hnonce' := add_eq_ok.mp hnonce
  have hat' := add_eq_ok.mp hat
  rw [toNat_delay] at hat'
  refine ⟨not_not.mp hsender, nextNonce, executableAt, hnonce', hat', ?_⟩
  exact (Prod.mk.inj (ok_inj h)).1.symm

theorem execute_spec {nonce : U256} {a : SafeAction} (h : execute H c msg s nonce a = .ok s') :
    (s.readyAt (hashAction H c msg s nonce a)).toNat ≠ 0 ∧
      (s.readyAt (hashAction H c msg s nonce a)).toNat ≤ msg.blockTimestamp.toNat ∧
      msg.blockTimestamp.toNat ≤ (s.readyAt (hashAction H c msg s nonce a)).toNat + EXECUTION_WINDOW.toNat ∧
      s' = { s with readyAt := update s.readyAt (hashAction H c msg s nonce a) 0 } := by
  unfold execute at h
  obtain ⟨hready, h⟩ := of_guard h
  obtain ⟨hfrom, h⟩ := of_guard h
  obtain ⟨expiresAt, hexp, h⟩ := of_bind h
  obtain ⟨huntil, h⟩ := of_guard h
  have hexp' := add_eq_ok.mp hexp
  rw [lt_def] at hfrom huntil
  exact ⟨toNat_ne_zero hready, by omega, by omega, (ok_inj h).symm⟩

theorem cancel_spec {id : B256} (h : cancel c msg s id = .ok s') :
    s' = { s with readyAt := update s.readyAt id 0 } := by
  unfold cancel at h
  obtain ⟨-, h⟩ := of_guard h
  obtain ⟨-, h⟩ := of_guard h
  exact (ok_inj h).symm

theorem setProposer_spec {newProposer : Address} (h : setProposer c msg s newProposer = .ok s') :
    ∃ generation : U256, generation.toNat = s.proposerGeneration.toNat + 1 ∧
      s' = { s with proposer := newProposer, proposerGeneration := generation } := by
  unfold setProposer at h
  obtain ⟨-, h⟩ := of_guard h
  obtain ⟨-, h⟩ := of_guard h
  obtain ⟨generation, hgen, h⟩ := of_bind h
  exact ⟨generation, add_eq_ok.mp hgen, (ok_inj h).symm⟩

def Tracks (H : Hashes) (c : Config) (init : Address) (s : State × Log) : Prop :=
  Tracked (rules H c init) s.2 s.1.readyAt s.1.proposer s.1.proposerGeneration s.1.nextNonce false

theorem call_tracks {init : Address} {i : Msg × Call} {s s' : State × Log} {b : Bool}
    (h : Tracks H c init s) (hcall : call H c i s = some (s', b)) : Tracks H c init s' := by
  obtain ⟨msg, f⟩ := i
  obtain ⟨s, log⟩ := s
  have hid : ∀ nonce a, (rules H c init).idOf (ticket msg s nonce a) = hashAction H c msg s nonce a :=
    fun nonce a => actionId_mk H c.self s.proposerGeneration nonce msg.chainId a
  cases f <;> simp only [call] at hcall <;> split at hcall <;> cases hcall
  next a _ _ _ hs =>
    obtain ⟨hsender, nextNonce, executableAt, hnonce, hat, rfl⟩ := schedule_spec hs
    rw [hsender, ← hid]
    exact h.schedule _ hnonce hat
  next nonce a _ _ hs =>
    obtain ⟨hready, hfrom, huntil, rfl⟩ := execute_spec hs
    exact Tracked.execute h (hid nonce a) hready hfrom huntil
  next id _ _ hs =>
    obtain rfl := cancel_spec hs
    exact Tracked.cancel h id
  next newProposer _ _ hs =>
    obtain ⟨generation, hgen, rfl⟩ := setProposer_spec hs
    exact Tracked.rotate h hgen newProposer

theorem constructor_tracks {self safe_ proposer_ : Address} {delay_ : U48} {c : Config} {s : State}
    (h : constructor self safe_ proposer_ delay_ = .ok (c, s)) : Tracks H c s.proposer (s, []) := by
  unfold constructor at h
  obtain ⟨-, h⟩ := of_guard h
  obtain ⟨-, h⟩ := of_guard h
  obtain ⟨rfl, rfl⟩ := Prod.mk.inj (ok_inj h)
  exact Tracked.empty (rules H _ _)

theorem run_tracks {self safe_ proposer_ : Address} {delay_ : U48} {c : Config} {s : State}
    (h : constructor self safe_ proposer_ delay_ = .ok (c, s))
    (events : List Event) : Tracks H c s.proposer (run H c s events).world :=
  CallStack.relaying_holds (fun _ _ _ _ hs hc => call_tracks hs hc) (constructor_tracks h) events

end DelayedRecoveryModule

namespace ParentAuthorityModule

variable {H : Hashes} {c : Config} {msg : Msg} {s s' : State}

def rules (H : Hashes) (c : Config) (init : Address) : Timelock.Rules Address (U256 × SafeAction) B256 :=
  ⟨c.executionDelay.toNat, EXECUTION_WINDOW.toNat, init, actionId H c.self⟩

theorem add_eq_ok {a b r : U256} : add a b = .ok r ↔ r.toNat = a.toNat + b.toNat := by
  rw [← Checked.add_eq_some, add]
  cases Checked.add a b with
  | none => simp
  | some q => simp

theorem execute_delayed (hdelay : c.executionDelay ≠ 0) (a : SafeAction) : execute c msg s a ≠ .ok s' := by
  intro h
  unfold execute at h
  obtain ⟨-, h⟩ := of_guard h
  exact (of_guard h).1 hdelay

theorem schedule_spec {a : SafeAction} {id : B256} (h : schedule H c msg s a = .ok (s', id)) :
    s.renounced = false ∧ msg.sender = s.parentAuthority ∧ ∃ nextNonce executableAt : U256,
      nextNonce.toNat = s.nextNonce.toNat + 1 ∧
      executableAt.toNat = msg.blockTimestamp.toNat + c.executionDelay.toNat ∧
      s' = { s with
        nextNonce := nextNonce
        readyAt := update s.readyAt (hashAction H c msg s s.nextNonce a) executableAt } := by
  unfold schedule at h
  obtain ⟨hren, h⟩ := of_guard h
  obtain ⟨-, h⟩ := of_guard h
  obtain ⟨hsender, h⟩ := of_guard h
  obtain ⟨-, h⟩ := of_guard h
  obtain ⟨nextNonce, hnonce, h⟩ := of_bind h
  obtain ⟨executableAt, hat, h⟩ := of_bind h
  have hnonce' := add_eq_ok.mp hnonce
  have hat' := add_eq_ok.mp hat
  rw [toNat_delay] at hat'
  refine ⟨by simpa using hren, not_not.mp hsender, nextNonce, executableAt, hnonce', hat', ?_⟩
  exact (Prod.mk.inj (ok_inj h)).1.symm

theorem executeScheduled_spec {nonce : U256} {a : SafeAction}
    (h : executeScheduled H c msg s nonce a = .ok s') :
    s.renounced = false ∧ (s.readyAt (hashAction H c msg s nonce a)).toNat ≠ 0 ∧
      (s.readyAt (hashAction H c msg s nonce a)).toNat ≤ msg.blockTimestamp.toNat ∧
      msg.blockTimestamp.toNat ≤ (s.readyAt (hashAction H c msg s nonce a)).toNat + EXECUTION_WINDOW.toNat ∧
      s' = { s with readyAt := update s.readyAt (hashAction H c msg s nonce a) 0 } := by
  unfold executeScheduled at h
  obtain ⟨hren, h⟩ := of_guard h
  obtain ⟨hready, h⟩ := of_guard h
  obtain ⟨hfrom, h⟩ := of_guard h
  obtain ⟨expiresAt, hexp, h⟩ := of_bind h
  obtain ⟨huntil, h⟩ := of_guard h
  have hexp' := add_eq_ok.mp hexp
  rw [lt_def] at hfrom huntil
  exact ⟨by simpa using hren, toNat_ne_zero hready, by omega, by omega, (ok_inj h).symm⟩

theorem cancel_spec {id : B256} (h : cancel c msg s id = .ok s') :
    s' = { s with readyAt := update s.readyAt id 0 } := by
  unfold cancel at h
  obtain ⟨-, h⟩ := of_guard h
  obtain ⟨-, h⟩ := of_guard h
  exact (ok_inj h).symm

theorem renounce_spec (h : renounce msg s = .ok s') : s' = { s with renounced := true } := by
  unfold renounce at h
  obtain ⟨-, h⟩ := of_guard h
  obtain ⟨-, h⟩ := of_guard h
  exact (ok_inj h).symm

theorem setParentAuthority_spec {newAuthority : Address}
    (h : setParentAuthority c msg s newAuthority = .ok s') :
    ∃ generation : U256, generation.toNat = s.authorityGeneration.toNat + 1 ∧
      s' = { s with parentAuthority := newAuthority, authorityGeneration := generation } := by
  unfold setParentAuthority at h
  obtain ⟨-, h⟩ := of_guard h
  obtain ⟨-, h⟩ := of_guard h
  obtain ⟨-, h⟩ := of_guard h
  obtain ⟨generation, hgen, h⟩ := of_bind h
  exact ⟨generation, add_eq_ok.mp hgen, (ok_inj h).symm⟩

def Tracks (H : Hashes) (c : Config) (init : Address) (s : State × Log) : Prop :=
  Tracked (rules H c init) s.2 s.1.readyAt s.1.parentAuthority s.1.authorityGeneration s.1.nextNonce
    s.1.renounced

theorem call_tracks {init : Address} (hdelay : c.executionDelay ≠ 0) {i : Msg × Call}
    {s s' : State × Log} {b : Bool} (h : Tracks H c init s) (hcall : call H c i s = some (s', b)) :
    Tracks H c init s' := by
  obtain ⟨msg, f⟩ := i
  obtain ⟨s, log⟩ := s
  have hid : ∀ nonce a, (rules H c init).idOf (ticket msg s nonce a) = hashAction H c msg s nonce a :=
    fun nonce a => actionId_mk H c.self s.authorityGeneration nonce msg.chainId a
  cases f <;> simp only [call] at hcall <;> split at hcall <;> cases hcall
  next a _ _ hs => exact absurd hs (execute_delayed hdelay a)
  next a _ _ _ hs =>
    obtain ⟨hren, hsender, nextNonce, executableAt, hnonce, hat, rfl⟩ := schedule_spec hs
    unfold Tracks at h ⊢
    rw [hren] at h
    rw [hren, hsender, ← hid]
    exact h.schedule _ hnonce hat
  next nonce a _ _ hs =>
    obtain ⟨hren, hready, hfrom, huntil, rfl⟩ := executeScheduled_spec hs
    unfold Tracks at h ⊢
    rw [hren] at h
    rw [hren]
    exact h.execute (hid nonce a) hready hfrom huntil
  next id _ _ hs =>
    obtain rfl := cancel_spec hs
    exact Tracked.cancel h id
  next _ _ hs =>
    obtain rfl := renounce_spec hs
    exact Tracked.renounce h
  next newAuthority _ _ hs =>
    obtain ⟨generation, hgen, rfl⟩ := setParentAuthority_spec hs
    exact Tracked.rotate h hgen newAuthority

theorem constructor_spec {w : World} {self safe_ : Address} {child parent : B256} {delay_ : U48}
    {c : Config} {s : State} (h : constructor w self safe_ child parent delay_ = .ok (c, s)) :
    c.executionDelay = delay_ ∧ Tracks H c s.parentAuthority (s, []) := by
  unfold constructor at h
  obtain ⟨-, h⟩ := of_guard h
  obtain ⟨-, h⟩ := of_guard h
  obtain ⟨-, h⟩ := of_guard h
  obtain ⟨childAuthority, -, h⟩ := of_bind h
  obtain ⟨-, h⟩ := of_guard h
  obtain ⟨parentAuthority, -, h⟩ := of_bind h
  obtain ⟨rfl, rfl⟩ := Prod.mk.inj (ok_inj h)
  exact ⟨rfl, Tracked.empty (rules H _ _)⟩

theorem run_tracks {w : World} {self safe_ : Address} {child parent : B256} {delay_ : U48}
    {c : Config} {s : State} (h : constructor w self safe_ child parent delay_ = .ok (c, s))
    (hdelay : delay_ ≠ 0) (events : List Event) : Tracks H c s.parentAuthority (run H c s events).world := by
  obtain ⟨hc, htracks⟩ := constructor_spec (H := H) h
  have hdelay' : c.executionDelay ≠ 0 := by rwa [hc]
  exact CallStack.relaying_holds (fun _ _ _ _ hs hcall => call_tracks hdelay' hs hcall) htracks events

end ParentAuthorityModule

/-- The strings that are hashed for the tickets of a log. -/
def logHashed (H : Hashes) (self : Address) (log : DelayedRecoveryModule.Log) : List Bytes :=
  log.tickets.flatMap (actionIdHashed H self)

/-- Break-glass actions have a veto window that cannot be skipped, in every run of either module and
with any calls from inside the Safe, when keccak256 has no collision on the actions of the run. -/
theorem breakGlass_vetoWindow (H : Hashes) :
    (∀ (self safe_ proposer_ : Address) (delay_ : U48) (c : DelayedRecoveryModule.Config)
      (s : DelayedRecoveryModule.State),
      DelayedRecoveryModule.constructor self safe_ proposer_ delay_ = .ok (c, s) →
      ∀ events log, (DelayedRecoveryModule.run H c s events).world.2 = log →
        Set.InjOn H.keccak256 {x | x ∈ logHashed H c.self log} →
        Timelock.VetoWindow (DelayedRecoveryModule.rules H c s.proposer) log) ∧
    (∀ (w : ParentAuthorityModule.World) (self safe_ : Address) (child parent : B256) (delay_ : U48)
      (c : ParentAuthorityModule.Config) (s : ParentAuthorityModule.State),
      ParentAuthorityModule.constructor w self safe_ child parent delay_ = .ok (c, s) →
      delay_ ≠ 0 →
      ∀ events log, (ParentAuthorityModule.run H c s events).world.2 = log →
        Set.InjOn H.keccak256 {x | x ∈ logHashed H c.self log} →
        Timelock.VetoWindow (ParentAuthorityModule.rules H c s.parentAuthority) log) := by
  constructor
  · rintro self safe_ proposer_ delay_ c s hc events log rfl hfree
    have h := DelayedRecoveryModule.run_tracks (H := H) hc events
    exact h.books.valid.vetoWindow (actionId_injOn h.fits hfree)
  · rintro w self safe_ child parent delay_ c s hc hdelay events log rfl hfree
    have h := ParentAuthorityModule.run_tracks (H := H) hc hdelay events
    exact h.books.valid.vetoWindow (actionId_injOn h.fits hfree)

namespace BreakGlassExample

def addr (b : UInt8) : Address := .replicate 20 b

def action : SafeAction := ⟨addr 6, 0, [171, 205], .call⟩

def dataHash : B256 := .ofNat 32 0xdbe576b4818846aa77e82f4ed5fa78f92766b141f282d36703886d196df39322

def id : B256 := .ofNat 32 0x2c81f2ce9a455b7f563e066c24179aded3f183ded763fae16dcecc0ba9274811

def keccak256 (s : Bytes) : B256 :=
  if s = action.data then dataHash
  else if s = wordU256 1 ++ wordAddr (addr 4) ++ wordU256 0 ++ wordU256 0 ++ wordAddr action.target ++
    wordU256 0 ++ dataHash.bytes ++ wordU8 0 then id
  else 0

def hashes : Hashes := ⟨keccak256, fun _ => 0⟩

def msg (sender : Address) (blockTimestamp : U256) : Msg := ⟨sender, blockTimestamp, 1⟩

def ticket : ActionTicket := ⟨0, 0, (1, action)⟩

def log (delay : Nat) : DelayedRecoveryModule.Log :=
  [.scheduled (addr 5) ticket 1000, .executed ticket (1000 + delay)]

theorem log_free (delay : Nat) :
    Set.InjOn hashes.keccak256 {x | x ∈ logHashed hashes (addr 4) (log delay)} := by
  have hlog : logHashed hashes (addr 4) (log delay) = logHashed hashes (addr 4) (log 0) := rfl
  rw [hlog]
  have hdec : ∀ x ∈ logHashed hashes (addr 4) (log 0), ∀ y ∈ logHashed hashes (addr 4) (log 0),
      hashes.keccak256 x = hashes.keccak256 y → x = y := by decide +kernel
  exact fun x hx y hy => hdec x hx y hy

def recoveryEvents : List DelayedRecoveryModule.Event :=
  [.enter (msg (addr 5) 1000, .schedule action), .enter (msg (addr 9) 1210600, .execute 0 action),
    .enter (msg (addr 3) 1210600, .execute 0 action), .enter (msg (addr 3) 1210600, .cancel id),
    .answer (some ())]

def parentEvents : List ParentAuthorityModule.Event :=
  [.enter (msg (addr 5) 1000, .schedule action), .enter (msg (addr 9) 87400, .executeScheduled 0 action),
    .enter (msg (addr 3) 87400, .executeScheduled 0 action), .enter (msg (addr 3) 87400, .cancel id),
    .answer (some ())]

def world : ParentAuthorityModule.World :=
  ⟨addr 2, fun _ => true, fun id => if id = .ofNat 32 1 then addr 3 else addr 5, fun _ => none⟩

end BreakGlassExample

open BreakGlassExample in
/-- In a run of either module an action is executed once, as soon as its delay is over. -/
theorem breakGlass_vetoWindow_executed :
    Timelock.VetoWindow (DelayedRecoveryModule.rules hashes ⟨addr 4, addr 3, 1209600⟩ (addr 5)) (log 1209600) ∧
    Timelock.VetoWindow (ParentAuthorityModule.rules hashes
      ⟨addr 4, addr 3, .ofNat 32 1, .ofNat 32 2, 86400⟩ (addr 5)) (log 86400) := by
  have h := breakGlass_vetoWindow hashes
  constructor
  · refine h.1 (addr 4) (addr 3) (addr 5) 1209600 ⟨addr 4, addr 3, 1209600⟩
      ⟨addr 5, 0, 0, fun _ => 0⟩ ?_ recoveryEvents _ ?_ (log_free 1209600)
    · have hsafe : ¬ (addr 3 = 0 ∨ addr 5 = 0) := by decide
      have hdelay : ¬ (1209600 : U48) < DelayedRecoveryModule.MIN_DELAY := by decide
      rw [DelayedRecoveryModule.constructor, if_neg hsafe, if_neg hdelay]
    · decide +kernel
  · refine h.2 world (addr 4) (addr 3) (.ofNat 32 1) (.ofNat 32 2) 86400
      ⟨addr 4, addr 3, .ofNat 32 1, .ofNat 32 2, 86400⟩ ⟨0, addr 5, 0, false, fun _ => 0⟩ ?_
      (by decide) parentEvents _ ?_ (log_free 86400)
    · rfl
    · decide +kernel

end Trustgraphs
