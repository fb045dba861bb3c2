import Trustgraphs.Contracts.AttestationAccumulator

/-!
# Every checkpoint commits to all events before it

Whatever the order of folds, checkpoints and reverted calls, the running state is the accumulator of
the events folded so far (`Tracks`), and a checkpoint freezes that state.
-/

namespace Trustgraphs.AttestationAccumulator

open List Option

variable {H : Hashes}

/-- The running state of the lane is that of the edges folded so far. -/
structure Tracks (H : Hashes) (s : State) (edges : List RawEdge) : Prop where
  acc : s.acc = (accumulate H edges).1
  count : s.leafCount.toNat = edges.length

theorem Tracks.accumulate_eq {s : State} {edges : List RawEdge} (h : Tracks H s edges) :
    (s.acc, s.leafCount) = accumulate H edges := by
  refine Prod.ext h.acc ?_
  change s.leafCount = UInt64.ofNat edges.length
  rw [← h.count, UInt64.ofNat_toNat]

theorem accumulate_append (edges : List RawEdge) (e : RawEdge) :
    (accumulate H (edges ++ [e])).1 = Trustgraphs.fold H (accumulate H edges).1 (e.leaf H) := by
  simp [accumulate]

theorem leafPreimage_eq (e : Event) {timestamp : U256} (ht : timestamp.toNat < 2 ^ 64) (d : B256) :
    leafPreimage e.kind e.attester e.recipient e.uid timestamp d =
      edgePreimage e.kind e.attester e.recipient e.uid (e.edge timestamp).blockTimestamp d := by
  have hback : (BitVec.ofNat 256 (UInt64.ofNat timestamp.toNat).toNat : U256) = timestamp := by
    rw [UInt64.toNat_ofNat', Nat.mod_eq_of_lt ht, BitVec.ofNat_toNat, BitVec.setWidth_eq]
  simp only [leafPreimage, edgePreimage, Event.edge, hback]

theorem foldAt_spec {s s' : State} {edges : List RawEdge} (h : Tracks H s edges) {e : Event}
    {timestamp : U256} (ht : timestamp.toNat < 2 ^ 64)
    (hs : foldAt H s e.kind e.attester e.recipient e.uid timestamp (H.keccak256 e.data) = some s') :
    Tracks H s' (edges ++ [e.edge timestamp]) ∧ s'.checkpoints = s.checkpoints := by
  unfold foldAt at hs
  by_cases hlt : s.leafCount.toNat + 1 < 2 ^ 64
  · simp only [if_pos hlt, some_inj] at hs
    subst hs
    refine ⟨⟨?_, ?_⟩, rfl⟩
    · rw [accumulate_append, ← h.acc]
      simp only [leafPreimage_eq e ht]
      rfl
    · have h1 : (1 : UInt64).toNat = 1 := rfl
      rw [length_append, length_singleton, ← h.count]
      show (s.leafCount + 1).toNat = s.leafCount.toNat + 1
      rw [UInt64.toNat_add, h1, Nat.mod_eq_of_lt hlt]
  · simp only [if_neg hlt, reduceCtorEq] at hs

theorem call_cases {env : Env} {s s' : State} {c : Call} (h : call H env s c = some s') :
    (∃ e timestamp, foldedBy (env, c) = some (e, timestamp) ∧
      foldAt H s e.kind e.attester e.recipient e.uid timestamp (H.keccak256 e.data) = some s') ∨
    (c = .checkpoint ∧ foldedBy (env, c) = none ∧ s' = { s with
        checkpoints := s.checkpoints ++ [⟨s.acc, s.leafCount, UInt64.ofNat env.blockNumber.toNat⟩] }) ∨
    ((∃ snapshot reads, c = .bindSnapshot snapshot reads) ∧ foldedBy (env, c) = none ∧
      ∃ snapshot, s' = { s with snapshot := snapshot }) := by
  cases c with
  | fold e => exact .inl ⟨e, env.blockTimestamp, rfl, h⟩
  | foldAt e timestamp => exact .inl ⟨e, timestamp, rfl, h⟩
  | checkpoint =>
    simp only [call, checkpoint] at h
    split at h
    · exact absurd h (by simp)
    · exact .inr (.inl ⟨rfl, rfl, (some_inj.mp h).symm⟩)
  | bindSnapshot snapshot reads =>
    refine .inr (.inr ⟨⟨snapshot, reads, rfl⟩, rfl, snapshot, ?_⟩)
    simp only [call, bindSnapshot] at h
    split at h
    · exact absurd h (by simp)
    · split at h
      · exact absurd h (by simp)
      · split at h
        · exact absurd h (by simp)
        · split at h
          · exact absurd h (by simp)
          · exact (some_inj.mp h).symm

def TimestampFits (c : Env × Call) : Prop :=
  ∀ e timestamp, foldedBy c = some (e, timestamp) → timestamp.toNat < 2 ^ 64

def foldedOne (H : Hashes) (s : State) (c : Env × Call) : List RawEdge := folded H s [c]

theorem folded_cons (s : State) (c : Env × Call) (calls : List (Env × Call)) :
    folded H s (c :: calls) = foldedOne H s c ++ folded H (apply H s c) calls := by
  simp only [foldedOne, folded, apply]
  cases hf : foldedBy c with
  | none => rfl
  | some p =>
    cases hc : call H c.1 s c.2 with
    | none => rfl
    | some s' => rfl

theorem apply_spec {s : State} {edges : List RawEdge} (h : Tracks H s edges) {c : Env × Call}
    (ht : TimestampFits c) :
    Tracks H (apply H s c) (edges ++ foldedOne H s c) ∧ ((apply H s c).checkpoints = s.checkpoints ∨
        c.2 = .checkpoint ∧ ∃ n, (apply H s c).checkpoints = s.checkpoints ++ [⟨s.acc, s.leafCount, n⟩]) := by
  obtain ⟨env, c⟩ := c
  simp only [apply, foldedOne, folded]
  cases hc : call H env s c with
  | none =>
    refine ⟨?_, .inl rfl⟩
    cases hf : foldedBy (env, c) with
    | none => simpa [folded] using h
    | some p => simpa [folded] using h
  | some s' =>
    rcases call_cases hc with ⟨e, timestamp, hf, hs⟩ | ⟨rfl, hf, rfl⟩ | ⟨-, hf, snapshot, rfl⟩
    · obtain ⟨htr, hcp⟩ := foldAt_spec h (ht e timestamp hf) hs
      rw [hf]
      exact ⟨htr, .inl hcp⟩
    · rw [hf]
      exact ⟨⟨by simpa [folded] using h.acc, by simpa [folded] using h.count⟩, .inr ⟨rfl, _, rfl⟩⟩
    · rw [hf]
      exact ⟨⟨by simpa [folded] using h.acc, by simpa [folded] using h.count⟩, .inl rfl⟩

theorem run_append (s : State) (calls calls' : List (Env × Call)) :
    run H s (calls ++ calls') = run H (run H s calls) calls' := foldl_append ..

theorem folded_append (s : State) (calls calls' : List (Env × Call)) :
    folded H s (calls ++ calls') = folded H s calls ++ folded H (run H s calls) calls' := by
  induction calls generalizing s with
  | nil => rfl
  | cons c calls ih =>
    rw [cons_append, folded_cons, folded_cons, ih, append_assoc]
    rfl

theorem run_tracks (binder : Address) (calls : List (Env × Call)) (ht : ∀ c ∈ calls, TimestampFits c) :
    Tracks H (run H (constructor binder) calls) (folded H (constructor binder) calls) := by
  induction calls using List.reverseRecOn with
  | nil => exact ⟨rfl, rfl⟩
  | append_singleton calls c ih =>
    have htr := ih fun d hd => ht d (mem_append_left _ hd)
    rw [run_append, folded_append]
    exact (apply_spec htr (ht c (by simp))).1

theorem checkpoint_origin (binder : Address) (calls : List (Env × Call))
    (ht : ∀ c ∈ calls, TimestampFits c) (id : Nat) (cp : Checkpoint)
    (hcp : (run H (constructor binder) calls).checkpoints[id]? = some cp) :
    ∃ before env after, calls = before ++ (env, .checkpoint) :: after ∧
      (run H (constructor binder) before).checkpoints.length = id ∧
      (cp.acc, cp.leafCount) = accumulate H (folded H (constructor binder) before) := by
  induction calls using List.reverseRecOn with
  | nil => simp [run, constructor] at hcp
  | append_singleton calls c ih =>
    have ht' : ∀ d ∈ calls, TimestampFits d := fun d hd => ht d (mem_append_left _ hd)
    have htr := run_tracks (H := H) binder calls ht'
    have hlift : (run H (constructor binder) calls).checkpoints[id]? = some cp →
        ∃ before env after, calls ++ [c] = before ++ (env, .checkpoint) :: after ∧
          (run H (constructor binder) before).checkpoints.length = id ∧
          (cp.acc, cp.leafCount) = accumulate H (folded H (constructor binder) before) := by
      intro hold
      obtain ⟨before, env, after, e, hlen, hacc⟩ := ih ht' hold
      exact ⟨before, env, after ++ [c], by rw [e]; simp, hlen, hacc⟩
    rw [run_append] at hcp
    rcases (apply_spec htr (ht c (by simp))).2 with hsame | ⟨hc, n, hnew⟩
    · exact hlift (hsame ▸ hcp)
    · have hcp' : ((run H (constructor binder) calls).checkpoints ++
          [⟨(run H (constructor binder) calls).acc, (run H (constructor binder) calls).leafCount, n⟩])[id]? =
          some cp := hnew ▸ hcp
      rcases lt_trichotomy id (run H (constructor binder) calls).checkpoints.length with hlt | heq | hgt
      · rw [getElem?_append_left hlt] at hcp'
        exact hlift hcp'
      · rw [heq, getElem?_concat_length, some_inj] at hcp'
        refine ⟨calls, c.1, [], ?_, heq.symm, ?_⟩
        · rw [← hc]
        · rw [← hcp']
          exact htr.accumulate_eq
      · rw [getElem?_eq_none (by simp; omega)] at hcp'
        exact absurd hcp' (by simp)

/-- Input completeness of the lane-1 commitment. The accumulator determines the edge list, and every
checkpoint of every run holds the accumulator of exactly the events folded before it: an edge witness
that matches a checkpoint is the list of these events. -/
theorem checkpoint_complete (H : Hashes) (binder : Address) (calls : List (Env × Call))
    (ht : ∀ c ∈ calls, TimestampFits c) :
    (∀ xs ys : List RawEdge, CollisionFree H.keccak256 (accumulateHashed H xs ++ accumulateHashed H ys) →
      accumulate H xs = accumulate H ys → xs = ys) ∧
    ∀ id cp, (run H (constructor binder) calls).checkpoints[id]? = some cp →
      ∃ before env after, calls = before ++ (env, .checkpoint) :: after ∧
        (run H (constructor binder) before).checkpoints.length = id ∧
        (cp.acc, cp.leafCount) = accumulate H (folded H (constructor binder) before) ∧
        ∀ witness, CollisionFree H.keccak256 (accumulateHashed H witness ++
            accumulateHashed H (folded H (constructor binder) before)) →
          accumulate H witness = (cp.acc, cp.leafCount) →
          witness = folded H (constructor binder) before := by
  have hinj : ∀ xs ys : List RawEdge,
      CollisionFree H.keccak256 (accumulateHashed H xs ++ accumulateHashed H ys) →
      accumulate H xs = accumulate H ys → xs = ys := by
    intro xs ys hfree e
    exact accumulate_fst_injective hfree (fun s hs => mem_append_left _ hs)
      (fun s hs => mem_append_right _ hs) (congrArg Prod.fst e)
  refine ⟨hinj, fun id cp hcp => ?_⟩
  obtain ⟨before, env, after, e, hlen, hacc⟩ := checkpoint_origin binder calls ht id cp hcp
  exact ⟨before, env, after, e, hlen, hacc, fun w hfree hw => hinj _ _ hfree (hw.trans hacc)⟩

namespace Example

def word (n : Nat) : B256 := .ofNat 32 n

def addr (b : UInt8) : Address := .replicate 20 b

def vouch : Event := ⟨0, addr 1, addr 2, .replicate 32 7, [95]⟩

def revocation : Event := ⟨1, addr 1, addr 2, .replicate 32 7, []⟩

def dataHash : Nat := 0xcd5edcba1904ce1b09e94c8a2d2a85375599856ca21c793571193054498b51d7

def emptyHash : Nat := 0xc5d2460186f7233c927e7db2dcc703c0e500b653ca82273b7bfad8045d85a470

def leaf1 : Nat := 0x33f60b4f4f19ef1fb810dca80488da3f7ffc98da0096bf940838771ef13590ee

def leaf2 : Nat := 0x1925876c2c5c11c154076f47347aaa171101d983c7e22e5306b08f22c3459898

def acc1 : Nat := 0xf31488d81e2d9eb6bb6b7068b2932570eb7200533b6bd231e59459f5a339446b

def acc2 : Nat := 0xfc78b28a8f58cc6ed3489fa5281feb2314c647433cf7c016255f23373a821c54

def keccak256 (s : Bytes) : B256 :=
  if s = [95] then word dataHash
  else if s = [] then word emptyHash
  else if s = edgePreimage 0 (addr 1) (addr 2) vouch.uid 100 (word dataHash) then word leaf1
  else if s = edgePreimage 1 (addr 1) (addr 2) vouch.uid 200 (word emptyHash) then word leaf2
  else if s = foldPreimage 0 (word leaf1) then word acc1
  else if s = foldPreimage (word acc1) (word leaf2) then word acc2
  else 0

def hashes : Hashes := ⟨keccak256, fun _ => 0⟩

def env (msgSender : Address) (blockTimestamp : U256) : Env := ⟨msgSender, addr 4, blockTimestamp, 7⟩

def calls : List (Env × Call) :=
  [(env (addr 9) 50, .bindSnapshot (addr 3) (addr 4)), (env (addr 5) 100, .fold vouch),
    (env (addr 3) 100, .checkpoint), (env (addr 5) 300, .foldAt revocation 200),
    (env (addr 3) 300, .checkpoint)]

def edges : List RawEdge := [vouch.edge 100, revocation.edge 200]

theorem calls_fit : ∀ c ∈ calls, TimestampFits c := by simp [calls, TimestampFits, foldedBy, env]

end Example

open Example in
/-- The last checkpoint of the run holds both events. -/
theorem checkpoint_complete_two_events :
    CollisionFree hashes.keccak256 (accumulateHashed hashes edges ++ accumulateHashed hashes edges) ∧
    (run hashes (constructor (addr 9)) calls).checkpoints[1]? = some ⟨word acc2, 2, 7⟩ ∧
    (accumulate hashes edges = accumulate hashes edges → edges = edges) ∧
    ∃ before env after, calls = before ++ (env, .checkpoint) :: after ∧
      (run hashes (constructor (addr 9)) before).checkpoints.length = 1 ∧
      (word acc2, 2) = accumulate hashes (folded hashes (constructor (addr 9)) before) ∧
      ∀ witness, CollisionFree hashes.keccak256 (accumulateHashed hashes witness ++
          accumulateHashed hashes (folded hashes (constructor (addr 9)) before)) →
        accumulate hashes witness = (word acc2, 2) →
        witness = folded hashes (constructor (addr 9)) before := by
  have h := checkpoint_complete hashes (addr 9) calls calls_fit
  have hfree : CollisionFree hashes.keccak256
      (accumulateHashed hashes edges ++ accumulateHashed hashes edges) :=
    ⟨by decide +kernel, by decide +kernel⟩
  have hcp : (run hashes (constructor (addr 9)) calls).checkpoints[1]? = some ⟨word acc2, 2, 7⟩ := by
    decide +kernel
  exact ⟨hfree, hcp, h.1 edges edges hfree, h.2 1 _ hcp⟩

end Trustgraphs.AttestationAccumulator
