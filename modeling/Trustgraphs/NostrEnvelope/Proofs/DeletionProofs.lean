import Trustgraphs.NostrEnvelope.Proofs.StateProofs

/-!
# Authors delete their own events

The passes over the outcomes, by position and for any list of events. A deletion takes effect at its
turn unless a deletion that took effect before has hit it; what it hits is tombstoned and stays so.
-/

namespace Trustgraphs.Nostr

open Option List

open Text (Str)

theorem map_event_setDisposition (outcomes : List EventOutcome) (index : ℕ) (d : EventDisposition) :
    (setDisposition outcomes index d).map EventOutcome.event = outcomes.map EventOutcome.event := by
  refine List.ext_getElem? fun i => ?_
  rw [setDisposition, List.getElem?_map, List.getElem?_map, getElem?_modify]
  cases outcomes[i]? with
  | none => rfl
  | some o =>
    by_cases hi : index = i
    · simp [hi]
    · simp [hi]

variable {index i : ℕ} {l m base : List EventOutcome}
  {st : List EventOutcome × BTreeMap ReplacementKey ℕ} {outcomes : List EventOutcome} {n : ℕ}

theorem getElem?_setDisposition_ne (outcomes : List EventOutcome) (d : EventDisposition)
    (h : index ≠ i) : (setDisposition outcomes index d)[i]? = outcomes[i]? := by
  rw [setDisposition, getElem?_modify]
  cases outcomes[i]? with
  | none => rfl
  | some o => simp [h]

/-- During the replacement pass: the events stay, the winners have keys, and what has no key is as it
was. -/
structure Replacing (base : List EventOutcome) (st : List EventOutcome × BTreeMap ReplacementKey ℕ) : Prop where
  events : st.1.map EventOutcome.event = base.map EventOutcome.event
  keyed : ∀ (key : ReplacementKey) (index : ℕ) (o : EventOutcome), st.2[key]? = some index →
    base[index]? = some o → replacementKey o.event ≠ none
  unkeyed : ∀ (i : ℕ) (o : EventOutcome), base[i]? = some o → replacementKey o.event = none → st.1[i]? = some o

theorem event_eq_of_map_eq (h : l.map EventOutcome.event = m.map EventOutcome.event)
    {o o' : EventOutcome} (ho : l[i]? = some o) (ho' : m[i]? = some o') : o.event = o'.event := by
  have hi := congrArg (·[i]?) h
  simp only [List.getElem?_map, ho, ho', map_some, some_inj] at hi
  exact hi

theorem Replacing.set (h : Replacing base st) (d : EventDisposition)
    (hkey : ∀ o, base[index]? = some o → replacementKey o.event ≠ none) :
    Replacing base (setDisposition st.1 index d, st.2) := by
  refine ⟨(map_event_setDisposition ..).trans h.events, h.keyed, fun i o ho hnone => ?_⟩
  have hne : index ≠ i := by
    rintro rfl
    exact hkey o ho hnone
  exact (getElem?_setDisposition_ne _ _ hne).trans (h.unkeyed i o ho hnone)

theorem Replacing.insert (h : Replacing base st) {key : ReplacementKey}
    (hkey : ∀ o, base[index]? = some o → replacementKey o.event ≠ none) :
    Replacing base (st.1, st.2.insert key index) := by
  refine ⟨h.events, fun k i o hi ho => ?_, h.unkeyed⟩
  rw [BTreeMap.getElem?_insert] at hi
  by_cases hk : key = k
  · rw [if_pos hk, some_inj] at hi
    subst hi
    exact hkey o ho
  · rw [if_neg hk] at hi
    exact h.keyed k i o hi ho

theorem replaceStep_replacing (h : Replacing base st) (index : ℕ) : Replacing base (replaceStep st index) := by
  obtain ⟨outcomes, winners⟩ := st
  unfold replaceStep
  dsimp only
  cases ho : outcomes[index]? with
  | none => exact h
  | some outcome =>
    dsimp only
    by_cases hacc : outcome.disposition ≠ .accepted
    · rw [if_pos hacc]
      exact h
    · rw [if_neg hacc]
      cases hkey : replacementKey outcome.event with
      | none => exact h
      | some key =>
        have hkeyed : ∀ o, base[index]? = some o → replacementKey o.event ≠ none := by
          intro o hbase
          rw [← event_eq_of_map_eq h.events ho hbase, hkey]
          exact some_ne_none key
        dsimp only
        cases hwinner : winners[key]? with
        | none => exact h.insert hkeyed
        | some current =>
          dsimp only
          cases hcurrent : outcomes[current]? with
          | none => exact h
          | some winner =>
            dsimp only
            by_cases hwins : winsOver outcome.event winner.event = true
            · rw [if_pos hwins]
              exact (h.set (.skipped .lwwSuperseded) (h.keyed key current · hwinner)).insert hkeyed
            · rw [if_neg hwins]
              exact h.set (.skipped .lwwSuperseded) hkeyed

theorem replaceAll_replacing (base : List EventOutcome) :
    (replaceAll base).map EventOutcome.event = base.map EventOutcome.event ∧
      ∀ (i : ℕ) (o : EventOutcome), base[i]? = some o → replacementKey o.event = none →
        (replaceAll base)[i]? = some o := by
  have hfold : ∀ (l : List ℕ) st, Replacing base st → Replacing base (l.foldl replaceStep st) := by
    intro l
    induction l with
    | nil => exact fun _ h => h
    | cons index l ih => exact fun st h => ih _ (replaceStep_replacing h index)
  have h := hfold (List.range base.length) (base, ∅) ⟨rfl, fun key index o hi => by simp at hi,
    fun _ _ ho _ => ho⟩
  exact ⟨h.events, h.unkeyed⟩

/-- Whether the deletion at `k` hits the outcome at `i`. -/
def hits (outcomes : List EventOutcome) (k i : ℕ) : Bool :=
  match outcomes[k]?, outcomes[i]? with
  | some deletion, some target => hit deletion.event k i target
  | _, _ => false

/-- The deletions among the first `n` outcomes that take effect: accepted, and not hit by one that took
effect before. -/
def effective (outcomes : List EventOutcome) : ℕ → List ℕ
  | 0 => []
  | n + 1 =>
    if (outcomes[n]?.any fun o => o.event.kind = 5 && o.disposition = .accepted) &&
        !(effective outcomes n).any fun k => hits outcomes k n
    then effective outcomes n ++ [n]
    else effective outcomes n

/-- The outcome at `i` is hit by one of the first `n` deletions. -/
def Struck (outcomes : List EventOutcome) (n i : ℕ) : Prop :=
  ∃ k ∈ effective outcomes n, hits outcomes k i = true

theorem mem_effective_succ {o : EventOutcome}
    (ho : outcomes[n]? = some o) (hkind : o.event.kind = 5) (hacc : o.disposition = .accepted)
    (h : ¬ Struck outcomes n n) : effective outcomes (n + 1) = effective outcomes n ++ [n] := by
  have hany : ((effective outcomes n).any fun k => hits outcomes k n) = false := by
    rw [List.any_eq_false]
    exact fun k hk hhit => h ⟨k, hk, hhit⟩
  rw [effective, if_pos]
  simp [ho, hkind, hacc, hany]

theorem not_mem_effective_succ
    (h : (∀ o, outcomes[n]? = some o → o.event.kind = 5 → o.disposition ≠ .accepted) ∨
      Struck outcomes n n) : effective outcomes (n + 1) = effective outcomes n := by
  rw [effective, if_neg]
  rw [Bool.and_eq_true, not_and]
  intro harmed
  rcases h with h | ⟨k, hk, hhit⟩
  · cases ho : outcomes[n]? with
    | none => simp [ho] at harmed
    | some o =>
      simp only [ho, any_some, Bool.and_eq_true, decide_eq_true_eq] at harmed
      exact absurd harmed.2 (h o ho harmed.1)
  · have hany : ((effective outcomes n).any fun k => hits outcomes k n) = true :=
      List.any_eq_true.mpr ⟨k, hk, hhit⟩
    rw [hany]
    decide

theorem Struck.mono {m : ℕ} (hnm : n ≤ m) (h : Struck outcomes n i) : Struck outcomes m i := by
  induction m, hnm using Nat.le_induction with
  | base => exact h
  | succ m hm ih =>
    obtain ⟨k, hk, hhit⟩ := ih
    refine ⟨k, ?_, hhit⟩
    rw [effective]
    by_cases harmed : ((outcomes[m]?.any fun o => o.event.kind = 5 && o.disposition = .accepted) &&
        !(effective outcomes m).any fun k => hits outcomes k m) = true
    · rw [if_pos harmed]
      exact mem_append_left _ hk
    · rw [if_neg harmed]
      exact hk

/-- After `n` rounds of the deletion pass: the events stay, an outcome whose turn is to come is as it was
or tombstoned, and what has been hit is tombstoned. -/
structure Deleting (l : List EventOutcome) (n : ℕ) (now : List EventOutcome) : Prop where
  events : now.map EventOutcome.event = l.map EventOutcome.event
  waiting : ∀ (i : ℕ) (o : EventOutcome), n ≤ i → ¬ Struck l n i → l[i]? = some o → now[i]? = some o
  struck : ∀ (i : ℕ) (o : EventOutcome), Struck l n i → now[i]? = some o →
    o.disposition = .skipped .deletionTombstoned

section Deleting

variable {l now : List EventOutcome} {n : ℕ} (h : Deleting l n now)
include h

theorem Deleting.length_eq : now.length = l.length := by
  have hlen := congrArg List.length h.events
  rwa [length_map, length_map] at hlen

theorem Deleting.eq_of_not_struck {o : EventOutcome} (hs : ¬ Struck l n n) (ho : now[n]? = some o) :
    l[n]? = some o := by
  have hn : n < l.length := by
    rw [← h.length_eq]
    exact (List.getElem?_eq_some_iff.mp ho).1
  have heq := h.waiting n l[n] le_rfl hs (getElem?_eq_getElem hn)
  rw [getElem?_eq_getElem hn, ← heq, ho]

theorem Deleting.idle (heff : effective l (n + 1) = effective l n) : Deleting l (n + 1) now := by
  have hstruck : ∀ i, Struck l (n + 1) i ↔ Struck l n i := by
    intro i
    rw [Struck, heff, Struck]
  exact ⟨h.events, fun i o hi hnot => h.waiting i o (by omega) (fun hs => hnot ((hstruck i).mpr hs)),
    fun i o hs => h.struck i o ((hstruck i).mp hs)⟩

theorem Deleting.hit_eq {outcome : EventOutcome} (hl : l[n]? = some outcome) {i : ℕ} {o : EventOutcome}
    (ho : now[i]? = some o) : hit outcome.event n i o = hits l n i := by
  have hi : i < l.length := by
    rw [← h.length_eq]
    exact (List.getElem?_eq_some_iff.mp ho).1
  have hevent := event_eq_of_map_eq h.events ho (getElem?_eq_getElem hi)
  rw [hits, hl, getElem?_eq_getElem hi]
  show hit _ _ _ _ = hit _ _ _ _
  rw [hit, hit, hevent]

variable {outcome : EventOutcome} (hl : l[n]? = some outcome)
  (hstruck : ∀ i, Struck l (n + 1) i ↔ Struck l n i ∨ hits l n i = true)
include hl hstruck

theorem Deleting.strike : Deleting l (n + 1) (now.mapIdx fun index target =>
    if hit outcome.event n index target then { target with disposition := .skipped .deletionTombstoned }
    else target) := by
  refine ⟨?_, fun i o hi hs ho => ?_, fun i o hs ho => ?_⟩
  · rw [← h.events]
    refine List.ext_getElem? fun i => ?_
    rw [List.getElem?_map, getElem?_mapIdx, List.getElem?_map]
    cases now[i]? with
    | none => rfl
    | some target =>
      rw [map_some, map_some, map_some]
      by_cases hi : hit outcome.event n i target = true
      · rw [if_pos hi]
      · rw [if_neg hi]
  · have hwait := h.waiting i o (by omega) (fun hs' => hs ((hstruck i).mpr (Or.inl hs'))) ho
    have hmiss : ¬ hit outcome.event n i o = true := by
      rw [h.hit_eq hl hwait]
      exact fun hn => hs ((hstruck i).mpr (Or.inr hn))
    rw [getElem?_mapIdx, hwait, map_some, if_neg hmiss]
  · rw [getElem?_mapIdx] at ho
    obtain ⟨target, htarget, ho⟩ := map_eq_some_iff.mp ho
    by_cases hi : hit outcome.event n i target = true
    · rw [if_pos hi] at ho
      rw [← ho]
    · rw [if_neg hi] at ho
      subst ho
      rcases (hstruck i).mp hs with hs | hn
      · exact h.struck i target hs htarget
      · rw [← h.hit_eq hl htarget] at hn
        exact absurd hn hi

theorem Deleting.miss (hnot : ¬ Struck l n n)
    (hany : ¬ now.zipIdx.any (fun p => hit outcome.event n p.2 p.1) = true) :
    Deleting l (n + 1) (setDisposition now n (.skipped .invalidDeletion)) := by
  have hnone : ∀ i o, now[i]? = some o → hits l n i ≠ true := by
    intro i o ho hn
    rw [← h.hit_eq hl ho] at hn
    exact hany (List.any_eq_true.mpr ⟨(o, i), mem_zipIdx_iff_getElem?.mpr ho, hn⟩)
  have hevents := map_event_setDisposition now n (.skipped .invalidDeletion)
  refine ⟨hevents.trans h.events, fun i o hi hs ho => ?_, fun i o hs ho => ?_⟩
  · rw [getElem?_setDisposition_ne _ _ (by omega)]
    exact h.waiting i o (by omega) (fun hs' => hs ((hstruck i).mpr (Or.inl hs'))) ho
  · have hi : i < now.length := by
      have hlen := congrArg List.length hevents
      rw [length_map, length_map] at hlen
      rw [← hlen]
      exact (List.getElem?_eq_some_iff.mp ho).1
    have hs : Struck l n i := ((hstruck i).mp hs).resolve_right (hnone i _ (getElem?_eq_getElem hi))
    have hne : n ≠ i := by
      rintro rfl
      exact hnot hs
    rw [getElem?_setDisposition_ne _ _ hne] at ho
    exact h.struck i o hs ho

end Deleting

theorem struck_succ (heff : effective l (n + 1) = effective l n ++ [n]) (i : ℕ) :
    Struck l (n + 1) i ↔ Struck l n i ∨ hits l n i = true := by
  constructor
  · rintro ⟨k, hk, hki⟩
    rw [heff, mem_append, mem_singleton] at hk
    rcases hk with hk | rfl
    · exact Or.inl ⟨k, hk, hki⟩
    · exact Or.inr hki
  · rintro (hs | hn)
    · exact hs.mono (Nat.le_succ n)
    · refine ⟨n, ?_, hn⟩
      rw [heff]
      exact mem_append_right _ (mem_singleton_self n)

theorem deleteStep_deleting {now : List EventOutcome} (h : Deleting l n now) :
    Deleting l (n + 1) (deleteStep now n) := by
  unfold deleteStep
  cases hnow : now[n]? with
  | none =>
    refine h.idle (not_mem_effective_succ (Or.inl fun o ho => ?_))
    have hn := List.getElem?_eq_none_iff.mp hnow
    rw [h.length_eq] at hn
    rw [getElem?_eq_none hn] at ho
    cases ho
  | some outcome =>
    dsimp only
    by_cases harmed : outcome.event.kind ≠ 5 ∨ outcome.disposition ≠ .accepted
    · rw [if_pos harmed]
      refine h.idle (not_mem_effective_succ ?_)
      by_cases hs : Struck l n n
      · exact Or.inr hs
      · refine Or.inl fun o ho hkind hacc => ?_
        rw [h.eq_of_not_struck hs hnow, some_inj] at ho
        subst ho
        rcases harmed with hk | hd
        · exact hk hkind
        · exact hd hacc
    · rw [if_neg harmed]
      rw [not_or, not_not, not_not] at harmed
      have hnot : ¬ Struck l n n := by
        intro hs
        have hdead := h.struck n outcome hs hnow
        rw [harmed.2] at hdead
        cases hdead
      have hl := h.eq_of_not_struck hnot hnow
      have hstruck := struck_succ (mem_effective_succ hl harmed.1 harmed.2 hnot)
      by_cases hany : now.zipIdx.any (fun p => hit outcome.event n p.2 p.1) = true
      · rw [if_pos hany]
        exact h.strike hl hstruck
      · rw [if_neg hany]
        exact h.miss hl hstruck hnot hany

theorem deleteAll_deleting (l : List EventOutcome) : Deleting l l.length (deleteAll l) := by
  unfold deleteAll
  induction l.length with
  | zero =>
    refine ⟨rfl, fun _ _ _ _ ho => ho, fun i o hs => ?_⟩
    obtain ⟨k, hk, -⟩ := hs
    exact absurd hk not_mem_nil
  | succ n ih =>
    rw [range_succ, foldl_append]
    exact deleteStep_deleting ih

theorem hits_congr (h : l.map EventOutcome.event = m.map EventOutcome.event)
    (k i : ℕ) : hits l k i = hits m k i := by
  have hget : ∀ i : ℕ, l[i]?.map EventOutcome.event = m[i]?.map EventOutcome.event := by
    intro i
    rw [← List.getElem?_map, h, List.getElem?_map]
  have hk := hget k
  have hi := hget i
  unfold hits
  cases hlk : l[k]? with
  | none =>
    rw [hlk, map_none, eq_comm, map_eq_none_iff] at hk
    rw [hk]
  | some d =>
    rw [hlk, map_some, eq_comm, map_eq_some_iff] at hk
    obtain ⟨d', hmk, hd⟩ := hk
    rw [hmk]
    cases hli : l[i]? with
    | none =>
      rw [hli, map_none, eq_comm, map_eq_none_iff] at hi
      rw [hi]
    | some o =>
      rw [hli, map_some, eq_comm, map_eq_some_iff] at hi
      obtain ⟨o', hmi, ho⟩ := hi
      rw [hmi]
      show hit _ _ _ _ = hit _ _ _ _
      rw [hit, hit, hd, ho]

theorem effective_congr (h : l.map EventOutcome.event = m.map EventOutcome.event)
    (hdel : ∀ (i : ℕ) (o : EventOutcome), m[i]? = some o → o.event.kind = 5 → l[i]? = some o) (n : ℕ) :
    effective l n = effective m n := by
  induction n with
  | zero => rfl
  | succ n ih =>
    have harmed : (l[n]?.any fun o => o.event.kind = 5 && o.disposition = .accepted) =
        m[n]?.any fun o => o.event.kind = 5 && o.disposition = .accepted := by
      have hn := congrArg (·[n]?) h
      simp only [List.getElem?_map] at hn
      cases hm : m[n]? with
      | none =>
        rw [hm, map_none, map_eq_none_iff] at hn
        rw [hn]
      | some o =>
        rw [hm, map_some, map_eq_some_iff] at hn
        obtain ⟨o', hl, ho⟩ := hn
        by_cases hkind : o.event.kind = 5
        · rw [hdel n o hm hkind]
        · rw [hl, any_some, any_some, ho]
          simp [hkind]
    rw [effective, effective, ih, harmed]
    simp only [hits_congr h]

/-- A deletion is retracted when a deletion that takes effect before its turn hits it. -/
def Retracted (H : Hashes) (S : Schnorr) (members : BTreeSet B256) (events : List NostrEvent) (j : ℕ) : Prop :=
  Struck (events.map (classified (Nostr.ownerForEvent H S) members)) j j

theorem classified_deletion {H : Hashes} {S : Schnorr} {members : BTreeSet B256} {D : NostrEvent}
    {name value : Str} (hkind : D.kind = 5) (hmember : D.pubkey ∈ members)
    (htags : D.tags = [[name, value]]) (hname : name.bytes = utf8 "e") :
    classified (Nostr.ownerForEvent H S) members D = ⟨D, none, .accepted⟩ := by
  have haddress : ¬ (addressable D.kind = true ∧ (dTag D).isNone = true) := by
    rw [hkind]
    exact fun h => absurd h.1 (by decide)
  have hrelevant : ¬ relevantKind D.kind = false := by
    rw [hkind]
    decide
  have hroster : ¬ D.kind = 13534 := by
    rw [hkind]
    decide
  have howner : Nostr.ownerForEvent H S D = .ok none := by
    have hfilter : D.tags.filter (tagNamed "auth") = [] := by
      rw [htags, filter_cons_of_neg]
      · rfl
      · simp only [tagNamed, hname]
        decide
    unfold Nostr.ownerForEvent
    rw [hfilter]
  unfold classified classify
  rw [if_neg haddress, if_neg hrelevant, if_neg hroster]
  dsimp only
  rw [howner]
  dsimp only
  rw [if_pos hmember]

/-- What a member deletes is tombstoned, unless the deletion was retracted. -/
theorem own_deletions_apply {H : Hashes} {S : Schnorr} {events : List NostrEvent} {relay : B256}
    {outcomes : List EventOutcome} {members : BTreeSet B256}
    (hr : resolve H S events relay = .ok (outcomes, members)) {i j : ℕ} {X D : NostrEvent}
    (hX : events[i]? = some X) (hD : events[j]? = some D) (hij : i ≠ j) (hkind : D.kind = 5)
    (hauthor : X.pubkey = D.pubkey) (hmember : D.pubkey ∈ members) {name value : Str}
    (htags : D.tags = [[name, value]]) (hname : name.bytes = utf8 "e")
    (hvalue : decodeHex 32 value = .ok X.id) (hnot : ¬ Retracted H S members events j) :
    ∃ o, outcomes[i]? = some o ∧ o.event = X ∧ o.disposition = .skipped .deletionTombstoned := by
  obtain ⟨base, hbase⟩ : ∃ base, base = events.map (classified (Nostr.ownerForEvent H S) members) :=
    ⟨_, rfl⟩
  have hevents : base.map EventOutcome.event = events := by
    rw [hbase, List.map_map]
    exact (map_congr_left fun event _ => classified_event event).trans (List.map_id events)
  have houtcomes : outcomes = deleteAll (replaceAll base) := by
    unfold resolve resolveWith at hr
    cases hroster : roster events relay with
    | error e =>
      rw [hroster] at hr
      cases hr
    | ok m =>
      rw [hroster] at hr
      obtain ⟨hout, rfl⟩ := Prod.mk.inj (Except.ok.inj hr)
      rw [← hout, classifyAll_pure, hbase]
  -- the replacement pass does not touch the deletions
  obtain ⟨hkeep, hunkeyed⟩ := replaceAll_replacing base
  have hdel : ∀ (k : ℕ) (o : EventOutcome), base[k]? = some o → o.event.kind = 5 →
      (replaceAll base)[k]? = some o := fun k o ho hk => hunkeyed k o ho (replacementKey_deletion hk)
  have hDbase : base[j]? = some ⟨D, none, .accepted⟩ := by
    rw [hbase, List.getElem?_map, hD, map_some, classified_deletion hkind hmember htags hname]
  have hDl := hdel j _ hDbase hkind
  have hstruck : ¬ Struck (replaceAll base) j j := by
    rintro ⟨k, hk, hhit⟩
    rw [effective_congr hkeep hdel] at hk
    rw [hits_congr hkeep] at hhit
    rw [hbase] at hk hhit
    exact hnot ⟨k, hk, hhit⟩
  -- so the deletion takes effect at its turn, and it is aimed at `X`
  obtain ⟨x, hxbase, hxevent⟩ : ∃ x, (replaceAll base)[i]? = some x ∧ x.event = X := by
    have hget := congrArg (·[i]?) (hkeep.trans hevents)
    simp only [List.getElem?_map, hX, map_eq_some_iff] at hget
    exact hget
  have htargets : targets D X = true := by
    have htarget : deletionTarget D = some (.id X.id) := by
      unfold deletionTarget
      rw [htags]
      dsimp only
      rw [if_pos hname, hvalue]
    simp [targets, hauthor, htarget]
  have hhits : hits (replaceAll base) j i = true := by
    unfold hits
    rw [hDl, hxbase]
    simp [hit, hij, hxevent, htargets]
  have heffective := mem_effective_succ hDl hkind rfl hstruck
  have hdone : Struck (replaceAll base) (j + 1) i := (struck_succ heffective i).mpr (Or.inr hhits)
  have hj : j + 1 ≤ (replaceAll base).length := (List.getElem?_eq_some_iff.mp hDl).1
  have hdeleted := deleteAll_deleting (replaceAll base)
  obtain ⟨o, ho, hoevent⟩ : ∃ o, outcomes[i]? = some o ∧ o.event = X := by
    have hget := congrArg (·[i]?) (hdeleted.events.trans (hkeep.trans hevents))
    simp only [List.getElem?_map, hX, map_eq_some_iff] at hget
    rwa [houtcomes]
  rw [houtcomes] at ho
  exact ⟨o, by rw [houtcomes]; exact ho, hoevent, hdeleted.struck i o (hdone.mono hj) ho⟩

namespace DeletionExample

open StateExample

instance (outcomes : List EventOutcome) (n i : ℕ) : Decidable (Struck outcomes n i) := by
  unfold Struck
  infer_instance

instance (H : Hashes) (S : Schnorr) (members : BTreeSet B256) (events : List NostrEvent) (j : ℕ) :
    Decidable (Retracted H S members events j) := by
  unfold Retracted
  infer_instance

def report (events : List NostrEvent) (j : ℕ) :
    Option (List EventDisposition × Bool × Option EventDisposition × Bool) :=
  (resolve hashes schnorr events (b256 1)).toOption.map fun r =>
    (r.1.map EventOutcome.disposition, decide (post.pubkey ∈ r.2),
      (events.map (classified (Nostr.ownerForEvent hashes schnorr) r.2))[j]?.map
        EventOutcome.disposition, decide (Retracted hashes schnorr r.2 events j))

theorem report_eq : report [rosterEvent, post, deletion] 2 =
        some ([.accepted, .skipped .deletionTombstoned, .accepted], true, some .accepted, false) ∧
      report [rosterEvent, post, undeletion, deletion] 3 =
        some ([.accepted, .accepted, .accepted, .skipped .deletionTombstoned], true, some .accepted, true) := by
  decide +kernel

theorem of_report {events : List NostrEvent} {j : ℕ} {dispositions : List EventDisposition}
    {member retracted : Bool} {accepted : Option EventDisposition}
    (h : report events j = some (dispositions, member, accepted, retracted)) :
    ∃ outcomes members, resolve hashes schnorr events (b256 1) = .ok (outcomes, members) ∧
      outcomes.map EventOutcome.disposition = dispositions ∧
      decide (post.pubkey ∈ members) = member ∧
      (events.map (classified (Nostr.ownerForEvent hashes schnorr) members))[j]?.map
        EventOutcome.disposition = accepted ∧
      decide (Retracted hashes schnorr members events j) = retracted := by
  unfold report at h
  cases hr : resolve hashes schnorr events (b256 1) with
  | error e => simp [hr, Except.toOption] at h
  | ok r =>
    rw [hr] at h
    simp only [Except.toOption, map_some, some_inj, Prod.mk.injEq] at h
    exact ⟨r.1, r.2, rfl, h⟩

end DeletionExample

open StateExample DeletionExample in
/-- The author of the post deletes it. -/
theorem own_deletions_apply_post : ∃ outcomes members,
      resolve hashes schnorr [rosterEvent, post, deletion] (b256 1) = .ok (outcomes, members) ∧
      ∃ o, outcomes[1]? = some o ∧ o.event = post ∧ o.disposition = .skipped .deletionTombstoned := by
  obtain ⟨outcomes, members, hr, -, hmember, -, hretracted⟩ := of_report report_eq.1
  refine ⟨outcomes, members, hr, own_deletions_apply (j := 2) (D := deletion) hr rfl rfl (by decide) rfl
    rfl (of_decide_eq_true hmember) rfl rfl ?_ (of_decide_eq_false hretracted)⟩
  decide +kernel

open StateExample DeletionExample in
/-- A deletion that is itself deleted before its turn leaves its target alone. -/
theorem not_own_deletions_always : ¬ ∀ (H : Hashes) (S : Schnorr) (events : List NostrEvent) (relay : B256)
      (outcomes : List EventOutcome) (members : BTreeSet B256),
      resolve H S events relay = .ok (outcomes, members) →
      ∀ (i j : ℕ) (X D : NostrEvent), events[i]? = some X → events[j]? = some D → i ≠ j → D.kind = 5 →
        X.pubkey = D.pubkey →
        (classified (Nostr.ownerForEvent H S) members D).disposition = .accepted →
        (∃ name value, D.tags.filter (fun tag => !tagNamed "auth" tag) = [[name, value]] ∧
          name.bytes = utf8 "e" ∧ decodeHex 32 value = .ok X.id) →
        ∃ o, outcomes[i]? = some o ∧ o.disposition = .skipped .deletionTombstoned := by
  intro h
  obtain ⟨outcomes, members, hr, hdispositions, -, haccepted, -⟩ := of_report report_eq.2
  have htag : decodeHex 32 hex11 = .ok post.id ∧
      deletion.tags.filter (fun tag => !tagNamed "auth" tag) = deletion.tags := by
    decide +kernel
  have hclass : (classified (Nostr.ownerForEvent hashes schnorr) members deletion).disposition =
      .accepted := some_inj.mp haccepted
  obtain ⟨o, ho, hdead⟩ := h hashes schnorr _ _ outcomes members hr 1 3 post deletion rfl rfl (by decide)
    rfl rfl hclass ⟨_, _, htag.2, rfl, htag.1⟩
  have hget := congrArg (·[1]?) hdispositions
  simp only [List.getElem?_map, ho, map_some, hdead] at hget
  exact absurd hget (by decide)

end Trustgraphs.Nostr
