import Trustgraphs.Lib.Cascade
import Trustgraphs.NostrEnvelope.State

/-!
# What state resolution depends on

Each pass of the resolution in closed form: the first and the second treat an event by the set of
all events alone, and the third is a cascade (`deleteAll_eq`).
-/

namespace Trustgraphs.Nostr

open Cascade Option Text List

/-- The rank of an event among the versions of one key, the winner first. -/
def rank (event : NostrEvent) : ℕᵒᵈ ×ₗ B256 := toLex (OrderDual.toDual event.created_at.toNat, event.id)

variable {a b : NostrEvent} {l : List EventOutcome} {o x : EventOutcome} {n : Nat}

theorem winsOver_iff : winsOver a b = true ↔ rank a < rank b := by
  simp only [winsOver, rank, Prod.Lex.toLex_lt_toLex, Bool.or_eq_true, Bool.and_eq_true,
    decide_eq_true_eq, OrderDual.toDual_lt_toDual, UInt64.lt_iff_toNat_lt, EmbeddingLike.apply_eq_iff_eq,
    UInt64.toNat_inj]

theorem rank_inj (h : rank a = rank b) : a.id = b.id := congrArg (fun r => (ofLex r).2) h

theorem winsOver_irrefl (a : NostrEvent) : winsOver a a = false := by
  rw [Bool.eq_false_iff, ne_eq, winsOver_iff]
  exact lt_irrefl _

theorem winsOver_trans {c : NostrEvent} (h : winsOver a b = true) (h' : winsOver b c = true) :
    winsOver a c = true :=
  winsOver_iff.mpr ((winsOver_iff.mp h).trans (winsOver_iff.mp h'))

theorem winsOver_total (hne : a.id ≠ b.id) (h : ¬ winsOver a b = true) : winsOver b a = true := by
  rw [winsOver_iff] at h ⊢
  exact lt_of_le_of_ne (not_lt.mp h) fun e => hne (rank_inj e).symm

theorem latest_spec {l : List NostrEvent} {w : NostrEvent} (h : latest l = some w) :
    w ∈ l ∧ ∀ x ∈ l, ¬ winsOver x w = true := by
  cases l with
  | nil => simp [latest] at h
  | cons first rest =>
    simp only [latest, some_inj] at h
    induction rest using List.reverseRecOn generalizing w with
    | nil =>
      subst h
      simp [winsOver_irrefl]
    | append_singleton rest x ih =>
      rw [foldl_append, foldl_cons, foldl_nil] at h
      obtain ⟨hmem, hmax⟩ := ih rfl
      split at h
      · rename_i hwins
        subst h
        refine ⟨by simp, fun y hy => ?_⟩
        rw [← cons_append, mem_append, mem_singleton] at hy
        rcases hy with hy | rfl
        · exact fun hlt => hmax y hy (winsOver_trans hlt hwins)
        · simp [winsOver_irrefl]
      · rename_i hwins
        subst h
        refine ⟨?_, fun y hy => ?_⟩
        · rw [← cons_append]
          exact mem_append_left _ hmem
        · rw [← cons_append, mem_append, mem_singleton] at hy
          rcases hy with hy | rfl
          · exact hmax y hy
          · exact hwins

theorem latest_perm {l l' : List NostrEvent} (hp : l'.Perm l) (hnd : (l.map NostrEvent.id).Nodup) :
    latest l' = latest l := by
  cases hl : latest l with
  | none =>
    cases l with
    | nil => rw [perm_nil.mp hp]; rfl
    | cons first rest => simp [latest] at hl
  | some w =>
    cases hl' : latest l' with
    | none =>
      cases l' with
      | nil =>
        rw [nil_perm.mp hp] at hl
        simp [latest] at hl
      | cons first rest => simp [latest] at hl'
    | some w' =>
      obtain ⟨hw, hmax⟩ := latest_spec hl
      obtain ⟨hw', hmax'⟩ := latest_spec hl'
      have hid : w'.id = w.id := by
        by_contra hne
        exact hmax w' (hp.mem_iff.mp hw')
          (winsOver_total (fun e => hne e.symm) (hmax' w (hp.mem_iff.mpr hw)))
      rw [inj_on_of_nodup_map hnd (hp.mem_iff.mp hw') hw hid]

theorem roster_perm {events events' : List NostrEvent} (hp : events'.Perm events)
    (hnd : (events.map NostrEvent.id).Nodup) (relay : B256) :
    roster events' relay = roster events relay := by
  have hf : (events'.filter fun event => event.kind = 13534).Perm
      (events.filter fun event => event.kind = 13534) := hp.filter _
  have hnd' : ((events.filter fun event => event.kind = 13534).map NostrEvent.id).Nodup :=
    hnd.sublist (filter_sublist.map _)
  have hnil : (events'.filter fun event => event.kind = 13534) = [] ↔
      (events.filter fun event => event.kind = 13534) = [] :=
    ⟨fun e => by rw [e] at hf; exact nil_perm.mp hf,
      fun e => by rw [e] at hf; exact perm_nil.mp hf⟩
  have hany : (events'.filter fun event => event.kind = 13534).any
      (fun event => (rosterMembers event relay).isNone) =
      (events.filter fun event => event.kind = 13534).any
      (fun event => (rosterMembers event relay).isNone) := by
    rw [Bool.eq_iff_iff, List.any_eq_true, List.any_eq_true]
    exact ⟨fun ⟨x, hx, h⟩ => ⟨x, hf.mem_iff.mp hx, h⟩, fun ⟨x, hx, h⟩ => ⟨x, hf.mem_iff.mpr hx, h⟩⟩
  simp only [roster, hnil, hany, latest_perm hf hnd']

section Distinct

variable {α β : Type}

theorem modify_map [DecidableEq α] {l : List α} (hnd : l.Nodup) {i : Nat} {w : α} (hi : l[i]? = some w)
    (G : α → β) (f : β → β) :
    (l.map G).modify i f = l.map fun x => if x = w then f (G x) else G x := by
  refine List.ext_getElem? fun j => ?_
  rw [getElem?_modify, List.getElem?_map, List.getElem?_map]
  cases hj : l[j]? with
  | none => rfl
  | some x =>
    have hiff : i = j ↔ x = w := by
      constructor
      · rintro rfl
        exact some_inj.mp (hj.symm.trans hi)
      · rintro rfl
        exact (getElem?_inj (List.getElem?_eq_some_iff.mp hi).1 hnd).mp (hi.trans hj.symm)
    by_cases hij : i = j
    · simp [hij, hiff.mp hij]
    · have hne : x ≠ w := fun e => hij (hiff.mpr e)
      simp [hij, hne]

theorem take_succ {l : List α} {n : Nat} {o : α} (h : l[n]? = some o) : l.take (n + 1) = l.take n ++ [o] := by
  rw [take_add_one, h]
  rfl

theorem not_mem_take {l : List α} (hnd : l.Nodup) {n : Nat} {o : α} (h : l[n]? = some o) : o ∉ l.take n := by
  intro hmem
  obtain ⟨j, hj⟩ := List.mem_iff_getElem?.mp hmem
  rw [getElem?_take] at hj
  split at hj
  · rename_i hlt
    have hjn := (getElem?_inj (List.getElem?_eq_some_iff.mp hj).1 hnd).mp (hj.trans h.symm)
    omega
  · simp at hj

end Distinct

/-- The disposition that the first pass gives an event when the owner function has no state. -/
def classified (owner : NostrEvent → Except SkipReason (Option B256)) (members : BTreeSet B256)
    (event : NostrEvent) : EventOutcome :=
  (classify (fun s event => (owner event, s)) members () event).1

theorem classifyAll_pure (owner : NostrEvent → Except SkipReason (Option B256))
    (members : BTreeSet B256) (events : List NostrEvent) :
    (classifyAll (fun s event => (owner event, s)) members () events).1 =
      events.map (classified owner members) := by
  induction events with
  | nil => rfl
  | cons event events ih => rw [map_cons, ← ih]; rfl

theorem classify_event {σ : Type}
    (ownerForEvent : σ → NostrEvent → Except SkipReason (Option B256) × σ) (members : BTreeSet B256)
    (s : σ) (event : NostrEvent) : (classify ownerForEvent members s event).1.event = event := by
  unfold classify
  generalize ownerForEvent s event = r
  obtain ⟨result, s'⟩ := r
  dsimp only
  split
  · rfl
  · split
    · rfl
    · split
      · rfl
      · split
        · split <;> rfl
        · split <;> rfl
        · rfl

def beaten (among : List EventOutcome) (o : EventOutcome) : Prop :=
  o.disposition = .accepted ∧ ∃ p ∈ among, p.disposition = .accepted ∧
    (replacementKey o.event).isSome = true ∧ replacementKey p.event = replacementKey o.event ∧
    winsOver p.event o.event = true

open Classical in
noncomputable def superseded (among : List EventOutcome) (o : EventOutcome) : EventOutcome :=
  if beaten among o then { o with disposition := .skipped .lwwSuperseded } else o

theorem superseded_event (among : List EventOutcome) (o : EventOutcome) :
    (superseded among o).event = o.event := by
  unfold superseded
  split <;> rfl

theorem superseded_congr {l' : List EventOutcome}
    (h : beaten l o ↔ beaten l' o) : superseded l o = superseded l' o := by
  unfold superseded
  by_cases hb : beaten l' o
  · rw [if_pos hb, if_pos (h.mpr hb)]
  · rw [if_neg hb, if_neg fun hl => hb (h.mp hl)]

theorem beaten_append : beaten (l ++ [o]) x ↔ beaten l x ∨ beaten [o] x := by
  simp only [beaten, mem_append, or_and_right, exists_or, and_or_left]

theorem beaten_singleton : beaten [o] x ↔ x.disposition = .accepted ∧ o.disposition = .accepted ∧
      (replacementKey x.event).isSome = true ∧ replacementKey o.event = replacementKey x.event ∧
      winsOver o.event x.event = true := by
  simp [beaten]

/-- The state of the replacement pass after the first `n` outcomes. -/
structure Replaced (l : List EventOutcome) (n : Nat)
    (st : List EventOutcome × BTreeMap ReplacementKey Nat) : Prop where
  outcomes : st.1 = l.map fun x => if x ∈ l.take n then superseded (l.take n) x else x
  none : ∀ k, st.2[k]? = none → ∀ x ∈ l.take n, x.disposition = .accepted → replacementKey x.event ≠ some k
  some : ∀ (k : ReplacementKey) (i : ℕ), st.2[k]? = some i → ∃ w, l[i]? = some w ∧ w ∈ l.take n ∧
    w.disposition = .accepted ∧ replacementKey w.event = some k ∧ ¬ beaten (l.take n) w

def DistinctIds (l : List EventOutcome) : Prop := (l.map fun o => o.event.id).Nodup

theorem DistinctIds.nodup (h : DistinctIds l) : l.Nodup := List.Nodup.of_map _ h

theorem DistinctIds.eq (h : DistinctIds l) {y : EventOutcome} (hx : x ∈ l)
    (hy : y ∈ l) (hid : x.event.id = y.event.id) : x = y :=
  inj_on_of_nodup_map h hx hy hid

theorem replaceStep_spec (hl : DistinctIds l)
    {st : List EventOutcome × BTreeMap ReplacementKey Nat} (hst : Replaced l n st) (ho : l[n]? = some o) :
    Replaced l (n + 1) (replaceStep st n) := by
  obtain ⟨outcomes, winners⟩ := st
  obtain ⟨hout, hnone, hsome⟩ := hst
  dsimp only at hout hnone hsome
  have hnot : o ∉ l.take n := not_mem_take hl.nodup ho
  have hmem : ∀ x, x ∈ l.take n → x ∈ l := fun x hx => mem_of_mem_take hx
  have hol : o ∈ l := mem_of_getElem? ho
  have htake : l.take (n + 1) = l.take n ++ [o] := take_succ ho
  -- the outcome at hand is still as it was
  have hat : outcomes[n]? = some o := by rw [hout, List.getElem?_map, ho, map_some, if_neg hnot]
  have hself : ¬ beaten [o] o := fun h => by
    have := (beaten_singleton.mp h).2.2.2.2
    rw [winsOver_irrefl] at this
    exact absurd this (by simp)
  -- an outcome that supersedes nothing and is not superseded itself leaves the list as it is
  have hkeep : (∀ x ∈ l.take n, beaten [o] x → beaten (l.take n) x) → ¬ beaten (l.take n) o →
      outcomes = l.map fun x => if x ∈ l.take (n + 1) then superseded (l.take (n + 1)) x else x := by
    intro h1 h2
    rw [hout, htake]
    refine map_congr_left fun x _ => ?_
    by_cases hx : x ∈ l.take n
    · have hiff : beaten (l.take n ++ [o]) x ↔ beaten (l.take n) x :=
        beaten_append.trans ⟨fun h => h.elim id (h1 x hx), .inl⟩
      rw [if_pos hx, if_pos (mem_append_left _ hx), superseded_congr hiff]
    · rw [if_neg hx]
      by_cases hxo : x = o
      · subst hxo
        have hno : ¬ beaten (l.take n ++ [x]) x := fun h => (beaten_append.mp h).elim h2 hself
        rw [if_pos (by simp), superseded, if_neg hno]
      · rw [if_neg (by simp [hx, hxo])]
  -- the bookkeeping of the other keys
  have hnone' : ∀ k, replacementKey o.event ≠ some k ∨ o.disposition ≠ .accepted →
      winners[k]? = none → ∀ x ∈ l.take (n + 1), x.disposition = .accepted →
        replacementKey x.event ≠ some k := by
    intro k hk hw x hx hacc
    rw [htake, mem_append, mem_singleton] at hx
    rcases hx with hx | rfl
    · exact hnone k hw x hx hacc
    · exact hk.elim id fun h => absurd hacc h
  have hsome' : ∀ (k : ReplacementKey) (i : ℕ), replacementKey o.event ≠ some k ∨ o.disposition ≠ .accepted →
      winners[k]? = some i → ∃ w, l[i]? = some w ∧ w ∈ l.take (n + 1) ∧ w.disposition = .accepted ∧
        replacementKey w.event = some k ∧ ¬ beaten (l.take (n + 1)) w := by
    intro k i hk hw
    obtain ⟨w, hi, hwl, hacc, hkey, hbest⟩ := hsome k i hw
    refine ⟨w, hi, by rw [htake]; exact mem_append_left _ hwl, hacc, hkey, ?_⟩
    rw [htake, beaten_append]
    rintro (h | h)
    · exact hbest h
    · obtain ⟨-, hacco, -, hkeyo, -⟩ := beaten_singleton.mp h
      rw [hkey] at hkeyo
      exact hk.elim (fun h => h hkeyo) fun h => h hacco
  simp only [replaceStep, hat]
  by_cases hacc : o.disposition ≠ .accepted
  · rw [if_pos hacc]
    exact ⟨hkeep (fun x _ h => absurd (beaten_singleton.mp h).2.1 hacc) fun h => hacc h.1,
      fun k => hnone' k (.inr hacc), fun k i => hsome' k i (.inr hacc)⟩
  rw [if_neg hacc]
  have hacc := not_not.mp hacc
  cases hkey : replacementKey o.event with
  | none =>
    have hk : ∀ k, replacementKey o.event ≠ some k := fun k => by simp [hkey]
    refine ⟨hkeep (fun x _ h => ?_) fun h => ?_, fun k => hnone' k (.inl (hk k)),
      fun k i => hsome' k i (.inl (hk k))⟩
    · obtain ⟨-, -, hs, he, -⟩ := beaten_singleton.mp h
      rw [← he, hkey] at hs
      exact absurd hs (by simp)
    · have hs := h.2.choose_spec.2.2.1
      rw [hkey] at hs
      exact absurd hs (by simp)
  | some key =>
    dsimp only
    -- the bookkeeping when the outcome at hand is the new winner of its key
    have hinsert : ∀ outcomes', ¬ beaten (l.take n) o →
        outcomes' = (l.map fun x => if x ∈ l.take (n + 1) then superseded (l.take (n + 1)) x else x) →
        Replaced l (n + 1) (outcomes', winners.insert key n) := by
      refine fun _ hno houtcomes => ⟨houtcomes, fun k hk => ?_, fun k i hk => ?_⟩
      · have hne : key ≠ k := by
          rintro rfl
          rw [BTreeMap.getElem?_insert_self] at hk
          exact absurd hk (by simp)
        rw [BTreeMap.getElem?_insert_of_ne winners n hne] at hk
        exact hnone' k (.inl fun e => hne (some_inj.mp (hkey.symm.trans e))) hk
      · by_cases hne : key = k
        · subst hne
          rw [BTreeMap.getElem?_insert_self] at hk
          obtain rfl := some_inj.mp hk
          refine ⟨o, ho, by rw [htake]; simp, hacc, hkey, ?_⟩
          rw [htake, beaten_append]
          exact fun h => h.elim hno hself
        · rw [BTreeMap.getElem?_insert_of_ne winners n hne] at hk
          exact hsome' k i (.inl fun e => hne (some_inj.mp (hkey.symm.trans e))) hk
    cases hwin : winners[key]? with
    | none =>
      dsimp only
      -- the first version of its key
      have hfresh := hnone key hwin
      have hno : ¬ beaten (l.take n) o := by
        rintro ⟨-, p, hp, hpacc, -, hpkey, -⟩
        exact hfresh p hp hpacc (hpkey.trans hkey)
      refine hinsert _ hno (hkeep (fun x hx h => ?_) hno)
      obtain ⟨hxacc, -, -, he, -⟩ := beaten_singleton.mp h
      exact absurd (he.symm.trans hkey) (hfresh x hx hxacc)
    | some current =>
      obtain ⟨w, hcur, hwl, hwacc, hwkey, hbest⟩ := hsome key current hwin
      have hcurrent : outcomes[current]? = some w := by
        rw [hout, List.getElem?_map, hcur, map_some, if_pos hwl, superseded, if_neg hbest]
      have hwo : w.event.id ≠ o.event.id := fun e => hnot (hl.eq (hmem w hwl) hol e ▸ hwl)
      simp only [hcurrent]
      -- every other version of the key is behind the winner
      have hbehind : ∀ x ∈ l.take n, x.disposition = .accepted → replacementKey x.event = some key →
          x ≠ w → winsOver w.event x.event = true := by
        intro x hx hxacc hxkey hne
        have hid : x.event.id ≠ w.event.id := fun e => hne (hl.eq (hmem x hx) (hmem w hwl) e)
        refine winsOver_total hid fun hlt => hbest ⟨hwacc, x, hx, hxacc, ?_, ?_, hlt⟩
        · rw [hwkey]; rfl
        · rw [hxkey, hwkey]
      by_cases hlt : winsOver o.event w.event = true
      · -- a new winner
        have hno : ¬ beaten (l.take n) o := by
          rintro ⟨-, p, hp, hpacc, -, hpkey, hpo⟩
          have hpw := winsOver_trans hpo hlt
          refine hbest ⟨hwacc, p, hp, hpacc, ?_, ?_, hpw⟩
          · rw [hwkey]; rfl
          · rw [hpkey, hkey, hwkey]
        rw [if_pos hlt]
        refine hinsert _ hno ?_
        rw [setDisposition, hout, modify_map hl.nodup hcur, htake]
        refine map_congr_left fun x hx => ?_
        by_cases hxw : x = w
        · subst hxw
          have hb : beaten (l.take n ++ [o]) x := by
            refine beaten_append.mpr (.inr (beaten_singleton.mpr ⟨hwacc, hacc, ?_, ?_, hlt⟩))
            · rw [hwkey]; rfl
            · rw [hkey, hwkey]
          rw [if_pos rfl, if_pos hwl, if_pos (mem_append_left _ hwl), superseded, superseded,
            if_neg hbest, if_pos hb]
        · rw [if_neg hxw]
          by_cases hxn : x ∈ l.take n
          · have hiff : beaten (l.take n ++ [o]) x ↔ beaten (l.take n) x := by
              refine beaten_append.trans ⟨fun h => h.elim id fun h => ?_, .inl⟩
              obtain ⟨hxacc, -, hxs, hxkey, -⟩ := beaten_singleton.mp h
              have hxk : replacementKey x.event = some key := hxkey.symm.trans hkey
              exact ⟨hxacc, w, hwl, hwacc, hxs, hwkey.trans hxk.symm, hbehind x hxn hxacc hxk hxw⟩
            rw [if_pos hxn, if_pos (mem_append_left _ hxn), superseded_congr hiff]
          · rw [if_neg hxn]
            by_cases hxo : x = o
            · subst hxo
              have hb : ¬ beaten (l.take n ++ [x]) x := fun h => (beaten_append.mp h).elim hno hself
              rw [if_pos (by simp), superseded, if_neg hb]
            · rw [if_neg (by simp [hxn, hxo])]
      · -- the winner stays
        have hwo' : winsOver w.event o.event = true := winsOver_total (fun e => hwo e.symm) hlt
        rw [if_neg hlt]
        have hbo : beaten (l.take n ++ [o]) o := by
          refine beaten_append.mpr (.inl ⟨hacc, w, hwl, hwacc, ?_, ?_, hwo'⟩)
          · rw [hkey]; rfl
          · rw [hkey, hwkey]
        refine ⟨?_, fun k hk => ?_, fun k i hk => ?_⟩
        · dsimp only
          rw [setDisposition, hout, modify_map hl.nodup ho, htake]
          refine map_congr_left fun x hx => ?_
          by_cases hxo : x = o
          · subst hxo
            rw [if_pos rfl, if_neg hnot, if_pos (by simp), superseded, if_pos hbo]
          · rw [if_neg hxo]
            by_cases hxn : x ∈ l.take n
            · have hiff : beaten (l.take n ++ [o]) x ↔ beaten (l.take n) x := by
                refine beaten_append.trans ⟨fun h => h.elim id fun h => ?_, .inl⟩
                obtain ⟨hxacc, -, hxs, hxkey, hox⟩ := beaten_singleton.mp h
                have hxk : replacementKey x.event = some key := hxkey.symm.trans hkey
                exact ⟨hxacc, w, hwl, hwacc, hxs, hwkey.trans hxk.symm, winsOver_trans hwo' hox⟩
              rw [if_pos hxn, if_pos (mem_append_left _ hxn), superseded_congr hiff]
            · rw [if_neg hxn, if_neg (by simp [hxn, hxo])]
        · by_cases hne : key = k
          · subst hne
            exact absurd (hwin.symm.trans hk) (by simp)
          · exact hnone' k (.inl fun e => hne (some_inj.mp (hkey.symm.trans e))) hk
        · by_cases hne : key = k
          · subst hne
            obtain rfl := some_inj.mp (hwin.symm.trans hk)
            refine ⟨w, hcur, by rw [htake]; exact mem_append_left _ hwl, hwacc, hwkey, ?_⟩
            rw [htake, beaten_append]
            rintro (h | h)
            · exact hbest h
            · exact hlt (beaten_singleton.mp h).2.2.2.2
          · exact hsome' k i (.inl fun e => hne (some_inj.mp (hkey.symm.trans e))) hk

theorem replaceAll_eq (hl : DistinctIds l) : replaceAll l = l.map (superseded l) := by
  have hrun : ∀ n, n ≤ l.length → Replaced l n ((List.range n).foldl replaceStep (l, ∅)) := by
    intro n hn
    induction n with
    | zero => exact ⟨by simp, fun k _ x hx => by simp at hx, fun k i h => by simp at h⟩
    | succ n ih =>
      rw [range_succ, foldl_append, foldl_cons, foldl_nil]
      have hlt : n < l.length := by omega
      exact replaceStep_spec hl (ih (by omega)) (getElem?_eq_getElem hlt)
  have h := (hrun l.length le_rfl).outcomes
  rw [replaceAll, h, take_length]
  exact map_congr_left fun x hx => if_pos hx

def armed (o : EventOutcome) : Bool := o.event.kind = 5 && o.disposition = .accepted

def aims (e o : EventOutcome) : Bool := targets e.event o.event

def struck (done : List EventOutcome) (o : EventOutcome) : Bool :=
  done.any fun e => decide (e ≠ o) && aims e o

/-- What an outcome is before its turn in the deletion pass. -/
def shaded (done : List EventOutcome) (o : EventOutcome) : EventOutcome :=
  if struck done o then { o with disposition := .skipped .deletionTombstoned } else o

def settled (all done : List EventOutcome) (o : EventOutcome) : EventOutcome :=
  if struck done o then { o with disposition := .skipped .deletionTombstoned }
  else if armed o && !strikes aims all o then { o with disposition := .skipped .invalidDeletion }
  else o

theorem shaded_event (done : List EventOutcome) (o : EventOutcome) : (shaded done o).event = o.event := by
  unfold shaded
  split <;> rfl

theorem settled_event (all done : List EventOutcome) (o : EventOutcome) :
    (settled all done o).event = o.event := by
  unfold settled
  split
  · rfl
  · split <;> rfl

theorem shaded_with (done : List EventOutcome) (o : EventOutcome) (d : EventDisposition) :
    { shaded done o with disposition := d } = { o with disposition := d } := by
  unfold shaded
  cases struck done o with
  | true => rfl
  | false => rfl

theorem settled_with (all done : List EventOutcome) (o : EventOutcome) (d : EventDisposition) :
    { settled all done o with disposition := d } = { o with disposition := d } := by
  unfold settled
  cases struck done o with
  | true => rfl
  | false =>
    cases armed o && !strikes aims all o with
    | true => rfl
    | false => rfl

/-- The outcomes in the middle of the deletion pass: the first `n` have had their turn. -/
def midway (l : List EventOutcome) (n : Nat) (x : EventOutcome) : EventOutcome :=
  if x ∈ l.take n then settled l (acted armed aims l (l.take n)) x
  else shaded (acted armed aims l (l.take n)) x

theorem midway_event (l : List EventOutcome) (n : Nat) (x : EventOutcome) : (midway l n x).event = x.event := by
  unfold midway
  split
  · exact settled_event ..
  · exact shaded_event ..

theorem any_hit_iff (hl : l.Nodup)
    (ho : l[n]? = some o) {F : EventOutcome → EventOutcome} (hF : ∀ x, (F x).event = x.event) :
    ((l.map F).zipIdx.any fun p => hit o.event n p.2 p.1) = strikes aims l o := by
  rw [Bool.eq_iff_iff, List.any_eq_true, strikes_iff]
  constructor
  · rintro ⟨⟨y, j⟩, hy, hhit⟩
    rw [mem_zipIdx_iff_getElem?, List.getElem?_map, map_eq_some_iff] at hy
    obtain ⟨x, hx, rfl⟩ := hy
    simp only [hit, Bool.and_eq_true, decide_eq_true_eq, ne_eq, hF] at hhit
    refine ⟨x, mem_of_getElem? hx, ?_, hhit.2⟩
    rintro rfl
    exact hhit.1 ((getElem?_inj (List.getElem?_eq_some_iff.mp hx).1 hl).mp (hx.trans ho.symm))
  · rintro ⟨x, hx, hne, haims⟩
    obtain ⟨j, hj⟩ := List.mem_iff_getElem?.mp hx
    refine ⟨(F x, j), ?_, ?_⟩
    · rw [mem_zipIdx_iff_getElem?, List.getElem?_map, hj]
      rfl
    · simp only [hit, Bool.and_eq_true, decide_eq_true_eq, ne_eq, hF]
      refine ⟨?_, haims⟩
      rintro rfl
      exact hne (some_inj.mp (hj.symm.trans ho))

theorem mapIdx_hit (hl : l.Nodup)
    (ho : l[n]? = some o) {F : EventOutcome → EventOutcome} (hF : ∀ x, (F x).event = x.event) :
    ((l.map F).mapIdx fun index target =>
      if hit o.event n index target then { target with disposition := .skipped .deletionTombstoned }
      else target) =
    l.map fun x => if decide (x ≠ o) && aims o x then
      { F x with disposition := .skipped .deletionTombstoned } else F x := by
  refine List.ext_getElem? fun j => ?_
  rw [getElem?_mapIdx, List.getElem?_map, List.getElem?_map]
  cases hj : l[j]? with
  | none => rfl
  | some x =>
    have hiff : j = n ↔ x = o := by
      constructor
      · rintro rfl
        exact some_inj.mp (hj.symm.trans ho)
      · rintro rfl
        exact (getElem?_inj (List.getElem?_eq_some_iff.mp hj).1 hl).mp (hj.trans ho.symm)
    have hsame : hit o.event n j (F x) = (decide (x ≠ o) && aims o x) := by
      simp only [hit, hF, aims, ne_eq, hiff]
    simp only [map_some, hsame]

theorem struck_append {done : List EventOutcome} :
    struck (done ++ [o]) x = (struck done x || (decide (o ≠ x) && aims o x)) := by
  simp [struck]

theorem deleteStep_spec (hl : l.Nodup)
    (ho : l[n]? = some o) : deleteStep (l.map (midway l n)) n = l.map (midway l (n + 1)) := by
  have hnot : o ∉ l.take n := not_mem_take hl ho
  have htake : l.take (n + 1) = l.take n ++ [o] := take_succ ho
  obtain ⟨done, hdone⟩ : ∃ A, acted armed aims l (l.take n) = A := ⟨_, rfl⟩
  have hmid : ∀ x, midway l n x = if x ∈ l.take n then settled l done x else shaded done x := by
    intro x
    rw [midway, hdone]
  have hmid' : ∀ x, midway l (n + 1) x = if x ∈ l.take n ++ [o] then
      settled l (turn armed aims l done o) x else shaded (turn armed aims l done o) x := by
    intro x
    rw [midway, htake, acted_append_singleton, hdone]
  have hat : (l.map (midway l n))[n]? = some (shaded done o) := by
    rw [List.getElem?_map, ho, map_some, hmid, if_neg hnot]
  -- a deletion that has acted is another outcome
  have hne : ∀ e ∈ done, e ≠ o := by
    rintro e he rfl
    rw [← hdone] at he
    exact hnot (of_mem_acted he).1
  have hstruck : struck done o = done.any fun e => aims e o := by
    unfold struck
    rw [Bool.eq_iff_iff, List.any_eq_true, List.any_eq_true]
    constructor
    · rintro ⟨e, he, h⟩
      simp only [Bool.and_eq_true] at h
      exact ⟨e, he, h.2⟩
    · rintro ⟨e, he, h⟩
      exact ⟨e, he, by simp [hne e he, h]⟩
  -- when the outcome does not act, only its own entry may change
  have hkeep : turn armed aims l done o = done → settled l done o = shaded done o →
      l.map (midway l n) = l.map (midway l (n + 1)) := by
    intro hturn hset
    refine map_congr_left fun x _ => ?_
    rw [hmid, hmid', hturn]
    by_cases hx : x ∈ l.take n
    · rw [if_pos hx, if_pos (mem_append_left _ hx)]
    · rw [if_neg hx]
      by_cases hxo : x = o
      · subst hxo
        rw [if_pos (by simp), hset]
      · rw [if_neg (by simp [hx, hxo])]
  unfold deleteStep
  simp only [hat, shaded_event]
  cases hs : struck done o with
  | true =>
    have hdisp : (shaded done o).disposition = .skipped .deletionTombstoned := by
      rw [shaded, hs]
      rfl
    rw [if_pos (.inr (by rw [hdisp]; simp))]
    refine hkeep ?_ ?_
    · rw [turn, ← hstruck, hs]
      simp
    · rw [settled, shaded, hs]
      rfl
  | false =>
    have hsh : shaded done o = o := by rw [shaded, hs]; rfl
    simp only [hsh]
    cases ha : armed o with
    | false =>
      have hcond : o.event.kind ≠ 5 ∨ o.disposition ≠ .accepted := by
        simp only [armed, Bool.and_eq_false_iff, decide_eq_false_iff_not] at ha
        exact ha
      rw [if_pos hcond]
      refine hkeep ?_ ?_
      · rw [turn, ha]
        simp
      · rw [settled, hsh, hs, ha]
        rfl
    | true =>
      have hcond : ¬ (o.event.kind ≠ 5 ∨ o.disposition ≠ .accepted) := by
        simp only [armed, Bool.and_eq_true, decide_eq_true_eq] at ha
        simp [ha.1, ha.2]
      rw [if_neg hcond, any_hit_iff hl ho (midway_event l n)]
      cases hst : strikes aims l o with
      | true =>
        have hturn : turn armed aims l done o = done ++ [o] := by
          rw [turn, ha, hst, ← hstruck, hs]
          rfl
        rw [if_pos rfl, mapIdx_hit hl ho (midway_event l n)]
        refine map_congr_left fun x _ => ?_
        rw [hmid, hmid', hturn]
        by_cases hxo : x = o
        · subst hxo
          have hsx : struck (done ++ [x]) x = false := by
            rw [struck_append, hs]
            simp
          rw [if_neg (show ¬ (decide (x ≠ x) && aims x x) = true by simp), if_neg hnot,
            if_pos (show x ∈ l.take n ++ [x] by simp), settled, hsx, ha, hst, hsh]
          rfl
        · have hcomm : decide (o ≠ x) = decide (x ≠ o) := by simp [hxo, Ne.symm hxo]
          cases haim : decide (x ≠ o) && aims o x with
          | true =>
            have hsx : struck (done ++ [o]) x = true := by rw [struck_append, hcomm, haim, Bool.or_true]
            rw [if_pos rfl]
            by_cases hx : x ∈ l.take n
            · rw [if_pos hx, if_pos (mem_append_left _ hx), settled_with, settled, hsx]
              rfl
            · rw [if_neg hx, if_neg (by simp [hx, hxo]), shaded_with, shaded, hsx]
              rfl
          | false =>
            have hsx : struck (done ++ [o]) x = struck done x := by
              rw [struck_append, hcomm, haim, Bool.or_false]
            rw [if_neg (by simp)]
            by_cases hx : x ∈ l.take n
            · rw [if_pos hx, if_pos (mem_append_left _ hx), settled, settled, hsx]
            · rw [if_neg hx, if_neg (by simp [hx, hxo]), shaded, shaded, hsx]
      | false =>
        have hturn : turn armed aims l done o = done := by
          rw [turn, hst]
          simp
        rw [if_neg (by simp), setDisposition, modify_map hl ho]
        refine map_congr_left fun x _ => ?_
        rw [hmid, hmid', hturn]
        by_cases hxo : x = o
        · subst hxo
          rw [if_pos rfl, if_neg hnot, if_pos (by simp), hsh, settled, hs, ha, hst]
          simp
        · rw [if_neg hxo]
          by_cases hx : x ∈ l.take n
          · rw [if_pos hx, if_pos (mem_append_left _ hx)]
          · rw [if_neg hx, if_neg (by simp [hx, hxo])]

theorem deleteAll_eq (hl : l.Nodup) : deleteAll l = l.map (settled l (acted armed aims l l)) := by
  have hrun : ∀ n, n ≤ l.length → (List.range n).foldl deleteStep l = l.map (midway l n) := by
    intro n hn
    induction n with
    | zero =>
      have hid : ∀ x, midway l 0 x = x := fun x => by simp [midway, acted, shaded, struck]
      exact ((map_congr_left fun x _ => hid x).trans (List.map_id' l)).symm
    | succ n ih =>
      rw [range_succ, foldl_append, foldl_cons, foldl_nil, ih (by omega)]
      have hlt : n < l.length := by omega
      exact deleteStep_spec hl (getElem?_eq_getElem hlt)
  rw [deleteAll, hrun l.length le_rfl]
  refine map_congr_left fun x hx => ?_
  rw [midway, take_length, if_pos hx]

section Resolution

variable {owner : NostrEvent → Except SkipReason (Option B256)} {members : BTreeSet B256}
  {events events' : List NostrEvent}

noncomputable def versions (owner : NostrEvent → Except SkipReason (Option B256))
    (members : BTreeSet B256) (events : List NostrEvent) : List EventOutcome :=
  events.map fun event =>
    superseded (events.map (classified owner members)) (classified owner members event)

noncomputable def resolved (owner : NostrEvent → Except SkipReason (Option B256))
    (members : BTreeSet B256) (events : List NostrEvent) : List EventOutcome :=
  (versions owner members events).map (settled (versions owner members events)
    (acted armed aims (versions owner members events) (versions owner members events)))

theorem classified_event (event : NostrEvent) : (classified owner members event).event = event :=
  classify_event ..

theorem map_event_versions : (versions owner members events).map EventOutcome.event = events := by
  rw [versions, List.map_map]
  refine (map_congr_left fun event _ => ?_).trans (List.map_id' events)
  show (superseded _ _).event = event
  rw [superseded_event, classified_event]

theorem distinctIds_versions (hnd : (events.map NostrEvent.id).Nodup) :
    DistinctIds (versions owner members events) := by
  have h : (versions owner members events).map (fun o => o.event.id) = events.map NostrEvent.id := by
    have hmap : (versions owner members events).map EventOutcome.event = events := map_event_versions
    conv_rhs => rw [← hmap, List.map_map]
    rfl
  rw [DistinctIds, h]
  exact hnd

theorem distinctIds_classified (hnd : (events.map NostrEvent.id).Nodup) :
    DistinctIds (events.map (classified owner members)) := by
  have h : (events.map (classified owner members)).map (fun o => o.event.id) = events.map NostrEvent.id := by
    rw [List.map_map]
    refine map_congr_left fun event _ => ?_
    show (classified owner members event).event.id = event.id
    rw [classified_event]
  rw [DistinctIds, h]
  exact hnd

theorem resolve_eq {H : Hashes} {S : Schnorr} {relay : B256} (hnd : (events.map NostrEvent.id).Nodup) :
    resolve H S events relay = (roster events relay).map fun members =>
      (resolved (Nostr.ownerForEvent H S) members events, members) := by
  unfold resolve resolveWith
  cases hr : roster events relay with
  | error e => rfl
  | ok members =>
    show Except.ok (deleteAll (replaceAll
      (classifyAll (fun s event => (Nostr.ownerForEvent H S event, s)) members () events).1), members) = _
    have hver : replaceAll (events.map (classified (Nostr.ownerForEvent H S) members)) =
        versions (Nostr.ownerForEvent H S) members events := by
      rw [replaceAll_eq (distinctIds_classified hnd), versions, List.map_map]
      rfl
    rw [classifyAll_pure, hver, deleteAll_eq (distinctIds_versions hnd).nodup]
    rfl

variable {o : EventOutcome} {d : NostrEvent}

theorem beaten_perm {l l' : List EventOutcome} (hp : l'.Perm l) : beaten l' o ↔ beaten l o := by
  unfold beaten
  simp only [hp.mem_iff]

theorem settled_congr {all all' done done' : List EventOutcome}
    (hall : all'.Perm all) (hdone : ∀ e, e ∈ done' ↔ e ∈ done) :
    settled all' done' o = settled all done o := by
  have hstruck : struck done' o = struck done o := by
    unfold struck
    rw [Bool.eq_iff_iff, List.any_eq_true, List.any_eq_true]
    simp only [hdone]
  rw [settled, settled, hstruck, strikes_perm hall]

/-- The order of the events matters only through the order of a deletion and a deletion that it is
aimed at. -/
theorem resolved_perm (hnd : (events.map NostrEvent.id).Nodup) (hp : events'.Perm events)
    (horder : ∀ d ∈ events, ∀ t ∈ events, d.kind = 5 → t.kind = 5 → d ≠ t → targets d t = true →
      ([d, t].Sublist events ↔ [d, t].Sublist events')) :
    (resolved owner members events').Perm (resolved owner members events) := by
  -- the first two passes map both lists by one function
  obtain ⟨f, hf⟩ : ∃ f : NostrEvent → EventOutcome, f = fun event =>
      superseded (events.map (classified owner members)) (classified owner members event) := ⟨_, rfl⟩
  have hv : versions owner members events = events.map f := by rw [hf]; rfl
  have hv' : versions owner members events' = events'.map f := by
    rw [hf]
    exact map_congr_left fun event _ => superseded_congr (beaten_perm (hp.map _))
  have hfe : ∀ event, (f event).event = event := by
    intro event
    rw [hf]
    show (superseded _ _).event = event
    rw [superseded_event, classified_event]
  have hback : ∀ l : List NostrEvent, (l.map f).map EventOutcome.event = l := by
    intro l
    rw [List.map_map]
    exact (map_congr_left fun event _ => hfe event).trans (List.map_id' l)
  have hpair : ∀ (l : List NostrEvent) (a b : NostrEvent), [f a, f b].Sublist (l.map f) ↔ [a, b].Sublist l := by
    intro l a b
    constructor
    · intro h
      have h' := h.map EventOutcome.event
      rw [hback] at h'
      simpa [hfe] using h'
    · intro h
      exact h.map f
  have hact : ∀ e, e ∈ acted armed aims (events'.map f) (events'.map f) ↔
      e ∈ acted armed aims (events.map f) (events.map f) := by
    intro e
    have hndf : (events.map f).Nodup := by
      rw [← hv]
      exact (distinctIds_versions hnd).nodup
    refine (mem_acted_perm hndf (hp.map f) ?_ e).symm
    rintro d hd t ht harmed harmed' hne haims
    obtain ⟨a, ha, rfl⟩ := List.mem_map.mp hd
    obtain ⟨b, hb, rfl⟩ := List.mem_map.mp ht
    rw [hpair, hpair]
    simp only [armed, hfe, Bool.and_eq_true, decide_eq_true_eq] at harmed harmed'
    rw [aims, hfe, hfe] at haims
    exact horder a ha b hb harmed.1 harmed'.1 (fun e => hne (e ▸ rfl)) haims
  rw [resolved, resolved, hv, hv', map_congr_left fun x _ => settled_congr (hp.map f) hact]
  exact (hp.map f).map _

theorem replacementKey_deletion (hd : d.kind = 5) : replacementKey d = none := by
  have h1 : ¬ (10000 ≤ d.kind ∧ d.kind < 20000) := by rw [hd]; decide
  have h2 : ¬ addressable d.kind = true := by rw [hd]; decide
  rw [replacementKey, if_neg h1, if_neg h2]

theorem versions_concat (hd : d.kind = 5) : versions owner members (events ++ [d]) =
      versions owner members events ++ [classified owner members d] := by
  have hkey : replacementKey (classified owner members d).event = none := by
    rw [classified_event]
    exact replacementKey_deletion hd
  have hno : ∀ x, ¬ beaten [classified owner members d] x := by
    intro x h
    obtain ⟨-, -, hs, he, -⟩ := beaten_singleton.mp h
    rw [← he, hkey] at hs
    exact absurd hs (by simp)
  have hnot : ∀ l, ¬ beaten l (classified owner members d) := by
    intro l h
    have hs := h.2.choose_spec.2.2.1
    rw [hkey] at hs
    exact absurd hs (by simp)
  rw [versions, versions, map_append, map_append, map_singleton, map_singleton]
  congr 1
  · refine map_congr_left fun event _ => superseded_congr ?_
    exact beaten_append.trans ⟨fun h => h.elim id fun h => absurd h (hno _), .inl⟩
  · rw [superseded, if_neg (hnot _)]

theorem roster_concat (hd : d.kind = 5) (relay : B256) :
    roster (events ++ [d]) relay = roster events relay := by
  have hf : (events ++ [d]).filter (fun event => event.kind = 13534) =
      events.filter fun event => event.kind = 13534 := by
    rw [filter_append]
    simp [hd]
  rw [roster, roster, hf]

/-- What a deletion at the end leaves accepted was accepted before, but for deletions aimed at it. -/
theorem resolved_concat (hd : d.kind = 5) (hnd : ((events ++ [d]).map NostrEvent.id).Nodup)
    (ho : o ∈ resolved owner members (events ++ [d])) (hne : o.event ≠ d)
    (hacc : o.disposition = .accepted) (haim : ¬ (o.event.kind = 5 ∧ targets o.event d = true)) :
    o ∈ resolved owner members events := by
  obtain ⟨l, hl⟩ : ∃ l, versions owner members events = l := ⟨_, rfl⟩
  obtain ⟨last, hlast⟩ : ∃ c, classified owner members d = c := ⟨_, rfl⟩
  have hle : last.event = d := by rw [← hlast, classified_event]
  have hndl : l.Nodup := by
    rw [map_append] at hnd
    rw [← hl]
    exact (distinctIds_versions (nodup_append.mp hnd).1).nodup
  rw [resolved, versions_concat hd, hl, hlast] at ho
  rw [resolved, hl]
  obtain ⟨x, hx, hxo⟩ := List.mem_map.mp ho
  have hxe : x.event = o.event := by rw [← hxo, settled_event]
  have hxl : x ∈ l := by
    rcases mem_append.mp hx with h | h
    · exact h
    · refine absurd ?_ hne
      rw [← hxe, mem_singleton.mp h, hle]
  refine List.mem_map.mpr ⟨x, hxl, ?_⟩
  -- an accepted outcome has been left alone
  unfold settled at hxo ⊢
  cases hs : struck (acted armed aims (l ++ [last]) (l ++ [last])) x with
  | true =>
    rw [hs] at hxo
    rw [← hxo] at hacc
    simp at hacc
  | false =>
    rw [hs] at hxo
    cases hi : armed x && !strikes aims (l ++ [last]) x with
    | true =>
      rw [hi] at hxo
      rw [← hxo] at hacc
      simp at hacc
    | false =>
      rw [hi] at hxo
      have hxo : x = o := hxo
      have hs' : struck (acted armed aims l l) x = false := by
        rw [Bool.eq_false_iff]
        intro h
        obtain ⟨e, he, h⟩ := List.any_eq_true.mp h
        have he' := (acted_concat last hndl (List.Subset.refl l)).1 e he
        have hstruck : struck (acted armed aims (l ++ [last]) (l ++ [last])) x = true :=
          List.any_eq_true.mpr ⟨e, acted_subset_append he', h⟩
        rw [hs] at hstruck
        exact absurd hstruck (by simp)
      have hi' : (armed x && !strikes aims l x) = false := by
        cases ha : armed x with
        | false => rfl
        | true =>
          have hst : strikes aims (l ++ [last]) x = true := by
            rw [ha] at hi
            simpa using hi
          obtain ⟨y, hy, hyx, haims⟩ := strikes_iff.mp hst
          have hyl : y ∈ l := by
            rcases mem_append.mp hy with h | h
            · exact h
            · refine absurd ⟨?_, ?_⟩ haim
              · simp only [armed, Bool.and_eq_true, decide_eq_true_eq] at ha
                rw [← hxe]
                exact ha.1
              · rw [aims, mem_singleton.mp h, hle, hxe] at haims
                exact haims
          rw [strikes_iff.mpr ⟨y, hyl, hyx, haims⟩]
          rfl
      rw [hs', hi']
      exact hxo

end Resolution

/-- Nostr state resolution depends on the set of the events, and on their order only in this: which of
two deletions comes first when one is aimed at the other. A deletion at the end makes no other event
accepted but a deletion that is aimed at it. -/
theorem resolve_order (H : Hashes) (S : Schnorr) (relay : B256) :
    (∀ events events' outcomes members, (events.map NostrEvent.id).Nodup → events'.Perm events →
      (∀ d ∈ events, ∀ t ∈ events, d.kind = 5 → t.kind = 5 → d ≠ t → targets d t = true →
        ([d, t].Sublist events ↔ [d, t].Sublist events')) →
      resolve H S events relay = .ok (outcomes, members) →
      ∃ outcomes', resolve H S events' relay = .ok (outcomes', members) ∧ outcomes'.Perm outcomes) ∧
    ∀ events d outcomes members outcomes' members', ((events ++ [d]).map NostrEvent.id).Nodup → d.kind = 5 →
      resolve H S events relay = .ok (outcomes, members) →
      resolve H S (events ++ [d]) relay = .ok (outcomes', members') →
      members' = members ∧ ∀ o ∈ outcomes', o.event ≠ d → o.disposition = .accepted →
        ¬ (o.event.kind = 5 ∧ targets o.event d = true) → o ∈ outcomes := by
  constructor
  · intro events events' outcomes members hnd hp horder h
    rw [resolve_eq hnd, Outcome.map_eq_ok] at h
    obtain ⟨m, hm, he⟩ := h
    obtain ⟨rfl, rfl⟩ := Prod.mk.inj he
    have hnd' : (events'.map NostrEvent.id).Nodup := (hp.map _).nodup_iff.mpr hnd
    refine ⟨resolved (ownerForEvent H S) m events', ?_, resolved_perm hnd hp horder⟩
    rw [resolve_eq hnd', roster_perm hp hnd, hm]
    rfl
  · intro events d outcomes members outcomes' members' hnd hd h h'
    have hnd₁ : (events.map NostrEvent.id).Nodup := by
      rw [map_append] at hnd
      exact (nodup_append.mp hnd).1
    rw [resolve_eq hnd₁, Outcome.map_eq_ok] at h
    rw [resolve_eq hnd, roster_concat hd, Outcome.map_eq_ok] at h'
    obtain ⟨m, hm, he⟩ := h
    obtain ⟨rfl, rfl⟩ := Prod.mk.inj he
    obtain ⟨m', hm', he'⟩ := h'
    obtain rfl := Except.ok.inj (hm'.symm.trans hm)
    obtain ⟨rfl, rfl⟩ := Prod.mk.inj he'
    exact ⟨rfl, fun o ho hne hacc haim => resolved_concat hd hnd ho hne hacc haim⟩

namespace StateExample

def b256 (b : UInt8) : B256 := .replicate 32 b

def text (s : String) (h : validUtf8 (utf8 s) = true) : Str := ⟨utf8 s, h⟩

def hex2 : Str := ⟨encodeHex (b256 2).bytes, by decide⟩

def hex11 : Str := ⟨encodeHex (b256 11).bytes, by decide⟩

def hex12 : Str := ⟨encodeHex (b256 12).bytes, by decide⟩

def event (id pubkey : UInt8) (created_at : UInt64) (kind : UInt16) (tags : List (List Str)) : NostrEvent :=
  ⟨b256 id, b256 pubkey, created_at, kind, tags, ⟨[], rfl⟩, List.replicate 64 0⟩

def rosterEvent : NostrEvent :=
  event 200 1 1 13534 [[text "-" (by decide)],
    [text "member" (by decide), hex2, text "member" (by decide)]]

def post : NostrEvent := event 11 2 5 45001 []

def deletion : NostrEvent := event 12 2 6 5 [[text "e" (by decide), hex11]]

def undeletion : NostrEvent := event 13 2 7 5 [[text "e" (by decide), hex12]]

def hashes : Hashes := ⟨fun _ => 0, fun _ => 0⟩

def schnorr : Schnorr := ⟨fun _ => false, fun _ => false, fun _ _ _ => false⟩

def verdict (o : EventOutcome) : B256 × EventDisposition := (o.event.id, o.disposition)

def verdicts (events : List NostrEvent) : Option (List (B256 × EventDisposition)) :=
  (resolve hashes schnorr events (b256 1)).toOption.map fun r => r.1.map verdict

theorem verdicts_eq : (verdicts [rosterEvent, post, undeletion, deletion] =
        some [(b256 200, .accepted), (b256 11, .accepted), (b256 13, .accepted),
          (b256 12, .skipped .deletionTombstoned)] ∧
      verdicts [rosterEvent, post, deletion, undeletion] =
        some [(b256 200, .accepted), (b256 11, .skipped .deletionTombstoned),
          (b256 12, .skipped .deletionTombstoned), (b256 13, .accepted)]) ∧
    (verdicts [rosterEvent, undeletion] = some [(b256 200, .accepted), (b256 13, .skipped .invalidDeletion)] ∧
      verdicts [rosterEvent, undeletion, deletion] =
        some [(b256 200, .accepted), (b256 13, .accepted), (b256 12, .skipped .deletionTombstoned)]) ∧
    verdicts [rosterEvent, post] = some [(b256 200, .accepted), (b256 11, .accepted)] ∧
      verdicts [rosterEvent, post, deletion] =
        some [(b256 200, .accepted), (b256 11, .skipped .deletionTombstoned), (b256 12, .accepted)] := by
  decide +kernel

theorem events_nodup : (([rosterEvent, post, undeletion, deletion].map NostrEvent.id).Nodup ∧
      [rosterEvent, post, deletion, undeletion].Perm [rosterEvent, post, undeletion, deletion]) ∧
    (([rosterEvent, post, deletion].map NostrEvent.id).Nodup ∧
      [undeletion, deletion, post, rosterEvent].Perm [rosterEvent, post, undeletion, deletion]) ∧
    (([rosterEvent, undeletion] ++ [deletion]).map NostrEvent.id).Nodup := by
  decide +kernel

theorem of_verdicts (events : List NostrEvent) (vs : List (B256 × EventDisposition))
    (h : verdicts events = some vs) : ∃ outcomes members,
      resolve hashes schnorr events (b256 1) = .ok (outcomes, members) ∧ outcomes.map verdict = vs := by
  unfold verdicts at h
  cases hr : resolve hashes schnorr events (b256 1) with
  | error e => simp [hr, Except.toOption] at h
  | ok r =>
    rw [hr] at h
    exact ⟨r.1, r.2, rfl, some_inj.mp h⟩

end StateExample

open StateExample in
/-- A deletion of a deletion counts when it comes first and comes too late otherwise; and a deletion
without a target is accepted once its target is there. -/
theorem resolve_depends_on_order :
    (¬ ∀ events events' outcomes members, (events.map NostrEvent.id).Nodup → events'.Perm events →
      resolve hashes schnorr events (b256 1) = .ok (outcomes, members) →
      ∃ outcomes', resolve hashes schnorr events' (b256 1) = .ok (outcomes', members) ∧
        outcomes'.Perm outcomes) ∧
    ¬ ∀ events d outcomes members outcomes' members', ((events ++ [d]).map NostrEvent.id).Nodup → d.kind = 5 →
      resolve hashes schnorr events (b256 1) = .ok (outcomes, members) →
      resolve hashes schnorr (events ++ [d]) (b256 1) = .ok (outcomes', members') →
      ∀ o ∈ outcomes', o.event ≠ d → o.disposition = .accepted →
        ∃ p ∈ outcomes, p.event = o.event ∧ p.disposition = .accepted := by
  constructor
  · intro h
    obtain ⟨outcomes, members, hr, hv⟩ := of_verdicts
      [rosterEvent, post, undeletion, deletion]
      [(b256 200, .accepted), (b256 11, .accepted), (b256 13, .accepted),
        (b256 12, .skipped .deletionTombstoned)] verdicts_eq.1.1
    obtain ⟨outcomes₂, members₂, hr₂, hv₂⟩ := of_verdicts
      [rosterEvent, post, deletion, undeletion]
      [(b256 200, .accepted), (b256 11, .skipped .deletionTombstoned),
        (b256 12, .skipped .deletionTombstoned), (b256 13, .accepted)] verdicts_eq.1.2
    obtain ⟨outcomes₃, hr₃, hp⟩ := h _ [rosterEvent, post, deletion, undeletion] outcomes members
      events_nodup.1.1 events_nodup.1.2 hr
    obtain ⟨rfl, -⟩ := Prod.mk.inj (Except.ok.inj (hr₂.symm.trans hr₃))
    have hperm := hp.map verdict
    rw [hv, hv₂] at hperm
    exact absurd hperm (by decide)
  · intro h
    obtain ⟨outcomes, members, hr, hv⟩ := of_verdicts [rosterEvent, undeletion]
      [(b256 200, .accepted), (b256 13, .skipped .invalidDeletion)] verdicts_eq.2.1.1
    obtain ⟨outcomes₂, members₂, hr₂, hv₂⟩ := of_verdicts
      [rosterEvent, undeletion, deletion]
      [(b256 200, .accepted), (b256 13, .accepted), (b256 12, .skipped .deletionTombstoned)] verdicts_eq.2.1.2
    have hmem : (b256 13, EventDisposition.accepted) ∈ outcomes₂.map verdict := by
      rw [hv₂]
      simp
    obtain ⟨o, ho, hov⟩ := List.mem_map.mp hmem
    have hid : o.event.id = b256 13 := congrArg Prod.fst hov
    have hne : o.event ≠ deletion := by
      intro e
      rw [e] at hid
      exact absurd hid (by decide)
    obtain ⟨p, hp, hpe, hpacc⟩ := h _ deletion outcomes members outcomes₂ members₂
      events_nodup.2.2 rfl hr hr₂ o ho hne (congrArg Prod.snd hov)
    have hpv : verdict p ∈ outcomes.map verdict := List.mem_map_of_mem hp
    rw [hv, verdict, hpe, hid, hpacc] at hpv
    exact absurd hpv (by decide)

open StateExample in
/-- A post, its deletion and the deletion of that, with the two deletions in one order; and the deletion
appended to the post. -/
theorem resolve_order_deletion : (∃ outcomes members outcomes',
      resolve hashes schnorr [rosterEvent, post, undeletion, deletion] (b256 1) = .ok (outcomes, members) ∧
      outcomes.map verdict = [(b256 200, .accepted), (b256 11, .accepted), (b256 13, .accepted),
        (b256 12, .skipped .deletionTombstoned)] ∧
      resolve hashes schnorr [undeletion, deletion, post, rosterEvent] (b256 1) = .ok (outcomes', members) ∧
      outcomes'.Perm outcomes) ∧
    ∃ outcomes members outcomes' members',
      resolve hashes schnorr [rosterEvent, post] (b256 1) = .ok (outcomes, members) ∧
      resolve hashes schnorr ([rosterEvent, post] ++ [deletion]) (b256 1) = .ok (outcomes', members') ∧
      members' = members ∧ ∀ o ∈ outcomes', o.event ≠ deletion → o.disposition = .accepted →
        ¬ (o.event.kind = 5 ∧ targets o.event deletion = true) → o ∈ outcomes := by
  have h := resolve_order hashes schnorr (b256 1)
  constructor
  · obtain ⟨outcomes, members, hr, hv⟩ := of_verdicts [rosterEvent, post, undeletion, deletion]
      [(b256 200, .accepted), (b256 11, .accepted), (b256 13, .accepted),
        (b256 12, .skipped .deletionTombstoned)] verdicts_eq.1.1
    obtain ⟨outcomes', hr', hperm⟩ := h.1 [rosterEvent, post, undeletion, deletion]
      [undeletion, deletion, post, rosterEvent] outcomes members events_nodup.1.1 events_nodup.2.1.2
      (by decide) hr
    exact ⟨outcomes, members, outcomes', hr, hv, hr', hperm⟩
  · obtain ⟨outcomes, members, hr, -⟩ := of_verdicts [rosterEvent, post]
      [(b256 200, .accepted), (b256 11, .accepted)] verdicts_eq.2.2.1
    obtain ⟨outcomes₂, members₂, hr₂, -⟩ := of_verdicts [rosterEvent, post, deletion]
      [(b256 200, .accepted), (b256 11, .skipped .deletionTombstoned), (b256 12, .accepted)] verdicts_eq.2.2.2
    exact ⟨outcomes, members, outcomes₂, members₂, hr, hr₂,
      h.2 [rosterEvent, post] deletion outcomes members outcomes₂ members₂ events_nodup.2.1.1 rfl hr
        hr₂⟩

end Trustgraphs.Nostr
