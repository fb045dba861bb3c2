import Trustgraphs.Lib.Replay
import Trustgraphs.PagerankCore.Proofs.ReconcileProofs

/-!
# Reconciliation replays the events on one register a pair

The nested maps of the state machine are registers, one for each attester and recipient
(`Registers.replay`).
-/

namespace Trustgraphs.Reconcile

open Option Function List BitVec

/-- The registers of the state machine, one for each attester and recipient. -/
def events : Registers RawEdge (Address × Address) B256 where
  key e := (e.attester, e.recipient)
  name e := e.uid
  sets e := e.kind == 0
  clears e := e.kind == 1

def entry (current : Current) (k : Address × Address) : Option (B256 × U256) :=
  current[k.1]?.bind fun row => row[k.2]?

/-- An entry is the uid and the weight of the event behind it. -/
def Backs (p : Params) : Option RawEdge → Option (B256 × U256) → Prop
  | none, none => True
  | some e, some x => x.1 = e.uid ∧ weightFp e p = some x.2
  | _, _ => False

variable {p : Params} {current current' : Current}

theorem entry_insert (a : Address) (row : BTreeMap Address (B256 × U256)) (k : Address × Address) :
    entry (current.insert a row) k = if a = k.1 then row[k.2]? else entry current k := by
  rw [entry, BTreeMap.getElem?_insert]
  by_cases h : a = k.1
  · rw [if_pos h, if_pos h]
    rfl
  · rw [if_neg h, if_neg h]
    rfl

theorem entry_erase (a : Address) (k : Address × Address) :
    entry (current.erase a) k = if a = k.1 then none else entry current k := by
  rw [entry, BTreeMap.getElem?_erase]
  by_cases h : a = k.1
  · rw [if_pos h, if_pos h]
    rfl
  · rw [if_neg h, if_neg h]
    rfl

theorem entry_of_row {a r : Address} {row : BTreeMap Address (B256 × U256)}
    (h : current[a]? = some row) : entry current (a, r) = row[r]? := by
  rw [entry, h]
  rfl

variable {a : RawEdge × ℕ} {e : RawEdge} {b : RawEdge × ℕ}

theorem entry_attest (h0 : e.kind = 0) (h : applyEvent p current e = some current') :
    ∃ w, weightFp e p = some w ∧ entry current' = update (entry current) (events.key e) (some (e.uid, w)) := by
  rw [applyEvent, if_pos h0, bind_eq_bind, bind_eq_some_iff] at h
  obtain ⟨w, hw, h⟩ := h
  obtain rfl := Option.some.inj h
  refine ⟨w, hw, funext fun k => ?_⟩
  have hrow : ∀ r, (current.getD e.attester ∅)[r]? = entry current (e.attester, r) := by
    intro r
    rw [entry, Std.ExtTreeMap.getD_eq_getD_getElem?]
    cases current[e.attester]? with
    | none => simp
    | some row => rfl
  rw [entry_insert, BTreeMap.getElem?_insert, hrow]
  obtain ⟨a, r⟩ := k
  by_cases ha : e.attester = a
  · subst ha
    by_cases hr : e.recipient = r
    · subst hr
      simp [events]
    · rw [if_pos rfl, if_neg hr, update_of_ne]
      exact fun he => hr (congrArg Prod.snd he).symm
  · rw [if_neg ha, update_of_ne]
    exact fun he => ha (congrArg Prod.fst he).symm

/-- A revocation clears the entry of its pair when it names it. -/
theorem entry_revoke (h1 : e.kind = 1) (h : applyEvent p current e = some current') :
    entry current' = if (entry current (events.key e)).any (fun x => x.1 == e.uid) then
      update (entry current) (events.key e) none else entry current := by
  have h0 : e.kind ≠ 0 := by rw [h1]; decide
  rw [applyEvent, if_neg h0, if_pos h1] at h
  cases ha : current[e.attester]? with
  | none =>
    rw [ha] at h
    obtain rfl := Option.some.inj h
    have hnone : entry current (events.key e) = none := by
      show (current[e.attester]?.bind _) = none
      rw [ha]
      rfl
    rw [hnone]
    rfl
  | some row =>
    rw [ha] at h
    set row' := if row[e.recipient]?.any fun x => x.1 == e.uid then row.erase e.recipient
      else row with hrow'
    -- an empty row is dropped, which no lookup notices
    have hnew : ∀ a r, entry current' (a, r) =
        if e.attester = a then row'[r]? else entry current (a, r) := by
      intro a r
      change (if row'.isEmpty then some (current.erase e.attester)
        else some (current.insert e.attester row')) = some current' at h
      by_cases hempty : row'.isEmpty
      · rw [if_pos hempty, some_inj] at h
        rw [← h, entry_erase]
        by_cases hae : e.attester = a
        · rw [if_pos hae, if_pos hae]
          have : row' = ∅ := Std.ExtTreeMap.isEmpty_iff.mp hempty
          rw [this]
          simp
        · rw [if_neg hae, if_neg hae]
      · rw [if_neg hempty, some_inj] at h
        rw [← h, entry_insert]
    have hcur : entry current (events.key e) = row[e.recipient]? := entry_of_row ha
    rw [hcur]
    funext ⟨a, r⟩
    rw [hnew]
    by_cases hany : row[e.recipient]?.any fun x => x.1 == e.uid
    · rw [if_pos hany, hrow', if_pos hany, BTreeMap.getElem?_erase]
      by_cases hae : e.attester = a
      · subst hae
        by_cases hr : e.recipient = r
        · subst hr
          simp [events]
        · rw [if_pos rfl, if_neg hr, update_of_ne, entry_of_row ha]
          exact fun he => hr (congrArg Prod.snd he).symm
      · rw [if_neg hae, update_of_ne]
        exact fun he => hae (congrArg Prod.fst he).symm
    · rw [if_neg hany, hrow', if_neg hany]
      by_cases hae : e.attester = a
      · subst hae
        rw [if_pos rfl, entry_of_row ha]
      · rw [if_neg hae]

theorem applyEvent_other (h0 : e.kind ≠ 0) (h1 : e.kind ≠ 1)
    (h : applyEvent p current e = some current') : current' = current := by
  rw [applyEvent, if_neg h0, if_neg h1] at h
  exact (Option.some.inj h).symm

theorem Backs.any {held : Option RawEdge} {x : Option (B256 × U256)} (h : Backs p held x) (uid : B256) :
    (x.any fun x => x.1 == uid) = held.any fun f => decide (f.uid = uid) := by
  match held, x, h with
  | none, none, _ => rfl
  | some e, some x, h =>
    show (x.1 == uid) = decide (e.uid = uid)
    rw [h.1]
    rfl

theorem applyEvent_backs {held : Address × Address → Option RawEdge}
    (hheld : ∀ k, Backs p (held k) (entry current k)) (h : applyEvent p current e = some current')
    (k : Address × Address) : Backs p (events.apply held e k) (entry current' k) := by
  by_cases h0 : e.kind = 0
  · obtain ⟨w, hw, hnew⟩ := entry_attest h0 h
    rw [hnew, Registers.apply, if_pos (by simpa [events] using h0)]
    by_cases hk : k = events.key e
    · subst hk
      rw [update_self, update_self]
      exact ⟨rfl, hw⟩
    · rw [update_of_ne hk, update_of_ne hk]
      exact hheld k
  · have hset : ¬ events.sets e = true := by simpa [events] using h0
    by_cases h1 : e.kind = 1
    · rw [entry_revoke h1 h, (hheld (events.key e)).any, Registers.apply, if_neg hset]
      have hclear : events.clears e = true := by simpa [events] using h1
      by_cases hany : (held (events.key e)).any fun f => decide (f.uid = e.uid)
      · rw [if_pos ⟨hclear, hany⟩, if_pos hany]
        by_cases hk : k = events.key e
        · subst hk
          rw [update_self, update_self]
          trivial
        · rw [update_of_ne hk, update_of_ne hk]
          exact hheld k
      · rw [if_neg fun hc => hany hc.2, if_neg hany]
        exact hheld k
    · rw [applyEvent_other h0 h1 h, Registers.apply, if_neg hset,
        if_neg fun hc => h1 (by simpa [events] using hc.1)]
      exact hheld k

theorem foldlM_applyEvent_backs {l : List RawEdge}
    (h : l.foldlM (applyEvent p) ∅ = some current) (k : Address × Address) :
    Backs p (events.replay l k) (entry current k) := by
  induction l using List.reverseRecOn generalizing current k with
  | nil =>
    obtain rfl : (∅ : Current) = current := Option.some.inj h
    rw [entry, BTreeMap.not_mem_iff_getElem?.mp Std.ExtTreeMap.not_mem_empty]
    trivial
  | append_singleton l e ih =>
    rw [foldlM_append, bind_eq_bind, bind_eq_some_iff] at h
    obtain ⟨mid, hmid, h⟩ := h
    rw [foldlM_cons, bind_eq_bind, bind_eq_some_iff] at h
    obtain ⟨last, hlast, h⟩ := h
    obtain rfl : last = current := Option.some.inj h
    rw [Registers.replay_concat]
    exact applyEvent_backs (ih hmid) hlast k

/-- The second event comes later in the canonical order. -/
def Later (a b : RawEdge × ℕ) : Prop :=
  a.1.blockTimestamp < b.1.blockTimestamp ∨ a.1.blockTimestamp = b.1.blockTimestamp ∧ a.2 < b.2

theorem later_iff : Later a b ↔ a.1.blockTimestamp.toNat < b.1.blockTimestamp.toNat ∨
      a.1.blockTimestamp.toNat = b.1.blockTimestamp.toNat ∧ a.2 < b.2 := by
  rw [Later, UInt64.lt_iff_toNat_lt, UInt64.toNat_inj]

theorem Later.asymm (h : Later a b) : ¬ Later b a := by
  rw [later_iff] at h ⊢
  omega

theorem before_iff : before a b = true ↔ a.1.blockTimestamp.toNat < b.1.blockTimestamp.toNat ∨
      a.1.blockTimestamp.toNat = b.1.blockTimestamp.toNat ∧ a.2 ≤ b.2 := by
  rw [before, Bool.or_eq_true, Bool.and_eq_true, decide_eq_true_eq, decide_eq_true_eq, beq_iff_eq,
    UInt64.lt_iff_toNat_lt, UInt64.toNat_inj]

/-- The events in canonical order, with their positions. -/
def positioned (edges : List RawEdge) : List (RawEdge × ℕ) :=
  edges.zipIdx.insertionSort fun a b => before a b

theorem positioned_sorted (edges : List RawEdge) : (positioned edges).Pairwise Later := by
  have htotal : Std.Total fun a b : RawEdge × ℕ => before a b = true := ⟨by
    intro a b
    rw [before_iff, before_iff]
    omega⟩
  have htrans : IsTrans (RawEdge × ℕ) fun a b => before a b = true := ⟨by
    intro a b c
    rw [before_iff, before_iff, before_iff]
    omega⟩
  have hsorted : (positioned edges).Pairwise fun a b => before a b = true := pairwise_insertionSort _ _
  have hnodup : (positioned edges).Pairwise fun a b => a.2 ≠ b.2 := by
    have hperm : ((positioned edges).map Prod.snd).Perm (edges.zipIdx.map Prod.snd) :=
      (perm_insertionSort ..).map _
    rw [← pairwise_map (R := (· ≠ ·))]
    refine hperm.symm.nodup ?_
    rw [zipIdx_map_snd]
    exact nodup_range'
  refine (hsorted.and hnodup).imp fun h => ?_
  have hb := before_iff.mp h.1
  have hne := h.2
  rw [later_iff]
  omega

theorem mem_positioned {edges : List RawEdge} : a ∈ positioned edges ↔ edges[a.2]? = some a.1 := by
  rw [positioned, (perm_insertionSort ..).mem_iff, mem_zipIdx_iff_getElem?]

theorem replay_ordered {edges : List RawEdge} {k : Address × Address} :
    events.replay (ordered edges) k = some e ↔ ∃ i, edges[i]? = some e ∧ e.kind = 0 ∧
      (e.attester, e.recipient) = k ∧ ∀ j f, edges[j]? = some f → Later (e, i) (f, j) →
        ¬ events.Displaces e f := by
  have hmap : ordered edges = (positioned edges).map Prod.fst := rfl
  rw [hmap, Registers.replay_map, map_eq_some_iff]
  constructor
  · rintro ⟨⟨e', i⟩, h, rfl⟩
    obtain ⟨hmem, hset, hk, hlater⟩ :=
      (Registers.replay_sorted (positioned_sorted edges) fun _ _ h => h.asymm).mp h
    exact ⟨i, mem_positioned.mp hmem, by simpa [events, Registers.comap] using hset, hk,
      fun j f hf => hlater (f, j) (mem_positioned.mpr hf)⟩
  · rintro ⟨i, he, hset, hk, hlater⟩
    refine ⟨(e, i), (Registers.replay_sorted (positioned_sorted edges) fun _ _ h => h.asymm).mpr
      ⟨mem_positioned.mpr he, ?_, hk, fun f hf => hlater f.2 f.1 (mem_positioned.mp hf)⟩, rfl⟩
    simpa [events, Registers.comap] using hset

def Graph.edge? (graph : Graph) (k : Address × Address) : Option U256 :=
  graph.outgoing[k.1]?.bind fun row => row[k.2]?

theorem edge?_ofCurrent (current : Current) (k : Address × Address) :
    (ofCurrent current).edge? k = (entry current k).map Prod.snd := by
  rw [Graph.edge?, getElem?_outgoing_ofCurrent, entry]
  cases current[k.1]? with
  | none => rfl
  | some row =>
    show (row.map fun _ entry => entry.2)[k.2]? = _
    rw [BTreeMap.getElem?_map]
    rfl

/-- The confidence that an event states, zero when its data is too short. -/
def confidence (p : Params) (e : RawEdge) : ℕ := ((decodeWeight e.data p.weightFieldIndex).getD 0).toNat

def boundedWeight (p : Params) (e : RawEdge) : ℕ :=
  min (max (confidence p e * p.precisionScale.toNat) p.minWeightFp.toNat) p.maxWeightFp.toNat

theorem clamp_spec {x lo hi : U256} (h : lo.toNat ≤ hi.toNat) :
    ∃ w, clamp x lo hi = some w ∧ w.toNat = min (max x.toNat lo.toNat) hi.toNat := by
  have hlt : ¬ hi < lo := by
    rw [lt_def]
    omega
  rw [clamp, if_neg hlt]
  refine ⟨_, rfl, ?_⟩
  by_cases hlo : x < lo
  · rw [if_pos hlo]
    rw [lt_def] at hlo
    omega
  · rw [if_neg hlo]
    rw [lt_def] at hlo
    by_cases hhi : hi < x
    · rw [if_pos hhi]
      rw [lt_def] at hhi
      omega
    · rw [if_neg hhi]
      rw [lt_def] at hhi
      omega

theorem weightFp_eq (hp : WeightBounds p) (e : RawEdge) :
    ∃ w, weightFp e p = some w ∧ w.toNat = boundedWeight p e := by
  have hscale : 0 < p.precisionScale.toNat := by
    have h := hp.scale_pos
    rw [ne_eq, ← toNat_inj] at h
    exact Nat.pos_of_ne_zero h
  have hmin := hp.min_le
  rw [boundedWeight, confidence, weightFp, if_neg hp.scale_pos]
  set c := (decodeWeight e.data p.weightFieldIndex).getD 0 with hc
  change ∃ w, (if p.maxWeightFp / p.precisionScale < c then some p.maxWeightFp
    else clamp (c * p.precisionScale) p.minWeightFp p.maxWeightFp) = some w ∧ _
  have hcap : p.maxWeightFp / p.precisionScale < c ↔
      p.maxWeightFp.toNat < c.toNat * p.precisionScale.toNat := by
    rw [lt_def, toNat_udiv, Nat.div_lt_iff_lt_mul hscale]
  by_cases h : p.maxWeightFp / p.precisionScale < c
  · rw [if_pos h]
    rw [hcap] at h
    exact ⟨_, rfl, by omega⟩
  · rw [if_neg h]
    rw [hcap] at h
    have hmax := p.maxWeightFp.isLt
    have hmul : (c * p.precisionScale).toNat = c.toNat * p.precisionScale.toNat := by
      rw [toNat_mul, Nat.mod_eq_of_lt (by omega)]
    obtain ⟨w, hw, hwn⟩ := clamp_spec (x := c * p.precisionScale) hmin
    exact ⟨w, hw, by rw [hwn, hmul]⟩

/-- The attestation at a position that no later attestation of its pair follows, and no later
revocation of its pair that names it. -/
def LastWriter (edges : List RawEdge) (k : Address × Address) (i : ℕ) (e : RawEdge) : Prop :=
  edges[i]? = some e ∧ e.kind = 0 ∧ (e.attester, e.recipient) = k ∧
    ∀ (j : ℕ) (f : RawEdge), edges[j]? = some f → (f.attester, f.recipient) = k →
      Later (e, i) (f, j) → f.kind ≠ 0 ∧ (f.kind = 1 → f.uid ≠ e.uid)

theorem replay_eq_lastWriter {edges : List RawEdge} {k : Address × Address} :
    events.replay (ordered edges) k = some e ↔ ∃ i, LastWriter edges k i e := by
  rw [replay_ordered]
  have hdisplaces : ∀ f : RawEdge, (e.attester, e.recipient) = k →
      (¬ events.Displaces e f ↔ ((f.attester, f.recipient) = k →
        f.kind ≠ 0 ∧ (f.kind = 1 → f.uid ≠ e.uid))) := by
    rintro f rfl
    simp only [Registers.Displaces, events, beq_iff_eq]
    tauto
  constructor
  · rintro ⟨i, he, h0, hk, hlater⟩
    exact ⟨i, he, h0, hk, fun j f hf hkf hlt => (hdisplaces f hk).mp (hlater j f hf hlt) hkf⟩
  · rintro ⟨i, he, h0, hk, hlater⟩
    exact ⟨i, he, h0, hk, fun j f hf hlt => (hdisplaces f hk).mpr fun hkf => hlater j f hf hkf hlt⟩

/-- No attester is left without a recipient. -/
theorem applyEvent_nonempty
    (hne : ∀ (a : Address) (row : BTreeMap Address (B256 × U256)), current[a]? = some row → row ≠ ∅)
    (h : applyEvent p current e = some current') (a : Address) (row : BTreeMap Address (B256 × U256))
    (ha : current'[a]? = some row) : row ≠ ∅ := by
  rw [applyEvent] at h
  by_cases h0 : e.kind = 0
  · rw [if_pos h0, bind_eq_bind, bind_eq_some_iff] at h
    obtain ⟨w, -, h⟩ := h
    obtain rfl := Option.some.inj h
    rw [BTreeMap.getElem?_insert] at ha
    by_cases hea : e.attester = a
    · rw [if_pos hea, some_inj] at ha
      subst ha
      exact Std.ExtTreeMap.insert_ne_empty
    · rw [if_neg hea] at ha
      exact hne a row ha
  · rw [if_neg h0] at h
    by_cases h1 : e.kind = 1
    · rw [if_pos h1] at h
      cases hrow : current[e.attester]? with
      | none =>
        rw [hrow] at h
        obtain rfl := Option.some.inj h
        exact hne a row ha
      | some old =>
        rw [hrow] at h
        set old' := if old[e.recipient]?.any fun x => x.1 == e.uid then old.erase e.recipient
          else old with hold'
        change (if old'.isEmpty then some (current.erase e.attester)
          else some (current.insert e.attester old')) = some current' at h
        by_cases hempty : old'.isEmpty
        · rw [if_pos hempty, some_inj] at h
          rw [← h] at ha
          exact hne a row (BTreeMap.getElem?_of_erase ha)
        · rw [if_neg hempty, some_inj] at h
          rw [← h, BTreeMap.getElem?_insert] at ha
          by_cases hea : e.attester = a
          · rw [if_pos hea, some_inj] at ha
            subst ha
            exact fun he => hempty (Std.ExtTreeMap.isEmpty_iff.mpr he)
          · rw [if_neg hea] at ha
            exact hne a row ha
    · rw [if_neg h1, some_inj] at h
      rw [← h] at ha
      exact hne a row ha

theorem foldlM_applyEvent_nonempty {l : List RawEdge} (h : l.foldlM (applyEvent p) ∅ = some current)
    (a : Address) (row : BTreeMap Address (B256 × U256)) (ha : current[a]? = some row) : row ≠ ∅ := by
  induction l using List.reverseRecOn generalizing current a row with
  | nil =>
    obtain rfl : (∅ : Current) = current := Option.some.inj h
    exact absurd ha (by simp)
  | append_singleton l e ih =>
    rw [foldlM_append, bind_eq_bind, bind_eq_some_iff] at h
    obtain ⟨mid, hmid, h⟩ := h
    rw [foldlM_cons, bind_eq_bind, bind_eq_some_iff] at h
    obtain ⟨last, hlast, h⟩ := h
    obtain rfl : last = current := Option.some.inj h
    exact applyEvent_nonempty (ih hmid) hlast a row ha

/-- Reconciliation keeps of each pair its last writer, with its bounded weight, and nothing else. -/
theorem buildGraph_last_writer (p : Params) (hp : WeightBounds p) (edges : List RawEdge) :
    ∃ graph, buildGraph edges p = some graph ∧ (∀ (a r : Address) (w : U256), graph.edge? (a, r) = some w ↔
        ∃ i e, LastWriter edges (a, r) i e ∧ w.toNat = boundedWeight p e) ∧
      graph.nodes.Pairwise (· < ·) ∧
      (∀ a, a ∈ graph.nodes ↔ ∃ b, (graph.edge? (a, b)).isSome = true ∨ (graph.edge? (b, a)).isSome = true) ∧
      ∀ (a : Address) (row : BTreeMap Address U256), graph.outgoing[a]? = some row → row ≠ ∅ := by
  have hempty : RowsBounded 0 p.maxWeightFp.toNat ∅ := ⟨by simp, by simp⟩
  obtain ⟨current, hcurrent, -⟩ := foldlM_applyEvent hp (ordered edges) hempty
  have hbacks := foldlM_applyEvent_backs hcurrent
  have hrows := foldlM_applyEvent_nonempty hcurrent
  have hisSome : ∀ a b, ((ofCurrent current).edge? (a, b)).isSome = true ↔
      ∃ row, current[a]? = some row ∧ b ∈ row := by
    intro a b
    rw [edge?_ofCurrent, Option.isSome_map, entry]
    cases current[a]? with
    | none => simp
    | some row => simp
  refine ⟨ofCurrent current, by rw [buildGraph, hcurrent]; rfl, fun a r w => ?_, ?_, fun a => ?_,
    fun a row ha => ?_⟩
  · rw [edge?_ofCurrent, map_eq_some_iff]
    have hback := hbacks (a, r)
    constructor
    · rintro ⟨x, hx, rfl⟩
      rw [hx] at hback
      cases hreplay : events.replay (ordered edges) (a, r) with
      | none =>
        rw [hreplay] at hback
        exact hback.elim
      | some e =>
        rw [hreplay] at hback
        obtain ⟨i, hi⟩ := replay_eq_lastWriter.mp hreplay
        obtain ⟨w, hw, hwn⟩ := weightFp_eq hp e
        obtain rfl := Option.some.inj (hw.symm.trans hback.2)
        exact ⟨i, e, hi, hwn⟩
    · rintro ⟨i, e, hi, hwn⟩
      rw [replay_eq_lastWriter.mpr ⟨i, hi⟩] at hback
      cases hx : entry current (a, r) with
      | none =>
        rw [hx] at hback
        exact hback.elim
      | some x =>
        rw [hx] at hback
        obtain ⟨w', hw', hwn'⟩ := weightFp_eq hp e
        obtain rfl := Option.some.inj (hw'.symm.trans hback.2)
        exact ⟨x, rfl, toNat_inj.mp (hwn'.trans hwn.symm)⟩
  · rw [ofCurrent_eq]
    exact BTreeSet.toList_sorted _
  · rw [mem_nodes_ofCurrent]
    constructor
    · rintro ⟨⟨b, row⟩, hrow, rfl | hb⟩
      · rw [BTreeMap.mem_toList] at hrow
        obtain ⟨r, hr⟩ := BTreeMap.exists_mem_of_ne_empty (hrows _ _ hrow)
        exact ⟨r, .inl ((hisSome _ _).mpr ⟨row, hrow, hr⟩)⟩
      · exact ⟨b, .inr ((hisSome _ _).mpr ⟨row, BTreeMap.mem_toList.mp hrow, hb⟩)⟩
    · rintro ⟨b, hb | hb⟩
      · obtain ⟨row, hrow, -⟩ := (hisSome _ _).mp hb
        exact ⟨(a, row), BTreeMap.mem_toList.mpr hrow, .inl rfl⟩
      · obtain ⟨row, hrow, ha⟩ := (hisSome _ _).mp hb
        exact ⟨(b, row), BTreeMap.mem_toList.mpr hrow, .inr ha⟩
  · rw [getElem?_outgoing_ofCurrent, map_eq_some_iff] at ha
    obtain ⟨row, hrow, rfl⟩ := ha
    intro he
    refine hrows a row hrow (BTreeMap.ext_getElem? fun r => ?_)
    have hr : (row.map fun _ entry => entry.2)[r]? = (∅ : BTreeMap Address U256)[r]? := by rw [he]
    rw [BTreeMap.getElem?_map] at hr
    simpa using hr

namespace Example

def addr (b : UInt8) : Address := .replicate 20 b

def uid (b : UInt8) : B256 := .replicate 32 b

def params : Params where
  dampingFp := 85
  toleranceFp := 1
  maxIterations := 10
  minWeightFp := 0
  maxWeightFp := 10000
  trustShareFp := 0
  trustDecayFp := 0
  trustedSeeds := []
  totalPool := 1000
  precisionScale := 100
  schemaUid := 0
  weightFieldIndex := 0
  envelope0DomainSeparators := []
  lane2MaxHeadAge := 0
  accumulator := addr 4
  chainId := 1

def vouch : RawEdge := ⟨0, addr 1, addr 2, uid 7, 100, wordU256 95⟩

def edges : List RawEdge := [vouch, ⟨1, addr 1, addr 2, uid 8, 200, []⟩]

theorem weightBounds : WeightBounds params := ⟨by decide, by decide⟩

theorem lastWriter : LastWriter edges (addr 1, addr 2) 0 vouch := by
  refine ⟨rfl, rfl, rfl, fun j f hf _ hlater => ?_⟩
  match j, hf with
  | 0, hf =>
    rw [later_iff] at hlater
    obtain rfl : vouch = f := Option.some.inj hf
    omega
  | 1, hf =>
    obtain rfl := Option.some.inj hf
    decide

end Example

open Example in
/-- The stale revocation leaves the vouch in place. -/
theorem buildGraph_last_writer_stale_revocation :
    ∃ graph, buildGraph edges params = some graph ∧ graph.edge? (addr 1, addr 2) = some 9500 := by
  obtain ⟨graph, hgraph, hedge, -⟩ := buildGraph_last_writer params weightBounds edges
  exact ⟨graph, hgraph, (hedge _ _ _).mpr ⟨0, vouch, lastWriter, by decide⟩⟩

end Trustgraphs.Reconcile

/-!
# What the order of the events decides

When every event that ends an attestation comes after it, a pair depends on its last attestation alone
(`replay_last`). So two logs with the same last attestations, up to their weights, yield the same graph
(`buildGraph_congr`).
-/

namespace Trustgraphs.Reconcile

open Option List

variable {p : Params} {edges edges' : List RawEdge} {k : Address × Address} {current current' : Current}

theorem applyEvent_isSome {e : RawEdge} :
    (applyEvent p current e).isSome = true ↔ (e.kind = 0 → (weightFp e p).isSome = true) := by
  rw [applyEvent]
  by_cases h0 : e.kind = 0
  · rw [if_pos h0]
    cases weightFp e p with
    | none => simp [h0]
    | some w => simp
  · rw [if_neg h0]
    refine iff_of_true ?_ fun h => absurd h h0
    by_cases h1 : e.kind = 1
    · rw [if_pos h1]
      cases current[e.attester]? with
      | none => rfl
      | some row =>
        dsimp only
        split <;> split <;> rfl
    · rw [if_neg h1]
      rfl

theorem foldlM_applyEvent_isSome {l : List RawEdge} : (l.foldlM (applyEvent p) current).isSome = true ↔
      ∀ e ∈ l, e.kind = 0 → (weightFp e p).isSome = true := by
  induction l generalizing current with
  | nil => simp
  | cons e l ih =>
    rw [foldlM_cons, forall_mem_cons]
    cases he : applyEvent p current e with
    | none =>
      have hnot : ¬ (e.kind = 0 → (weightFp e p).isSome = true) := by
        rw [← @applyEvent_isSome p current e, he]
        simp
      exact ⟨fun h => absurd h (by simp), fun h => absurd h.1 hnot⟩
    | some mid =>
      have hsome : e.kind = 0 → (weightFp e p).isSome = true := by
        rw [← @applyEvent_isSome p current e, he]
        rfl
      show (l.foldlM (applyEvent p) mid).isSome = true ↔ _
      rw [ih]
      exact ⟨fun h => ⟨hsome, h⟩, And.right⟩

theorem mem_ordered {e : RawEdge} : e ∈ ordered edges ↔ e ∈ edges := by
  show e ∈ (positioned edges).map Prod.fst ↔ _
  rw [List.mem_map, List.mem_iff_getElem?]
  constructor
  · rintro ⟨⟨e, i⟩, hmem, rfl⟩
    exact ⟨i, mem_positioned.mp hmem⟩
  · rintro ⟨i, hi⟩
    exact ⟨(e, i), mem_positioned.mpr hi, rfl⟩

def RowsNonempty (current : Current) : Prop :=
  ∀ (a : Address) (row : BTreeMap Address (B256 × U256)), current[a]? = some row → row ≠ ∅

def pairWeight (current : Current) (k : Address × Address) : Option U256 := (entry current k).map Prod.snd

theorem pairWeight_isSome {a r : Address} : (pairWeight current (a, r)).isSome = true ↔
    ∃ row, current[a]? = some row ∧ r ∈ row := by
  rw [pairWeight, isSome_map, entry]
  cases current[a]? with
  | none => simp
  | some row => simp

theorem mem_nodes_iff_pairWeight (hrows : RowsNonempty current) {a : Address} : a ∈ (ofCurrent current).nodes ↔
      ∃ b, (pairWeight current (a, b)).isSome = true ∨ (pairWeight current (b, a)).isSome = true := by
  rw [mem_nodes_ofCurrent]
  constructor
  · rintro ⟨⟨b, row⟩, hrow, rfl | ha⟩
    · rw [BTreeMap.mem_toList] at hrow
      obtain ⟨r, hr⟩ := BTreeMap.exists_mem_of_ne_empty (hrows _ _ hrow)
      exact ⟨r, .inl (pairWeight_isSome.mpr ⟨row, hrow, hr⟩)⟩
    · exact ⟨b, .inr (pairWeight_isSome.mpr ⟨row, BTreeMap.mem_toList.mp hrow, ha⟩)⟩
  · rintro ⟨b, hb | hb⟩
    · obtain ⟨row, hrow, -⟩ := pairWeight_isSome.mp hb
      exact ⟨(a, row), BTreeMap.mem_toList.mpr hrow, .inl rfl⟩
    · obtain ⟨row, hrow, ha⟩ := pairWeight_isSome.mp hb
      exact ⟨(b, row), BTreeMap.mem_toList.mpr hrow, .inr ha⟩

theorem exists_row (hrows : RowsNonempty current) (h : pairWeight current = pairWeight current')
    {a : Address} {row : BTreeMap Address (B256 × U256)} (ha : current[a]? = some row) :
    ∃ row', current'[a]? = some row' := by
  obtain ⟨r, hr⟩ := BTreeMap.exists_mem_of_ne_empty (hrows a row ha)
  have hsome := pairWeight_isSome.mpr ⟨row, ha, hr⟩
  rw [h] at hsome
  obtain ⟨row', ha', -⟩ := pairWeight_isSome.mp hsome
  exact ⟨row', ha'⟩

theorem ofCurrent_congr (hrows : RowsNonempty current) (hrows' : RowsNonempty current')
    (h : pairWeight current = pairWeight current') : ofCurrent current = ofCurrent current' := by
  have hout : (ofCurrent current).outgoing = (ofCurrent current').outgoing := by
    refine BTreeMap.ext_getElem? fun a => ?_
    rw [getElem?_outgoing_ofCurrent, getElem?_outgoing_ofCurrent]
    cases ha : current[a]? with
    | none =>
      cases ha' : current'[a]? with
      | none => rfl
      | some row' =>
        obtain ⟨row, hrow⟩ := exists_row hrows' h.symm ha'
        rw [ha] at hrow
        exact absurd hrow (by simp)
    | some row =>
      obtain ⟨row', ha'⟩ := exists_row hrows h ha
      rw [ha']
      refine congrArg some (BTreeMap.ext_getElem? fun r => ?_)
      have hr : pairWeight current (a, r) = pairWeight current' (a, r) := by rw [h]
      rw [pairWeight, pairWeight, entry_of_row ha, entry_of_row ha'] at hr
      rw [BTreeMap.getElem?_map, BTreeMap.getElem?_map]
      exact hr
  have hnodes : (ofCurrent current).nodes = (ofCurrent current').nodes := by
    have hmem : ∀ a, a ∈ (ofCurrent current).nodes ↔ a ∈ (ofCurrent current').nodes := by
      intro a
      rw [mem_nodes_iff_pairWeight hrows, mem_nodes_iff_pairWeight hrows', h]
    rw [ofCurrent_eq, ofCurrent_eq] at hmem ⊢
    simp only [Std.ExtTreeSet.mem_toList] at hmem
    exact congrArg Std.ExtTreeSet.toList (Std.ExtTreeSet.ext_mem hmem)
  rw [ofCurrent_eq, ofCurrent_eq] at hout hnodes ⊢
  exact congrArg₂ Graph.mk hnodes hout

def held (p : Params) (edges : List RawEdge) (k : Address × Address) : Option U256 :=
  (events.replay (ordered edges) k).bind fun e => weightFp e p

theorem Backs.weight {e : Option RawEdge} {x : Option (B256 × U256)} (h : Backs p e x) :
    x.map Prod.snd = e.bind fun e => weightFp e p := by
  match e, x, h with
  | none, none, _ => rfl
  | some e, some x, h => exact h.2.symm

theorem buildGraph_congr (hpanic : (∀ e ∈ edges, e.kind = 0 → (weightFp e p).isSome = true) ↔
      ∀ e ∈ edges', e.kind = 0 → (weightFp e p).isSome = true)
    (h : ∀ k, held p edges k = held p edges' k) : buildGraph edges p = buildGraph edges' p := by
  have hsome : ((ordered edges).foldlM (applyEvent p) ∅).isSome = true ↔
      ((ordered edges').foldlM (applyEvent p) ∅).isSome = true := by
    rw [foldlM_applyEvent_isSome, foldlM_applyEvent_isSome]
    simp only [mem_ordered]
    exact hpanic
  rw [buildGraph, buildGraph]
  cases hc : (ordered edges).foldlM (applyEvent p) ∅ with
  | none =>
    cases hc' : (ordered edges').foldlM (applyEvent p) ∅ with
    | none => rfl
    | some current' =>
      rw [hc, hc'] at hsome
      exact absurd (hsome.mpr rfl) (by simp)
  | some current =>
    rw [hc] at hsome
    obtain ⟨current', hc'⟩ := isSome_iff_exists.mp (hsome.mp rfl)
    rw [hc']
    refine congrArg some (ofCurrent_congr (foldlM_applyEvent_nonempty hc)
      (foldlM_applyEvent_nonempty hc') (funext fun k => ?_))
    rw [pairWeight, pairWeight, (foldlM_applyEvent_backs hc k).weight, (foldlM_applyEvent_backs hc' k).weight]
    exact h k

/-- What ends an attestation is about the same pair and comes later in the canonical order. -/
def EndsFollow (edges : List RawEdge) : Prop :=
  ∀ (i j : ℕ) (e f : RawEdge), edges[i]? = some e → edges[j]? = some f → e.kind = 0 → f.kind = 1 →
    f.uid = e.uid → (f.attester, f.recipient) = (e.attester, e.recipient) ∧ Later (e, i) (f, j)

/-- The attestation at a position that no later attestation of its pair follows. -/
structure LastAttestation (edges : List RawEdge) (k : Address × Address) (i : ℕ) (e : RawEdge) : Prop where
  at_position : edges[i]? = some e
  kind : e.kind = 0
  pair : (e.attester, e.recipient) = k
  last : ∀ (j : ℕ) (f : RawEdge), edges[j]? = some f → f.kind = 0 → (f.attester, f.recipient) = k →
    ¬ Later (e, i) (f, j)

def Ended (edges : List RawEdge) (uid : B256) : Prop := ∃ f ∈ edges, f.kind = 1 ∧ f.uid = uid

variable {i : ℕ} {e : RawEdge}

theorem exists_lastAttestation (he : e ∈ edges) (h0 : e.kind = 0) (hk : (e.attester, e.recipient) = k) :
    ∃ i e, LastAttestation edges k i e := by
  obtain ⟨i, hi⟩ := List.mem_iff_getElem?.mp he
  -- the positions of the pair's attestations, by timestamp and position
  let at? (j : ℕ) : RawEdge := (edges[j]?).getD e
  let positions := (Finset.range edges.length).filter fun j =>
    (at? j).kind = 0 ∧ ((at? j).attester, (at? j).recipient) = k
  have hmem : ∀ {j f}, edges[j]? = some f → (j ∈ positions ↔ f.kind = 0 ∧ (f.attester, f.recipient) = k) := by
    intro j f hj
    have hlt : j < edges.length := (List.getElem?_eq_some_iff.mp hj).1
    simp only [positions, at?, Finset.mem_filter, Finset.mem_range, hlt, true_and, hj, getD_some]
  obtain ⟨top, htop, hmax⟩ := Finset.exists_max_image positions
    (fun j => toLex ((at? j).blockTimestamp.toNat, j)) ⟨i, (hmem hi).mpr ⟨h0, hk⟩⟩
  have hlt : top < edges.length := Finset.mem_range.mp (Finset.mem_filter.mp htop).1
  have hget : edges[top]? = some (at? top) := by simp only [at?, getElem?_eq_getElem hlt, getD_some]
  obtain ⟨hkind, hpair⟩ := (hmem hget).mp htop
  refine ⟨top, at? top, hget, hkind, hpair, fun j f hj hf hkf hlater => ?_⟩
  have hle := hmax j ((hmem hj).mpr ⟨hf, hkf⟩)
  have hat : at? j = f := by simp only [at?, hj, getD_some]
  rw [hat, Prod.Lex.le_iff] at hle
  rw [later_iff] at hlater
  dsimp only [ofLex_toLex] at hle hlater
  omega

theorem later_total {a b : RawEdge × ℕ} (h : a.2 ≠ b.2) : Later a b ∨ Later b a := by
  rw [later_iff, later_iff]
  omega

theorem replay_last (hends : EndsFollow edges) (h : LastAttestation edges k i e)
    (held : RawEdge) : events.replay (ordered edges) k = some held ↔ held = e ∧ ¬ Ended edges e.uid := by
  rw [replay_eq_lastWriter]
  constructor
  · rintro ⟨j, hj, h0, hk, hlater⟩
    have hsame : j = i := by
      by_contra hne
      rcases later_total (a := (held, j)) (b := (e, i)) hne with hlt | hlt
      · exact (hlater i e h.at_position h.pair hlt).1 h.kind
      · exact h.last j held hj h0 hk hlt
    subst hsame
    obtain rfl : held = e := Option.some.inj (hj.symm.trans h.at_position)
    refine ⟨rfl, ?_⟩
    rintro ⟨f, hf, h1, huid⟩
    obtain ⟨l, hl⟩ := List.mem_iff_getElem?.mp hf
    obtain ⟨hpair, hlt⟩ := hends j l held f hj hl h0 h1 huid
    exact (hlater l f hl (hpair.trans hk) hlt).2 h1 huid
  · rintro ⟨rfl, hended⟩
    refine ⟨i, h.at_position, h.kind, h.pair, fun j f hf hkf hlt => ⟨fun h0 => ?_, fun h1 huid => ?_⟩⟩
    · exact h.last j f hf h0 hkf hlt
    · exact hended ⟨f, mem_of_getElem? hf, h1, huid⟩

theorem held_last (hends : EndsFollow edges) (h : LastAttestation edges k i e) :
    (Ended edges e.uid → held p edges k = none) ∧ (¬ Ended edges e.uid → held p edges k = weightFp e p) := by
  have hreplay := replay_last hends h
  constructor
  · intro hended
    have hnone : events.replay (ordered edges) k = none := by
      rw [eq_none_iff_forall_ne_some]
      exact fun x hx => ((hreplay x).mp hx).2 hended
    rw [held, hnone]
    rfl
  · intro hended
    rw [held, (hreplay e).mpr ⟨rfl, hended⟩]
    rfl

theorem held_eq_none (h : ∀ e ∈ edges, e.kind = 0 → (e.attester, e.recipient) ≠ k) : held p edges k = none := by
  have hnone : events.replay (ordered edges) k = none := by
    rw [eq_none_iff_forall_ne_some]
    intro e he
    obtain ⟨i, hi, h0, hk, -⟩ := replay_eq_lastWriter.mp he
    exact h e (mem_of_getElem? hi) h0 hk
  rw [held, hnone]
  rfl

end Trustgraphs.Reconcile
