import Trustgraphs.Contracts.Proofs.OnchainAttestationImporterProofs
import Trustgraphs.Indexer.TrustReconcile
import Trustgraphs.PagerankCore.Proofs.ReplayProofs

/-!
# The live vouches of the indexer are the edges of the guest

The loops of the indexer replay their records on one register a pair (`Registers.replay`), as the
state machine of the guest does.
-/

namespace Trustgraphs.Indexer

open Reconcile Option List

def vouches {T : Type} (attester recipient uid : T → Bytes) (kind : T → ℤ) : Registers T Bytes Bytes where
  key t := pairKey (attester t) (recipient t)
  name t := toLowerCase (uid t)
  sets t := kind t == 0
  clears t := kind t == 1

section Loop

variable {T : Type} {attester recipient uid : T → Bytes} {kind : T → ℤ} {records : List T}

theorem get_step (current : InsertionMap Bytes T) (t : T) :
    (step (pairKey (attester t) (recipient t)) (kind t) uid current t).get =
      (vouches attester recipient uid kind).apply current.get t := by
  rw [step, Registers.apply]
  by_cases h0 : kind t = 0
  · have hset : (vouches attester recipient uid kind).sets t = true := by simpa [vouches] using h0
    rw [if_pos h0, if_pos hset, InsertionMap.get_set]
    rfl
  · have hset : ¬ (vouches attester recipient uid kind).sets t = true := by simpa [vouches] using h0
    rw [if_neg h0, if_neg hset]
    by_cases h1 : kind t = 1 ∧ (current.get (pairKey (attester t) (recipient t))).any
        (fun r => decide (toLowerCase (uid r) = toLowerCase (uid t)))
    · rw [if_pos h1, if_pos ⟨by simpa [vouches] using h1.1, h1.2⟩, InsertionMap.get_delete]
      rfl
    · rw [if_neg h1, if_neg]
      rintro ⟨hc, hany⟩
      exact h1 ⟨by simpa [vouches] using hc, hany⟩

theorem get_foldl_step (records : List T) : (records.foldl (fun current t =>
      step (pairKey (attester t) (recipient t)) (kind t) uid current t) .empty).get =
      (vouches attester recipient uid kind).replay records := by
  induction records using List.reverseRecOn with
  | nil => rfl
  | append_singleton records t ih =>
    rw [foldl_append, foldl_cons, foldl_nil, Registers.replay_concat, ← ih]
    exact get_step _ t

theorem mem_values_foldl_step {t : T} : t ∈ (records.foldl (fun current t =>
      step (pairKey (attester t) (recipient t)) (kind t) uid current t) .empty).values ↔
      ∃ k, (vouches attester recipient uid kind).replay records k = some t := by
  rw [InsertionMap.mem_values, get_foldl_step]

end Loop

theorem hex_injective : Function.Injective hex :=
  fun _ _ h => Text.encodeHex_injective (append_cancel_left h)

def addressKey (k : Address × Address) : Bytes := hex k.1.bytes ++ utf8 ":" ++ hex k.2.bytes

theorem addressKey_injective : Function.Injective addressKey := by
  intro a b h
  have hlength : ∀ c : Address, (hex c.bytes).length = 42 := by
    intro c
    rw [hex, length_append, Text.length_encodeHex, c.length_bytes]
    rfl
  rw [addressKey, addressKey, append_assoc, append_assoc] at h
  obtain ⟨h1, h2⟩ := append_inj h (by rw [hlength, hlength])
  have h2 := hex_injective (append_cancel_left h2)
  exact Prod.ext (FixedBytes.bytes_inj.mp (hex_injective h1)) (FixedBytes.bytes_inj.mp h2)

def uidName (uid : B256) : Bytes := hex uid.bytes

theorem uidName_injective : Function.Injective uidName :=
  fun _ _ h => FixedBytes.bytes_inj.mp (hex_injective h)

/-- The registers of the indexer, on records of either kind. -/
def timedVouches : Registers TimedVouch Bytes Bytes :=
  vouches TimedVouch.attester TimedVouch.recipient TimedVouch.uid TimedVouch.kind

theorem TimedVouch.Spells.same {v : TimedVouch} {e : RawEdge} (h : v.Spells e) :
    timedVouches.key v = addressKey (events.key e) ∧ timedVouches.name v = uidName (events.name e) ∧
      timedVouches.sets v = events.sets e ∧ timedVouches.clears v = events.clears e := by
  refine ⟨?_, h.uid, ?_, ?_⟩
  · show toLowerCase v.attester ++ utf8 ":" ++ toLowerCase v.recipient = _
    rw [h.attester, h.recipient]
    rfl
  · show (v.kind == 0) = (e.kind == 0)
    rw [h.kind, Bool.eq_iff_iff, beq_iff_eq, beq_iff_eq, ← UInt8.toNat_inj]
    exact Int.natCast_eq_zero
  · show (v.kind == 1) = (e.kind == 1)
    rw [h.kind, Bool.eq_iff_iff, beq_iff_eq, beq_iff_eq, ← UInt8.toNat_inj]
    exact Nat.cast_eq_one

theorem replay_spells {T : Type} {view : T → TimedVouch} {edge : T → RawEdge} {l : List T}
    (h : ∀ t ∈ l, (view t).Spells (edge t)) (k : Address × Address) :
    (timedVouches.comap view).replay l (addressKey k) = (events.comap edge).replay l k :=
  Registers.replay_rename addressKey_injective uidName_injective fun t ht => (h t ht).same

theorem exists_replay_spells {T : Type} {view : T → TimedVouch} {edge : T → RawEdge} {l : List T}
    (h : ∀ t ∈ l, (view t).Spells (edge t)) {t : T} :
    (∃ key, (timedVouches.comap view).replay l key = some t) ↔
      ∃ k, (events.comap edge).replay l k = some t := by
  constructor
  · rintro ⟨key, hkey⟩
    obtain ⟨ht, -, hk⟩ := Registers.replay_mem hkey
    refine ⟨events.key (edge t), ?_⟩
    rw [← replay_spells h, ← (h t ht).same.1]
    rwa [← hk] at hkey
  · rintro ⟨k, hk⟩
    exact ⟨addressKey k, by rw [replay_spells h, hk]⟩

/-- A record comes before another one at an equal timestamp. -/
def Places (a b : TimedVouch) : Prop :=
  a.sourceLane < b.sourceLane ∨ a.sourceLane = b.sourceLane ∧ (a.sourceOrder < b.sourceOrder ∨
    a.sourceOrder = b.sourceOrder ∧ a.sourceSuborder < b.sourceSuborder)

theorem compareTimed_nonpos {a b : TimedVouch} : compareTimed a b ≤ 0 ↔
    a.timestamp < b.timestamp ∨ a.timestamp = b.timestamp ∧ ¬ Places b a := by
  unfold compareTimed Places
  split_ifs <;> omega

variable {rows : Rows}

theorem Rows.spells : ∀ t ∈ rows.timed, t.1.Spells t.2 := by
  intro t ht
  rcases mem_append.mp ht with ht | ht
  · obtain ⟨r, hr, rfl⟩ := List.mem_map.mp ht
    exact rows.spells1 r hr
  · obtain ⟨r, hr, rfl⟩ := List.mem_map.mp ht
    exact rows.spells2 r hr

theorem Rows.places : rows.timed.Pairwise fun a b => Places a.1 b.1 := by
  rw [Rows.timed, pairwise_append, pairwise_map, pairwise_map]
  refine ⟨rows.order1.imp fun h => .inr ⟨rfl, h⟩, rows.order2.imp fun h => .inr ⟨rfl, h⟩, ?_⟩
  intro a ha b hb
  obtain ⟨r, -, rfl⟩ := List.mem_map.mp ha
  obtain ⟨m, -, rfl⟩ := List.mem_map.mp hb
  exact .inl (show (0 : ℤ) < 1 by decide)

theorem Rows.timed_map_snd : rows.timed.map Prod.snd = rows.edges := by
  rw [Rows.timed, map_append, List.map_map, List.map_map]
  rfl

theorem Rows.places_iff {i j : ℕ} {a b : TimedVouch × RawEdge} (ha : rows.timed[i]? = some a)
    (hb : rows.timed[j]? = some b) : Places a.1 b.1 ↔ i < j := by
  have hplaces : ∀ {i j : ℕ} {a b : TimedVouch × RawEdge}, rows.timed[i]? = some a →
      rows.timed[j]? = some b → i < j → Places a.1 b.1 := by
    intro i j a b ha hb hij
    obtain ⟨hi, rfl⟩ := List.getElem?_eq_some_iff.mp ha
    obtain ⟨hj, rfl⟩ := List.getElem?_eq_some_iff.mp hb
    exact pairwise_iff_getElem.mp rows.places i j hi hj hij
  refine ⟨fun h => ?_, hplaces ha hb⟩
  by_contra hij
  rcases Nat.lt_or_eq_of_le (Nat.le_of_not_lt hij) with hji | rfl
  · have h' := hplaces hb ha hji
    unfold Places at h h'
    omega
  · obtain rfl := Option.some.inj (ha.symm.trans hb)
    unfold Places at h
    omega

def Rows.positioned (rows : Rows) : List ((TimedVouch × RawEdge) × ℕ) :=
  rows.timed.zipIdx.insertionSort fun a b => before (a.1.2, a.2) (b.1.2, b.2)

theorem Rows.mem_positioned {a : (TimedVouch × RawEdge) × ℕ} :
    a ∈ rows.positioned ↔ rows.timed[a.2]? = some a.1 := by
  rw [Rows.positioned, (perm_insertionSort ..).mem_iff, mem_zipIdx_iff_getElem?]

theorem Rows.positioned_edges :
    rows.positioned.map (Prod.map Prod.snd id) = Reconcile.positioned rows.edges := by
  rw [Rows.positioned, Reconcile.positioned, ← Rows.timed_map_snd, zipIdx_map]
  exact map_insertionSort _ _ _ _ fun _ _ _ _ => Iff.rfl

theorem Rows.positioned_sorted : rows.positioned.Pairwise fun a b => Later (a.1.2, a.2) (b.1.2, b.2) := by
  have h := Reconcile.positioned_sorted rows.edges
  rw [← Rows.positioned_edges, pairwise_map] at h
  exact h

theorem Rows.compareTimed_iff {a b : (TimedVouch × RawEdge) × ℕ} (ha : a ∈ rows.positioned)
    (hb : b ∈ rows.positioned) :
    compareTimed a.1.1 b.1.1 ≤ 0 ↔ before (a.1.2, a.2) (b.1.2, b.2) = true := by
  rw [Rows.mem_positioned] at ha hb
  rw [compareTimed_nonpos, Rows.places_iff hb ha, before_iff, (rows.spells _ (mem_of_getElem? ha)).timestamp,
    (rows.spells _ (mem_of_getElem? hb)).timestamp]
  show _ ↔ a.1.2.blockTimestamp.toNat < b.1.2.blockTimestamp.toNat ∨
    a.1.2.blockTimestamp.toNat = b.1.2.blockTimestamp.toNat ∧ a.2 ≤ b.2
  omega

theorem Rows.sorted_eq {records : List (TimedVouch × RawEdge)} (h : records.Perm rows.timed) :
    (records.insertionSort fun a b => compareTimed a.1 b.1 ≤ 0) = rows.positioned.map Prod.fst := by
  have htotal : Std.Total fun a b : TimedVouch × RawEdge => compareTimed a.1 b.1 ≤ 0 := ⟨by
    intro a b
    rw [compareTimed_nonpos, compareTimed_nonpos]
    unfold Places
    omega⟩
  have htrans : IsTrans (TimedVouch × RawEdge) fun a b => compareTimed a.1 b.1 ≤ 0 := ⟨by
    intro a b c
    rw [compareTimed_nonpos, compareTimed_nonpos, compareTimed_nonpos]
    unfold Places
    omega⟩
  have hsorted : (rows.positioned.map Prod.fst).Pairwise fun a b => compareTimed a.1 b.1 ≤ 0 := by
    rw [pairwise_map]
    refine Rows.positioned_sorted.imp_of_mem fun {a b} ha hb hlater => ?_
    rw [Rows.compareTimed_iff ha hb, before_iff]
    rw [later_iff] at hlater
    omega
  have hperm : (rows.positioned.map Prod.fst).Perm rows.timed := by
    have hp := (perm_insertionSort (fun a b => before (a.1.2, a.2) (b.1.2, b.2))
      rows.timed.zipIdx).map Prod.fst
    rw [zipIdx_map_fst] at hp
    exact hp
  refine List.Perm.eq_of_pairwise ?_ (pairwise_insertionSort _ _) hsorted
    ((perm_insertionSort ..).trans (h.trans hperm.symm))
  intro a b ha hb hab hba
  rw [(perm_insertionSort ..).mem_iff, h.mem_iff, ← hperm.mem_iff] at ha
  obtain ⟨⟨a, i⟩, hai, rfl⟩ := List.mem_map.mp ha
  obtain ⟨⟨b, j⟩, hbj, rfl⟩ := List.mem_map.mp hb
  have hij := before_iff.mp ((Rows.compareTimed_iff hai hbj).mp hab)
  have hji := before_iff.mp ((Rows.compareTimed_iff hbj hai).mp hba)
  obtain rfl : i = j := by
    change _ ∨ _ ∧ i ≤ j at hij
    change _ ∨ _ ∧ j ≤ i at hji
    omega
  exact Option.some.inj ((Rows.mem_positioned.mp hai).symm.trans (Rows.mem_positioned.mp hbj))

/-- The attestation behind a pair: no later event displaces it. -/
def Live (edges : List RawEdge) (i : ℕ) (e : RawEdge) : Prop :=
  edges[i]? = some e ∧ e.kind = 0 ∧
    ∀ (j : ℕ) (f : RawEdge), edges[j]? = some f → Later (e, i) (f, j) → ¬ events.Displaces e f

theorem replay_ordered_live {edges : List RawEdge} {k : Address × Address} {e : RawEdge} :
    events.replay (ordered edges) k = some e ↔ ∃ i, Live edges i e ∧ events.key e = k := by
  rw [replay_ordered]
  constructor
  · rintro ⟨i, he, h0, hk, hlater⟩
    exact ⟨i, ⟨he, h0, hlater⟩, hk⟩
  · rintro ⟨i, ⟨he, h0, hlater⟩, hk⟩
    exact ⟨i, he, h0, hk, hlater⟩

variable {records : List (TimedVouch × RawEdge)} {t : TimedVouch × RawEdge}

theorem mem_currentTimedVouches (h : records.Perm rows.timed) : t ∈ currentTimedVouches Prod.fst records ↔
      ∃ i, rows.timed[i]? = some t ∧ Live rows.edges i t.2 := by
  have hspells : ∀ t ∈ rows.positioned.map Prod.fst, t.1.Spells t.2 := by
    intro t ht
    obtain ⟨a, ha, rfl⟩ := List.mem_map.mp ht
    exact rows.spells _ (mem_of_getElem? (Rows.mem_positioned.mp ha))
  have hedge : ∀ (j : ℕ) (f : RawEdge), rows.edges[j]? = some f ↔ ∃ u, rows.timed[j]? = some u ∧ u.2 = f := by
    intro j f
    rw [← Rows.timed_map_snd, List.getElem?_map, map_eq_some_iff]
  have hreplay : t ∈ currentTimedVouches Prod.fst records ↔
      ∃ key, (timedVouches.comap Prod.fst).replay (rows.positioned.map Prod.fst) key = some t := by
    rw [← Rows.sorted_eq h]
    exact mem_values_foldl_step
  rw [hreplay, exists_replay_spells hspells]
  simp only [Registers.replay_map, map_eq_some_iff]
  constructor
  · rintro ⟨k, ⟨t, i⟩, ha, rfl⟩
    obtain ⟨hmem, hset, -, hlater⟩ :=
      (Registers.replay_sorted Rows.positioned_sorted fun _ _ h => h.asymm).mp ha
    refine ⟨i, Rows.mem_positioned.mp hmem, (hedge i _).mpr ⟨t, Rows.mem_positioned.mp hmem, rfl⟩,
      by simpa [events, Registers.comap] using hset, fun j f hf hlt => ?_⟩
    obtain ⟨u, hu, rfl⟩ := (hedge j f).mp hf
    exact hlater (u, j) (Rows.mem_positioned.mpr hu) hlt
  · rintro ⟨i, ht, -, h0, hlater⟩
    refine ⟨events.key t.2, (t, i), (Registers.replay_sorted Rows.positioned_sorted
      fun _ _ h => h.asymm).mpr ⟨Rows.mem_positioned.mpr ht, ?_, rfl, ?_⟩, rfl⟩
    · simpa [events, Registers.comap] using h0
    · rintro ⟨u, j⟩ hu hlt
      exact hlater j u.2 ((hedge j _).mpr ⟨u, Rows.mem_positioned.mp hu, rfl⟩) hlt

theorem nodup_currentTimedVouches (h : records.Perm rows.timed) :
    ((currentTimedVouches Prod.fst records).map fun t => events.key t.2).Nodup := by
  have hnodup : ((currentTimedVouches Prod.fst records).map fun t => timedVouches.key t.1).Nodup := by
    refine InsertionMap.nodup_map_values fun k t hk => ?_
    rw [get_foldl_step] at hk
    exact (Registers.replay_mem hk).2.2
  have hkeys : ((currentTimedVouches Prod.fst records).map fun t => timedVouches.key t.1) =
      ((currentTimedVouches Prod.fst records).map fun t => events.key t.2).map addressKey := by
    rw [List.map_map]
    refine map_congr_left fun t ht => ?_
    obtain ⟨i, hi, -⟩ := (mem_currentTimedVouches h).mp ht
    exact (rows.spells t (mem_of_getElem? hi)).same.1
  rw [hkeys] at hnodup
  exact hnodup.of_map

/-- The live vouches are the edges of a graph, each the attestation behind its edge. -/
structure VouchesAreEdges (rows : Rows) (records : List (TimedVouch × RawEdge)) (p : Params)
    (graph : Graph) : Prop where
  /-- There is one vouch for an edge. -/
  once : ((currentTimedVouches Prod.fst records).map fun t => events.key t.2).Nodup
  backing : ∀ t, t ∈ currentTimedVouches Prod.fst records ↔ ∃ i, rows.timed[i]? = some t ∧ Live rows.edges i t.2
  edge : ∀ k w, graph.edge? k = some w ↔
    ∃ t ∈ currentTimedVouches Prod.fst records, events.key t.2 = k ∧ weightFp t.2 p = some w
  /-- The uid of a vouch is the one that the guest holds for the pair. -/
  held : ∃ current, (ordered rows.edges).foldlM (applyEvent p) ∅ = some current ∧
    graph = ofCurrent current ∧ ∀ t ∈ currentTimedVouches Prod.fst records,
      (entry current (events.key t.2)).map Prod.fst = some t.2.uid

theorem exists_live {e : RawEdge} (h : records.Perm rows.timed) {i : ℕ} (hlive : Live rows.edges i e) :
    ∃ t ∈ currentTimedVouches Prod.fst records, t.2 = e := by
  have he := hlive.1
  rw [← Rows.timed_map_snd, List.getElem?_map, map_eq_some_iff] at he
  obtain ⟨t, ht, rfl⟩ := he
  exact ⟨t, (mem_currentTimedVouches h).mpr ⟨i, ht, hlive⟩, rfl⟩

theorem vouchesAreEdges {p : Params} {graph : Graph} (h : records.Perm rows.timed)
    (hgraph : buildGraph rows.edges p = some graph) : VouchesAreEdges rows records p graph := by
  rw [buildGraph, bind_eq_bind, bind_eq_some_iff] at hgraph
  obtain ⟨current, hcurrent, hgraph⟩ := hgraph
  obtain rfl := Option.some.inj hgraph
  have hbacks := foldlM_applyEvent_backs hcurrent
  have hlive : ∀ t ∈ currentTimedVouches Prod.fst records,
      ∃ w, weightFp t.2 p = some w ∧ entry current (events.key t.2) = some (t.2.uid, w) := by
    intro t ht
    obtain ⟨i, -, hlive⟩ := (mem_currentTimedVouches h).mp ht
    have hback := hbacks (events.key t.2)
    rw [replay_ordered_live.mpr ⟨i, hlive, rfl⟩] at hback
    cases hentry : entry current (events.key t.2) with
    | none => rw [hentry] at hback; exact hback.elim
    | some x =>
      rw [hentry] at hback
      exact ⟨x.2, hback.2, congrArg some (Prod.ext hback.1 rfl)⟩
  refine ⟨nodup_currentTimedVouches h, fun t => mem_currentTimedVouches h, fun k w => ?_,
    current, hcurrent, rfl, fun t ht => ?_⟩
  · rw [edge?_ofCurrent, map_eq_some_iff]
    constructor
    · rintro ⟨x, hx, rfl⟩
      have hback := hbacks k
      rw [hx] at hback
      cases hreplay : events.replay (ordered rows.edges) k with
      | none => rw [hreplay] at hback; exact hback.elim
      | some e =>
        rw [hreplay] at hback
        obtain ⟨i, hi, hk⟩ := replay_ordered_live.mp hreplay
        obtain ⟨t, ht, rfl⟩ := exists_live h hi
        exact ⟨t, ht, hk, hback.2⟩
    · rintro ⟨t, ht, rfl, hw⟩
      obtain ⟨w', hw', hentry⟩ := hlive t ht
      exact ⟨_, hentry, Option.some.inj (hw'.symm.trans hw)⟩
  · obtain ⟨w, -, hentry⟩ := hlive t ht
    rw [hentry]
    rfl

/-- The uids of the account view are those of the live vouches. -/
def UidsAgree (rows : Rows) : Prop :=
  ∀ folds records, folds.Perm (rows.lane1.map Prod.fst) → records.Perm rows.timed → ∀ u,
    u ∈ currentUidsForResolver folds ↔ ∃ t ∈ currentTimedVouches Prod.fst records, toLowerCase t.1.uid = u

def Unended (edges : List RawEdge) (e : RawEdge) : Prop := ∀ f ∈ edges, f.kind = 1 → f.uid ≠ e.uid

/-- No other attestation of the pair is folded after it. -/
def FoldedLast (edges : List RawEdge) (i : ℕ) (e : RawEdge) : Prop :=
  ∀ (j : ℕ) (f : RawEdge), edges[j]? = some f → f.kind = 0 → events.key f = events.key e → ¬ i < j

/-- No other attestation of the pair has a later time or, at the same time, a later position. -/
def LatestInTime (edges : List RawEdge) (i : ℕ) (e : RawEdge) : Prop :=
  ∀ (j : ℕ) (f : RawEdge), edges[j]? = some f → f.kind = 0 → events.key f = events.key e → ¬ Later (e, i) (f, j)

/-- The attestation of a pair that was folded last is the latest one, unless both have ended. -/
def FoldsInTime (edges : List RawEdge) : Prop :=
  ∀ (i : ℕ) (e : RawEdge), edges[i]? = some e → e.kind = 0 → Unended edges e →
    (FoldedLast edges i e ↔ LatestInTime edges i e)

theorem compareFolded_nonpos {a b : FoldedVouch} : compareFolded a b ≤ 0 ↔
    a.blockNumber < b.blockNumber ∨ a.blockNumber = b.blockNumber ∧ a.logIndex ≤ b.logIndex := by
  unfold compareFolded
  split_ifs <;> omega

theorem Rows.folds_sorted_eq {folds : List AccumulatorRecord} (h : folds.Perm (rows.lane1.map Prod.fst)) :
    (folds.insertionSort fun a b => compareFolded a.folded b.folded ≤ 0) = rows.lane1.map Prod.fst := by
  have htotal : Std.Total fun a b : AccumulatorRecord => compareFolded a.folded b.folded ≤ 0 := ⟨by
    intro a b
    rw [compareFolded_nonpos, compareFolded_nonpos]
    omega⟩
  have htrans : IsTrans AccumulatorRecord fun a b => compareFolded a.folded b.folded ≤ 0 := ⟨by
    intro a b c
    rw [compareFolded_nonpos, compareFolded_nonpos, compareFolded_nonpos]
    omega⟩
  have hstrict : (rows.lane1.map Prod.fst).Pairwise fun a b =>
      a.blockNumber < b.blockNumber ∨ a.blockNumber = b.blockNumber ∧ a.logIndex < b.logIndex := by
    rw [pairwise_map]
    exact rows.order1
  have hsorted : (rows.lane1.map Prod.fst).Pairwise fun a b =>
      compareFolded a.folded b.folded ≤ 0 := by
    refine hstrict.imp fun {a b} hab => compareFolded_nonpos.mpr ?_
    change a.blockNumber < b.blockNumber ∨ a.blockNumber = b.blockNumber ∧ a.logIndex ≤ b.logIndex
    omega
  refine List.Perm.eq_of_pairwise ?_ (pairwise_insertionSort _ _) hsorted
    ((perm_insertionSort ..).trans h)
  intro a b ha hb hab hba
  rw [(perm_insertionSort ..).mem_iff, h.mem_iff] at ha
  rw [compareFolded_nonpos] at hab hba
  change a.blockNumber < b.blockNumber ∨ a.blockNumber = b.blockNumber ∧ a.logIndex ≤ b.logIndex at hab
  change b.blockNumber < a.blockNumber ∨ b.blockNumber = a.blockNumber ∧ b.logIndex ≤ a.logIndex at hba
  obtain ⟨i, hi, rfl⟩ := getElem_of_mem ha
  obtain ⟨j, hj, rfl⟩ := getElem_of_mem hb
  rw [pairwise_iff_getElem] at hstrict
  rcases lt_trichotomy i j with hij | rfl | hij
  · have := hstrict i j hi hj hij
    omega
  · rfl
  · have := hstrict j i hj hi hij
    omega

theorem mem_currentUidsForResolver {folds : List AccumulatorRecord}
    (h : folds.Perm (rows.lane1.map Prod.fst)) {u : Bytes} :
    u ∈ currentUidsForResolver folds ↔
      ∃ k e, events.replay (rows.lane1.map Prod.snd) k = some e ∧ uidName e.uid = u := by
  have hreplay : ∀ row, row ∈ currentVouches AccumulatorRecord.folded folds ↔
      ∃ key, (timedVouches.comap AccumulatorRecord.timed).replay (rows.lane1.map Prod.fst) key = some row := by
    intro row
    rw [← Rows.folds_sorted_eq h]
    exact mem_values_foldl_step
  have hfold : ∀ row, row ∈ currentVouches AccumulatorRecord.folded folds ↔
      ∃ r : AccumulatorRecord × RawEdge, r.1 = row ∧
        ∃ k, (events.comap Prod.snd).replay rows.lane1 k = some r := by
    intro row
    rw [hreplay]
    constructor
    · rintro ⟨key, hkey⟩
      rw [Registers.replay_map, map_eq_some_iff] at hkey
      obtain ⟨r, hr, rfl⟩ := hkey
      exact ⟨r, rfl, (exists_replay_spells rows.spells1).mp ⟨key, hr⟩⟩
    · rintro ⟨r, rfl, hr⟩
      obtain ⟨key, hkey⟩ := (exists_replay_spells rows.spells1).mpr hr
      refine ⟨key, ?_⟩
      rw [Registers.replay_map, map_eq_some_iff]
      exact ⟨r, hkey, rfl⟩
  rw [currentUidsForResolver, List.mem_map]
  constructor
  · rintro ⟨row, hrow, rfl⟩
    obtain ⟨r, rfl, k, hk⟩ := (hfold row).mp hrow
    refine ⟨k, r.2, ?_, ?_⟩
    · rw [Registers.replay_map, hk]
      rfl
    · exact (rows.spells1 r (Registers.replay_mem hk).1).uid.symm
  · rintro ⟨k, e, hk, rfl⟩
    rw [Registers.replay_map, map_eq_some_iff] at hk
    obtain ⟨r, hr, rfl⟩ := hk
    exact ⟨r.1, (hfold r.1).mpr ⟨r, rfl, k, hr⟩, (rows.spells1 r (Registers.replay_mem hr).1).uid⟩

theorem exists_uid_live (h : records.Perm rows.timed) {u : Bytes} :
    (∃ t ∈ currentTimedVouches Prod.fst records, toLowerCase t.1.uid = u) ↔
      ∃ k e, events.replay (ordered rows.edges) k = some e ∧ uidName e.uid = u := by
  constructor
  · rintro ⟨t, ht, rfl⟩
    obtain ⟨i, hi, hlive⟩ := (mem_currentTimedVouches h).mp ht
    exact ⟨_, t.2, replay_ordered_live.mpr ⟨i, hlive, rfl⟩, (rows.spells t (mem_of_getElem? hi)).uid.symm⟩
  · rintro ⟨k, e, hk, rfl⟩
    obtain ⟨i, hlive, -⟩ := replay_ordered_live.mp hk
    obtain ⟨t, ht, rfl⟩ := exists_live h hlive
    obtain ⟨i, hi, -⟩ := (mem_currentTimedVouches h).mp ht
    exact ⟨t, ht, (rows.spells t (mem_of_getElem? hi)).uid⟩

section Imported

open OnchainAttestationImporter

variable {edges : List RawEdge} {k : Address × Address} {e : RawEdge}

theorem clears_later (himported : Imported edges) {a c : RawEdge × ℕ} (ha : edges[a.2]? = some a.1)
    (hc : edges[c.2]? = some c.1) (h0 : a.1.kind = 0) (h1 : c.1.kind = 1) (hname : c.1.uid = a.1.uid) :
    events.key c.1 = events.key a.1 ∧ a.2 < c.2 ∧ Later a c := by
  obtain ⟨i, b, hic, hb, hb0, huid, hattester, hrecipient, htime⟩ := himported.ends c.2 c.1 hc h1
  obtain rfl : i = a.2 := himported.once i a.2 b a.1 hb ha hb0 h0 (huid.trans hname)
  obtain rfl : b = a.1 := Option.some.inj (hb.symm.trans ha)
  refine ⟨Prod.ext hattester.symm hrecipient.symm, hic, later_iff.mpr ?_⟩
  rw [UInt64.le_iff_toNat_le] at htime
  omega

theorem replay_imported {lt : RawEdge × ℕ → RawEdge × ℕ → Prop} {l : List (RawEdge × ℕ)}
    (himported : Imported edges) (hl : ∀ a, a ∈ l ↔ edges[a.2]? = some a.1) (hs : l.Pairwise lt)
    (hasymm : ∀ a b, lt a b → ¬ lt b a) (hlt : ∀ a c, a.2 < c.2 → Later a c → lt a c) :
    events.replay (l.map Prod.fst) k = some e ↔ ∃ i, edges[i]? = some e ∧ e.kind = 0 ∧
      events.key e = k ∧ Unended edges e ∧ ∀ (j : ℕ) (f : RawEdge), edges[j]? = some f →
        f.kind = 0 → events.key f = events.key e → ¬ lt (e, i) (f, j) := by
  have hclear : ∀ c ∈ l, (events.comap Prod.fst).clears c = true → ∀ a ∈ l,
      (events.comap Prod.fst).sets a = true →
      (events.comap Prod.fst).name c = (events.comap Prod.fst).name a →
      (events.comap Prod.fst).key c = (events.comap Prod.fst).key a ∧ lt a c := by
    intro c hc hclears a ha hsets hname
    obtain ⟨hk, hidx, hlater⟩ := clears_later himported ((hl a).mp ha) ((hl c).mp hc)
      (by simpa [events, Registers.comap] using hsets)
      (by simpa [events, Registers.comap] using hclears) hname
    exact ⟨hk, hlt a c hidx hlater⟩
  rw [Registers.replay_map, map_eq_some_iff]
  constructor
  · rintro ⟨⟨e, i⟩, h, rfl⟩
    obtain ⟨hmem, hset, rfl, hunended, hlast⟩ := (Registers.replay_sorted_once hs hasymm hclear).mp h
    refine ⟨i, (hl _).mp hmem, by simpa [events, Registers.comap] using hset, rfl,
      fun f hf h1 => ?_, fun j f hf h0 hkey => ?_⟩
    · obtain ⟨j, hj, hfj⟩ := getElem_of_mem hf
      exact hunended (f, j) ((hl _).mpr (by rw [getElem?_eq_getElem hj, hfj]))
        (by simpa [events, Registers.comap] using h1)
    · exact hlast (f, j) ((hl _).mpr hf) (by simpa [events, Registers.comap] using h0) hkey
  · rintro ⟨i, he, h0, rfl, hunended, hlast⟩
    refine ⟨(e, i), (Registers.replay_sorted_once hs hasymm hclear).mpr ⟨(hl _).mpr he,
      by simpa [events, Registers.comap] using h0, rfl, fun f hf hc => ?_, fun f hf hsets hkey => ?_⟩,
      rfl⟩
    · exact hunended f.1 (mem_of_getElem? ((hl f).mp hf))
        (by simpa [events, Registers.comap] using hc)
    · exact hlast f.2 f.1 ((hl f).mp hf) (by simpa [events, Registers.comap] using hsets) hkey

theorem replay_folded (himported : Imported edges) : events.replay edges k = some e ↔
    ∃ i, edges[i]? = some e ∧ e.kind = 0 ∧ events.key e = k ∧ Unended edges e ∧ FoldedLast edges i e := by
  have hs : edges.zipIdx.Pairwise fun a b => a.2 < b.2 := by
    rw [← pairwise_map (f := Prod.snd) (R := (· < ·)), zipIdx_map_snd]
    exact pairwise_lt_range'
  have h := replay_imported (k := k) (e := e) himported
    (fun a => mem_zipIdx_iff_getElem?) hs (fun _ _ h => Nat.lt_asymm h) fun _ _ h _ => h
  rw [zipIdx_map_fst] at h
  exact h

theorem replay_latest (himported : Imported edges) : events.replay (ordered edges) k = some e ↔
    ∃ i, edges[i]? = some e ∧ e.kind = 0 ∧ events.key e = k ∧ Unended edges e ∧ LatestInTime edges i e :=
  replay_imported himported (fun _ => mem_positioned) (positioned_sorted edges)
    (fun _ _ h => h.asymm) fun _ _ _ h => h

theorem foldsInTime_iff (himported : Imported edges) : FoldsInTime edges ↔
    ∀ u, (∃ k e, events.replay edges k = some e ∧ uidName e.uid = u) ↔
      ∃ k e, events.replay (ordered edges) k = some e ∧ uidName e.uid = u := by
  constructor
  · intro h u
    constructor
    · rintro ⟨k, e, he, rfl⟩
      obtain ⟨i, hi, h0, hk, hunended, hlast⟩ := (replay_folded himported).mp he
      exact ⟨k, e, (replay_latest himported).mpr
        ⟨i, hi, h0, hk, hunended, (h i e hi h0 hunended).mp hlast⟩, rfl⟩
    · rintro ⟨k, e, he, rfl⟩
      obtain ⟨i, hi, h0, hk, hunended, hlatest⟩ := (replay_latest himported).mp he
      exact ⟨k, e, (replay_folded himported).mpr
        ⟨i, hi, h0, hk, hunended, (h i e hi h0 hunended).mpr hlatest⟩, rfl⟩
  · intro h i e hi h0 hunended
    -- the uid of an attestation tells its place in the log
    have hsame : ∀ (j : ℕ) (f : RawEdge), edges[j]? = some f → f.kind = 0 →
        uidName f.uid = uidName e.uid → j = i ∧ f = e := by
      intro j f hj hf0 hfu
      obtain rfl := himported.once j i f e hj hi hf0 h0 (uidName_injective hfu)
      exact ⟨rfl, Option.some.inj (hj.symm.trans hi)⟩
    constructor
    · intro hlast
      obtain ⟨k, f, hf, hfu⟩ := (h (uidName e.uid)).mp ⟨events.key e, e,
        (replay_folded himported).mpr ⟨i, hi, h0, rfl, hunended, hlast⟩, rfl⟩
      obtain ⟨j, hj, hf0, -, -, hlatest⟩ := (replay_latest himported).mp hf
      obtain ⟨rfl, rfl⟩ := hsame j f hj hf0 hfu
      exact hlatest
    · intro hlatest
      obtain ⟨k, f, hf, hfu⟩ := (h (uidName e.uid)).mpr ⟨events.key e, e,
        (replay_latest himported).mpr ⟨i, hi, h0, rfl, hunended, hlatest⟩, rfl⟩
      obtain ⟨j, hj, hf0, -, -, hlast⟩ := (replay_folded himported).mp hf
      obtain ⟨rfl, rfl⟩ := hsame j f hj hf0 hfu
      exact hlast

theorem uidsAgree_iff (himported : Imported rows.edges) (hlane2 : rows.lane2 = []) :
    UidsAgree rows ↔ FoldsInTime rows.edges := by
  have hedges : rows.lane1.map Prod.snd = rows.edges := by rw [Rows.edges, hlane2, map_nil, append_nil]
  rw [foldsInTime_iff himported, ← hedges]
  constructor
  · intro h u
    have hu := h _ _ (List.Perm.refl _) (List.Perm.refl _) u
    rw [mem_currentUidsForResolver (List.Perm.refl _), exists_uid_live (List.Perm.refl _), ← hedges] at hu
    exact hu
  · intro h folds records hfolds hrecords u
    rw [mem_currentUidsForResolver hfolds, exists_uid_live hrecords, ← hedges]
    exact h u

/-- The live vouches are the edges of the guest; without a second lane the account view names the same
uids. -/
def LiveVouchesAreEdges (rows : Rows) : Prop :=
  (∀ records p graph, records.Perm rows.timed → buildGraph rows.edges p = some graph →
    VouchesAreEdges rows records p graph) ∧
  (rows.lane2 = [] → UidsAgree rows)

/-- On the log of the importer the live vouches are the edges of the guest exactly when there is a second
lane or the log folds in time. The network view alone needs no condition. -/
theorem live_vouches_are_edges (rows : Rows) :
    (∀ (records : List (TimedVouch × RawEdge)) (p : Params) (graph : Graph),
      records.Perm rows.timed → buildGraph rows.edges p = some graph → VouchesAreEdges rows records p graph) ∧
    ∀ (H : Hashes) (schemaUid : B256) (deployer : Address) (calls : List (Env × Call)),
      EasHistory calls → rows.lane1.map Prod.snd = (run H schemaUid deployer calls).2 →
      (LiveVouchesAreEdges rows ↔ (rows.lane2 = [] → FoldsInTime rows.edges)) := by
  refine ⟨fun _ _ _ h hgraph => vouchesAreEdges h hgraph,
    fun H schemaUid deployer calls hhistory hrows => ?_⟩
  have himported : rows.lane2 = [] → Imported rows.edges := by
    intro hlane2
    rw [Rows.edges, hlane2, map_nil, append_nil, hrows]
    exact run_imported hhistory
  constructor
  · intro h hlane2
    exact (uidsAgree_iff (himported hlane2) hlane2).mp (h.2 hlane2)
  · intro h
    exact ⟨fun _ _ _ hperm hgraph => vouchesAreEdges hperm hgraph,
      fun hlane2 => (uidsAgree_iff (himported hlane2) hlane2).mpr (h hlane2)⟩

namespace Example

def word (n : Nat) : B256 := .ofNat 32 n

def addr (b : UInt8) : Address := .replicate 20 b

def attestation (uid : Nat) (time : UInt64) : Attestation :=
  ⟨word uid, .replicate 32 5, time, 0, 0, addr 2, addr 1, wordU256 95⟩

def older : Attestation :=
  attestation 0xcb2936be531698ba4f565b3199186552a2d4bcc40fa6ecbfee1fb75c65f32707 100

def newer : Attestation :=
  attestation 0x4bf2d29fde8f8c9e5007a614c4da9b4e65a9044a8902c46b54e58fcfe92efd0a 200

def dataHash : B256 := word 0xcc7ee599e5d59fee88c83157bd897847c5911dc7d317b3175e0b085198349973

def preimage (a : Attestation) : Bytes :=
  AttestationAccumulator.leafPreimage 0 (addr 1) (addr 2) a.uid (BitVec.ofNat 256 a.time.toNat) dataHash

def newerLeaf : B256 := word 0x6efe3fc5b0299b4ab39ddb54623b16da97296a976ad52f034de790fee1cd6fad

def olderLeaf : B256 := word 0x1df2a65a8f46b60dec363041110a34c29332538c6496fadb672ead53a38e7ca2

def newerAcc : B256 := word 0x6ef75446bba69c75d96fd6f6268f19cc14f52116e4a407cd9a1f0ea86d07a0ac

def olderAcc : B256 := word 0x1eb697336b7a49a63c2557d03505e3862fbe862f2ffb347edf626ad2d375bb0f

def keccak256 (s : Bytes) : B256 :=
  if s = wordU256 95 then dataHash
  else if s = preimage newer then newerLeaf
  else if s = preimage older then olderLeaf
  else if s = (word 0).bytes ++ newerLeaf.bytes then newerAcc
  else if s = newerAcc.bytes ++ olderLeaf.bytes then
    word 0xc132c4f9b46dc36871289db302e3b88b57c94691ce420ff90133b6336191930a
  else if s = (word 0).bytes ++ olderLeaf.bytes then olderAcc
  else if s = olderAcc.bytes ++ newerLeaf.bytes then
    word 0x4083aec9c5bdceba3e28463965ec320d10adb0409bee9dd5bdf53ee8a93ec457
  else 0

def hashes : Hashes := ⟨keccak256, fun _ => 0⟩

def getAttestation (uid : B256) : Attestation :=
  if uid = older.uid then older
  else if uid = newer.uid then newer
  else ⟨0, 0, 0, 0, 0, 0, 0, []⟩

def calls (a b : Attestation) : List (Env × Call) :=
  [(⟨getAttestation, 300⟩, .importAttestations [a.uid, b.uid])]

def edge (a : Attestation) : RawEdge := importAttestations.edge a a.uid

def row (a : Attestation) (logIndex : ℤ) : AccumulatorRecord :=
  ⟨0, hex a.attester.bytes, hex a.recipient.bytes, hex a.uid.bytes, a.time.toNat, 7, logIndex⟩

theorem toLowerCase_hex (l : Bytes) : toLowerCase (hex l) = hex l := by
  have hdigit : ∀ n : Fin 16, ¬ (65 ≤ Text.hexDigit n ∧ Text.hexDigit n ≤ 90) := by decide
  have hlower : toLowerCase (Text.encodeHex l) = Text.encodeHex l := by
    induction l with
    | nil => rfl
    | cons b l ih =>
      have hb := b.toNat_lt
      have h1 := hdigit ⟨b.toNat / 16, by omega⟩
      have h2 := hdigit ⟨b.toNat % 16, by omega⟩
      show (if _ then _ else _) :: (if _ then _ else _) :: toLowerCase (Text.encodeHex l) = _
      rw [if_neg h1, if_neg h2, ih]
      rfl
  rw [hex, toLowerCase, map_append]
  exact congrArg (utf8 "0x" ++ ·) hlower

theorem row_spells (a : Attestation) (logIndex : ℤ) : (row a logIndex).timed.Spells (edge a) :=
  ⟨rfl, toLowerCase_hex _, toLowerCase_hex _, toLowerCase_hex _, rfl⟩

def rowsOf (a b : Attestation) : Rows where
  lane1 := [(row a 0, edge a), (row b 1, edge b)]
  lane2 := []
  spells1 r hr := by
    rcases mem_cons.mp hr with rfl | hr
    · exact row_spells a 0
    · rw [mem_singleton.mp hr]
      exact row_spells b 1
  spells2 _ hr := absurd hr not_mem_nil
  order1 := pairwise_pair.mpr (.inr ⟨rfl, show (0 : ℤ) < 1 by decide⟩)
  order2 := .nil

theorem easHistory (a b : Attestation) : EasHistory (calls a b) := by
  have hstored : ∀ uid, getAttestation uid = older ∨ getAttestation uid = newer ∨
      getAttestation uid = ⟨0, 0, 0, 0, 0, 0, 0, []⟩ := by
    intro uid
    unfold getAttestation
    split_ifs <;> simp
  have hends : ∀ uid, (getAttestation uid).revocationTime = 0 ∧ (getAttestation uid).expirationTime = 0 := by
    intro uid
    rcases hstored uid with h | h | h <;> rw [h] <;> exact ⟨rfl, rfl⟩
  refine ⟨fun c hc => ?_, pairwise_singleton ..⟩
  rw [mem_singleton.mp hc]
  exact ⟨fun uid _ h => absurd (hends uid).1 h, fun uid _ h => absurd (hends uid).2 h⟩

theorem run_calls : (run hashes older.schema (addr 9) (calls older newer)).2 = [edge older, edge newer] ∧
    (run hashes older.schema (addr 9) (calls newer older)).2 = [edge newer, edge older] := by
  decide +kernel

theorem foldsInTime_older_first : FoldsInTime [edge older, edge newer] := by
  intro i e hi h0 _
  match i, hi with
  | 0, hi =>
    obtain rfl : edge older = e := Option.some.inj hi
    constructor
    · exact fun h => absurd (show 0 < 1 by decide) (h 1 (edge newer) rfl rfl rfl)
    · exact fun h => absurd (.inl (by decide)) (h 1 (edge newer) rfl rfl rfl)
  | 1, hi =>
    obtain rfl : edge newer = e := Option.some.inj hi
    constructor
    · intro _ j f hj _ _ hlater
      match j, hj with
      | 0, hj =>
        obtain rfl : edge older = f := Option.some.inj hj
        exact absurd hlater (by rw [later_iff]; decide)
      | 1, hj =>
        obtain rfl : edge newer = f := Option.some.inj hj
        exact absurd hlater (by rw [later_iff]; decide)
    · intro _ j f hj _ _ hlt
      exact absurd hj (by rw [getElem?_eq_none (show 2 ≤ j by omega)]; simp)

end Example

open Example in
/-- The account view names the older of two attestations when it is folded last. -/
theorem newer_folded_first : ¬ ∀ (H : Hashes) (schemaUid : B256) (deployer : Address)
    (calls : List (Env × Call)) (rows : Rows), EasHistory calls →
      rows.lane1.map Prod.snd = (run H schemaUid deployer calls).2 → LiveVouchesAreEdges rows := by
  intro h
  have hagree := (h hashes older.schema (Indexer.Example.addr 9) (calls newer older)
    (rowsOf newer older) (easHistory newer older) run_calls.2.symm).2 rfl
  have hu := hagree [row newer 0, row older 1] (rowsOf newer older).timed (List.Perm.refl _)
    (List.Perm.refl _) (hex older.uid.bytes)
  revert hu
  decide +kernel

open Example in
/-- Two attestations folded in the order of their times. -/
theorem live_vouches_are_edges_two_attestations : LiveVouchesAreEdges (rowsOf older newer) :=
  ((live_vouches_are_edges (rowsOf older newer)).2 hashes older.schema (Indexer.Example.addr 9)
    (calls older newer) (easHistory older newer) run_calls.1.symm).mpr fun _ => foldsInTime_older_first

end Imported

end Trustgraphs.Indexer
