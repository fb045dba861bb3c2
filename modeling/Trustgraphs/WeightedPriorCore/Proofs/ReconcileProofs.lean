import Trustgraphs.WeightedPriorCore.Rank

/-!
# The two reconciliations build the same graph

Every pair of an attester and a recipient has a state of its own (`pairState`), which its events
change in the order of their timestamps.
-/

namespace Trustgraphs.WeightedPrior

open BTreeMap List

abbrev pairOf (edge : RawEdge) : Address × Address := (edge.attester, edge.recipient)

def weightOf (p : Params) (edge : RawEdge) : UInt64 := (edgeWeight edge p).getD 0

theorem edgeWeight_eq {p : Params} (hp : p.minWeight ≤ p.maxWeight) (edge : RawEdge) :
    edgeWeight edge p = some (weightOf p edge) := by
  have hsome : ∃ w, edgeWeight edge p = some w := by
    unfold edgeWeight
    dsimp only
    split
    · exact ⟨_, rfl⟩
    · rename_i hle
      have hmax := p.maxWeight.toNat_lt
      obtain ⟨x, hx⟩ := Checked.exists_toNat64
        (n := ((decodeWeight edge.data p.weightFieldIndex).getD 0).toNat) (by omega)
      have hclamp : ¬ p.maxWeight < p.minWeight := UInt64.not_lt.mpr hp
      have hvalue : clamp x p.minWeight p.maxWeight = some
          (if x < p.minWeight then p.minWeight else if p.maxWeight < x then p.maxWeight else x) :=
        if_neg hclamp
      exact ⟨_, Option.bind_eq_some_iff.mpr ⟨x, Checked.u64_eq_some.mpr hx, hvalue⟩⟩
  obtain ⟨w, hw⟩ := hsome
  rw [weightOf, hw, Option.getD_some]

def pairNext (p : Params) (current : Option (B256 × UInt64)) (edge : RawEdge) : Option (B256 × UInt64) :=
  if edge.kind = 0 then some (edge.uid, weightOf p edge)
  else if edge.kind = 1 ∧ current.any fun entry => entry.1 == edge.uid then none
  else current

def pairState (p : Params) (l : List RawEdge) (k : Address × Address) : Option (B256 × UInt64) :=
  (l.filter fun edge => pairOf edge = k).foldl (pairNext p) none

variable {p : Params} (hp : p.minWeight ≤ p.maxWeight)

include hp in
theorem pairEvent_eq (current : Option (B256 × UInt64)) (edge : RawEdge) :
    pairEvent p current edge = some (pairNext p current edge) := by
  unfold pairEvent pairNext
  by_cases h0 : edge.kind = 0
  · rw [if_pos h0, if_pos h0, edgeWeight_eq hp]
    rfl
  · rw [if_neg h0, if_neg h0]
    split <;> rfl

include hp in
theorem foldlM_pairEvent (l : List RawEdge) (current : Option (B256 × UInt64)) :
    l.foldlM (pairEvent p) current = some (l.foldl (pairNext p) current) := by
  induction l generalizing current with
  | nil => rfl
  | cons edge l ih =>
    rw [foldlM_cons, pairEvent_eq hp]
    exact ih _

def RowsNonempty (current : Current) : Prop :=
  ∀ (a : Address) (row : BTreeMap Address (B256 × UInt64)), current[a]? = some row → row ≠ ∅

theorem insert_ne_empty {V : Type} (m : BTreeMap Address V) (a : Address) (v : V) : m.insert a v ≠ ∅ := by
  intro h
  have hget := BTreeMap.getElem?_insert_self m a v
  rw [h] at hget
  exact absurd hget (by simp)

variable {current : Current} {a : RawEdge × ℕ} {l : List RawEdge} {b : RawEdge × ℕ}

theorem RowsNonempty.insert (h : RowsNonempty current) (a : Address)
    {row : BTreeMap Address (B256 × UInt64)} (hrow : row ≠ ∅) : RowsNonempty (current.insert a row) := by
  intro b other hb
  rw [BTreeMap.getElem?_insert] at hb
  split at hb
  · obtain rfl := Option.some_inj.mp hb
    exact hrow
  · exact h b other hb

theorem RowsNonempty.erase (h : RowsNonempty current) (a : Address) : RowsNonempty (current.erase a) :=
  fun b other hb => h b other (BTreeMap.getElem?_of_erase hb)

/-- One event changes the state of its pair. -/
theorem applyEvent_eq (hp : p.minWeight ≤ p.maxWeight) (hne : RowsNonempty current)
    (edge : RawEdge) : ∃ current', applyEvent p current edge = some current' ∧ RowsNonempty current' ∧
      ∀ k, BTreeMap.cell current' k =
        if pairOf edge = k then pairNext p (BTreeMap.cell current k) edge else BTreeMap.cell current k := by
  unfold applyEvent
  by_cases h0 : edge.kind = 0
  · refine ⟨current.insert edge.attester ((current.getD edge.attester ∅).insert edge.recipient
      (edge.uid, weightOf p edge)), ?_, hne.insert _ (insert_ne_empty _ _ _), fun k => ?_⟩
    · rw [if_pos h0, edgeWeight_eq hp]
      rfl
    · obtain ⟨a, r⟩ := k
      simp only [cell_insert, Prod.mk.injEq]
      by_cases ha : edge.attester = a
      · subst ha
        rw [if_pos rfl, BTreeMap.getElem?_insert]
        by_cases hr : edge.recipient = r
        · subst hr
          rw [if_pos rfl, if_pos ⟨rfl, rfl⟩, pairNext, if_pos h0]
        · rw [if_neg hr, if_neg fun h => hr h.2, cell_eq, Std.ExtTreeMap.getD_eq_getD_getElem?]
      · rw [if_neg ha, if_neg fun h => ha h.1]
  · rw [if_neg h0]
    by_cases h1 : edge.kind = 1
    · rw [if_pos h1]
      cases hrow : current[edge.attester]? with
      | none =>
        refine ⟨current, rfl, hne, fun k => ?_⟩
        split
        · rename_i hk
          subst hk
          rw [pairNext, if_neg h0, BTreeMap.cell, hrow]
          simp
        · rfl
      | some row =>
        obtain ⟨kept, hkept⟩ : ∃ kept, kept =
            if (row[edge.recipient]?).any fun entry => entry.1 == edge.uid then
              row.erase edge.recipient else row := ⟨_, rfl⟩
        have hcell : ∀ r, BTreeMap.cell current (edge.attester, r) = row[r]? := by
          intro r
          rw [BTreeMap.cell, hrow]
          rfl
        -- what is left of the row
        have hget : ∀ r, kept[r]? = if edge.recipient = r then
            pairNext p (row[edge.recipient]?) edge else row[r]? := by
          intro r
          have hnext : pairNext p (row[edge.recipient]?) edge =
              if (row[edge.recipient]?).any fun entry => entry.1 == edge.uid then none
              else row[edge.recipient]? := by
            rw [pairNext, if_neg h0]
            simp only [h1, true_and]
          rw [hkept, hnext]
          by_cases hany : (row[edge.recipient]?).any fun entry => entry.1 == edge.uid
          · rw [if_pos hany, if_pos hany, BTreeMap.getElem?_erase]
          · rw [if_neg hany, if_neg hany]
            split
            · rename_i hr
              rw [hr]
            · rfl
        have hstate : ∀ k : Address × Address, (if edge.attester = k.1 then kept[k.2]?
            else BTreeMap.cell current k) =
            if pairOf edge = k then pairNext p (BTreeMap.cell current k) edge
            else BTreeMap.cell current k := by
          rintro ⟨a, r⟩
          simp only [Prod.mk.injEq]
          by_cases ha : edge.attester = a
          · subst ha
            rw [if_pos rfl, hget, hcell]
            by_cases hr : edge.recipient = r
            · subst hr
              rw [if_pos rfl, if_pos ⟨rfl, rfl⟩]
            · rw [if_neg hr, if_neg fun h => hr h.2]
          · rw [if_neg ha, if_neg fun h => ha h.1]
        dsimp only
        rw [← hkept]
        by_cases hempty : kept = ∅
        · refine ⟨current.erase edge.attester, ?_, hne.erase _, fun k => ?_⟩
          · rw [if_pos (by simp [hempty])]
          · rw [← hstate, cell_erase, hempty]
            simp
        · refine ⟨current.insert edge.attester kept, ?_, hne.insert _ hempty, fun k => ?_⟩
          · rw [if_neg (by simpa using hempty)]
          · rw [← hstate, cell_insert]
    · rw [if_neg h1]
      refine ⟨current, rfl, hne, fun k => ?_⟩
      have hsame : pairNext p (BTreeMap.cell current k) edge = BTreeMap.cell current k := by
        rw [pairNext, if_neg h0, if_neg fun h => h1 h.1]
      rw [hsame, ite_self]

theorem foldlM_applyEvent_eq (hp : p.minWeight ≤ p.maxWeight) (l : List RawEdge) :
    ∃ current, l.foldlM (applyEvent p) ∅ = some current ∧ RowsNonempty current ∧
      ∀ k, BTreeMap.cell current k = pairState p l k := by
  induction l using List.reverseRecOn with
  | nil =>
    refine ⟨∅, rfl, fun a row h => absurd h (by simp), fun k => ?_⟩
    simp [BTreeMap.cell, pairState]
  | append_singleton l edge ih =>
    obtain ⟨current, hfold, hne, hcell⟩ := ih
    obtain ⟨current', hstep, hne', hcell'⟩ := applyEvent_eq hp hne edge
    refine ⟨current', ?_, hne', fun k => ?_⟩
    · rw [foldlM_append, hfold]
      show ([edge].foldlM (applyEvent p) current) = some current'
      rw [foldlM_cons, hstep]
      rfl
    · rw [hcell', hcell, pairState, pairState, filter_append, foldl_append]
      by_cases hk : pairOf edge = k
      · rw [if_pos hk, filter_cons_of_pos (by simpa using hk)]
        rfl
      · rw [if_neg hk, filter_cons_of_neg (by simpa using hk)]
        rfl

def Graph.edges (graph : Graph) : List (Address × Address × UInt64) :=
  graph.outgoing.toList.flatMap fun row => row.2.toList.map fun e => (row.1, e.1, e.2)

def pairKey (e : Address × Address × UInt64) : Address ×ₗ Address := toLex (e.1, e.2.1)

theorem Graph.mem_edges {graph : Graph} {a r : Address} {w : UInt64} :
    (a, r, w) ∈ graph.edges ↔ BTreeMap.cell graph.outgoing (a, r) = some w := by
  unfold Graph.edges BTreeMap.cell
  rw [mem_flatMap, Option.bind_eq_some_iff]
  constructor
  · rintro ⟨⟨b, row⟩, hrow, hmem⟩
    obtain ⟨⟨t, v⟩, he, heq⟩ := mem_map.mp hmem
    simp only [Prod.mk.injEq] at heq
    obtain ⟨rfl, rfl, rfl⟩ := heq
    exact ⟨row, mem_toList.mp hrow, mem_toList.mp he⟩
  · rintro ⟨row, hrow, hw⟩
    exact ⟨(a, row), mem_toList.mpr hrow, mem_map.mpr ⟨(r, w), mem_toList.mpr hw, rfl⟩⟩

theorem Graph.edges_sorted (graph : Graph) : graph.edges.Pairwise fun x y => pairKey x < pairKey y := by
  unfold Graph.edges
  rw [pairwise_flatMap]
  refine ⟨fun row _ => ?_, graph.outgoing.toList_sorted.imp fun {x y} hxy e he f hf => ?_⟩
  · rw [pairwise_map]
    refine row.2.toList_sorted.imp fun {x y} hxy => ?_
    exact Prod.Lex.toLex_lt_toLex.mpr (Or.inr ⟨rfl, hxy⟩)
  · obtain ⟨e, -, rfl⟩ := mem_map.mp he
    obtain ⟨f, -, rfl⟩ := mem_map.mp hf
    exact Prod.Lex.toLex_lt_toLex.mpr (Or.inl hxy)

theorem edges_unique {l l' : List (Address × Address × UInt64)}
    (h : l.Pairwise fun x y => pairKey x < pairKey y) (h' : l'.Pairwise fun x y => pairKey x < pairKey y)
    (hmem : ∀ e, e ∈ l ↔ e ∈ l') : l = l' := by
  have hnodup : ∀ {m : List (Address × Address × UInt64)},
      m.Pairwise (fun x y => pairKey x < pairKey y) → m.Nodup :=
    fun hm => hm.imp fun hlt heq => hlt.ne (congrArg pairKey heq)
  refine List.Perm.eq_of_pairwise (fun a b _ _ (hab : pairKey a < pairKey b)
    (hba : pairKey b < pairKey a) => absurd hab (lt_asymm hba)) h h' ?_
  exact (perm_ext_iff_of_nodup (hnodup h) (hnodup h')).mpr hmem

theorem foldl_ofCurrent (l : List (Address × BTreeMap Address (B256 × UInt64)))
    (st : BTreeMap Address (BTreeMap Address UInt64) × BTreeSet Address) :
    (l.foldl (fun st row => (st.1.insert row.1 (row.2.map fun _ entry => entry.2),
        row.2.keys.foldl (fun nodes recipient => nodes.insert recipient) (st.2.insert row.1))) st).1 =
      (l.map fun row => (row.1, row.2.map fun _ entry => entry.2)).foldl (fun m e => m.insert e.1 e.2) st.1 ∧
    ∀ a, a ∈ (l.foldl (fun st row => (st.1.insert row.1 (row.2.map fun _ entry => entry.2),
        row.2.keys.foldl (fun nodes recipient => nodes.insert recipient) (st.2.insert row.1))) st).2 ↔
      a ∈ st.2 ∨ ∃ row ∈ l, a = row.1 ∨ a ∈ row.2 := by
  have hkeys : ∀ (keys : List Address) (s : BTreeSet Address) (a : Address),
      a ∈ keys.foldl (fun nodes recipient => nodes.insert recipient) s ↔ a ∈ s ∨ a ∈ keys := by
    intro keys
    induction keys with
    | nil => simp
    | cons k keys ih =>
      intro s a
      rw [foldl_cons, ih, Std.ExtTreeSet.mem_insert, compare_eq_iff_eq, mem_cons, eq_comm (a := k)]
      tauto
  induction l generalizing st with
  | nil => exact ⟨rfl, fun a => by simp⟩
  | cons row l ih =>
    obtain ⟨hmap, hnodes⟩ := ih (st.1.insert row.1 (row.2.map fun _ entry => entry.2),
      row.2.keys.foldl (fun nodes recipient => nodes.insert recipient) (st.2.insert row.1))
    refine ⟨?_, fun a => ?_⟩
    · rw [foldl_cons, hmap, map_cons, foldl_cons]
    · rw [foldl_cons, hnodes, hkeys, Std.ExtTreeSet.mem_insert, compare_eq_iff_eq,
        Std.ExtTreeMap.mem_keys, exists_mem_cons_iff, eq_comm (a := row.1), or_assoc, or_assoc,
        or_left_comm, or_assoc]

theorem cell_ofCurrent (current : Current) (k : Address × Address) :
    BTreeMap.cell (ofCurrent current).outgoing k = (BTreeMap.cell current k).map Prod.snd := by
  have hnodup : ((current.toList.map fun row =>
      (row.1, (row.2.map fun _ entry => entry.2 : BTreeMap Address UInt64))).map Prod.fst).Nodup := by
    rw [map_map]
    show (current.toList.map Prod.fst).Nodup
    rw [Std.ExtTreeMap.map_fst_toList_eq_keys]
    exact current.keys_nodup
  have hget : ∀ a : Address, (ofCurrent current).outgoing[a]? =
      current[a]?.map fun row => row.map fun _ entry => entry.2 := by
    intro a
    refine Option.ext fun row => ?_
    rw [ofCurrent]
    dsimp only
    rw [(foldl_ofCurrent current.toList (∅, ∅)).1, BTreeMap.getElem?_foldl_insert_entries hnodup,
      mem_map, Option.map_eq_some_iff]
    constructor
    · rintro (⟨⟨b, old⟩, hold, heq⟩ | ⟨-, h⟩)
      · obtain ⟨rfl, rfl⟩ := Prod.mk.inj heq
        exact ⟨old, mem_toList.mp hold, rfl⟩
      · exact absurd h (by simp)
    · rintro ⟨old, hold, rfl⟩
      exact Or.inl ⟨(a, old), mem_toList.mpr hold, rfl⟩
  rw [BTreeMap.cell, BTreeMap.cell, hget]
  cases current[k.1]? with
  | none => rfl
  | some row => exact BTreeMap.getElem?_map row Prod.snd k.2

theorem mem_nodes_ofCurrent (hne : RowsNonempty current) (a : Address) : a ∈ (ofCurrent current).nodes ↔
      ∃ k x, BTreeMap.cell current k = some x ∧ (a = k.1 ∨ a = k.2) := by
  rw [ofCurrent]
  dsimp only
  rw [Std.ExtTreeSet.mem_toList, (foldl_ofCurrent current.toList (∅, ∅)).2]
  constructor
  · rintro (h | ⟨⟨b, row⟩, hrow, h⟩)
    · exact absurd h (by simp)
    · have hb := mem_toList.mp hrow
      rcases h with rfl | h
      · obtain ⟨r, hr⟩ := exists_mem_of_ne_empty (hne _ row hb)
        obtain ⟨x, hx⟩ := mem_iff_getElem?.mp hr
        exact ⟨(_, r), x, Option.bind_eq_some_iff.mpr ⟨row, hb, hx⟩, Or.inl rfl⟩
      · obtain ⟨x, hx⟩ := mem_iff_getElem?.mp h
        exact ⟨(b, a), x, Option.bind_eq_some_iff.mpr ⟨row, hb, hx⟩, Or.inr rfl⟩
  · rintro ⟨⟨b, r⟩, x, hx, h⟩
    obtain ⟨row, hb, hr⟩ := Option.bind_eq_some_iff.mp hx
    refine Or.inr ⟨(b, row), mem_toList.mpr hb, ?_⟩
    rcases h with h | h
    · exact Or.inl h
    · rw [h]
      exact Or.inr (mem_iff_getElem?.mpr ⟨x, hr⟩)

def keyOf (edge : RawEdge) : Address ×ₗ Address := toLex (pairOf edge)

theorem exists_of_pairState {k : Address × Address} {x : B256 × UInt64}
    (h : pairState p l k = some x) : ∃ edge ∈ l, pairOf edge = k := by
  unfold pairState at h
  cases hl : l.filter fun edge => pairOf edge = k with
  | nil =>
    rw [hl] at h
    exact absurd h (by simp)
  | cons edge rest =>
    have hmem : edge ∈ l.filter fun edge => pairOf edge = k := by
      rw [hl]
      exact mem_cons_self
    obtain ⟨hin, hk⟩ := mem_filter.mp hmem
    exact ⟨edge, hin, by simpa using hk⟩

theorem keyOf_dropWhile (hl : l.Pairwise fun a b => keyOf a ≤ keyOf b)
    {k : Address × Address} (hk : ∀ edge ∈ l, toLex k ≤ keyOf edge) :
    ∀ edge ∈ l.dropWhile (fun other => pairOf other = k), toLex k < keyOf edge := by
  induction l with
  | nil => exact fun edge h => absurd h not_mem_nil
  | cons x l ih =>
    obtain ⟨hx, hl⟩ := pairwise_cons.mp hl
    obtain ⟨hkx, hk⟩ := forall_mem_cons.mp hk
    by_cases hxk : pairOf x = k
    · rw [dropWhile_cons_of_pos (by simpa using hxk)]
      exact ih hl hk
    · rw [dropWhile_cons_of_neg (by simpa using hxk)]
      have hlt : toLex k < keyOf x := lt_of_le_of_ne hkx fun h => hxk (toLex.injective h).symm
      intro edge hedge
      rcases mem_cons.mp hedge with rfl | hedge
      · exact hlt
      · exact hlt.trans_le (hx edge hedge)

theorem spanPair_eq (edge : RawEdge) (edges : List RawEdge) : spanPair (edge :: edges) =
    ((edge :: edges).takeWhile (fun other => pairOf other = pairOf edge),
      (edge :: edges).dropWhile (fun other => pairOf other = pairOf edge)) := by
  have hpred : (fun other : RawEdge => other.attester == edge.attester &&
      other.recipient == edge.recipient) = fun other => decide (pairOf other = pairOf edge) := by
    funext other
    rw [Bool.eq_iff_iff]
    simp [pairOf]
  rw [spanPair, span_eq_takeWhile_dropWhile, hpred]

theorem pairState_span {edge : RawEdge} {edges : List RawEdge}
    (hl : (edge :: edges).Pairwise fun a b => keyOf a ≤ keyOf b) (k : Address × Address) :
    pairState p (edge :: edges) k =
      if k = pairOf edge then (spanPair (edge :: edges)).1.foldl (pairNext p) none
      else pairState p (spanPair (edge :: edges)).2 k := by
  have hle : ∀ other ∈ edge :: edges, toLex (pairOf edge) ≤ keyOf other := by
    intro other hother
    rcases mem_cons.mp hother with rfl | hother
    · exact le_refl _
    · exact (pairwise_cons.mp hl).1 other hother
  have hrest := keyOf_dropWhile hl hle
  rw [spanPair_eq]
  obtain ⟨run, hrun⟩ : ∃ run, run = (edge :: edges).takeWhile fun other => pairOf other = pairOf edge :=
    ⟨_, rfl⟩
  obtain ⟨rest, hrst⟩ : ∃ rest, rest = (edge :: edges).dropWhile fun other => pairOf other = pairOf edge :=
    ⟨_, rfl⟩
  have happend : edge :: edges = run ++ rest := by rw [hrun, hrst, takeWhile_append_dropWhile]
  have hrunkey : ∀ other ∈ run, pairOf other = pairOf edge := by
    intro other hother
    rw [hrun] at hother
    simpa using mem_takeWhile_imp hother
  rw [← hrst] at hrest
  rw [← hrun, ← hrst, happend, pairState, filter_append]
  by_cases hk : k = pairOf edge
  · subst hk
    have hall : run.filter (fun other => pairOf other = pairOf edge) = run :=
      filter_eq_self.mpr fun other hother => by simpa using hrunkey other hother
    have hnone : rest.filter (fun other => pairOf other = pairOf edge) = [] := by
      rw [filter_eq_nil_iff]
      intro other hother heq
      exact (hrest other hother).ne (congrArg toLex (of_decide_eq_true heq).symm)
    rw [if_pos rfl, hall, hnone, append_nil]
  · have hnone : run.filter (fun other => pairOf other = k) = [] := by
      rw [filter_eq_nil_iff]
      intro other hother heq
      exact hk ((of_decide_eq_true heq).symm.trans (hrunkey other hother))
    rw [if_neg hk, hnone, nil_append, pairState]

/-- Scanning the sorted events gives the states of all pairs in ascending order. -/
theorem scanPairs_eq (hp : p.minWeight ≤ p.maxWeight) (hl : l.Pairwise fun a b => keyOf a ≤ keyOf b) :
    ∃ out, scanPairs p l = some out ∧ out.Pairwise (fun x y => pairKey x < pairKey y) ∧
      ∀ a r w, (a, r, w) ∈ out ↔ (pairState p l (a, r)).map Prod.snd = some w := by
  induction l using scanPairs.induct with
  | case1 =>
    refine ⟨[], by rw [scanPairs], List.Pairwise.nil, fun a r w => ?_⟩
    simp [pairState]
  | case2 edge edges ih =>
    have hsub : (spanPair (edge :: edges)).2.Sublist (edge :: edges) := by
      rw [spanPair_eq]
      exact dropWhile_sublist _
    obtain ⟨rest, hscan, hsorted, hmem⟩ := ih (hl.sublist hsub)
    obtain ⟨state, hstate⟩ : ∃ state, state = (spanPair (edge :: edges)).1.foldl (pairNext p) none := ⟨_, rfl⟩
    have hspan : ∀ k, pairState p (edge :: edges) k =
        if k = pairOf edge then state else pairState p (spanPair (edge :: edges)).2 k := by
      intro k
      rw [hstate]
      exact pairState_span hl k
    -- the pair of the run is not in the rest
    have hlater : ∀ e ∈ rest, toLex (pairOf edge) < pairKey e := by
      rintro ⟨a, r, w⟩ he
      obtain ⟨x, hx, -⟩ := Option.map_eq_some_iff.mp ((hmem a r w).mp he)
      obtain ⟨other, hother, hpair⟩ := exists_of_pairState hx
      rw [spanPair_eq] at hother
      have hle : ∀ other ∈ edge :: edges, toLex (pairOf edge) ≤ keyOf other := by
        intro other hother
        rcases mem_cons.mp hother with rfl | hother
        · exact le_refl _
        · exact (pairwise_cons.mp hl).1 other hother
      have hlt := keyOf_dropWhile hl hle other hother
      rwa [keyOf, hpair] at hlt
    have hother : ∀ a r w, (a, r) ≠ pairOf edge → ((a, r, w) ∈ rest ↔
        (pairState p (edge :: edges) (a, r)).map Prod.snd = some w) := by
      intro a r w hne
      rw [hmem, hspan, if_neg hne]
    have hsame : ∀ w, (edge.attester, edge.recipient, w) ∉ rest := fun w hw => lt_irrefl _ (hlater _ hw)
    rw [scanPairs, foldlM_pairEvent hp, hscan, ← hstate]
    cases hcase : state with
    | none =>
      refine ⟨rest, rfl, hsorted, fun a r w => ?_⟩
      by_cases hk : (a, r) = pairOf edge
      · obtain ⟨rfl, rfl⟩ := Prod.mk.inj hk
        rw [hspan, if_pos rfl, hcase]
        exact ⟨fun h => absurd h (hsame w), fun h => absurd h (by simp)⟩
      · exact hother a r w hk
    | some x =>
      refine ⟨(edge.attester, edge.recipient, x.2) :: rest, rfl,
        pairwise_cons.mpr ⟨hlater, hsorted⟩, fun a r w => ?_⟩
      rw [mem_cons]
      by_cases hk : (a, r) = pairOf edge
      · obtain ⟨rfl, rfl⟩ := Prod.mk.inj hk
        rw [hspan, if_pos rfl, hcase]
        constructor
        · rintro (h | h)
          · simp only [Prod.mk.injEq, true_and] at h
            rw [h]
            rfl
          · exact absurd h (hsame w)
        · intro h
          obtain rfl := Option.some_inj.mp h
          exact Or.inl rfl
      · rw [← hother a r w hk]
        refine or_iff_right fun h => hk ?_
        simp only [Prod.mk.injEq] at h
        exact Prod.ext h.1 h.2.1

theorem timeOrder_iff : timeOrder a b = true ↔ a.1.blockTimestamp.toNat < b.1.blockTimestamp.toNat ∨
      a.1.blockTimestamp.toNat = b.1.blockTimestamp.toNat ∧ a.2 ≤ b.2 := by
  rw [timeOrder, Bool.or_eq_true, Bool.and_eq_true, decide_eq_true_eq, decide_eq_true_eq, beq_iff_eq,
    UInt64.lt_iff_toNat_lt, UInt64.toNat_inj]

theorem timeOrder_total (a b : RawEdge × ℕ) : timeOrder a b = true ∨ timeOrder b a = true := by
  rw [timeOrder_iff, timeOrder_iff]
  omega

theorem timeOrder_trans {c : RawEdge × ℕ} (hab : timeOrder a b = true) (hbc : timeOrder b c = true) :
    timeOrder a c = true := by
  rw [timeOrder_iff] at hab hbc ⊢
  omega

theorem pairOrder_iff : pairOrder a b = true ↔
    keyOf a.1 < keyOf b.1 ∨ keyOf a.1 = keyOf b.1 ∧ timeOrder a b = true := by
  rw [pairOrder, Bool.or_eq_true, Bool.and_eq_true, Bool.or_eq_true, Bool.and_eq_true,
    decide_eq_true_eq, decide_eq_true_eq, beq_iff_eq, beq_iff_eq, keyOf, keyOf,
    Prod.Lex.toLex_lt_toLex, toLex.injective.eq_iff, Prod.mk.injEq]
  tauto

theorem pairOrder_total (a b : RawEdge × ℕ) : pairOrder a b = true ∨ pairOrder b a = true := by
  rw [pairOrder_iff, pairOrder_iff]
  rcases lt_trichotomy (keyOf a.1) (keyOf b.1) with h | h | h
  · exact Or.inl (Or.inl h)
  · rcases timeOrder_total a b with ht | ht
    · exact Or.inl (Or.inr ⟨h, ht⟩)
    · exact Or.inr (Or.inr ⟨h.symm, ht⟩)
  · exact Or.inr (Or.inl h)

theorem pairOrder_trans {c : RawEdge × ℕ} (hab : pairOrder a b = true) (hbc : pairOrder b c = true) :
    pairOrder a c = true := by
  rw [pairOrder_iff] at hab hbc ⊢
  rcases hab with hab | ⟨hab, htab⟩
  · rcases hbc with hbc | ⟨hbc, -⟩
    · exact Or.inl (hab.trans hbc)
    · exact Or.inl (hbc ▸ hab)
  · rcases hbc with hbc | ⟨hbc, htbc⟩
    · exact Or.inl (hab ▸ hbc)
    · exact Or.inr ⟨hab.trans hbc, timeOrder_trans htab htbc⟩

def byTime (edges : List RawEdge) : List (RawEdge × ℕ) :=
  edges.zipIdx.insertionSort fun a b => timeOrder a b

/-- The events by pair, as `buildFlatGraph` scans them. -/
def byPair (edges : List RawEdge) : List (RawEdge × ℕ) :=
  edges.zipIdx.insertionSort fun a b => pairOrder a b

theorem byTime_sorted (edges : List RawEdge) : (byTime edges).Pairwise fun a b => timeOrder a b = true := by
  have : Std.Total fun a b : RawEdge × ℕ => timeOrder a b = true := ⟨timeOrder_total⟩
  have : IsTrans (RawEdge × ℕ) fun a b => timeOrder a b = true := ⟨fun _ _ _ => timeOrder_trans⟩
  exact pairwise_insertionSort _ _

theorem byPair_sorted (edges : List RawEdge) : (byPair edges).Pairwise fun a b => pairOrder a b = true := by
  have : Std.Total fun a b : RawEdge × ℕ => pairOrder a b = true := ⟨pairOrder_total⟩
  have : IsTrans (RawEdge × ℕ) fun a b => pairOrder a b = true := ⟨fun _ _ _ => pairOrder_trans⟩
  exact pairwise_insertionSort _ _

theorem filter_byPair (edges : List RawEdge) (k : Address × Address) :
    ((byPair edges).map Prod.fst).filter (fun edge => pairOf edge = k) =
      ((byTime edges).map Prod.fst).filter fun edge => pairOf edge = k := by
  have hperm : (byPair edges).Perm (byTime edges) :=
    (perm_insertionSort _ _).trans (perm_insertionSort _ _).symm
  have hzip : ∀ {x : RawEdge × ℕ}, x ∈ byTime edges → edges[x.2]? = some x.1 := by
    intro x hx
    exact mem_zipIdx_iff_getElem?.mp ((perm_insertionSort _ _).mem_iff.mp hx)
  have hfilter : (byPair edges).filter (fun x => pairOf x.1 = k) =
      (byTime edges).filter fun x => pairOf x.1 = k := by
    refine List.Perm.eq_of_pairwise (fun a b ha hb (hab : timeOrder a b = true)
      (hba : timeOrder b a = true) => ?_) ?_ ((byTime_sorted edges).filter _) (hperm.filter _)
    · rw [timeOrder_iff] at hab hba
      have hidx : a.2 = b.2 := by omega
      have ha' := hzip (hperm.mem_iff.mp (mem_of_mem_filter ha))
      have hb' := hzip (mem_of_mem_filter hb)
      rw [hidx] at ha'
      exact Prod.ext (Option.some_inj.mp (ha'.symm.trans hb')) hidx
    · refine List.Pairwise.imp_of_mem (fun {a b} ha hb hab => ?_) ((byPair_sorted edges).filter _)
      have hka : pairOf a.1 = k := by simpa using (mem_filter.mp ha).2
      have hkb : pairOf b.1 = k := by simpa using (mem_filter.mp hb).2
      rcases pairOrder_iff.mp hab with hlt | ⟨-, ht⟩
      · rw [keyOf, keyOf, hka, hkb] at hlt
        exact absurd hlt (lt_irrefl _)
      · exact ht
  rw [filter_map, filter_map]
  exact congrArg (List.map Prod.fst) hfilter

theorem pairLt_iff {a b : RawEdge} : pairLt a b = true ↔ keyOf a < keyOf b := by
  rw [pairLt, Bool.or_eq_true, Bool.and_eq_true, decide_eq_true_eq, decide_eq_true_eq, beq_iff_eq,
    keyOf, keyOf, Prod.Lex.toLex_lt_toLex]

theorem canonicalUniqueAttests_iff {edges : List RawEdge} : canonicalUniqueAttests edges = true ↔
    (∀ edge ∈ edges, edge.kind = 0) ∧ edges.Pairwise fun a b => keyOf a < keyOf b := by
  have hchain : ∀ l : List RawEdge, ((l.zip l.tail).all fun pair => pairLt pair.1 pair.2) = true ↔
      l.IsChain fun a b => keyOf a < keyOf b := by
    intro l
    induction l with
    | nil => simp
    | cons x l ih =>
      cases l with
      | nil => simp
      | cons y l =>
        rw [isChain_cons_cons, ← ih, tail_cons, zip_cons_cons, all_cons, Bool.and_eq_true, pairLt_iff]
        rfl
  have htrans : IsTrans RawEdge fun a b => keyOf a < keyOf b := ⟨fun _ _ _ hab hbc => hab.trans hbc⟩
  rw [canonicalUniqueAttests, Bool.and_eq_true, hchain, isChain_iff_pairwise, all_eq_true]
  simp only [beq_iff_eq]

theorem pairState_canonical {edges : List RawEdge} (hkind : ∀ edge ∈ edges, edge.kind = 0)
    (hsorted : edges.Pairwise fun a b => keyOf a < keyOf b) {edge : RawEdge} (hedge : edge ∈ edges) :
    pairState p ((byTime edges).map Prod.fst) (pairOf edge) = some (edge.uid, weightOf p edge) := by
  have hperm : ((byTime edges).map Prod.fst).Perm edges := by
    have h := (perm_insertionSort (fun a b => timeOrder a b = true) edges.zipIdx).map Prod.fst
    rwa [zipIdx_map_fst] at h
  have hsingle : edges.filter (fun other => pairOf other = pairOf edge) = [edge] := by
    have hnodup : edges.Nodup := hsorted.imp fun hlt heq => hlt.ne (congrArg keyOf heq)
    refine perm_singleton.mp ((perm_ext_iff_of_nodup (hnodup.filter _)
      (nodup_singleton edge)).mpr fun other => ?_)
    rw [mem_filter, mem_singleton, decide_eq_true_eq]
    constructor
    · rintro ⟨hother, hk⟩
      have hkeys : (edges.map keyOf).Nodup := (pairwise_map.mpr hsorted).imp fun hlt => hlt.ne
      exact inj_on_of_nodup_map hkeys hother hedge (congrArg toLex hk)
    · rintro rfl
      exact ⟨hedge, rfl⟩
  have hfilter : ((byTime edges).map Prod.fst).filter (fun other => pairOf other = pairOf edge) = [edge] := by
    refine perm_singleton.mp ?_
    rw [← hsingle]
    exact hperm.filter _
  rw [pairState, hfilter]
  show pairNext p none edge = _
  rw [pairNext, if_pos (hkind edge hedge)]

theorem sortDedup_sorted (nodes : List Address) : (sortDedup nodes).Pairwise (· < ·) := by
  have hle : (sortDedup nodes).Pairwise (· ≤ ·) :=
    (pairwise_insertionSort (· ≤ ·) nodes).sublist (dedup_sublist _)
  exact (hle.and (nodup_dedup _)).imp fun h => lt_of_le_of_ne h.1 h.2

theorem mem_sortDedup {nodes : List Address} {a : Address} : a ∈ sortDedup nodes ↔ a ∈ nodes := by
  rw [sortDedup, mem_dedup, (perm_insertionSort _ _).mem_iff]

theorem buildGraph_eq (hp : p.minWeight ≤ p.maxWeight) (edges : List RawEdge) :
    ∃ graph, buildGraph edges p = some graph ∧ graph.nodes.Pairwise (· < ·) ∧
      (∀ a r w, (a, r, w) ∈ graph.edges ↔
        (pairState p ((byTime edges).map Prod.fst) (a, r)).map Prod.snd = some w) ∧
      ∀ a, a ∈ graph.nodes ↔ ∃ e ∈ graph.edges, a = e.1 ∨ a = e.2.1 := by
  obtain ⟨current, hfold, hne, hcell⟩ := foldlM_applyEvent_eq hp ((byTime edges).map Prod.fst)
  have hedge : ∀ a r w, (a, r, w) ∈ (ofCurrent current).edges ↔
      (pairState p ((byTime edges).map Prod.fst) (a, r)).map Prod.snd = some w := by
    intro a r w
    rw [Graph.mem_edges, cell_ofCurrent, hcell]
  refine ⟨ofCurrent current, ?_, BTreeSet.toList_sorted _, hedge, fun a => ?_⟩
  · unfold buildGraph
    exact Option.bind_eq_some_iff.mpr ⟨current, hfold, rfl⟩
  · rw [mem_nodes_ofCurrent hne]
    constructor
    · rintro ⟨⟨b, r⟩, x, hx, ha⟩
      refine ⟨(b, r, x.2), (hedge _ _ _).mpr ?_, ha⟩
      rw [← hcell, hx]
      rfl
    · rintro ⟨⟨b, r, w⟩, he, ha⟩
      have hstate := (hedge _ _ _).mp he
      rw [← hcell] at hstate
      obtain ⟨x, hx, -⟩ := Option.map_eq_some_iff.mp hstate
      exact ⟨(b, r), x, hx, ha⟩

theorem mapM_canonical (hp : p.minWeight ≤ p.maxWeight) (edges : List RawEdge) :
    (edges.mapM fun edge => do some (edge.attester, edge.recipient, ← edgeWeight edge p)) =
      some (edges.map fun edge => (edge.attester, edge.recipient, weightOf p edge)) := by
  induction edges with
  | nil => rfl
  | cons edge edges ih =>
    rw [mapM_cons, edgeWeight_eq hp, ih]
    rfl

/-- The flat reconciliation has the nodes and the edges of the nested one. -/
theorem buildFlatGraph_eq (hp : p.minWeight ≤ p.maxWeight) (edges : List RawEdge) :
    ∃ graph flat, buildGraph edges p = some graph ∧ buildFlatGraph edges p = some flat ∧
      flat.nodes = graph.nodes ∧ flat.edges = graph.edges := by
  obtain ⟨graph, hgraph, hnodes, hedges, hmem⟩ := buildGraph_eq hp edges
  -- nodes that are the endpoints of the same edges
  have hends : ∀ nodes : List Address,
      (∀ a, a ∈ nodes ↔ ∃ e ∈ graph.edges, a = e.1 ∨ a = e.2.1) → sortDedup nodes = graph.nodes := by
    intro nodes h
    refine List.Pairwise.eq_of_mem_iff (sortDedup_sorted nodes) hnodes fun a => ?_
    rw [mem_sortDedup, h, hmem]
  unfold buildFlatGraph
  by_cases hcanonical : canonicalUniqueAttests edges = true
  · obtain ⟨hkind, hsorted⟩ := canonicalUniqueAttests_iff.mp hcanonical
    have hflat : (edges.map fun edge => (edge.attester, edge.recipient, weightOf p edge)) = graph.edges := by
      refine edges_unique (pairwise_map.mpr hsorted) graph.edges_sorted ?_
      rintro ⟨a, r, w⟩
      rw [hedges, mem_map]
      constructor
      · rintro ⟨edge, hedge, heq⟩
        simp only [Prod.mk.injEq] at heq
        obtain ⟨rfl, rfl, rfl⟩ := heq
        exact congrArg (Option.map Prod.snd) (pairState_canonical hkind hsorted hedge)
      · intro hstate
        obtain ⟨x, hx, rfl⟩ := Option.map_eq_some_iff.mp hstate
        obtain ⟨edge, hedge, hk⟩ := exists_of_pairState hx
        have hperm : ((byTime edges).map Prod.fst).Perm edges := by
          have h := (perm_insertionSort (fun a b => timeOrder a b = true) edges.zipIdx).map Prod.fst
          rwa [zipIdx_map_fst] at h
        have hedge := hperm.mem_iff.mp hedge
        rw [← hk, pairState_canonical hkind hsorted hedge] at hx
        obtain rfl := Option.some_inj.mp hx
        obtain ⟨rfl, rfl⟩ := Prod.mk.inj hk
        exact ⟨edge, hedge, rfl⟩
    have hall : sortDedup (edges.flatMap fun edge => [edge.attester, edge.recipient]) = graph.nodes := by
      refine hends _ fun a => ?_
      rw [← hflat, mem_flatMap]
      simp only [mem_map, exists_exists_and_eq_and, mem_cons, not_mem_nil, or_false]
    refine ⟨graph, ⟨graph.nodes, graph.edges⟩, hgraph, ?_, rfl, rfl⟩
    rw [if_pos hcanonical, mapM_canonical hp, hall, ← hflat]
    rfl
  · have hkeys : ((byPair edges).map Prod.fst).Pairwise fun a b => keyOf a ≤ keyOf b := by
      rw [pairwise_map]
      refine (byPair_sorted edges).imp fun {a b} hab => ?_
      rcases pairOrder_iff.mp hab with hlt | ⟨heq, -⟩
      · exact hlt.le
      · exact heq.le
    obtain ⟨out, hscan, hsorted, hout⟩ := scanPairs_eq hp hkeys
    have hflat : out = graph.edges := by
      refine edges_unique hsorted graph.edges_sorted ?_
      rintro ⟨a, r, w⟩
      rw [hout, hedges, pairState, pairState, filter_byPair]
    have hall : sortDedup (out.flatMap fun edge => [edge.1, edge.2.1]) = graph.nodes := by
      refine hends _ fun a => ?_
      rw [hflat, mem_flatMap]
      simp only [mem_cons, not_mem_nil, or_false]
    refine ⟨graph, ⟨graph.nodes, graph.edges⟩, hgraph, ?_, rfl, rfl⟩
    rw [if_neg hcanonical, ← hall, ← hflat]
    exact Option.bind_eq_some_iff.mpr ⟨out, hscan, rfl⟩

end Trustgraphs.WeightedPrior
