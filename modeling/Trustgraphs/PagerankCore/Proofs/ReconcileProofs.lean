import Trustgraphs.PagerankCore.Compute
import Trustgraphs.PagerankCore.RankGraph

/-!
# What reconciliation yields

Under valid weight bounds no event panics. A row has at most one entry for each event and no entry
above the maximal weight, so the row sums fit, and the graph is closed.
-/

namespace Trustgraphs.Reconcile

open BTreeMap Option List

open Pagerank (Closed Outgoing weight rowSum)

structure WeightBounds (p : Params) : Prop where
  scale_pos : p.precisionScale ≠ 0
  min_le : p.minWeightFp.toNat ≤ p.maxWeightFp.toNat

variable {p : Params} {n m : ℕ} {current : Current}

theorem weightFp_spec (hp : WeightBounds p) (e : RawEdge) :
    ∃ w, weightFp e p = some w ∧ w.toNat ≤ p.maxWeightFp.toNat := by
  have hmin := hp.min_le
  unfold weightFp
  simp only [if_neg hp.scale_pos]
  split
  · exact ⟨p.maxWeightFp, rfl, le_rfl⟩
  · have hlt : ¬ p.maxWeightFp < p.minWeightFp := by
      rw [BitVec.lt_def]
      omega
    unfold clamp
    rw [if_neg hlt]
    refine ⟨_, rfl, ?_⟩
    split
    · exact hmin
    · split
      · exact le_rfl
      · rename_i h
        rw [BitVec.lt_def] at h
        omega

/-- Rows of at most `n` entries, with weights of at most `m`. -/
structure RowsBounded (n m : ℕ) (current : Current) : Prop where
  size : ∀ (a : Address) (row : BTreeMap Address (B256 × U256)), current[a]? = some row → row.size ≤ n
  weight : ∀ (a : Address) (row : BTreeMap Address (B256 × U256)), current[a]? = some row →
    ∀ (r : Address) (entry : B256 × U256), row[r]? = some entry → entry.2.toNat ≤ m

theorem RowsBounded.mono {n' : ℕ} (h : RowsBounded n m current) (hn : n ≤ n') : RowsBounded n' m current :=
  ⟨fun a row ha => (h.size a row ha).trans hn, h.weight⟩

theorem RowsBounded.insert (h : RowsBounded n m current)
    {a : Address} {row : BTreeMap Address (B256 × U256)} (hsize : row.size ≤ n)
    (hweight : ∀ (r : Address) (entry : B256 × U256), row[r]? = some entry → entry.2.toNat ≤ m) :
    RowsBounded n m (current.insert a row) where
  size b row' hb := by
    rw [BTreeMap.getElem?_insert] at hb
    split at hb
    · rwa [← some_inj.mp hb]
    · exact h.size b row' hb
  weight b row' hb := by
    rw [BTreeMap.getElem?_insert] at hb
    split at hb
    · rwa [← some_inj.mp hb]
    · exact h.weight b row' hb

theorem RowsBounded.erase (h : RowsBounded n m current) (a : Address) : RowsBounded n m (current.erase a) where
  size b row hb := by
    rw [BTreeMap.getElem?_erase] at hb
    split at hb
    · exact absurd hb (by simp)
    · exact h.size b row hb
  weight b row hb := by
    rw [BTreeMap.getElem?_erase] at hb
    split at hb
    · exact absurd hb (by simp)
    · exact h.weight b row hb

/-- One event adds at most one entry to a row. -/
theorem applyEvent_spec (hp : WeightBounds p) (h : RowsBounded n p.maxWeightFp.toNat current) (e : RawEdge) :
    ∃ r, applyEvent p current e = some r ∧ RowsBounded (n + 1) p.maxWeightFp.toNat r := by
  have hmono := h.mono (Nat.le_succ n)
  unfold applyEvent
  by_cases h0 : e.kind = 0
  · obtain ⟨w, hw, hle⟩ := weightFp_spec hp e
    have hsize : (current.getD e.attester ∅).size ≤ n := by
      rw [Std.ExtTreeMap.getD_eq_getD_getElem?]
      cases ha : current[e.attester]? with
      | none => simp
      | some row => exact h.size _ row ha
    have hweight : ∀ (r : Address) (entry : B256 × U256),
        (current.getD e.attester ∅)[r]? = some entry → entry.2.toNat ≤ p.maxWeightFp.toNat := by
      intro r entry hr
      rw [Std.ExtTreeMap.getD_eq_getD_getElem?] at hr
      cases ha : current[e.attester]? with
      | none => simp [ha] at hr
      | some row =>
        rw [ha] at hr
        exact h.weight _ row ha r entry hr
    simp only [if_pos h0, hw, bind_eq_bind, bind_some]
    refine ⟨_, rfl, hmono.insert ?_ fun r entry hr => ?_⟩
    · exact Std.ExtTreeMap.size_insert_le.trans (Nat.succ_le_succ hsize)
    · rw [BTreeMap.getElem?_insert] at hr
      split at hr
      · rw [← some_inj.mp hr]
        exact hle
      · exact hweight r entry hr
  · rw [if_neg h0]
    by_cases h1 : e.kind = 1
    · rw [if_pos h1]
      cases ha : current[e.attester]? with
      | none => exact ⟨current, rfl, hmono⟩
      | some row =>
        simp only
        set row' := if row[e.recipient]?.any fun entry => entry.1 == e.uid then
          row.erase e.recipient else row with hrow'
        split
        · exact ⟨_, rfl, hmono.erase _⟩
        · refine ⟨_, rfl, hmono.insert ?_ fun r entry hr => ?_⟩
          · rw [hrow']
            split
            · exact Std.ExtTreeMap.size_erase_le.trans ((h.size _ row ha).trans (Nat.le_succ n))
            · exact (h.size _ row ha).trans (Nat.le_succ n)
          · rw [hrow'] at hr
            split at hr
            · rw [BTreeMap.getElem?_erase] at hr
              split at hr
              · exact absurd hr (by simp)
              · exact h.weight _ row ha r entry hr
            · exact h.weight _ row ha r entry hr
    · exact ⟨current, by rw [if_neg h1], hmono⟩

theorem foldlM_applyEvent (hp : WeightBounds p) (l : List RawEdge) (h : RowsBounded n p.maxWeightFp.toNat current) :
    ∃ r, l.foldlM (applyEvent p) current = some r ∧ RowsBounded (n + l.length) p.maxWeightFp.toNat r := by
  induction l generalizing n current with
  | nil => exact ⟨current, rfl, h⟩
  | cons e l ih =>
    obtain ⟨m, hm, hb⟩ := applyEvent_spec hp h e
    obtain ⟨r, hr, hb'⟩ := ih hb
    refine ⟨r, by rw [foldlM_cons, hm]; exact hr, hb'.mono ?_⟩
    rw [length_cons]
    omega

theorem ofCurrent_eq (current : Current) : ofCurrent current =
      ⟨(current.toList.foldl (fun (nodes : BTreeSet Address) row =>
          (row.2.keys.foldl (fun nodes recipient => nodes.insert recipient) nodes).insert row.1)
          ∅).toList,
        current.toList.foldl (fun (outgoing : Outgoing Address) row =>
          outgoing.insert row.1 (row.2.map fun _ entry => entry.2)) ∅⟩ := by
  have hfold : ∀ (l : List (Address × BTreeMap Address (B256 × U256)))
      (st : Outgoing Address × BTreeSet Address),
      l.foldl (fun st row => (st.1.insert row.1 (row.2.map fun _ entry => entry.2),
        (row.2.keys.foldl (fun nodes recipient => nodes.insert recipient) st.2).insert row.1)) st =
      (l.foldl (fun (outgoing : Outgoing Address) row =>
          outgoing.insert row.1 (row.2.map fun _ entry => entry.2)) st.1,
        l.foldl (fun (nodes : BTreeSet Address) row =>
          (row.2.keys.foldl (fun nodes recipient => nodes.insert recipient) nodes).insert row.1)
          st.2) := by
    intro l
    induction l with
    | nil => exact fun _ => rfl
    | cons row l ih => exact fun st => ih _
  unfold ofCurrent
  rw [hfold]

theorem mem_foldl_keys (l : List Address) (nodes : BTreeSet Address) (k : Address) :
    k ∈ l.foldl (fun nodes recipient => nodes.insert recipient) nodes ↔ k ∈ nodes ∨ k ∈ l := by
  induction l generalizing nodes with
  | nil => simp
  | cons a l ih =>
    rw [foldl_cons, ih, Std.ExtTreeSet.mem_insert, compare_eq_iff_eq, mem_cons]
    tauto

theorem mem_nodes_ofCurrent {k : Address} :
    k ∈ (ofCurrent current).nodes ↔ ∃ e ∈ current.toList, k = e.1 ∨ k ∈ e.2 := by
  have hfold : ∀ (l : List (Address × BTreeMap Address (B256 × U256))) (nodes : BTreeSet Address),
      k ∈ l.foldl (fun (nodes : BTreeSet Address) row =>
        (row.2.keys.foldl (fun nodes recipient => nodes.insert recipient) nodes).insert row.1)
        nodes ↔ k ∈ nodes ∨ ∃ e ∈ l, k = e.1 ∨ k ∈ e.2 := by
    intro l
    induction l with
    | nil => simp
    | cons row l ih =>
      intro nodes
      rw [foldl_cons, ih, Std.ExtTreeSet.mem_insert, compare_eq_iff_eq, mem_foldl_keys, Std.ExtTreeMap.mem_keys]
      simp only [mem_cons, exists_eq_or_imp]
      constructor
      · rintro ((h | h | h) | h)
        · exact .inr (.inl (.inl h.symm))
        · exact .inl h
        · exact .inr (.inl (.inr h))
        · exact .inr (.inr h)
      · rintro (h | (h | h) | h)
        · exact .inl (.inr (.inl h))
        · exact .inl (.inl h.symm)
        · exact .inl (.inr (.inr h))
        · exact .inr h
  rw [ofCurrent_eq]
  simp only [Std.ExtTreeSet.mem_toList]
  rw [hfold]
  simp

theorem getElem?_foldl_entries {K V W : Type} [LinearOrder K] (f : V → W) (l : List (K × V))
    (hnd : (l.map Prod.fst).Nodup) (m : BTreeMap K W) (k : K) :
    (∀ v, (k, v) ∈ l → (l.foldl (fun (m : BTreeMap K W) e => m.insert e.1 (f e.2)) m)[k]? = some (f v)) ∧
    (k ∉ l.map Prod.fst → (l.foldl (fun (m : BTreeMap K W) e => m.insert e.1 (f e.2)) m)[k]? = m[k]?) := by
  induction l generalizing m with
  | nil => simp
  | cons e l ih =>
    obtain ⟨hnotin, hnd⟩ := nodup_cons.mp hnd
    obtain ⟨ih1, ih2⟩ := ih hnd (m.insert e.1 (f e.2))
    refine ⟨fun v hv => ?_, fun hk => ?_⟩
    · rcases mem_cons.mp hv with rfl | hv
      · rw [foldl_cons, ih2 hnotin, BTreeMap.getElem?_insert_self]
      · exact ih1 v hv
    · rw [map_cons, mem_cons, not_or] at hk
      rw [foldl_cons, ih2 hk.2, BTreeMap.getElem?_insert_of_ne _ _ (Ne.symm hk.1)]

theorem getElem?_outgoing_ofCurrent (current : Current) (k : Address) : (ofCurrent current).outgoing[k]? =
      current[k]?.map fun row => row.map fun _ entry => entry.2 := by
  have hnd : (current.toList.map Prod.fst).Nodup := by
    rw [Std.ExtTreeMap.map_fst_toList_eq_keys]
    exact keys_nodup current
  obtain ⟨h1, h2⟩ := getElem?_foldl_entries
    (fun row : BTreeMap Address (B256 × U256) => row.map fun _ entry => entry.2) current.toList hnd ∅
    k
  rw [ofCurrent_eq]
  cases hk : current[k]? with
  | some row => exact h1 row (mem_toList.mpr hk)
  | none =>
    rw [h2 fun hm => ?_]
    · simp
    · rw [Std.ExtTreeMap.map_fst_toList_eq_keys, Std.ExtTreeMap.mem_keys] at hm
      exact not_mem_iff_getElem?.mpr hk hm

theorem closed_ofCurrent (current : Current) :
    Closed (ofCurrent current).nodes (ofCurrent current).outgoing where
  source i hi := by
    obtain ⟨edges, he⟩ := mem_iff_getElem?.mp hi
    rw [getElem?_outgoing_ofCurrent, map_eq_some_iff] at he
    obtain ⟨row, hrow, -⟩ := he
    exact mem_nodes_ofCurrent.mpr ⟨(i, row), mem_toList.mpr hrow, .inl rfl⟩
  target i edges he j hj := by
    rw [getElem?_outgoing_ofCurrent, map_eq_some_iff] at he
    obtain ⟨row, hrow, rfl⟩ := he
    refine mem_nodes_ofCurrent.mpr ⟨(i, row), mem_toList.mpr hrow, .inr ?_⟩
    simpa using hj

theorem rowSum_ofCurrent_le (h : RowsBounded n m current)
    (i : Address) : rowSum (ofCurrent current).outgoing i ≤ n * m := by
  unfold rowSum
  cases hi : (ofCurrent current).outgoing[i]? with
  | none => exact Nat.zero_le _
  | some edges =>
    have hi' := hi
    rw [getElem?_outgoing_ofCurrent, map_eq_some_iff] at hi'
    obtain ⟨row, hrow, rfl⟩ := hi'
    have hterm : ∀ j ∈ BTreeMap.dom (row.map fun _ entry => entry.2),
        weight (ofCurrent current).outgoing i j ≤ m := by
      intro j hj
      obtain ⟨w, hw⟩ := mem_iff_getElem?.mp (mem_dom.mp hj)
      rw [Pagerank.weight_of_row hi hw]
      rw [BTreeMap.getElem?_map, map_eq_some_iff] at hw
      obtain ⟨entry, hentry, rfl⟩ := hw
      split
      · exact h.weight i row hrow j entry hentry
      · exact Nat.zero_le _
    have hcard : (BTreeMap.dom (row.map fun _ entry => entry.2)).card ≤ n := by
      refine (toFinset_card_le _).trans ?_
      rw [Std.ExtTreeMap.length_keys, Std.ExtTreeMap.size_map]
      exact h.size i row hrow
    calc ∑ j ∈ BTreeMap.dom (row.map fun _ entry => entry.2), weight (ofCurrent current).outgoing i j
        ≤ (BTreeMap.dom (row.map fun _ entry => entry.2)).card * m := Finset.sum_le_card_nsmul _ _ _ hterm
      _ ≤ n * m := Nat.mul_le_mul_right _ hcard

theorem buildGraph_spec (hp : WeightBounds p) (edges : List RawEdge) :
    ∃ graph, buildGraph edges p = some graph ∧ Closed graph.nodes graph.outgoing ∧
      ∀ i, rowSum graph.outgoing i ≤ edges.length * p.maxWeightFp.toNat := by
  have hempty : RowsBounded 0 p.maxWeightFp.toNat ∅ := ⟨by simp, by simp⟩
  obtain ⟨current, hcurrent, hb⟩ := foldlM_applyEvent hp (ordered edges) hempty
  have hlen : (ordered edges).length = edges.length := by
    rw [ordered, length_map, length_insertionSort, length_zipIdx]
  rw [Nat.zero_add, hlen] at hb
  refine ⟨ofCurrent current, ?_, closed_ofCurrent current, rowSum_ofCurrent_le hb⟩
  rw [buildGraph, hcurrent]
  rfl

end Trustgraphs.Reconcile
