import Trustgraphs.Lib.BTree

/-!
# Breadth-first search with a worklist

A search keeps a queue and a map `seen` from the nodes met so far to a value computed from the value
of the node they were first met from. The facts proved here are those of any such search: it ends
within a number of steps bounded by the nodes there are (`search_isSome`), it meets exactly the nodes
reachable from the queue (`mem_search_iff`), it only looks at successors of reachable nodes
(`search_congr`), and it commutes with a map on the values (`search_map`).
-/

namespace Trustgraphs.Worklist

open BTreeMap Option Finset

variable {K : Type} {V W : Type*} [LinearOrder K]

/-- Meet the node `n`: a new one gets the value `v` and is queued. -/
def visit (v : V) (st : BTreeMap K V × List K) (n : K) : BTreeMap K V × List K :=
  if st.1.contains n then st else (st.1.insert n v, st.2 ++ [n])

/-- The visit of a node's neighbours, in order. -/
def visitAll (v : V) (ns : List K) (st : BTreeMap K V × List K) : BTreeMap K V × List K :=
  ns.foldl (visit v) st

/-- The search loop; `none` when the fuel runs out or a queued node has no value. -/
def search (succ : K → List K) (next : V → V) : Nat → List K → BTreeMap K V → Option (BTreeMap K V)
  | _, [], seen => some seen
  | 0, _ :: _, _ => none
  | fuel + 1, cur :: rest, seen =>
    match seen[cur]? with
    | none => none
    | some v =>
      let st := visitAll (next v) (succ cur) (seen, rest)
      search succ next fuel st.2 st.1

/-- `b` is reached from a node of the list `from` by successor steps. -/
def Reached (succ : K → List K) (src : K → Prop) (b : K) : Prop :=
  ∃ a, src a ∧ Relation.ReflTransGen (fun x y => y ∈ succ x) a b

omit [LinearOrder K] in
theorem Reached.of_src {succ : K → List K} {src : K → Prop} {a : K} (h : src a) :
    Reached succ src a := ⟨a, h, .refl⟩

omit [LinearOrder K] in
theorem Reached.step {succ : K → List K} {src : K → Prop} {a b : K} (h : Reached succ src a)
    (hb : b ∈ succ a) : Reached succ src b :=
  h.imp fun _ hx => ⟨hx.1, hx.2.tail hb⟩

/-! ## One step -/

section Step

variable (v : V) (ns : List K) (st : BTreeMap K V × List K)

@[simp]
theorem visitAll_nil : visitAll v [] st = st := rfl

@[simp]
theorem visitAll_cons (n : K) : visitAll v (n :: ns) st = visitAll v ns (visit v st n) := rfl

theorem getElem?_visitAll (k : K) :
    (visitAll v ns st).1[k]? = if k ∈ st.1 then st.1[k]? else if k ∈ ns then some v else none := by
  induction ns generalizing st with
  | nil =>
    by_cases hk : k ∈ st.1
    · simp [hk]
    · simp [hk]
  | cons n ns ih =>
    rw [visitAll_cons, ih, visit]
    by_cases hn : n ∈ st.1
    · have hc : st.1.contains n = true := hn
      rw [if_pos hc]
      by_cases hk : k ∈ st.1
      · simp [hk]
      · have hne : k ≠ n := fun e => hk (e ▸ hn)
        simp [hk, hne]
    · have hc : ¬ st.1.contains n = true := hn
      rw [if_neg hc]
      simp only [BTreeMap.getElem?_insert, Std.ExtTreeMap.mem_insert, compare_eq_iff_eq]
      by_cases hnk : n = k
      · subst hnk; simp [hn]
      · have hkn : k ≠ n := Ne.symm hnk
        by_cases hk : k ∈ st.1 <;> simp [hnk, hkn, hk]

theorem mem_visitAll {k : K} : k ∈ (visitAll v ns st).1 ↔ k ∈ st.1 ∨ k ∈ ns := by
  rw [mem_iff_getElem?, getElem?_visitAll]
  by_cases hk : k ∈ st.1
  · simp [hk]
  · by_cases hn : k ∈ ns <;> simp [hk, hn]

theorem mem_queue_visitAll {k : K} : k ∈ (visitAll v ns st).2 ↔ k ∈ st.2 ∨ (k ∈ ns ∧ k ∉ st.1) := by
  induction ns generalizing st with
  | nil => simp
  | cons n ns ih =>
    rw [visitAll_cons, ih, visit]
    by_cases hn : n ∈ st.1
    · have hc : st.1.contains n = true := hn
      rw [if_pos hc]
      constructor
      · rintro (h | ⟨h, h'⟩)
        · exact .inl h
        · exact .inr ⟨List.mem_cons_of_mem _ h, h'⟩
      · rintro (h | ⟨h, h'⟩)
        · exact .inl h
        · rcases List.mem_cons.mp h with rfl | h
          · exact absurd hn h'
          · exact .inr ⟨h, h'⟩
    · have hc : ¬ st.1.contains n = true := hn
      rw [if_neg hc]
      simp only [List.mem_append, Std.ExtTreeMap.mem_insert, compare_eq_iff_eq, List.mem_cons,
        List.not_mem_nil, or_false]
      constructor
      · rintro ((h | rfl) | ⟨h, h'⟩)
        · exact .inl h
        · exact .inr ⟨.inl rfl, hn⟩
        · exact .inr ⟨.inr h, fun hk => h' (.inr hk)⟩
      · rintro (h | ⟨rfl | h, h'⟩)
        · exact .inl (.inl h)
        · exact .inl (.inr rfl)
        · by_cases hnk : n = k
          · exact .inl (.inr hnk.symm)
          · exact .inr ⟨h, fun hk => hk.elim hnk h'⟩

theorem visitAll_potential (U : Finset K) (hU : ∀ n ∈ ns, n ∈ U) :
    (visitAll v ns st).2.length + (U \ BTreeMap.dom (visitAll v ns st).1).card =
      st.2.length + (U \ BTreeMap.dom st.1).card := by
  induction ns generalizing st with
  | nil => rfl
  | cons n ns ih =>
    rw [visitAll_cons, ih _ fun m hm => hU m (List.mem_cons_of_mem _ hm), visit]
    by_cases hn : n ∈ st.1
    · have hc : st.1.contains n = true := hn
      rw [if_pos hc]
    · have hc : ¬ st.1.contains n = true := hn
      rw [if_neg hc]
      have hmem : n ∈ U \ BTreeMap.dom st.1 := by simp [hU n (List.mem_cons_self ..), hn]
      have hset : U \ BTreeMap.dom (st.1.insert n v) = (U \ BTreeMap.dom st.1).erase n := by
        ext k
        simp only [mem_sdiff, mem_dom, Std.ExtTreeMap.mem_insert, compare_eq_iff_eq, mem_erase, not_or]
        constructor
        · rintro ⟨h1, h2, h3⟩
          exact ⟨Ne.symm h2, h1, h3⟩
        · rintro ⟨h1, h2, h3⟩
          exact ⟨h2, Ne.symm h1, h3⟩
      have hpos := card_pos.mpr ⟨n, hmem⟩
      have hcard := card_erase_of_mem hmem
      simp only [hset, List.length_append, List.length_singleton]
      omega

end Step

/-! ## Whole searches -/

variable {succ : K → List K} {next : V → V}

@[simp]
theorem search_nil (fuel : Nat) (seen : BTreeMap K V) : search succ next fuel [] seen = some seen := by
  cases fuel <;> rfl

theorem search_cons {fuel : Nat} {cur : K} {rest : List K} {seen : BTreeMap K V} {v : V}
    (h : seen[cur]? = some v) :
    search succ next (fuel + 1) (cur :: rest) seen =
      search succ next fuel (visitAll (next v) (succ cur) (seen, rest)).2
        (visitAll (next v) (succ cur) (seen, rest)).1 := by
  rw [search, h]

theorem search_isSome (U : Finset K) (hU : ∀ k, ∀ n ∈ succ k, n ∈ U) (fuel : Nat) (queue : List K)
    (seen : BTreeMap K V) (hq : ∀ k ∈ queue, k ∈ seen)
    (hf : queue.length + (U \ BTreeMap.dom seen).card ≤ fuel) :
    ∃ r, search succ next fuel queue seen = some r := by
  induction fuel generalizing queue seen with
  | zero =>
    cases queue with
    | nil => exact ⟨seen, search_nil 0 seen⟩
    | cons cur rest => simp at hf
  | succ fuel ih =>
    cases queue with
    | nil => exact ⟨seen, search_nil _ seen⟩
    | cons cur rest =>
      obtain ⟨v, hv⟩ := mem_iff_getElem?.mp (hq cur (List.mem_cons_self ..))
      rw [search_cons hv]
      refine ih _ _ (fun k hk => ?_) ?_
      · rcases (mem_queue_visitAll ..).mp hk with h | h
        · exact (mem_visitAll ..).mpr (.inl (hq k (List.mem_cons_of_mem _ h)))
        · exact (mem_visitAll ..).mpr (.inr h.1)
      · have := visitAll_potential (next v) (succ cur) (seen, rest) U (hU cur)
        simp only [List.length_cons] at hf this
        omega

/-- The part of the invariant of a search that says what has been met. -/
structure Met (succ : K → List K) (src : K → Prop) (queue : List K) (seen : BTreeMap K V) : Prop where
  queued : ∀ k ∈ queue, k ∈ seen
  sound : ∀ k ∈ seen, Reached succ src k
  start : ∀ k, src k → k ∈ seen
  closed : ∀ k ∈ seen, k ∉ queue → ∀ n ∈ succ k, n ∈ seen

theorem Met.step {src : K → Prop} {cur : K} {rest : List K} {seen : BTreeMap K V}
    (h : Met succ src (cur :: rest) seen) (v : V) :
    Met succ src (visitAll v (succ cur) (seen, rest)).2 (visitAll v (succ cur) (seen, rest)).1 where
  queued k hk := by
    rcases (mem_queue_visitAll ..).mp hk with hk | hk
    · exact (mem_visitAll ..).mpr (.inl (h.queued k (List.mem_cons_of_mem _ hk)))
    · exact (mem_visitAll ..).mpr (.inr hk.1)
  sound k hk := by
    rcases (mem_visitAll ..).mp hk with hk | hk
    · exact h.sound k hk
    · exact (h.sound cur (h.queued cur (List.mem_cons_self ..))).step hk
  start k hk := (mem_visitAll ..).mpr (.inl (h.start k hk))
  closed k hk hnq n hn := by
    rw [mem_queue_visitAll] at hnq
    push Not at hnq
    refine (mem_visitAll ..).mpr ?_
    by_cases hkc : k = cur
    · exact .inr (hkc ▸ hn)
    · rcases (mem_visitAll ..).mp hk with hk | hk
      · exact .inl (h.closed k hk (by simpa [hkc] using hnq.1) n hn)
      · by_cases hks : k ∈ seen
        · exact .inl (h.closed k hks (by simpa [hkc] using hnq.1) n hn)
        · exact absurd (hnq.2 hk) hks

/-- A search finds what can be reached, and nothing else. -/
theorem mem_search_iff {src : K → Prop} (fuel : Nat) (queue : List K) (seen r : BTreeMap K V)
    (h : Met succ src queue seen) (hr : search succ next fuel queue seen = some r) (k : K) :
    k ∈ r ↔ Reached succ src k := by
  induction fuel generalizing queue seen with
  | zero =>
    cases queue with
    | cons cur rest => simp [search] at hr
    | nil =>
      rw [search_nil, some_inj] at hr
      subst hr
      refine ⟨h.sound k, ?_⟩
      rintro ⟨a, ha, hab⟩
      induction hab with
      | refl => exact h.start a ha
      | tail _ hbc ih => exact h.closed _ ih List.not_mem_nil _ hbc
  | succ fuel ih =>
    cases queue with
    | nil => exact ih [] seen h (by simpa using hr)
    | cons cur rest =>
      obtain ⟨v, hv⟩ := mem_iff_getElem?.mp (h.queued cur (List.mem_cons_self ..))
      rw [search_cons hv] at hr
      exact ih _ _ (h.step _) hr

theorem search_forall {P : V → Prop} (hP : ∀ v, P v → P (next v)) (fuel : Nat) (queue : List K)
    (seen r : BTreeMap K V) (h : ∀ (k : K) (v : V), seen[k]? = some v → P v)
    (hr : search succ next fuel queue seen = some r) :
    ∀ (k : K) (v : V), r[k]? = some v → P v := by
  induction fuel generalizing queue seen with
  | zero =>
    cases queue with
    | nil => rw [search_nil, some_inj] at hr; exact hr ▸ h
    | cons cur rest => simp [search] at hr
  | succ fuel ih =>
    cases queue with
    | nil => rw [search_nil, some_inj] at hr; exact hr ▸ h
    | cons cur rest =>
      cases hv : seen[cur]? with
      | none => simp [search, hv] at hr
      | some v =>
        rw [search_cons hv] at hr
        refine ih _ _ (fun k w hk => ?_) hr
        rw [getElem?_visitAll] at hk
        split at hk
        · exact h k w hk
        · split at hk
          · rw [← some_inj.mp hk]; exact hP v (h cur v hv)
          · exact absurd hk (by simp)

theorem search_congr {succ' : K → List K} {R : K → Prop} (hR : ∀ k, R k → ∀ n ∈ succ k, R n)
    (hs : ∀ k, R k → succ' k = succ k) (fuel fuel' : Nat) (queue : List K) (seen r r' : BTreeMap K V)
    (hq : ∀ k ∈ queue, R k) (hr : search succ next fuel queue seen = some r)
    (hr' : search succ' next fuel' queue seen = some r') : r' = r := by
  induction fuel generalizing fuel' queue seen with
  | zero =>
    cases queue with
    | nil => rw [search_nil, some_inj] at hr hr'; exact hr'.symm.trans hr
    | cons cur rest => simp [search] at hr
  | succ fuel ih =>
    cases queue with
    | nil => rw [search_nil, some_inj] at hr hr'; exact hr'.symm.trans hr
    | cons cur rest =>
      cases fuel' with
      | zero => simp [search] at hr'
      | succ fuel' =>
        cases hv : seen[cur]? with
        | none => simp [search, hv] at hr
        | some v =>
          have hcur := hq cur (List.mem_cons_self ..)
          rw [search_cons hv] at hr hr'
          rw [hs cur hcur] at hr'
          refine ih fuel' _ _ (fun k hk => ?_) hr hr'
          rcases (mem_queue_visitAll ..).mp hk with hk | hk
          · exact hq k (List.mem_cons_of_mem _ hk)
          · exact hR cur hcur k hk.1

theorem visitAll_map (f : V → W) (v : V) (ns : List K) (seen : BTreeMap K V) (queue : List K) :
    visitAll (f v) ns (seen.map fun _ x => f x, queue) =
      ((visitAll v ns (seen, queue)).1.map fun _ x => f x, (visitAll v ns (seen, queue)).2) := by
  induction ns generalizing seen queue with
  | nil => rfl
  | cons n ns ih =>
    rw [visitAll_cons, visitAll_cons, visit, visit, Std.ExtTreeMap.contains_map]
    split
    · exact ih seen queue
    · have e : (seen.map fun _ x => f x).insert n (f v) = (seen.insert n v).map fun _ x => f x := by
        apply ext_getElem?
        intro k
        simp only [BTreeMap.getElem?_insert, BTreeMap.getElem?_map]
        split <;> simp
      simp only [e]
      exact ih _ _

theorem search_map {next' : W → W} (f : V → W) (hf : ∀ v, next' (f v) = f (next v)) (fuel : Nat)
    (queue : List K) (seen : BTreeMap K V) :
    search succ next' fuel queue (seen.map fun _ x => f x) =
      (search succ next fuel queue seen).map fun r => r.map fun _ x => f x := by
  induction fuel generalizing queue seen with
  | zero => cases queue <;> simp [search]
  | succ fuel ih =>
    cases queue with
    | nil => simp
    | cons cur rest =>
      cases hv : seen[cur]? with
      | none =>
        have hv' : (seen.map fun _ x => f x)[cur]? = none := by rw [BTreeMap.getElem?_map, hv]; rfl
        simp [search, hv, hv']
      | some v =>
        have hv' : (seen.map fun _ x => f x)[cur]? = some (f v) := by rw [BTreeMap.getElem?_map, hv]; rfl
        rw [search_cons hv, search_cons hv', hf, visitAll_map, ih]

end Trustgraphs.Worklist
