import Trustgraphs.WeightedPriorCore.Proofs.FlatProofs

/-!
# The audit oracle ranks the accounts

`calculateReference` returns the amounts of the same walk as the kernel of the guest
(`calculateReference_eq`).
-/

namespace Trustgraphs.WeightedPrior

open Outcome BTreeMap Hamilton UInt64

def scoreOf (m : BTreeMap Address UInt64) (a : Address) : ℕ := (m.getD a 0).toNat

def KeyedBy (l : List Address) (m : BTreeMap Address UInt64) : Prop := ∀ a, a ∈ m ↔ a ∈ l

section Keyed

variable {l : List Address} {m : BTreeMap Address UInt64}

theorem getD_eq (m : BTreeMap Address UInt64) (a : Address) : m.getD a 0 = (m[a]?).getD 0 :=
  Std.ExtTreeMap.getD_eq_getD_getElem?

theorem KeyedBy.getElem? (h : KeyedBy l m) {a : Address} (ha : a ∈ l) :
    m[a]? = some (UInt64.ofNat (scoreOf m a)) := by
  obtain ⟨w, hw⟩ := mem_iff_getElem?.mp ((h a).mpr ha)
  rw [scoreOf, getD_eq, hw, Option.getD_some, UInt64.ofNat_toNat]

theorem scoreOf_lt (m : BTreeMap Address UInt64) (a : Address) : scoreOf m a < 2 ^ 64 :=
  (m.getD a 0).toNat_lt

theorem KeyedBy.toList (h : KeyedBy l m) (hl : l.Pairwise (· < ·)) :
    m.toList = l.map fun a => (a, UInt64.ofNat (scoreOf m a)) := by
  have hkeys : (l.map fun a => (a, UInt64.ofNat (scoreOf m a))).map Prod.fst = l := by
    rw [List.map_map]
    exact List.map_id _
  have hnodup : (l.map fun a => (a, UInt64.ofNat (scoreOf m a))).Nodup :=
    List.Nodup.of_map Prod.fst (by rw [hkeys]; exact hl.imp fun hlt => hlt.ne)
  refine List.Perm.eq_of_pairwise (fun a b _ _ (hab : a.1 < b.1) (hba : b.1 < a.1) =>
    absurd hab (lt_asymm hba)) m.toList_sorted ?_ ?_
  · exact List.pairwise_map.mp (by rw [hkeys]; exact hl)
  · refine (List.perm_ext_iff_of_nodup m.toList_nodup hnodup).mpr ?_
    rintro ⟨a, w⟩
    rw [mem_toList, List.mem_map]
    constructor
    · intro hw
      have ha : a ∈ l := (h a).mp (mem_iff_getElem?.mpr ⟨w, hw⟩)
      refine ⟨a, ha, Prod.ext rfl ?_⟩
      exact Option.some_inj.mp ((h.getElem? ha).symm.trans hw)
    · rintro ⟨b, hb, heq⟩
      obtain ⟨rfl, rfl⟩ := Prod.mk.inj heq
      exact h.getElem? hb

theorem KeyedBy.numberAt (h : KeyedBy l m) (hl : l.Pairwise (· < ·)) {i : ℕ} (hi : i < l.length) :
    numberAt (m.toList.map Prod.snd) i = scoreOf m (l.getD i 0) := by
  rw [h.toList hl, List.map_map, numberAt_of_lt (by rwa [List.length_map]), List.getElem_map,
    List.getD_eq_getElem _ _ hi]
  exact toNat_ofNat_of_lt' (scoreOf_lt m _)

theorem KeyedBy.sumNat (h : KeyedBy l m) (hl : l.Pairwise (· < ·)) :
    sumNat (m.toList.map Prod.snd) = ∑ a ∈ l.toFinset, scoreOf m a := by
  have hnodup : l.Nodup := hl.imp fun hlt => hlt.ne
  have hmap : ((l.map fun a => (a, UInt64.ofNat (scoreOf m a))).map Prod.snd).map UInt64.toNat =
      l.map (scoreOf m) := by
    rw [List.map_map, List.map_map]
    exact List.map_congr_left fun a _ => toNat_ofNat_of_lt' (scoreOf_lt m a)
  rw [WeightedPrior.sumNat, h.toList hl, hmap, List.sum_toFinset _ hnodup]

theorem KeyedBy.tabulate (f : Address → UInt64) : KeyedBy l (BTreeMap.tabulate l f) := fun _ => mem_tabulate

theorem scoreOf_tabulate (f : Address → UInt64) (a : Address) :
    scoreOf (BTreeMap.tabulate l f) a = if a ∈ l then (f a).toNat else 0 := by
  rw [scoreOf, getD_eq, BTreeMap.getElem?_tabulate]
  split <;> rfl

theorem addScore_eq (h : KeyedBy l m) {e : Address × UInt64} (he : e.1 ∈ l.toFinset)
    (hfit : scoreOf m e.1 + e.2.toNat < 2 ^ 64) :
    ∃ m', addScore m e = .ok m' ∧ KeyedBy l m' ∧
      ∀ t, scoreOf m' t = scoreOf m t + if e.1 = t then e.2.toNat else 0 := by
  obtain ⟨value, hvalue⟩ := Checked.exists_toNat64 hfit
  refine ⟨m.insert e.1 value, ?_, fun a => ?_, fun t => ?_⟩
  · exact bind_eq_ok.mpr ⟨value, orOverflow_eq_ok.mpr (Checked.add64_eq_some.mpr hvalue), rfl⟩
  · rw [← h a, mem_iff_getElem?, mem_iff_getElem?, BTreeMap.getElem?_insert]
    by_cases hea : e.1 = a
    · subst hea
      have hin := mem_iff_getElem?.mp ((h e.1).mpr (List.mem_toFinset.mp he))
      simp [hin]
    · rw [if_neg hea]
  · rw [scoreOf, getD_eq, BTreeMap.getElem?_insert]
    by_cases het : e.1 = t
    · subst het
      rw [if_pos rfl, if_pos rfl, Option.getD_some, hvalue]
    · rw [if_neg het, if_neg het, Nat.add_zero, scoreOf, getD_eq]

end Keyed

theorem received_amounts {keys : List Address} {values : List UInt64} (h : values.length = keys.length) :
    ((keys.zip values).map fun e => e.2.toNat).sum = sumNat values := by
  have hsnd : (keys.zip values).map (fun e => e.2.toNat) = values.map UInt64.toNat := by
    conv_rhs => rw [← List.map_snd_zip h.le, List.map_map]
    rfl
  rw [hsnd, sumNat]

theorem transition_sorted (g : Graph) (a : Address) : ((transition g a).map Prod.fst).Pairwise (· < ·) := by
  unfold transition
  cases g.outgoing[a]? with
  | none => exact List.Pairwise.nil
  | some row => exact List.pairwise_map.mpr (row.toList_sorted.filter _)

namespace RankInput

variable (R : RankInput)

/-- A source gives its budget to its row, or the budget dangles. -/
theorem spreadSource_eq {g : Graph} {x : Address × UInt64} (hrow : transition g x.1 = R.row x.1)
    {st : BTreeMap Address UInt64 × UInt64} (hkeyed : KeyedBy R.accounts st.1)
    (hfit : ∑ t ∈ R.accounts.toFinset, scoreOf st.1 t + st.2.toNat + x.2.toNat < 2 ^ 64) :
    ∃ scores dangling, spreadSource g st x = .ok (scores, dangling) ∧ KeyedBy R.accounts scores ∧
      (∀ t, scoreOf scores t = scoreOf st.1 t + Walk.contribution (natRow (R.row x.1)) x.2.toNat t) ∧
      dangling.toNat = st.2.toNat + if natRow (R.row x.1) = [] then x.2.toNat else 0 := by
  unfold spreadSource
  have hsorted := transition_sorted g x.1
  rw [hrow] at hsorted ⊢
  dsimp only
  by_cases hempty : R.row x.1 = []
  · obtain ⟨dangling, hd⟩ := Checked.exists_toNat64 (n := st.2.toNat + x.2.toNat) (by omega)
    refine ⟨st.1, dangling, ?_, hkeyed, fun t => ?_, ?_⟩
    · rw [if_pos hempty]
      exact bind_eq_ok.mpr ⟨dangling, orOverflow_eq_ok.mpr (Checked.add64_eq_some.mpr hd), rfl⟩
    · rw [natRow_eq_nil.mpr hempty, Walk.contribution_nil, Nat.add_zero]
    · rw [if_pos (natRow_eq_nil.mpr hempty), hd]
  · have hweights : ∀ a ∈ (R.row x.1).map Prod.snd, 0 < a := by
      intro a ha
      obtain ⟨e, he, rfl⟩ := List.mem_map.mp ha
      exact R.row_pos _ e he
    have hpos : 0 < sumNat ((R.row x.1).map Prod.snd) := sumNat_pos (by simpa using hempty) hweights
    obtain ⟨total, htotal, hsum⟩ := exists_sumWide (l := (R.row x.1).map Prod.snd)
      (by rw [List.length_map]; exact R.length_row _)
    obtain ⟨contributions, values, happortion, hlist, hvlen, hshare⟩ := apportion_eq x.2 hsorted hsum hpos
    have hshares : ∀ i, i < (R.row x.1).length →
        numberAt values i = Walk.rowShare (natRow (R.row x.1)) x.2.toNat i :=
      fun i hi => by rw [hshare i hi, shareAt_weights]
    have hamounts : (contributions.toList.map fun e => e.2.toNat).sum = x.2.toNat := by
      rw [hlist, received_amounts (by rw [List.length_map, hvlen])]
      exact sumNat_shares hpos (by rw [List.length_map, hvlen]) (by rwa [List.length_map])
    obtain ⟨scores, hfold, hscores, hall⟩ := foldlM_add R.accounts.toFinset (KeyedBy R.accounts) scoreOf
      Prod.fst (fun e : Address × UInt64 => e.2.toNat) (fun _ _ hm he hfit => addScore_eq hm he hfit)
      (l := contributions.toList) hkeyed
      (fun e he => by
        rw [hlist] at he
        obtain ⟨y, hy, heq⟩ := List.mem_map.mp (List.of_mem_zip he).1
        rw [← heq]
        exact List.mem_toFinset.mpr (R.row_mem _ y hy))
      (by rw [hamounts]; omega)
    refine ⟨scores, st.2, ?_, hscores, fun t => ?_, ?_⟩
    · rw [if_neg hempty]
      exact bind_eq_ok.mpr ⟨total, htotal, bind_eq_ok.mpr ⟨contributions, happortion,
        bind_eq_ok.mpr ⟨scores, hfold, rfl⟩⟩⟩
    · rw [hall, ← received_shares hvlen hshares, received, hlist]
    · rw [if_neg (by simpa using hempty), Nat.add_zero]

theorem sorted : R.accounts.Pairwise (· < ·) := accounts_sorted R.prior R.nodes

theorem prior_sorted :
    ((R.prior.map fun entry => (entry.account, entry.weight)).map Prod.fst).Pairwise (· < ·) := by
  rw [List.map_map]
  exact List.pairwise_map.mpr R.normalized.ascending

/-- The prior's share of an account. -/
theorem received_teleport {values : List UInt64} {u : ℕ} (hlen : values.length = R.prior.length)
    (h : ∀ i, i < R.prior.length → numberAt values i =
      shareAt ((R.prior.map fun entry => (entry.account, entry.weight)).map Prod.snd) u i) (t : Address) :
    received (((R.prior.map fun entry => (entry.account, entry.weight)).map Prod.fst).zip values) t =
      share R.walk.nodes R.walk.prior u t := by
  obtain ⟨l, hl⟩ : ∃ l, l = (R.prior.map fun entry => (entry.account, entry.weight)).map Prod.fst :=
    ⟨_, rfl⟩
  have hsorted : l.Pairwise (· < ·) := by
    rw [hl]
    exact R.prior_sorted
  have hllen : l.length = R.prior.length := by rw [hl, List.length_map, List.length_map]
  have hmem : ∀ a, a ∈ l ↔ ∃ e ∈ R.prior, e.account = a := by
    intro a
    rw [hl, List.map_map, List.mem_map]
    rfl
  have hsub : l.toFinset ⊆ R.walk.nodes := by
    intro a ha
    obtain ⟨e, he, rfl⟩ := (hmem a).mp (List.mem_toFinset.mp ha)
    exact List.mem_toFinset.mpr (R.prior_mem e he)
  have hzero : ∀ a ∈ R.walk.nodes, a ∉ l.toFinset → R.walk.prior a = 0 := by
    intro a _ ha
    by_contra hne
    refine ha (List.mem_toFinset.mpr ((hmem a).mpr ?_))
    exact R.normalized.mem_of_priorWeight fun hz => hne (congrArg UInt64.toNat hz)
  have htotal : 0 < total l.toFinset R.walk.prior := by
    rw [total, Finset.sum_subset hsub hzero, R.walk.prior_sum]
    exact R.walk.scale_pos
  have hweights : ∀ i, i < l.length →
      numberAt ((R.prior.map fun entry => (entry.account, entry.weight)).map Prod.snd) i =
        R.walk.prior (l.getD i 0) := by
    intro i hi
    have hi' : i < R.prior.length := by rwa [← hllen]
    rw [numberAt_of_lt (by simpa using hi'), List.getD_eq_getElem _ _ hi]
    simp only [hl, List.getElem_map]
    exact (congrArg UInt64.toNat (R.normalized.priorWeight_of_mem (List.getElem_mem hi'))).symm
  have hvalues : ∀ i, i < l.length → numberAt values i = share l.toFinset R.walk.prior u (l.getD i 0) := by
    intro i hi
    rw [h i (by rwa [← hllen])]
    exact shareAt_eq_share hsorted (by simp [hllen]) hweights u hi
  rw [← hl, zip_eq_map (hlen.trans hllen.symm) hvalues, share_extend hsub hzero htotal t]
  unfold received
  rw [List.map_map, ← List.sum_toFinset _ (hsorted.imp fun hlt => hlt.ne)]
  show (∑ a ∈ l.toFinset,
    if a = t then (UInt64.ofNat (share l.toFinset R.walk.prior u a)).toNat else 0) = _
  rw [Finset.sum_ite_eq']
  split
  · rename_i ht
    obtain ⟨i, hi, rfl⟩ := List.mem_iff_getElem.mp (List.mem_toFinset.mp ht)
    have hval := hvalues i hi
    rw [List.getD_eq_getElem _ _ hi] at hval
    refine toNat_ofNat_of_lt' ?_
    rw [← hval]
    exact (values.getD i 0).toNat_lt
  · rename_i ht
    refine (share_eq_zero htotal ?_).symm
    by_cases hnode : t ∈ R.walk.nodes
    · exact hzero t hnode ht
    · by_contra hne
      exact hnode (R.walk.prior_mem t hne)

theorem sum_map_accounts (w : Address → UInt64) (F : Address → ℕ → ℕ) :
    ((R.accounts.map fun a => (a, w a)).map fun x => F x.1 x.2.toNat).sum =
      ∑ a ∈ R.walk.nodes, F a (w a).toNat := by
  rw [List.map_map]
  exact (List.sum_toFinset (fun a => F a (w a).toNat) R.accounts_nodup).symm

theorem apportion_current {current : BTreeMap Address UInt64} (hkeyed : KeyedBy R.accounts current)
    (hsum : ∑ a ∈ R.walk.nodes, scoreOf current a = SCALE.toNat) :
    ∃ budgets, apportion current.toList R.params.dampingFp (widen SCALE) = .ok budgets ∧
      budgets.toList = R.accounts.map fun a =>
        (a, UInt64.ofNat (R.walk.budget (scoreOf current) a)) := by
  have hitems : current.toList.map Prod.fst = R.accounts := by
    rw [hkeyed.toList R.sorted, List.map_map]
    exact List.map_id _
  have hwords : sumNat (current.toList.map Prod.snd) = SCALE.toNat := (hkeyed.sumNat R.sorted).trans hsum
  obtain ⟨budgets, values, hok, hlist, hvlen, hshare⟩ := apportion_eq R.params.dampingFp
    (show (current.toList.map Prod.fst).Pairwise (· < ·) by rw [hitems]; exact R.sorted)
    ((toNat_widen SCALE).trans hwords.symm) (by rw [hwords]; decide)
  have hlen : current.toList.length = R.accounts.length := by rw [← hitems, List.length_map]
  refine ⟨budgets, hok, ?_⟩
  rw [hlist, hitems]
  refine zip_eq_map (hvlen.trans hlen) fun i hi => ?_
  rw [hshare i (by rwa [hlen])]
  exact shareAt_eq_share R.sorted (by rw [List.length_map, hlen])
    (fun j hj => hkeyed.numberAt R.sorted hj) R.params.dampingFp.toNat hi

/-- One iteration of the oracle is one round of the walk. -/
theorem nextIteration_eq {g : Graph} (hrow : ∀ a ∈ R.accounts, transition g a = R.row a)
    {current : BTreeMap Address UInt64} (hkeyed : KeyedBy R.accounts current)
    (hsum : ∑ a ∈ R.walk.nodes, scoreOf current a = SCALE.toNat) :
    ∃ next, nextIteration g R.prior current R.params.dampingFp = .ok next ∧ KeyedBy R.accounts next.scores ∧
      ∑ a ∈ R.walk.nodes, scoreOf next.scores a = SCALE.toNat ∧
      ∀ t, scoreOf next.scores t = R.walk.next (scoreOf current) t := by
  have hlt : 2 * SCALE.toNat < 2 ^ 64 := by decide
  have hd := lt_iff_toNat_lt.mp R.bounded.damping_lt
  have hbudgetsum : ∑ a ∈ R.walk.nodes, R.walk.budget (scoreOf current) a = R.params.dampingFp.toNat :=
    R.walk.sum_budget hsum
  have hbudget : ∀ a ∈ R.walk.nodes, (UInt64.ofNat (R.walk.budget (scoreOf current) a)).toNat =
      R.walk.budget (scoreOf current) a := by
    intro a ha
    have hle : R.walk.budget (scoreOf current) a ≤ ∑ a ∈ R.walk.nodes, R.walk.budget (scoreOf current) a :=
      Finset.single_le_sum (fun _ _ => Nat.zero_le _) ha
    have hfits : R.walk.budget (scoreOf current) a < 2 ^ 64 := by omega
    exact toNat_ofNat_of_lt' hfits
  have hcheck : checkSum (current.toList.map Prod.snd) = .ok () :=
    checkSum_eq_ok.mpr ((hkeyed.sumNat R.sorted).trans hsum)
  obtain ⟨budgets, hbudgets, hblist⟩ := R.apportion_current hkeyed hsum
  -- the rows
  have hkeys : current.keys = R.accounts := by
    rw [← Std.ExtTreeMap.map_fst_toList_eq_keys, hkeyed.toList R.sorted, List.map_map]
    exact List.map_id _
  have hzero : ∀ t, scoreOf (BTreeMap.tabulate current.keys fun _ => (0 : UInt64)) t = 0 := by
    intro t
    rw [scoreOf_tabulate]
    split <;> rfl
  have hlist : (budgets.toList.map fun x => x.2.toNat).sum = R.params.dampingFp.toNat := by
    rw [hblist, R.sum_map_accounts _ fun _ b => b, Finset.sum_congr rfl hbudget]
    exact hbudgetsum
  have hsource : ∀ x ∈ budgets.toList, x.1 ∈ R.accounts := by
    intro x hx
    rw [hblist] at hx
    obtain ⟨a, ha, rfl⟩ := List.mem_map.mp hx
    exact ha
  obtain ⟨spread, dangling, hspread, hskeyed, hscore, hdangling⟩ := foldlM_spread
    R.accounts.toFinset (KeyedBy R.accounts) scoreOf
    (fun x : Address × UInt64 => natRow (R.row x.1)) (fun x => x.2.toNat) (l := budgets.toList)
    (fun x _ => R.walk.row_pos x.1)
    (fun x hx => R.walk.row_mem x.1 (List.mem_toFinset.mpr (hsource x hx)))
    (fun st x hx hkeyed hfit => R.spreadSource_eq (hrow x.1 (hsource x hx)) hkeyed hfit)
    (BTreeMap.tabulate current.keys fun _ => 0, 0)
    (by
      rw [hkeys]
      exact KeyedBy.tabulate _)
    (by
      rw [hlist]
      simp only [hzero, Finset.sum_const_zero]
      show 0 + 0 + _ < _
      omega)
  have hrows : ∀ t, scoreOf spread t = ∑ a ∈ R.walk.nodes,
      Walk.contribution (R.walk.row a) (R.walk.budget (scoreOf current) a) t := by
    intro t
    rw [hscore, hzero, Nat.zero_add, hblist,
      R.sum_map_accounts _ fun a b => Walk.contribution (natRow (R.row a)) b t]
    refine Finset.sum_congr rfl fun a ha => ?_
    rw [hbudget a ha]
    rfl
  have hdangle : dangling.toNat = R.walk.dangling (scoreOf current) := by
    rw [hdangling, hblist, R.sum_map_accounts _ fun a b => if natRow (R.row a) = [] then b else 0]
    show 0 + _ = _
    rw [Nat.zero_add]
    refine Finset.sum_congr rfl fun a ha => ?_
    rw [hbudget a ha]
    rfl
  have hdle : dangling.toNat ≤ R.params.dampingFp.toNat := hdangle.trans_le (R.walk.dangling_le hsum)
  -- the prior
  obtain ⟨budget, hbudgetok, hbudgetval⟩ := priorBudget_eq (UInt64.le_of_lt R.bounded.damping_lt)
    (le_iff_toNat_le.mpr hdle)
  have hreturned : budget.toNat = R.walk.returned (scoreOf current) := by
    rw [hbudgetval, hdangle]
    rfl
  have hwords : sumNat ((R.prior.map fun entry => (entry.account, entry.weight)).map Prod.snd) =
      SCALE.toNat := by
    rw [List.map_map, ← R.normalized.sum, sumNat, List.map_map]
    rfl
  obtain ⟨teleport, values, hteleport, htlist, htlen, htshare⟩ := apportion_eq budget R.prior_sorted
    ((toNat_widen SCALE).trans hwords.symm) (by rw [hwords]; decide)
  rw [List.length_map] at htlen htshare
  have hprior := R.received_teleport htlen htshare
  rw [hreturned] at hprior
  have hnext : ∀ t, scoreOf spread t +
      received (((R.prior.map fun entry => (entry.account, entry.weight)).map Prod.fst).zip values) t =
        R.walk.next (scoreOf current) t := by
    intro t
    rw [hrows, hprior]
    rfl
  have hamounts : (teleport.toList.map fun e => e.2.toNat).sum = budget.toNat := by
    rw [htlist, received_amounts (by simp [htlen])]
    exact sumNat_shares (by rw [hwords]; decide) (by simp [htlen]) (by simpa using htshare)
  have hspreadsum : ∑ t ∈ R.walk.nodes, scoreOf spread t + dangling.toNat = R.params.dampingFp.toNat := by
    rw [Finset.sum_congr rfl fun t _ => hrows t, hdangle]
    exact R.walk.sum_rows_add_dangling hsum
  obtain ⟨scores, hfold, hfkeyed, hfinal⟩ := foldlM_add R.accounts.toFinset (KeyedBy R.accounts) scoreOf
    Prod.fst (fun e : Address × UInt64 => e.2.toNat) (fun _ _ hm he hfit => addScore_eq hm he hfit)
    (l := teleport.toList) hskeyed
    (fun e he => by
      rw [htlist, List.map_map] at he
      obtain ⟨y, hy, heq⟩ := List.mem_map.mp (List.of_mem_zip he).1
      rw [← heq]
      exact List.mem_toFinset.mpr (R.prior_mem y hy))
    (by
      rw [hamounts, hbudgetval]
      have : ∑ t ∈ R.accounts.toFinset, scoreOf spread t ≤ R.params.dampingFp.toNat := by
        rw [← hspreadsum]
        exact Nat.le_add_right _ _
      omega)
  have hall : ∀ t, scoreOf scores t = R.walk.next (scoreOf current) t := by
    intro t
    rw [← hnext, hfinal, received, htlist]
  have hmass : ∑ a ∈ R.walk.nodes, scoreOf scores a = SCALE.toNat := by
    rw [Finset.sum_congr rfl fun a _ => hall a]
    exact R.walk.sum_next hsum
  refine ⟨⟨budgets, dangling, budget, scores⟩, ?_, hfkeyed, hmass, hall⟩
  unfold nextIteration
  exact bind_eq_ok.mpr ⟨(), hcheck, bind_eq_ok.mpr ⟨budgets, hbudgets,
    bind_eq_ok.mpr ⟨(spread, dangling), hspread, bind_eq_ok.mpr ⟨budget, hbudgetok,
    bind_eq_ok.mpr ⟨teleport, hteleport, bind_eq_ok.mpr ⟨scores, hfold, bind_eq_ok.mpr ⟨(),
    checkSum_eq_ok.mpr ((hfkeyed.sumNat R.sorted).trans hmass), rfl⟩⟩⟩⟩⟩⟩⟩

/-- The loop of the oracle runs the walk. -/
theorem referenceLoop_eq {g : Graph} (hrow : ∀ a ∈ R.accounts, transition g a = R.row a)
    (left : ℕ) (iteration : UInt32) (hit : iteration.toNat + left = R.params.maxIterations.toNat + 1)
    (current : BTreeMap Address UInt64) (hkeyed : KeyedBy R.accounts current)
    (hsum : ∑ a ∈ R.walk.nodes, scoreOf current a = SCALE.toNat) :
    ∃ r, referenceLoop g R.prior R.params left iteration current = .ok r ∧
      KeyedBy R.accounts r.scores ∧ (scoreOf r.scores, r.iterations.toNat) =
        R.walk.run R.params.toleranceFp.toNat R.params.maxIterations.toNat left (scoreOf current) := by
  induction left generalizing iteration current with
  | zero => exact ⟨⟨current, R.params.maxIterations⟩, rfl, hkeyed, rfl⟩
  | succ left ih =>
    obtain ⟨next, hstep, hnkeyed, hnsum, hnext⟩ := R.nextIteration_eq hrow hkeyed hsum
    have hnext : scoreOf next.scores = R.walk.next (scoreOf current) := funext hnext
    have hmax : R.params.maxIterations.toNat ≤ 40 := UInt32.le_iff_toNat_le.mp R.bounded.iterations_le
    obtain ⟨deltas, hdeltas⟩ : ∃ deltas, deltas = R.accounts.map fun a =>
        absDiff (UInt64.ofNat (scoreOf current a)) (UInt64.ofNat (scoreOf next.scores a)) := ⟨_, rfl⟩
    have hmap : (current.toList.mapM fun e => do
        let value ← ofPanic next.scores[e.1]?
        .ok (absDiff e.2 value) : Weighted (List UInt64)) = .ok deltas := by
      rw [mapM_eq_ok, hkeyed.toList R.sorted, hdeltas, List.forall₂_map_left_iff,
        List.forall₂_map_right_iff, List.forall₂_same]
      intro a ha
      exact bind_eq_ok.mpr ⟨_, ofPanic_eq_ok.mpr (hnkeyed.getElem? ha), rfl⟩
    have hvalue : ∀ a, (absDiff (UInt64.ofNat (scoreOf current a))
        (UInt64.ofNat (scoreOf next.scores a))).toNat =
        (scoreOf current a - R.walk.next (scoreOf current) a) +
          (R.walk.next (scoreOf current) a - scoreOf current a) := by
      intro a
      rw [toNat_absDiff, toNat_ofNat_of_lt' (scoreOf_lt _ a), toNat_ofNat_of_lt' (scoreOf_lt _ a), hnext]
    have hstop : maxDelta deltas < R.params.toleranceFp ↔
        R.walk.delta (scoreOf current) (R.walk.next (scoreOf current)) < R.params.toleranceFp.toNat := by
      refine maxDelta_lt_iff R.walk R.params.toleranceFp fun n => ?_
      constructor
      · rintro ⟨d, hd, rfl⟩
        rw [hdeltas] at hd
        obtain ⟨a, ha, rfl⟩ := List.mem_map.mp hd
        exact ⟨a, List.mem_toFinset.mpr ha, (hvalue a).symm⟩
      · rintro ⟨a, ha, rfl⟩
        refine ⟨_, ?_, hvalue a⟩
        rw [hdeltas]
        exact List.mem_map_of_mem (List.mem_toFinset.mp ha)
    rw [referenceLoop, Walk.run]
    by_cases hd : R.walk.delta (scoreOf current) (R.walk.next (scoreOf current)) < R.params.toleranceFp.toNat
    · refine ⟨⟨next.scores, iteration⟩,
        bind_eq_ok.mpr ⟨next, hstep, bind_eq_ok.mpr ⟨deltas, hmap, if_pos (hstop.mpr hd)⟩⟩,
        hnkeyed, ?_⟩
      rw [if_pos hd, hnext]
      exact Prod.ext rfl (by show iteration.toNat = _; omega)
    · have hiter : (iteration + 1).toNat = iteration.toNat + 1 := by
        rw [UInt32.toNat_add]
        exact Nat.mod_eq_of_lt (by show iteration.toNat + 1 < _; omega)
      obtain ⟨r, hloop, hrkeyed, hrun⟩ := ih (iteration + 1) (by rw [hiter]; omega) next.scores
        hnkeyed hnsum
      refine ⟨r, ?_, hrkeyed, ?_⟩
      · exact bind_eq_ok.mpr ⟨next, hstep, bind_eq_ok.mpr
          ⟨deltas, hmap, (if_neg fun h => hd (hstop.mp h)).trans hloop⟩⟩
      · rw [if_neg hd, ← hnext]
        exact hrun

theorem calculateReference_eq {g : Graph} (hnodes : g.nodes = R.nodes)
    (hrow : ∀ a ∈ R.accounts, transition g a = R.row a) :
    calculateReference g R.prior R.params = .ok R.result := by
  have hinitial : initialScores g R.prior = BTreeMap.tabulate R.accounts (priorWeight R.prior) := by
    rw [initialScores, hnodes]
    rfl
  have hscores : scoreOf (initialScores g R.prior) = R.walk.prior := by
    funext a
    rw [hinitial, scoreOf_tabulate]
    split
    · rfl
    · rename_i ha
      by_contra hne
      exact ha (List.mem_toFinset.mp (R.walk.prior_mem a fun hz => hne hz.symm))
  obtain ⟨r, hloop, hkeyed, hrun⟩ := R.referenceLoop_eq hrow R.params.maxIterations.toNat 1
    (Nat.add_comm 1 _) (initialScores g R.prior) (by rw [hinitial]; exact KeyedBy.tabulate _)
    (by rw [hscores]; exact R.walk.prior_sum)
  rw [hscores] at hrun
  have hfinal : (scoreOf r.scores, r.iterations.toNat) = R.final := hrun
  have hresult : r = R.result := by
    obtain ⟨scores, iterations⟩ := r
    show RankResult.mk scores iterations = RankResult.mk _ _
    have hmap : scores = BTreeMap.tabulate R.accounts fun a => UInt64.ofNat (R.final.1 a) := by
      refine ext_getElem? fun a => ?_
      rw [BTreeMap.getElem?_tabulate, ← hfinal]
      split
      · rename_i ha
        exact hkeyed.getElem? ha
      · rename_i ha
        exact not_mem_iff_getElem?.mp fun hmem => ha ((hkeyed a).mp hmem)
    rw [hmap, ← hfinal, UInt32.ofNat_toNat]
  unfold calculateReference
  rw [hloop, hresult]

end RankInput

end Trustgraphs.WeightedPrior
