import Trustgraphs.WeightedPriorCore.Proofs.DecimalProofs
import Trustgraphs.WeightedPriorCore.Proofs.ManifestProofs

/-!
# Normalization

A list that is normalized satisfies the list invariants, and its weights are the Hamilton
apportionment of `SCALE` over the exact values of the decimals (`apportionRows_cases`).
-/

namespace Trustgraphs.WeightedPrior

open Outcome Checked BitVec

theorem foldlM_add_rows {rows : List (Address × U256)} {total : U256} :
    rows.foldlM (fun sum row => add sum row.2) 0 = some total ↔
      total.toNat = (rows.map fun row => row.2.toNat).sum := by
  have hmap : rows.foldlM (fun sum row => add sum row.2) 0 = sum (rows.map Prod.snd) := by
    rw [sum, List.foldlM_map]
  rw [hmap, sum_eq_some, List.map_map]
  rfl

theorem foldlM_add64_rows {rows : List (Address × UInt64 × U256)} {total : UInt64} :
    rows.foldlM (fun sum row => add64 sum row.2.1) 0 = some total ↔
      total.toNat = (rows.map fun row => row.2.1.toNat).sum := by
  have hmap : rows.foldlM (fun sum row => add64 sum row.2.1) 0 =
      (rows.map fun row => row.2.1).foldlM add64 0 := by
    rw [List.foldlM_map]
  rw [hmap, foldlM_add64_eq_some, List.map_map]
  show total.toNat = 0 + _ ↔ _
  rw [Nat.zero_add]
  rfl

theorem largerRemainder_iff {a b : Address × UInt64 × U256} :
    largerRemainder a b = true ↔ Hamilton.NotAfter (a.2.2.toNat, a.1) (b.2.2.toNat, b.1) := by
  simp only [Hamilton.NotAfter, largerRemainder, Bool.or_eq_true, Bool.and_eq_true, decide_eq_true_eq, beq_iff_eq,
    lt_def, toNat_inj]

def oneMore (row : Address × UInt64 × U256) : Address × UInt64 × U256 := (row.1, row.2.1 + 1, row.2.2)

theorem addUnit_eq {rows : List (Address × UInt64 × U256)} {i : ℕ} (hi : i < rows.length)
    (h : rows[i].2.1.toNat + 1 < 2 ^ 64) : addUnit rows i = .ok (rows.set i (oneMore rows[i])) := by
  have hget : rows[i]? = some rows[i] := List.getElem?_eq_getElem hi
  have hadd : add64 rows[i].2.1 1 = some (rows[i].2.1 + 1) := by
    rw [add64_eq_some, UInt64.toNat_add]
    exact Nat.mod_eq_of_lt h
  rw [addUnit, hget]
  show (do
    let weight ← ofPanic (add64 rows[i].2.1 1)
    .ok (rows.set i (rows[i].1, weight, rows[i].2.2)) : Weighted _) = _
  rw [hadd]
  rfl

/-- Rows in ascending order of their accounts, with values that were read from decimals. -/
structure Ready (rows : List (Address × U256)) : Prop where
  nonempty : rows ≠ []
  length_le : rows.length ≤ MAX_PRIOR_ENTRIES
  ascending : (rows.map Prod.fst).Pairwise (· < ·)
  account : ∀ row ∈ rows, row.1 ≠ 0
  value : ∀ row ∈ rows, 0 < row.2.toNat ∧ row.2.toNat < 10 ^ 38

section

variable {rows : List (Address × U256)} {f : Address → ℕ} {total : U256}

def rowOf (total : U256) (row : Address × U256) : Address × UInt64 × U256 :=
  (row.1, UInt64.ofNat (row.2.toNat * 10 ^ 18 / total.toNat),
    BitVec.ofNat 256 (row.2.toNat * 10 ^ 18 % total.toNat))

theorem Ready.sum_lt (h : Ready rows) : (rows.map fun row => row.2.toNat).sum < 10 ^ 42 := by
  have hle : (rows.map fun row => row.2.toNat).sum ≤ (rows.map fun row => row.2.toNat).length • 10 ^ 38 :=
    List.sum_le_card_nsmul _ _ fun x hx => by
      obtain ⟨row, hrow, rfl⟩ := List.mem_map.mp hx
      exact (h.value row hrow).2.le
  have hlength := h.length_le
  rw [List.length_map, smul_eq_mul] at hle
  have hmax : MAX_PRIOR_ENTRIES = 2048 := rfl
  omega

variable {row : Address × U256}

theorem Ready.le_total (htotal : total.toNat = (rows.map fun row => row.2.toNat).sum)
    (hrow : row ∈ rows) : row.2.toNat ≤ total.toNat := by
  rw [htotal]
  exact List.single_le_sum (fun _ _ => Nat.zero_le _) _ (List.mem_map_of_mem hrow)

theorem Ready.total_pos (h : Ready rows) (htotal : total.toNat = (rows.map fun row => row.2.toNat).sum) :
    0 < total.toNat := by
  obtain ⟨row, rest, hrows⟩ := List.exists_cons_of_ne_nil h.nonempty
  have hmem : row ∈ rows := by
    rw [hrows]
    exact List.mem_cons_self
  exact (h.value row hmem).1.trans_le (Ready.le_total htotal hmem)

theorem Ready.floor_le (htotal : total.toNat = (rows.map fun row => row.2.toNat).sum)
    (hrow : row ∈ rows) : row.2.toNat * 10 ^ 18 / total.toNat ≤ 10 ^ 18 :=
  Nat.div_le_of_le_mul (Nat.mul_le_mul_right _ (Ready.le_total htotal hrow))

theorem Ready.apportionRow_eq (h : Ready rows)
    (htotal : total.toNat = (rows.map fun row => row.2.toNat).sum) (hrow : row ∈ rows) :
      apportionRow total row = .ok (rowOf total row) := by
  have hvalue := (h.value row hrow).2
  have hpos := h.total_pos htotal
  have hfloor := Ready.floor_le htotal hrow
  obtain ⟨numerator, hnumerator⟩ := exists_toNat (w := 256) (n := row.2.toNat * 10 ^ 18) (by omega)
  have hmul : mul row.2 SCALE_U256 = some numerator := by rw [mul_eq_some, hnumerator, toNat_SCALE_U256]
  have hne : total ≠ 0 := by
    rintro rfl
    exact absurd hpos (lt_irrefl 0)
  have hweight : u64 (numerator / total).toNat = some (UInt64.ofNat (row.2.toNat * 10 ^ 18 / total.toNat)) := by
    rw [toNat_udiv, hnumerator, u64, if_pos (by omega)]
  rw [apportionRow, hmul]
  show (if total = 0 then _ else _) = _
  rw [if_neg hne, hweight]
  refine congrArg (fun r => Except.ok (row.1, _, r)) (toNat_inj.mp ?_)
  rw [toNat_umod, toNat_ofNat, hnumerator]
  exact (Nat.mod_eq_of_lt ((Nat.mod_lt _ hpos).trans total.isLt)).symm

/-- The rows that finish: with the share of each account. -/
theorem Ready.exists_shares (h : Ready rows) (hf : ∀ row ∈ rows, f row.1 = row.2.toNat) :
    ∃ final : List (Address × UInt64 × U256), final.map Prod.fst = rows.map Prod.fst ∧
      (∀ row ∈ final, row.2.1.toNat = Hamilton.share (rows.map Prod.fst).toFinset f (10 ^ 18) row.1) ∧
      apportionRows rows = (do
        let entries ← final.mapM finishRow
        ofResult id (validateNormalized entries)
        .ok entries) := by
  have hkeys : (rows.map Prod.fst).Nodup := h.ascending.imp fun hlt => hlt.ne
  obtain ⟨total, htotal⟩ := exists_toNat (w := 256) (n := (rows.map fun row => row.2.toNat).sum)
    (h.sum_lt.trans (by norm_num))
  have hpos := h.total_pos htotal
  obtain ⟨s, hs⟩ : ∃ s, s = (rows.map Prod.fst).toFinset := ⟨_, rfl⟩
  have hsTotal : Hamilton.total s f = total.toNat := by rw [hs, Hamilton.total_toFinset hkeys hf, htotal]
  have hsPos : 0 < Hamilton.total s f := hsTotal ▸ hpos
  -- the rows with their floors and remainders
  obtain ⟨apportioned, happortioned⟩ : ∃ apportioned, apportioned = rows.map (rowOf total) := ⟨_, rfl⟩
  have hlength : apportioned.length = rows.length := by rw [happortioned, List.length_map]
  have hfst : apportioned.map Prod.fst = rows.map Prod.fst := by
    rw [happortioned, List.map_map]
    rfl
  have hat : ∀ row ∈ apportioned, row.2.1.toNat = Hamilton.floor s f (10 ^ 18) row.1 ∧
      row.2.2.toNat = Hamilton.remainder s f (10 ^ 18) row.1 ∧ row.2.1.toNat ≤ 10 ^ 18 := by
    intro row hrow
    rw [happortioned] at hrow
    obtain ⟨row, hmem, rfl⟩ := List.mem_map.mp hrow
    have hfloor := Ready.floor_le htotal hmem
    have hweight : (rowOf total row).2.1.toNat = row.2.toNat * 10 ^ 18 / total.toNat :=
      UInt64.toNat_ofNat_of_lt' (show _ < 2 ^ 64 by omega)
    refine ⟨?_, ?_, hweight ▸ hfloor⟩
    · rw [hweight, Hamilton.floor, hsTotal]
      show _ = f row.1 * _ / _
      rw [hf row hmem]
    · rw [Hamilton.remainder, hsTotal]
      show (BitVec.ofNat 256 _).toNat = f row.1 * _ % _
      rw [hf row hmem, toNat_ofNat]
      exact Nat.mod_eq_of_lt ((Nat.mod_lt _ hpos).trans total.isLt)
  have hfloors : (apportioned.map fun row => row.2.1.toNat).sum = ∑ a ∈ s, Hamilton.floor s f (10 ^ 18) a := by
    rw [hs, List.sum_toFinset _ hkeys, ← hs, ← hfst, List.map_map]
    exact congrArg List.sum (List.map_congr_left fun row hrow => (hat row hrow).1)
  have hsumFloor := Hamilton.sum_floor_le (u := 10 ^ 18) hsPos
  obtain ⟨floorSum, hfloorSum⟩ := exists_toNat64 (n := (apportioned.map fun row => row.2.1.toNat).sum)
    (by rw [hfloors]; omega)
  have hscale : SCALE.toNat = 10 ^ 18 := rfl
  obtain ⟨missing, hmissing⟩ := exists_toNat64 (n := Hamilton.missing s f (10 ^ 18))
    (lt_of_le_of_lt (Nat.sub_le _ _) (by norm_num))
  have hsub : sub64 SCALE floorSum = some missing := by
    rw [sub64_eq_some, hscale, hmissing, hfloorSum, hfloors, Hamilton.missing]
    omega
  have hmissingLe : missing.toNat ≤ apportioned.length := by
    have hcard := Hamilton.missing_le_card (u := 10 ^ 18) hsPos
    have hkeysCard := List.toFinset_card_le (rows.map Prod.fst)
    rw [List.length_map, ← hs] at hkeysCard
    omega
  -- the missing units are served by remainder and then by account
  obtain ⟨taken, hnodup, hlt, htaken, hshares⟩ := Hamilton.exists_served (l := apportioned) (g := Prod.fst)
    (r := fun a b => largerRemainder a.1 b.1) (f := f) (u := 10 ^ 18) (by rw [hfst]; exact hkeys)
    (fun a b => by
      rw [largerRemainder_iff, largerRemainder_iff]
      exact Hamilton.NotAfter.total _ _)
    (fun a b c hab hbc => by
      rw [largerRemainder_iff] at hab hbc ⊢
      exact hab.trans hbc)
    (fun i j hi hj hij hserved => by
      have hri := (hat _ (List.getElem_mem hi)).2.1
      have hrj := (hat _ (List.getElem_mem hj)).2.1
      rw [largerRemainder_iff, hri, hrj] at hserved
      rw [hfst, ← hs]
      refine hserved.before fun heq => hij ?_
      exact Hamilton.index_eq_of_key (by rw [hfst]; exact hkeys) hi hj heq)
  rw [hfst, ← hs] at htaken hshares
  have hserve : taken.foldlM addUnit apportioned =
      .ok (apportioned.mapIdx fun i row => if i ∈ taken then oneMore row else row) := by
    refine Hamilton.foldlM_set (M := Except (Abort WeightedError)) hnodup hlt fun l i hi h' hget => ?_
    have hrow : l[i] = apportioned.get ⟨i, hlt i hi⟩ := by
      rw [List.getElem?_eq_getElem h', List.getElem?_eq_getElem (hlt i hi)] at hget
      exact Option.some.inj hget
    refine addUnit_eq h' ?_
    rw [hrow]
    exact lt_of_le_of_lt (Nat.succ_le_succ (hat _ (List.getElem_mem (hlt i hi))).2.2) (by norm_num)
  refine ⟨apportioned.mapIdx fun i row => if i ∈ taken then oneMore row else row, ?_, ?_, ?_⟩
  · rw [← hfst]
    refine List.ext_getElem (by simp) fun i hi hi' => ?_
    rw [List.getElem_map, List.getElem_map, List.getElem_mapIdx]
    by_cases hmem : i ∈ taken
    · rw [if_pos hmem]
      rfl
    · rw [if_neg hmem]
  · intro row hrow
    obtain ⟨i, hi, rfl⟩ := List.mem_iff_getElem.mp hrow
    rw [List.length_mapIdx] at hi
    have hshare := hshares i hi
    obtain ⟨hfloor, -, hle⟩ := hat _ (List.getElem_mem hi)
    rw [List.getElem_mapIdx, ← hs]
    by_cases hmem : i ∈ taken
    · rw [if_pos hmem] at hshare ⊢
      show (apportioned[i].2.1 + 1).toNat = Hamilton.share s f (10 ^ 18) apportioned[i].1
      rw [hshare, ← hfloor, UInt64.toNat_add]
      exact Nat.mod_eq_of_lt (show apportioned[i].2.1.toNat + 1 < 2 ^ 64 by omega)
    · rw [if_neg hmem] at hshare ⊢
      rw [hshare, hfloor, Nat.add_zero]
  · rw [apportionRows, foldlM_add_rows.mpr htotal]
    show (do
      let apportioned ← rows.mapM (apportionRow total)
      _ : Weighted _) = _
    rw [mapM_eq_map fun row hrow => h.apportionRow_eq htotal hrow, ← happortioned, ok_bind,
      foldlM_add64_rows.mpr hfloorSum]
    have hfloor : (orOverflow (some floorSum) : Weighted UInt64) = .ok floorSum := rfl
    rw [hfloor, ok_bind, hsub]
    dsimp only
    rw [if_neg (not_lt.mpr hmissingLe), hmissing, htaken, hserve]
    rfl

/-- Rows that are ready give the shares of their accounts, unless one of these is zero. -/
theorem Ready.apportionRows_cases (h : Ready rows) (hf : ∀ row ∈ rows, f row.1 = row.2.toNat) :
    (∃ entries, apportionRows rows = .ok entries ∧ Normalized entries ∧
      entries.map (·.account) = rows.map Prod.fst ∧
      ∀ entry ∈ entries, entry.weight.toNat =
        Hamilton.share (rows.map Prod.fst).toFinset f (10 ^ 18) entry.account) ∨
    ∃ a ∈ rows.map Prod.fst, apportionRows rows = fail (.zeroAfterNormalization a) ∧
      Hamilton.share (rows.map Prod.fst).toFinset f (10 ^ 18) a = 0 := by
  have hkeys : (rows.map Prod.fst).Nodup := h.ascending.imp fun hlt => hlt.ne
  obtain ⟨final, hfst, hshare, hok⟩ := h.exists_shares hf
  cases hfinish : final.mapM finishRow with
  | error e =>
    obtain ⟨row, hrow, hfails⟩ := exists_of_mapM_eq_error hfinish
    rw [finishRow, fail, ite_error_eq_error] at hfails
    rcases hfails with ⟨hzero, rfl⟩ | ⟨-, hfails⟩
    · refine .inr ⟨row.1, ?_, ?_, ?_⟩
      · rw [← hfst]
        exact List.mem_map_of_mem hrow
      · rw [hok, hfinish]
        rfl
      · rw [← hshare row hrow, hzero]
        rfl
    · exact absurd hfails (by simp)
  | ok entries =>
    have hentries := mapM_eq_ok.mp hfinish
    -- an entry stands for its row
    have hrows : entries = final.map (fun row => ⟨row.1, row.2.1⟩) ∧ ∀ row ∈ final, row.2.1 ≠ 0 := by
      clear hok hfst hshare hfinish
      induction hentries with
      | nil => exact ⟨rfl, fun row hrow => absurd hrow List.not_mem_nil⟩
      | cons hab _ ih =>
        rw [finishRow, fail, ite_error_eq_ok, Except.ok.injEq] at hab
        obtain ⟨hne, rfl⟩ := hab
        exact ⟨by rw [ih.1, List.map_cons], List.forall_mem_cons.mpr ⟨hne, ih.2⟩⟩
    obtain ⟨rfl, hnonzero⟩ := hrows
    have haccounts : (final.map fun row => (⟨row.1, row.2.1⟩ : PriorEntry)).map (·.account) =
        rows.map Prod.fst := by
      rw [← hfst, List.map_map]
      rfl
    have hlength : final.length = rows.length := by
      have := congrArg List.length hfst
      rwa [List.length_map, List.length_map] at this
    have hweights : ∀ entry ∈ final.map fun row => (⟨row.1, row.2.1⟩ : PriorEntry), entry.weight.toNat =
        Hamilton.share (rows.map Prod.fst).toFinset f (10 ^ 18) entry.account := by
      intro entry hentry
      obtain ⟨row, hrow, rfl⟩ := List.mem_map.mp hentry
      exact hshare row hrow
    have hnormalized : Normalized (final.map fun row => (⟨row.1, row.2.1⟩ : PriorEntry)) := by
      refine ⟨?_, ?_, ?_, ?_, ?_⟩
      · intro hnil
        rw [List.map_eq_nil_iff] at hnil
        rw [hnil, List.length_nil] at hlength
        exact h.nonempty (List.eq_nil_of_length_eq_zero hlength.symm)
      · rw [List.length_map, hlength]
        exact h.length_le
      · intro entry hentry
        obtain ⟨row, hrow, rfl⟩ := List.mem_map.mp hentry
        refine ⟨?_, hnonzero row hrow⟩
        have hmem : row.1 ∈ rows.map Prod.fst := by
          rw [← hfst]
          exact List.mem_map_of_mem hrow
        obtain ⟨row', hrow', heq⟩ := List.mem_map.mp hmem
        show row.1 ≠ 0
        rw [← heq]
        exact h.account row' hrow'
      · have hascending := h.ascending
        rw [← haccounts, List.pairwise_map] at hascending
        exact hascending
      · have hsum := Hamilton.sum_share (u := 10 ^ 18) (f := f) (s := (rows.map Prod.fst).toFinset) (by
          rw [Hamilton.total_toFinset hkeys hf]
          obtain ⟨row, rest, hcons⟩ := List.exists_cons_of_ne_nil h.nonempty
          have hpos := (h.value row (by rw [hcons]; exact List.mem_cons_self)).1
          rw [hcons, List.map_cons, List.sum_cons]
          omega)
        rw [List.sum_toFinset _ hkeys, ← haccounts, List.map_map] at hsum
        show totalWeight _ = 10 ^ 18
        rw [totalWeight, ← hsum, haccounts]
        exact congrArg List.sum (List.map_congr_left hweights)
    refine .inl ⟨_, ?_, hnormalized, haccounts, hweights⟩
    rw [hok, hfinish, ok_bind, validateNormalized_eq_ok.mpr hnormalized]
    rfl

end

def Good (entry : RawPriorEntry) : Prop :=
  entry.account ≠ 0 ∧ ∃ whole fractional, Canonical entry.weight whole fractional

def valueOf (weight : Bytes) : U256 := ((parseDecimal weight).toOption).getD 0

theorem toNat_valueOf {weight whole fractional : Bytes} (h : Canonical weight whole fractional) :
    (valueOf weight).toNat = decimalValue whole fractional := by
  rcases parseDecimal_cases weight with ⟨whole', fractional', v, hc, hok, hv⟩ | ⟨hnone, -⟩
  · obtain ⟨rfl, rfl⟩ := Prod.mk.inj (hc.parts.symm.trans h.parts)
    rw [valueOf, hok]
    exact hv
  · exact absurd ⟨whole, fractional, h⟩ hnone

theorem parseRaw_eq {entry : RawPriorEntry} (h : Good entry) :
    parseRaw entry = .ok (entry.account, valueOf entry.weight) := by
  obtain ⟨hne, whole, fractional, hc⟩ := h
  rcases parseDecimal_cases entry.weight with ⟨-, -, v, -, hok, -⟩ | ⟨hnone, -⟩
  · rw [parseRaw, if_neg hne, valueOf, hok]
    rfl
  · exact absurd ⟨whole, fractional, hc⟩ hnone

theorem parseRaw_eq_error {entry : RawPriorEntry} {e : Abort WeightedError} (h : parseRaw entry = .error e) :
    e = .error .zeroAddress ∨ e = .error (.nonCanonicalDecimal entry.weight) := by
  rw [parseRaw, fail, ite_error_eq_error] at h
  rcases h with ⟨-, rfl⟩ | ⟨-, h⟩
  · exact .inl rfl
  · rcases bind_eq_error.mp h with h | ⟨v, -, h⟩
    · rcases parseDecimal_cases entry.weight with ⟨-, -, v, -, hok, -⟩ | ⟨-, hfail⟩
      · rw [hok] at h
        exact absurd h (by simp)
      · rw [hfail] at h
        exact .inr (Except.error.inj h).symm
    · exact absurd h (by simp)

def sortedRows (raw : List RawPriorEntry) : List (Address × U256) :=
  (raw.map fun entry => (entry.account, valueOf entry.weight)).insertionSort fun a b => a.1 ≤ b.1

theorem normalize_good {raw : List RawPriorEntry} (hne : raw ≠ []) (hlength : ¬ raw.length > MAX_PRIOR_ENTRIES)
    (hgood : ∀ entry ∈ raw, Good entry) : normalize raw = (do
      let _ ← (sortedRows raw).foldlM checkDistinct ∅
      apportionRows (sortedRows raw)) := by
  rw [normalize, if_neg hne, if_neg hlength, mapM_eq_map fun entry h => parseRaw_eq (hgood entry h)]
  rfl

theorem sortedRows_perm (raw : List RawPriorEntry) :
    (sortedRows raw).Perm (raw.map fun entry => (entry.account, valueOf entry.weight)) :=
  List.perm_insertionSort _ _

theorem sortedRows_keys (raw : List RawPriorEntry) :
    ((sortedRows raw).map Prod.fst).Perm (raw.map (·.account)) := by
  have h := (sortedRows_perm raw).map Prod.fst
  rw [List.map_map] at h
  exact h

theorem sortedRows_sorted (raw : List RawPriorEntry) : (sortedRows raw).Pairwise fun a b => a.1 ≤ b.1 := by
  have : Std.Total fun a b : Address × U256 => a.1 ≤ b.1 := ⟨fun a b => le_total a.1 b.1⟩
  have : IsTrans (Address × U256) fun a b => a.1 ≤ b.1 := ⟨fun _ _ _ => le_trans⟩
  exact List.pairwise_insertionSort _ _

theorem nodup_of_checkDistinct {rows : List (Address × U256)} {seen seen' : BTreeSet Address}
    (h : rows.foldlM checkDistinct seen = .ok seen') :
    (rows.map Prod.fst).Nodup ∧ ∀ row ∈ rows, row.1 ∉ seen := by
  induction rows generalizing seen with
  | nil => exact ⟨List.nodup_nil, fun row hrow => absurd hrow List.not_mem_nil⟩
  | cons row rows ih =>
    rw [List.foldlM_cons] at h
    obtain ⟨next, hstep, h⟩ := of_bind h
    rw [checkDistinct, fail, ite_error_eq_ok, Except.ok.injEq] at hstep
    obtain ⟨hnew, rfl⟩ := hstep
    obtain ⟨hnodup, hunseen⟩ := ih h
    have hrow : row.1 ∉ seen := fun hmem => hnew (Std.ExtTreeSet.contains_iff_mem.mpr hmem)
    refine ⟨List.nodup_cons.mpr ⟨fun hmem => ?_, hnodup⟩, List.forall_mem_cons.mpr ⟨hrow, fun other hother => ?_⟩⟩
    · obtain ⟨other, hother, heq⟩ := List.mem_map.mp hmem
      refine hunseen other hother ?_
      rw [heq]
      exact Std.ExtTreeSet.mem_insert_self
    · intro hmem
      exact hunseen other hother (Std.ExtTreeSet.mem_insert.mpr (.inr hmem))

theorem ready_sortedRows {raw : List RawPriorEntry} (hne : raw ≠ []) (hlength : ¬ raw.length > MAX_PRIOR_ENTRIES)
    (hgood : ∀ entry ∈ raw, Good entry) (hkeys : ((sortedRows raw).map Prod.fst).Nodup) :
    Ready (sortedRows raw) := by
  have hperm := sortedRows_perm raw
  have hsize : (sortedRows raw).length = raw.length := by rw [hperm.length_eq, List.length_map]
  have hrow : ∀ row ∈ sortedRows raw, ∃ entry ∈ raw, (entry.account, valueOf entry.weight) = row :=
    fun row hmem => List.mem_map.mp (hperm.mem_iff.mp hmem)
  refine ⟨?_, hsize ▸ not_lt.mp hlength, ?_, ?_, ?_⟩
  · intro hnil
    rw [hnil, List.length_nil] at hsize
    exact hne (List.eq_nil_of_length_eq_zero hsize.symm)
  · have hsorted := sortedRows_sorted raw
    rw [← List.pairwise_map (f := Prod.fst) (R := (· ≤ ·))] at hsorted
    exact (hsorted.and hkeys).imp fun h => lt_of_le_of_ne h.1 h.2
  · intro row hmem
    obtain ⟨entry, hentry, rfl⟩ := hrow row hmem
    exact (hgood entry hentry).1
  · intro row hmem
    obtain ⟨entry, hentry, rfl⟩ := hrow row hmem
    obtain ⟨-, whole, fractional, hc⟩ := hgood entry hentry
    show 0 < (valueOf entry.weight).toNat ∧ (valueOf entry.weight).toNat < _
    rw [toNat_valueOf hc]
    exact ⟨decimalValue_pos hc, decimalValue_lt hc⟩

theorem normalize_perm {raw raw' : List RawPriorEntry} (hperm : raw.Perm raw')
    (hgood : ∀ entry ∈ raw, Good entry) : normalize raw = normalize raw' := by
  by_cases hne : raw = []
  · rw [hne] at hperm ⊢
    rw [hperm.nil_eq]
  have hne' : raw' ≠ [] := fun hnil => hne (hnil ▸ hperm).eq_nil
  by_cases hlength : raw.length > MAX_PRIOR_ENTRIES
  · rw [normalize, normalize, if_neg hne, if_neg hne', if_pos hlength, if_pos (hperm.length_eq ▸ hlength),
      hperm.length_eq]
  have hlength' : ¬ raw'.length > MAX_PRIOR_ENTRIES := hperm.length_eq ▸ hlength
  have hgood' : ∀ entry ∈ raw', Good entry := fun entry h => hgood entry (hperm.mem_iff.mpr h)
  rw [normalize_good hne hlength hgood, normalize_good hne' hlength' hgood']
  have hrows : (sortedRows raw).Perm (sortedRows raw') :=
    (sortedRows_perm raw).trans ((hperm.map _).trans (sortedRows_perm raw').symm)
  -- the accounts are in one order, so both checks end in the same way
  have hkeys : (sortedRows raw).map Prod.fst = (sortedRows raw').map Prod.fst := by
    have hsorted := sortedRows_sorted raw
    have hsorted' := sortedRows_sorted raw'
    rw [← List.pairwise_map (f := Prod.fst) (R := (· ≤ ·))] at hsorted hsorted'
    exact (hrows.map Prod.fst).eq_of_pairwise (fun a b _ _ => le_antisymm) hsorted hsorted'
  have hcheck : ∀ rows : List (Address × U256), rows.foldlM checkDistinct ∅ =
      (rows.map Prod.fst).foldlM (fun seen account => checkDistinct seen (account, 0)) ∅ := by
    intro rows
    rw [List.foldlM_map]
    rfl
  have hsame : (sortedRows raw).foldlM checkDistinct ∅ = (sortedRows raw').foldlM checkDistinct ∅ := by
    rw [hcheck, hcheck, hkeys]
  cases hresult : (sortedRows raw).foldlM checkDistinct ∅ with
  | error e =>
    rw [← hsame, hresult]
    rfl
  | ok seen =>
    have hnodup := (nodup_of_checkDistinct hresult).1
    -- an account determines its row
    have heq : sortedRows raw = sortedRows raw' := by
      refine hrows.eq_of_pairwise (fun a b ha hb hab hba => ?_) (sortedRows_sorted raw) (sortedRows_sorted raw')
      exact List.inj_on_of_nodup_map hnodup ha (hrows.mem_iff.mpr hb) (le_antisymm hab hba)
    rw [← hsame, hresult, heq]

/-- The entries are the apportionment of `SCALE` over the exact values of the decimals. -/
structure Apportions (raw : List RawPriorEntry) (entries : List PriorEntry) : Prop where
  accounts : (entries.map (·.account)).Perm (raw.map (·.account))
  shares : ∃ f : Address → ℕ, (∀ entry ∈ raw, ∃ whole fractional, Canonical entry.weight whole fractional ∧
      f entry.account = decimalValue whole fractional) ∧
    ∀ entry ∈ entries, entry.weight.toNat =
      Hamilton.share (raw.map (·.account)).toFinset f SCALE.toNat entry.account

/-- How a normalization ends. -/
theorem normalize_cases (raw : List RawPriorEntry) :
    (∃ entries, normalize raw = .ok entries ∧ Normalized entries ∧ Apportions raw entries) ∨
    ∃ e, normalize raw = fail e ∧ e ≠ .arithmeticOverflow ∧ e ≠ .invalidApportionment := by
  by_cases hne : raw = []
  · exact .inr ⟨.emptyPrior, by rw [normalize, if_pos hne], by simp, by simp⟩
  by_cases hlength : raw.length > MAX_PRIOR_ENTRIES
  · exact .inr ⟨.tooManyPriorEntries raw.length, by rw [normalize, if_neg hne, if_pos hlength], by simp, by simp⟩
  by_cases hgood : ∀ entry ∈ raw, Good entry
  · rw [normalize_good hne hlength hgood]
    cases hcheck : (sortedRows raw).foldlM checkDistinct ∅ with
    | error e =>
      obtain ⟨row, -, seen, hfails⟩ := exists_of_foldlM_eq_error hcheck
      rw [checkDistinct, fail, ite_error_eq_error] at hfails
      rcases hfails with ⟨-, rfl⟩ | ⟨-, hfails⟩
      · exact .inr ⟨.duplicateAccount row.1, rfl, by simp, by simp⟩
      · exact absurd hfails (by simp)
    | ok seen =>
      have hkeys := (nodup_of_checkDistinct hcheck).1
      have hready := ready_sortedRows hne hlength hgood hkeys
      obtain ⟨f, hf, -⟩ := Hamilton.exists_numerator hkeys fun row => row.2.toNat
      have hfinset : ((sortedRows raw).map Prod.fst).toFinset = (raw.map (·.account)).toFinset :=
        List.toFinset_eq_of_perm _ _ (sortedRows_keys raw)
      rcases hready.apportionRows_cases hf with ⟨entries, hok, hnormalized, haccounts, hshares⟩ |
        ⟨account, -, hfail, -⟩
      · refine .inl ⟨entries, hok, hnormalized, ⟨haccounts ▸ sortedRows_keys raw, f, fun entry hentry => ?_, ?_⟩⟩
        · obtain ⟨-, whole, fractional, hc⟩ := hgood entry hentry
          have hrow : (entry.account, valueOf entry.weight) ∈ sortedRows raw :=
            (sortedRows_perm raw).mem_iff.mpr (List.mem_map_of_mem hentry)
          refine ⟨whole, fractional, hc, ?_⟩
          rw [← toNat_valueOf hc]
          exact hf _ hrow
        · intro entry hentry
          rw [hshares entry hentry, hfinset]
          rfl
      · exact .inr ⟨.zeroAfterNormalization account, hfail, by simp, by simp⟩
  · -- the first bad entry is reported
    have hparse : ∃ entry e, normalize raw = .error e ∧ parseRaw entry = .error e := by
      rw [normalize, if_neg hne, if_neg hlength]
      cases hrows : raw.mapM parseRaw with
      | error e =>
        obtain ⟨entry, -, hfails⟩ := exists_of_mapM_eq_error hrows
        exact ⟨entry, e, rfl, hfails⟩
      | ok rows =>
        refine absurd (fun entry hentry => ?_) hgood
        obtain ⟨row, -, hrow⟩ := exists_of_mapM_eq_ok hrows hentry
        rw [parseRaw, fail, ite_error_eq_ok] at hrow
        obtain ⟨hzero, hrow⟩ := hrow
        obtain ⟨v, hv, -⟩ := of_bind hrow
        obtain ⟨whole, fractional, hc, -⟩ := parseDecimal_eq_ok.mp hv
        exact ⟨hzero, whole, fractional, hc⟩
    obtain ⟨entry, e, hfail, hentry⟩ := hparse
    rcases parseRaw_eq_error hentry with rfl | rfl
    · exact .inr ⟨_, hfail, by simp, by simp⟩
    · exact .inr ⟨_, hfail, by simp, by simp⟩

/-- Every list is normalized to an accepted apportionment or refused, without an overflow and in no order of a
list without a bad entry differently; and the decimals that are read are the canonical ones, each with a value of
its own. -/
theorem normalize_apportions (raw : List RawPriorEntry) : (∀ entries, normalize raw = .ok entries →
      validateNormalized entries = .ok () ∧ Normalized entries ∧ Apportions raw entries) ∧
    (normalize raw ≠ .error .panic ∧ normalize raw ≠ fail .arithmeticOverflow ∧
      normalize raw ≠ fail .invalidApportionment) ∧
    ((∀ entry ∈ raw, Good entry) → ∀ raw', raw.Perm raw' → normalize raw = normalize raw') ∧
    (∀ value v, parseDecimal value = .ok v ↔ ∃ whole fractional, Canonical value whole fractional ∧
      v.toNat = decimalValue whole fractional) ∧
    ∀ value value' v, parseDecimal value = .ok v → parseDecimal value' = .ok v → value = value' := by
  refine ⟨fun entries h => ?_, ?_, fun hgood raw' hperm => normalize_perm hperm hgood,
    fun value v => parseDecimal_eq_ok, fun value value' v h h' => ?_⟩
  · rcases normalize_cases raw with ⟨entries', hok, hnormalized, hshares⟩ | ⟨e, hfail, -⟩
    · obtain rfl := ok_inj (hok.symm.trans h)
      exact ⟨validateNormalized_eq_ok.mpr hnormalized, hnormalized, hshares⟩
    · rw [hfail] at h
      exact absurd h (by simp [fail])
  · rcases normalize_cases raw with ⟨entries, hok, -⟩ | ⟨e, hfail, hoverflow, hinvalid⟩
    · rw [hok]
      exact ⟨by simp, by simp [fail], by simp [fail]⟩
    · rw [hfail]
      exact ⟨by simp [fail], by simpa [fail] using hoverflow, by simpa [fail] using hinvalid⟩
  · obtain ⟨whole, fractional, hc, hv⟩ := parseDecimal_eq_ok.mp h
    obtain ⟨whole', fractional', hc', hv'⟩ := parseDecimal_eq_ok.mp h'
    exact hc.eq_of_value hc' (hv.symm.trans hv')

namespace NormalizeExample

def account (n : ℕ) : Address := .ofNat 20 n

def raw : List RawPriorEntry := [⟨account 3, utf8 "1"⟩, ⟨account 1, utf8 "10"⟩, ⟨account 2, utf8 "2.5"⟩]

def entries : List PriorEntry :=
  [⟨account 1, 740740740740740741⟩, ⟨account 2, 185185185185185185⟩, ⟨account 3, 74074074074074074⟩]

theorem normalize_raw : normalize raw = .ok entries := by decide +kernel

end NormalizeExample

open NormalizeExample in
/-- The weights 10, 2.5 and 1. -/
theorem normalize_apportions_three : Normalized entries ∧ Apportions raw entries :=
  ((normalize_apportions raw).1 entries normalize_raw).2

end Trustgraphs.WeightedPrior
