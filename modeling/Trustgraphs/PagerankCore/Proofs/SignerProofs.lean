import Trustgraphs.PagerankCore.Proofs.DistributeProofs
import Trustgraphs.PagerankCore.Signer

/-!
# What a selection of signers has

The scores of a computation have distinct accounts, so a selection ranks accounts and not entries.
-/

namespace Trustgraphs

namespace Distribute

open List

variable {K : Type} {total totalPool : U256}

theorem shareRow_keys {st st' : List (Row K) × U256} {entry : K × U256}
    (h : shareRow total totalPool st entry = some st') : st'.1.map Prod.fst = st.1.map Prod.fst ++ [entry.1] := by
  unfold shareRow at h
  simp only [Option.bind_eq_bind] at h
  split_ifs at h
  obtain ⟨floorSum, -, h⟩ := Option.bind_eq_some_iff.mp h
  rw [← Option.some.inj h, map_append]
  rfl

theorem foldlM_shareRow_keys {l : List (K × U256)} {st st' : List (Row K) × U256}
    (h : l.foldlM (shareRow total totalPool) st = some st') :
    st'.1.map Prod.fst = st.1.map Prod.fst ++ l.map Prod.fst := by
  induction l generalizing st with
  | nil => rw [← Option.some.inj h, map_nil, append_nil]
  | cons entry l ih =>
    obtain ⟨mid, hmid, hrest⟩ := Option.bind_eq_some_iff.mp h
    rw [ih hrest, shareRow_keys hmid, append_assoc]
    rfl

theorem bump_keys {rows rows' : List (Row K)} {index : ℕ} (h : bump rows index = some rows') :
    rows'.map Prod.fst = rows.map Prod.fst := by
  obtain ⟨row, hrow, h⟩ := Option.bind_eq_some_iff.mp h
  obtain ⟨value, -, h⟩ := Option.bind_eq_some_iff.mp h
  obtain ⟨hi, hget⟩ := List.getElem?_eq_some_iff.mp hrow
  rw [← Option.some.inj h, map_set]
  have hi' : index < (rows.map Prod.fst).length := by rwa [length_map]
  have hfst : row.1 = (rows.map Prod.fst)[index] := by rw [getElem_map, hget]
  rw [hfst, set_getElem_self]

theorem foldlM_bump_keys {order : List ℕ} {rows rows' : List (Row K)} (h : order.foldlM bump rows = some rows') :
    rows'.map Prod.fst = rows.map Prod.fst := by
  induction order generalizing rows with
  | nil => rw [← Option.some.inj h]
  | cons index order ih =>
    obtain ⟨mid, hmid, hrest⟩ := Option.bind_eq_some_iff.mp h
    exact (ih hrest).trans (bump_keys hmid)

theorem distributePointsGeneric_nodup [LinearOrder K] {scores assigned : List (K × U256)} {scale total : U256}
    (hnodup : (scores.map Prod.fst).Nodup)
    (h : distributePointsGeneric scores scale totalPool = some (assigned, total)) :
      (assigned.map Prod.fst).Nodup := by
  unfold distributePointsGeneric at h
  dsimp only at h
  split_ifs at h with hneighbours hempty
  · rw [← (Prod.mk.inj (Option.some.inj h)).1]
    exact nodup_nil
  · obtain ⟨sum, -, h⟩ := Option.bind_eq_some_iff.mp h
    obtain ⟨⟨rows, floorSum⟩, hrows, h⟩ := Option.bind_eq_some_iff.mp h
    obtain ⟨missing, -, h⟩ := Option.bind_eq_some_iff.mp h
    simp only at h
    split_ifs at h
    obtain ⟨rows', hrows', h⟩ := Option.bind_eq_some_iff.mp h
    have hkeys : rows'.map Prod.fst =
        ((scores.filter fun e => e.2 != 0).insertionSort fun a b => a.1 ≤ b.1).map Prod.fst :=
      (foldlM_bump_keys hrows').trans (foldlM_shareRow_keys hrows)
    have hsorted : (rows'.map Prod.fst).Nodup := by
      rw [hkeys, ((perm_insertionSort _ _).map Prod.fst).nodup_iff]
      exact hnodup.sublist (filter_sublist.map _)
    rw [← (Prod.mk.inj (Option.some.inj h)).1]
    -- the rows that hold nothing are left out
    have hsub : ∀ rows : List (Row K), ((rows.filterMap fun row =>
        if row.2.1 = 0 then none else some (row.1, row.2.1)).map Prod.fst).Sublist (rows.map Prod.fst) := by
      intro rows
      induction rows with
      | nil => exact List.Sublist.refl _
      | cons row rows ih =>
        by_cases hzero : row.2.1 = 0
        · simp only [filterMap_cons, hzero, if_true]
          exact ih.cons _
        · simp only [filterMap_cons, hzero, if_false]
          exact ih.cons_cons _
    exact hsorted.sublist (hsub rows')

end Distribute

theorem PagerankCore.scores_nodup {H : Hashes} {input : GuestInput} {result : ComputeResult}
    (h : PagerankCore.compute H input = some result) : (result.scores.map Prod.fst).Nodup := by
  unfold PagerankCore.compute at h
  simp only [Option.bind_eq_bind] at h
  obtain ⟨paramsHash, -, h⟩ := Option.bind_eq_some_iff.mp h
  obtain ⟨graph, -, h⟩ := Option.bind_eq_some_iff.mp h
  obtain ⟨rank, -, h⟩ := Option.bind_eq_some_iff.mp h
  obtain ⟨⟨assigned, total⟩, hassigned, h⟩ := Option.bind_eq_some_iff.mp h
  obtain ⟨root, -, h⟩ := Option.bind_eq_some_iff.mp h
  rw [← Option.some.inj h]
  have hkeys : ((rank.scores.toList.filter fun e => e.2 != 0).map Prod.fst).Nodup := by
    have hsorted : (rank.scores.toList.map Prod.fst).Nodup :=
      (List.pairwise_map.mpr (BTreeMap.toList_sorted rank.scores)).imp fun h => h.ne
    exact hsorted.sublist (List.filter_sublist.map _)
  exact ((List.perm_insertionSort _ _).map Prod.fst).nodup_iff.mpr
    (Distribute.distributePointsGeneric_nodup hkeys hassigned)

namespace Signer

variable {H : Hashes} {scores : List (Address × U256)} {sp : SelectionParams} {signers : List Address}
  {threshold : U256} {input : SignerInput} {log : List SignerActivity} {record : SignerActivity} {account : Address}

def Scored (scores : List (Address × U256)) (account : Address) : Prop :=
  ∃ value, value ≠ 0 ∧ (account, value) ∈ scores

theorem targetThreshold_le (sp : SelectionParams) {n : ℕ} (hn : 1 ≤ n) : targetThreshold sp n ≤ n := by
  unfold targetThreshold
  dsimp only
  split_ifs <;> omega

theorem two_le_targetThreshold (hmin : 2 ≤ sp.minThreshold.toNat) {n : ℕ} (hn : 2 ≤ n) :
    2 ≤ targetThreshold sp n := by
  unfold targetThreshold
  dsimp only
  split_ifs <;> omega

theorem sorted_of_perm {l : List Address} (hnodup : l.Nodup) : (l.insertionSort (· ≤ ·)).Pairwise (· < ·) := by
  have hsorted : (l.insertionSort (· ≤ ·)).Pairwise (· ≤ ·) := List.pairwise_insertionSort _ l
  have hne : (l.insertionSort (· ≤ ·)).Nodup := ((List.perm_insertionSort _ _).nodup_iff).mpr hnodup
  exact (hsorted.and hne).imp fun h => lt_of_le_of_ne h.1 h.2

theorem selectSigners_eq (hnodup : (scores.map Prod.fst).Nodup)
    (h : selectSigners scores sp = (signers, threshold)) :
    signers.Pairwise (· < ·) ∧ signers.length ≤ sp.topN.toNat ∧ (∀ signer ∈ signers, Scored scores signer) ∧
      (1 ≤ signers.length → threshold.toNat = targetThreshold sp signers.length) := by
  obtain ⟨ranked, hranked⟩ : ∃ l, l = (scores.filter fun e => e.2 != 0).insertionSort fun a b =>
      before a b := ⟨_, rfl⟩
  have hperm : ranked.Perm (scores.filter fun e => e.2 != 0) := hranked ▸ List.perm_insertionSort _ _
  have hkeys : ((ranked.take sp.topN.toNat).map Prod.fst).Nodup := by
    have hall : (ranked.map Prod.fst).Nodup :=
      ((hperm.map Prod.fst).nodup_iff).mpr (hnodup.sublist (List.filter_sublist.map _))
    exact hall.sublist ((List.take_sublist _ _).map _)
  obtain ⟨chosen, hchosen⟩ :
      ∃ l, l = ((ranked.take sp.topN.toNat).map Prod.fst).insertionSort (· ≤ ·) := ⟨_, rfl⟩
  have hcperm : chosen.Perm ((ranked.take sp.topN.toNat).map Prod.fst) := hchosen ▸ List.perm_insertionSort _ _
  have hlength : chosen.length ≤ sp.topN.toNat := by
    rw [hcperm.length_eq, List.length_map, List.length_take]
    exact min_le_left _ _
  have hselect : selectSigners scores sp =
      if chosen.length = 0 then (chosen, 0) else (chosen, BitVec.ofNat 256 (targetThreshold sp chosen.length)) := by
    rw [hchosen, hranked]
    rfl
  have hsigners : chosen = signers := by
    rw [hselect] at h
    split_ifs at h
    · exact (Prod.mk.inj h).1
    · exact (Prod.mk.inj h).1
  subst hsigners
  refine ⟨hchosen ▸ sorted_of_perm hkeys, hlength, fun signer hsigner => ?_, fun hone => ?_⟩
  · obtain ⟨⟨account, value⟩, he, rfl⟩ := List.mem_map.mp (hcperm.mem_iff.mp hsigner)
    obtain ⟨hmem, hvalue⟩ := List.mem_filter.mp (hperm.mem_iff.mp (List.mem_of_mem_take he))
    exact ⟨value, by simpa using hvalue, hmem⟩
  · rw [hselect, if_neg (by omega)] at h
    have hle := targetThreshold_le sp hone
    have htop := sp.topN.toNat_lt
    rw [← (Prod.mk.inj h).2, BitVec.toNat_ofNat, Nat.mod_eq_of_lt (by omega)]

def activityChain (H : Hashes) (log : List SignerActivity) : B256 :=
  log.zipIdx.foldl (fun acc e => foldActivity H acc (UInt64.ofNat (e.2 + 1)) e.1) 0

theorem activityChain_concat (log : List SignerActivity) (record : SignerActivity) :
    activityChain H (log ++ [record]) =
      foldActivity H (activityChain H log) (UInt64.ofNat (log.length + 1)) record := by
  rw [activityChain, List.zipIdx_append, List.foldl_append]
  simp [activityChain]

/-- The strings that are hashed for the chain of a log. -/
def activityHashed (H : Hashes) (log : List SignerActivity) : List Bytes :=
  log.zipIdx.map fun e => activityPreimage (activityChain H (log.take e.2)) (UInt64.ofNat (e.2 + 1)) e.1

theorem activityHashed_concat (log : List SignerActivity) (record : SignerActivity) :
    activityHashed H (log ++ [record]) = activityHashed H log ++
      [activityPreimage (activityChain H log) (UInt64.ofNat (log.length + 1)) record] := by
  rw [activityHashed, List.zipIdx_append, List.map_append, activityHashed]
  refine congrArg₂ (· ++ ·) (List.map_congr_left fun e he => ?_) ?_
  · have hlt := (List.mem_zipIdx he).2.1
    rw [Nat.zero_add] at hlt
    rw [List.take_append_of_le_length hlt.le]
  · simp

theorem activityPreimage_inj {previous previous' : B256} {sequence sequence' : UInt64}
    {record record' : SignerActivity}
    (h : activityPreimage previous sequence record = activityPreimage previous' sequence' record') :
    previous = previous' ∧ record = record' := by
  obtain ⟨h, hblock⟩ := List.append_inj h (by simp)
  obtain ⟨h, hproposal⟩ := List.append_inj h (by simp)
  obtain ⟨h, haccount⟩ := List.append_inj h (by simp)
  obtain ⟨hprevious, -⟩ := List.append_inj h (by simp)
  obtain ⟨account, proposalId, blockNumber⟩ := record
  obtain ⟨account', proposalId', blockNumber'⟩ := record'
  obtain rfl := wordAddr_inj.mp haccount
  obtain rfl := wordU256_inj.mp hproposal
  obtain rfl := wordU64_inj.mp hblock
  exact ⟨FixedBytes.bytes_inj.mp hprevious, rfl⟩

theorem activityChain_injective {S : List Bytes} (hS : CollisionFree H.keccak256 S)
    {log log' : List SignerActivity} (hlog : ∀ s ∈ activityHashed H log, s ∈ S)
    (hlog' : ∀ s ∈ activityHashed H log', s ∈ S) (hlength : log.length = log'.length)
    (h : activityChain H log = activityChain H log') : log = log' := by
  induction log using List.reverseRecOn generalizing log' with
  | nil => exact (List.length_eq_zero_iff.mp hlength.symm).symm
  | append_singleton log record ih =>
    rcases List.eq_nil_or_concat log' with rfl | ⟨log', record', rfl⟩
    · rw [List.length_append] at hlength
      exact nomatch hlength
    · rw [List.concat_eq_append] at hlog' hlength h ⊢
      rw [activityHashed_concat] at hlog hlog'
      rw [activityChain_concat, activityChain_concat] at h
      have hpreimage := hS.inj _ (hlog _ (List.mem_append_right _ List.mem_cons_self)) _
        (hlog' _ (List.mem_append_right _ List.mem_cons_self)) h
      obtain ⟨hchain, hrecord⟩ := activityPreimage_inj hpreimage
      rw [List.length_append, List.length_append] at hlength
      rw [ih (fun s hs => hlog s (List.mem_append_left _ hs)) (fun s hs => hlog' s (List.mem_append_left _ hs))
        (Nat.add_right_cancel hlength) hchain, hrecord]

theorem activityHashed_subset_append (log later : List SignerActivity) :
    activityHashed H log ⊆ activityHashed H (log ++ later) := by
  induction later using List.reverseRecOn with
  | nil => rw [List.append_nil]; exact List.Subset.refl _
  | append_singleton later record ih =>
    rw [← List.append_assoc, activityHashed_concat]
    exact List.subset_append_of_subset_left _ ih

/-- Every account of the map has a record with its block. -/
def Latest (log : List SignerActivity) (latest : BTreeMap Address UInt64) : Prop :=
  ∀ account block, latest[account]? = some block → ∃ record ∈ log, record.account = account ∧
    record.blockNumber = block

theorem Latest.touch {latest : BTreeMap Address UInt64} (h : Latest log latest) (record : SignerActivity) :
    Latest (log ++ [record]) (touch latest record) := by
  have hold : ∀ account block, latest[account]? = some block →
      ∃ r ∈ log ++ [record], r.account = account ∧ r.blockNumber = block := by
    intro account block hblock
    obtain ⟨r, hr, hboth⟩ := h account block hblock
    exact ⟨r, List.mem_append_left _ hr, hboth⟩
  have hself : record ∈ log ++ [record] := List.mem_append_right _ List.mem_cons_self
  intro account block hblock
  unfold Signer.touch at hblock
  by_cases haccount : record.account = account
  · cases hlast : latest[record.account]? with
    | none =>
      rw [hlast] at hblock
      simp only [BTreeMap.getElem?_insert, haccount, if_true] at hblock
      exact ⟨record, hself, haccount, Option.some.inj hblock⟩
    | some last =>
      rw [hlast] at hblock
      simp only [BTreeMap.getElem?_insert, haccount, if_true] at hblock
      have hchoice : max last record.blockNumber = last ∨ max last record.blockNumber = record.blockNumber := by
        show (if last ≤ record.blockNumber then record.blockNumber else last) = last ∨
          (if last ≤ record.blockNumber then record.blockNumber else last) = record.blockNumber
        split_ifs
        · exact .inr rfl
        · exact .inl rfl
      rcases hchoice with hmax | hmax
      · rw [hmax] at hblock
        exact hold account block (by rw [← haccount, hlast, hblock])
      · rw [hmax] at hblock
        exact ⟨record, hself, haccount, Option.some.inj hblock⟩
  · cases hlast : latest[record.account]? with
    | none =>
      rw [hlast] at hblock
      exact hold account block (by simpa only [BTreeMap.getElem?_insert_of_ne _ _ haccount] using hblock)
    | some last =>
      rw [hlast] at hblock
      exact hold account block (by simpa only [BTreeMap.getElem?_insert_of_ne _ _ haccount] using hblock)

theorem replayActivity_eq_some {records : List SignerActivity} {checkpointBlock : UInt64}
    {latest latest' : BTreeMap Address UInt64} {acc : B256} (hlatest : Latest log latest)
    (h : replayActivity H checkpointBlock records log.length (activityChain H log, latest) = some (acc, latest')) :
    acc = activityChain H (log ++ records) ∧ Latest (log ++ records) latest' := by
  induction records generalizing log latest with
  | nil =>
    obtain ⟨hacc, hlatest'⟩ := Prod.mk.inj (Option.some.inj h)
    rw [List.append_nil]
    exact ⟨hacc.symm, hlatest' ▸ hlatest⟩
  | cons record records ih =>
    obtain ⟨sequence, hsequence, h⟩ := Option.bind_eq_some_iff.mp h
    split_ifs at h
    have hsequence' : sequence = UInt64.ofNat (log.length + 1) := by
      rw [← (Checked.u64_eq_some.mp hsequence), UInt64.ofNat_toNat]
    rw [hsequence', ← activityChain_concat,
      show log.length + 1 = (log ++ [record]).length by rw [List.length_append]; rfl] at h
    have hrest := ih (hlatest.touch record) h
    rwa [List.append_assoc] at hrest

/-- The account has voted in one of the blocks that count. -/
def FreshlyActive (input : SignerInput) (account : Address) : Prop :=
  ∃ record ∈ input.activity, record.account = account ∧ cutoff input ≤ record.blockNumber.toNat

/-- The activity and the current owners are what the input says. -/
structure Witnessed (H : Hashes) (input : SignerInput) : Prop where
  chain : input.activityCheckpoint.acc = activityChain H input.activity
  count : input.activityCheckpoint.count.toNat = input.activity.length
  nodup : input.currentSigners.Nodup

structure Selected (scores : List (Address × U256)) (input : SignerInput) (signers : List Address)
    (threshold : U256) : Prop where
  sorted : signers.Pairwise (· < ·)
  length_le : signers.length ≤ input.selection.topN.toNat
  two_le : 2 ≤ input.selection.minActivityWitnesses.toNat
  minimum_le : input.selection.minActivityWitnesses.toNat ≤ signers.length
  scored : ∀ signer ∈ signers, Scored scores signer
  fresh : ∀ signer ∈ signers, FreshlyActive input signer
  threshold_eq : threshold.toNat = targetThreshold input.selection signers.length
  /-- Enough owners have voted lately, or enough accounts with a score for the first owners. -/
  witnesses : ∃ witnesses : List Address, witnesses.Nodup ∧
    input.selection.minActivityWitnesses.toNat ≤ witnesses.length ∧
    ∀ a ∈ witnesses, FreshlyActive input a ∧
      if input.wasInitialized then a ∈ input.currentSigners else Scored scores a

/-- What a selection says, whether it applies or not. -/
theorem activitySelection_eq_some (hnodup : (scores.map Prod.fst).Nodup) {applied : Bool}
    (h : activitySelection H scores input = some (signers, threshold, applied)) :
    Witnessed H input ∧ (applied = true → Selected scores input signers threshold) ∧
      (applied = false → signers.Perm input.currentSigners ∧ threshold = input.currentThreshold) := by
  unfold activitySelection at h
  obtain ⟨⟨acc, latest⟩, hreplay, h⟩ := Option.bind_eq_some_iff.mp h
  have hstart : Latest [] ∅ := fun account block hblock => by simp at hblock
  obtain ⟨hacc, hlatest⟩ := @replayActivity_eq_some H [] _ _ ∅ _ _ hstart hreplay
  rw [List.nil_append] at hacc hlatest
  dsimp only at h
  obtain ⟨hcount, h⟩ := Option.ite_none_left_eq_some.mp h
  obtain ⟨hchain, h⟩ := Option.ite_none_left_eq_some.mp h
  obtain ⟨-, h⟩ := Option.ite_none_left_eq_some.mp h
  obtain ⟨hdup, h⟩ := Option.ite_none_left_eq_some.mp h
  obtain ⟨-, h⟩ := Option.ite_none_left_eq_some.mp h
  have hperm := List.perm_insertionSort (· ≤ ·) input.currentSigners
  have hcurrent : input.currentSigners.Nodup := hperm.nodup_iff.mp (not_not.mp hdup)
  refine ⟨⟨(not_not.mp hchain).trans hacc, not_not.mp hcount, hcurrent⟩, ?_⟩
  -- without enough activity the owners stay
  have hkept : some (input.currentSigners.insertionSort (· ≤ ·), input.currentThreshold, false) =
      some (signers, threshold, applied) → (applied = true → Selected scores input signers threshold) ∧
        (applied = false → signers.Perm input.currentSigners ∧ threshold = input.currentThreshold) := by
    intro heq
    obtain ⟨hsigners, hrest⟩ := Prod.mk.inj (Option.some.inj heq)
    obtain ⟨hthreshold, happlied⟩ := Prod.mk.inj hrest
    exact ⟨fun htrue => absurd (happlied.trans htrue) (by decide),
      fun _ => ⟨hsigners ▸ hperm, hthreshold.symm⟩⟩
  by_cases hnone : input.activityCheckpoint.count = 0
  · rw [if_pos hnone] at h
    exact hkept h
  rw [if_neg hnone] at h
  generalize hfresh : (latest.toList.filter fun e => cutoff input ≤ e.2.toNat).map Prod.fst = fresh at h
  generalize hwitness : (if input.wasInitialized = true then _ else _) = witnessCount at h
  by_cases hfew : input.selection.minActivityWitnesses.toNat < 2 ∨
      witnessCount < input.selection.minActivityWitnesses.toNat
  · rw [if_pos hfew] at h
    exact hkept h
  rw [if_neg hfew] at h
  obtain ⟨htwo, henough⟩ := not_or.mp hfew
  generalize hselect : selectSigners (scores.filter (·.1 ∈ fresh)) input.selection = selected at h
  obtain ⟨chosen, chosenThreshold⟩ := selected
  dsimp only at h
  by_cases hshort : chosen.length < input.selection.minActivityWitnesses.toNat
  · rw [if_pos hshort] at h
    exact hkept h
  rw [if_neg hshort] at h
  obtain ⟨rfl, hrest⟩ := Prod.mk.inj (Option.some.inj h)
  obtain ⟨rfl, rfl⟩ := Prod.mk.inj hrest
  refine ⟨fun _ => ?_, fun hfalse => absurd hfalse (by decide)⟩
  obtain ⟨hsorted, hlength, hscored, hthreshold⟩ :=
    selectSigners_eq (hnodup.sublist (List.filter_sublist.map Prod.fst)) hselect
  have hactive : ∀ account ∈ fresh, FreshlyActive input account := by
    intro account haccount
    obtain ⟨⟨a, block⟩, he, rfl⟩ := List.mem_map.mp (hfresh ▸ haccount)
    obtain ⟨hmem, hblock⟩ := List.mem_filter.mp he
    obtain ⟨record, hrecord, haccount, hnumber⟩ := hlatest a block (BTreeMap.mem_toList.mp hmem)
    exact ⟨record, hrecord, haccount, hnumber ▸ of_decide_eq_true hblock⟩
  have hfreshNodup : fresh.Nodup := by
    have hkeys : (latest.toList.map Prod.fst).Nodup :=
      (List.pairwise_map.mpr (BTreeMap.toList_sorted latest)).imp fun h => h.ne
    exact hfresh ▸ hkeys.sublist (List.filter_sublist.map _)
  refine ⟨hsorted, hlength, Nat.not_lt.mp htwo, Nat.not_lt.mp hshort, fun signer hsigner =>
    ?_, fun signer hsigner => ?_,
    hthreshold (by omega), ?_⟩
  · obtain ⟨value, hvalue, hmem⟩ := hscored signer hsigner
    exact ⟨value, hvalue, (List.mem_filter.mp hmem).1⟩
  · obtain ⟨value, -, hmem⟩ := hscored signer hsigner
    exact hactive signer (of_decide_eq_true (List.mem_filter.mp hmem).2)
  · by_cases hinitialized : input.wasInitialized = true
    · rw [if_pos hinitialized] at hwitness
      refine ⟨_, (not_not.mp hdup).filter _, hwitness ▸ Nat.not_lt.mp henough, fun a ha => ?_⟩
      obtain ⟨hmem, hfresh⟩ := List.mem_filter.mp ha
      rw [if_pos hinitialized]
      exact ⟨hactive a (of_decide_eq_true hfresh), hperm.mem_iff.mp hmem⟩
    · rw [if_neg hinitialized] at hwitness
      refine ⟨_, hfreshNodup.filter _, hwitness ▸ Nat.not_lt.mp henough, fun a ha => ?_⟩
      obtain ⟨hmem, hpositive⟩ := List.mem_filter.mp ha
      obtain ⟨⟨account, value⟩, he, rfl⟩ := List.mem_map.mp (of_decide_eq_true hpositive)
      obtain ⟨hscore, hvalue⟩ := List.mem_filter.mp he
      rw [if_neg hinitialized]
      exact ⟨hactive _ hmem, value, by simpa using hvalue, hscore⟩

end Signer

end Trustgraphs
