import Trustgraphs.OperatorCore.Proofs.JournalProofs

/-!
# Terminal keys

A key that was settled or abandoned, and the records that follow.
-/

namespace Trustgraphs.OperatorCore

open List

def Status.Terminal : Status → Prop
  | .settled _ => True
  | .abandoned .. => True
  | _ => False

namespace Record

def Settles (key : WorkKey) : Record → Prop
  | .settled k _ _ => k = key
  | _ => False

def Abandons (key : WorkKey) : Record → Prop
  | .abandoned k _ _ _ => k = key
  | _ => False

def Frees (key : WorkKey) : Record → Prop
  | .resolved k none _ => k = key
  | _ => False

end Record

/-- As the records are appended one by one, a key that is terminal once is never requested again. -/
def TerminalStays (key : WorkKey) (records : List Record) : Prop :=
  ∀ before later after, records = before ++ later ++ after → ((Journal.mk before).status key).Terminal →
    (later.foldl Journal.append ⟨before⟩).mayRequest key = false

/-- A resolution that finds no request follows a settlement, and the key is not abandoned between them. -/
def Reopened (key : WorkKey) (records : List Record) : Prop :=
  ∃ before settlement middle resolution after, records = before ++ settlement :: middle ++ resolution :: after ∧
      settlement.Settles key ∧ (∀ r ∈ middle, ¬ r.Abandons key) ∧ resolution.Frees key

section

variable {key : WorkKey} {records : List Record} {record : Record} {status : Status}

/-- What a record does to the status of a key: it settles the key, it abandons it, it moves a key that is not
abandoned on, or it leaves the key alone. -/
inductive Applied (key : WorkKey) (record : Record) (status : Status) : Status → Prop
  | settled (outcome : Outcome) (h : record.Settles key) : Applied key record status (.settled outcome)
  | abandoned (failureClass : SubmitFailureClass) (attempts : UInt32) (h : record.Abandons key) :
      Applied key record status (.abandoned failureClass attempts)
  | moved (next : Status) (hnext : ¬ next.Terminal) (hfrees : next = .untouched ↔ record.Frees key)
      (hsettles : ¬ record.Settles key) (habandons : ¬ record.Abandons key) :
      Applied key record status (status.unlessAbandoned next)
  | left (hfrees : ¬ record.Frees key) (hsettles : ¬ record.Settles key) (habandons : ¬ record.Abandons key) :
      Applied key record status status

theorem apply_applied (key : WorkKey) (record : Record) (status : Status) :
    Applied key record status (status.apply key record) := by
  cases record with
  | intent k =>
    rw [Status.apply]
    split
    · exact .moved _ id (by simp [Record.Frees]) id id
    · exact .left id id id
  | requested k =>
    rw [Status.apply]
    split
    · exact .moved _ id (by simp [Record.Frees]) id id
    · exact .left id id id
  | resolved k requestId =>
    cases requestId with
    | none =>
      rw [Status.apply]
      split
      · rename_i hk
        exact .moved _ id (iff_of_true rfl hk) id id
      · rename_i hk
        exact .left hk id id
    | some requestId =>
      rw [Status.apply]
      split
      · exact .moved _ id (by simp [Record.Frees]) id id
      · exact .left id id id
  | settled k =>
    rw [Status.apply]
    split
    · rename_i hk
      exact .settled _ hk
    · rename_i hk
      exact .left id hk id
  | abandoned k =>
    rw [Status.apply]
    split
    · rename_i hk
      exact .abandoned _ _ hk
    · rename_i hk
      exact .left id id hk
  | _ => exact .left id id id

theorem Applied.terminal {next : Status} (h : Applied key record status next) (hnext : next.Terminal) :
    record.Settles key ∨ record.Abandons key ∨ status.Terminal := by
  cases h with
  | settled _ h => exact .inl h
  | abandoned _ _ h => exact .inr (.inl h)
  | moved moved hmoved =>
    rw [Status.unlessAbandoned] at hnext
    split at hnext
    · exact .inr (.inr hnext)
    · exact absurd hnext hmoved
  | left => exact .inr (.inr hnext)

theorem Applied.isAbandoned {next : Status} (h : Applied key record status next) (hnext : next.isAbandoned = true) :
    record.Abandons key ∨ status.isAbandoned = true := by
  cases h with
  | settled => exact absurd hnext (by simp [Status.isAbandoned])
  | abandoned _ _ h => exact .inl h
  | moved moved hmoved =>
    rw [Status.unlessAbandoned] at hnext
    split at hnext
    · exact .inr hnext
    · cases moved with
      | abandoned => exact absurd trivial hmoved
      | _ => exact absurd hnext (by simp [Status.isAbandoned])
  | left => exact .inr hnext

theorem Applied.stays {next : Status} (h : Applied key record status next) (hstatus : status.isAbandoned = true) :
    record.Settles key ∨ next.isAbandoned = true := by
  cases h with
  | settled _ h => exact .inl h
  | abandoned => exact .inr rfl
  | moved =>
    rw [Status.unlessAbandoned, if_pos hstatus]
    exact .inr hstatus
  | left => exact .inr hstatus

theorem Applied.untouched {next : Status} (h : Applied key record status next) (hnext : next = .untouched) :
    status = .untouched ∨ record.Frees key ∧ status.isAbandoned = false := by
  cases h with
  | settled => exact absurd hnext (by simp)
  | abandoned => exact absurd hnext (by simp)
  | moved moved _ hfrees =>
    rw [Status.unlessAbandoned] at hnext
    split at hnext
    · exact .inl hnext
    · rename_i hopen
      exact .inr ⟨hfrees.mp hnext, by simpa using hopen⟩
  | left => exact .inl hnext

theorem apply_of_settles (h : record.Settles key) : ∃ outcome, status.apply key record = .settled outcome := by
  cases record with
  | settled k outcome => exact ⟨outcome, if_pos h⟩
  | _ => exact absurd h id

theorem apply_of_abandons (h : record.Abandons key) : (status.apply key record).isAbandoned = true := by
  cases record with
  | abandoned k =>
    rw [Status.apply, if_pos (show k = key from h)]
    rfl
  | _ => exact absurd h id

theorem apply_of_frees (h : record.Frees key) (hopen : status.isAbandoned = false) :
    status.apply key record = .untouched := by
  cases record with
  | resolved k requestId =>
    cases requestId with
    | none =>
      rw [Status.apply, if_pos (show k = key from h), Status.unlessAbandoned, if_neg (by simp [hopen])]
    | some => exact absurd h id
  | _ => exact absurd h id

theorem status_append (before later : List Record) :
    (Journal.mk (before ++ later)).status key = later.foldl (Status.apply key) ((Journal.mk before).status key) :=
  foldl_append

theorem status_concat (before : List Record) (record : Record) :
    (Journal.mk (before ++ [record])).status key = ((Journal.mk before).status key).apply key record :=
  status_append before [record]

theorem foldl_append_eq (before later : List Record) :
    later.foldl Journal.append ⟨before⟩ = ⟨before ++ later⟩ := by
  induction later generalizing before with
  | nil => rw [foldl_nil, append_nil]
  | cons record later ih =>
    rw [foldl_cons]
    show later.foldl Journal.append ⟨before ++ [record]⟩ = _
    rw [ih, append_assoc]
    rfl

theorem exists_of_terminal (h : ((Journal.mk records).status key).Terminal) :
    ∃ r ∈ records, r.Settles key ∨ r.Abandons key := by
  induction records using List.reverseRecOn with
  | nil => exact absurd h id
  | append_singleton records record ih =>
    rw [status_concat] at h
    rcases (apply_applied key record _).terminal h with hsettles | habandons | hterminal
    · exact ⟨record, mem_append_right _ (mem_singleton_self _), .inl hsettles⟩
    · exact ⟨record, mem_append_right _ (mem_singleton_self _), .inr habandons⟩
    · obtain ⟨r, hr, hrecord⟩ := ih hterminal
      exact ⟨r, mem_append_left _ hr, hrecord⟩

theorem exists_settlement (hended : ∃ r ∈ records, r.Settles key ∨ r.Abandons key)
    (h : ((Journal.mk records).status key).isAbandoned = false) :
    ∃ before settlement later, records = before ++ settlement :: later ∧ settlement.Settles key ∧
      ∀ r ∈ later, ¬ r.Abandons key := by
  induction records using List.reverseRecOn with
  | nil =>
    obtain ⟨r, hr, -⟩ := hended
    exact absurd hr not_mem_nil
  | append_singleton records record ih =>
    by_cases hsettles : record.Settles key
    · exact ⟨records, record, [], rfl, hsettles, fun r hr => absurd hr not_mem_nil⟩
    rw [status_concat] at h
    have happlied := apply_applied key record ((Journal.mk records).status key)
    have habandons : ¬ record.Abandons key := by
      intro habandons
      exact absurd (h.symm.trans (apply_of_abandons habandons)) (by simp)
    have hbefore : ((Journal.mk records).status key).isAbandoned = false := by
      rw [Bool.eq_false_iff]
      intro hstatus
      rcases happlied.stays hstatus with hsettled | hnext
      · exact hsettles hsettled
      · exact absurd (h.symm.trans hnext) (by simp)
    have hended' : ∃ r ∈ records, r.Settles key ∨ r.Abandons key := by
      obtain ⟨r, hr, hr'⟩ := hended
      rcases mem_append.mp hr with hr | hr
      · exact ⟨r, hr, hr'⟩
      · rw [mem_singleton.mp hr] at hr'
        exact absurd hr' (not_or.mpr ⟨hsettles, habandons⟩)
    obtain ⟨before, settlement, later, rfl, hsettlement, hlater⟩ := ih hended' hbefore
    refine ⟨before, settlement, later ++ [record], by simp, hsettlement, fun r hr => ?_⟩
    rcases mem_append.mp hr with hr | hr
    · exact hlater r hr
    · rwa [mem_singleton.mp hr]

theorem exists_freeing (hstatus : status ≠ .untouched) (h : records.foldl (Status.apply key) status = .untouched) :
    ∃ middle resolution later, records = middle ++ resolution :: later ∧ resolution.Frees key ∧
      (middle.foldl (Status.apply key) status).isAbandoned = false := by
  induction records using List.reverseRecOn with
  | nil => exact absurd h hstatus
  | append_singleton records record ih =>
    rw [foldl_append] at h
    rcases (apply_applied key record _).untouched h with hbefore | ⟨hfrees, hopen⟩
    · obtain ⟨middle, resolution, later, rfl, hresolution, hmiddle⟩ := ih hbefore
      exact ⟨middle, resolution, later ++ [record], by simp, hresolution, hmiddle⟩
    · exact ⟨records, record, [], rfl, hfrees, hopen⟩

theorem not_isAbandoned_foldl (h : status.isAbandoned = false) (hrecords : ∀ r ∈ records, ¬ r.Abandons key) :
    (records.foldl (Status.apply key) status).isAbandoned = false := by
  induction records generalizing status with
  | nil => exact h
  | cons record records ih =>
    refine ih ?_ fun r hr => hrecords r (mem_cons_of_mem _ hr)
    rw [Bool.eq_false_iff]
    intro hnext
    rcases (apply_applied key record status).isAbandoned hnext with habandons | hstatus
    · exact hrecords record mem_cons_self habandons
    · exact absurd (h.symm.trans hstatus) (by simp)

end

/-- Terminal keys stay terminal exactly when none is freed behind a settlement. -/
theorem terminalStays_iff (key : WorkKey) (records : List Record) :
    TerminalStays key records ↔ ¬ Reopened key records := by
  constructor
  · rintro hstays ⟨before, settlement, middle, resolution, after, rfl, hsettles, hmiddle, hfrees⟩
    obtain ⟨outcome, hsettled⟩ : ∃ outcome, (Journal.mk (before ++ [settlement])).status key =
        .settled outcome := by
      rw [status_concat]
      exact apply_of_settles hsettles
    have hmay := hstays (before ++ [settlement]) (middle ++ [resolution]) after (by simp)
        (by rw [hsettled]; trivial)
    have hopen : ((Journal.mk (before ++ [settlement] ++ middle)).status key).isAbandoned = false := by
      rw [status_append, hsettled]
      exact not_isAbandoned_foldl rfl hmiddle
    rw [foldl_append_eq, Journal.mayRequest, ← append_assoc, status_concat, apply_of_frees hfrees hopen] at hmay
    exact absurd hmay (by simp)
  · intro hnot before later after hrecords hterminal
    rw [foldl_append_eq, Journal.mayRequest, status_append, decide_eq_false_iff_not]
    intro huntouched
    have hne : (Journal.mk before).status key ≠ .untouched := by
      intro heq
      rw [heq] at hterminal
      exact hterminal
    obtain ⟨middle, resolution, rest, rfl, hfrees, hopen⟩ := exists_freeing hne huntouched
    obtain ⟨r, hr, hended⟩ := exists_of_terminal hterminal
    rw [← status_append] at hopen
    obtain ⟨first, settlement, since, hsplit, hsettles, hsince⟩ :=
      exists_settlement ⟨r, mem_append_left _ hr, hended⟩ hopen
    refine hnot ⟨first, settlement, since, resolution, rest ++ after, ?_, hsettles, hsince, hfrees⟩
    rw [hrecords, ← hsplit]
    simp

namespace TerminalExample

open JournalExample (key)

def records : List Record :=
  [JournalExample.intent, JournalExample.requested, .settled key .landed 200, JournalExample.resolved]

end TerminalExample

open TerminalExample in
/-- A resolution frees a settled key. -/
theorem not_terminalStays : ¬ ∀ key records, TerminalStays key records := by
  intro h
  have hmay := h JournalExample.key records (records.take 3) (records.drop 3) [] rfl trivial
  exact absurd hmay (by decide)

end Trustgraphs.OperatorCore
