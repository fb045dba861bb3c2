import Trustgraphs.Lib.Outcome
import Trustgraphs.OperatorCore.Journal

/-!
# What a replayed journal has seen

Whatever appends, failed appends and crashes have left of a file, if it is replayed at all then the
records are those whose texts are complete in it, in their order (`replay_chunks`).
-/

namespace Trustgraphs.OperatorCore

open JsonText List

section Replayed

variable {fromStr : Bytes → Option Record} {key : WorkKey} {record intent : Record} {records : List Record}

section Texts

variable {P : Bytes → Prop}

/-- What holds of the texts that are put together holds of every field. -/
theorem Record.forall_fields (hquote : ∀ s, P (quote s)) (hnumber : ∀ n, P (Text.decimal n))
    (hword : ∀ s ∈ ["true", "false", "null"], P (utf8 s))
    (harray : ∀ items : List Bytes, (∀ item ∈ items, P item) → P (array items))
    (hobject : ∀ fields : List (Bytes × Bytes), (∀ f ∈ fields, P f.2) → P (object fields)) :
    ∀ f ∈ (utf8 "kind", Json.string record.kind) :: record.fields, P f.2 := by
  have hkey : ∀ key : WorkKey, P key.toJson := fun key => hobject _ fun f hf => by
    simp only [mem_cons, not_mem_nil, or_false] at hf
    rcases hf with rfl | rfl | rfl
    · exact hnumber _
    · exact hquote _
    · exact hnumber _
  have hclass : ∀ failureClass : SubmitFailureClass, P failureClass.toJson := fun failureClass => by
    cases failureClass <;> exact hquote _
  have houtcome : ∀ outcome : Outcome, P outcome.toJson := fun outcome => by
    cases outcome <;> exact hquote _
  have hbool : ∀ b : Bool, P (Json.bool b) := fun b => by
    cases b
    · exact hword _ (by simp)
    · exact hword _ (by simp)
  have hdecimal : ∀ n, P (Json.number n) := hnumber
  have hbytes : ∀ h : B256, P (Json.hash h) := fun h => hquote _
  have hnull : P (utf8 "null") := hword _ (by simp)
  have hhash : ∀ id : Option B256, P (Json.option Json.hash id) := fun id => by
    cases id
    · exact hnull
    · exact hquote _
  have hid : ∀ id : Option UInt64, P (Json.option (fun id : UInt64 => Json.number id.toNat) id) := fun id => by
    cases id
    · exact hnull
    · exact hnumber _
  have hstrings : ∀ l : List Text.Str, P (array (l.map fun failure => quote failure.bytes)) :=
    fun l => harray _ fun item hitem => by
      obtain ⟨s, -, rfl⟩ := mem_map.mp hitem
      exact hquote _
  refine forall_mem_cons.mpr ⟨hquote _, ?_⟩
  cases record
  all_goals
    simp only [Record.fields, forall_mem_cons]
    simp only [hkey, hclass, houtcome, hbool, hhash, hid, hstrings, hquote _, hdecimal, hbytes, true_and]
    exact fun f hf => nomatch hf

end Texts

theorem literal_plain : ∀ s ∈ ["true", "false", "null"], ∀ b ∈ utf8 s,
    b ∉ [34, 123, 91, 125, 93] ∧ 32 ≤ b.toNat := by
  decide +kernel

theorem Record.whole_toJson (record : Record) : Whole record.toJson := by
  have hinner := @Record.forall_fields record _ inner_quote inner_decimal
    (fun s hs => inner_plain fun b hb => (literal_plain s hs b hb).1)
    (fun items => inner_array) (fun fields => inner_object)
  exact whole_object hinner (by decide) fun d => rfl

theorem Record.printable_toJson (record : Record) : Printable record.toJson :=
  printable_object (@Record.forall_fields record _ printable_quote
    printable_decimal
    (fun s hs b hb => (literal_plain s hs b hb).2) (fun _ => printable_array)
    (fun _ => printable_object))

/-- The line of a record, of which so many bytes were written. -/
structure Chunk where
  record : Record
  bytes : ℕ

namespace Chunk

variable {c : Chunk} {chunks parts : List Chunk}

def text (c : Chunk) : Bytes := c.record.line.take c.bytes

/-- The text of the record is there, with or without the end of the line. -/
def Complete (c : Chunk) : Prop := c.record.toJson.length ≤ c.bytes

instance (c : Chunk) : Decidable c.Complete := inferInstanceAs (Decidable (_ ≤ _))

def ofLine (record : Record) : Chunk := ⟨record, record.line.length⟩

theorem text_ofLine (record : Record) : (ofLine record).text = record.line := take_length

def texts (chunks : List Chunk) : Bytes := (chunks.map text).flatten

def complete (chunks : List Chunk) : List Record :=
  (chunks.filter fun c => decide c.Complete).map Chunk.record

theorem texts_append (chunks more : List Chunk) : texts (chunks ++ more) = texts chunks ++ texts more := by
  rw [texts, map_append, flatten_append]
  rfl

theorem complete_append (chunks more : List Chunk) :
    complete (chunks ++ more) = complete chunks ++ complete more := by
  rw [complete, filter_append, map_append]
  rfl

theorem complete_cons (h : c.Complete) (chunks : List Chunk) :
    complete (c :: chunks) = c.record :: complete chunks := by
  simp [complete, h]

theorem complete_cons_of_not (h : ¬ c.Complete) (chunks : List Chunk) :
    complete (c :: chunks) = complete chunks := by
  simp [complete, h]

theorem complete_ofLine (record : Record) : complete [ofLine record] = [record] := by
  have h : (ofLine record).Complete := by
    show record.toJson.length ≤ (record.toJson ++ [10]).length
    rw [length_append]
    exact Nat.le_add_right ..
  exact complete_cons h []

theorem mem_complete (h : record ∈ complete chunks) : ∃ c ∈ chunks, c.record = record := by
  obtain ⟨c, hc, rfl⟩ := mem_map.mp h
  exact ⟨c, (mem_filter.mp hc).1, rfl⟩

theorem texts_concat_ofLine (chunks : List Chunk) (record : Record) :
    texts (chunks ++ [ofLine record]) = texts chunks ++ record.line := by
  rw [texts_append]
  refine congrArg (texts chunks ++ ·) ?_
  show (ofLine record).text ++ [] = record.line
  rw [append_nil, text_ofLine]

/-- Some of the text of the record, without the end of the line. -/
def Begun (c : Chunk) : Prop := 0 < c.bytes ∧ c.bytes ≤ c.record.toJson.length

theorem Begun.text_eq (h : c.Begun) : c.text = c.record.toJson.take c.bytes := by
  rw [text, Record.line, take_append_of_le_length h.2]

theorem Begun.part (h : c.Begun) : Part c.text := by
  have hwhole := c.record.whole_toJson
  refine ⟨fun hnil => ?_, c.record.toJson, hwhole, h.text_eq ▸ take_prefix ..⟩
  have hlength := congrArg List.length hnil
  rw [h.text_eq, length_take, length_nil] at hlength
  have h1 := h.1
  have h2 := h.2
  omega

theorem Begun.printable (h : c.Begun) : Printable c.text := fun b hb =>
  c.record.printable_toJson b (mem_of_mem_take (h.text_eq ▸ hb))

theorem exists_texts_eq (h : ∀ c ∈ parts, c.Begun) (hne : parts ≠ []) : ∃ rest, texts parts = 123 :: rest := by
  obtain ⟨c, parts, rfl⟩ := exists_cons_of_ne_nil hne
  have hc := h c mem_cons_self
  obtain ⟨b, rest, hhead, -⟩ := c.record.whole_toJson.head
  have hpos : c.bytes = c.bytes - 1 + 1 := by have := hc.1; omega
  refine ⟨(34 :: b :: rest).take (c.bytes - 1) ++ texts parts, ?_⟩
  show c.text ++ texts parts = _
  rw [hc.text_eq, hhead, hpos, take_succ_cons]
  rfl

theorem exists_of_closed (h : ∀ c ∈ parts, c.Begun) (hclosed : Closed (texts parts)) :
    ∃ c, parts = [c] ∧ c.Complete ∧ texts parts = c.record.toJson := by
  have hparts : ∀ p ∈ parts.map text, Part p := by
    intro p hp
    obtain ⟨c, hc, rfl⟩ := mem_map.mp hp
    exact (h c hc).part
  rcases parts with - | ⟨first, - | ⟨second, parts⟩⟩
  · exact absurd hclosed (by decide)
  · have hfirst := h first mem_cons_self
    have htext : texts [first] = first.record.toJson.take first.bytes := by
      show first.text ++ [] = _
      rw [append_nil, hfirst.text_eq]
    refine ⟨first, rfl, ?_⟩
    by_cases hcomplete : first.Complete
    · refine ⟨hcomplete, htext.trans (take_of_length_le hcomplete)⟩
    · refine absurd hclosed (first.record.whole_toJson.not_closed_of_torn (htext ▸ take_prefix ..) fun heq => ?_)
      have hlength := congrArg List.length (htext.symm.trans heq)
      rw [length_take] at hlength
      exact hcomplete (show first.record.toJson.length ≤ first.bytes by omega)
  · obtain ⟨hfirst, hparts⟩ := forall_mem_cons.mp hparts
    obtain ⟨hsecond, hparts⟩ := forall_mem_cons.mp hparts
    refine absurd ?_ (not_closed_flatten hfirst hsecond hparts)
    rwa [append_assoc]

theorem exists_take_texts (chunks : List Chunk) (n : ℕ) :
    ∃ less, (texts chunks).take n = texts less ∧ ∀ c ∈ less, ∃ c' ∈ chunks, c.record = c'.record := by
  induction chunks generalizing n with
  | nil => exact ⟨[], take_nil, fun c hc => nomatch hc⟩
  | cons c chunks ih =>
    obtain ⟨less, htexts, hless⟩ := ih (n - c.text.length)
    refine ⟨⟨c.record, min n c.bytes⟩ :: less, ?_, fun d hd => ?_⟩
    · show (c.text ++ texts chunks).take n = text ⟨c.record, min n c.bytes⟩ ++ texts less
      rw [take_append, htexts]
      refine congrArg (· ++ texts less) ?_
      rw [text, text, take_take]
    · rcases mem_cons.mp hd with rfl | hd
      · exact ⟨c, mem_cons_self, rfl⟩
      · obtain ⟨c', hc', heq⟩ := hless d hd
        exact ⟨c', mem_cons_of_mem c hc', heq⟩

end Chunk

theorem lines_append {begun p : Bytes} (h : Printable p) (rest : Bytes) :
    lines begun (p ++ rest) = lines (begun ++ p) rest := by
  induction p generalizing begun with
  | nil => rw [nil_append, append_nil]
  | cons b p ih =>
    have hb : b ≠ 10 := fun heq => absurd (h b mem_cons_self) (heq ▸ by decide)
    rw [cons_append, lines, if_neg hb, ih fun c hc => h c (mem_cons_of_mem b hc), append_assoc]
    rfl

theorem stripCarriageReturn_eq {line init : Bytes} (h : line = init ++ [125]) :
    stripCarriageReturn line = line := by
  have hlast : line.getLast? = some 125 := by rw [h, getLast?_append]; rfl
  rw [stripCarriageReturn, hlast, if_neg (by decide)]

theorem lines_line (begun : Bytes) (record : Record) (rest : Bytes) :
    lines begun (record.line ++ rest) = (begun ++ record.toJson) :: lines [] rest := by
  obtain ⟨init, hlast⟩ := record.whole_toJson.last
  have hstrip : stripCarriageReturn (begun ++ record.toJson) = begun ++ record.toJson :=
    stripCarriageReturn_eq (show begun ++ record.toJson = (begun ++ init) ++ [125] by rw [hlast, append_assoc])
  rw [Record.line, append_assoc, lines_append record.printable_toJson]
  show stripCarriageReturn (begun ++ record.toJson) :: lines [] rest = _
  rw [hstrip]

theorem isBlank_bracket (rest : Bytes) : isBlank (123 :: rest) = false := rfl

/-- What the JSON library does for the journal. It reads what it has written of these records, and it reads no text
but that of one value. -/
structure Reads (fromStr : Bytes → Option Record) (written : Record → Prop) : Prop where
  read : ∀ record, written record → fromStr record.toJson = some record
  closed : ∀ text record, fromStr text = some record → Closed text

variable {written : Record → Prop}

open Chunk in
theorem replay_line (hreads : Reads fromStr written) {parts : List Chunk} (hparts : ∀ c ∈ parts, c.Begun)
    (hwritten : ∀ c ∈ parts, written c.record) (hne : parts ≠ []) {i : ℕ} {rest : List Bytes}
    (h : replay fromStr i (texts parts :: rest) = .ok records) :
    ∃ later, replay fromStr (i + 1) rest = .ok later ∧ records = complete parts ++ later := by
  obtain ⟨tail, hhead⟩ := exists_texts_eq hparts hne
  rw [replay, Outcome.ite_error_eq_ok, hhead, isBlank_bracket, if_neg Bool.false_ne_true, ← hhead] at h
  obtain ⟨-, h⟩ := h
  cases hread : fromStr (texts parts) with
  | none => rw [hread] at h; exact nomatch h
  | some record =>
    rw [hread] at h
    obtain ⟨later, hlater, hok⟩ := Outcome.of_bind h
    obtain ⟨c, rfl, hcomplete, htexts⟩ := exists_of_closed hparts (hreads.closed _ _ hread)
    rw [htexts, hreads.read _ (hwritten c mem_cons_self)] at hread
    refine ⟨later, hlater, ?_⟩
    rw [complete_cons hcomplete []]
    exact (Except.ok.inj hok).symm.trans (congrArg (· :: later) (Option.some.inj hread).symm)

open Chunk in
/-- A file that replays has the records whose texts are complete in it. The line that is being read consists of
`parts`, which is what keeps the texts of two records on one line apart from the text of one. -/
theorem replay_chunks (hreads : Reads fromStr written) {parts chunks : List Chunk}
    (hparts : ∀ c ∈ parts, c.Begun) (hwritten : ∀ c ∈ parts ++ chunks, written c.record) {i : ℕ}
    (h : replay fromStr i (lines (texts parts) (texts chunks)) = .ok records) :
    records = complete (parts ++ chunks) := by
  induction chunks generalizing parts i records with
  | nil =>
    rcases eq_or_ne parts [] with rfl | hne
    · exact (Except.ok.inj h).symm
    · obtain ⟨tail, hhead⟩ := exists_texts_eq hparts hne
      have hlines : lines (texts parts) (texts []) = [texts parts] := by
        show (if texts parts = [] then [] else [texts parts]) = _
        rw [if_neg (by rw [hhead]; simp)]
      rw [hlines] at h
      rw [append_nil] at hwritten ⊢
      obtain ⟨later, hlater, rfl⟩ := replay_line hreads hparts hwritten hne h
      rw [← Except.ok.inj hlater, append_nil]
  | cons c chunks ih =>
    have hbytes : texts (c :: chunks) = c.text ++ texts chunks := rfl
    rcases Nat.eq_zero_or_pos c.bytes with hzero | hpos
    · -- nothing was written of this line
      have htext : c.text = [] := by rw [text, hzero, take_zero]
      have hnot : ¬ c.Complete := by
        obtain ⟨b, rest, hhead, -⟩ := c.record.whole_toJson.head
        show ¬ c.record.toJson.length ≤ c.bytes
        rw [hhead, hzero]
        exact Nat.not_succ_le_zero _
      rw [hbytes, htext, nil_append] at h
      rw [complete_append, complete_cons_of_not hnot, ← complete_append]
      refine ih hparts (fun d hd => hwritten d ?_) h
      rcases mem_append.mp hd with hd | hd
      · exact mem_append_left _ hd
      · exact mem_append_right _ (mem_cons_of_mem c hd)
    · by_cases hbegun : c.bytes ≤ c.record.toJson.length
      · -- the line goes on
        have hc : c.Begun := ⟨hpos, hbegun⟩
        have htexts : texts parts ++ c.text = texts (parts ++ [c]) := by
          rw [texts_append]
          show _ = texts parts ++ (c.text ++ [])
          rw [append_nil]
        rw [hbytes, lines_append hc.printable, htexts] at h
        rw [← singleton_append, ← append_assoc] at hwritten ⊢
        refine ih (fun d hd => ?_) hwritten h
        rcases mem_append.mp hd with hd | hd
        · exact hparts d hd
        · exact mem_singleton.mp hd ▸ hc
      · -- the line ends, and it is the line of this record only
        have hfull : (⟨c.record, c.record.toJson.length⟩ : Chunk).Complete := le_refl c.record.toJson.length
        have hcomplete : c.Complete := show c.record.toJson.length ≤ c.bytes by omega
        obtain ⟨b, rest, hhead, -⟩ := c.record.whole_toJson.head
        have hc : (⟨c.record, c.record.toJson.length⟩ : Chunk).Begun := by
          refine ⟨?_, le_rfl⟩
          show 0 < c.record.toJson.length
          rw [hhead]
          exact Nat.succ_pos _
        have hline : c.text = c.record.line :=
          take_of_length_le (show (c.record.toJson ++ [10]).length ≤ c.bytes by
            rw [length_append, length_singleton]
            omega)
        have htexts : texts parts ++ c.record.toJson = texts (parts ++ [⟨c.record, c.record.toJson.length⟩]) := by
          rw [texts_append]
          show _ = texts parts ++ (text ⟨c.record, c.record.toJson.length⟩ ++ [])
          rw [append_nil, hc.text_eq, take_length]
        rw [hbytes, hline, lines_line, htexts] at h
        have hparts' : ∀ d ∈ parts ++ [⟨c.record, c.record.toJson.length⟩], d.Begun := by
          intro d hd
          rcases mem_append.mp hd with hd | hd
          · exact hparts d hd
          · exact mem_singleton.mp hd ▸ hc
        have hwritten' : ∀ d ∈ parts ++ [⟨c.record, c.record.toJson.length⟩], written d.record := by
          intro d hd
          rcases mem_append.mp hd with hd | hd
          · exact hwritten d (mem_append_left _ hd)
          · rw [mem_singleton.mp hd]
            exact hwritten c (mem_append_right _ mem_cons_self)
        obtain ⟨later, hlater, rfl⟩ := replay_line hreads hparts' hwritten' (by simp) h
        have hrest := @ih later [] (fun d hd => nomatch hd)
          (fun d hd => hwritten d (mem_append_right _ (mem_cons_of_mem c hd))) _ hlater
        rw [hrest, complete_append, complete_append parts (c :: chunks), complete_cons hfull,
          complete_cons hcomplete,
          append_assoc]
        rfl

theorem records_of_openFile (hreads : Reads fromStr written) {chunks : List Chunk}
    (hwritten : ∀ c ∈ chunks, written c.record) {journal : Journal}
    (h : Journal.openFile fromStr (Chunk.texts chunks) = .ok journal) :
      journal.records = Chunk.complete chunks := by
  obtain ⟨records, hreplay, hok⟩ := Outcome.of_bind h
  rw [← Except.ok.inj hok]
  exact @replay_chunks _ _ _ hreads [] _ (fun c hc => nomatch hc) hwritten 0 hreplay

/-- The records that say something about the request for a key. -/
def Record.Decides (key : WorkKey) : Record → Prop
  | .intent k _ _ _ _ _ _ _ _ => k = key
  | .requested k _ _ => k = key
  | .settled k _ _ => k = key
  | .resolved k _ _ => k = key
  | .abandoned k _ _ _ => k = key
  | _ => False

def Record.IsIntent (key : WorkKey) : Record → Prop
  | .intent k _ _ _ _ _ _ _ _ => k = key
  | _ => False

variable {status : Status}

theorem unlessAbandoned_ne {next : Status} (h : next ≠ .untouched) : status.unlessAbandoned next ≠ .untouched := by
  rw [Status.unlessAbandoned]
  split
  · rename_i habandoned
    rintro rfl
    exact absurd habandoned (by decide)
  · exact h

theorem apply_intent_ne (h : record.IsIntent key) : status.apply key record ≠ .untouched := by
  cases record with
  | intent k =>
    obtain rfl : k = key := h
    rw [Status.apply, if_pos rfl]
    exact unlessAbandoned_ne (by simp)
  | _ => exact absurd h id

theorem apply_eq_untouched (h : status.apply key record = .untouched) :
    (status = .untouched ∧ ¬ record.Decides key) ∨ ∃ time, record = .resolved key none time := by
  cases record with
  | intent k =>
    by_cases hk : k = key
    · rw [Status.apply, if_pos hk] at h
      exact absurd h (unlessAbandoned_ne (by simp))
    · rw [Status.apply, if_neg hk] at h
      exact .inl ⟨h, hk⟩
  | requested k =>
    by_cases hk : k = key
    · rw [Status.apply, if_pos hk] at h
      exact absurd h (unlessAbandoned_ne (by simp))
    · rw [Status.apply, if_neg hk] at h
      exact .inl ⟨h, hk⟩
  | resolved k requestId time =>
    by_cases hk : k = key
    · cases requestId with
      | none => exact .inr ⟨time, by rw [hk]⟩
      | some id =>
        rw [Status.apply, if_pos hk] at h
        exact absurd h (unlessAbandoned_ne (by simp))
    · refine .inl ⟨?_, hk⟩
      cases requestId with
      | none => rwa [Status.apply, if_neg hk] at h
      | some id => rwa [Status.apply, if_neg hk] at h
  | settled k =>
    by_cases hk : k = key
    · rw [Status.apply, if_pos hk] at h
      exact absurd h (by simp)
    · rw [Status.apply, if_neg hk] at h
      exact .inl ⟨h, hk⟩
  | abandoned k =>
    by_cases hk : k = key
    · rw [Status.apply, if_pos hk] at h
      exact absurd h (by simp)
    · rw [Status.apply, if_neg hk] at h
      exact .inl ⟨h, hk⟩
  | _ => exact .inl ⟨h, id⟩

theorem exists_resolved (hstatus : status ≠ .untouched) (h : records.foldl (Status.apply key) status = .untouched) :
    ∃ middle later time, records = middle ++ .resolved key none time :: later ∧ ∀ r ∈ later, ¬ r.Decides key := by
  induction records using List.reverseRecOn with
  | nil => exact absurd h hstatus
  | append_singleton records record ih =>
    rw [foldl_append] at h
    rcases apply_eq_untouched h with ⟨hbefore, hrecord⟩ | ⟨time, rfl⟩
    · obtain ⟨middle, later, time, rfl, hlater⟩ := ih hbefore
      refine ⟨middle, later ++ [record], time, ?_, fun r hr => ?_⟩
      · rw [append_assoc]
        rfl
      · rcases mem_append.mp hr with hr | hr
        · exact hlater r hr
        · rwa [mem_singleton.mp hr]
    · exact ⟨records, [], time, rfl, fun r hr => nomatch hr⟩

namespace World

variable {w : World} {event : Event} {base : List Chunk} {after : Record → Prop} {journal : Journal}

def Event.writes : Event → List Record
  | .append record => [record]
  | .appendFails record _ => [record]
  | _ => []

def writes (events : List Event) : List Record := events.flatMap Event.writes

/-- Behind what `base` left of the file are records of `after` only. -/
def FileSince (w : World) (base : List Chunk) (after : Record → Prop) : Prop :=
  ∃ synced unsynced, w.synced = Chunk.texts (base ++ synced) ∧ w.written = Chunk.texts unsynced ∧
    ∀ c ∈ synced ++ unsynced, after c.record

theorem FileSince.step (h : FileSince w base after) (hevent : ∀ record ∈ event.writes, after record) :
    FileSince (step fromStr w event) base after := by
  obtain ⟨synced, unsynced, hsynced, hunsynced, hafter⟩ := h
  cases event with
  | start => exact ⟨synced, unsynced, hsynced, hunsynced, hafter⟩
  | append record =>
    cases hjournal : w.journal with
    | none =>
      rw [World.step, hjournal]
      exact ⟨synced, unsynced, hsynced, hunsynced, hafter⟩
    | some journal =>
      rw [World.step, hjournal]
      refine ⟨synced ++ unsynced ++ [.ofLine record], [], ?_, rfl, fun c hc => ?_⟩
      · show w.synced ++ w.written ++ record.line = _
        rw [← append_assoc, ← append_assoc, Chunk.texts_concat_ofLine, Chunk.texts_append (base ++ synced),
          ← hsynced, ← hunsynced]
      · rw [append_nil] at hc
        rcases mem_append.mp hc with hc | hc
        · exact hafter c hc
        · rw [mem_singleton.mp hc]
          exact hevent record mem_cons_self
  | appendFails record bytes =>
    cases hjournal : w.journal with
    | none =>
      rw [World.step, hjournal]
      exact ⟨synced, unsynced, hsynced, hunsynced, hafter⟩
    | some journal =>
      rw [World.step, hjournal]
      refine ⟨synced, unsynced ++ [⟨record, bytes⟩], hsynced, ?_, fun c hc => ?_⟩
      · show w.written ++ record.line.take bytes = _
        rw [hunsynced, Chunk.texts_append]
        refine congrArg _ ?_
        show record.line.take bytes = record.line.take bytes ++ []
        rw [append_nil]
      · rw [← append_assoc] at hc
        rcases mem_append.mp hc with hc | hc
        · exact hafter c hc
        · rw [mem_singleton.mp hc]
          exact hevent record mem_cons_self
  | crash bytes =>
    obtain ⟨less, htake, hless⟩ := Chunk.exists_take_texts unsynced bytes
    refine ⟨synced ++ less, [], ?_, rfl, fun c hc => ?_⟩
    · show w.synced ++ w.written.take bytes = _
      rw [hsynced, hunsynced, htake, ← append_assoc, Chunk.texts_append (base ++ synced)]
    · rw [append_nil] at hc
      rcases mem_append.mp hc with hc | hc
      · exact hafter c (mem_append_left _ hc)
      · obtain ⟨d, hd, heq⟩ := hless c hc
        rw [heq]
        exact hafter d (mem_append_right _ hd)

/-- Behind the intent, a journal has records of `after` only. -/
def JournalSince (w : World) (intent : Record) (after : Record → Prop) : Prop :=
  ∀ journal, w.journal = some journal →
    ∃ earlier later, journal.records = earlier ++ intent :: later ∧ ∀ record ∈ later, after record

theorem JournalSince.step (h : JournalSince w intent after) (hfile : FileSince w (base ++ [.ofLine intent]) after)
    (hreads : Reads fromStr written) (hbase : ∀ c ∈ base, written c.record) (hintent : written intent)
    (hafter : ∀ record, after record → written record) (hevent : ∀ record ∈ event.writes, after record) :
    JournalSince (step fromStr w event) intent after := by
  intro journal hjournal
  cases event with
  | start =>
    -- the file has the whole line of the intent, and behind it what was written since
    obtain ⟨synced, unsynced, hsynced, hunsynced, hmem⟩ := hfile
    have hopen : Journal.openFile fromStr (w.synced ++ w.written) = .ok journal :=
      Outcome.toOption_eq_some.mp hjournal
    rw [hsynced, hunsynced, ← Chunk.texts_append, append_assoc, append_assoc] at hopen
    have hrecords := records_of_openFile hreads (fun c hc => ?_) hopen
    · rw [Chunk.complete_append, Chunk.complete_append, Chunk.complete_ofLine] at hrecords
      refine ⟨_, _, hrecords, fun record hrecord => ?_⟩
      obtain ⟨c, hc, rfl⟩ := Chunk.mem_complete hrecord
      exact hmem c hc
    · rcases mem_append.mp hc with hc | hc
      · exact hbase c hc
      · rcases mem_append.mp hc with hc | hc
        · rw [mem_singleton.mp hc]
          exact hintent
        · exact hafter _ (hmem c hc)
  | append record =>
    cases hold : w.journal with
    | none =>
      rw [World.step, hold] at hjournal
      exact absurd (hold.symm.trans hjournal) (by simp)
    | some old =>
      rw [World.step, hold] at hjournal
      obtain rfl : old.append record = journal := Option.some.inj hjournal
      obtain ⟨earlier, later, hrecords, hlater⟩ := h old hold
      refine ⟨earlier, later ++ [record], ?_, fun r hr => ?_⟩
      · show old.records ++ [record] = _
        rw [hrecords, append_assoc]
        rfl
      · rcases mem_append.mp hr with hr | hr
        · exact hlater r hr
        · rw [mem_singleton.mp hr]
          exact hevent record mem_cons_self
  | appendFails record bytes =>
    cases hold : w.journal with
    | none =>
      rw [World.step, hold] at hjournal
      exact absurd (hold.symm.trans hjournal) (by simp)
    | some old =>
      rw [World.step, hold] at hjournal
      exact h journal (hold.trans hjournal)
  | crash bytes => exact nomatch hjournal

theorem run_append (events more : List Event) :
    run fromStr (events ++ more) = more.foldl (step fromStr) (run fromStr events) :=
  foldl_append

theorem mem_writes_append {events more : List Event} :
    record ∈ writes (events ++ more) ↔ record ∈ writes events ∨ record ∈ writes more := by
  rw [writes, flatMap_append, mem_append]
  rfl

theorem FileSince.foldl {events : List Event} (h : FileSince w base after)
    (hevents : ∀ record ∈ writes events, after record) :
      FileSince (events.foldl (World.step fromStr) w) base after := by
  induction events generalizing w with
  | nil => exact h
  | cons event events ih =>
    refine ih (h.step fun record hrecord => hevents record ?_) fun record hrecord => hevents record ?_
    · exact mem_append_left _ hrecord
    · exact mem_append_right _ hrecord

theorem fileSince_run (events : List Event) : FileSince (run fromStr events) [] (· ∈ writes events) :=
  FileSince.foldl ⟨[], [], rfl, rfl, fun _ hc => nomatch hc⟩ fun _ h => h

theorem JournalSince.foldl {events : List Event} (h : JournalSince w intent after)
    (hfile : FileSince w (base ++ [.ofLine intent]) after) (hreads : Reads fromStr written)
    (hbase : ∀ c ∈ base, written c.record) (hintent : written intent)
    (hafter : ∀ record, after record → written record) (hevents : ∀ record ∈ writes events, after record) :
    JournalSince (events.foldl (World.step fromStr) w) intent after := by
  induction events generalizing w with
  | nil => exact h
  | cons event events ih =>
    have hevent : ∀ record ∈ event.writes, after record := fun record hrecord =>
      hevents record (mem_append_left _ hrecord)
    exact ih (h.step hfile hreads hbase hintent hafter hevent) (hfile.step hevent) fun record hrecord =>
      hevents record (mem_append_right _ hrecord)

theorem journalSince_run {events₁ events₂ : List Event}
    (hreads : Reads fromStr (· ∈ writes (events₁ ++ .append intent :: events₂)))
    (hrunning : (run fromStr events₁).journal.isSome = true) :
    JournalSince (run fromStr (events₁ ++ .append intent :: events₂)) intent (· ∈ writes events₂) := by
  obtain ⟨old, hold⟩ := Option.isSome_iff_exists.mp hrunning
  obtain ⟨synced, unsynced, hsynced, hunsynced, hmem⟩ := fileSince_run events₁
  have hstep : step fromStr (run fromStr events₁) (.append intent) =
      ⟨(run fromStr events₁).synced ++ (run fromStr events₁).written ++ intent.line, [],
        some (old.append intent)⟩ := by
    rw [step, hold]
  rw [run_append, foldl_cons, hstep]
  refine @JournalSince.foldl _ _ _ _ (synced ++ unsynced) _ _ ?_ ?_ hreads (fun c hc => ?_) ?_
    (fun record h => ?_) fun _ h => h
  · intro journal hjournal
    obtain rfl : old.append intent = journal := Option.some.inj hjournal
    exact ⟨old.records, [], rfl, fun record h => nomatch h⟩
  · refine ⟨[], [], ?_, rfl, fun c hc => nomatch hc⟩
    show (run fromStr events₁).synced ++ (run fromStr events₁).written ++ intent.line = _
    rw [hsynced, hunsynced, append_nil, nil_append, ← Chunk.texts_append, Chunk.texts_concat_ofLine]
  · exact mem_writes_append.mpr (.inl (hmem c hc))
  · exact mem_writes_append.mpr (.inr mem_cons_self)
  · exact mem_writes_append.mpr (.inr (mem_cons_of_mem _ h))

/-- Once a process has appended an intent for a key, no journal that is replayed later, whatever has crashed or
failed in between, lets the key be requested, unless a record that was written after the intent says that nothing
was requested, and it is the last that decides about the key. -/
theorem run_mayRequest {events₁ events₂ : List Event} (hintent : intent.IsIntent key)
    (hreads : Reads fromStr (· ∈ writes (events₁ ++ .append intent :: events₂)))
    (hrunning : (run fromStr events₁).journal.isSome = true)
    (hjournal : (run fromStr (events₁ ++ .append intent :: events₂)).journal = some journal)
    (hmay : journal.mayRequest key = true) :
    ∃ earlier middle later time,
      journal.records = earlier ++ intent :: middle ++ .resolved key none time :: later ∧
        (∀ r ∈ later, ¬ r.Decides key) ∧ .resolved key none time ∈ writes events₂ := by
  obtain ⟨earlier, rest, hrecords, hrest⟩ := journalSince_run hreads hrunning journal hjournal
  have hstatus : journal.status key = .untouched := of_decide_eq_true hmay
  rw [Journal.status, hrecords, foldl_append, foldl_cons] at hstatus
  obtain ⟨middle, later, time, rfl, hlater⟩ := exists_resolved (apply_intent_ne hintent) hstatus
  refine ⟨earlier, middle, later, time, ?_, hlater, hrest _ (mem_append_right _ mem_cons_self)⟩
  rw [hrecords, append_assoc]
  rfl

end World

end Replayed

namespace JournalExample

def key : WorkKey := ⟨31337, .ofNat 32 1, 0⟩

def intent : Record := .intent key (.ofNat 32 2) (.ofNat 32 3) 100 400 1 7 100 17

def requested : Record := .requested key (.ofNat 32 4) 101

def resolved : Record := .resolved key none 400

def fromStr (text : Bytes) : Option Record := [intent, requested, resolved].find? (·.toJson = text)

def later : List World.Event := [.appendFails requested 30, .crash 0, .start, .append resolved, .crash 0, .start]

theorem replays : (∀ record ∈ [intent, requested, resolved], fromStr record.toJson = some record) ∧
    (World.run fromStr ([.start] ++ .append intent :: later)).journal = some ⟨[intent, resolved]⟩ ∧
    (World.run fromStr [.start]).journal.isSome = true ∧
    (Journal.mk [intent, resolved]).mayRequest key = true := by
  decide +kernel

theorem reads : Reads fromStr (· ∈ [intent, requested, resolved]) where
  read := replays.1
  closed := by
    intro text record h
    have htext := of_decide_eq_true (find?_some (p := fun r : Record => decide (r.toJson = text)) h)
    exact htext ▸ record.whole_toJson.closed

end JournalExample

open JournalExample in
/-- A key that was resolved after its intent is free again. -/
theorem World.run_mayRequest_resolved : ∃ earlier middle later' time,
      [intent, resolved] = earlier ++ intent :: middle ++ Record.resolved JournalExample.key none time :: later' ∧
        (∀ r ∈ later', ¬ r.Decides JournalExample.key) ∧
          .resolved JournalExample.key none time ∈ World.writes JournalExample.later := by
  have hwrites : World.writes ([.start] ++ .append intent :: later) = [intent, requested, resolved] := rfl
  obtain ⟨-, hjournal, hrunning, hmay⟩ := replays
  refine World.run_mayRequest (show intent.IsIntent JournalExample.key from rfl) ?_ hrunning hjournal hmay
  rw [hwrites]
  exact reads

end Trustgraphs.OperatorCore
