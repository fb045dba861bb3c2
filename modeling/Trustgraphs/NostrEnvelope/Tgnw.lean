import Trustgraphs.NostrEnvelope.Event

/-!
# TGNW bundles (`nostr-envelope/src/nostr/tgnw.rs`)

Decoding may fail with an error of the source or abort with a panic: a slice out of range, an `unwrap`
of a conversion that fails, an offset that goes backwards, a vector reserved ahead for more elements than
the allocator grants. Sizes are natural numbers. Copies of parts of the input are never larger than it and
always granted.
-/

namespace Trustgraphs.Nostr

open Text (Str)

namespace Tgnw

abbrev Decode (α : Type) := Except (Abort NostrError) α

def fail {α : Type} (e : NostrError) : Decode α := .error (.error e)

/-- What a vector can be reserved in: the bytes that one allocation may have, at most `isize::MAX`, and the
sizes of `String`, `Vec<String>`, `AuditEntry` and `NostrEvent`. -/
structure Heap where
  room : Nat
  stringSize : Nat
  tagSize : Nat
  auditSize : Nat
  eventSize : Nat

/-- `Vec::with_capacity`: a capacity overflow panics, a refused allocation aborts. -/
def withCapacity (heap : Heap) (size count : Nat) : Decode Unit :=
  if heap.room < size * count then .error .panic else .ok ()

/-- `reserve` on an empty vector, which takes room for four elements at least. -/
def reserve (heap : Heap) (size count : Nat) : Decode Unit :=
  if count = 0 then .ok () else withCapacity heap size (max 4 count)

/-- The input and how much of it is consumed. -/
structure Cursor where
  input : Bytes
  offset : Nat

namespace Cursor

/-- A cursor at the start of an input within the limits. -/
def new (input : Bytes) (limits : NostrLimits) : Decode Cursor :=
  if limits.envelope_bytes.toNat < input.length then fail .limitExceeded
  else .ok ⟨input, 0⟩

/-- `input[start..stop]`, which panics out of range. -/
def slice (input : Bytes) (start stop : Nat) : Decode Bytes :=
  if start ≤ stop ∧ stop ≤ input.length then .ok ((input.drop start).take (stop - start))
  else .error .panic

def take (length : Nat) (c : Cursor) : Decode (Bytes × Cursor) :=
  if 2 ^ 64 ≤ c.offset + length then fail .malformed
  else if c.input.length < c.offset + length then fail .malformed
  else do
    let output ← slice c.input c.offset (c.offset + length)
    .ok (output, { c with offset := c.offset + length })

/-- `take(n)` with its conversion to an array unwrapped. -/
def array (n : Nat) (c : Cursor) : Decode (FixedBytes n × Cursor) := do
  let (output, c) ← c.take n
  let bytes ← Outcome.ofPanic (FixedBytes.ofSlice n output)
  .ok (bytes, c)

def byte (c : Cursor) : Decode (UInt8 × Cursor) := do
  let (output, c) ← c.take 1
  match output with
  | [] => .error .panic
  | b :: _ => .ok (b, c)

def u16 (c : Cursor) : Decode (UInt16 × Cursor) := do
  let (bytes, c) ← c.array 2
  .ok (UInt16.ofNat (ofBeBytes bytes.bytes), c)

def u32 (c : Cursor) : Decode (UInt32 × Cursor) := do
  let (bytes, c) ← c.array 4
  .ok (UInt32.ofNat (ofBeBytes bytes.bytes), c)

def u64 (c : Cursor) : Decode (UInt64 × Cursor) := do
  let (bytes, c) ← c.array 8
  .ok (UInt64.ofNat (ofBeBytes bytes.bytes), c)

def string (maximum : Nat) (c : Cursor) : Decode (Str × Cursor) := do
  let (length, c) ← c.u32
  if maximum < length.toNat then fail .limitExceeded
  else
    let (bytes, c) ← c.take length.toNat
    match Str.fromUtf8 bytes with
    | some s => .ok (s, c)
    | none => fail .malformed

end Cursor

/-- A flag byte and, when it is set, an item. -/
def parseOptional {α : Type} (item : Cursor → Decode (α × Cursor)) (c : Cursor) :
    Decode (Option α × Cursor) := do
  let (flag, c) ← c.byte
  if flag = 0 then .ok (none, c)
  else if flag = 1 then do
    let (a, c) ← item c
    .ok (some a, c)
  else fail .malformed

def parseOptional32 (c : Cursor) : Decode (Option B256 × Cursor) := parseOptional (Cursor.array 32) c

def parseOptionalString (maximum : Nat) (c : Cursor) : Decode (Option Str × Cursor) :=
  parseOptional (Cursor.string maximum) c

/-- A result of another part of the envelope. -/
def check (x : Except NostrError Unit) : Decode Unit := Outcome.ofResult id x

/-- The code of an action, which has to have a name. -/
def parseAction (c : Cursor) : Decode (UInt8 × Cursor) := do
  let (action, c) ← c.byte
  check ((actionName action).map fun _ => ())
  .ok (action, c)

def parseDetail (J : Json) (maximum : Nat) (c : Cursor) : Decode (Str × Cursor) := do
  let (detail, c) ← c.string maximum
  check (requireCanonicalJson J detail)
  .ok (detail, c)

def parseAudit (J : Json) (limits : NostrLimits) (c : Cursor) : Decode (AuditEntry × Cursor) := do
  let (sequence, c) ← c.u64
  let (hash, c) ← c.array 32
  let (previous_hash, c) ← parseOptional32 c
  let (action, c) ← parseAction c
  let (actor_pubkey, c) ← parseOptional32 c
  let (object_id, c) ← parseOptionalString 1024 c
  let (created_at, c) ← c.string 64
  let (detail, c) ← parseDetail J limits.audit_detail_bytes.toNat c
  .ok (⟨sequence, hash, previous_hash, action, actor_pubkey, object_id, created_at, detail⟩, c)

/-- A kind of 16 bits. -/
def parseKind (c : Cursor) : Decode (UInt16 × Cursor) := do
  let (kind, c) ← c.u32
  if 65535 < kind.toNat then fail .malformed
  else .ok (UInt16.ofNat kind.toNat, c)

/-- The elements of a tag, with the running size of all of them. -/
def parseElements (limits : NostrLimits) : Nat → Nat → Cursor → Decode ((List Str × Nat) × Cursor)
  | 0, all_tag_bytes, c => .ok (([], all_tag_bytes), c)
  | n + 1, all_tag_bytes, c => do
    let (element, c) ← c.string limits.tag_string_bytes.toNat
    if 2 ^ 32 ≤ all_tag_bytes + element.bytes.length then fail .limitExceeded
    else if limits.all_tag_strings_bytes.toNat < all_tag_bytes + element.bytes.length then
      fail .limitExceeded
    else
      let ((tag, total), c) ← parseElements limits n (all_tag_bytes + element.bytes.length) c
      .ok ((element :: tag, total), c)

/-- The tags, with the running size of their elements. -/
def parseTags (heap : Heap) (limits : NostrLimits) :
    Nat → Nat → Cursor → Decode ((List (List Str) × Nat) × Cursor)
  | 0, all_tag_bytes, c => .ok (([], all_tag_bytes), c)
  | n + 1, all_tag_bytes, c => do
    let (element_count, c) ← c.u32
    if limits.elements_per_tag < element_count then fail .limitExceeded
    else
      withCapacity heap heap.stringSize element_count.toNat
      let ((tag, total), c) ← parseElements limits element_count.toNat all_tag_bytes c
      let ((tags, total), c) ← parseTags heap limits n total c
      .ok ((tag :: tags, total), c)

/-- The tags of an event, each reserved by the count it announces. -/
def parseTagList (heap : Heap) (limits : NostrLimits) (c : Cursor) : Decode (List (List Str) × Cursor) := do
  let (tag_count, c) ← c.u32
  if limits.tags_per_event < tag_count then fail .limitExceeded
  else
    withCapacity heap heap.tagSize tag_count.toNat
    let ((tags, _), c) ← parseTags heap limits tag_count.toNat 0 c
    .ok (tags, c)

/-- The fields of an event, in the order of the format. -/
def parseEventFields (heap : Heap) (limits : NostrLimits) (c : Cursor) : Decode (NostrEvent × Cursor) := do
  let (id, c) ← c.array 32
  let (pubkey, c) ← c.array 32
  let (created_at, c) ← c.u64
  let (kind, c) ← parseKind c
  let (tags, c) ← parseTagList heap limits c
  let (content, c) ← c.string limits.content_bytes.toNat
  let (sig, c) ← c.take 64
  .ok (⟨id, pubkey, created_at, kind, tags, content, sig⟩, c)

def parseEvent (heap : Heap) (limits : NostrLimits) (c : Cursor) : Decode (NostrEvent × Cursor) := do
  let start := c.offset
  let (event, c) ← parseEventFields heap limits c
  if c.offset < start then .error .panic
  else if limits.encoded_event_bytes.toNat < c.offset - start then fail .limitExceeded
  else .ok (event, c)

def repeated {α : Type} (item : Cursor → Decode (α × Cursor)) : Nat → Cursor → Decode (List α × Cursor)
  | 0, c => .ok ([], c)
  | n + 1, c => do
    let (a, c) ← item c
    let (as, c) ← repeated item n c
    .ok (a :: as, c)

/-- A count, at most `maximum`, and as many items of `size` bytes. -/
def counted {α : Type} (heap : Heap) (size : Nat) (maximum : UInt32)
    (item : Cursor → Decode (α × Cursor)) (c : Cursor) : Decode (List α × Cursor) := do
  let (count, c) ← c.u32
  if maximum < count then fail .limitExceeded
  else
    reserve heap size count.toNat
    repeated item count.toNat c

def parseMagic (c : Cursor) : Decode (Unit × Cursor) := do
  let (magic, c) ← c.take 4
  if magic ≠ utf8 "TGNW" then fail .malformed
  else
    let (version, c) ← c.byte
    if version ≠ 1 then fail .malformed
    else .ok ((), c)

def parseVariant (c : Cursor) : Decode (CommitmentVariant × Cursor) := do
  let (variant, c) ← c.byte
  if variant = 1 then .ok (.buzzAuditV1, c)
  else if variant = 2 then .ok (.selfLogV1, c)
  else fail .unsupportedVariant

def parseFlags (c : Cursor) : Decode (Unit × Cursor) := do
  let (flags, c) ← c.u16
  if flags ≠ 0 then fail .malformed
  else .ok ((), c)

/-- What follows the header, by variant: the audit rows, the events and the head event. -/
def parseBody (heap : Heap) (J : Json) (limits : NostrLimits) (variant : CommitmentVariant) (c : Cursor) :
    Decode ((List AuditEntry × List NostrEvent × Option NostrEvent) × Cursor) :=
  match variant with
  | .buzzAuditV1 => do
    let (audit, c) ← counted heap heap.auditSize limits.audit_entries (parseAudit J limits) c
    let (events, c) ← counted heap heap.eventSize limits.events (parseEvent heap limits) c
    .ok ((audit, events, none), c)
  | .selfLogV1 => do
    let (events, c) ← counted heap heap.eventSize limits.events (parseEvent heap limits) c
    let (head_event, c) ← parseEvent heap limits c
    .ok (([], events, some head_event), c)

/-- Everything up to the end of the input. -/
def parseBundle (heap : Heap) (J : Json) (limits : NostrLimits) (c : Cursor) : Decode (TgnwBundle × Cursor) := do
  let ((), c) ← parseMagic c
  let (variant, c) ← parseVariant c
  let ((), c) ← parseFlags c
  let (community_id, c) ← c.array 16
  let (instance_domain, c) ← c.array 32
  let (authority, c) ← c.array 32
  let ((audit, events, head_event), c) ← parseBody heap J limits variant c
  .ok (⟨variant, community_id, instance_domain, authority, audit, events, head_event⟩, c)

/-- Decode a bundle of exactly the input. -/
def decode (heap : Heap) (J : Json) (input : Bytes) (limits : NostrLimits) : Decode TgnwBundle := do
  let c ← Cursor.new input limits
  let (bundle, c) ← parseBundle heap J limits c
  if c.offset ≠ input.length then fail .trailingBytes
  else .ok bundle

/-! ## Encoding -/

def pushU32 (value : Nat) : Except NostrError Bytes :=
  if value < 2 ^ 32 then .ok (beBytes 4 value) else .error .limitExceeded

def pushString (value : Str) : Except NostrError Bytes := do
  let length ← pushU32 value.bytes.length
  .ok (length ++ value.bytes)

def encodeOptional32 : Option B256 → Bytes
  | some value => 1 :: value.bytes
  | none => [0]

def encodeAll {α : Type} (item : α → Except NostrError Bytes) : List α → Except NostrError Bytes
  | [] => .ok []
  | a :: as => do
    let head ← item a
    let tail ← encodeAll item as
    .ok (head ++ tail)

def encodeCounted {α : Type} (item : α → Except NostrError Bytes) (as : List α) : Except NostrError Bytes := do
  let count ← pushU32 as.length
  let items ← encodeAll item as
  .ok (count ++ items)

def encodeOptionalString : Option Str → Except NostrError Bytes
  | some object_id => do
    let text ← pushString object_id
    .ok (1 :: text)
  | none => .ok [0]

def encodeAudit (entry : AuditEntry) : Except NostrError Bytes := do
  let object_id ← encodeOptionalString entry.object_id
  let created_at ← pushString entry.created_at
  let detail ← pushString entry.detail
  .ok (beBytes 8 entry.sequence.toNat ++ entry.hash.bytes ++ encodeOptional32 entry.previous_hash ++
    [entry.action] ++ encodeOptional32 entry.actor_pubkey ++ object_id ++ created_at ++ detail)

def encodeEvent (event : NostrEvent) : Except NostrError Bytes := do
  let tags ← encodeCounted (encodeCounted pushString) event.tags
  let content ← pushString event.content
  .ok (event.id.bytes ++ event.pubkey.bytes ++ beBytes 8 event.created_at.toNat ++
    beBytes 4 event.kind.toNat ++ tags ++ content ++ event.sig)

def encode (bundle : TgnwBundle) : Except NostrError Bytes := do
  let header := utf8 "TGNW" ++ [1, bundle.variant.toUInt8] ++ beBytes 2 0 ++
    bundle.community_id.bytes ++ bundle.instance_domain.bytes ++ bundle.authority.bytes
  match bundle.variant with
  | .buzzAuditV1 =>
    if bundle.head_event.isSome then .error .malformed
    else
      let audit ← encodeCounted encodeAudit bundle.audit
      let events ← encodeCounted encodeEvent bundle.events
      .ok (header ++ audit ++ events)
  | .selfLogV1 =>
    if bundle.audit ≠ [] then .error .malformed
    else
      let events ← encodeCounted encodeEvent bundle.events
      match bundle.head_event with
      | none => .error .malformed
      | some head_event =>
        let head_event ← encodeEvent head_event
        .ok (header ++ events ++ head_event)

end Tgnw

end Trustgraphs.Nostr
