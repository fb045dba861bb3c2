import Trustgraphs.Envelopes.Commit

/-!
# PLC audit logs (`envelopes/src/atproto/plc.rs`)

Operations certify themselves: the DID is the hash of the genesis operation, every operation names its
predecessor and is signed by one of the predecessor's rotation keys.
-/

namespace Trustgraphs.Atproto

def RECOVERY_WINDOW_SECS : UInt64 := 72 * 3600

/-- A log entry as the directory hands it over. -/
structure PlcOpWitness where
  opBytes : Bytes
  /-- As the directory attests it. -/
  createdAt : UInt64
  /-- As the directory attests it. -/
  nullified : Bool

structure VerifiedIdentity where
  atprotoKey : Multikey
  /-- The key of the previous tip. -/
  provisionalPrevKey : Option Multikey
  tipCreatedAt : UInt64

/-- A decoded operation. -/
structure Op where
  typ : Bytes
  prev : Option Bytes
  rotationKeys : List Bytes
  atprotoKey : Option Bytes
  sigB64 : Bytes
  /-- The operation without its signature. -/
  unsignedBytes : Bytes
  /-- The CID of the signed operation, which `prev` refers to. -/
  cidStr : Bytes
  fullHash : B256

inductive PlcError where
  | empty
  | notDidPlc
  | opDecode
  | opNotMap
  | missingType
  | badPrev
  | missingSig
  | missingRotationKeys
  | reencode
  | notCanonical
  | genesisHasPrev
  | genesisHash
  | badBase64 (c : UInt8)
  | sigLength (len : Nat)
  | noRotationKey
  | missingPrev
  | prevNotFound (op : Nat)
  | forksPast (op cursor : Nat)
  | branchReachedGenesis
  | branchPrevMissing
  | equalPriority (op : Nat)
  | outsideWindow (op : Nat)
  | tombstoned
  | noAtprotoKey
  | badAtprotoKey
deriving DecidableEq

abbrev PlcM (α : Type) := Except (Abort PlcError) α

def refuse {α : Type} (e : PlcError) : PlcM α := .error (.error e)

def ipldStr (m : List (Bytes × Ipld)) (key : Bytes) : Option Bytes := (Ipld.get m key).bind asString

/-- The predecessor that an operation names. -/
def decodePrev (m : List (Bytes × Ipld)) : PlcM (Option Bytes) :=
  match Ipld.get m (utf8 "prev") with
  | some (.string s) => .ok (some s)
  | some .null | none => .ok none
  | some _ => refuse .badPrev

/-- The rotation keys; a legacy operation has two keys of other names. -/
def decodeRotationKeys (m : List (Bytes × Ipld)) (typ : Bytes) : PlcM (List Bytes) :=
  match Ipld.get m (utf8 "rotationKeys") with
  | some (.list l) => .ok (l.filterMap asString)
  | _ =>
    if typ = utf8 "create" then
      .ok ((ipldStr m (utf8 "recoveryKey")).toList ++ (ipldStr m (utf8 "signingKey")).toList)
    else if typ = utf8 "plc_tombstone" then .ok []
    else refuse .missingRotationKeys

def decodeAtprotoKey (m : List (Bytes × Ipld)) (typ : Bytes) : Option Bytes :=
  match Ipld.get m (utf8 "verificationMethods") with
  | some (.map vm) => ipldStr vm (utf8 "atproto")
  | _ => if typ = utf8 "create" then ipldStr m (utf8 "signingKey") else none

/-- Decode an operation. Its bytes have to be canonical. -/
def decodeOp (H : Hashes) (D : Dagcbor) (bytes : Bytes) : PlcM Op :=
  match D.fromSlice bytes with
  | none => refuse .opDecode
  | some (.map m) =>
    match ipldStr m (utf8 "type") with
    | none => refuse .missingType
    | some typ => do
      let prev ← decodePrev m
      match ipldStr m (utf8 "sig") with
      | none => refuse .missingSig
      | some sigB64 =>
        let rotationKeys ← decodeRotationKeys m typ
        match D.toVec (.map (unsigned m)), D.toVec (.map m) with
        | some unsignedBytes, some full =>
          if full ≠ bytes then refuse .notCanonical
          else .ok ⟨typ, prev, rotationKeys, decodeAtprotoKey m typ, sigB64, unsignedBytes,
            cidV1Dagcbor (H.sha256 bytes), H.sha256 bytes⟩
        | _, _ => refuse .reencode
  | some _ => refuse .opNotMap

def b64Value (c : UInt8) : Option UInt32 :=
  if 65 ≤ c ∧ c ≤ 90 then some (c - 65).toUInt32
  else if 97 ≤ c ∧ c ≤ 122 then some (c - 97 + 26).toUInt32
  else if 48 ≤ c ∧ c ≤ 57 then some (c - 48 + 52).toUInt32
  else if c = 45 then some 62
  else if c = 95 then some 63
  else none

/-- One character of `b64urlDecode`: the accumulator, its bits and the bytes so far. -/
def b64Step (st : UInt32 × Nat × Bytes) (c : UInt8) : PlcM (UInt32 × Nat × Bytes) :=
  match b64Value c with
  | none => refuse (.badBase64 c)
  | some v =>
    let acc := (st.1 <<< 6) ||| v
    let bits := st.2.1 + 6
    if bits ≥ 8 then .ok (acc, bits - 8, st.2.2 ++ [(acc >>> UInt32.ofNat (bits - 8)).toUInt8])
    else .ok (acc, bits, st.2.2)

/-- Decode base64url without padding; padding at the end is dropped. -/
def b64urlDecode (s : Bytes) : PlcM Bytes := do
  let (_, _, out) ← (s.reverse.dropWhile (· == 61)).reverse.foldlM b64Step (0, 0, [])
  .ok out

def base32Lower (data : Bytes) : Bytes := base32LowerNopad data

section

variable (H : Hashes) (D : Dagcbor) (V : Ecdsa) (base58Decode : Bytes → Option Bytes)

/-- Whether one key verifies a signature. A high `s` is accepted here. -/
def keyVerifies (unsignedBytes sig key : Bytes) : Bool :=
  match parseMultikey base58Decode key with
  | none => false
  | some mk =>
    V.keyOk mk.curve mk.key && V.sigOk mk.curve sig &&
      V.verifyPrehash mk.curve mk.key sig (H.sha256 unsignedBytes)

/-- The index of the first key that verifies an operation. -/
def verifyOpSig (keys : List Bytes) (unsignedBytes sigB64 : Bytes) : PlcM Nat := do
  let sig ← b64urlDecode sigB64
  if sig.length ≠ 64 then refuse (.sigLength sig.length)
  else
    match keys.findIdx? (keyVerifies H V base58Decode unsignedBytes sig) with
    | some i => .ok i
    | none => refuse .noRotationKey

/-- The state between two entries of the audit log. -/
structure Chain where
  cidToIdx : BTreeMap Bytes Nat
  tip : Nat
  prevTip : Option Nat

/-- Walk the branch that a fork abandons, from the tip back to the fork point: its first operation.
Every step goes to a predecessor, so a walk of more steps than there are operations never ends. -/
def abandoned (ops : List PlcOpWitness) (decoded : List Op) (cidToIdx : BTreeMap Bytes Nat)
    (op predIdx : Nat) : (fuel cursor : Nat) → Option Nat → PlcM (Option Nat)
  | 0, _, _ => .error .panic
  | fuel + 1, cursor, branchFirst =>
    if cursor = predIdx then .ok branchFirst
    else
      match ops[cursor]?, decoded[cursor]? with
      | some w, some o =>
        if ¬ w.nullified ∧ cursor ≠ 0 then refuse (.forksPast op cursor)
        else
          match o.prev with
          | none => refuse .branchReachedGenesis
          | some cPrev =>
            match cidToIdx[cPrev]? with
            | none => refuse .branchPrevMissing
            | some next => abandoned ops decoded cidToIdx op predIdx fuel next (some cursor)
      | _, _ => .error .panic

/-- A fork needs a key of higher priority than the branch it abandons, and has to be in time. -/
def checkFork (ops : List PlcOpWitness) (decoded : List Op) (pred : Op) (i signerPriority : Nat)
    (w : PlcOpWitness) (branchFirst : Option Nat) : PlcM Unit :=
  match branchFirst with
  | none => .ok ()
  | some bf =>
    match ops[bf]?, decoded[bf]? with
    | some bw, some bop =>
      let outranked : Bool :=
        match verifyOpSig H V base58Decode pred.rotationKeys bop.unsignedBytes bop.sigB64 with
        | .ok branchSigPriority => decide (signerPriority < branchSigPriority)
        | .error _ => true
      if ¬ outranked then refuse (.equalPriority i)
      else if w.createdAt.toNat - bw.createdAt.toNat > RECOVERY_WINDOW_SECS.toNat then
        refuse (.outsideWindow i)
      else .ok ()
    | _, _ => .error .panic

/-- One entry: its signature, and the branch that it abandons. -/
def stepOp (ops : List PlcOpWitness) (decoded : List Op) (st : Chain)
    (entry : (Op × PlcOpWitness) × Nat) : PlcM Chain :=
  let ((op, w), i) := entry
  match op.prev with
  | none => refuse .missingPrev
  | some prevCid =>
    match st.cidToIdx[prevCid]? with
    | none => refuse (.prevNotFound i)
    | some predIdx =>
      match decoded[predIdx]? with
      | none => .error .panic
      | some pred => do
        let signerPriority ← verifyOpSig H V base58Decode pred.rotationKeys op.unsignedBytes op.sigB64
        if w.nullified then .ok { st with cidToIdx := st.cidToIdx.insert op.cidStr i }
        else if predIdx ≠ st.tip then
          let branchFirst ← abandoned ops decoded st.cidToIdx i predIdx (decoded.length + 1) st.tip none
          checkFork H V base58Decode ops decoded pred i signerPriority w branchFirst
          .ok ⟨st.cidToIdx.insert op.cidStr i, i, some predIdx⟩
        else .ok ⟨st.cidToIdx.insert op.cidStr i, i, some st.tip⟩

/-- What the tip says of the identity. -/
def identityAt (ops : List PlcOpWitness) (decoded : List Op) (st : Chain) : PlcM VerifiedIdentity :=
  match decoded[st.tip]?, ops[st.tip]? with
  | some tipOp, some tipWitness =>
    if tipOp.typ = utf8 "plc_tombstone" then refuse .tombstoned
    else
      match tipOp.atprotoKey with
      | none => refuse .noAtprotoKey
      | some key =>
        match parseMultikey base58Decode key with
        | none => refuse .badAtprotoKey
        | some atprotoKey =>
          let previous := (st.prevTip.bind fun p => decoded[p]?).bind fun o => o.atprotoKey
          .ok ⟨atprotoKey, previous.bind (parseMultikey base58Decode), tipWitness.createdAt⟩
  | _, _ => .error .panic

/-- Verify an audit log and return the identity at its tip. -/
def verifyChain (did : Bytes) (ops : List PlcOpWitness) : PlcM VerifiedIdentity :=
  if ops.isEmpty then refuse .empty
  else
    match Text.stripPrefix (utf8 "did:plc:") did with
    | none => refuse .notDidPlc
    | some suffix => do
      let decoded ← ops.mapM fun w => decodeOp H D w.opBytes
      match decoded with
      | [] => .error .panic
      | genesis :: rest =>
        if genesis.prev.isSome then refuse .genesisHasPrev
        else if (base32Lower genesis.fullHash.bytes).take 24 ≠ suffix then refuse .genesisHash
        else
          let _ ← verifyOpSig H V base58Decode genesis.rotationKeys genesis.unsignedBytes genesis.sigB64
          let start : Chain := ⟨(∅ : BTreeMap Bytes Nat).insert genesis.cidStr 0, 0, none⟩
          let st ← ((rest.zip ops.tail).zipIdx 1).foldlM (stepOp H V base58Decode ops decoded) start
          identityAt base58Decode ops decoded st

end

end Trustgraphs.Atproto
