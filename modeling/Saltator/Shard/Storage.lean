import Saltator.Lib.Codec
import Saltator.Shard.Context

/-!
# The state machine over the storage engine

A shard's bookkeeping (the last entry applied, the membership, the sequence counter, the current
snapshot) lies in cells of one runtime table, next to the application tables. A batch of log entries
is applied in one write. A snapshot holds the application rows and the bookkeeping.
-/

namespace Saltator.Shard.Storage

open Saltator.Outcome

/-! ## What is stored -/

/-- A membership, and the entry that set it. -/
structure StoredMembership where
  logId : Option LogId
  membership : Membership
  deriving DecidableEq

def StoredMembership.default : StoredMembership := ⟨none, ⟨[], []⟩⟩

/-- What the receiver of a snapshot is told about it. -/
structure SnapshotMeta where
  lastLogId : Option LogId
  lastMembership : StoredMembership
  snapshotId : String
  deriving DecidableEq

/-- Every application table of the shard, and the runtime's bookkeeping. The keys of `kv` are the
table and the key in it. -/
structure SnapshotContent where
  lastApplied : Option LogId
  membership : StoredMembership
  seq : Nat
  kv : List (Bytes × Bytes)
  deriving DecidableEq

structure StoredSnapshot where
  metadata : SnapshotMeta
  data : Bytes
  deriving DecidableEq

/-- What the serializer and the consensus library contribute: the formats of numbers, strings,
options and sequences, and of the types that they own; the texts of errors and of leaders. -/
structure Format where
  u32 : Codec Nat
  u64 : Codec Nat
  string : Codec String
  bytes : Codec Bytes
  option {α : Type} : Codec α → Codec (Option α)
  list {α : Type} : Codec α → Codec (List α)
  logId : Codec LogId
  storedMembership : Codec StoredMembership
  snapshotMeta : Codec SnapshotMeta
  /-- The command to migrate to a version. -/
  migrate : Codec Nat
  runtimeResponse : Codec RuntimeResponse
  decodeError : Bytes → String
  encodeError : String
  leader : LogId → String

namespace Format

variable (fmt : Format)

def rows : Codec (List (Bytes × Bytes)) := fmt.list (fmt.bytes.pair fmt.bytes)

/-- The fields in the order in which the structure declares them. -/
def snapshotContent : Codec SnapshotContent :=
  ((fmt.option fmt.logId).pair (fmt.storedMembership.pair (fmt.u64.pair fmt.rows))).via
    (fun c => (c.lastApplied, c.membership, c.seq, c.kv))
    (fun (lastApplied, membership, seq, kv) => some ⟨lastApplied, membership, seq, kv⟩)
    fun _ => rfl

def storedSnapshot : Codec StoredSnapshot :=
  (fmt.snapshotMeta.pair fmt.bytes).via (fun s => (s.metadata, s.data))
    (fun (metadata, data) => some ⟨metadata, data⟩) fun _ => rfl

def compact : Format :=
  let logId : Codec LogId := (Codec.u64.pair (Codec.u64.pair Codec.u64)).via
    (fun l => (l.term, l.nodeId, l.index)) (fun (term, nodeId, index) => some ⟨term, nodeId, index⟩)
    fun _ => rfl
  let membership : Codec Membership :=
    (Codec.u64.list.list.pair (Codec.u64.pair Codec.string).list).via
      (fun m => (m.configs, m.nodes)) (fun (configs, nodes) => some ⟨configs, nodes⟩) fun _ => rfl
  let storedMembership : Codec StoredMembership := (logId.option.pair membership).via
    (fun m => (m.logId, m.membership)) (fun (logId, membership) => some ⟨logId, membership⟩)
    fun _ => rfl
  { u32 := Codec.u32
    u64 := Codec.u64
    string := Codec.string
    bytes := Codec.bytes
    option := Codec.option
    list := Codec.list
    logId := logId
    storedMembership := storedMembership
    snapshotMeta := (logId.option.pair (storedMembership.pair Codec.string)).via
      (fun m => (m.lastLogId, m.lastMembership, m.snapshotId))
      (fun (lastLogId, lastMembership, snapshotId) => some ⟨lastLogId, lastMembership, snapshotId⟩)
      fun _ => rfl
    migrate := (Codec.byte.pair Codec.u32).via (fun target => (0, target))
      (fun (variant, target) => if variant = 0 then some target else none) fun _ => rfl
    runtimeResponse := Codec.string.option.via (fun
        | .ok => none
        | .rejected reason => some reason)
      (fun
        | none => some .ok
        | some reason => some (.rejected reason))
      fun r => by cases r <;> rfl
    decodeError := fun _ => "deserialization failed"
    encodeError := "serialization failed"
    leader := fun l => toString l.term ++ "-" ++ toString l.nodeId }

end Format

/-- A storage error of the consensus library. -/
inductive StorageError where
  | read (reason : String)
  | write (reason : String)
  deriving DecidableEq, Repr

/-! ## Tables and cells -/

def tRaft : UInt8 := 1

def tSmMeta : UInt8 := 2

def tSchema : AppTable := ⟨appTableMin, by decide, by decide⟩

def utf8 (s : String) : Bytes := s.toUTF8.data.toList

/-- The low bytes of a number, the highest first. -/
def bigEndian : Nat → Nat → Bytes
  | 0, _ => []
  | width + 1, n => bigEndian width (n / 256) ++ [UInt8.ofNat n]

def kCommitted : Bytes := utf8 "committed"

def kLastPurged : Bytes := utf8 "last_purged"

def kLastApplied : Bytes := utf8 "last_applied"

def kMembership : Bytes := utf8 "membership"

def kSnapshot : Bytes := utf8 "snapshot"

def kSnapshotSeq : Bytes := utf8 "snapshot_seq"

def kSeq : Bytes := utf8 "seq"

def kSchemaVersion : Bytes := utf8 "version"

def runtimeCmdPrefix : UInt8 := 0xff

def smMetaKey (shard : ShardId) (k : Bytes) : Key := key shard tSmMeta k

section Cells

variable {α : Type} (fmt : Format) (shard : ShardId) (e : Engine)

def encode (c : Codec α) (a : α) : Except StorageError Bytes :=
  match c.encode a with
  | some b => .ok b
  | none => .error (.write fmt.encodeError)

def decode (c : Codec α) (b : Bytes) : Except StorageError α :=
  match c.fromBytes b with
  | some a => .ok a
  | none => .error (.read (fmt.decodeError b))

variable {fmt} in
theorem encode_eq_ok {c : Codec α} {a : α} {b : Bytes} : encode fmt c a = .ok b ↔ c.encode a = some b := by
  rw [encode]
  cases c.encode a <;> simp

variable {fmt} in
theorem decode_eq_ok {c : Codec α} {a : α} {b : Bytes} :
    decode fmt c b = .ok a ↔ c.fromBytes b = some a := by
  rw [decode]
  cases c.fromBytes b <;> simp

def getSmMeta (c : Codec α) (k : Bytes) : Except StorageError (Option α) :=
  match e[smMetaKey shard k]? with
  | some b => return some (← decode fmt c b)
  | none => .ok none

def lastApplied : Except StorageError (Option LogId) := do
  return (← getSmMeta fmt shard e (fmt.option fmt.logId) kLastApplied).join

/-- Current per-shard sequence number, 0 before anything was emitted. -/
def seq : Except StorageError Nat := do
  return (← getSmMeta fmt shard e fmt.u64 kSeq).getD 0

def membership : Except StorageError StoredMembership := do
  return (← getSmMeta fmt shard e fmt.storedMembership kMembership).getD .default

def nextSnapshotSeq : Except StorageError (Nat × Engine) := do
  let seq := (← getSmMeta fmt shard e fmt.u64 kSnapshotSeq).getD 0 + 1
  return (seq, e.insert (smMetaKey shard kSnapshotSeq) (← encode fmt fmt.u64 seq))

end Cells

/-! ## Applying -/

/-- What a log entry carries. -/
inductive EntryPayload where
  | blank
  | normal (cmd : Bytes)
  | membership (m : Membership)
  deriving DecidableEq

structure Entry where
  logId : LogId
  payload : EntryPayload
  deriving DecidableEq

section Apply

variable (fmt : Format) (app : Interpreter) (shard : ShardId)

def respond (r : RuntimeResponse) : Action Bytes :=
  match fmt.runtimeResponse.encode r with
  | some b => pure b
  | none => .fail (.engine ("runtime resp: " ++ fmt.encodeError))

def storedSchemaVersion : Action Nat := do
  match ← Action.get tSchema kSchemaVersion with
  | none => return 1
  | some b =>
    match fmt.u32.fromBytes b with
    | some version => return version
    | none => .fail (.engine ("schema cell: " ++ fmt.decodeError b))

/-- Apply a runtime-owned command. What is a decision is a response, so that a stale proposal does
not wedge the shard; a failed migration discards the batch. -/
def applyRuntime (cmd : Bytes) : Action Bytes := do
  match fmt.migrate.fromBytes cmd with
  | none => respond fmt (.rejected ("undecodable: " ++ fmt.decodeError cmd))
  | some target =>
    let current ← storedSchemaVersion fmt
    if target ≠ current + 1 then
      respond fmt (.rejected ("migration step must be v" ++ toString current ++ " -> v" ++
        toString (current + 1) ++ ", requested v" ++ toString target))
    else if app.schemaVersion < target then
      respond fmt (.rejected ("this binary only knows schema v" ++ toString app.schemaVersion))
    else do
      app.migrate target
      match fmt.u32.encode target with
      | none => .fail (.engine ("schema cell: " ++ fmt.encodeError))
      | some enc =>
        Action.put tSchema kSchemaVersion enc
        respond fmt .ok

/-- A batch that is being applied. -/
structure Applying where
  ctx : ApplyCtx
  last : Option LogId
  responses : List Bytes

def command : Bytes → Action Bytes
  | [] => app.apply []
  | b :: rest => if b = runtimeCmdPrefix then applyRuntime fmt app rest else app.apply (b :: rest)

def applyEntry (b : Applying) (entry : Entry) : Except StorageError Applying :=
  let b := { b with last := some entry.logId }
  match entry.payload with
  | .blank => .ok { b with responses := b.responses ++ [[]] }
  | .normal cmd => do
    let (response, ctx) ← ((command fmt app cmd).run b.ctx).mapError fun e => .write e.text
    return { b with ctx := ctx, responses := b.responses ++ [response] }
  | .membership m => do
    let enc ← encode fmt fmt.storedMembership ⟨some entry.logId, m⟩
    let wb := b.ctx.wb ++ [.put (smMetaKey shard kMembership) enc]
    return { b with ctx := { b.ctx with wb := wb }, responses := b.responses ++ [[]] }

/-- What one call to apply leaves: the engine, and what it published and answered. -/
structure Applied where
  engine : Engine
  emits : List (Nat × Bytes)
  responses : List Bytes

def putCell {α : Type} (c : Codec α) (k : Bytes) (a : α) : Except StorageError WriteBatch := do
  return [.put (smMetaKey shard k) (← encode fmt c a)]

def bookkeeping (last : Option LogId) (seq0 seq : Nat) : Except StorageError WriteBatch := do
  let applied ← last.elim (.ok []) fun l =>
    putCell fmt shard (fmt.option fmt.logId) kLastApplied (some l)
  let counter ← (if seq = seq0 then .ok [] else putCell fmt shard fmt.u64 kSeq seq)
  return applied ++ counter

/-- Apply a batch of committed entries: their writes and the bookkeeping land in one write, and only
then is anything published. -/
def apply (e : Engine) (entries : List Entry) : Except StorageError Applied := do
  let seq0 ← seq fmt shard e
  let b ← entries.foldlM (applyEntry fmt app shard) ⟨⟨shard, e, [], seq0, []⟩, none, []⟩
  let bookkeeping ← bookkeeping fmt shard b.last seq0 b.ctx.seq
  return ⟨e.writeBatch (b.ctx.wb ++ bookkeeping), b.ctx.emits, b.responses⟩

def applyLog : Engine → List (List Entry) → Except StorageError Applied
  | e, [] => .ok ⟨e, [], []⟩
  | e, batch :: batches => do
    let first ← apply fmt app shard e batch
    let rest ← applyLog first.engine batches
    return ⟨rest.engine, first.emits ++ rest.emits, first.responses ++ rest.responses⟩

end Apply

/-! ## Snapshots -/

section Snapshots

variable (fmt : Format) (shard : ShardId)

structure Snapshot where
  metadata : SnapshotMeta
  data : Bytes
  deriving DecidableEq

def appRows (e : Engine) : List (Bytes × Bytes) :=
  (e.range (appBounds shard).1 (appBounds shard).2).map fun (k, v) => (k.rest, v)

def snapshotId (lastApplied : Option LogId) (snapSeq : Nat) : String :=
  match lastApplied with
  | some l => fmt.leader l ++ "-" ++ toString l.index ++ "-" ++ toString snapSeq
  | none => "none-" ++ toString snapSeq

def storeNumbered (e : Engine) (content : SnapshotContent) (data : Bytes) (snapSeq : Nat) :
    Except StorageError (Snapshot × Engine) := do
  let metadata := ⟨content.lastApplied, content.membership, snapshotId fmt content.lastApplied snapSeq⟩
  let stored ← encode fmt fmt.storedSnapshot ⟨metadata, data⟩
  return (⟨metadata, data⟩, e.insert (smMetaKey shard kSnapshot) stored)

def storeContent (e : Engine) (content : SnapshotContent) :
    Except StorageError (Snapshot × Engine) := do
  let data ← encode fmt fmt.snapshotContent content
  let (snapSeq, e) ← nextSnapshotSeq fmt shard e
  storeNumbered fmt shard e content data snapSeq

/-- The bookkeeping and the rows, as the engine holds them. -/
def readContent (e : Engine) : Except StorageError SnapshotContent := do
  let lastApplied ← lastApplied fmt shard e
  let membership ← membership fmt shard e
  let seq ← seq fmt shard e
  return ⟨lastApplied, membership, seq, appRows shard e⟩

def buildSnapshot (e : Engine) : Except StorageError (Snapshot × Engine) := do
  storeContent fmt shard e (← readContent fmt shard e)

def replaceRows (kv : List (Bytes × Bytes)) : WriteBatch :=
  .deleteRange (appBounds shard).1 (appBounds shard).2 :: kv.map fun (k, v) => .put (rekey shard k) v

def installSnapshot (e : Engine) (snapshot : Snapshot) : Except StorageError Engine := do
  let content ← decode fmt fmt.snapshotContent snapshot.data
  let seq ← encode fmt fmt.u64 content.seq
  let lastApplied ← encode fmt (fmt.option fmt.logId) snapshot.metadata.lastLogId
  let membership ← encode fmt fmt.storedMembership snapshot.metadata.lastMembership
  let stored ← encode fmt fmt.storedSnapshot ⟨snapshot.metadata, snapshot.data⟩
  return e.writeBatch (replaceRows shard content.kv ++ [.put (smMetaKey shard kSeq) seq,
      .put (smMetaKey shard kLastApplied) lastApplied,
      .put (smMetaKey shard kMembership) membership,
      .put (smMetaKey shard kSnapshot) stored])

def getCurrentSnapshot (e : Engine) : Except StorageError (Option Snapshot) := do
  return (← getSmMeta fmt shard e fmt.storedSnapshot kSnapshot).map fun s => ⟨s.metadata, s.data⟩

end Snapshots

end Saltator.Shard.Storage
