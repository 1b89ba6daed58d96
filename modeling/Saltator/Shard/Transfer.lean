import Saltator.Shard.Storage

/-!
# Whole-shard transfer

A replica that joins a shard is seeded with the applied state of another one, so that it boots like a
node that crashed right after it installed a snapshot. The payload is built from a checkpoint of the
engine, and the stored record is written as the state machine's own snapshots are.
-/

namespace Saltator.Shard

namespace Transfer

open Saltator.Outcome
open Storage

/-- A shard's full applied state at one log position. -/
structure TransferSnapshot where
  lastApplied : Option LogId
  membership : StoredMembership
  seq : Nat
  /-- The keys are the table and the key in it. -/
  kv : List (Bytes × Bytes)
  deriving DecidableEq

/-- The two engines of a node. -/
structure Stores where
  log : Engine
  state : Engine

section Build

variable (fmt : Format) (shard : ShardId)

/-- The fields in the order in which the structure declares them. -/
def transferSnapshot : Codec TransferSnapshot :=
  ((fmt.option fmt.logId).pair (fmt.storedMembership.pair (fmt.u64.pair fmt.rows))).via
    (fun c => (c.lastApplied, c.membership, c.seq, c.kv))
    (fun (lastApplied, membership, seq, kv) => some ⟨lastApplied, membership, seq, kv⟩)
    fun _ => rfl

variable {α : Type}

def write (c : Codec α) (a : α) : Except ShardError Bytes :=
  match c.encode a with
  | some b => .ok b
  | none => .error (.storage fmt.encodeError)

def getMeta (c : Codec α) (e : Engine) (k : Bytes) : Except ShardError (Option α) :=
  match e[smMetaKey shard k]? with
  | some b =>
    match c.fromBytes b with
    | some a => .ok (some a)
    | none => .error (.storage (fmt.decodeError b))
  | none => .ok none

def isPristine (e : Engine) : Except ShardError Bool := do
  let applied ← getMeta fmt shard (fmt.option fmt.logId) e kLastApplied
  return applied.join.isNone

def build (e : Engine) : Except ShardError TransferSnapshot := do
  let lastApplied ← getMeta fmt shard (fmt.option fmt.logId) e kLastApplied
  let membership ← getMeta fmt shard fmt.storedMembership e kMembership
  let seq ← getMeta fmt shard fmt.u64 e kSeq
  return ⟨lastApplied.join, membership.getD .default, seq.getD 0, appRows shard e⟩

/-- Install a payload into a pristine shard's stores: the state first, and then the purge marker of
the log. -/
def install (stores : Stores) (snap : TransferSnapshot) : Except ShardError Stores := do
  if !(← isPristine fmt shard stores.state) then
    .error (.storage (shard.text ++ ": refusing transfer install into a non-pristine store"))
  else match snap.lastApplied with
    | none => .error (.storage (shard.text ++ ": transfer snapshot carries no log position"))
    | some last => do
      let data ← write fmt (transferSnapshot fmt) snap
      let metadata := ⟨snap.lastApplied, snap.membership,
        "transfer-" ++ fmt.leader last ++ "-" ++ toString last.index⟩
      let seq ← write fmt fmt.u64 snap.seq
      let applied ← write fmt (fmt.option fmt.logId) snap.lastApplied
      let membership ← write fmt fmt.storedMembership snap.membership
      let stored ← write fmt fmt.storedSnapshot ⟨metadata, data⟩
      let state := stores.state.writeBatch (replaceRows shard snap.kv ++
        [.put (smMetaKey shard kSeq) seq,
          .put (smMetaKey shard kLastApplied) applied,
          .put (smMetaKey shard kMembership) membership,
          .put (smMetaKey shard kSnapshot) stored])
      let log := stores.log.writeBatch
        [.put (key shard tRaft kLastPurged) applied, .put (key shard tRaft kCommitted) applied]
      return ⟨log, state⟩

end Build

end Transfer

end Saltator.Shard
