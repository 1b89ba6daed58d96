import Saltator.Lib.Ordered
import Saltator.Shard.Machine

/-!
# The metadata group

A key-value store whose changes are published and journaled from schema 2 on.
-/

namespace Saltator.Cluster

open Std
open Shard (Bytes ShardApp)

inductive MetaCommand where
  | set (key : String) (value : Bytes)
  | delete (key : String)
  deriving DecidableEq

structure MetaResponse where
  /-- The value that the key had, if any. -/
  previous : Option Bytes
  deriving DecidableEq

/-- The key that a command touched. -/
structure MetaChange where
  key : String
  deriving DecidableEq

/-- A storage fault. -/
inductive MetaFault where
  | engine (reason : String)
  deriving DecidableEq

structure MetaStore where
  /-- `T_KV` -/
  kv : OrdMap String Bytes
  /-- `T_CHANGES`: the change journal, by sequence number. -/
  changes : OrdMap Nat MetaChange
  /-- The shard's sequence counter. -/
  seq : Nat
  /-- What was published to the change stream. -/
  emits : List (Nat × MetaChange)

namespace MetaStore

def journal (s : MetaStore) (key : String) : MetaStore :=
  { s with
    seq := s.seq + 1
    emits := s.emits ++ [(s.seq + 1, ⟨key⟩)]
    changes := s.changes.insert (s.seq + 1) ⟨key⟩ }

end MetaStore

def metaSchemaVersion : Nat := 3

/-- Apply one committed command. The stored version decides whether it is journaled, so that replay
does not depend on the binary. -/
def metaApply (schema : Nat) (s : MetaStore) (cmd : MetaCommand) : MetaStore × MetaResponse :=
  let (key, t) : String × MetaStore :=
    match cmd with
    | .set key value => (key, { s with kv := s.kv.insert key value })
    | .delete key => (key, { s with kv := s.kv.erase key })
  (if 2 ≤ schema then t.journal key else t, ⟨s.kv[key]?⟩)

/-- The steps change what is written from then on, and rewrite nothing. -/
def metaMigrate (s : MetaStore) : Nat → Except MetaFault MetaStore
  | 2 => .ok s
  | 3 => .ok s
  | other => .error (.engine
      ("no migration registered for meta schema step v" ++ toString other))

def MetaApp : ShardApp where
  State := MetaStore
  Command := MetaCommand
  Response := MetaResponse
  Fault := MetaFault
  schemaVersion := metaSchemaVersion
  apply schema _ s cmd := .ok (metaApply schema s cmd)
  migrate _ s target := metaMigrate s target

end Saltator.Cluster
