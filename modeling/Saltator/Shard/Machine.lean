import Saltator.Lib.Batch

/-!
# The shard runtime's state machine

The runtime applies committed log entries in batches. Every entry of a batch reads keys through the
batch's staged writes, and scans ranges in the engine as it was when the batch began.
-/

namespace Saltator.Shard

open Saltator.Outcome

abbrev Bytes := List UInt8

abbrev NodeId := Nat

/-- The position of an entry in the log, with the leader that wrote it. -/
structure LogId where
  term : Nat
  nodeId : NodeId
  index : Nat
  deriving DecidableEq

/-- A cluster membership: the voter sets, and the address of every node. -/
structure Membership where
  configs : List (List NodeId)
  nodes : List (NodeId × String)
  deriving DecidableEq

/-- A shard's command interpreter. Of two states, the first is the engine when the batch began, and
the second has what the batch has written since. The sequence counter and the change stream are part
of an interpreter's state. -/
structure ShardApp where
  State : Type
  Command : Type
  Response : Type
  /-- Storage faults: they fail the batch. -/
  Fault : Type
  /-- The schema version that the code reads and writes. -/
  schemaVersion : Nat
  /-- Apply a committed command, given the stored schema version. -/
  apply : Nat → State → State → Command → Except Fault (State × Response)
  /-- Migrate the applied state to a version. -/
  migrate : State → State → Nat → Except Fault State

/-- A command that the runtime owns, or bytes that are none. -/
inductive RuntimeCommand where
  | migrate (target : Nat)
  | undecodable (reason : String)
  deriving DecidableEq

inductive RuntimeResponse where
  | ok
  /-- The command was declined: data, not a storage fault. -/
  | rejected (reason : String)
  deriving DecidableEq

/-- What a log entry carries. -/
inductive EntryPayload (Command : Type) where
  | blank
  | normal (cmd : Command)
  | runtime (cmd : RuntimeCommand)
  | membership (m : Membership)

structure Entry (Command : Type) where
  logId : LogId
  payload : EntryPayload Command

/-- What the proposer of an entry gets back. -/
inductive EntryResponse (Response : Type) where
  | empty
  | normal (r : Response)
  | runtime (r : RuntimeResponse)
  deriving DecidableEq

structure State (A : ShardApp) where
  app : A.State
  /-- The schema cell. -/
  schema : Option Nat
  membership : Option (LogId × Membership)
  lastApplied : Option LogId

namespace State

variable {A : ShardApp}

def schemaVersion (s : State A) : Nat := s.schema.getD 1

/-- A shard that has applied nothing. -/
def fresh (app : A.State) : State A where
  app := app
  schema := none
  membership := none
  lastApplied := none

end State

section Apply

variable (A : ShardApp)

def applyRuntime (e s : State A) : RuntimeCommand → Except A.Fault (State A × RuntimeResponse)
  | .undecodable reason => .ok (s, .rejected ("undecodable: " ++ reason))
  | .migrate target =>
    let current := s.schemaVersion
    if target ≠ current + 1 then
      .ok (s, .rejected ("migration step must be v" ++ toString current ++ " -> v" ++
        toString (current + 1) ++ ", requested v" ++ toString target))
    else if A.schemaVersion < target then
      .ok (s, .rejected ("this binary only knows schema v" ++ toString A.schemaVersion))
    else do
      -- A migration that fails discards the batch.
      let app ← A.migrate e.app s.app target
      return ({ s with app := app, schema := some target }, .ok)

/-- Apply one entry of a batch that began in `e`. -/
def applyEntry (e s : State A) (entry : Entry A.Command) :
    Except A.Fault (State A × EntryResponse A.Response) :=
  let s := { s with lastApplied := some entry.logId }
  match entry.payload with
  | .blank => .ok (s, .empty)
  | .normal cmd => do
    let (app, r) ← A.apply s.schemaVersion e.app s.app cmd
    return ({ s with app := app }, .normal r)
  | .runtime cmd => do
    let (s, r) ← applyRuntime A e s cmd
    return (s, .runtime r)
  | .membership m => .ok ({ s with membership := some (entry.logId, m) }, .empty)

/-- What an entry does to the interpreter's state: it applies a command, or a migration that the
runtime admits, or nothing. -/
inductive Reaches (e s : State A) (entry : Entry A.Command) (app : A.State) : Prop
  | idle (same : app = s.app)
  | command {cmd : A.Command} {r : A.Response} (payload : entry.payload = .normal cmd)
      (applied : A.apply s.schemaVersion e.app s.app cmd = .ok (app, r))
  | migration {target : Nat} (payload : entry.payload = .runtime (.migrate target))
      (next : target = s.schemaVersion + 1) (known : target ≤ A.schemaVersion)
      (migrated : A.migrate e.app s.app target = .ok app)

variable {A} in
theorem applyEntry_reaches {e s t : State A} {entry : Entry A.Command}
    {r : EntryResponse A.Response} (h : applyEntry A e s entry = .ok (t, r)) :
    Reaches A e s entry t.app := by
  obtain ⟨logId, payload⟩ := entry
  cases payload with
  | blank =>
    obtain ⟨rfl, -⟩ := ok_pair h
    exact .idle rfl
  | membership =>
    obtain ⟨rfl, -⟩ := ok_pair h
    exact .idle rfl
  | normal cmd =>
    obtain ⟨⟨app, response⟩, step, h⟩ := bind_eq_ok.1 h
    obtain ⟨rfl, -⟩ := ok_pair h
    exact .command rfl step
  | runtime cmd =>
    cases cmd with
    | undecodable =>
      obtain ⟨rfl, -⟩ := ok_pair h
      exact .idle rfl
    | migrate target =>
      obtain ⟨⟨u, response⟩, step, h⟩ := bind_eq_ok.1 h
      obtain ⟨rfl, -⟩ := ok_pair h
      simp only [applyRuntime] at step
      split at step
      · obtain ⟨rfl, -⟩ := ok_pair step
        exact .idle rfl
      rename_i next
      split at step
      · obtain ⟨rfl, -⟩ := ok_pair step
        exact .idle rfl
      rename_i known
      obtain ⟨app, migrated, step⟩ := bind_eq_ok.1 step
      obtain ⟨rfl, -⟩ := ok_pair step
      exact .migration rfl (Decidable.not_not.1 next) (Nat.not_lt.1 known) migrated

def apply : State A → List (Entry A.Command) → Except A.Fault (State A × List (EntryResponse A.Response)) :=
  Batch.applyBatch (applyEntry A)

def applyLog : State A → List (List (Entry A.Command)) →
    Except A.Fault (State A × List (EntryResponse A.Response)) :=
  Batch.applyAll (applyEntry A)

end Apply

end Saltator.Shard
