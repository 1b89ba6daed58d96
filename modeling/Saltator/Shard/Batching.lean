import Saltator.Room.Scans
import Saltator.FedOut.Interpreter
import Saltator.Shard.Apps
import Saltator.User.RowKeys
import Saltator.User.Scans

/-!
# When batching makes no difference

A scan does not see what the same batch has written. `Scans` says for an interpreter what a command
scans, and carries the proof that nothing else depends on where the batch began. The rows of the user
and the federation-out shard are kept under keys cut at zero bytes: a name with such a byte may put a
row into another's scan, so that commands and rows must have none.
-/

namespace Saltator.Shard

open Saltator.Outcome

/-- What an interpreter scans: `command e s cmd` when the ranges that `cmd` scans serve it in `e` as
in `s`, and `migration` likewise. -/
structure Scans (A : ShardApp) where
  command : A.State → A.State → A.Command → Prop
  migration : A.State → A.State → Nat → Prop
  apply_eq : ∀ {e s cmd} schema, command e s cmd → A.apply schema e s cmd = A.apply schema s s cmd
  migrate_eq : ∀ {e s target}, migration e s target → A.migrate e s target = A.migrate s s target

section Entries

variable {A : ShardApp} (scans : Scans A)

/-- The ranges that an entry scans serve it in `e` as in `s`. A migration that the runtime declines
scans nothing. -/
def SameScans (e s : State A) (entry : Entry A.Command) : Prop :=
  match entry.payload with
  | .normal cmd => scans.command e.app s.app cmd
  | .runtime (.migrate target) =>
    target = s.schemaVersion + 1 → target ≤ A.schemaVersion → scans.migration e.app s.app target
  | _ => True

variable {scans}

theorem applyEntry_eq {e s : State A} {entry : Entry A.Command} (h : SameScans scans e s entry) :
    applyEntry A e s entry = applyEntry A s s entry := by
  obtain ⟨logId, payload⟩ := entry
  cases payload with
  | blank => rfl
  | membership => rfl
  | normal cmd =>
    simp only [applyEntry]
    exact congrArg (· >>= _) (scans.apply_eq s.schemaVersion h)
  | runtime cmd =>
    cases cmd with
    | undecodable => rfl
    | migrate target =>
      simp only [applyEntry, applyRuntime]
      split
      · rfl
      · rename_i next
        split
        · rfl
        · rename_i known
          have same := scans.migrate_eq (h (not_not.1 next) (not_lt.1 known))
          rw [same]

theorem applyLog_eq {s : State A} {batches batches' : List (List (Entry A.Command))}
    (cut : batches.flatten = batches'.flatten)
    (fresh : Batch.FreshAll (applyEntry A) (SameScans scans) s batches)
    (fresh' : Batch.FreshAll (applyEntry A) (SameScans scans) s batches') :
    applyLog A s batches = applyLog A s batches' := by
  have congr : ∀ e s entry, SameScans scans e s entry → applyEntry A e s entry = applyEntry A s s entry :=
    fun _ _ _ => applyEntry_eq
  exact Batch.applyAll_split congr cut fresh fresh'

end Entries

section Keyspaces

open FedOut (FedOutCommand)

def metaScans : Scans Cluster.MetaApp where
  command _ _ _ := True
  migration _ _ _ := True
  apply_eq _ _ := rfl
  migrate_eq _ := rfl

def roomScans : Scans Room.RoomApp where
  command := Room.SameScans
  migration _ _ _ := True
  apply_eq _ h := Room.apply_eq h
  migrate_eq _ := rfl

def userScans (serde : User.SerdeJson) : Scans (User.UserApp serde) where
  command e s cmd := User.SameScans e s cmd ∧ cmd.PlainKeys ∧ s.PlainKeys
  migration := User.SameMigrationScans
  apply_eq _ h := User.apply_eq h.1
  migrate_eq h := User.migrate_eq h

/-- The scans of the federation-out shard: an acknowledgement deletes the rows that it finds. -/
def fedOutScans : Scans FedOut.FedOutApp where
  command e s cmd := cmd.Fits ∧ (∀ k ∈ s.eduOutbox, Plain k.1) ∧
    match cmd with
    | .ackEdus destination upTo => OrdMap.Covers
      (fun k => k.1 = destination ∧ k.2 < (upTo + 1) % 2 ^ 64) e.eduOutbox s.eduOutbox
    | _ => True
  migration _ _ _ := True
  apply_eq {e s cmd} _ h := by
    cases cmd with
    | ackEdus destination upTo =>
      have erased := OrdMap.eraseRows_covers (fun _ hk => hk) h.2.2
      simp only [FedOut.FedOutApp, FedOut.apply, FedOut.FedOutStore.delivered, erased]
    | _ => rfl
  migrate_eq _ := rfl

def Keyspace.scans (serde : User.SerdeJson) (keyspace : Keyspace) : Scans (keyspace.app serde) :=
  match keyspace with
  | .metadata => metaScans
  | .room => roomScans
  | .user => userScans serde
  | .fedOut => fedOutScans

/-- **Batching is transparent** to entries that scan nothing that their batch has written, and whose keys
are cut where their parts end: two cuts of a log into such batches apply to the same state, with the
same responses. -/
theorem batching_transparent (serde : User.SerdeJson) (keyspace : Keyspace)
    {s : State (keyspace.app serde)} {batches batches' : List (List (Entry (keyspace.app serde).Command))}
    (cut : batches.flatten = batches'.flatten)
    (fresh : Batch.FreshAll (applyEntry _) (SameScans (keyspace.scans serde)) s batches)
    (fresh' : Batch.FreshAll (applyEntry _) (SameScans (keyspace.scans serde)) s batches') :
    applyLog _ s batches = applyLog _ s batches' :=
  applyLog_eq cut fresh fresh'

def fedOutEntry (index : Nat) (cmd : FedOutCommand) : Entry FedOutCommand :=
  ⟨⟨1, 1, index⟩, .normal cmd⟩

def sampleEnqueue : Entry FedOutCommand := fedOutEntry 1 (.enqueueEdus [⟨"b", [1]⟩])

def sampleAck : Entry FedOutCommand := fedOutEntry 2 (.ackEdus "b" 1)

def sampleCursor : Entry FedOutCommand := fedOutEntry 3 (.advancePduCursor 0 "b" 7)

theorem plain_entry {e s t : State FedOut.FedOutApp} {index : Nat} {cmd : FedOutCommand}
    {r : EntryResponse FedOut.FedOutResponse} (fits : cmd.Fits) (plain : ∀ k ∈ s.app.eduOutbox, Plain k.1)
    (applied : applyEntry FedOut.FedOutApp e s (fedOutEntry index cmd) = .ok (t, r)) :
    ∀ k ∈ t.app.eduOutbox, Plain k.1 := by
  obtain ⟨⟨app, answer⟩, step, told⟩ := bind_eq_ok.1 applied
  obtain ⟨rfl, -⟩ := ok_pair told
  obtain ⟨rfl, -⟩ := ok_pair step
  exact FedOut.plain_apply fits plain

theorem batching_transparent_delivered :
    applyLog FedOut.FedOutApp (.fresh .empty) [[sampleEnqueue], [sampleAck, sampleCursor]] =
      applyLog FedOut.FedOutApp (.fresh .empty) [[sampleEnqueue], [sampleAck], [sampleCursor]] := by
  have enqueue : FedOutCommand.Fits (.enqueueEdus [⟨"b", [1]⟩]) := by
    simp only [FedOutCommand.Fits]
    decide +kernel
  have ack : FedOutCommand.Fits (.ackEdus "b" 1) := by
    simp only [FedOutCommand.Fits]
    decide +kernel
  have cursor : FedOutCommand.Fits (.advancePduCursor 0 "b" 7) := ⟨by decide, by decide⟩
  have start : ∀ k ∈ FedOut.FedOutStore.empty.eduOutbox, Plain k.1 := by simp [FedOut.FedOutStore.empty]
  have single {e t : State FedOut.FedOutApp} {entry : Entry FedOutCommand}
      {rs : List (EntryResponse FedOut.FedOutResponse)}
      (applied : Batch.applyBatch (applyEntry FedOut.FedOutApp) e [entry] = .ok (t, rs)) :
      ∃ r, applyEntry FedOut.FedOutApp e e entry = .ok (t, r) := by
    obtain ⟨u, r, rest, first, last, rfl⟩ := (Batch.applyFrom_cons_ok _).1 applied
    obtain ⟨rfl, -⟩ := ok_pair last
    exact ⟨r, first⟩
  refine batching_transparent User.SerdeJson.sample .fedOut rfl ?_ ?_
  · refine ⟨⟨⟨enqueue, start, trivial⟩, fun _ _ _ => trivial⟩, fun t _ first => ?_⟩
    obtain ⟨r, first⟩ := single first
    have queued := plain_entry enqueue start first
    exact ⟨⟨⟨ack, queued, fun _ hk _ => hk⟩, fun u _ second =>
      ⟨⟨cursor, plain_entry ack queued second, trivial⟩, fun _ _ _ => trivial⟩⟩, fun _ _ _ => trivial⟩
  · refine ⟨⟨⟨enqueue, start, trivial⟩, fun _ _ _ => trivial⟩, fun t _ first => ?_⟩
    obtain ⟨r, first⟩ := single first
    have queued := plain_entry enqueue start first
    refine ⟨⟨⟨ack, queued, fun _ hk _ => hk⟩, fun _ _ _ => trivial⟩, fun u _ second => ?_⟩
    obtain ⟨r', second⟩ := single second
    exact ⟨⟨⟨cursor, plain_entry ack queued second, trivial⟩, fun _ _ _ => trivial⟩, fun _ _ _ => trivial⟩

/-- A message that is acknowledged in the batch that queued it stays in the outbox. -/
theorem batched_acknowledgement_lost :
    [[sampleEnqueue, sampleAck]].flatten = [[sampleEnqueue], [sampleAck]].flatten ∧
    ((applyLog FedOut.FedOutApp (.fresh .empty) [[sampleEnqueue, sampleAck]]).toOption.map fun x =>
      x.1.app.eduOutbox.toList) = some [(("b", 1), [1])] ∧
    ((applyLog FedOut.FedOutApp (.fresh .empty) [[sampleEnqueue], [sampleAck]]).toOption.map fun x =>
      x.1.app.eduOutbox.toList) = some [] ∧
    applyLog FedOut.FedOutApp (.fresh .empty) [[sampleEnqueue, sampleAck]] ≠
      applyLog FedOut.FedOutApp (.fresh .empty) [[sampleEnqueue], [sampleAck]] := by
  have batched : ((applyLog FedOut.FedOutApp (.fresh .empty) [[sampleEnqueue, sampleAck]]
      ).toOption.map fun x => x.1.app.eduOutbox.toList) = some [(("b", 1), [1])] := by
    decide +kernel
  have apart : ((applyLog FedOut.FedOutApp (.fresh .empty) [[sampleEnqueue], [sampleAck]]
      ).toOption.map fun x => x.1.app.eduOutbox.toList) = some [] := by
    decide +kernel
  refine ⟨rfl, batched, apart, fun same => ?_⟩
  rw [same, apart] at batched
  simp at batched

end Keyspaces

end Saltator.Shard
