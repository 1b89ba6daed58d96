import Saltator.FedOut.FedOutApp
import Saltator.Shard.Log

/-!
# The federation-out shard over the storage engine

The interpreter of the shard's commands, as it reads and writes the rows of its tables.
-/

namespace Saltator.FedOut

open Std hiding Format
open Shard (Bytes AppTable Action Interpreter Plain)
open Shard.Storage (Format utf8 bigEndian)

/-- `APP_TABLE_FIRST`: the first table that an application may use. -/
def tPduCursor : AppTable := ⟨9, by decide, by decide⟩

def tEduOutbox : AppTable := ⟨10, by decide, by decide⟩

def tDrain : AppTable := ⟨11, by decide, by decide⟩

def tAsCursor : AppTable := ⟨12, by decide, by decide⟩

def kDrainMarker : Bytes := utf8 "user_outbox_drained"

def destKey (destination : String) (rest : Bytes) : Bytes := utf8 destination ++ 0 :: rest

def asCursorKey (asId : String) (roomShard : Nat) : Bytes := utf8 asId ++ 0 :: bigEndian 2 roomShard

def cursorKey (roomShard : Nat) (destination : String) : Bytes :=
  bigEndian 2 roomShard ++ utf8 destination

/-- The formats of the shard's commands and responses. -/
structure Wire where
  command : Codec FedOutCommand
  response : Codec FedOutResponse

section Apply

variable (fmt : Format) (wire : Wire)

/-- Queue one message. The emitted number keys the row, and wakes the delivery worker. -/
def enqueueEdu (edu : OutboundEdu) : Action Unit := do
  let seq ← Action.emit edu.json
  Action.put tEduOutbox (destKey edu.destination (bigEndian 8 seq)) edu.json

/-- Move a mark forward; a stale one does not rewind it. -/
def advance (what : String) (table : AppTable) (k : Bytes) (upTo : Nat) : Action Unit := do
  let current ← match ← Action.get table k with
    | none => pure 0
    | some b =>
      match fmt.u64.fromBytes b with
      | some current => pure current
      | none => .fail (.engine (what ++ " decode: " ++ fmt.decodeError b))
  if current < upTo then
    match fmt.u64.encode upTo with
    | some enc => Action.put table k enc
    | none => .fail (.engine (what ++ " encode: " ++ fmt.encodeError))

def interpret : FedOutCommand → Action Unit
  | .enqueueEdus entries => entries.forM enqueueEdu
  | .ackEdus destination upTo => do
    let rows ← Action.range tEduOutbox (destKey destination [])
      (destKey destination (bigEndian 8 ((upTo + 1) % 2 ^ 64)))
    rows.forM fun (k, _) => Action.delete tEduOutbox k
  | .advancePduCursor roomShard destination upTo =>
    advance fmt "cursor" tPduCursor (cursorKey roomShard destination) upTo
  | .setDrainMarker upTo => advance fmt "marker" tDrain kDrainMarker upTo
  | .advanceAsCursor asId roomShard upTo =>
    advance fmt "as cursor" tAsCursor (asCursorKey asId roomShard) upTo

def applyBytes (command : Bytes) : Action Bytes := do
  match wire.command.fromBytes command with
  | none => .fail (.engine ("fedout command decode: " ++ fmt.decodeError command))
  | some cmd =>
    interpret fmt cmd
    match wire.response.encode .ok with
    | some response => return response
    | none => .fail (.engine ("fedout response encode: " ++ fmt.encodeError))

/-- The second version adds a table that starts empty. -/
def migrateRows : Nat → Action Unit
  | 2 => pure ()
  | other => .fail (.engine ("no migration registered for fedout schema step v" ++ toString other))

def fedOutInterpreter : Interpreter where
  schemaVersion := schemaVersion
  apply := applyBytes fmt wire
  migrate := migrateRows

end Apply

def FedOutCommand.Fields : Fin 5 → Type
  | 0 => List OutboundEdu
  | 1 => String × Nat
  | 2 => Nat × String × Nat
  | 3 => Nat
  | 4 => String × Nat × Nat

open Codec in
def Wire.compact : Wire where
  command :=
    let edu : Codec OutboundEdu := (string.pair bytes).via (fun edu => (edu.destination, edu.json))
      (fun (destination, json) => some ⟨destination, json⟩) fun _ => rfl
    let fields : ∀ i, Codec (FedOutCommand.Fields i)
      | 0 => edu.list
      | 1 => string.pair u64
      | 2 => u16.pair (string.pair u64)
      | 3 => u64
      | 4 => string.pair (u16.pair u64)
    (variants fields).via (fun
        | .enqueueEdus entries => ⟨0, entries⟩
        | .ackEdus destination upTo => ⟨1, destination, upTo⟩
        | .advancePduCursor roomShard destination upTo => ⟨2, roomShard, destination, upTo⟩
        | .setDrainMarker upTo => ⟨3, upTo⟩
        | .advanceAsCursor asId roomShard upTo => ⟨4, asId, roomShard, upTo⟩)
      (fun
        | ⟨0, entries⟩ => some (.enqueueEdus entries)
        | ⟨1, destination, upTo⟩ => some (.ackEdus destination upTo)
        | ⟨2, roomShard, destination, upTo⟩ => some (.advancePduCursor roomShard destination upTo)
        | ⟨3, upTo⟩ => some (.setDrainMarker upTo)
        | ⟨4, asId, roomShard, upTo⟩ => some (.advanceAsCursor asId roomShard upTo))
      fun cmd => by cases cmd <;> rfl
  response := byte.via (fun _ => 0) (fun variant => if variant = 0 then some .ok else none)
    fun r => by cases r; rfl

/-! ## Names in keys -/

def FedOutCommand.Fits : FedOutCommand → Prop
  | .enqueueEdus entries => ∀ edu ∈ entries, Plain edu.destination
  | .ackEdus destination _ => Plain destination
  | .setDrainMarker upTo => upTo < 2 ^ 64
  | .advancePduCursor roomShard _ upTo | .advanceAsCursor _ roomShard upTo =>
    roomShard < 2 ^ 16 ∧ upTo < 2 ^ 64

theorem plain_apply {e s : FedOutStore} {cmd : FedOutCommand} (fits : cmd.Fits)
    (plain : ∀ k ∈ s.eduOutbox, Plain k.1) : ∀ k ∈ (apply e s cmd).eduOutbox, Plain k.1 := by
  cases cmd with
  | enqueueEdus entries =>
    refine List.foldlRecOn (motive := fun s : FedOutStore => ∀ k ∈ s.eduOutbox, Plain k.1) entries _ plain
      fun s ih edu mem k stored => ?_
    rw [FedOutStore.enqueue, ExtTreeMap.mem_insert, LawfulEqOrd.compare_eq_iff_eq] at stored
    obtain rfl | old := stored
    · exact fits edu mem
    · exact ih k old
  | ackEdus destination upTo => exact fun k mem => plain k (OrdMap.mem_eraseRows.1 mem).1
  | _ =>
    rw [apply]
    split
    · exact plain
    · exact plain

end Saltator.FedOut
