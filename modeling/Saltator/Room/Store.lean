import Saltator.Room.Types

/-!
# The applied state of a room shard

One ordered map per table, together with the shard's sequence counter and the records published to
the change stream. The typed reads follow the tables.
-/

namespace Saltator.Room

open Std
open StateRes (Key StateIds)

/-- A storage fault. `outOfFuel` marks a read that was not given enough rounds. -/
inductive StoreError where
  | engine (reason : String)
  | outOfFuel
  deriving DecidableEq, Repr

/-- The key of a transaction record: user, device, scope and transaction id in one text. -/
abbrev TxnKey := String

structure Store where
  /-- `T_EVENT` -/
  event : OrdMap EventId StoredEvent
  /-- `T_SEQ`: the shard's timeline order. -/
  timeline : OrdMap Nat SeqEntry
  /-- `T_GROUP` -/
  group : OrdMap (RoomId × Nat) StateGroup
  /-- `T_ROOM` -/
  room : OrdMap RoomId RoomMeta
  /-- `T_ROOM_SEQ`: the per-room timeline order. -/
  roomSeq : OrdMap (RoomId × Nat) EventId
  /-- `T_RECEIPT`, by room, user, receipt type and thread. -/
  receipt : OrdMap (RoomId × UserId × String × String) ReceiptRecord
  /-- `T_REDACT`: encoded directives by target. -/
  redact : OrdMap EventId String
  /-- `T_HISTORY`: backfilled history, newest first. -/
  history : OrdMap (RoomId × Nat) EventId
  /-- `T_TXN` -/
  txn : OrdMap TxnKey EventId
  /-- `T_TXN_IDX`: the records by time. -/
  txnIdx : OrdMap (Nat × TxnKey) Unit
  /-- `T_TXN_ECHO`: user, device and transaction id by event. -/
  txnEcho : OrdMap EventId (UserId × String × String)
  /-- The shard's sequence counter. -/
  seq : Nat
  /-- What was published to the change stream. -/
  emits : List (Nat × ChangePayload)

namespace Store

def empty : Store where
  event := ∅
  timeline := ∅
  group := ∅
  room := ∅
  roomSeq := ∅
  receipt := ∅
  redact := ∅
  history := ∅
  txn := ∅
  txnIdx := ∅
  txnEcho := ∅
  seq := 0
  emits := []

def visible (s : Store) (id : EventId) : Bool := s.event[id]?.any StoredEvent.visible

def onTimeline (s : Store) (id : EventId) : Bool := s.event[id]?.any fun e => 0 < e.seq

def isRejected (s : Store) (id : EventId) : Bool := s.event[id]?.any fun e => e.rejected.isSome

/-! ## State groups -/

def applyEntries (map : StateIds) (g : StateGroup) : StateIds :=
  g.entries.foldl (fun map (k, v) => map.insert k v) map

def groupRound (s : Store) (room : RoomId) : Option Nat × List StateGroup →
      Except StoreError ((Option Nat × List StateGroup) ⊕ List StateGroup)
  | (none, chain) => .ok (.inr chain)
  | (some id, chain) =>
    match s.group[(room, id)]? with
    | none => .error (.engine ("state group " ++ toString id ++ " missing in " ++ room))
    | some g => .ok (.inl (g.parent, g :: chain))

def resolveGroup (s : Store) (fuel : Nat) (room : RoomId) (group : Nat) :
    Except StoreError StateIds := do
  let chain ← Loop.run .outOfFuel (groupRound s room) fuel (some group, [])
  return chain.foldl applyEntries ∅

/-! ## Redactions -/

/-- The event that redacted `eventId`, if a redaction applies to it. A pending redaction is settled
here, now that the target is in hand. -/
def redactedBy (s : Store) (eventId : EventId) : Option EventId :=
  match s.redact[eventId]? with
  | none => none
  | some entry =>
    match RedactDirective.decode entry with
    | .applies id => some id
    | .pending redactorId mayRedact =>
      match s.event[eventId]?, s.event[redactorId]? with
      | some target, some redactor =>
        if target.rejected.isSome then none
        else
          match strProp target.raw "room_id", strProp target.raw "sender" with
          | some roomId, some sender =>
            if strProp redactor.raw "room_id" ≠ some roomId then none
            else if mayRedact ∨ strProp redactor.raw "sender" = some sender then some redactorId
            else none
          | _, _ => none
      | _, _ => none

/-! ## Writes shared by the commands -/

/-- Publish a change record; it takes the next sequence number. -/
def emit (s : Store) (payload : ChangePayload) : Store × Nat :=
  ({ s with seq := s.seq + 1, emits := s.emits ++ [(s.seq + 1, payload)] }, s.seq + 1)

def putTimeline (s : Store) (room : RoomId) (id : EventId) (stored : Nat → StoredEvent) : Store × Nat :=
  let (s, seq) := s.emit (.event room id)
  ({ s with
      event := s.event.insert id (stored seq)
      timeline := s.timeline.insert seq (.event room id)
      roomSeq := s.roomSeq.insert (room, seq) id }, seq)

def putGroups (s : Store) (room : RoomId) (groups : List (Nat × StateGroup)) : Store :=
  { s with group := groups.foldl (fun m (id, g) => m.insert (room, id) g) s.group }

def putMeta (s : Store) (room : RoomId) (roomMeta : RoomMeta) : Store :=
  { s with room := s.room.insert room roomMeta }

def supportEvent (ev : ImportEvent) : StoredEvent where
  raw := ev.raw
  seq := 0
  stateGroupAfter := 0
  depth := ev.depth
  rejected := none
  historyIdx := none
  imported := true
  relay := false

def putSupport (s : Store) (events : List ImportEvent) : Store :=
  { s with event := events.foldl (fun m ev =>
      if m.contains ev.eventId then m else m.insert ev.eventId (supportEvent ev)) s.event }

end Store

end Saltator.Room
