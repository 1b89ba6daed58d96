import Saltator.Core.StateRes

/-!
# Room-shard records and commands

The pipeline precomputes the complete outcome of an event and ships it as one `RoomCommand`; the
state machine only writes. Event bodies are kept as parsed canonical objects.
-/

namespace Saltator.Room

open StateRes (Key StateIds)

/-- Full state maps are stored every `maxGroupChain` groups along a fork, deltas otherwise. -/
def maxGroupChain : Nat := 32

/-- Why a stored event was rejected. Events rejected against their own auth chain never take part
in state resolution; events rejected against the state before them do. -/
inductive Rejected where
  | authChain (reason : String)
  | state (reason : String)
  deriving DecidableEq

def Rejected.reason : Rejected → String
  | .authChain r | .state r => r

/-- What an accepted redaction does to its target. -/
inductive RedactDirective where
  /-- The redaction applies: its target was held, and the sender was allowed to redact it. -/
  | applies (id : EventId)
  /-- The redaction overtook its target. `mayRedact` records whether the sender held the redact
  power level. -/
  | pending (id : EventId) (mayRedact : Bool)
  deriving DecidableEq

namespace RedactDirective

def encode : RedactDirective → String
  | .applies id => id
  | .pending id true => "?p" ++ id
  | .pending id false => "?-" ++ id

/-- Event ids start with `$`, so the pending marker cannot collide with a bare id. -/
def decode (s : String) : RedactDirective :=
  match s.toList with
  | '?' :: 'p' :: id => .pending (String.ofList id) true
  | '?' :: '-' :: id => .pending (String.ofList id) false
  | _ => .applies s

@[simp] theorem decode_pending (id : EventId) (mayRedact : Bool) :
    decode (encode (.pending id mayRedact)) = .pending id mayRedact := by
  cases mayRedact <;> simp [encode, decode]

/-- A bare id reads as `applies`, unless it looks like a marker. -/
theorem decode_applies {id : EventId} (h : id.toList.head? ≠ some '?') :
    decode (encode (.applies id)) = .applies id := by
  unfold decode encode
  split
  · simp_all
  · simp_all
  · rfl

end RedactDirective

structure StoredEvent where
  raw : JsonObject
  /-- Position in the shard order, `0` off the timeline. -/
  seq : Nat
  /-- State group after the event, `0` for none. -/
  stateGroupAfter : Nat
  depth : Nat
  rejected : Option Rejected
  /-- Position in the backfilled history. -/
  historyIdx : Option Nat
  imported : Bool
  relay : Bool

def StoredEvent.visible (e : StoredEvent) : Bool := 0 < e.seq || e.historyIdx.isSome

/-- A state snapshot (`parent = none`) or a delta over the parent. -/
structure StateGroup where
  parent : Option Nat
  /-- Distance from the nearest snapshot. -/
  chainLen : Nat
  entries : List (Key × EventId)
  deriving DecidableEq

/-- Per-room bookkeeping. -/
structure RoomMeta where
  version : String
  createEventId : EventId
  /-- State group of the current resolved state. -/
  currentGroup : Nat
  /-- Next unallocated group id; ids start at 1. -/
  nextGroup : Nat
  /-- Forward extremities. -/
  extremities : List EventId
  /-- Backward extremities: events referenced at the oldest edge that are not held. -/
  historyFrontier : List EventId
  /-- Next unallocated history index; indexes start at 1. -/
  nextHistoryIdx : Nat
  /-- Seqs at which the timeline is not contiguous with what precedes it. -/
  gapMarkers : List Nat
  deriving DecidableEq

/-- The client transaction that produced a locally sent event. -/
structure TxnStamp where
  userId : UserId
  deviceId : String
  scope : String
  txnId : String
  ts : Nat
  deriving DecidableEq

structure ImportEvent where
  eventId : EventId
  raw : JsonObject
  depth : Nat

structure ImportSegment where
  roomId : RoomId
  /-- Supporting events, stored off the timeline. -/
  events : List ImportEvent
  state : List (Key × EventId)
  /-- The recovered chain, oldest first. -/
  timeline : List ImportEvent
  frontierAdd : List EventId

/-- A batch of backfilled events, newest first. -/
structure ImportHistory where
  roomId : RoomId
  events : List ImportEvent

/-- A room initialised from a resident server's state dump. -/
structure ImportRoom where
  roomId : RoomId
  version : String
  createEventId : EventId
  events : List ImportEvent
  joinEventId : EventId
  joinRaw : JsonObject
  joinDepth : Nat
  state : List (Key × EventId)
  historyFrontier : List EventId

/-- The precomputed outcome of one event. -/
structure AppendEvent where
  roomId : RoomId
  eventId : EventId
  raw : JsonObject
  depth : Nat
  /-- `some` stores the event as rejected. -/
  rejected : Option Rejected
  /-- State groups to create, in dependency order. -/
  newGroups : List (Nat × StateGroup)
  stateGroupAfter : Nat
  newCurrentGroup : Nat
  newExtremities : List EventId
  nextGroup : Nat
  /-- `some version` exactly for a create event: initialises the room. -/
  createVersion : Option String
  redacts : Option String
  relay : Bool

structure ReceiptCmd where
  roomId : RoomId
  userId : UserId
  receiptType : String
  eventId : EventId
  threadId : Option String
  ts : Nat

structure ReceiptRecord where
  eventId : EventId
  threadId : Option String
  ts : Nat
  seq : Nat

inductive RoomCommand where
  | append (cmd : AppendEvent)
  | receipt (cmd : ReceiptCmd)
  | importRoom (cmd : ImportRoom)
  | importHistory (cmd : ImportHistory)
  | importSegment (cmd : ImportSegment)
  | appendStamped (cmd : AppendEvent) (txn : TxnStamp)

inductive RoomResponse where
  | accepted (eventId : EventId) (seq : Nat)
  | rejected (eventId : EventId) (reason : String)
  /-- The event was already stored. -/
  | duplicate (eventId : EventId)
  | receipt (seq : Nat)
  | history (indexed : Nat) (complete : Bool)
  | segment (appended : Nat)
  deriving DecidableEq, Repr

/-- What happened at one shard sequence position. -/
inductive SeqEntry where
  | event (roomId : RoomId) (eventId : EventId)
  | receipt (roomId : RoomId) (userId : UserId) (receiptType : String) (eventId : EventId) (ts : Nat)
  deriving DecidableEq

inductive ChangePayload where
  | event (roomId : RoomId) (eventId : EventId)
  | receipt (roomId : RoomId)
  deriving DecidableEq

end Saltator.Room
