import Saltator.Lib.Ordered
import Saltator.Shard.Machine

/-!
# The federation-out shard

The delivery cursors, the outbox of ephemeral messages, and the marker of the outbox that moved here.
-/

namespace Saltator.FedOut

open Std
open Shard (Bytes ShardApp)

/-- One outbound message, and the server it must reach. -/
structure OutboundEdu where
  destination : String
  json : Bytes
  deriving DecidableEq

inductive FedOutCommand where
  | enqueueEdus (entries : List OutboundEdu)
  /-- Drop what was delivered to the destination, up to a sequence number. -/
  | ackEdus (destination : String) (upTo : Nat)
  | advancePduCursor (roomShard : Nat) (destination : String) (upTo : Nat)
  | setDrainMarker (upTo : Nat)
  | advanceAsCursor (asId : String) (roomShard upTo : Nat)
  deriving DecidableEq

inductive FedOutResponse where
  | ok
  deriving DecidableEq

/-- A storage fault. -/
inductive FedOutFault where
  | engine (reason : String)
  deriving DecidableEq

structure FedOutStore where
  /-- `T_PDU_CURSOR`, by room shard and destination. -/
  pduCursor : OrdMap (Nat × String) Nat
  /-- `T_EDU_OUTBOX`, by destination and sequence number. -/
  eduOutbox : OrdMap (String × Nat) Bytes
  /-- `T_DRAIN`: the one cell of the table. -/
  drain : Option Nat
  /-- `T_AS_CURSOR`, by application service and room shard. -/
  asCursor : OrdMap (String × Nat) Nat
  /-- The shard's sequence counter. -/
  seq : Nat
  /-- What was published to the change stream. -/
  emits : List (Nat × Bytes)

namespace FedOutStore

def empty : FedOutStore where
  pduCursor := ∅
  eduOutbox := ∅
  drain := none
  asCursor := ∅
  seq := 0
  emits := []

/-- The rows that an acknowledgement covers. The bound is a `u64` sum, as the release build computes
it. -/
def delivered (s : FedOutStore) (destination : String) (upTo : Nat) : List ((String × Nat) × Bytes) :=
  s.eduOutbox.rows fun k => k.1 = destination ∧ k.2 < (upTo + 1) % 2 ^ 64

def pduCursorOf (s : FedOutStore) (roomShard : Nat) (destination : String) : Option Nat :=
  s.pduCursor[(roomShard, destination)]?

def pduCursors (s : FedOutStore) : List ((Nat × String) × Nat) := s.pduCursor.toList

def drainMarker (s : FedOutStore) : Nat := s.drain.getD 0

/-- Queue one message; the sequence number keys the row. -/
def enqueue (s : FedOutStore) (edu : OutboundEdu) : FedOutStore :=
  { s with
    seq := s.seq + 1
    emits := s.emits ++ [(s.seq + 1, edu.json)]
    eduOutbox := s.eduOutbox.insert (edu.destination, s.seq + 1) edu.json }

end FedOutStore

def schemaVersion : Nat := 2

def apply (e s : FedOutStore) : FedOutCommand → FedOutStore
  | .enqueueEdus entries => entries.foldl FedOutStore.enqueue s
  | .ackEdus destination upTo =>
    { s with eduOutbox := s.eduOutbox.eraseRows (e.delivered destination upTo) }
  | .advancePduCursor roomShard destination upTo =>
    if s.pduCursor[(roomShard, destination)]?.getD 0 < upTo then
      { s with pduCursor := s.pduCursor.insert (roomShard, destination) upTo }
    else s
  | .setDrainMarker upTo => if s.drain.getD 0 < upTo then { s with drain := some upTo } else s
  | .advanceAsCursor asId roomShard upTo =>
    if s.asCursor[(asId, roomShard)]?.getD 0 < upTo then
      { s with asCursor := s.asCursor.insert (asId, roomShard) upTo }
    else s

/-- The step adds a table that starts empty. -/
def migrate (s : FedOutStore) : Nat → Except FedOutFault FedOutStore
  | 2 => .ok s
  | other => .error (.engine
      ("no migration registered for fedout schema step v" ++ toString other))

def FedOutApp : ShardApp where
  State := FedOutStore
  Command := FedOutCommand
  Response := FedOutResponse
  Fault := FedOutFault
  schemaVersion := schemaVersion
  apply _ e s cmd := .ok (apply e s cmd, .ok)
  migrate _ s target := migrate s target

end Saltator.FedOut
