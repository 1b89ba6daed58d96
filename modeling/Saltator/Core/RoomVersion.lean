import Mathlib.Tactic.Common

/-!
# Room versions

Every version-dependent behaviour of the core is a predicate on the version.
-/

namespace Saltator

inductive RoomVersion where
  | v8 | v9 | v10 | v11 | v12
  deriving DecidableEq, Repr, Inhabited

/-- The variant of the state-resolution algorithm. -/
inductive StateResVersion where
  | v2 | v2_1
  deriving DecidableEq

namespace RoomVersion

def parse : String → Option RoomVersion
  | "8" => some .v8
  | "9" => some .v9
  | "10" => some .v10
  | "11" => some .v11
  | "12" => some .v12
  | _ => none

def asStr : RoomVersion → String
  | .v8 => "8"
  | .v9 => "9"
  | .v10 => "10"
  | .v11 => "11"
  | .v12 => "12"

@[simp] theorem parse_asStr (v : RoomVersion) : parse v.asStr = some v := by cases v <;> rfl

/-- The declaration order, which the version gates compare in. -/
def rank : RoomVersion → Nat
  | .v8 => 8
  | .v9 => 9
  | .v10 => 10
  | .v11 => 11
  | .v12 => 12

/-- The room id is the create event's reference hash, and the create event carries no `room_id`. -/
def roomIdIsCreateEventId (v : RoomVersion) : Bool := 12 ≤ v.rank

def strictByteLimits (v : RoomVersion) : Bool := 11 ≤ v.rank

/-- The create event is selected into `auth_events`. -/
def createEventInAuthEvents (v : RoomVersion) : Bool := v.rank ≤ 11

def creatorInCreateContent (v : RoomVersion) : Bool := v.rank ≤ 10

def lenientPowerLevels (v : RoomVersion) : Bool := v.rank ≤ 9

/-- Room creators have infinite power and may not be listed in `users`. -/
def privilegedCreators (v : RoomVersion) : Bool := 12 ≤ v.rank

def stateRes : RoomVersion → StateResVersion
  | .v12 => .v2_1
  | _ => .v2

end RoomVersion

end Saltator
