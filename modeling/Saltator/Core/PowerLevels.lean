import Saltator.Core.Event

/-!
# Resolved power levels

The levels in force under a create event and an optional power-levels event. Absent properties take
the schema's defaults; malformed ones are an error, because such an event cannot have been accepted.
-/

namespace Saltator

open Std

/-- A user's effective level. `infinite` belongs to the creators of privileged-creator rooms. -/
inductive PowerLevel where
  | int (level : Int)
  | infinite
  deriving DecidableEq

namespace PowerLevel

/-- `infinite` exceeds every integer level. -/
def le : PowerLevel → PowerLevel → Bool
  | _, .infinite => true
  | .infinite, .int _ => false
  | .int a, .int b => a ≤ b

def lt (a b : PowerLevel) : Bool := !le b a

/-- `self >= level` for an integer requirement. -/
def satisfies (self : PowerLevel) (level : Int) : Bool := le (.int level) self

def reverseKey : PowerLevel → Nat × Int
  | .infinite => (0, 0)
  | .int i => (1, -i)

end PowerLevel

def debugStr (s : String) : String := s.quote

/-- Debug form of a `(type, state_key)` pair. -/
def debugKey (k : String × String) : String := "(" ++ k.1.quote ++ ", " ++ k.2.quote ++ ")"

section Creators

variable {E : Type} [Event E]

/-- The room creators: the create event's sender (before version 11 its content's `creator`), plus
the additional creators where creators are privileged. -/
def creators (ruma : Ruma) (version : RoomVersion) (create : E) : OrdSet UserId :=
  let named :=
    if version.creatorInCreateContent then
      (strProp (Event.content create) "creator").filter ruma.isUserId
    else none
  let set : OrdSet UserId := (∅ : OrdSet UserId).insert (named.getD (Event.sender create))
  if version.privilegedCreators then
    match (Event.content create).lookup "additional_creators" with
    | some (.array extra) => OrdSet.extend set ((extra.filterMap Json.asStr).filter ruma.isUserId)
    | _ => set
  else set

end Creators

def levelValue (lenient : Bool) : Json → Option Int
  | .integer i => some i
  | .string s => if lenient then parseI64 s else none
  | _ => none

structure RoomPowerLevels where
  version : RoomVersion
  creators : OrdSet UserId
  hasPlEvent : Bool
  users : OrdMap UserId Int
  usersDefault : Int
  events : OrdMap String Int
  eventsDefault : Int
  stateDefault : Int
  ban : Int
  kick : Int
  redact : Int
  invite : Int

/-- Malformed content in an accepted state event. -/
structure MalformedState where
  reason : String
  deriving DecidableEq

def intProp (content : JsonObject) (key : String) (default : Int) (lenient : Bool) :
    Except MalformedState Int :=
  match content.lookup key with
  | none => .ok default
  | some v =>
    match levelValue lenient v with
    | some i => .ok i
    | none => .error ⟨"power_levels." ++ key ++ " not an integer"⟩

def intMap (content : JsonObject) (key : String) (lenient : Bool) :
    Except MalformedState (OrdMap String Int) :=
  match content.lookup key with
  | none => .ok ∅
  | some (.object members) =>
    members.foldlM (fun out (k, v) =>
      match levelValue lenient v with
      | some i => .ok (out.insert k i)
      | none => .error ⟨"power_levels." ++ key ++ "." ++ k ++ " not an integer"⟩) ∅
  | some _ => .error ⟨"power_levels." ++ key ++ " not an object"⟩

/-- The `users` map: keys must be user ids. -/
def usersMap (ruma : Ruma) (content : JsonObject) (lenient : Bool) :
    Except MalformedState (OrdMap UserId Int) :=
  match content.lookup "users" with
  | none => .ok ∅
  | some (.object members) =>
    members.foldlM (fun out (k, v) =>
      if ruma.isUserId k then
        match levelValue lenient v with
        | some i => .ok (out.insert k i)
        | none => .error ⟨"power_levels.users." ++ k ++ " not an integer"⟩
      else .error ⟨"power_levels.users key " ++ debugStr k ++ " not a user ID"⟩) ∅
  | some _ => .error ⟨"power_levels.users not an object"⟩

namespace RoomPowerLevels

variable {E : Type} [Event E]

def resolve (ruma : Ruma) (version : RoomVersion) (create : E) (powerLevels : Option E) :
    Except MalformedState RoomPowerLevels := do
  let c := (powerLevels.map Event.content).getD []
  let lenient := version.lenientPowerLevels
  let users ← usersMap ruma c lenient
  let usersDefault ← intProp c "users_default" 0 lenient
  let events ← intMap c "events" lenient
  let eventsDefault ← intProp c "events_default" 0 lenient
  let stateDefault ← intProp c "state_default" 50 lenient
  let ban ← intProp c "ban" 50 lenient
  let kick ← intProp c "kick" 50 lenient
  let redact ← intProp c "redact" 50 lenient
  let invite ← intProp c "invite" 0 lenient
  return { version, creators := Saltator.creators ruma version create,
           hasPlEvent := powerLevels.isSome, users, usersDefault, events, eventsDefault,
           stateDefault, ban, kick, redact, invite }

def user (self : RoomPowerLevels) (user : UserId) : PowerLevel :=
  if self.version.privilegedCreators && self.creators.contains user then .infinite
  else
    match self.users[user]? with
    | some pl => .int pl
    | none =>
      -- Without a power-levels event the creator has level 100.
      if !self.hasPlEvent && !self.version.privilegedCreators && self.creators.contains user then
        .int 100
      else .int self.usersDefault

def userFromStr (ruma : Ruma) (self : RoomPowerLevels) (user : String) : PowerLevel :=
  if ruma.isUserId user then self.user user else .int self.usersDefault

def requiredFor (self : RoomPowerLevels) (eventType : String) (isState : Bool) : Int :=
  match self.events[eventType]? with
  | some pl => pl
  | none => if isState then self.stateDefault else self.eventsDefault

end RoomPowerLevels

end Saltator
