import Saltator.Room.Heal
import Saltator.Room.Serving

/-!
# Handshakes

What the resident of a room does with the membership event of another server's user: a join, a knock or a
leave goes through the pipeline like any event, and is relayed. A join is answered with the room's state
and the auth chain behind it, a knock with what identifies the room. An event that is stored already, in
whatever way it is stored, is answered like one that was accepted.
-/

namespace Saltator.Room

open Std
open Saltator.Stateful
open StateRes (Key StateIds)
open Pipeline

/-! ## Auth chains -/

/-- The walk: the ids that were met, those ahead, the next one first, and what was collected. -/
structure AuthWalk where
  seen : OrdSet EventId
  queue : List EventId
  chain : List JsonObject

def authRound (s : Store) (w : AuthWalk) : Except RoomError (AuthWalk ⊕ List JsonObject) :=
  match w.queue with
  | [] => .ok (.inr w.chain)
  | id :: queue =>
    if w.seen.contains id then .ok (.inl { w with queue })
    else
      let seen := w.seen.insert id
      match s.event[id]? with
      | none => .ok (.inl ⟨seen, queue, w.chain⟩)
      | some stored =>
        let cited := (authEventIds stored.raw).filter fun id => !seen.contains id
        .ok (.inl ⟨seen, cited.reverse ++ queue, w.chain ++ [stored.raw]⟩)

/-- The transitive closure of the auth events, from `seed` on. -/
def collectAuthChain (s : Store) (fuel : Nat) (seed : OrdSet EventId) :
    Except RoomError (List JsonObject) :=
  Loop.run .outOfFuel (authRound s) fuel ⟨∅, seed.toList.reverse, []⟩

/-! ## Answers -/

/-- The answer to a join: the event with our signature, the room's state, and its auth chain. -/
structure SendJoinResult where
  event : JsonObject
  state : List JsonObject
  authChain : List JsonObject

def currentIds (s : Store) (fuel : Nat) (room : RoomId) : Except RoomError StateIds :=
  match s.room[room]? with
  | none => .error (.unknownRoom room)
  | some roomMeta => ofStore (s.resolveGroup fuel room roomMeta.currentGroup)

def joinAnswer (s : Store) (fuel : Nat) (room : RoomId) (signed : JsonObject) :
    Except RoomError SendJoinResult := do
  let stateMap ← currentIds s fuel room
  let state := stateMap.toList.filterMap fun entry => s.event[entry.2]?.map StoredEvent.raw
  let authChain ← collectAuthChain s fuel (OrdSet.extend ∅ (state.flatMap authEventIds))
  return ⟨signed, state, authChain⟩

def knockStateTypes : List String :=
  ["m.room.create", "m.room.join_rules", "m.room.canonical_alias", "m.room.name", "m.room.avatar",
    "m.room.topic", "m.room.encryption"]

def strippedStateEvent (raw : JsonObject) : JsonObject :=
  let keys :=
    if strProp raw "type" = some "m.room.create" then
      ["content", "sender", "state_key", "type", "origin_server_ts", "auth_events", "depth", "hashes",
        "prev_events", "signatures"]
    else ["content", "sender", "state_key", "type"]
  keys.filterMap fun key => (raw.lookup key).map fun value => (key, value)

def knockAnswer (s : Store) (fuel : Nat) (room : RoomId) (knocker : UserId) :
    Except RoomError (List JsonObject) := do
  let stateMap ← currentIds s fuel room
  let wanted := knockStateTypes.map (fun type => (type, "")) ++ [("m.room.member", knocker)]
  return wanted.filterMap fun key =>
    (stateMap[key]?.bind fun id => s.event[id]?).map fun stored => strippedStateEvent stored.raw

/-! ## The resident -/

section Resident

variable {σ : Type} (fuel : Nat) (raw : JsonObject)

/-- The event runs through the pipeline, co-signed first where the handshake asks for it. -/
def applyResident (coSign : Bool) : Heal σ (Except RoomError Outcome) := do
  let n ← get
  match n.server.residentApply n.store fuel raw coSign with
  | .error e => return .error e
  | .ok (.inl id) => return .ok (.duplicate id)
  | .ok (.inr d) =>
    let response ← Heal.propose (.resident raw coSign) (.append d.cmd)
    return response >>= Heal.outcomeOf

def sendJoin : Heal σ (Except RoomError SendJoinResult) := do
  let n ← get
  match (do
      let (version, room, _) ← classify n.server.ruma n.store raw
      return (room, ← n.server.signEvent version raw) : Except RoomError (RoomId × JsonObject)) with
  | .error e => return .error e
  | .ok (room, signed) =>
    match ← applyResident fuel raw true with
    | .error e => return .error e
    | .ok (.rejected _ reason) => return .error (.malformed ("join rejected: " ++ reason))
    | .ok _ =>
      let n ← get
      return joinAnswer n.store fuel room signed

def sendKnock : Heal σ (Except RoomError (List JsonObject)) := do
  let n ← get
  match (do
      let (_, room, _) ← classify n.server.ruma n.store raw
      return (room, ← strOf raw "state_key") : Except RoomError (RoomId × UserId)) with
  | .error e => return .error e
  | .ok (room, knocker) =>
    match ← applyResident fuel raw false with
    | .error e => return .error e
    | .ok (.rejected _ reason) => return .error (.malformed ("knock rejected: " ++ reason))
    | .ok _ =>
      let n ← get
      return knockAnswer n.store fuel room knocker

def sendLeave : Heal σ (Except RoomError Outcome) := applyResident fuel raw false

end Resident

end Saltator.Room
