import Saltator.Core.Validation
import Saltator.Room.Machine

/-!
# The event pipeline

What happens to one event between its arrival and the command that is proposed for it: format and
signature checks, the auth rules against its own auth events and against the state before it, the
state after it, the room's new extremities and current state. Nothing is written here; the result is
an `AppendEvent` computed from one reading of the store.

`fuel` bounds the loops that follow stored data (delta chains, rejected ancestors, resolution).
-/

namespace Saltator.Room

open Std
open StateRes (Key StateIds StateResError createKey plKey)

inductive RoomError where
  | unknownRoom (room : RoomId)
  | missingEvents (ids : List EventId)
  | missingAuthEvents (ids : List EventId)
  | validation (e : ValidationError)
  | verification (e : VerificationError)
  | format (e : EventFormatError)
  | version (v : String)
  | stateRes (e : StateResError)
  | sign (reason : String)
  | malformed (reason : String)
  | storage (reason : String)
  | codec (reason : String)
  | panic
  | outOfFuel
  deriving DecidableEq, Repr

inductive Outcome where
  | accepted (eventId : EventId) (seq : Nat)
  | rejected (eventId : EventId) (reason : String)
  | duplicate (eventId : EventId)
  deriving DecidableEq

namespace Pipeline

def ofValidation {α : Type} : Except ValidationError α → Except RoomError α :=
  Except.mapError .validation

def ofVerification {α : Type} : Except VerificationError α → Except RoomError α :=
  Except.mapError .verification

def ofFormat {α : Type} : Except EventFormatError α → Except RoomError α :=
  Except.mapError .format

def ofStateRes {α : Type} : Except StateResError α → Except RoomError α :=
  Except.mapError fun e =>
    match e with
    | .outOfFuel => .outOfFuel
    | .panic => .panic
    | e => .stateRes e

def ofStore {α : Type} : Except StoreError α → Except RoomError α :=
  Except.mapError fun e =>
    match e with
    | .engine reason => .storage reason
    | .outOfFuel => .outOfFuel

def parseVersion (v : String) : Except RoomError RoomVersion :=
  match RoomVersion.parse v with
  | some version => .ok version
  | none => .error (.version v)

/-! ## Classification -/

def strOf (obj : JsonObject) (key : String) : Except RoomError String :=
  match strProp obj key with
  | some s => .ok s
  | none => .error (.malformed ("missing string `" ++ key ++ "`"))

def roomIdOf (ruma : Ruma) (raw : JsonObject) : Except RoomError RoomId := do
  let id ← strOf raw "room_id"
  if ruma.isRoomId id then return id else .error (.malformed "room_id")

def createShaped (raw : JsonObject) : Bool :=
  strProp raw "type" == some "m.room.create" && strProp raw "state_key" == some ""

/-- The room a create event founds: named after its hash, or by its `room_id`. -/
def createRoomId (ruma : Ruma) (version : RoomVersion) (raw : JsonObject) : Except RoomError RoomId :=
  if version.roomIdIsCreateEventId then ofFormat (ruma.roomIdForCreate raw version)
  else roomIdOf ruma raw

def classifyCreate (ruma : Ruma) (raw : JsonObject) : Except RoomError (RoomVersion × RoomId) :=
  match objProp raw "content" with
  | none => .error (.malformed "create event without content")
  | some content =>
    match strProp content "room_version" with
    | none => .error (.malformed "create content without room_version")
    | some v => do
      let version ← parseVersion v
      let room ← createRoomId ruma version raw
      return (version, room)

def classify (ruma : Ruma) (s : Store) (raw : JsonObject) :
    Except RoomError (RoomVersion × RoomId × Bool) := do
  let _ ← strOf raw "type"
  if createShaped raw then
    let (version, room) ← classifyCreate ruma raw
    return (version, room, true)
  else
    let room ← roomIdOf ruma raw
    match s.room[room]? with
    | none => .error (.unknownRoom room)
    | some roomMeta => return (← parseVersion roomMeta.version, room, false)

/-! ## Step 1: validation -/

/-- Format, then signatures and hash. An event whose content hash does not match is processed in its
redacted form. -/
def vet (ruma : Ruma) (keys : PublicKeyMap) (version : RoomVersion) (raw : JsonObject) :
    Except RoomError (JsonObject × Pdu) := do
  let pdu ← ofValidation (validatePdu ruma raw version)
  match ← ofVerification (verifyEvent ruma raw version keys) with
  | .verified => return (raw, pdu)
  | .signedButHashMismatch =>
    let redacted ← ofVerification (redact ruma raw version)
    let pdu ← ofValidation (validatePdu ruma redacted version)
    return (redacted, pdu)

/-! ## Step 2: referenced events -/

def parseStored (ruma : Ruma) (id : EventId) (stored : StoredEvent) :
    Except RoomError IdentifiedPdu := do
  let pdu ← ofFormat (Pdu.fromCanonical ruma stored.raw)
  return ⟨id, pdu⟩

def fetchAuth (ruma : Ruma) (s : Store) (ids : List EventId) :
    Except RoomError (List (IdentifiedPdu × Bool) × List EventId) :=
  ids.foldlM (fun (held, missing) id =>
    match s.event[id]? with
    | some stored => do
      let event ← parseStored ruma id stored
      return (held ++ [(event, stored.rejected.isSome)], missing)
    | none => .ok (held, missing ++ [id])) ([], [])

structure BehindWalk where
  queue : List (EventId × Nat)
  seen : OrdSet EventId
  groups : OrdSet Nat

def visitPrev (s : Store) (depth : Nat) (w : BehindWalk) (prev : EventId) : BehindWalk :=
  match s.event[prev]? with
  | some se =>
    if se.stateGroupAfter ≠ 0 then { w with groups := w.groups.insert se.stateGroupAfter }
    else { w with queue := (prev, depth + 1) :: w.queue }
  | none => w

def behindRound (s : Store) (w : BehindWalk) : Except RoomError (BehindWalk ⊕ OrdSet Nat) :=
  match w.queue with
  | [] => .ok (.inr w.groups)
  | (id, depth) :: queue =>
    if depth > 8 then .ok (.inl { w with queue })
    else if w.seen.contains id then .ok (.inl { w with queue })
    else
      let w := { w with queue, seen := w.seen.insert id }
      match s.event[id]? with
      | none => .ok (.inl w)
      | some stored => .ok (.inl ((prevEventIds stored.raw).foldl (visitPrev s depth) w))

def groupsBehindRejected (s : Store) (fuel : Nat) (id : EventId) : Except RoomError (OrdSet Nat) :=
  Loop.run .outOfFuel (behindRound s) fuel ⟨[(id, 0)], ∅, ∅⟩

def fetchPrevs (s : Store) (fuel : Nat) (ids : List EventId) :
    Except RoomError (OrdSet Nat × List EventId) :=
  ids.foldlM (fun (groups, missing) id =>
    match s.event[id]? with
    | none => .ok (groups, missing ++ [id])
    | some se =>
      if se.stateGroupAfter = 0 then do
        let behind ← groupsBehindRejected s fuel id
        if behind.isEmpty then return (groups, missing ++ [id])
        else return (OrdSet.extend groups behind.toList, missing)
      else .ok (groups.insert se.stateGroupAfter, missing)) (∅, [])

/-- The events state resolution may see: the event itself, and stored events that were not rejected
against their own auth chain. -/
def fetchFor (ruma : Ruma) (s : Store) (event : IdentifiedPdu) (id : EventId) : Option IdentifiedPdu :=
  if id = event.eventId then some event
  else
    match s.event[id]? with
    | none => none
    | some se =>
      match se.rejected with
      | some (.authChain _) => none
      | _ => (parseStored ruma id se).toOption

/-! ## Step 3: the event's own auth chain -/

def viewOf (m : OrdMap Key IdentifiedPdu) : Auth.StateView IdentifiedPdu := fun t sk => m[(t, sk)]?

/-- The state the auth events form. In rooms named after their create event that event takes part
implicitly. -/
def authState (ruma : Ruma) (s : Store) (version : RoomVersion) (roomMeta : Option RoomMeta)
    (isCreate : Bool) (held : List (IdentifiedPdu × Bool)) :
    Except RoomError (OrdMap Key IdentifiedPdu) :=
  let base : OrdMap Key IdentifiedPdu := held.foldl (fun m (e, _) => m.insert (Event.key e) e) ∅
  if !isCreate && !version.createEventInAuthEvents then
    match roomMeta with
    | none => .error .panic
    | some roomMeta =>
      match s.event[roomMeta.createEventId]? with
      | none => .error (.missingEvents [roomMeta.createEventId])
      | some se => do
        let create ← parseStored ruma roomMeta.createEventId se
        return base.insert createKey create
  else .ok base

def checkOwnAuth (ruma : Ruma) (s : Store) (version : RoomVersion) (roomMeta : Option RoomMeta)
    (isCreate : Bool) (event : IdentifiedPdu) (held : List (IdentifiedPdu × Bool)) :
    Except RoomError Auth.AuthResult :=
  match Auth.checkAuthEvents version event (held.map fun (e, rejected) => ⟨e, rejected⟩) with
  | .error r => .ok (.error r)
  | .ok () => do
    let state ← authState ruma s version roomMeta isCreate held
    return Auth.checkStateDependent ruma version event (viewOf state)

/-! ## Steps 3b and 4: the state before -/

structure Alloc where
  nextGroup : Nat
  newGroups : List (Nat × StateGroup)

def allocFull (a : Alloc) (state : StateIds) : Alloc × Nat :=
  (⟨a.nextGroup + 1, a.newGroups ++ [(a.nextGroup, ⟨none, 0, state.toList⟩)]⟩, a.nextGroup)

def allocDelta (a : Alloc) (parent chainLen : Nat) (key : Key) (id : EventId) : Alloc × Nat :=
  (⟨a.nextGroup + 1, a.newGroups ++ [(a.nextGroup, ⟨some parent, chainLen, [(key, id)]⟩)]⟩, a.nextGroup)

def materialize (ruma : Ruma) (s : Store) (fuel : Nat) (room : RoomId) (group : Nat) :
    Except RoomError StateIds := do
  let map ← ofStore (s.resolveGroup fuel room group)
  if map.vals.all ruma.isEventId then return map else .error (.codec "event id")

structure Held where
  state : StateIds
  group : Nat
  alloc : Alloc

def stateBefore (ruma : Ruma) (s : Store) (fuel : Nat) (version : RoomVersion) (room : RoomId)
    (isCreate : Bool) (fetch : EventId → Option IdentifiedPdu) (prevGroups : OrdSet Nat)
    (alloc : Alloc) : Except RoomError Held :=
  if isCreate then .ok ⟨∅, 0, alloc⟩
  else
    match prevGroups.toList with
    | [g] => do
      let state ← materialize ruma s fuel room g
      return ⟨state, g, alloc⟩
    | groups => do
      let sets ← groups.mapM (materialize ruma s fuel room)
      let resolved ← ofStateRes (StateRes.resolve ruma version fetch fuel sets)
      let (alloc, g) := allocFull alloc resolved
      return ⟨resolved, g, alloc⟩

def stateView (version : RoomVersion) (event : IdentifiedPdu) (state : StateIds)
    (fetch : EventId → Option IdentifiedPdu) : Except RoomError (OrdMap Key IdentifiedPdu) :=
  (StateRes.neededKeys version event).toList.foldlM (fun view key =>
    match state[key]? with
    | none => .ok view
    | some id =>
      match fetch id with
      | none => .error (.missingEvents [id])
      | some e => .ok (view.insert key e)) ∅

/-! ## Step 5: the state after, extremities and current state -/

/-- The state after the event: unchanged, a delta over the state before, or a snapshot when the
delta chain is at its cap. -/
def stateAfter (s : Store) (room : RoomId) (isCreate : Bool) (event : IdentifiedPdu)
    (before : Held) : Except RoomError Held :=
  match Event.stateKey event with
  | none => .ok before
  | some sk =>
    let key : Key := (Event.eventType event, sk)
    let state := before.state.insert key event.eventId
    let full : Held := let (alloc, g) := allocFull before.alloc state; ⟨state, g, alloc⟩
    if isCreate then .ok full
    else
      match s.group[(room, before.group)]? with
      | none => .error (.storage ("state group " ++ toString before.group ++ " missing"))
      | some p =>
        if p.chainLen + 1 < maxGroupChain then
          let (alloc, g) := allocDelta before.alloc before.group (p.chainLen + 1) key event.eventId
          .ok ⟨state, g, alloc⟩
        else .ok full

def newExtremities (roomMeta : Option RoomMeta) (event : IdentifiedPdu) : OrdSet EventId :=
  let old : OrdSet EventId := OrdSet.extend ∅ ((roomMeta.map RoomMeta.extremities).getD [])
  ((Event.prevEvents event).foldl (fun ext id => ext.erase id) old).insert event.eventId

def extremityState (ruma : Ruma) (s : Store) (fuel : Nat) (room : RoomId) (event : IdentifiedPdu)
    (after : StateIds) (id : EventId) : Except RoomError StateIds :=
  if id = event.eventId then .ok after
  else
    match s.event[id]? with
    | none => .error (.missingEvents [id])
    | some se => materialize ruma s fuel room se.stateGroupAfter

def currentState (ruma : Ruma) (s : Store) (fuel : Nat) (version : RoomVersion) (room : RoomId)
    (event : IdentifiedPdu) (fetch : EventId → Option IdentifiedPdu)
    (extremities : OrdSet EventId) (after : Held) : Except RoomError Held :=
  if extremities.size = 1 then .ok after
  else do
    let sets ← extremities.toList.mapM (extremityState ruma s fuel room event after.state)
    let resolved ← ofStateRes (StateRes.resolve ruma version fetch fuel sets)
    if resolved == after.state then return after
    else
      let (alloc, g) := allocFull after.alloc resolved
      return ⟨resolved, g, alloc⟩

/-! ## Redactions -/

def senderMayRedact (ruma : Ruma) (version : RoomVersion) (event : IdentifiedPdu)
    (before : StateIds) (fetch : EventId → Option IdentifiedPdu) : Except RoomError Bool :=
  match before[createKey]?.bind fetch with
  | none => .ok false
  | some create =>
    match RoomPowerLevels.resolve ruma version create (before[plKey]?.bind fetch) with
    | .error e => .error (.malformed ("malformed state: " ++ e.reason))
    | .ok pls => .ok ((pls.user (Event.sender event)).satisfies pls.redact)

/-- What an accepted redaction does to its target, or `none` when it can never apply. -/
def redactionDirective (ruma : Ruma) (s : Store) (version : RoomVersion) (room : RoomId)
    (event : IdentifiedPdu) (before : StateIds) (fetch : EventId → Option IdentifiedPdu) :
    Except RoomError (Option String) :=
  match (strProp (Event.content event) "redacts").filter ruma.isEventId with
  | none => .ok none
  | some targetId =>
    match s.event[targetId]? with
    | none => do
      let mayRedact ← senderMayRedact ruma version event before fetch
      return some (RedactDirective.pending targetId mayRedact).encode
    | some stored =>
      if stored.rejected.isSome then .ok none
      else do
        let target ← parseStored ruma targetId stored
        if Event.roomId target ≠ some room then return none
        else if Event.sender target = Event.sender event then
          return some (RedactDirective.applies targetId).encode
        else if ← senderMayRedact ruma version event before fetch then
          return some (RedactDirective.applies targetId).encode
        else return none

def redactsOf (ruma : Ruma) (s : Store) (version : RoomVersion) (room : RoomId)
    (event : IdentifiedPdu) (before : StateIds) (fetch : EventId → Option IdentifiedPdu) :
    Except RoomError (Option String) :=
  if Event.eventType event = "m.room.redaction" then
    redactionDirective ruma s version room event before fetch
  else .ok none

/-! ## The pipeline -/

def rejectedCommand (room : RoomId) (event : IdentifiedPdu) (raw : JsonObject) (rejected : Rejected)
    (newGroups : List (Nat × StateGroup)) (stateGroupAfter nextGroup : Nat) : AppendEvent where
  roomId := room
  eventId := event.eventId
  raw := raw
  depth := event.pdu.depth
  rejected := some rejected
  newGroups := newGroups
  stateGroupAfter := stateGroupAfter
  newCurrentGroup := 0
  newExtremities := []
  nextGroup := nextGroup
  createVersion := none
  redacts := none
  relay := false

def acceptedCommand (version : RoomVersion) (room : RoomId) (isCreate relay : Bool)
    (event : IdentifiedPdu) (raw : JsonObject) (after current : Held)
    (extremities : OrdSet EventId) (redacts : Option String) : AppendEvent where
  roomId := room
  eventId := event.eventId
  raw := raw
  depth := event.pdu.depth
  rejected := none
  newGroups := current.alloc.newGroups
  stateGroupAfter := after.group
  newCurrentGroup := current.group
  newExtremities := extremities.toList
  nextGroup := current.alloc.nextGroup
  createVersion := if isCreate then some version.asStr else none
  redacts := redacts
  relay := relay

def startAlloc (roomMeta : Option RoomMeta) : Alloc := ⟨(roomMeta.map RoomMeta.nextGroup).getD 1, []⟩

/-- What the pipeline decided for an event: the command, and the states it computed on the way. Only
the command is proposed. -/
structure Decision where
  cmd : AppendEvent
  before : StateIds
  after : StateIds

/-- Steps 3b to 5, for an event that passed the checks against its own auth chain. -/
def settle (ruma : Ruma) (s : Store) (fuel : Nat) (version : RoomVersion) (room : RoomId)
    (isCreate relay : Bool) (event : IdentifiedPdu) (raw : JsonObject) (prevGroups : OrdSet Nat) :
    Except RoomError Decision := do
  let roomMeta := s.room[room]?
  let fetch := fetchFor ruma s event
  let before ←
    stateBefore ruma s fuel version room isCreate fetch prevGroups (startAlloc roomMeta)
  let view ← stateView version event before.state fetch
  match Auth.checkStateDependent ruma version event (viewOf view) with
  | .error r =>
    return ⟨rejectedCommand room event raw (.state r.toText) before.alloc.newGroups before.group
      before.alloc.nextGroup, before.state, before.state⟩
  | .ok () =>
    let after ← stateAfter s room isCreate event before
    let extremities := newExtremities roomMeta event
    let current ← currentState ruma s fuel version room event fetch extremities after
    let redacts ← redactsOf ruma s version room event before.state fetch
    return ⟨acceptedCommand version room isCreate relay event raw after current extremities redacts,
      before.state, after.state⟩

def judge (ruma : Ruma) (s : Store) (fuel : Nat) (version : RoomVersion) (room : RoomId)
    (isCreate relay rejectMissingAuth : Bool) (event : IdentifiedPdu) (raw : JsonObject) :
    Except RoomError Decision := do
  let roomMeta := s.room[room]?
  let rejectChain (reason : String) : Decision :=
    ⟨rejectedCommand room event raw (.authChain reason) [] 0 (startAlloc roomMeta).nextGroup, ∅, ∅⟩
  if !isCreate && roomMeta.isNone then .error (.unknownRoom room)
  else
    let (held, missingAuth) ← fetchAuth ruma s (Event.authEvents event)
    let (prevGroups, missing) ← fetchPrevs s fuel (Event.prevEvents event)
    -- Missing prevs dominate: once they are filled the retry surfaces the missing auth events.
    if !missing.isEmpty then .error (.missingEvents missing)
    else if !missingAuth.isEmpty then
      if rejectMissingAuth then
        return rejectChain ("auth events unfetchable: " ++ toString (missingAuth.map debugStr))
      else .error (.missingAuthEvents missingAuth)
    else
      match ← checkOwnAuth ruma s version roomMeta isCreate event held with
      | .error r => return rejectChain r.toText
      | .ok () => settle ruma s fuel version room isCreate relay event raw prevGroups

/-- Pipeline steps 1 to 5 for one event: the id of an event already stored, or the decision whose
command is proposed. -/
def processInner (ruma : Ruma) (keys : PublicKeyMap) (s : Store) (fuel : Nat) (raw : JsonObject)
    (version : RoomVersion) (room : RoomId) (isCreate relay rejectMissingAuth : Bool) :
    Except RoomError (EventId ⊕ Decision) := do
  let (raw, pdu) ← vet ruma keys version raw
  let eventId ← ofFormat (ruma.eventId raw version)
  if s.event.contains eventId then return .inl eventId
  else
    let decision ← judge ruma s fuel version room isCreate relay rejectMissingAuth ⟨eventId, pdu⟩ raw
    return .inr decision

end Pipeline

end Saltator.Room
