import Saltator.Room.Pipeline

/-!
# The room server's calls

Every way a command comes about: the pipeline's entry points, and the imports that trust another
server's lists wholesale. A call reads the store once and yields the command to propose, or the id of
an event that is already stored.
-/

namespace Saltator.Room

open Std
open StateRes (Key StateIds createKey)

/-- What a server brings to a call: the keys it trusts, its own signature, and whether its shard
records client transactions. -/
structure Server where
  ruma : Ruma
  keys : PublicKeyMap
  sign : RoomVersion → JsonObject → Except String JsonObject
  txnRecords : Bool

structure Server.Lawful (server : Server) : Prop where
  ruma : server.ruma.Lawful
  sign_lookup : ∀ version raw signed, server.sign version raw = .ok signed →
    ∀ key ∈ protectedMembers, signed.lookup key = raw.lookup key

namespace Server

open Pipeline

variable (server : Server) (s : Store) (fuel : Nat)

/-! ## Pipeline entry points -/

def ingestPdu (raw : JsonObject) (rejectMissingAuth : Bool) :
    Except RoomError (EventId ⊕ Decision) := do
  let (version, room, isCreate) ← classify server.ruma s raw
  processInner server.ruma server.keys s fuel raw version room isCreate false rejectMissingAuth

def signEvent (version : RoomVersion) (raw : JsonObject) : Except RoomError JsonObject :=
  (server.sign version raw).mapError .sign

def coSigned (version : RoomVersion) (raw : JsonObject) (coSign : Bool) : Except RoomError JsonObject :=
  if coSign then server.signEvent version raw else .ok raw

def residentApply (raw : JsonObject) (coSign : Bool) : Except RoomError (EventId ⊕ Decision) := do
  let (version, room, _) ← classify server.ruma s raw
  let signed ← server.coSigned version raw coSign
  processInner server.ruma server.keys s fuel signed version room false true false

def tipDepth (extremities : List EventId) : Except RoomError Nat :=
  extremities.foldlM (fun depth id =>
    match s.event[id]? with
    | none => .error (.missingEvents [id])
    | some prev => .ok (max depth prev.depth)) 0

def stringArray (l : List String) : Json := .array (l.map Json.string)

def canonical (raw : JsonObject) : Except String JsonObject :=
  if Json.membersInRange raw then .ok raw
  else .error "The number found is not a valid `js_int::Int`"

def unsignedEvent (room : RoomId) (sender : UserId) (eventType : String) (stateKey : Option String)
    (content : JsonObject) (ts : Nat) (authEvents prevEvents : List EventId) (depth : Nat) :
    JsonObject :=
  [("auth_events", stringArray authEvents), ("content", .object content), ("depth", .integer depth),
    ("origin_server_ts", .integer ts), ("prev_events", stringArray prevEvents),
    ("room_id", .string room), ("sender", .string sender)] ++
  (match stateKey with
    | some sk => [("state_key", .string sk)]
    | none => []) ++
  [("type", .string eventType)]

def draft (room : RoomId) (sender : UserId) (eventType : String) (stateKey : Option String)
    (content : JsonObject) (ts : Nat) : Except RoomError (JsonObject × RoomVersion) :=
  match s.room[room]? with
  | none => .error (.unknownRoom room)
  | some roomMeta => do
    let version ← parseVersion roomMeta.version
    let current ← ofStore (s.resolveGroup fuel room roomMeta.currentGroup)
    let depth ← tipDepth s roomMeta.extremities
    let content ← (canonical content).mapError fun e =>
      .malformed ("content not canonical JSON: " ++ e)
    let authTypes := Auth.authTypesForEvent version eventType sender stateKey content
    let authEvents := authTypes.toList.filterMap fun k => current[k]?
    let raw ← (canonical (unsignedEvent room sender eventType stateKey content ts authEvents
      roomMeta.extremities (depth + 1))).mapError .malformed
    return (raw, version)

/-- Refuse an event that is too large before it is signed. -/
def checkSize (raw : JsonObject) : Except RoomError Unit :=
  match server.ruma.toText raw with
  | .error e => .error (.malformed ("unserializable: " ++ e))
  | .ok text =>
    if text.utf8ByteSize > maxPduBytes then .error (.validation (.tooLarge text.utf8ByteSize))
    else .ok ()

def buildLocal (room : RoomId) (sender : UserId) (eventType : String) (stateKey : Option String)
    (content : JsonObject) (ts : Nat) : Except RoomError (JsonObject × RoomVersion) := do
  let (raw, version) ← draft s fuel room sender eventType stateKey content ts
  server.checkSize raw
  return (← server.signEvent version raw, version)

/-- The content of a handshake's membership event. A restricted join names the authorising user, so
that their membership is among the auth events. -/
def membershipContent (membership : String) (authoriser : Option UserId) : JsonObject :=
  (match authoriser with
    | some authoriser => [("join_authorised_via_users_server", .string authoriser)]
    | none => []) ++
  [("membership", .string membership)]

/-- The membership event that a handshake hands out, for another server to complete and sign. -/
def makeMembershipTemplate (room : RoomId) (user : UserId) (membership : String)
    (authoriser : Option UserId) (now : Nat) : Except RoomError (RoomVersion × JsonObject) := do
  let (template, version) ← draft s fuel room user "m.room.member" (some user)
    (membershipContent membership authoriser) now
  return (version, template)

def sendLocal (room : RoomId) (sender : UserId) (eventType : String) (stateKey : Option String)
    (content : JsonObject) (ts : Nat) : Except RoomError (EventId ⊕ Decision) := do
  let (raw, version) ← server.buildLocal s fuel room sender eventType stateKey content ts
  processInner server.ruma server.keys s fuel raw version room false false false

/-- Build and sign a create event. `fresh` is the generated room id of versions that carry one. -/
def buildCreate (creator : UserId) (version : RoomVersion) (content : JsonObject) (fresh : RoomId)
    (ts : Nat) : Except RoomError (RoomId × JsonObject) := do
  let content := (content.filter fun (k, _) => k ≠ "room_version") ++
    [("room_version", .string version.asStr)]
  let content :=
    if version.creatorInCreateContent then
      (content.filter fun (k, _) => k ≠ "creator") ++ [("creator", .string creator)]
    else content
  let raw : JsonObject :=
    [("auth_events", .array []), ("content", .object content), ("depth", .integer 1),
      ("origin_server_ts", .integer ts), ("prev_events", .array [])] ++
    (if version.roomIdIsCreateEventId then [] else [("room_id", .string fresh)]) ++
    [("sender", .string creator), ("state_key", .string ""), ("type", .string "m.room.create")]
  let raw ← server.signEvent version raw
  let room ← createRoomId server.ruma version raw
  return (room, raw)

def createRoom (creator : UserId) (version : RoomVersion) (content : JsonObject) (fresh : RoomId)
    (ts : Nat) : Except RoomError (EventId ⊕ Decision) := do
  let (room, raw) ← server.buildCreate creator version content fresh ts
  processInner server.ruma server.keys s fuel raw version room true false false

/-- The form in which a locally sent event is proposed. -/
def stamp (txn : Option TxnStamp) (cmd : AppendEvent) : RoomCommand :=
  match txn with
  | some txn => if server.txnRecords then .appendStamped cmd txn else .append cmd
  | none => .append cmd

/-! ## Import of a room -/

/-- Support events and the state map, while the lists of a join response are read. -/
structure Dump where
  events : List ImportEvent
  seen : OrdSet EventId
  stateMap : StateIds

def importEventOf (id : EventId) (obj : JsonObject) : ImportEvent := ⟨id, obj, natProp obj "depth"⟩

/-- The `(type, state_key)` of a state event. -/
def stateKeyOf (obj : JsonObject) : Option Key :=
  match strProp obj "type", strProp obj "state_key" with
  | some ty, some sk => some (ty, sk)
  | _, _ => none

def Dump.add (d : Dump) (id : EventId) (obj : JsonObject) (inState : Bool) : Dump where
  events := if d.seen.contains id then d.events else d.events ++ [importEventOf id obj]
  seen := d.seen.insert id
  stateMap :=
    if inState then
      match stateKeyOf obj with
      | some key => d.stateMap.insert key id
      | none => d.stateMap
    else d.stateMap

def importRoom (version : RoomVersion) (join : JsonObject) (state authChain : List JsonObject) :
    Except RoomError ImportRoom := do
  let joinId ← ofFormat (server.ruma.eventId join version)
  let room ← strOf join "room_id"
  let dump ← (authChain ++ state).foldlM (fun (d : Dump) obj => do
    let id ← ofFormat (server.ruma.eventId obj version)
    return d.add id obj true) ⟨[], ∅, ∅⟩
  let sender ← strOf join "sender"
  -- The join membership is always the joiner's current state.
  let stateMap := dump.stateMap.insert ("m.room.member", sender) joinId
  match stateMap[createKey]? with
  | none => .error (.malformed "send_join state has no create event")
  | some createEventId =>
    return { roomId := room, version := version.asStr, createEventId, events := dump.events,
             joinEventId := joinId, joinRaw := join, joinDepth := natProp join "depth",
             state := stateMap.toList,
             historyFrontier := (prevEventIds join).filter fun id => !dump.seen.contains id }

/-! ## Import of history -/

/-- A backfilled event with its sort key. -/
abbrev Dated := Nat × Nat × EventId × JsonObject

def newestFirst (a b : Dated) : Bool :=
  (compare (b.1, b.2.1, b.2.2.1) (a.1, a.2.1, a.2.2.1)).isLE

def dateObject (version : RoomVersion) (room : RoomId) (acc : List Dated × OrdSet EventId)
    (obj : JsonObject) : List Dated × OrdSet EventId :=
  if (strProp obj "room_id").any (· ≠ room) then acc
  else
    match server.ruma.eventId obj version with
    | .error _ => acc
    | .ok id =>
      if acc.2.contains id then acc
      else
        (acc.1 ++ [(natProp obj "depth", natProp obj "origin_server_ts", id, obj)], acc.2.insert id)

def importHistory (room : RoomId) (pdus : List JsonObject) : Except RoomError ImportHistory :=
  match s.room[room]? with
  | none => .error (.malformed ("history import: unknown room " ++ room))
  | some roomMeta => do
    let version ← parseVersion roomMeta.version
    let (dated, _) := pdus.foldl (server.dateObject version room) ([], ∅)
    return ⟨room, (dated.insertionSort fun a b => newestFirst a b).map fun d =>
      ⟨d.2.2.1, d.2.2.2, d.1⟩⟩

/-! ## Import of a segment -/

/-- The walk over one event's auth references. -/
structure ResolveWalk where
  pending : List EventId
  visiting : OrdSet EventId
  verdict : OrdMap EventId Bool

/-- One reference: settled before, part of this fetch, or held already. -/
def resolvableRound (fetchedAuth : OrdMap EventId (List EventId)) (seed : EventId)
    (w : ResolveWalk) : Except RoomError (ResolveWalk ⊕ (Bool × OrdMap EventId Bool)) :=
  match w.pending with
  | [] => .ok (.inr (true, w.visiting.toList.foldl (fun v id => v.insert id true) w.verdict))
  | id :: pending =>
    if w.verdict[id]? = some false then .ok (.inr (false, w.verdict.insert seed false))
    else if w.verdict.contains id || w.visiting.contains id then .ok (.inl { w with pending })
    else
      let visiting := w.visiting.insert id
      match fetchedAuth[id]? with
      | some refs => .ok (.inl { w with pending := refs.reverse ++ pending, visiting })
      | none =>
        if s.event.contains id then .ok (.inl ⟨pending, visiting, w.verdict.insert id true⟩)
        else .ok (.inr (false, (w.verdict.insert id false).insert seed false))

def resolvable (fetchedAuth : OrdMap EventId (List EventId)) (verdict : OrdMap EventId Bool)
    (seed : EventId) : Except RoomError (Bool × OrdMap EventId Bool) :=
  Loop.run .outOfFuel (resolvableRound s fetchedAuth seed) fuel ⟨[seed], ∅, verdict⟩

def fetchedAuthOf (version : RoomVersion) (objs : List JsonObject) : OrdMap EventId (List EventId) :=
  objs.foldl (fun m obj =>
    match server.ruma.eventId obj version with
    | .ok id => m.insert id (authEventIds obj)
    | .error _ => m) ∅

def snapshotObject (version : RoomVersion) (fetchedAuth : OrdMap EventId (List EventId))
    (acc : Dump × OrdMap EventId Bool) (entry : Bool × JsonObject) :
    Except RoomError (Dump × OrdMap EventId Bool) :=
  match server.ruma.eventId entry.2 version with
  | .error _ => .ok acc
  | .ok id => do
    let (ok, verdict) ← resolvable s fuel fetchedAuth acc.2 id
    if ok then return (acc.1.add id entry.2 entry.1, verdict) else return (acc.1, verdict)

def chainEvent (version : RoomVersion) (obj : JsonObject) : Option ImportEvent :=
  match server.ruma.eventId obj version with
  | .ok id => some (importEventOf id obj)
  | .error _ => none

def chainFrontier (version : RoomVersion) : List JsonObject → List EventId
  | [] => []
  | obj :: _ => if (server.chainEvent version obj).isSome then prevEventIds obj else []

/-- Append a chain recovered past an unfillable gap, anchored on a state snapshot. -/
def importSegment (room : RoomId) (state authChain chain : List JsonObject) :
    Except RoomError ImportSegment :=
  match s.room[room]? with
  | none => .error (.malformed ("segment import: unknown room " ++ room))
  | some roomMeta => do
    let version ← parseVersion roomMeta.version
    let fetchedAuth := server.fetchedAuthOf version (authChain ++ state ++ chain)
    let entries := authChain.map (fun o => (false, o)) ++ state.map fun o => (true, o)
    let (dump, _) ←
      entries.foldlM (server.snapshotObject s fuel version fetchedAuth) (⟨[], ∅, ∅⟩, ∅)
    return ⟨room, dump.events, dump.stateMap.toList, chain.filterMap (server.chainEvent version),
      server.chainFrontier version chain⟩

end Server

/-! ## Calls -/

/-- A call on the room server that may propose a command. -/
inductive Call where
  | ingest (raw : JsonObject) (rejectMissingAuth : Bool)
  | resident (raw : JsonObject) (coSign : Bool)
  | send (room : RoomId) (sender : UserId) (eventType : String) (stateKey : Option String)
      (content : JsonObject) (ts : Nat) (txn : Option TxnStamp)
  | create (creator : UserId) (version : RoomVersion) (content : JsonObject) (fresh : RoomId)
      (ts : Nat)
  | importRoom (version : RoomVersion) (join : JsonObject) (state authChain : List JsonObject)
  | importHistory (room : RoomId) (pdus : List JsonObject)
  | importSegment (room : RoomId) (state authChain chain : List JsonObject)
  | receipt (cmd : ReceiptCmd)

namespace Call

/-- The command a call proposes, computed from one reading of the store; an event that is already
stored needs none. -/
def prepare (server : Server) (s : Store) (fuel : Nat) : Call → Except RoomError (EventId ⊕ RoomCommand)
  | .ingest raw rejectMissingAuth => do
    return (← server.ingestPdu s fuel raw rejectMissingAuth).map id fun d => .append d.cmd
  | .resident raw coSign => do
    return (← server.residentApply s fuel raw coSign).map id fun d => .append d.cmd
  | .send room sender eventType stateKey content ts txn => do
    return (← server.sendLocal s fuel room sender eventType stateKey content ts).map id
      fun d => if d.cmd.rejected.isSome then .append d.cmd else server.stamp txn d.cmd
  | .create creator version content fresh ts => do
    return (← server.createRoom s fuel creator version content fresh ts).map id fun d => .append d.cmd
  | .importRoom version join state authChain => do
    return .inr (.importRoom (← server.importRoom version join state authChain))
  | .importHistory room pdus => do return .inr (.importHistory (← server.importHistory s room pdus))
  | .importSegment room state authChain chain => do
    return .inr (.importSegment (← server.importSegment s fuel room state authChain chain))
  | .receipt cmd => .ok (.inr (.receipt cmd))

end Call

/-- One call run to completion on a single node: prepare, then apply. `none` when either fails or
the command does not meet `P`. -/
def Server.serve (server : Server) (P : Store → RoomCommand → Prop) [∀ s cmd, Decidable (P s cmd)]
    (fuel : Nat) (s : Store) (call : Call) : Option Store :=
  match call.prepare server s fuel with
  | .error _ => none
  | .ok (.inl _) => some s
  | .ok (.inr cmd) => if P s cmd then ((Machine.apply s s cmd).toOption).map Prod.fst else none

def Server.serveAll (server : Server) (P : Store → RoomCommand → Prop)
    [∀ s cmd, Decidable (P s cmd)] (fuel : Nat) (s : Store) (calls : List Call) : Option Store :=
  calls.foldlM (server.serve P fuel) s

def Server.sample (trusted : List String) : Server where
  ruma := Ruma.sample
  keys := trusted.foldl (fun keys name => keys.insert name ∅) ∅
  sign _ raw := .ok raw
  txnRecords := true

theorem Server.sample_lawful (trusted : List String) : (Server.sample trusted).Lawful where
  ruma := Ruma.sample_lawful
  sign_lookup _ _ _ h _ _ := by rw [Except.ok.inj h]

end Saltator.Room
