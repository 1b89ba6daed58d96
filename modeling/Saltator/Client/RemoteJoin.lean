import Saltator.Client.RoomUtil
import Saltator.Federation.Backfill
import Saltator.Federation.Destinations
import Saltator.Federation.KeyCache
import Saltator.Room.Elsewhere
import Saltator.User.Machine

/-!
# Joining through another server

A join of a room that is not held goes through a resident: the handshake yields a copy of the join
event and two lists of events, and these are imported as the room. What the import takes from the
answer, and what of it has been checked against the request, are told apart by `onlyJoins_iff`.
-/

namespace Saltator.Client

open Std
open Saltator.Outcome
open Room
open Room.Machine
open StateRes (Key StateIds createKey)
open Federation (Signer Signing KeyCache HttpAnswer OutboundError JoinError JoinResponse Request
  joinRemoteRoom joinResponse makePath sendPath verQuery shardOf serverOf)

/-! ## The server -/

/-- What joins use of federation: the signer, the answers of other servers to the handshake, and
their answers to requests for keys. -/
structure FederationState where
  signer : Signer
  signing : Signing
  answer : Request → Except OutboundError Json
  keyAnswer : String → HttpAnswer
  /-- The time of the key requests. -/
  now : Nat

structure CsState where
  serverName : String
  ruma : Ruma
  txnRecords : Bool
  digest : RoomId → UInt64
  count : UInt16
  fuel : Nat

structure Shards where
  rooms : UInt16 → Store
  keys : UInt16 → PublicKeyMap
  keyCache : KeyCache
  users : User.Store

def OutboundError.text : OutboundError → String
  | .http reason | .sign reason | .encode reason | .ssrf reason => reason
  | .status code _ => "status " ++ toString code.toNat
  | .badMethod => "bad method"
  | .tooLarge => "response too large"

def JoinError.text : JoinError → String
  | .transport e => OutboundError.text e
  | .malformed reason | .sign reason => reason
  | .unsupportedVersion v => "unsupported room version " ++ v

def remoteStatus : JoinError → Option UInt16
  | .transport (.status code _) => some code
  | _ => none

def residentOfRoom (room : RoomId) : Option String :=
  match (room.toList.dropWhile (· ≠ ':')).drop 1 with
  | [] => none
  | server => some (String.ofList server)

/-- The ids that the events named in `auth_events` lead to among the given events. -/
def closureRound (authOf : OrdMap EventId (List EventId)) (w : List EventId × OrdSet EventId) :
    Except ApiError ((List EventId × OrdSet EventId) ⊕ OrdSet EventId) :=
  match w.1 with
  | [] => .ok (.inr w.2)
  | id :: stack =>
    if w.2.contains id then .ok (.inl (stack, w.2))
    else .ok (.inl ((authOf[id]?.getD []).reverse ++ stack, w.2.insert id))

namespace CsState

variable (cs : CsState) (fed : FederationState)

def shard (room : RoomId) : UInt16 := shardOf cs.digest room cs.count

def forRoom (w : Shards) (room : RoomId) : Store := w.rooms (cs.shard room)

def node (w : Shards) (room : RoomId) : Node Unit where
  server := ⟨cs.ruma, w.keys (cs.shard room), fed.signer.sign, cs.txnRecords⟩
  store := cs.forRoom w room
  remote := ()
  proposals := []

/-! ## The handshake -/

def pushCandidate (candidates : List String) (server : String) : List String :=
  if server ≠ cs.serverName ∧ server ∉ candidates then candidates ++ [server] else candidates

/-- The servers to join through: the hinted ones, and only without a hint of another server those
that the room id or a stale copy of the room name. -/
def candidates (w : Shards) (room : RoomId) (via : List String) : List String :=
  let hinted := via.foldl cs.pushCandidate []
  if hinted = [] then
    ((residentOfRoom room).toList ++ ((Serving.remoteServersInRoom cs.ruma (cs.forRoom w room) cs.fuel room
        cs.serverName).toOption.getD [])).foldl cs.pushCandidate []
  else hinted

def handshake (room : RoomId) (user : UserId) (destination : String) : Except JoinError JoinResponse :=
  ((joinRemoteRoom fed.signer destination room user).eval (fun _ q => (fed.answer q, ())) ()).1

def askResidents (room : RoomId) (user : UserId) (lastErr : String) :
    List String → Except ApiError JoinResponse
  | [] => .error ⟨502, "M_UNKNOWN", "remote join failed: " ++ lastErr⟩
  | destination :: rest =>
    match handshake fed room user destination with
    | .ok resp => .ok resp
    | .error e =>
      if remoteStatus e = some 403 then .error (.forbidden (JoinError.text e))
      else askResidents room user (JoinError.text e) rest

def answerOf (w : Shards) (room : RoomId) (user : UserId) (via : List String) :
    Except ApiError JoinResponse :=
  if cs.candidates w room via = [] then .error (.notFound "Cannot determine a server to join through")
  else askResidents fed room user "" (cs.candidates w room via)

/-! ## What is kept of the answer -/

def trustServer (w : Shards) (server : String) : Shards :=
  let (fetched, keyCache) :=
    w.keyCache.keysFor cs.ruma fed.signing server fed.now (fed.keyAnswer server)
  match fetched.toOption.bind fun keys => keys[server]? with
  | some set => { w with keyCache, keys := fun idx => (w.keys idx).insert server set }
  | none => { w with keyCache }

def senderServers (events : List JsonObject) : OrdSet String :=
  OrdSet.extend ∅ (events.filterMap fun ev => (strProp ev "sender").bind (serverOf cs.ruma))

def trustEventServers (w : Shards) (events : List JsonObject) : Shards :=
  (cs.senderServers events).toList.foldl (cs.trustServer fed) w

def authOf (events : List JsonObject) (version : RoomVersion) : OrdMap EventId (List EventId) :=
  events.foldl (fun m ev =>
    match cs.ruma.eventId ev version with
    | .ok id => m.insert id (authEventIds ev)
    | .error _ => m) ∅

def joinAuthClosure (join : JsonObject) (events : List JsonObject) (version : RoomVersion) :
    Except ApiError (OrdSet EventId) :=
  Loop.run (.internal "out of fuel") (closureRound (cs.authOf events version)) cs.fuel
    ((authEventIds join).reverse, ∅)

def isForged (w : Shards) (room : RoomId) (version : RoomVersion) (critical : OrdSet EventId)
    (ev : JsonObject) : Bool :=
  critical.contains ((cs.ruma.eventId ev version).toOption.getD "") &&
    !(cs.node fed w room).verifyPduAt version ev

def kept (w : Shards) (room : RoomId) (resp : JoinResponse) : List JsonObject :=
  (resp.authChain ++ resp.state).filter ((cs.node fed w room).verifyPduAt resp.roomVersion)

/-! ## The import -/

def importRoom (w : Shards) (room : RoomId) (resp : JoinResponse) : Except ApiError Shards := do
  let verifies := (cs.node fed w room).verifyPduAt resp.roomVersion
  let cmd ← ((cs.node fed w room).server.importRoom resp.roomVersion resp.event
    (resp.state.filter verifies) (resp.authChain.filter verifies)).mapError
      fun e => .internal (reprStr e)
  return { w with
    rooms := Function.update w.rooms (cs.shard cmd.roomId)
      (applyImport (cs.forRoom w cmd.roomId) cmd).1 }

def memberChange (s : Store) (room : RoomId) (upto : Nat) (entry : Key × EventId) :
    Option User.MembershipChange := do
  if entry.1.1 = "m.room.member" then
    let raw ← rawEvent s entry.2
    let content ← objProp raw "content"
    let membership ← strProp content "membership"
    some ⟨entry.1.2, room, membership, entry.2, (strProp raw "sender").getD "", upto⟩
  else none

def projectImportedMembers (w : Shards) (room : RoomId) : Except ApiError Shards := do
  let s := cs.forRoom w room
  let current ← currentState s cs.fuel room
  return { w with
    users := (User.Machine.applyRoomChanges w.users ("import/" ++ room) s.seq
      (current.toList.filterMap (memberChange s room s.seq))).1 }

/-- Everything after the handshake. -/
def admitAnswer (w : Shards) (room : RoomId) (resp : JoinResponse) : Except ApiError Shards := do
  let events := resp.state ++ resp.authChain
  let w := cs.trustEventServers fed w events
  let critical ← cs.joinAuthClosure resp.event events resp.roomVersion
  if events.any (cs.isForged fed w room resp.roomVersion critical) then
    .error ⟨502, "M_UNKNOWN", "remote join returned auth-chain state that failed signature verification"⟩
  else
    let w ← cs.importRoom fed w room resp
    cs.projectImportedMembers w room

/-- `joinRemote`, with the shards after it where it succeeds. -/
def joinRemote (federation : Option FederationState) (w : Shards) (room : RoomId) (user : UserId)
    (via : List String) : Except ApiError Shards :=
  match federation with
  | none => .error (.notFound "Unknown room")
  | some fed => do
    let resp ← cs.answerOf fed w room user via
    cs.admitAnswer fed w room resp

/-! ## What was asked for -/

def resident (w : Shards) (room : RoomId) (user : UserId) (via : List String) : Option String :=
  (cs.candidates w room via).find? fun destination =>
    (handshake fed room user destination).toOption.isSome

def signedId (w : Shards) (room : RoomId) (user : UserId) (via : List String) : Option EventId := do
  let destination ← cs.resident fed w room user via
  let make ← (fed.answer (.get destination (makePath "make_join" room user ++ "?" ++ verQuery))).toOption
  let (_, _, id) ← (fed.signer.joinEvent room user make).toOption
  return id

end CsState

def Puts (s t : Store) (id : EventId) : Prop :=
  ∃ room n, s.seq < n ∧ n ≤ t.seq ∧ t.timeline[n]? = some (.event room id)

def Stores (s t : Store) (id : EventId) : Prop := s.event[id]? = none ∨ Puts s t id

namespace CsState

variable (cs : CsState) (fed : FederationState)

/-- Nothing but the join that was asked for has come in. -/
structure OnlyJoins (before after : Shards) (room : RoomId) (version : RoomVersion)
    (ours : Option EventId) : Prop where
  others : ∀ idx other, other ≠ room → Untouched other (before.rooms idx) (after.rooms idx)
  timeline : ∀ idx id, Puts (before.rooms idx) (after.rooms idx) id → some id = ours
  stored : ∀ idx (id : EventId) (e : StoredEvent), (after.rooms idx).event[id]? = some e →
    Stores (before.rooms idx) (after.rooms idx) id →
      InRoom (cs.node fed after room).server version e.raw room ∧
        (cs.node fed after room).verifyPduAt version e.raw
  founded : ∀ idx m, (before.rooms idx).room[room]? = some m →
    ∃ m', (after.rooms idx).room[room]? = some m' ∧ m'.version = m.version ∧
      m'.createEventId = m.createEventId

def idOf (version : RoomVersion) (o : JsonObject) : Option EventId :=
  (cs.ruma.eventId o version).toOption

def createOf (version : RoomVersion) (objects : List JsonObject) : Option EventId :=
  ((objects.filter fun o => Server.stateKeyOf o = some createKey).getLast?).bind (cs.idOf version)

/-- The answer's join event is on the timeline already, of a room that is held. -/
def Known (w : Shards) (resp : JoinResponse) : Prop :=
  ∃ named id m, strProp resp.event "room_id" = some named ∧ cs.idOf resp.roomVersion resp.event = some id ∧
    (cs.forRoom w named).room[named]? = some m ∧ (cs.forRoom w named).onTimeline id

/-- The answer is about the room and the event that the resident was asked about. -/
structure Honest (w : Shards) (room : RoomId) (resp : JoinResponse) (ours : Option EventId) : Prop where
  named : strProp resp.event "room_id" = some room
  own : cs.idOf resp.roomVersion resp.event = ours
  inRoom : InRoom (cs.node fed w room).server resp.roomVersion resp.event room
  verifies : (cs.node fed w room).verifyPduAt resp.roomVersion resp.event
  /-- The objects that are new, one for each id. -/
  listed : ∀ id o, (cs.kept fed w room resp).find? (fun o => cs.idOf resp.roomVersion o = some id) =
      some o → (cs.forRoom w room).event[id]? = none → some id ≠ ours →
    InRoom (cs.node fed w room).server resp.roomVersion o room
  founded : ∀ m, (cs.forRoom w room).room[room]? = some m → m.version = resp.roomVersion.asStr ∧
    cs.createOf resp.roomVersion (cs.kept fed w room resp) = some m.createEventId

end CsState

/-! ## The command -/

section Command

variable {cs : CsState} {version : RoomVersion} {server : Server} {join : JsonObject}
  {state authChain : List JsonObject} {cmd : ImportRoom} {id : EventId}

/-- What the lists of an answer come to. -/
structure Dumped (cs : CsState) (version : RoomVersion) (done : List JsonObject) (d : Server.Dump) :
    Prop where
  seen : ∀ id, id ∈ d.seen ↔ ∃ o ∈ done, cs.idOf version o = some id
  first : ∀ ev ∈ d.events, done.find? (fun o => cs.idOf version o = some ev.eventId) = some ev.raw
  listed : ∀ id ∈ d.seen, ∃ ev ∈ d.events, ev.eventId = id
  create : d.stateMap[createKey]? = cs.createOf version done

theorem idOf_eq_some {o : JsonObject} :
    cs.idOf version o = some id ↔ cs.ruma.eventId o version = .ok id := toOption_eq_some

theorem Dumped.nil : Dumped cs version [] ⟨[], ∅, ∅⟩ :=
  ⟨by simp, by simp, by simp, by simp [CsState.createOf]⟩

theorem Dumped.add {done : List JsonObject} {d : Server.Dump} {o : JsonObject}
    (h : Dumped cs version done d) (named : cs.idOf version o = some id) :
    Dumped cs version (done ++ [o]) (d.add id o true) where
  seen a := by
    have grown : a ∈ (d.add id o true).seen ↔ a = id ∨ a ∈ d.seen := OrdSet.mem_insert'
    rw [grown, h.seen a]
    simp only [List.mem_append, List.mem_singleton, or_and_right, exists_or, exists_eq_left, named,
      Option.some.injEq]
    grind
  first ev mem := by
    rw [List.find?_append]
    unfold Server.Dump.add at mem
    dsimp only at mem
    split at mem
    · rw [h.first ev mem]
      rfl
    rename_i fresh
    rcases List.mem_append.1 mem with mem | mem
    · rw [h.first ev mem]
      rfl
    · obtain rfl := List.mem_singleton.1 mem
      have absent : done.find? (fun o => cs.idOf version o = some id) = none := by
        rw [List.find?_eq_none]
        intro o' mem' same
        exact fresh (ExtTreeSet.contains_iff_mem.2 ((h.seen id).2 ⟨o', mem', by simpa using same⟩))
      have alone : [o].find? (fun o => cs.idOf version o = some id) = some o := by simp [named]
      exact (congrArg (Option.or · _) absent).trans alone
  listed a mem := by
    have grow : ∀ ev ∈ d.events, ev ∈ (d.add id o true).events := by
      intro ev mem
      unfold Server.Dump.add
      dsimp only
      split
      · exact mem
      · exact List.mem_append_left _ mem
    by_cases held : a ∈ d.seen
    · obtain ⟨ev, mem, same⟩ := h.listed a held
      exact ⟨ev, grow ev mem, same⟩
    · have same : a = id := (OrdSet.mem_insert'.1 mem).resolve_right held
      subst same
      have fresh : d.seen.contains a = false := OrdSet.contains_eq_false.2 held
      exact ⟨Server.importEventOf a o, by simp [Server.Dump.add, fresh], rfl⟩
  create := by
    unfold CsState.createOf
    rw [List.filter_append]
    have step : (d.add id o true).stateMap[createKey]? =
        if Server.stateKeyOf o = some createKey then some id else d.stateMap[createKey]? := by
      unfold Server.Dump.add
      dsimp only
      cases keyed : Server.stateKeyOf o with
      | none => simp
      | some key =>
        simp only [if_true, OrdMap.getElem?_insert', Option.some.injEq, eq_comm]
    rw [step]
    by_cases keyed : Server.stateKeyOf o = some createKey
    · simp [keyed, named]
    · simp [keyed, h.create, CsState.createOf]

/-- What the command of an import takes from the answer. -/
structure Imports (cs : CsState) (version : RoomVersion) (join : JsonObject) (objects : List JsonObject)
    (cmd : ImportRoom) : Prop where
  room : strProp join "room_id" = some cmd.roomId
  own : cs.idOf version join = some cmd.joinEventId
  raw : cmd.joinRaw = join
  versioned : cmd.version = version.asStr
  create : cs.createOf version objects = some cmd.createEventId
  first : ∀ ev ∈ cmd.events, objects.find? (fun o => cs.idOf version o = some ev.eventId) = some ev.raw
  listed : ∀ o ∈ objects, ∀ id, cs.idOf version o = some id → ∃ ev ∈ cmd.events, ev.eventId = id

theorem importRoom_imports (same : server.ruma = cs.ruma)
    (h : server.importRoom version join state authChain = .ok cmd) :
    Imports cs version join (authChain ++ state) cmd := by
  simp only [Server.importRoom, bind_eq_ok, Pipeline.ofFormat, mapError_eq_ok, same] at h
  obtain ⟨joinId, hjoin, room, hroom, dump, hdump, sender, -, h⟩ := h
  have dumped : Dumped cs version (authChain ++ state) dump :=
    (foldlM_spec (I := Dumped cs version) (F := fun _ => True) (fun done o d d' _ inv step => by
        simp only [bind_eq_ok, mapError_eq_ok, pure_eq_ok] at step
        obtain ⟨id, named, rfl⟩ := step
        exact inv.add (idOf_eq_some.2 named))
      (fun _ _ _ _ _ _ _ => trivial) .nil).1 _ hdump
  have apart : createKey ≠ ("m.room.member", sender) := by
    intro eq
    simp [createKey] at eq
  rw [OrdMap.getElem?_insert', if_neg apart, dumped.create] at h
  split at h
  · cases h
  · rename_i created
    obtain rfl := pure_eq_ok.1 h
    refine ⟨?_, idOf_eq_some.2 hjoin, rfl, rfl, created, dumped.first, fun o mem id named => ?_⟩
    · unfold Pipeline.strOf at hroom
      split at hroom
      · rename_i found
        exact Except.ok.inj hroom ▸ found
      · cases hroom
    · exact dumped.listed id ((dumped.seen id).2 ⟨o, mem, named⟩)

/-! ## The store -/

variable {s : Store} {t : Store}

/-- What a fresh import makes of the shard's tables. -/
structure Imported (s : Store) (cmd : ImportRoom) (t : Store) : Prop where
  seq : t.seq = s.seq + 1
  timeline : ∀ n : Nat, t.timeline[n]? =
    if n = s.seq + 1 then some (.event cmd.roomId cmd.joinEventId) else s.timeline[n]?
  event : ∀ id : EventId, t.event[id]? =
    if id = cmd.joinEventId then some (joinRecord cmd (importGroup s cmd) (s.seq + 1))
    else (s.putSupport cmd.events).event[id]?
  room : ∃ m, t.room[cmd.roomId]? = some m ∧ m.version = cmd.version ∧
    m.createEventId = cmd.createEventId ∧ m.nextGroup = importGroup s cmd + 1
  others : ∀ other, other ≠ cmd.roomId → Untouched other s t

theorem applyImport_cases (s : Store) (cmd : ImportRoom) :
    ((∃ m, s.room[cmd.roomId]? = some m) ∧ s.onTimeline cmd.joinEventId ∧ (applyImport s cmd).1 = s) ∨
    (¬ ((∃ m, s.room[cmd.roomId]? = some m) ∧ s.onTimeline cmd.joinEventId) ∧
      Imported s cmd (applyImport s cmd).1) := by
  rw [← Option.isSome_iff_exists]
  unfold applyImport
  split
  · rename_i held
    rw [Bool.and_eq_true] at held
    exact .inl ⟨held.1, held.2, rfl⟩
  · rename_i fresh
    rw [Bool.and_eq_true] at fresh
    refine .inr ⟨fresh, rfl, fun n => OrdMap.getElem?_insert', fun id => OrdMap.getElem?_insert',
      ⟨importMeta s (importRows s cmd).1 cmd, ?_, rfl, rfl, rfl⟩, fun other ne => ?_⟩
    · exact OrdMap.getElem?_insert'.trans (if_pos rfl)
    · exact untouched_effect (.importRoom fresh) (Ne.symm ne)

theorem Imported.puts (h : Imported s cmd t) : Puts s t id ↔ id = cmd.joinEventId := by
  unfold Puts
  constructor
  · rintro ⟨room, n, above, below, row⟩
    rw [h.seq] at below
    rw [h.timeline, if_pos (by omega)] at row
    cases row
    rfl
  · rintro rfl
    exact ⟨cmd.roomId, s.seq + 1, by omega, by rw [h.seq], by rw [h.timeline, if_pos rfl]⟩

theorem Imported.touched (h : Imported s cmd t) : ¬ Untouched cmd.roomId s t := by
  intro same
  obtain ⟨m, known, -, -, next⟩ := h.room
  rw [same.known] at known
  simp only [importGroup, known, Option.map_some, Option.getD_some] at next
  omega

theorem Imported.stored (h : Imported s cmd t) {objects : List JsonObject}
    (imports : Imports cs version join objects cmd) (other : id ≠ cmd.joinEventId)
    (absent : s.event[id]? = none) {raw : JsonObject} :
    (∃ e : StoredEvent, t.event[id]? = some e ∧ e.raw = raw) ↔
      objects.find? (fun o => cs.idOf version o = some id) = some raw := by
  rw [h.event, if_neg other]
  have cases := Store.putSupport_event_cases s cmd.events id
  rw [absent] at cases
  constructor
  · rintro ⟨e, held, rfl⟩
    rcases cases.1 with ⟨-, ev, mem, rfl, record⟩ | none
    · rw [record] at held
      cases held
      exact imports.first ev mem
    · rw [none] at held
      cases held
  · intro found
    have mem := List.mem_of_find?_eq_some found
    have named : cs.idOf version raw = some id := by simpa using List.find?_some found
    obtain ⟨ev, listed, same⟩ := imports.listed raw mem id named
    obtain ⟨e, held⟩ := Option.isSome_iff_exists.1 (cases.2 ⟨ev, listed, same⟩)
    refine ⟨e, held, ?_⟩
    rcases cases.1 with ⟨-, ev', mem', rfl, record⟩ | none
    · rw [record] at held
      cases held
      exact some_unique (imports.first ev' mem') found
    · rw [none] at held
      cases held

end Command

/-! ## The join as a whole -/

section Join

variable {cs : CsState} {fed : FederationState} {w after : Shards} {room : RoomId} {user : UserId}
  {via : List String} {resp : JoinResponse}

theorem trustEventServers_rooms (cs : CsState) (fed : FederationState) (w : Shards)
    (events : List JsonObject) :
    (cs.trustEventServers fed w events).rooms = w.rooms := by
  unfold CsState.trustEventServers
  refine List.foldlRecOn (motive := fun u : Shards => u.rooms = w.rooms) _ _ rfl fun u same server _ => ?_
  unfold CsState.trustServer
  dsimp only
  split <;> exact same

theorem trustEventServers_users (cs : CsState) (fed : FederationState) (w : Shards)
    (events : List JsonObject) :
    (cs.trustEventServers fed w events).users = w.users := by
  unfold CsState.trustEventServers
  refine List.foldlRecOn (motive := fun u : Shards => u.users = w.users) _ _ rfl fun u same server _ => ?_
  unfold CsState.trustServer
  dsimp only
  split <;> exact same

/-- The shards in which an answer is imported: their keys include those of its senders. -/
def CsState.trusted (cs : CsState) (fed : FederationState) (w : Shards) (resp : JoinResponse) : Shards :=
  cs.trustEventServers fed w (resp.state ++ resp.authChain)

theorem joinRemote_computed (h : cs.joinRemote (some fed) w room user via = .ok after)
    (answered : cs.answerOf fed w room user via = .ok resp) :
    ∃ cmd, (cs.node fed (cs.trusted fed w resp) room).server.importRoom resp.roomVersion resp.event
        (resp.state.filter ((cs.node fed (cs.trusted fed w resp) room).verifyPduAt resp.roomVersion))
        (resp.authChain.filter ((cs.node fed (cs.trusted fed w resp) room).verifyPduAt
          resp.roomVersion)) = .ok cmd ∧
      after.keys = (cs.trusted fed w resp).keys ∧
      after.rooms = Function.update w.rooms (cs.shard cmd.roomId)
        (applyImport (cs.forRoom w cmd.roomId) cmd).1 := by
  simp only [CsState.joinRemote, answered, ok_bind, CsState.admitAnswer] at h
  obtain ⟨critical, -, h⟩ := bind_eq_ok.1 h
  split at h
  · cases h
  obtain ⟨imported, ran, h⟩ := bind_eq_ok.1 h
  obtain ⟨cmd, made, ran⟩ := bind_eq_ok.1 ran
  obtain rfl := pure_eq_ok.1 ran
  obtain ⟨current, -, h⟩ := bind_eq_ok.1 h
  obtain rfl := pure_eq_ok.1 h
  have rooms := trustEventServers_rooms cs fed w (resp.state ++ resp.authChain)
  refine ⟨cmd, mapError_eq_ok.1 made, rfl, ?_⟩
  simp only [CsState.forRoom, rooms]

theorem joinRemote_imports (h : cs.joinRemote (some fed) w room user via = .ok after)
    (answered : cs.answerOf fed w room user via = .ok resp) :
    ∃ cmd, Imports cs resp.roomVersion resp.event (cs.kept fed (cs.trusted fed w resp) room resp) cmd ∧
      after.keys = (cs.trusted fed w resp).keys ∧
      after.rooms = Function.update w.rooms (cs.shard cmd.roomId)
        (applyImport (cs.forRoom w cmd.roomId) cmd).1 := by
  obtain ⟨cmd, computed, keys, rooms⟩ := joinRemote_computed h answered
  have imports := importRoom_imports rfl computed
  rw [← List.filter_append] at imports
  exact ⟨cmd, imports, keys, rooms⟩

theorem kept_verifies {u : Shards} {o : JsonObject} (mem : o ∈ cs.kept fed u room resp) :
    (cs.node fed u room).verifyPduAt resp.roomVersion o := (List.mem_filter.1 mem).2

section Fresh

variable {u : Shards} {cmd : ImportRoom} {ours : Option EventId}
  (imports : Imports cs resp.roomVersion resp.event (cs.kept fed u room resp) cmd)
  (keys : after.keys = u.keys)
  (rooms : after.rooms = Function.update w.rooms (cs.shard cmd.roomId)
    (applyImport (cs.forRoom w cmd.roomId) cmd).1)
  (same : u.rooms = w.rooms)
  (imported : Imported (cs.forRoom w cmd.roomId) cmd (applyImport (cs.forRoom w cmd.roomId) cmd).1)

include keys in
theorem server_eq : (cs.node fed after room).server = (cs.node fed u room).server := by
  simp only [CsState.node, keys]

include keys in
theorem verifyPduAt_eq : (cs.node fed after room).verifyPduAt = (cs.node fed u room).verifyPduAt := by
  funext version raw
  unfold Node.verifyPduAt
  rw [server_eq keys]

include rooms in
theorem after_shard :
    after.rooms (cs.shard cmd.roomId) = (applyImport (cs.forRoom w cmd.roomId) cmd).1 := by
  rw [rooms, Function.update_self]

include imports keys rooms same imported in
theorem honest_of_onlyJoins (only : cs.OnlyJoins fed w after room resp.roomVersion ours) :
    cs.Honest fed u room resp ours := by
  have changed := after_shard rooms
  -- The room of the join event changes, so it is the room that was asked for.
  have named : cmd.roomId = room := by
    by_contra other
    have sealed := only.others (cs.shard cmd.roomId) cmd.roomId other
    rw [changed] at sealed
    exact imported.touched sealed
  have own : some cmd.joinEventId = ours := by
    refine only.timeline (cs.shard cmd.roomId) cmd.joinEventId ?_
    rw [changed]
    exact imported.puts.2 rfl
  have stored : ∀ (id : EventId) (e : StoredEvent),
      (applyImport (cs.forRoom w cmd.roomId) cmd).1.event[id]? = some e →
      Stores (cs.forRoom w cmd.roomId) (applyImport (cs.forRoom w cmd.roomId) cmd).1 id →
      InRoom (cs.node fed u room).server resp.roomVersion e.raw room ∧
        (cs.node fed u room).verifyPduAt resp.roomVersion e.raw := by
    intro id e held stores
    have h := only.stored (cs.shard cmd.roomId) id e
    rw [changed, server_eq keys, verifyPduAt_eq keys] at h
    exact h held stores
  have joined : (applyImport (cs.forRoom w cmd.roomId) cmd).1.event[cmd.joinEventId]? = _ :=
    (imported.event _).trans (if_pos rfl)
  have vouched := stored _ _ joined (.inr (imported.puts.2 rfl))
  simp only [joinRecord, imports.raw] at vouched
  refine ⟨named ▸ imports.room, imports.own.trans own, vouched.1, vouched.2,
    fun id o found absent ne => ?_, fun m known => ?_⟩
  · rw [CsState.forRoom, same, ← named] at absent
    have ne : id ≠ cmd.joinEventId := by
      rintro rfl
      exact ne own
    obtain ⟨e, held, rfl⟩ := (imported.stored imports ne absent).2 found
    exact (stored id e held (.inl absent)).1
  · rw [CsState.forRoom, same, ← named] at known
    obtain ⟨m', known', version, create⟩ := only.founded (cs.shard cmd.roomId) m (named ▸ known)
    obtain ⟨m'', known'', version', create', -⟩ := imported.room
    rw [changed, ← named, known''] at known'
    obtain rfl := Option.some.inj known'
    exact ⟨version.symm.trans (version'.trans imports.versioned),
      imports.create.trans (congrArg some (create'.symm.trans create))⟩

include imports keys rooms same imported in
theorem onlyJoins_of_honest (honest : cs.Honest fed u room resp ours) :
    cs.OnlyJoins fed w after room resp.roomVersion ours := by
  have named : cmd.roomId = room := some_unique imports.room honest.named
  have own : some cmd.joinEventId = ours := imports.own.symm.trans honest.own
  have at_ : ∀ idx, after.rooms idx = if idx = cs.shard cmd.roomId then
      (applyImport (cs.forRoom w cmd.roomId) cmd).1 else w.rooms idx := by
    intro idx
    rw [rooms, Function.update_apply]
  have still : ∀ idx, idx ≠ cs.shard cmd.roomId → after.rooms idx = w.rooms idx :=
    fun idx ne => (at_ idx).trans (if_neg ne)
  have idle : ∀ idx id, idx ≠ cs.shard cmd.roomId → ¬ Puts (w.rooms idx) (after.rooms idx) id := by
    rintro idx id ne ⟨r, n, above, below, -⟩
    rw [still idx ne] at below
    omega
  refine ⟨fun idx other ne => ?_, fun idx id puts => ?_, fun idx id e held stores => ?_,
    fun idx m known => ?_⟩
  · by_cases here : idx = cs.shard cmd.roomId
    · subst here
      rw [after_shard rooms]
      exact imported.others other (named ▸ ne)
    · rw [still idx here]
      exact .refl
  · by_cases here : idx = cs.shard cmd.roomId
    · subst here
      rw [after_shard rooms] at puts
      rw [imported.puts.1 puts, own]
    · exact absurd puts (idle idx id here)
  · rw [server_eq keys, verifyPduAt_eq keys]
    by_cases here : idx = cs.shard cmd.roomId
    · subst here
      rw [after_shard rooms] at held stores
      by_cases join : id = cmd.joinEventId
      · rw [imported.event, if_pos join] at held
        obtain rfl := Option.some.inj held
        simp only [joinRecord, imports.raw]
        exact ⟨honest.inRoom, honest.verifies⟩
      · have absent := stores.resolve_right fun puts => join (imported.puts.1 puts)
        have found := (imported.stored imports join absent).1 ⟨e, held, rfl⟩
        refine ⟨honest.listed id e.raw found ?_ ?_, kept_verifies (List.mem_of_find?_eq_some found)⟩
        · rw [CsState.forRoom, same, ← named]
          exact absent
        · rw [← own]
          exact fun eq => join (Option.some.inj eq)
    · rw [still idx here] at held
      rcases stores with absent | puts
      · rw [absent] at held
        cases held
      · exact absurd puts (idle idx id here)
  · by_cases here : idx = cs.shard cmd.roomId
    · subst here
      have held : (cs.forRoom u room).room[room]? = some m := by
        rw [CsState.forRoom, same, ← named]
        exact named ▸ known
      obtain ⟨version, create⟩ := honest.founded m held
      obtain ⟨m', known', version', create', -⟩ := imported.room
      refine ⟨m', by rw [after_shard rooms, ← named]; exact known',
        version'.trans (imports.versioned.trans version.symm), ?_⟩
      exact create'.trans (some_unique imports.create create)
    · exact ⟨m, by rw [still idx here]; exact known, rfl, rfl⟩

end Fresh

/-- **A remote join imports what was asked for** exactly where the answer is about a join that is held
already, or about the room and the event that the resident was asked about, with lists of that
room. -/
theorem onlyJoins_iff (h : cs.joinRemote (some fed) w room user via = .ok after)
    (answered : cs.answerOf fed w room user via = .ok resp) :
    cs.OnlyJoins fed w after room resp.roomVersion (cs.signedId fed w room user via) ↔ cs.Known w resp ∨
        cs.Honest fed (cs.trusted fed w resp) room resp (cs.signedId fed w room user via) := by
  obtain ⟨cmd, imports, keys, rooms⟩ := joinRemote_imports h answered
  have known : cs.Known w resp ↔ (∃ m, (cs.forRoom w cmd.roomId).room[cmd.roomId]? = some m) ∧
      (cs.forRoom w cmd.roomId).onTimeline cmd.joinEventId := by
    constructor
    · rintro ⟨named, id, m, hnamed, hid, held, placed⟩
      obtain rfl := some_unique imports.room hnamed
      obtain rfl := some_unique imports.own hid
      exact ⟨⟨m, held⟩, placed⟩
    · rintro ⟨⟨m, held⟩, placed⟩
      exact ⟨cmd.roomId, cmd.joinEventId, m, imports.room, imports.own, held, placed⟩
  rcases applyImport_cases (cs.forRoom w cmd.roomId) cmd with ⟨held, placed, idle⟩ | ⟨fresh, imported⟩
  · -- The answer is a duplicate, and nothing changes.
    refine iff_of_true ?_ (.inl (known.2 ⟨held, placed⟩))
    have still : after.rooms = w.rooms := by
      rw [rooms, idle]
      exact Function.update_eq_self _ _
    have quiet : ∀ idx id, ¬ Puts (w.rooms idx) (after.rooms idx) id := by
      rintro idx id ⟨r, n, above, below, -⟩
      rw [still] at below
      omega
    refine ⟨fun idx other _ => ?_, fun idx id puts => absurd puts (quiet idx id),
      fun idx id e held stores => ?_, fun idx m known => ⟨m, by rw [still]; exact known, rfl, rfl⟩⟩
    · rw [still]
      exact .refl
    · rcases stores with absent | puts
      · rw [still, absent] at held
        cases held
      · exact absurd puts (quiet idx id)
  · rw [or_iff_right fun is => fresh (known.1 is)]
    have same := trustEventServers_rooms cs fed w (resp.state ++ resp.authChain)
    exact ⟨honest_of_onlyJoins imports keys rooms same imported,
      onlyJoins_of_honest imports keys rooms same imported⟩

end Join

/-! ## Two answers -/

instance instDecidableInRoom (server : Server) (version : RoomVersion) (raw : JsonObject)
    (room : RoomId) : Decidable (InRoom server version raw room) := by
  unfold InRoom
  infer_instance

def sampleCsState : CsState where
  serverName := "x"
  ruma := Ruma.sample
  txnRecords := true
  digest _ := 0
  count := 1
  fuel := 9

def sampleShards : Shards where
  rooms _ := Store.empty
  keys _ := (Server.sample ["x"]).keys
  keyCache := ∅
  users := User.Store.empty

def sampleTemplate : Json :=
  .object [("event", .object (Ruma.samplePdu "t" "m.room.member" (some "@a:x") "@a:x"
    [("membership", .string "join")] ["$c"] ["$c"] 2)), ("room_version", .string "11")]

def sampleResident (copy : Json) : FederationState where
  signer := Signer.sample
  signing := ⟨fun _ _ => .ok (), fun _ _ _ _ => True⟩
  answer
    | .get _ _ => .ok sampleTemplate
    | .put _ _ _ => .ok (.object [("auth_chain", .array []), ("event", copy),
        ("state", .array [.object Ruma.sampleCreate])])
  keyAnswer _ := .error (.http "unreachable")
  now := 1

def sampleForgedJoin : JsonObject :=
  (Ruma.samplePdu "f" "m.room.member" (some "@b:x") "@b:x" [("membership", .string "join")] ["$c"]
    ["$c"] 2).filter fun m => m.1 ≠ "signatures"

theorem exists_joined (copy : Json) (p : JoinResponse → Shards → Bool)
    (h : (sampleCsState.answerOf (sampleResident copy) sampleShards "!r:x" "@a:x" ["y"]).toOption.any
      (fun resp => (sampleCsState.joinRemote (some (sampleResident copy)) sampleShards "!r:x" "@a:x"
        ["y"]).toOption.any (p resp)) = true) :
    ∃ resp after,
      sampleCsState.answerOf (sampleResident copy) sampleShards "!r:x" "@a:x" ["y"] = .ok resp ∧
      sampleCsState.joinRemote (some (sampleResident copy)) sampleShards "!r:x" "@a:x" ["y"] =
        .ok after ∧ p resp after := by
  obtain ⟨resp, answered, h⟩ := (Option.any_eq_true _ _).1 h
  obtain ⟨after, joined, h⟩ := (Option.any_eq_true _ _).1 h
  exact ⟨resp, after, toOption_eq_some.1 answered, toOption_eq_some.1 joined, h⟩

theorem onlyJoins_iff_sample : ∃ after,
    sampleCsState.joinRemote (some (sampleResident .null)) sampleShards "!r:x" "@a:x" ["y"] = .ok after ∧
    sampleCsState.OnlyJoins (sampleResident .null) sampleShards after "!r:x" .v11 (some "$h") := by
  obtain ⟨resp, after, answered, joined, h⟩ := exists_joined .null (fun resp _ =>
    let u := sampleCsState.trusted (sampleResident .null) sampleShards resp
    let node := sampleCsState.node (sampleResident .null) u "!r:x"
    decide (resp.roomVersion = .v11) && decide (strProp resp.event "room_id" = some "!r:x") &&
      decide (sampleCsState.idOf .v11 resp.event = some "$h") &&
      decide (InRoom node.server .v11 resp.event "!r:x") && node.verifyPduAt .v11 resp.event &&
      decide (∀ o ∈ sampleCsState.kept (sampleResident .null) u "!r:x" resp,
        InRoom node.server .v11 o "!r:x")) (by decide +kernel)
  simp only [Bool.and_eq_true, decide_eq_true_eq] at h
  obtain ⟨⟨⟨⟨⟨version, named⟩, own⟩, inRoom⟩, verifies⟩, listed⟩ := h
  have signed : sampleCsState.signedId (sampleResident .null) sampleShards "!r:x" "@a:x" ["y"] =
      some "$h" := by
    decide +kernel
  have only := onlyJoins_iff joined answered
  rw [signed, version] at only
  refine ⟨after, joined, only.2 (.inr ⟨named, ?_, ?_, ?_, fun id o found _ _ => ?_, ?_⟩)⟩
  · rw [version]
    exact own
  · rw [version]
    exact inRoom
  · rw [version]
    exact verifies
  · rw [version]
    exact listed o (List.mem_of_find?_eq_some found)
  · intro m known
    simp [CsState.forRoom, CsState.trusted, trustEventServers_rooms, sampleShards, Store.empty] at known

/-- The resident's copy is the join of another user. It is imported as it came. -/
theorem forged_join_imported : ∃ after,
    sampleCsState.joinRemote (some (sampleResident (.object sampleForgedJoin))) sampleShards "!r:x"
      "@a:x" ["y"] = .ok after ∧
    ¬ sampleCsState.OnlyJoins (sampleResident (.object sampleForgedJoin)) sampleShards after "!r:x" .v11
      (sampleCsState.signedId (sampleResident (.object sampleForgedJoin)) sampleShards "!r:x" "@a:x"
        ["y"]) := by
  obtain ⟨resp, after, -, joined, h⟩ := exists_joined (.object sampleForgedJoin) (fun _ after =>
    decide ((after.rooms 0).seq = 1) &&
      decide ((after.rooms 0).timeline[1]? = some (SeqEntry.event "!r:x" "$f"))) (by decide +kernel)
  simp only [Bool.and_eq_true, decide_eq_true_eq] at h
  have signed : sampleCsState.signedId (sampleResident (.object sampleForgedJoin)) sampleShards "!r:x"
      "@a:x" ["y"] = some "$h" := by
    decide +kernel
  refine ⟨after, joined, fun only => ?_⟩
  have own := only.timeline 0 "$f" ⟨"!r:x", 1, by decide, by rw [h.1], h.2⟩
  rw [signed] at own
  exact absurd own (by decide)

end Saltator.Client
