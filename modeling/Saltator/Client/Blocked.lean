import Saltator.Client.MemberIndex
import Saltator.Client.RemoteJoin
import Saltator.Federation.Joins
import Saltator.Lib.Steps
import Saltator.Room.Memberships
import Saltator.Room.Speech

/-!
# Blocked rooms

An administrator blocks a room in the user shard, and every way into a room looks there for itself: the
joins and knocks of clients, and those of other servers. `PUT /state` sends member events as well and does
not look (`blocked_state_event`), and a join of another room imports into the room that the resident's
answer names. `blocked_room_closed` is what holds without those two.
-/

namespace Saltator.Client

open Std
open Saltator.Outcome
open Saltator.Stateful
open Room
open StateRes (StateIds)
open Federation (Inbound InboundServer KeyCache JoinError KnockResponse ofCanonical)

deriving instance BEq for Json

/-! ## The handlers -/

/-- What the room server's check of a restricted join comes to. -/
inductive RestrictedAuth where
  | notNeeded
  | authorised (user : UserId)
  | failsConditions
  | cannotValidate
  | cannotGrant
  deriving DecidableEq

def ofRoomError (e : RoomError) : ApiError :=
  match e with
  | .unknownRoom _ => .notFound (reprStr e)
  | .validation (.tooLarge _) => ⟨413, "M_TOO_LARGE", reprStr e⟩
  | .validation _ | .verification _ | .format _ | .malformed _ => .badJson (reprStr e)
  | .version _ => ⟨400, "M_UNSUPPORTED_ROOM_VERSION", reprStr e⟩
  | _ => .internal (reprStr e)

def acceptedEventId : Outcome → Except ApiError EventId
  | .accepted id _ | .duplicate id => .ok id
  | .rejected _ reason => .error (.forbidden reason)

/-- The administrator's list of rooms; `readable` is whether it can be read. -/
def ensureJoinable (users : User.Store) (room : RoomId) (readable : Bool) : Except ApiError Unit :=
  if !readable then .error (.internal "storage")
  else if users.roomBlocked.contains room then
    .error (.forbidden "This room has been blocked by a server administrator")
  else .ok ()

def setMember (o : JsonObject) (key : String) (v : Json) : JsonObject :=
  (o.filter fun m => m.1 ≠ key) ++ [(key, v)]

structure Profile where
  displayname : Option String
  avatarUrl : Option String

def reservedMembers : List String :=
  ["membership", "displayname", "avatar_url", "join_authorised_via_users_server", "third_party_invite"]

def memberContent (membership : String) (reason : Option String) (extra : JsonObject)
    (authoriser : Option UserId) (profile : Option Profile) : JsonObject :=
  let content := setMember (extra.filter fun m => m.1 ∉ reservedMembers) "membership" (.string membership)
  let content := authoriser.elim content fun user =>
    setMember content "join_authorised_via_users_server" (.string user)
  let content := reason.elim content fun reason => setMember content "reason" (.string reason)
  if membership ∈ ["join", "invite"] then
    let named := (profile.bind (·.displayname)).elim content fun name =>
      setMember content "displayname" (.string name)
    (profile.bind (·.avatarUrl)).elim named fun url => setMember named "avatar_url" (.string url)
  else content

structure JoinInput where
  body : JsonObject
  readable : Bool
  verdict : Except ApiError RestrictedAuth
  profile : Option Profile
  now : Nat

structure KnockInput where
  body : JsonObject
  readable : Bool
  now : Nat

structure PutMember where
  sender : UserId
  room : RoomId
  stateKey : String
  content : JsonObject
  appservice : Bool
  timestamp : Option Nat
  now : Nat

def PutMember.sent (p : PutMember) : JsonObject :=
  p.content.filter fun m => m.1 ≠ "join_authorised_via_users_server"

/-- Appservices may date their events. -/
def PutMember.sentAt (p : PutMember) : Nat := if p.appservice then p.timestamp.getD p.now else p.now

/-- What the handlers of clients and of other servers work on: the shards, and the cache of keys. A handler
keeps what it has done where it fails. -/
abbrev World := Inbound KeyCache

def shardsOf (w : World) : Shards := ⟨w.rooms, w.keys, w.remote, w.users⟩

def worldOf (w : Shards) : World := ⟨w.rooms, w.keys, w.users, w.keyCache⟩

structure Surface where
  cs : CsState
  sign : RoomVersion → JsonObject → Except String JsonObject
  federation : Option FederationState
  fetcher : EventFetcher KeyCache
  serde : User.SerdeJson

namespace Surface

variable (x : Surface)

/-- The federation surface, which is given the user shard. -/
def inbound : InboundServer KeyCache where
  serverName := x.cs.serverName
  ruma := x.cs.ruma
  sign := x.sign
  txnRecords := x.cs.txnRecords
  digest := x.cs.digest
  count := x.cs.count
  users := true
  fetcher := x.fetcher
  fuel := x.cs.fuel

def server (keys : PublicKeyMap) : Server := ⟨x.cs.ruma, keys, x.sign, x.cs.txnRecords⟩

def storeOf (w : World) (room : RoomId) : Store := w.rooms (x.cs.shard room)

def roomHostedLocally (w : World) (room : RoomId) : Bool × Bool :=
  let s := x.storeOf w room
  let locallyJoined := (joinedMemberIds s x.cs.fuel room).any fun user =>
    (":" ++ x.cs.serverName).toList.isSuffixOf user.toList
  let weCreated := decide (residentOfRoom room = some x.cs.serverName)
  let noRemoteRoute := ((Serving.remoteServersInRoom x.cs.ruma s x.cs.fuel room
    x.cs.serverName).toOption.getD []).isEmpty
  let metaExists := (s.room[room]?).isSome
  (metaExists && (locallyJoined || x.federation.isNone || weCreated || noRemoteRoute), metaExists)

def sendState (room : RoomId) (sender : UserId) (eventType stateKey : String) (content : JsonObject)
    (ts : Nat) : StateM World (Except ApiError EventId) := do
  let outcome ← x.inbound.onShard (x.cs.shard room)
    (Heal.submit x.cs.fuel (.send room sender eventType (some stateKey) content ts none))
  return (outcome.mapError ofRoomError) >>= acceptedEventId

/-- Joining twice leaves the member event that stands. -/
def localPipelineJoin (user : UserId) (room : RoomId) (j : JoinInput) (authoriser : Option UserId) :
    StateM World (Except ApiError Unit) := do
  let w ← get
  match currentState (x.storeOf w room) x.cs.fuel room with
  | .error e => return .error e
  | .ok current =>
    if membershipIn (x.storeOf w room) current user = "join" then return .ok ()
    else
      let sent ← x.sendState room user "m.room.member" user
        (memberContent "join" (strProp j.body "reason")
          (j.body.filter fun m => m.1 ∉ ["reason", "third_party_signed"]) authoriser j.profile) j.now
      return sent.map fun _ => ()

def takeAnswer (fed : FederationState) (room : RoomId) (resp : Federation.JoinResponse) :
    StateM World (Except ApiError Unit) := fun w =>
  let events := resp.state ++ resp.authChain
  let u := x.cs.trustEventServers fed (shardsOf w) events
  match x.cs.joinAuthClosure resp.event events resp.roomVersion with
  | .error e => (.error e, worldOf u)
  | .ok critical =>
    if events.any (x.cs.isForged fed u room resp.roomVersion critical) then
      (.error ⟨502, "M_UNKNOWN",
        "remote join returned auth-chain state that failed signature verification"⟩, worldOf u)
    else
      match x.cs.importRoom fed u room resp with
      | .error e => (.error e, worldOf u)
      | .ok imported =>
        match x.cs.projectImportedMembers imported room with
        | .error e => (.error e, worldOf imported)
        | .ok after => (.ok (), worldOf after)

/-- `joinRemote`, with what it leaves behind where it fails. -/
def joinRemote (user : UserId) (room : RoomId) (via : List String) : StateM World (Except ApiError Unit) := do
  let w ← get
  match x.federation with
  | none => return .error (.notFound "Unknown room")
  | some fed =>
    match x.cs.answerOf fed (shardsOf w) room user via with
    | .error e => return .error e
    | .ok resp => x.takeAnswer fed room resp

/-- The join of a client. What follows a join that succeeds is left out: the push rules that are copied
from the room's predecessor, and the announcement of the user's devices. -/
def joinWithBody (user : UserId) (room : RoomId) (via : List String) (j : JoinInput) :
    StateM World (Except ApiError Unit) := do
  let w ← get
  match ensureJoinable w.users room j.readable with
  | .error e => return .error e
  | .ok () =>
    match x.roomHostedLocally w room with
    | (true, _) =>
      match j.verdict with
      | .error e => return .error e
      | .ok .notNeeded => x.localPipelineJoin user room j none
      | .ok (.authorised authoriser) => x.localPipelineJoin user room j (some authoriser)
      | .ok .failsConditions => return .error (.forbidden "You are not permitted to join this room")
      | .ok .cannotValidate | .ok .cannotGrant => x.joinRemote user room via
    | (false, metaExists) =>
      match ← x.joinRemote user room via with
      | .ok () => return .ok ()
      | .error e =>
        if metaExists ∧ e.status = 404 then x.localPipelineJoin user room j none else return .error e

def askKnock (fed : FederationState) (user : UserId) (room : RoomId) (reason : Option String)
    (last : Option JoinError) : List String → Except (Option JoinError) KnockResponse
  | [] => .error last
  | destination :: rest =>
    match ((Federation.knockRemoteRoom fed.signer destination room user reason).eval
      (fun _ q => (fed.answer q, ())) ()).1 with
    | .ok resp => .ok resp
    | .error e =>
      if remoteStatus e = some 403 then .error (some e)
      else askKnock fed user room reason (some e) rest

def knockRefused (last : Option JoinError) : ApiError :=
  match last.bind remoteStatus with
  | some 403 => .forbidden ("knock rejected: " ++ (last.map JoinError.text).getD "")
  | some 404 => .notFound "Unknown room"
  | _ => ⟨502, "M_UNKNOWN", "remote knock failed: " ++ (last.map JoinError.text).getD ""⟩

def knockState (user : UserId) (resp : KnockResponse) : List User.Bytes :=
  let own := User.JsonValue.object [
    ("content", ((resp.event.lookup "content").map ofCanonical).getD .null), ("sender", .string user),
    ("state_key", .string user), ("type", .string "m.room.member")]
  (resp.knockRoomState.map ofCanonical ++ [own]).filterMap x.serde.toVec

def knockRemote (user : UserId) (room : RoomId) (via : List String) (reason : Option String) :
    StateM World (Except ApiError Unit) := fun w =>
  match x.federation with
  | none => (.error (.notFound "Unknown room"), w)
  | some fed =>
    if x.cs.candidates (shardsOf w) room via = [] then
      (.error (.notFound "Cannot determine a server to knock through"), w)
    else
      match askKnock fed user room reason none (x.cs.candidates (shardsOf w) room via) with
      | .error last => (.error (knockRefused last), w)
      | .ok resp =>
        let id := (x.cs.ruma.eventId resp.event resp.roomVersion).toOption.getD ""
        (.ok (), { w with
          users := (User.Machine.recordRemoteKnock w.users user room user id (x.knockState user resp)).1 })

def knockRoom (user : UserId) (room : RoomId) (via : List String) (k : KnockInput) :
    StateM World (Except ApiError Unit) := do
  let w ← get
  match ensureJoinable w.users room k.readable with
  | .error e => return .error e
  | .ok () =>
    if (x.roomHostedLocally w room).1 then
      let sent ← x.sendState room user "m.room.member" user
        (memberContent "knock" (strProp k.body "reason") [] none none) k.now
      return sent.map fun _ => ()
    else x.knockRemote user room via (strProp k.body "reason")

def standingEvent (s : Store) (room : RoomId) (eventType stateKey : String) (content : JsonObject) :
    Option EventId := do
  let current ← (currentState s x.cs.fuel room).toOption
  let id ← current[(eventType, stateKey)]?
  let raw ← rawEvent s id
  if (raw.lookup "content").getD .null == Json.object content then some id else none

/-- `PUT /state` of a member event. -/
def sendStateEvent (p : PutMember) : StateM World (Except ApiError EventId) := do
  let w ← get
  match x.standingEvent (x.storeOf w p.room) p.room "m.room.member" p.stateKey p.sent with
  | some id => return .ok id
  | none => x.sendState p.room p.sender "m.room.member" p.stateKey p.sent p.sentAt

end Surface

/-- The requests that can bring a user into a room. A client names a room, or an alias: `target` is what
that comes to. -/
inductive Entry where
  | join (user : UserId) (target : Except ApiError RoomId) (via : List String) (input : JoinInput)
  | knock (user : UserId) (target : Except ApiError RoomId) (via : List String) (input : KnockInput)
  | state (put : PutMember)
  | sendJoin (origin : String) (body : Option User.JsonValue) (readable : Bool)
  | sendKnock (origin : String) (body : Option User.JsonValue) (readable : Bool)

namespace Surface

variable (x : Surface)

def serve : Entry → StateM World Unit
  | .join user target via input => do
    match target with
    | .error _ => return ()
    | .ok room =>
      let _ ← x.joinWithBody user room via input
  | .knock user target via input => do
    match target with
    | .error _ => return ()
    | .ok room =>
      let _ ← x.knockRoom user room via input
  | .state put => do
    let _ ← x.sendStateEvent put
  | .sendJoin origin body readable => do
    let _ ← x.inbound.sendJoinApply origin body readable
  | .sendKnock origin body readable => do
    let _ ← x.inbound.sendKnock origin body readable

/-! ## What a block leaves -/

end Surface

def Member (s : Store) (room : RoomId) (user : UserId) (membership : String) : Prop :=
  ∃ fuel state, currentState s fuel room = .ok state ∧ membershipIn s state user = membership

/-- The memberships that a block keeps a user from. -/
def waysIn : List String := ["join", "knock"]

namespace Surface

variable (x : Surface) (w : World) (room : RoomId)

/-- Every shard came about by what was computed from it. -/
def Grown : Prop := ∀ idx, Runs (LawfulSerial x.cs.ruma) Store.empty (w.rooms idx)

/-- The join goes through a resident. -/
def Leaves (j : JoinInput) : Prop :=
  (x.roomHostedLocally w room).1 = false ∨ j.verdict = .ok .cannotValidate ∨ j.verdict = .ok .cannotGrant

/-- The state that the room's extremities lead to brings in no other user than this one. -/
def Settled (user : UserId) : Prop :=
  ∀ event before, tipState x.cs.ruma (x.storeOf w room) x.cs.fuel room event = .ok before →
    ∀ other id, other ≠ user → before[memberKey other]? = some id →
      ∃ e, (x.storeOf w room).event[id]? = some e ∧ ∀ membership ∈ waysIn,
        membershipOf e = some membership → Member (x.storeOf w room) room other membership

structure Foreign (resp : Federation.JoinResponse) : Prop where
  elsewhere : strProp resp.event "room_id" ≠ some room
  same : ∀ named id e, strProp resp.event "room_id" = some named →
    x.cs.idOf resp.roomVersion resp.event = some id → (x.storeOf w named).event[id]? = some e →
    membershipOf e = Federation.contentMembership resp.event

/-- The request does not take either of the ways past the block: it puts no member event that brings a
user into the room, and no join of another room is answered with an event of this one. -/
def Permits : Entry → Prop
  | .state put => put.room = room →
      (∀ membership ∈ waysIn, strProp put.content "membership" = some membership →
        Member (x.storeOf w room) room put.stateKey membership) ∧ x.Settled w room put.stateKey
  | .join user target via input => ∀ other, target = .ok other → other ≠ room → x.Leaves w other input →
      ∀ fed, x.federation = some fed → ∀ resp,
        x.cs.answerOf fed (shardsOf w) other user via = .ok resp → x.Foreign w room resp
  | _ => True

/-- Nobody has come in from one state to the next. -/
structure Shut (after : World) : Prop where
  members : ∀ user, ∀ membership ∈ waysIn, Member (x.storeOf after room) room user membership →
    Member (x.storeOf w room) room user membership
  index : ∀ user, rowOf room user after.users = rowOf room user w.users

end Surface

/-! ## Members -/

section Members

variable {s t : Store} {room : RoomId} {user : UserId} {membership : String}

/-- A membership other than `leave` is that of a stored event. -/
theorem member_iff (here : membership ≠ "leave") : Member s room user membership ↔
    ∃ m map id e, s.room[room]? = some m ∧ Materializes s room m.currentGroup map ∧
      map[memberKey user]? = some id ∧ s.event[id]? = some e ∧ membershipOf e = some membership := by
  constructor
  · rintro ⟨fuel, state, current, member⟩
    obtain ⟨m, known, resolved⟩ := bind_eq_ok.1 current
    unfold roomMeta at known
    split at known
    · cases known
    rename_i m' held
    obtain rfl := Except.ok.inj known
    rw [resolveGroup, mapError_eq_ok] at resolved
    unfold membershipIn at member
    cases found : (state[memberKey user]?.bind fun id => s.event[id]?).bind membershipOf with
    | none =>
      rw [found] at member
      exact absurd member.symm here
    | some stated =>
      rw [found] at member
      obtain rfl : stated = membership := member
      obtain ⟨e, found, stated⟩ := Option.bind_eq_some_iff.1 found
      obtain ⟨id, mapped, stored⟩ := Option.bind_eq_some_iff.1 found
      exact ⟨m', state, id, e, held, resolveGroup_materializes resolved, mapped, stored, stated⟩
  · rintro ⟨m, map, id, e, held, current, mapped, stored, stated⟩
    obtain ⟨-, fuel, resolved⟩ := current.settles
    refine ⟨fuel, map, ?_, ?_⟩
    · rw [currentState, roomMeta, held]
      simp only [ok_bind, resolveGroup, resolved fuel le_rfl]
      rfl
    · simp only [membershipIn, mapped, Option.bind_some, stored, stated, Option.getD_some]

theorem Member.unique {membership' : String} (h : Member s room user membership)
    (h' : Member s room user membership') : membership = membership' := by
  obtain ⟨fuel, state, current, rfl⟩ := h
  obtain ⟨fuel', state', current', rfl⟩ := h'
  obtain ⟨m, known, resolved⟩ := bind_eq_ok.1 current
  obtain ⟨m', known', resolved'⟩ := bind_eq_ok.1 current'
  obtain rfl := ok_unique known known'
  rw [resolveGroup, mapError_eq_ok] at resolved resolved'
  rw [(resolveGroup_materializes resolved).unique (resolveGroup_materializes resolved')]

theorem ne_leave (way : membership ∈ waysIn) : membership ≠ "leave" := by
  rintro rfl
  simp [waysIn] at way

structure Alike (room : RoomId) (s t : Store) : Prop where
  untouched : Untouched room s t
  told : ∀ (id : EventId) (e : StoredEvent), s.event[id]? = some e →
    ∃ e', t.event[id]? = some e' ∧ membershipOf e' = membershipOf e

theorem Alike.refl : Alike room s s := ⟨.refl, fun _ e held => ⟨e, held, rfl⟩⟩

theorem Alike.trans {u : Store} (h : Alike room s t) (h' : Alike room t u) : Alike room s u := by
  refine ⟨h.untouched.trans h'.untouched, fun id e held => ?_⟩
  obtain ⟨e', held', same⟩ := h.told id e held
  obtain ⟨e'', held'', same'⟩ := h'.told id e' held'
  exact ⟨e'', held'', same'.trans same⟩

theorem Alike.of_sealed (h : ∀ id, Sealed s room id t) : Alike room s t :=
  ⟨(h "").untouched, fun id e held => ⟨e, (h id).held e held, rfl⟩⟩

theorem Alike.member (h : Alike room s t) (stored : MapsStored s) (way : membership ∈ waysIn)
    (member : Member t room user membership) : Member s room user membership := by
  rw [member_iff (ne_leave way)] at member ⊢
  obtain ⟨m, map, id, e, known, current, mapped, held, stated⟩ := member
  have current : Materializes s room m.currentGroup map :=
    current.mono fun g _ held => (h.untouched.group g).symm.trans held
  obtain ⟨e₀, held₀⟩ := Option.isSome_iff_exists.1 (current.stored stored mapped)
  obtain ⟨e', held', same⟩ := h.told id e₀ held₀
  obtain rfl := some_unique held held'
  exact ⟨m, map, id, e₀, h.untouched.known.symm.trans known, current, mapped, held₀, same.symm.trans stated⟩

end Members

/-! ## Other rooms -/

/-- A signature that tells the truth, whatever keys a shard has. -/
def Surface.Truthful (x : Surface) : Prop := ∀ keys, (x.server keys).Truthful

section Elsewhere

variable {x : Surface} {base w : World} {room other : RoomId} {resp : Federation.JoinResponse}
  {fed : FederationState}

structure Kept (x : Surface) (base : World) (room : RoomId) (w : World) : Prop where
  grown : x.Grown w
  blocked : w.users.roomBlocked.contains room = true
  alike : ∀ idx, Alike room (base.rooms idx) (w.rooms idx)
  index : ∀ user, rowOf room user w.users = rowOf room user base.users

theorem Kept.refl (grown : x.Grown w) (blocked : w.users.roomBlocked.contains room = true) :
    Kept x w room w := ⟨grown, blocked, fun _ => .refl, fun _ => rfl⟩

theorem Surface.Grown.update (h : x.Grown w) {idx : UInt16} {t : Store}
    (grown : Runs (LawfulSerial x.cs.ruma) Store.empty t) (keys : UInt16 → PublicKeyMap)
    (users : User.Store) (remote : KeyCache) :
    x.Grown ⟨Function.update w.rooms idx t, keys, users, remote⟩ := by
  intro i
  change Runs _ _ (Function.update w.rooms idx t i)
  by_cases same : i = idx
  · subst same
    rwa [Function.update_self]
  · rw [Function.update_of_ne same]
    exact h i

theorem Kept.update (h : Kept x base room w) {idx : UInt16} {t : Store}
    (grown : Runs (LawfulSerial x.cs.ruma) Store.empty t) (alike : Alike room (w.rooms idx) t)
    (keys : UInt16 → PublicKeyMap) (remote : KeyCache) :
    Kept x base room ⟨Function.update w.rooms idx t, keys, w.users, remote⟩ := by
  refine ⟨h.grown.update grown _ _ _, h.blocked, fun i => ?_, h.index⟩
  change Alike room (base.rooms i) (Function.update w.rooms idx t i)
  by_cases same : i = idx
  · subst same
    rw [Function.update_self]
    exact (h.alike i).trans alike
  · rw [Function.update_of_ne same]
    exact h.alike i

theorem Kept.onShard {α : Type} {m : Heal KeyCache α} (idx : UInt16)
    (hm : ∀ n : Node KeyCache, (∃ keys, n.server = x.server keys) →
      Runs (LawfulSerial x.cs.ruma) Store.empty n.store →
      Runs (LawfulSerial x.cs.ruma) Store.empty (m n).2.store ∧ Alike room n.store (m n).2.store) :
    Keeps (Kept x base room) (x.inbound.onShard idx m) := by
  intro w h
  obtain ⟨grown, alike⟩ := hm (x.inbound.node w idx) ⟨w.keys idx, rfl⟩ (h.grown idx)
  exact h.update grown alike _ _

theorem submit_kept (truthful : x.Truthful) {sender : UserId} {eventType : String} {stateKey : Option String}
    {content : JsonObject} {ts : Nat} (ne : other ≠ room) (idx : UInt16) :
    Keeps (Kept x base room) (x.inbound.onShard idx
      (Heal.submit x.cs.fuel (.send other sender eventType stateKey content ts none))) := by
  refine Kept.onShard idx fun n is grown => ?_
  obtain ⟨keys, is⟩ := is
  have ruma : n.server.ruma = x.cs.ruma := by rw [is]; rfl
  have lawful : n.server.Lawful := is ▸ (truthful keys).toLawful
  refine ⟨ruma ▸ Heal.submit_runs lawful (ruma ▸ grown), ?_⟩
  obtain same | ⟨cmd, response, prepared, applied⟩ := Heal.submit_cases x.cs.fuel
    (.send other sender eventType stateKey content ts none) n
  · rw [same]
    exact .refl
  · obtain ⟨raw, version, d, -, computed, rfl⟩ := prepare_send prepared
    refine .of_sealed fun id => Sealed.refl.append ?_ applied
    rw [Pipeline.processInner_roomId computed]
    exact ne

theorem sendState_kept (truthful : x.Truthful) (ne : other ≠ room) (sender : UserId)
    (eventType stateKey : String) (content : JsonObject) (ts : Nat) :
    Keeps (Kept x base room) (x.sendState other sender eventType stateKey content ts) :=
  Keeps.bind (submit_kept truthful ne _) fun _ => Keeps.pure _

theorem localPipelineJoin_kept (truthful : x.Truthful) (ne : other ≠ room) (user : UserId) (j : JoinInput)
    (authoriser : Option UserId) :
    Keeps (Kept x base room) (x.localPipelineJoin user other j authoriser) := by
  refine Keeps.bind Keeps.read fun w => ?_
  split
  · exact Keeps.pure _
  · split
    · exact Keeps.pure _
    · exact Keeps.bind (sendState_kept truthful ne _ _ _ _ _) fun _ => Keeps.pure _

theorem handshake_kept {α : Type} (truthful : x.Truthful) (membership origin : String)
    (body : Option User.JsonValue) (readable : Bool) {apply : JsonObject → Heal KeyCache (Except RoomError α)}
    (grows : ∀ raw, Keeps (Growing x.cs.ruma) (apply raw))
    (seals : ∀ raw start id, strProp raw "type" = some "m.room.member" → strProp raw "room_id" ≠ some room →
      Keeps (fun n : Node KeyCache => Sealed start room id n.store) (apply raw)) :
    Keeps (Kept x base room) (x.inbound.handshake membership origin body (some readable) apply) := by
  unfold Federation.InboundServer.handshake
  split
  · exact Keeps.pure _
  · rename_i raw r read
    obtain ⟨value, -, -, member, named⟩ := Federation.membershipEvent_eq_ok read
    refine Keeps.bind (Kept.onShard _ fun n _ grown => ⟨grown, .refl⟩) fun _ => Keeps.get fun w h => ?_
    dsimp only [Option.elim]
    cases allowed : x.inbound.refuseIfBlocked w.users r readable with
    | error e => exact h
    | ok _ =>
      have ne : strProp raw "room_id" ≠ some room := by
        rintro blocked
        obtain rfl := some_unique named blocked
        rw [Federation.InboundServer.refuseIfBlocked, h.blocked] at allowed
        cases readable <;> cases allowed
      refine Keeps.bind (Kept.onShard _ fun n is grown => ?_) (fun answer => Keeps.pure _) w h
      obtain ⟨keys, is⟩ := is
      have lawful : n.server.Lawful ∧ n.server.ruma = x.cs.ruma := by
        rw [is]
        exact ⟨(truthful keys).toLawful, rfl⟩
      exact ⟨(grows raw n ⟨lawful, grown⟩).2, .of_sealed fun id => seals raw _ id member ne n .refl⟩

theorem sendJoin_kept (truthful : x.Truthful) (origin : String) (body : Option User.JsonValue)
    (readable : Bool) : Keeps (Kept x base room) (x.inbound.sendJoinApply origin body readable) :=
  handshake_kept truthful "join" origin body readable (fun _ => sendJoin_growing)
    fun _ _ _ member ne => sendJoin_sealed member ne

theorem sendKnock_kept (truthful : x.Truthful) (origin : String) (body : Option User.JsonValue)
    (readable : Bool) : Keeps (Kept x base room) (x.inbound.sendKnock origin body readable) :=
  handshake_kept truthful "knock" origin body readable (fun _ => sendKnock_growing)
    fun _ _ _ member ne => sendKnock_sealed member ne

/-! ### Remote joins and knocks -/

theorem import_kept (truthful : x.Truthful) {u v : Shards}
    (h : Kept x base room w) (rooms : u.rooms = w.rooms)
    (users : u.users = w.users) (foreign : x.Foreign w room resp)
    (imported : x.cs.importRoom fed u other resp = .ok v) : Kept x base room (worldOf v) := by
  obtain ⟨cmd, made, ran⟩ := bind_eq_ok.1 imported
  obtain rfl := pure_eq_ok.1 ran
  have made := mapError_eq_ok.1 made
  have imports := importRoom_imports rfl made
  have named : cmd.roomId ≠ room := fun same => foreign.elsewhere (same ▸ imports.room)
  have computed : LawfulSerial x.cs.ruma (w.rooms (x.cs.shard cmd.roomId)) (.importRoom cmd) := by
    refine ⟨x.server ∅, 0, .importRoom resp.roomVersion resp.event
      (resp.state.filter ((x.cs.node fed u other).verifyPduAt resp.roomVersion))
      (resp.authChain.filter ((x.cs.node fed u other).verifyPduAt resp.roomVersion)),
      (truthful ∅).toLawful, rfl, ?_⟩
    simp only [Call.prepare, bind_eq_ok, pure_eq_ok]
    exact ⟨cmd, made, rfl⟩
  suffices alike : Alike room (w.rooms (x.cs.shard cmd.roomId))
      (Machine.applyImport (w.rooms (x.cs.shard cmd.roomId)) cmd).1 by
    have kept := h.update ((h.grown _).tail ⟨Store.empty, _, _, computed, rfl⟩) alike u.keys u.keyCache
    rw [← rooms, ← users] at kept
    exact kept
  obtain ⟨-, -, idle⟩ | ⟨-, brought⟩ := applyImport_cases (w.rooms (x.cs.shard cmd.roomId)) cmd
  · rw [idle]
    exact .refl
  refine ⟨brought.others room named.symm, fun id e held => ?_⟩
  rw [brought.event]
  split
  · rename_i own
    subst own
    refine ⟨_, rfl, ?_⟩
    rw [foreign.same cmd.roomId cmd.joinEventId e imports.room imports.own held, ← imports.raw]
    rfl
  · obtain ⟨absent, -⟩ | same := (Store.putSupport_event_cases _ cmd.events id).1
    · rw [held] at absent
      cases absent
    · exact ⟨e, same.trans held, rfl⟩

theorem rowOf_applyRoomChanges {users : User.Store} {source : String} {upto : Nat}
    {changes : List User.MembershipChange} (named : ∀ c ∈ changes, c.roomId ≠ room) (user : UserId) :
    rowOf room user (User.Machine.applyRoomChanges users source upto changes).1 = rowOf room user users := by
  have cases : _ ∨ _ := @applyRoomChanges_cases room user users source upto changes
  obtain ⟨-, same⟩ | ⟨-, rows, -⟩ := cases
  · rw [same]
  · have none : changesOf room user changes = [] := by
      refine List.filterMap_eq_nil_iff.2 fun c mem => if_neg fun own => ?_
      exact named c mem (Prod.mk.inj own).2
    rw [rows, none]
    rfl

theorem roomBlocked_applyRoomChanges (users : User.Store) (source : String) (upto : Nat)
    (changes : List User.MembershipChange) :
    (User.Machine.applyRoomChanges users source upto changes).1.roomBlocked = users.roomBlocked := by
  unfold User.Machine.applyRoomChanges
  split
  · rfl
  · refine List.foldlRecOn (motive := fun u : User.Store => u.roomBlocked = users.roomBlocked) changes _ rfl
      fun u same c _ => ?_
    rw [User.applyRoomChange_eq]
    split <;> exact same

theorem memberChange_room {s : Store} {upto : Nat} {entry : StateRes.Key × EventId}
    {c : User.MembershipChange} (h : CsState.memberChange s room upto entry = some c) : c.roomId = room := by
  unfold CsState.memberChange at h
  split at h
  · obtain ⟨raw, -, h⟩ := Option.bind_eq_some_iff.1 h
    obtain ⟨content, -, h⟩ := Option.bind_eq_some_iff.1 h
    obtain ⟨membership, -, h⟩ := Option.bind_eq_some_iff.1 h
    obtain rfl := Option.some.inj h
    rfl
  · cases h

theorem project_kept {v after : Shards} (h : Kept x base room (worldOf v)) (ne : other ≠ room)
    (projected : x.cs.projectImportedMembers v other = .ok after) : Kept x base room (worldOf after) := by
  obtain ⟨current, -, projected⟩ := bind_eq_ok.1 projected
  obtain rfl := pure_eq_ok.1 projected
  refine ⟨h.grown, ?_, h.alike, fun user => ?_⟩
  · have blocked := h.blocked
    simp only [worldOf, roomBlocked_applyRoomChanges] at blocked ⊢
    exact blocked
  · refine (rowOf_applyRoomChanges (fun c mem => ?_) user).trans (h.index user)
    obtain ⟨entry, -, changed⟩ := List.mem_filterMap.1 mem
    exact memberChange_room changed ▸ ne

theorem takeAnswer_kept (truthful : x.Truthful)
    (ne : other ≠ room) (h : Kept x base room w) (foreign : x.Foreign w room resp) :
    Kept x base room (x.takeAnswer fed other resp w).2 := by
  have rooms := trustEventServers_rooms x.cs fed (shardsOf w) (resp.state ++ resp.authChain)
  have users := trustEventServers_users x.cs fed (shardsOf w) (resp.state ++ resp.authChain)
  have trusted : Kept x base room
      (worldOf (x.cs.trustEventServers fed (shardsOf w) (resp.state ++ resp.authChain))) := by
    refine ⟨fun idx => ?_, ?_, fun idx => ?_, fun user => ?_⟩
    · simp only [worldOf, rooms]
      exact h.grown idx
    · simp only [worldOf, users]
      exact h.blocked
    · simp only [worldOf, rooms]
      exact h.alike idx
    · simp only [worldOf, users]
      exact h.index user
  unfold Surface.takeAnswer
  dsimp only
  split
  · exact trusted
  split
  · exact trusted
  split
  · exact trusted
  rename_i imported ran
  have kept := import_kept truthful h rooms users foreign ran
  split
  · exact kept
  · rename_i projected
    exact project_kept kept ne projected

theorem joinRemote_kept (truthful : x.Truthful) (user : UserId) (via : List String) (ne : other ≠ room)
    (h : Kept x base room w)
    (foreign : ∀ fed, x.federation = some fed → ∀ resp,
      x.cs.answerOf fed (shardsOf w) other user via = .ok resp → x.Foreign w room resp) :
    Kept x base room (x.joinRemote user other via w).2 := by
  unfold Surface.joinRemote
  rw [get_bind]
  cases federated : x.federation with
  | none => exact h
  | some fed =>
    cases answered : x.cs.answerOf fed (shardsOf w) other user via with
    | error e =>
      simp only [answered]
      exact h
    | ok resp =>
      simp only [answered]
      exact takeAnswer_kept truthful ne h (foreign fed federated resp answered)

theorem knockRemote_kept (user : UserId) (via : List String) (reason : Option String) (ne : other ≠ room) :
    Keeps (Kept x base room) (x.knockRemote user other via reason) := by
  intro w h
  unfold Surface.knockRemote
  split
  · exact h
  split
  · exact h
  split
  · exact h
  refine ⟨h.grown, h.blocked, h.alike, fun knocker => Eq.trans ?_ (h.index knocker)⟩
  change ((w.users.membership.insert (user, other) _)[(knocker, room)]?).map _ = _
  rw [OrdMap.getElem?_insert', if_neg fun same => ne (Prod.mk.inj same).2.symm]
  rfl

theorem joinable_ne (h : Kept x base room w) {readable : Bool}
    (allowed : ensureJoinable w.users other readable = .ok ()) : other ≠ room := by
  rintro rfl
  unfold ensureJoinable at allowed
  rw [h.blocked] at allowed
  cases readable <;> simp at allowed

theorem joinWithBody_kept (truthful : x.Truthful) (user : UserId) (via : List String) (j : JoinInput)
    (h : Kept x base room w) (permits : x.Permits w room (.join user (.ok other) via j)) :
    Kept x base room (x.joinWithBody user other via j w).2 := by
  unfold Surface.joinWithBody
  rw [get_bind]
  cases allowed : ensureJoinable w.users other j.readable with
  | error e => exact h
  | ok _ =>
    have ne := joinable_ne h allowed
    have here : ∀ authoriser, Kept x base room (x.localPipelineJoin user other j authoriser w).2 :=
      fun authoriser => localPipelineJoin_kept truthful ne user j authoriser w h
    have leaves := fun leaves => joinRemote_kept truthful user via ne h (permits other rfl ne leaves)
    rcases hosting : x.roomHostedLocally w other with ⟨_ | _, metaExists⟩
    · refine Keeps.next (leaves (.inl (by rw [hosting]))) fun answer => ?_
      cases answer with
      | ok _ => exact Keeps.pure _
      | error e => exact Keeps.ite (localPipelineJoin_kept truthful ne user j none) (Keeps.pure _)
    · cases verdict : j.verdict with
      | error e => exact h
      | ok verdict' =>
        cases verdict' with
        | notNeeded => exact here none
        | authorised authoriser => exact here (some authoriser)
        | failsConditions => exact h
        | cannotValidate => exact leaves (.inr (.inl verdict))
        | cannotGrant => exact leaves (.inr (.inr verdict))

theorem knockRoom_kept (truthful : x.Truthful) (user : UserId) (via : List String) (k : KnockInput) :
    Keeps (Kept x base room) (x.knockRoom user other via k) := by
  unfold Surface.knockRoom
  refine Keeps.get fun w h => ?_
  cases allowed : ensureJoinable w.users other k.readable with
  | error e => exact h
  | ok _ =>
    have ne := joinable_ne h allowed
    exact Keeps.ite (Keeps.bind (sendState_kept truthful ne _ _ _ _ _) fun _ => Keeps.pure _)
      (knockRemote_kept user via _ ne) w h

theorem sendStateEvent_kept (truthful : x.Truthful) (p : PutMember) (ne : p.room ≠ room) :
    Keeps (Kept x base room) (x.sendStateEvent p) := by
  refine Keeps.bind Keeps.read fun w => ?_
  split
  · exact Keeps.pure _
  · exact sendState_kept truthful ne _ _ _ _ _

end Elsewhere

/-! ## The room itself -/

section Itself

variable {x : Surface} {w : World} {room : RoomId} {s t : Store}

theorem member_of_sent {target user : UserId} {asked : Option String} {membership : String}
    (sent : Room.Sent x.cs.ruma s x.cs.fuel room target asked t) (stored : MapsStored s)
    (asks : ∀ membership ∈ waysIn, asked = some membership → Member s room target membership)
    (settled : ∀ event before, tipState x.cs.ruma s x.cs.fuel room event = .ok before →
      ∀ other id, other ≠ target → before[memberKey other]? = some id → ∃ e, s.event[id]? = some e ∧
        ∀ membership ∈ waysIn, membershipOf e = some membership → Member s room other membership)
    (way : membership ∈ waysIn) (member : Member t room user membership) :
    Member s room user membership := by
  obtain ⟨m, map, id, e, known, current, mapped, held, stated⟩ := (member_iff (ne_leave way)).1 member
  obtain ⟨old, stood, stands⟩ | ⟨event, before, own, e', tips, rfl, held', stated'⟩ :=
    sent.current m map known current
  · obtain ⟨e₀, held₀⟩ := Option.isSome_iff_exists.1 (stands.stored stored mapped)
    obtain rfl := some_unique held (sent.kept id e₀ held₀)
    exact (member_iff (ne_leave way)).2 ⟨old, map, id, e, stood, stands, mapped, held₀, stated⟩
  by_cases own' : user = target
  · subst own'
    obtain rfl : own = id := by
      rw [memberKey, OrdMap.getElem?_insert', if_pos rfl] at mapped
      exact Option.some.inj mapped
    obtain rfl := some_unique held held'
    exact asks membership way (stated'.symm.trans stated)
  · have mapped : before[memberKey user]? = some id := by
      have ne : memberKey user ≠ ("m.room.member", target) := fun same => own' (Prod.mk.inj same).2
      rwa [OrdMap.getElem?_insert', if_neg ne] at mapped
    obtain ⟨e₀, held₀, brings⟩ := settled event before tips user id own' mapped
    obtain rfl := some_unique held (sent.kept id e₀ held₀)
    exact brings membership way stated

theorem lookup_filter_ne {key dropped : String} (ne : key ≠ dropped) (o : JsonObject) :
    (o.filter fun m => m.1 ≠ dropped).lookup key = o.lookup key := by
  induction o with
  | nil => rfl
  | cons m o ih =>
    by_cases own : m.1 = dropped
    · rw [List.filter_cons_of_neg (by simpa using own), ih, List.lookup_cons, own, beq_false_of_ne ne]
    · rw [List.filter_cons_of_pos (by simpa using own), List.lookup_cons, List.lookup_cons, ih]

theorem sendStateEvent_shut (truthful : x.Truthful) (grown : x.Grown w) {p : PutMember}
    (permits : x.Permits w p.room (.state p)) :
    x.Grown (x.sendStateEvent p w).2 ∧ (x.sendStateEvent p w).2.users = w.users ∧
      x.Shut w p.room (x.sendStateEvent p w).2 := by
  unfold Surface.sendStateEvent
  rw [get_bind]
  have still : x.Grown w ∧ w.users = w.users ∧ x.Shut w p.room w :=
    ⟨grown, rfl, fun _ _ _ => id, fun _ => rfl⟩
  cases standing : x.standingEvent (x.storeOf w p.room) p.room "m.room.member" p.stateKey p.sent with
  | some id => exact still
  | none =>
    have orderly := run_orderly (grown (x.cs.shard p.room))
    let call : Call := .send p.room p.sender "m.room.member" (some p.stateKey) p.sent p.sentAt none
    let n := x.inbound.node w (x.cs.shard p.room)
    have lawful : n.server.Lawful := (truthful (w.keys (x.cs.shard p.room))).toLawful
    have before : Runs (LawfulSerial n.server.ruma) Store.empty n.store := grown (x.cs.shard p.room)
    have grows : Runs (LawfulSerial n.server.ruma) Store.empty (Heal.submit x.cs.fuel call n).2.store :=
      Heal.submit_runs lawful before
    have sent := Heal.submit_cases x.cs.fuel call n
    refine ⟨grown.update grows _ _ _, rfl, fun user membership way member => ?_, fun _ => rfl⟩
    change Member (Function.update w.rooms (x.cs.shard p.room) _ (x.cs.shard p.room)) _ _ _ at member
    rw [Function.update_self] at member
    replace member : Member (Heal.submit x.cs.fuel call n).2.store p.room user membership := member
    obtain same | ⟨cmd, response, prepared, applied⟩ := sent
    · rw [same] at member
      exact member
    obtain ⟨raw, version, d, built, computed, rfl⟩ := prepare_send prepared
    obtain ⟨u, heff, same⟩ := Machine.apply_effect applied
    have came := (sent_append (truthful _) orderly built computed heff).core same
    rw [PutMember.sent, strProp, lookup_filter_ne (by decide)] at came
    obtain ⟨asks, settled⟩ := permits rfl
    exact member_of_sent came orderly.stored asks settled way member

/-! ## A blocked room -/

theorem serve_shut (truthful : x.Truthful) (grown : x.Grown w)
    (blocked : w.users.roomBlocked.contains room = true) {entry : Entry}
    (permits : x.Permits w room entry) :
    (x.Grown (x.serve entry w).2 ∧ (x.serve entry w).2.users.roomBlocked.contains room = true) ∧
      x.Shut w room (x.serve entry w).2 := by
  have kept {after : World} (h : Kept x w room after) :
      (x.Grown after ∧ after.users.roomBlocked.contains room = true) ∧ x.Shut w room after :=
    ⟨⟨h.grown, h.blocked⟩, fun _ _ way member =>
      (h.alike _).member (run_orderly (grown _)).stored way member, h.index⟩
  have start : Kept x w room w := .refl grown blocked
  cases entry with
  | join user target via j =>
    cases target with
    | error e => exact kept start
    | ok other => exact kept (joinWithBody_kept truthful user via j start permits)
  | knock user target via k =>
    cases target with
    | error e => exact kept start
    | ok other => exact kept (knockRoom_kept truthful user via k w start)
  | state p =>
    by_cases own : p.room = room
    · subst own
      obtain ⟨grown', users, shut⟩ := sendStateEvent_shut truthful grown permits
      refine ⟨⟨grown', ?_⟩, shut⟩
      exact (congrArg (fun users : User.Store => users.roomBlocked.contains p.room) users).trans blocked
    · exact kept (sendStateEvent_kept truthful p own w start)
  | sendJoin origin body readable => exact kept (sendJoin_kept truthful origin body readable w start)
  | sendKnock origin body readable => exact kept (sendKnock_kept truthful origin body readable w start)

/-- **A blocked room is closed.** In every run of requests that take neither of the two ways past the block, no
request brings a user into the room, or lets one knock. -/
theorem blocked_room_closed (truthful : x.Truthful) {start : World} (grown : x.Grown start)
    (blocked : start.users.roomBlocked.contains room = true)
    (run : Steps.Reaches (fun w entry => (x.serve entry w).2) (fun w => x.Permits w room) start w)
    {entry : Entry} (permits : x.Permits w room entry) : x.Shut w room (x.serve entry w).2 := by
  have held : x.Grown w ∧ w.users.roomBlocked.contains room = true :=
    run.invariant (I := fun w => x.Grown w ∧ w.users.roomBlocked.contains room = true)
      (fun w entry before permits => (serve_shut truthful before.1 before.2 permits).1) ⟨grown, blocked⟩
  exact (serve_shut truthful held.1 held.2 permits).2

end Itself

/-! ### A public room -/

theorem lookup_filterMap (keep : String → Bool) (f : String → Json → Json) (raw : JsonObject) (key : String)
    (kept : keep key = true) :
    ((raw.filter fun m => keep m.1).map fun m => (m.1, f m.1 m.2)).lookup key =
      (raw.lookup key).map (f key) := by
  induction raw with
  | nil => rfl
  | cons m raw ih =>
    by_cases own : key = m.1
    · subst own
      rw [List.filter_cons, if_pos kept, List.map_cons, List.lookup_cons, List.lookup_cons, beq_self_eq_true]
      rfl
    · rw [List.lookup_cons, beq_false_of_ne own, List.filter_cons]
      split
      · rw [List.map_cons, List.lookup_cons, beq_false_of_ne own, ih]
      · exact ih

theorem sample_redact_membership {version : RoomVersion} {raw redacted : JsonObject}
    (h : Ruma.sample.redact version raw = .ok redacted) (member : strProp raw "type" = some "m.room.member") :
    (objProp redacted "content").bind (strProp · "membership") =
      (objProp raw "content").bind (strProp · "membership") := by
  obtain rfl := Except.ok.inj h
  have content := lookup_filterMap (fun key => Ruma.keptKeys.contains key)
    (Ruma.redactMember ((strProp raw "type").getD "")) raw "content" (by decide)
  rw [objProp, content, objProp, member, Option.getD_some]
  cases raw.lookup "content" with
  | none => rfl
  | some v =>
    cases v with
    | object o =>
      have kept := lookup_filterMap
        (fun key => ["membership", "join_authorised_via_users_server"].contains key) (fun _ v => v) o
        "membership" (by decide)
      rw [List.map_id', Option.map_id'] at kept
      exact congrArg (Option.bind · Json.asStr) kept
    | _ => rfl

theorem sampleSign_lookup (version : RoomVersion) {raw signed : JsonObject} {key : String}
    (h : Ruma.sampleSign version raw = .ok signed) (hashes : key ≠ "hashes")
    (signatures : key ≠ "signatures") : signed.lookup key = raw.lookup key := by
  obtain rfl := Except.ok.inj h
  rw [List.lookup_append, List.lookup_cons, beq_false_of_ne hashes, List.lookup_cons,
    beq_false_of_ne signatures]
  exact Option.or_none

theorem sampleSign_truthful (keys : PublicKeyMap) (txnRecords : Bool) :
    (Server.mk Ruma.sample keys Ruma.sampleSign txnRecords).Truthful where
  ruma := Ruma.sample_lawful
  sign_lookup version raw signed h key mem := by
    refine sampleSign_lookup version h ?_ ?_
    · rintro rfl
      exact absurd mem (by decide)
    · rintro rfl
      exact absurd mem (by decide)
  sign_content version raw signed h := sampleSign_lookup version h (by decide) (by decide)
  redact_membership _ _ _ := sample_redact_membership

def sampleSurface : Surface where
  cs := sampleCsState
  sign := Ruma.sampleSign
  federation := none
  fetcher := ⟨fun _ _ _ _ _ => pure (.error "unreachable"), fun _ _ _ => pure (.error "unreachable"),
    fun _ _ _ => pure (.error "unreachable"), fun _ _ => pure (.error "unreachable"), fun _ => pure (),
    fun _ => pure ()⟩
  serde := User.SerdeJson.sample

theorem sampleSurface_truthful : sampleSurface.Truthful := fun keys => sampleSign_truthful keys true

def sampleBlocked (s : Store) : World where
  rooms _ := s
  keys _ := (Server.sample ["x"]).keys
  users := { User.Store.empty with
    roomBlocked := (∅ : OrdMap RoomId User.BlockedRoom).insert "!r:x" ⟨"@a:x", 7⟩ }
  remote := ∅

theorem sampleBlocked_blocked (s : Store) : (sampleBlocked s).users.roomBlocked.contains "!r:x" = true := by
  simp [sampleBlocked]

def samplePublic : Option Store :=
  (Server.sample ["x"]).serveAll (fun _ _ => True) 9 Store.empty
    [.ingest Ruma.sampleCreate false, .ingest Ruma.sampleJoin false, .ingest Federation.sampleRules false]

theorem samplePublic_grown {s : Store} (h : samplePublic = some s) : sampleSurface.Grown (sampleBlocked s) :=
  fun _ => serveAll_lawful (Server.sample_lawful ["x"]) h

def sampleInput : JoinInput := ⟨[], true, .ok .notNeeded, none, 9⟩

def samplePut : PutMember := ⟨"@d:x", "!r:x", "@d:x", [("membership", .string "join")], false, none, 9⟩

theorem blocked_room_closed_join : ∃ s, samplePublic = some s ∧
    sampleSurface.Shut (sampleSurface.serve (.sendKnock "y" none true) (sampleBlocked s)).2 "!r:x"
      (sampleSurface.serve (.join "@d:x" (.ok "!r:x") [] sampleInput)
        (sampleSurface.serve (.sendKnock "y" none true) (sampleBlocked s)).2).2 := by
  obtain ⟨s, served⟩ := Option.isSome_iff_exists.1 (show samplePublic.isSome = true by decide +kernel)
  have knocks : sampleSurface.Permits (sampleBlocked s) "!r:x" (.sendKnock "y" none true) := trivial
  refine ⟨s, served, blocked_room_closed sampleSurface_truthful (samplePublic_grown served)
    (sampleBlocked_blocked s) (Steps.Reaches.refl.tail knocks) ?_⟩
  intro other same ne
  exact absurd (Except.ok.inj same).symm ne

/-- The put of a member event joins a user to a blocked room. -/
theorem blocked_state_event : ∃ w : World, sampleSurface.Grown w ∧
    w.users.roomBlocked.contains "!r:x" = true ∧
    ¬ sampleSurface.Shut w "!r:x" (sampleSurface.serve (.state samplePut) w).2 := by
  have h : samplePublic.any (fun s : Store =>
      let t : Store := (sampleSurface.serve (.state samplePut) (sampleBlocked s)).2.rooms 0
      (currentState s 9 "!r:x").toOption.any (fun state : StateIds =>
        decide (membershipIn s state "@d:x" = "leave")) &&
      (currentState t 9 "!r:x").toOption.any (fun state : StateIds =>
        decide (membershipIn t state "@d:x" = "join"))) = true := by
    decide +kernel
  obtain ⟨s, served, h⟩ := (Option.any_eq_true _ _).1 h
  rw [Bool.and_eq_true] at h
  obtain ⟨outside, inside⟩ := h
  obtain ⟨state, current, out⟩ := (Option.any_eq_true _ _).1 outside
  obtain ⟨state', current', joined⟩ := (Option.any_eq_true _ _).1 inside
  refine ⟨sampleBlocked s, samplePublic_grown served, sampleBlocked_blocked s, fun shut => ?_⟩
  have left : Member s "!r:x" "@d:x" "leave" :=
    ⟨9, state, toOption_eq_some.1 current, of_decide_eq_true out⟩
  have member := shut.members "@d:x" "join" (by decide)
    ⟨9, state', toOption_eq_some.1 current', of_decide_eq_true joined⟩
  exact absurd (left.unique member) (by decide)

end Saltator.Client
