import Saltator.Federation.Inbound
import Saltator.Room.Elsewhere

/-!
# Handshakes with other servers

The endpoints that take a membership event of another server's user, and the invite of one of ours. The
room's access control list is asked about the server where its PDUs are processed: by a transaction, and
by an invite to a room that is hosted. A join, a knock or a leave is applied without it
(`denied_join_appended`). Healing asks about no event that it ingests; what holds is `denied_sealed`.
-/

namespace Saltator.Federation

open Std
open Saltator.Outcome
open Saltator.Stateful
open Room (Store RoomError Heal Node Sealed Routes)
open User (JsonValue SerdeJson)

/-! ## Values -/

mutual

/-- `serde_json::Value::from` -/
def ofCanonical : Json → JsonValue
  | .null => .null
  | .bool b => .bool b
  | .integer i => .number ⟨some i, i⟩
  | .string s => .string s
  | .array items => .array (ofCanonicalItems items)
  | .object members => .object (ofCanonicalMembers members)

def ofCanonicalItems : List Json → List JsonValue
  | [] => []
  | item :: items => ofCanonical item :: ofCanonicalItems items

def ofCanonicalMembers : List (String × Json) → List (String × JsonValue)
  | [] => []
  | member :: members => ofCanonicalMember member :: ofCanonicalMembers members

def ofCanonicalMember : String × Json → String × JsonValue
  | (key, value) => (key, ofCanonical value)

end

/-! ## Access control -/

def aclEvent (s : Store) (fuel : Nat) (room : RoomId) : Option EventId :=
  s.room[room]?.bind fun roomMeta =>
    (s.resolveGroup fuel room roomMeta.currentGroup).toOption.bind fun current =>
      current[("m.room.server_acl", "")]?

section Acl

variable {base s : Store} {fuel : Nat} {room : RoomId} {id : EventId} {origin : String}

theorem aclEvent_of_denies (denied : serverAclDenies s fuel room origin = true) :
    ∃ id stored, aclEvent s fuel room = some id ∧ s.event[id]? = some stored := by
  unfold serverAclDenies at denied
  split at denied
  · rename_i acl found
    unfold serverAcl at found
    split at found
    · cases found
    rename_i roomMeta known
    obtain ⟨current, resolved, found⟩ := bind_eq_ok.1 found
    split at found
    · cases pure_eq_ok.1 found
    rename_i stored held
    obtain ⟨id, mapped, held⟩ := Option.bind_eq_some_iff.1 held
    refine ⟨id, stored, ?_, held⟩
    rw [Room.Pipeline.ofStore, mapError_eq_ok] at resolved
    rw [aclEvent, known, Option.bind_some, resolved]
    exact mapped
  · cases denied

theorem denies_sealed (sealed : Sealed base room id s) (acl : aclEvent base fuel room = some id)
    (denied : serverAclDenies base fuel room origin = true) :
    serverAclDenies s fuel room origin = true := by
  obtain ⟨id', stored, same, held⟩ := aclEvent_of_denies denied
  obtain rfl := some_unique acl same
  obtain ⟨m, known, mapped⟩ := Option.bind_eq_some_iff.1 acl
  obtain ⟨current, resolved, mapped⟩ := Option.bind_eq_some_iff.1 mapped
  have found : ∀ t : Store, t.room[room]? = some m →
      t.resolveGroup fuel room m.currentGroup = .ok current → t.event[id]? = some stored →
      serverAcl t fuel room = .ok ((objProp stored.raw "content").map ServerAcl.fromContent) := by
    intro t known resolved held
    unfold serverAcl
    rw [known]
    dsimp only
    rw [resolved]
    simp only [Room.Pipeline.ofStore, Except.mapError, ok_bind, mapped, Option.bind_some, held]
    rfl
  rw [toOption_eq_some] at resolved
  have same : serverAcl s fuel room = serverAcl base fuel room := by
    rw [found base known resolved held, found s (sealed.untouched.known.trans known)
      ((sealed.untouched.resolveGroup fuel _).trans resolved) (sealed.held stored held)]
  unfold serverAclDenies at denied ⊢
  rw [same]
  exact denied

end Acl

/-! ## The endpoints -/

inductive HandshakeError where
  | refused (status : Nat) (errcode error : String)
  /-- Status 403 and `M_FORBIDDEN`, with the text of the room server's error. -/
  | forbidden (e : RoomError)

def requireMembershipEvent (raw : JsonObject) (expected : String) : Except HandshakeError Unit :=
  if strProp raw "type" = some "m.room.member" ∧
      ((objProp raw "content").bind (strProp · "membership")) = some expected ∧
      (strProp raw "state_key").isSome ∧ strProp raw "state_key" = strProp raw "sender" then .ok ()
  else .error (.refused 400 "M_BAD_JSON" ("event must be an m.room.member with membership=" ++ expected ++
    " and state_key==sender"))

/-- The membership event that a request carries, with its room; `body` is `none` where it is not valid
JSON. -/
def membershipEvent (membership : String) (body : Option JsonValue) :
    Except HandshakeError (JsonObject × RoomId) :=
  match body with
  | none => .error (.refused 400 "M_NOT_JSON" (membership ++ " event is not valid JSON"))
  | some value =>
    match canonicalObject value with
    | none => .error (.refused 400 "M_BAD_JSON" (membership ++ " event is not an object"))
    | some raw => do
      requireMembershipEvent raw membership
      match strProp raw "room_id" with
      | none => .error (.refused 400 "M_BAD_JSON" "event has no room_id")
      | some room => return (raw, room)

theorem membershipEvent_eq_ok {membership : String} {body : Option JsonValue} {raw : JsonObject}
    {room : RoomId} (h : membershipEvent membership body = .ok (raw, room)) :
    ∃ value, body = some value ∧ canonicalObject value = some raw ∧
      strProp raw "type" = some "m.room.member" ∧ strProp raw "room_id" = some room := by
  unfold membershipEvent at h
  split at h
  · cases h
  rename_i value
  split at h
  · cases h
  rename_i obj parsed
  obtain ⟨_, required, h⟩ := bind_eq_ok.1 h
  split at h
  · cases h
  rename_i r named
  obtain ⟨rfl, rfl⟩ := ok_pair h
  unfold requireMembershipEvent at required
  split at required
  · rename_i member
    exact ⟨value, rfl, parsed, member.1, named⟩
  · cases required

def ofRoomError : RoomError → HandshakeError
  | .unknownRoom _ => .refused 404 "M_NOT_FOUND" "Unknown room"
  | e => .forbidden e

/-- What an invite is checked with: the room of its path, its body, `none` where it is not valid JSON,
the keys of the origin, or why there are none, and the text of the user shard's error, if it does not
record the invite. -/
structure InviteRequest where
  pathRoom : String
  body : Option JsonValue
  originKeys : Except String PublicKeyMap
  recordError : Option String

namespace InboundServer

variable {σ : Type} (st : InboundServer σ)

/-- Whether an administrator has blocked the room; `readable` is whether that can be read. -/
def refuseIfBlocked (users : User.Store) (room : RoomId) (readable : Bool) : Except HandshakeError Unit :=
  if !st.users then .ok ()
  else if !readable then
    .error (.refused 403 "M_FORBIDDEN" "Could not verify the room's block status")
  else if users.roomBlocked.contains room then
    .error (.refused 403 "M_FORBIDDEN" "This room has been blocked by a server administrator")
  else .ok ()

/-- A membership event, applied on the shard of its room. `block` is `none` where the room's block status
is not asked for. -/
def handshake {α : Type} (membership origin : String) (body : Option JsonValue) (block : Option Bool)
    (apply : JsonObject → Heal σ (Except RoomError α)) :
    StateM (Inbound σ) (Except HandshakeError α) := do
  match membershipEvent membership body with
  | .error e => return .error e
  | .ok (raw, room) =>
    st.onShard (st.shard room) (Heal.trust (st.fetcher.trustOriginKeys origin))
    let w ← get
    match block.elim (.ok ()) (st.refuseIfBlocked w.users room) with
    | .error e => return .error e
    | .ok () =>
      let answer ← st.onShard (st.shard room) (apply raw)
      return answer.mapError ofRoomError

/-- `PUT /send_join` -/
def sendJoinApply (origin : String) (body : Option JsonValue) (readable : Bool) :
    StateM (Inbound σ) (Except HandshakeError Room.SendJoinResult) :=
  st.handshake "join" origin body (some readable) (Room.sendJoin st.fuel)

/-- `PUT /send_knock` -/
def sendKnock (origin : String) (body : Option JsonValue) (readable : Bool) :
    StateM (Inbound σ) (Except HandshakeError (List JsonObject)) :=
  st.handshake "knock" origin body (some readable) (Room.sendKnock st.fuel)

/-- `PUT /send_leave` -/
def sendLeaveApply (origin : String) (body : Option JsonValue) :
    StateM (Inbound σ) (Except HandshakeError Unit) := do
  match ← st.handshake "leave" origin body none (Room.sendLeave st.fuel) with
  | .error e => return .error e
  | .ok (.rejected _ reason) => return .error (.refused 403 "M_FORBIDDEN" reason)
  | .ok _ => return .ok ()

/-! ### Invites -/

def invalidParam (error : String) : HandshakeError := .refused 400 "M_INVALID_PARAM" error

structure Invite where
  signed : JsonObject
  version : RoomVersion
  room : RoomId
  invitee : UserId
  sender : UserId

def inviteEvent (body : Option JsonValue) : Except HandshakeError (RoomVersion × JsonObject) :=
  match body with
  | none => .error (.refused 400 "M_NOT_JSON" "invite body is not valid JSON")
  | some body =>
    match body.get "room_version" with
    | some (.string roomVersion) =>
      match RoomVersion.parse roomVersion with
      | none => .error (.refused 400 "M_INCOMPATIBLE_ROOM_VERSION" "bad room_version")
      | some version =>
        match (body.get "event").bind canonicalObject with
        | none => .error (invalidParam "missing event")
        | some event => .ok (version, event)
    | _ => .error (invalidParam "missing room_version")

def refuse (bad : Prop) [Decidable bad] (error : String) : Except HandshakeError Unit :=
  if bad then .error (invalidParam error) else .ok ()

def vetInvite (origin : String) (request : InviteRequest) (readable : Bool) (users : User.Store) :
    Except HandshakeError Invite := do
  let (version, event) ← inviteEvent request.body
  refuse (strProp event "type" ≠ some "m.room.member") "event type is not m.room.member"
  refuse ((objProp event "content").bind (strProp · "membership") ≠ some "invite")
    "membership is not invite"
  let sender := (strProp event "sender").getD ""
  refuse (serverOf st.ruma sender ≠ some origin) "sender is not on the origin server"
  let invitee := (strProp event "state_key").getD ""
  refuse (!st.ruma.isUserId invitee) "state_key is not a user id"
  refuse (Ruma.userServerName invitee ≠ st.serverName) "invited user is not on this server"
  refuse (!st.ruma.isRoomId request.pathRoom) "bad room id"
  refuse (strProp event "room_id" ≠ some request.pathRoom) "event room_id does not match the invite path"
  st.refuseIfBlocked users request.pathRoom readable
  let keys ← request.originKeys.mapError fun e => .refused 403 "M_FORBIDDEN" ("origin keys: " ++ e)
  match st.ruma.verifyEvent keys event version with
  | .error _ => .error (.refused 403 "M_INVALID_PARAM" "invite event signature verification failed")
  | .ok _ =>
    let signed ← (st.sign version event).mapError fun e => .refused 500 "M_UNKNOWN" e
    return ⟨signed, version, request.pathRoom, invitee, sender⟩

def inviteState (serde : SerdeJson) (request : InviteRequest) (invite : Invite) : List User.Bytes :=
  let items :=
    match request.body.bind (·.get "invite_room_state") with
    | some (.array items) => items
    | _ => []
  let content := ((invite.signed.lookup "content").map ofCanonical).getD .null
  (items ++ [.object [("content", content), ("sender", .string invite.sender),
    ("state_key", .string invite.invitee), ("type", .string "m.room.member")]]).filterMap serde.toVec

def recordInvite (serde : SerdeJson) (request : InviteRequest) (invite : Invite) :
    StateM (Inbound σ) (Except HandshakeError JsonObject) := fun w =>
  if !st.users then (.ok invite.signed, w)
  else
    match request.recordError with
    | some e => (.error (.refused 500 "M_UNKNOWN" e), w)
    | none =>
      let eventId := (st.ruma.eventId invite.signed invite.version).toOption.getD ""
      let users := (User.Machine.recordRemoteInvite w.users invite.invitee invite.room invite.sender eventId
        (inviteState serde request invite)).1
      (.ok invite.signed, { w with users })

/-- `PUT /invite`: an invite to a room that is hosted goes through the room pipeline. -/
def invite (serde : SerdeJson) (origin : String) (request : InviteRequest) (readable : Bool) :
    StateM (Inbound σ) (Except HandshakeError JsonObject) := do
  let w ← get
  match st.vetInvite origin request readable w.users with
  | .error e => return .error e
  | .ok invite =>
    if ((w.rooms (st.shard invite.room)).room[invite.room]?).isSome then
      match ← st.processPdu origin (ofCanonical (.object invite.signed)) none with
      | (_, .ok ()) => return .ok invite.signed
      | (_, .error _) => st.recordInvite serde request invite
    else st.recordInvite serde request invite

/-! ## Denied servers -/

/-- The requests that bring events. -/
inductive FedRequest where
  | transaction (pdus : List (JsonValue × Option LeaveFault))
  | sendJoin (body : Option JsonValue) (readable : Bool)
  | sendKnock (body : Option JsonValue) (readable : Bool)
  | sendLeave (body : Option JsonValue)
  | invite (serde : SerdeJson) (request : InviteRequest) (readable : Bool)

def serve (origin : String) : FedRequest → StateM (Inbound σ) Unit
  | .transaction pdus => do
    let _ ← st.ingestTransaction origin pdus
  | .sendJoin body readable => do
    let _ ← st.sendJoinApply origin body readable
  | .sendKnock body readable => do
    let _ ← st.sendKnock origin body readable
  | .sendLeave body => do
    let _ ← st.sendLeaveApply origin body
  | .invite serde request readable => do
    let _ ← st.invite serde origin request readable

def Denies (w : Inbound σ) (room : RoomId) (origin : String) : Prop :=
  serverAclDenies (w.rooms (st.shard room)) st.fuel room origin = true

def Applies (w : Inbound σ) (room : RoomId) (membership : String) (body : Option JsonValue)
    (block : Option Bool) : Prop :=
  ∃ raw, membershipEvent membership body = .ok (raw, room) ∧
    block.elim (.ok ()) (st.refuseIfBlocked w.users room) = .ok ()

def proposals (origin : String) (w : Inbound σ) (raw : JsonObject) : List Room.Proposal :=
  match pduRoomId st.ruma raw with
  | none => []
  | some r => (Room.ingestPduHealing st.fetcher st.fuel origin raw (st.node w (st.shard r))).2.proposals

/-- A PDU that does not name the room is not asked about with the room's list: it and the events that
heal it stay out of the room, and none goes under the list's id. -/
def Avoids (room : RoomId) (id : EventId) (origin : String) (step : PduStep σ) : Prop :=
  ∀ raw, canonicalObject step.pdu = some raw → strProp raw "room_id" ≠ some room →
    ∀ p ∈ st.proposals origin step.before raw, p.Avoids st.ruma room id

def pdusOf (w : Inbound σ) (origin : String) : FedRequest → List (PduStep σ)
  | .transaction pdus => st.transactionSteps origin pdus w
  | .invite _ request readable =>
    match st.vetInvite origin request readable w.users with
    | .ok invite =>
      if ((w.rooms (st.shard invite.room)).room[invite.room]?).isSome then
        [⟨w, ofCanonical (.object invite.signed), none⟩]
      else []
    | .error _ => []
  | _ => []

/-- The request does not come to a place where the list would have to be asked and is not. -/
structure Heeds (w : Inbound σ) (room : RoomId) (origin : String) (request : FedRequest) : Prop where
  sendJoin : ∀ body readable, request = .sendJoin body readable →
    ¬ st.Applies w room "join" body (some readable)
  sendKnock : ∀ body readable, request = .sendKnock body readable →
    ¬ st.Applies w room "knock" body (some readable)
  sendLeave : ∀ body, request = .sendLeave body → ¬ st.Applies w room "leave" body none
  pdus : ∀ step ∈ st.pdusOf w origin request,
    ∀ id, aclEvent (w.rooms (st.shard room)) st.fuel room = some id → st.Avoids room id origin step

section Sealed

variable {st} {base : Store} {room : RoomId} {id : EventId} {origin : String}

abbrev SealedIn (st : InboundServer σ) (base : Store) (room : RoomId) (id : EventId) (w : Inbound σ) :
    Prop := Sealed base room id (w.rooms (st.shard room))

theorem node_sealed {idx : UInt16} {w : Inbound σ} (h : st.SealedIn base room id w)
    (same : st.shard room = idx) : Sealed base room id (st.node w idx).store := by
  subst same
  exact h

theorem onShard_sealed {α : Type} {m : Heal σ α} {idx : UInt16} {w : Inbound σ}
    (hm : st.shard room = idx → Sealed base room id (m (st.node w idx)).2.store)
    (h : st.SealedIn base room id w) : st.SealedIn base room id (st.onShard idx m w).2 := by
  change Sealed base room id (Function.update w.rooms idx (m (st.node w idx)).2.store (st.shard room))
  by_cases same : st.shard room = idx
  · rw [same, Function.update_self]
    exact hm same
  · rw [Function.update_of_ne same]
    exact h

theorem trust_sealed (idx : UInt16) (request : StateM (PublicKeyMap × σ) Unit) :
    Keeps (st.SealedIn base room id) (st.onShard idx (Heal.trust request)) := fun _ h =>
  onShard_sealed (node_sealed h) h

theorem trustAuthors_sealed (pdus : List JsonValue) :
    Keeps (st.SealedIn base room id) (st.trustAuthors origin pdus) := by
  have all : ∀ request, Keeps (st.SealedIn base room id) (st.trustAll request) := by
    intro request
    unfold trustAll
    induction List.range st.count.toNat with
    | nil => exact Keeps.pure _
    | cons idx idxs ih =>
      rw [List.forM_eq_forM, List.forM_cons]
      exact Keeps.bind (trust_sealed _ request) fun _ => ih
  exact Keeps.ite (Keeps.pure _) (Keeps.bind (all _) fun _ => all _)

section Denied

variable (acl : aclEvent base st.fuel room = some id)
  (denied : serverAclDenies base st.fuel room origin = true)
include acl denied

theorem processPdu_sealed {step : PduStep σ} (avoids : st.Avoids room id origin step)
    (h : st.SealedIn base room id step.before) : st.SealedIn base room id (st.after origin step) := by
  unfold after processPdu
  split
  · exact h
  rename_i raw parsed
  split
  · exact h
  rename_i r routed
  dsimp only
  split
  · exact h
  rename_i allowed
  have unnamed : strProp raw "room_id" ≠ some room := by
    intro same
    rw [same, Option.any_some, denies_sealed h acl denied] at allowed
    exact allowed rfl
  have avoid := avoids raw parsed unnamed
  simp only [proposals, routed] at avoid
  have healed : st.SealedIn base room id
      (st.onShard (st.shard r) (Room.ingestPduHealing st.fetcher st.fuel origin raw) step.before).2 :=
    onShard_sealed (fun same => Room.healing_sealed rfl (node_sealed h same) avoid) h
  split <;> rename_i answered <;> rw [answered] at healed <;> exact healed

theorem processPdus_sealed {pdus : List (JsonValue × Option LeaveFault)} {w : Inbound σ}
    (avoids : ∀ step ∈ st.pduSteps origin pdus w, st.Avoids room id origin step)
    (h : st.SealedIn base room id w) : st.SealedIn base room id (st.processPdus origin pdus w).2 := by
  unfold processPdus
  -- the results of the PDUs before do not matter
  generalize (∅ : OrdMap EventId (Except PduError Unit)) = results
  induction pdus generalizing w results with
  | nil => exact h
  | cons pdu pdus ih =>
    rw [pduSteps, List.forall_mem_cons] at avoids
    have first : st.SealedIn base room id (st.processPdu origin pdu.1 pdu.2 w).2 :=
      processPdu_sealed acl denied avoids.1 h
    rw [List.foldlM_cons, bind_apply, bind_apply]
    have rest := avoids.2
    unfold after at rest
    rcases answered : st.processPdu origin pdu.1 pdu.2 w with ⟨⟨_ | id, result⟩, w'⟩ <;>
    · rw [answered] at first rest
      exact ih rest first _

theorem transaction_sealed {pdus : List (JsonValue × Option LeaveFault)} {w : Inbound σ}
    (avoids : ∀ step ∈ st.transactionSteps origin pdus w, st.Avoids room id origin step)
    (h : st.SealedIn base room id w) : st.SealedIn base room id (st.ingestTransaction origin pdus w).2 :=
  processPdus_sealed acl denied avoids (trustAuthors_sealed _ w h)

theorem invite_sealed (serde : SerdeJson) (request : InviteRequest) (readable : Bool) {w : Inbound σ}
    (avoids : ∀ step ∈ st.pdusOf w origin (.invite serde request readable), st.Avoids room id origin step)
    (h : st.SealedIn base room id w) :
    st.SealedIn base room id (st.invite serde origin request readable w).2 := by
  have record : ∀ invite, Keeps (st.SealedIn base room id) (st.recordInvite serde request invite) := by
    intro invite w h
    unfold recordInvite
    split
    · exact h
    · split <;> exact h
  unfold pdusOf at avoids
  rw [InboundServer.invite, get_bind]
  cases vetted : st.vetInvite origin request readable w.users with
  | error e => exact h
  | ok invite =>
    dsimp only at avoids
    rw [vetted] at avoids
    dsimp only at avoids ⊢
    split
    · rename_i hosted
      rw [if_pos hosted] at avoids
      have sealed := processPdu_sealed acl denied (avoids _ (List.mem_singleton.2 rfl)) h
      refine Keeps.next sealed fun answer => ?_
      split
      · exact Keeps.pure _
      · exact record invite
    · exact record invite w h

end Denied

theorem handshake_sealed {α : Type} {membership : String} {body : Option JsonValue}
    {block : Option Bool} {apply : JsonObject → Heal σ (Except RoomError α)} {w : Inbound σ}
    (keeps : ∀ raw, strProp raw "type" = some "m.room.member" → strProp raw "room_id" ≠ some room →
      Keeps (fun n : Node σ => Sealed base room id n.store) (apply raw))
    (stops : ¬ st.Applies w room membership body block) (h : st.SealedIn base room id w) :
    st.SealedIn base room id (st.handshake membership origin body block apply w).2 := by
  unfold handshake
  cases read : membershipEvent membership body with
  | error e => exact h
  | ok event =>
    obtain ⟨raw, r⟩ := event
    obtain ⟨value, sent, parsed, member, named⟩ := membershipEvent_eq_ok read
    have trusted : st.SealedIn base room id
        (st.onShard (st.shard r) (Heal.trust (st.fetcher.trustOriginKeys origin)) w).2 := trust_sealed _ _ w h
    dsimp only
    rw [bind_apply, get_bind]
    cases allowed : block.elim (.ok ()) (st.refuseIfBlocked
        (st.onShard (st.shard r) (Heal.trust (st.fetcher.trustOriginKeys origin)) w).2.users r) with
    | error e => exact trusted
    | ok _ =>
      have other : strProp raw "room_id" ≠ some room := by
        intro own
        obtain rfl := some_unique named own
        exact stops ⟨raw, read, allowed⟩
      exact Keeps.next (onShard_sealed (fun same => keeps raw member other _ (node_sealed trusted same)) trusted)
        fun answer => Keeps.pure _

end Sealed

/-- **A denied server adds nothing.** No request of a server that the room's list denies changes the
room's timeline, if it heeds the list: it has no handshake applied in the room itself, and what a PDU of
another room brings with it stays out of the room and off the list's event. -/
theorem denied_sealed {w : Inbound σ} {room : RoomId} {origin : String}
    {request : FedRequest} (denied : st.Denies w room origin) (heeds : st.Heeds w room origin request) (n : Nat) :
    ((st.serve origin request w).2.rooms (st.shard room)).roomSeq[(room, n)]? =
      (w.rooms (st.shard room)).roomSeq[(room, n)]? := by
  obtain ⟨id, -, acl, -⟩ := aclEvent_of_denies denied
  suffices sealed : st.SealedIn (w.rooms (st.shard room)) room id (st.serve origin request w).2 from
    sealed.untouched.rows n
  have start : st.SealedIn (w.rooms (st.shard room)) room id w := Sealed.refl
  have avoids := fun step mem => heeds.pdus step mem id acl
  cases request with
  | transaction pdus => exact transaction_sealed acl denied avoids start
  | sendJoin body readable =>
    exact handshake_sealed (fun raw member other => Room.sendJoin_sealed member other)
      (heeds.sendJoin body readable rfl) start
  | sendKnock body readable =>
    exact handshake_sealed (fun raw member other => Room.sendKnock_sealed member other)
      (heeds.sendKnock body readable rfl) start
  | sendLeave body =>
    have applied : st.SealedIn (w.rooms (st.shard room)) room id
        (st.handshake "leave" origin body none (Room.applyResident st.fuel · false) w).2 :=
      handshake_sealed (fun raw member other => Room.applyResident_sealed member other false)
        (heeds.sendLeave body rfl) start
    refine Keeps.next (Keeps.next applied fun answer => ?_) fun _ => Keeps.pure _
    split <;> exact Keeps.pure _
  | invite serde request readable => exact invite_sealed acl denied serde request readable avoids start

end InboundServer

/-! ### A denied join -/

def sampleDenial : List Room.Call :=
  [.ingest Ruma.sampleCreate false, .ingest Ruma.sampleJoin false, .ingest sampleRules false,
    .ingest (Ruma.samplePdu "a" "m.room.server_acl" (some "") "@a:x"
      [("allow", .array [.string "*"]), ("deny", .array [.string "y"])] ["$c", "$j"] ["$k"] 4) false]

def sampleHosting (s : Store) : Inbound Unit where
  rooms _ := s
  keys _ := (Room.Server.sample ["x", "y"]).keys
  users := User.Store.empty
  remote := ()

def sampleVisitorJoin : JsonObject := sampleVisitor "b" "join" ["$c", "$k"] "$a" 5

theorem exists_denial (p : Store → Bool) (h : (sampleServe Store.empty sampleDenial).any (fun s =>
      serverAclDenies s 9 "!r:x" "y" && p s) = true) :
    ∃ s, Room.Runs (Room.Serial Ruma.sample) Store.empty s ∧
      sampleInboundServer.Denies (sampleHosting s) "!r:x" "y" ∧ p s = true := by
  obtain ⟨s, served, h⟩ := (Option.any_eq_true _ _).1 h
  rw [Bool.and_eq_true] at h
  obtain ⟨denied, h⟩ := h
  exact ⟨s, sampleServe_runs served, denied, h⟩

theorem denied_sealed_transaction : ∃ s, sampleInboundServer.Denies (sampleHosting s) "!r:x" "y" ∧
    ∀ n : Nat, ((sampleInboundServer.serve "y"
      (.transaction [(ofCanonical (.object sampleVisitorJoin), none)]) (sampleHosting s)).2.rooms
        (sampleInboundServer.shard "!r:x")).roomSeq[("!r:x", n)]? = s.roomSeq[("!r:x", n)]? := by
  obtain ⟨s, -, denied, -⟩ := exists_denial (fun _ => true) (by decide +kernel)
  have heeds : sampleInboundServer.Heeds (sampleHosting s) "!r:x" "y"
      (.transaction [(ofCanonical (.object sampleVisitorJoin), none)]) := by
    refine ⟨nofun, nofun, nofun, fun step mem id _ raw read unnamed => ?_⟩
    obtain rfl := List.mem_singleton.1 mem
    obtain rfl : sampleVisitorJoin = raw := Option.some.inj read
    exact absurd (by decide) unnamed
  exact ⟨s, denied, sampleInboundServer.denied_sealed denied heeds⟩

/-- A server that the room's list denies joins it. -/
theorem denied_join_appended : ∃ s, Room.Runs (Room.Serial Ruma.sample) Store.empty s ∧
    sampleInboundServer.Denies (sampleHosting s) "!r:x" "y" ∧ s.roomSeq[("!r:x", 5)]? = none ∧
    ((sampleInboundServer.serve "y"
      (.sendJoin (some (ofCanonical (.object sampleVisitorJoin))) true) (sampleHosting s)).2.rooms
        (sampleInboundServer.shard "!r:x")).roomSeq[("!r:x", 5)]? = some "$b" := by
  obtain ⟨s, reached, denied, joined⟩ := exists_denial (fun s =>
    s.roomSeq[("!r:x", 5)]? = none && ((sampleInboundServer.serve "y"
      (.sendJoin (some (ofCanonical (.object sampleVisitorJoin))) true) (sampleHosting s)).2.rooms
        (sampleInboundServer.shard "!r:x")).roomSeq[("!r:x", 5)]? = some "$b") (by decide +kernel)
  simp only [Bool.and_eq_true, decide_eq_true_iff] at joined
  exact ⟨s, reached, denied, joined⟩

end Saltator.Federation
