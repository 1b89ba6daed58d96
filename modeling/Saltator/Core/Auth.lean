import Saltator.Core.PowerLevels

/-!
# Authorisation rules

`checkAuthEvents` checks the event's own `auth_events` list, `checkStateDependent` everything that
is evaluated against a state snapshot. A snapshot is any lookup from `(type, state_key)` to an event.
Rule numbers in the comments are those of room version 12.
-/

namespace Saltator.Auth

open Std

/-- Why an event failed authorisation: a version-agnostic rule tag and a reason. -/
structure Rejection where
  rule : String
  reason : String
  deriving DecidableEq

/-- The text of a rejection, `auth: rule: reason`. -/
def Rejection.toText (r : Rejection) : String := "auth: " ++ r.rule ++ ": " ++ r.reason

abbrev AuthResult := Except Rejection Unit

def reject (rule reason : String) : AuthResult := .error ⟨rule, reason⟩

/-- Read access to a state snapshot. -/
abbrev StateView (E : Type) := String → String → Option E

variable {E : Type} [Event E]

/-- A user's membership in a snapshot, `leave` when absent. -/
def membership (state : StateView E) (user : String) : String :=
  ((state "m.room.member" user).bind fun e => strProp (Event.content e) "membership").getD "leave"

/-- The `(type, state_key)` pairs the auth-events selection permits for an event. -/
def authTypesForEvent (version : RoomVersion) (eventType : String) (sender : UserId)
    (stateKey : Option String) (content : JsonObject) : OrdSet (String × String) :=
  if eventType = "m.room.create" then ∅
  else
    let base : List (String × String) :=
      (if version.createEventInAuthEvents then [("m.room.create", "")] else []) ++
        [("m.room.power_levels", ""), ("m.room.member", sender)]
    let member : List (String × String) :=
      if eventType = "m.room.member" then
        let mem := (strProp content "membership").getD ""
        let token :=
          ((objProp content "third_party_invite").bind fun tpi => objProp tpi "signed").bind
            fun signed => strProp signed "token"
        (match stateKey with
          | some target => [("m.room.member", target)]
          | none => []) ++
        (if mem = "join" ∨ mem = "invite" ∨ mem = "knock" then [("m.room.join_rules", "")] else []) ++
        (if mem = "invite" then
          match token with
          | some t => [("m.room.third_party_invite", t)]
          | none => []
        else []) ++
        (if mem = "join" then
          match strProp content "join_authorised_via_users_server" with
          | some authoriser => [("m.room.member", authoriser)]
          | none => []
        else [])
      else []
    OrdSet.extend ∅ (base ++ member)

def authTypesOf (version : RoomVersion) (e : E) : OrdSet (String × String) :=
  authTypesForEvent version (Event.eventType e) (Event.sender e) (Event.stateKey e) (Event.content e)

theorem authTypesOf_create {version : RoomVersion} {e : E} (create : Event.eventType e = "m.room.create") :
    authTypesOf version e = ∅ := by
  simp [authTypesOf, authTypesForEvent, create]

/-! ## The event's own auth events -/

/-- An entry of `auth_events`, resolved to the event and its local rejection status. -/
structure AuthEntry (E : Type) where
  event : E
  rejected : Bool

def checkAuthEntry (version : RoomVersion) (event : E) (allowed : OrdSet (String × String))
    (seen : OrdSet (String × String) × Bool) (entry : AuthEntry E) :
    Except Rejection (OrdSet (String × String) × Bool) :=
  let e := entry.event
  let key := Event.key e
  -- 3.1: duplicate entries.
  if seen.1.contains key then
    .error ⟨"auth_events.duplicate", "duplicate auth entry for " ++ debugKey key⟩
  -- 3.2: entries outside the selection set.
  else if !allowed.contains key then
    .error ⟨"auth_events.selection", debugKey key ++ " is not a permitted auth event for this event"⟩
  -- 3.3: rejected entries.
  else if entry.rejected then
    .error ⟨"auth_events.rejected", "auth event " ++ Event.eventId e ++ " was rejected"⟩
  -- 3.5: the room must match.
  else if Event.roomId e ≠ Event.roomId event ∧
      ¬ (version.roomIdIsCreateEventId ∧ key.1 = "m.room.create") then
    .error ⟨"auth_events.room_id", "auth event " ++ Event.eventId e ++ " belongs to another room"⟩
  else .ok (seen.1.insert key, seen.2 || key.1 == "m.room.create")

def checkAuthEvents (version : RoomVersion) (event : E) (entries : List (AuthEntry E)) :
    AuthResult := do
  let isCreate := Event.eventType event == "m.room.create"
  let (_, haveCreate) ←
    entries.foldlM (checkAuthEntry version event (authTypesOf version event)) (∅, false)
  if version.createEventInAuthEvents && !haveCreate && !isCreate then
    reject "auth_events.create" "no m.room.create in auth_events"

/-! ## The create event -/

def checkAdditionalCreators (ruma : Ruma) (content : JsonObject) : AuthResult :=
  match content.lookup "additional_creators" with
  | none => .ok ()
  | some (.array items) => items.forM fun v =>
    match v with
    | .string s =>
      if ruma.isUserId s then .ok ()
      else reject "create.additional_creators" "additional_creators entry is not a valid user ID"
    | _ => reject "create.additional_creators" "additional_creators entry is not a valid user ID"
  | some _ => reject "create.additional_creators" "additional_creators is not an array"

def checkCreate (ruma : Ruma) (version : RoomVersion) (event : E) : AuthResult := do
  -- 1.1: no prev_events.
  if !(Event.prevEvents event).isEmpty then
    reject "create.prev_events" "create event has prev_events"
  if version.roomIdIsCreateEventId then
    -- 1.2: no room_id property at all.
    if (Event.roomId event).isSome then
      reject "create.room_id" "v12 create event carries a room_id"
  else
    -- Before version 12: the room_id's domain is the sender's.
    match Event.roomId event with
    | some rid =>
      if ruma.roomServerName rid ≠ some (Ruma.userServerName (Event.sender event)) then
        reject "create.room_id" "room_id domain does not match sender domain"
    | none => reject "create.room_id" "room_id domain does not match sender domain"
  -- 1.3: a room_version that is present must be recognised.
  match (Event.content event).lookup "room_version" with
  | none => pure ()
  | some (.string v) =>
    if (RoomVersion.parse v).isNone then
      reject "create.room_version" "unrecognised room_version"
  | some _ => reject "create.room_version" "unrecognised room_version"
  if version.creatorInCreateContent && (strProp (Event.content event) "creator").isNone then
    reject "create.creator" "create content has no creator"
  -- 1.4.
  if version.privilegedCreators then checkAdditionalCreators ruma (Event.content event)

/-! ## Membership -/

/-- Whether some signature in `signed.signatures` verifies under one of the candidate keys. -/
def signedByAnyKey (ruma : Ruma) (signed : JsonObject) (candidateKeys : List String) : Bool :=
  match ruma.signingText signed, objProp signed "signatures" with
  | .ok message, some sigMap =>
    candidateKeys.any fun keyB64 =>
      match ruma.base64 keyB64 with
      | none => false
      | some key => sigMap.any fun (_, sigs) =>
        match sigs with
        | .object sigs => sigs.any fun (keyId, sig) =>
          match sig with
          | .string sigB64 =>
            keyId.startsWith "ed25519:" &&
              match ruma.base64 sigB64 with
              | none => false
              | some sig => ruma.ed25519 key sig message
          | _ => false
        | _ => false
  | _, _ => false

def candidateKeys (content : JsonObject) : List String :=
  (strProp content "public_key").toList ++
    match content.lookup "public_keys" with
    | some (.array items) => items.filterMap fun v =>
      match v with
      | .object o => strProp o "public_key"
      | _ => none
    | _ => []

/-- Rule 5.4.1: invites with a `third_party_invite` block. -/
def checkThirdPartyInvite (ruma : Ruma) (event : E) (tpi : JsonObject) (target targetMem : String)
    (state : StateView E) : AuthResult :=
  if targetMem = "ban" then reject "member.3pi.ban" "target is banned"
  else
    match objProp tpi "signed" with
    | none => reject "member.3pi.signed" "third_party_invite without signed"
    | some signed =>
      match strProp signed "mxid", strProp signed "token" with
      | some mxid, some token =>
        if mxid ≠ target then reject "member.3pi.mxid" "signed mxid does not match state_key"
        else
          match state "m.room.third_party_invite" token with
          | none => reject "member.3pi.token" "no matching m.room.third_party_invite"
          | some tpiEvent =>
            if Event.sender event ≠ Event.sender tpiEvent then
              reject "member.3pi.sender" "sender differs from third_party_invite sender"
            else if signedByAnyKey ruma signed (candidateKeys (Event.content tpiEvent)) then .ok ()
            else reject "member.3pi.signature" "no signature matches a public key"
      | _, _ => reject "member.3pi.signed" "signed without mxid/token"

def checkJoin (ruma : Ruma) (version : RoomVersion) (event create : E) (state : StateView E)
    (power : RoomPowerLevels) (target senderMem joinRule : String) : AuthResult :=
  let creator :=
    if version.creatorInCreateContent then
      (strProp (Event.content create) "creator").getD (Event.sender create)
    else Event.sender create
  -- 5.3.1: the room's first join.
  if Event.prevEvents event = [Event.eventId create] ∧ target = creator then .ok ()
  -- 5.3.2: only self-joins beyond this point.
  else if Event.sender event ≠ target then
    reject "member.join.sender" "join sender differs from state_key"
  -- 5.3.3.
  else if senderMem = "ban" then reject "member.join.ban" "sender is banned"
  -- 5.3.4.
  else if joinRule = "invite" ∨ joinRule = "knock" then
    if senderMem = "invite" ∨ senderMem = "join" then .ok ()
    else reject "member.join.rule" "not invited to invite/knock room"
  -- 5.3.5.
  else if joinRule = "restricted" ∨ joinRule = "knock_restricted" then
    if senderMem = "join" ∨ senderMem = "invite" then .ok ()
    else
      match strProp (Event.content event) "join_authorised_via_users_server" with
      | none => reject "member.join.restricted" "restricted join without authorising user"
      | some authoriser =>
        if !ruma.isUserId authoriser then
          reject "member.join.restricted" "authorising user is not a valid user ID"
        else if membership state authoriser ≠ "join" then
          reject "member.join.restricted" "authorising user is not in the room"
        else if !(power.user authoriser).satisfies power.invite then
          reject "member.join.restricted" "authorising user cannot invite"
        else .ok ()
  -- 5.3.6.
  else if joinRule = "public" then .ok ()
  else reject "member.join.rule" ("join_rule " ++ debugStr joinRule)

def checkMember (ruma : Ruma) (version : RoomVersion) (event create : E) (state : StateView E)
    (power : RoomPowerLevels) (senderPl : PowerLevel) : AuthResult :=
  match Event.stateKey event with
  | none => reject "member.state_key" "member event without state_key"
  | some target =>
    match strProp (Event.content event) "membership" with
    | none => reject "member.membership" "member event without membership"
    | some newMembership =>
      let sender := Event.sender event
      let senderMem := membership state sender
      let targetMem := membership state target
      let joinRule :=
        ((state "m.room.join_rules" "").bind fun e =>
          strProp (Event.content e) "join_rule").getD "invite"
      if newMembership = "join" then
        checkJoin ruma version event create state power target senderMem joinRule
      -- 5.4.
      else if newMembership = "invite" then
        match objProp (Event.content event) "third_party_invite" with
        | some tpi => checkThirdPartyInvite ruma event tpi target targetMem state
        | none =>
          if senderMem ≠ "join" then reject "member.invite.sender" "inviter is not joined"
          else if targetMem = "join" ∨ targetMem = "ban" then
            reject "member.invite.target" "target is joined or banned"
          else if senderPl.satisfies power.invite then .ok ()
          else reject "member.invite.level" "sender below invite level"
      -- 5.5.
      else if newMembership = "leave" then
        if sender = target then
          if senderMem = "invite" ∨ senderMem = "join" ∨ senderMem = "knock" then .ok ()
          else reject "member.leave.self" "cannot leave without being in the room"
        else if senderMem ≠ "join" then reject "member.leave.sender" "kicker is not joined"
        else if targetMem = "ban" ∧ !senderPl.satisfies power.ban then
          reject "member.leave.unban" "sender below ban level"
        else if senderPl.satisfies power.kick && (power.userFromStr ruma target).lt senderPl then
          .ok ()
        else reject "member.leave.kick" "sender cannot kick target"
      -- 5.6.
      else if newMembership = "ban" then
        if senderMem ≠ "join" then reject "member.ban.sender" "banner is not joined"
        else if senderPl.satisfies power.ban && (power.userFromStr ruma target).lt senderPl then
          .ok ()
        else reject "member.ban.level" "sender cannot ban target"
      -- 5.7.
      else if newMembership = "knock" then
        if ¬ (joinRule = "knock" ∨ joinRule = "knock_restricted") then
          reject "member.knock.rule" "room does not accept knocks"
        else if sender ≠ target then
          reject "member.knock.sender" "knock sender differs from state_key"
        else if ¬ (senderMem = "ban" ∨ senderMem = "invite" ∨ senderMem = "join") then .ok ()
        else reject "member.knock.membership" "sender is banned, invited or joined"
      else reject "member.unknown" ("unknown membership " ++ debugStr newMembership)

/-! ## Power levels -/

def scalarLevels : List String :=
  ["users_default", "events_default", "state_default", "ban", "redact", "kick", "invite"]

/-- One entry of `users`: a user id with a level. -/
def checkUserLevel (ruma : Ruma) (version : RoomVersion) (entry : String × Json) : AuthResult :=
  if !ruma.isUserId entry.1 then
    reject "power_levels.users" (debugStr entry.1 ++ " is not a user ID")
  else if (levelValue version.lenientPowerLevels entry.2).isNone then
    reject "power_levels.int" ("users." ++ entry.1 ++ " is not an integer")
  else .ok ()

def checkPowerLevelShape (ruma : Ruma) (version : RoomVersion) (content : JsonObject)
    (power : RoomPowerLevels) : AuthResult := do
  let levelOk (v : Json) : Bool := (levelValue version.lenientPowerLevels v).isSome
  scalarLevels.forM fun key =>
    match content.lookup key with
    | none => .ok ()
    | some v =>
      if levelOk v then .ok () else reject "power_levels.int" (key ++ " is not an integer")
  ["events", "notifications"].forM fun key =>
    match content.lookup key with
    | none => .ok ()
    | some (.object map) =>
      if map.all (fun (_, v) => levelOk v) then .ok ()
      else reject "power_levels.int" (key ++ " contains a non-integer value")
    | some _ => reject "power_levels.int" (key ++ " is not an object")
  match content.lookup "users" with
  | none => pure ()
  | some (.object map) => map.forM (checkUserLevel ruma version)
  | some _ => reject "power_levels.users" "users is not an object"
  if version.privilegedCreators then
    match content.lookup "users" with
    | some (.object users) =>
      match power.creators.toList.find? fun creator => (users.lookup creator).isSome with
      | some creator => reject "power_levels.creator" ("creator " ++ creator ++ " listed in users")
      | none => pure ()
    | _ => pure ()

def entryMap (lenient : Bool) (obj : JsonObject) (key : String) : OrdMap String Int :=
  match obj.lookup key with
  | some (.object map) =>
    map.foldl (fun out (k, v) =>
      match levelValue lenient v with
      | some i => out.insert k i
      | none => out) ∅
  | _ => ∅

/-- Rules 10.6 to 10.10: what may be altered from the previous levels. -/
def checkPowerLevelChange (version : RoomVersion) (sender : UserId) (old content : JsonObject)
    (senderPl : PowerLevel) : AuthResult := do
  let lenient := version.lenientPowerLevels
  let getInt (o : JsonObject) (key : String) : Option Int := (o.lookup key).bind (levelValue lenient)
  scalarLevels.forM fun key => do
    let oldV := getInt old key
    let newV := getInt content key
    if oldV ≠ newV then
      match oldV with
      | some v =>
        if !senderPl.satisfies v then
          reject "power_levels.alter"
            ("cannot change " ++ key ++ " from level " ++ toString v ++ " above own")
      | none => pure ()
      match newV with
      | some v =>
        if !senderPl.satisfies v then
          reject "power_levels.alter" ("cannot set " ++ key ++ " to level " ++ toString v ++ " above own")
      | none => pure ()
  ["events", "notifications", "users"].forM fun key => do
    let oldMap := entryMap lenient old key
    let newMap := entryMap lenient content key
    oldMap.toList.forM fun (k, oldV) =>
      if newMap[k]? = some oldV then .ok ()
      else if key = "users" then
        -- 10.9: the sender's own entry is spared.
        if k ≠ sender ∧ senderPl.le (.int oldV) then
          reject "power_levels.demote"
            ("cannot alter " ++ k ++ " at level " ++ toString oldV ++ " at/above own")
        else .ok ()
      else if !senderPl.satisfies oldV then
        reject "power_levels.alter"
          ("cannot alter " ++ key ++ "." ++ k ++ " from level " ++ toString oldV ++ " above own")
      else .ok ()
    newMap.toList.forM fun (k, newV) =>
      if oldMap[k]? = some newV then .ok ()
      else if !senderPl.satisfies newV then
        reject "power_levels.grant"
          ("cannot set " ++ key ++ "." ++ k ++ " to level " ++ toString newV ++ " above own")
      else .ok ()

def checkPowerLevels (ruma : Ruma) (version : RoomVersion) (event : E) (state : StateView E)
    (power : RoomPowerLevels) (senderPl : PowerLevel) : AuthResult := do
  checkPowerLevelShape ruma version (Event.content event) power
  match state "m.room.power_levels" "" with
  | none => pure ()
  | some previous =>
    checkPowerLevelChange version (Event.sender event) (Event.content previous)
      (Event.content event) senderPl

/-! ## The state-dependent rules -/

def checkStateDependent (ruma : Ruma) (version : RoomVersion) (event : E) (state : StateView E) :
    AuthResult :=
  if Event.eventType event = "m.room.create" then checkCreate ruma version event
  else
    match state "m.room.create" "" with
    | none => reject "state.create" "no m.room.create in state"
    | some create => do
      -- Rule 2: the room id is the create event's id.
      if version.roomIdIsCreateEventId then
        match Event.roomId event with
        | some rid =>
          if withoutSigil rid ≠ withoutSigil (Event.eventId create) then
            reject "room_id.create" "room_id does not match the create event's ID"
        | none => reject "room_id.create" "room_id does not match the create event's ID"
      -- Rule 4: rooms that do not federate.
      match (Event.content create).lookup "m.federate" with
      | some (.bool false) =>
        if Ruma.userServerName (Event.sender event) ≠ Ruma.userServerName (Event.sender create) then
          reject "federate" "room does not federate and sender is remote"
      | _ => pure ()
      let power ←
        match RoomPowerLevels.resolve ruma version create (state "m.room.power_levels" "") with
        | .ok power => .ok power
        | .error e => .error ⟨"state.power_levels", "malformed state: " ++ e.reason⟩
      let senderPl := power.user (Event.sender event)
      -- Rule 5.
      if Event.eventType event = "m.room.member" then
        checkMember ruma version event create state power senderPl
      -- Rule 6.
      else if membership state (Event.sender event) ≠ "join" then
        reject "sender.membership" "sender is not joined"
      -- Rule 7.
      else if Event.eventType event = "m.room.third_party_invite" then
        if senderPl.satisfies power.invite then .ok ()
        else reject "third_party_invite.level" "sender below invite level"
      else
        -- Rule 8.
        let required := power.requiredFor (Event.eventType event) (Event.isState event)
        if !senderPl.satisfies required then
          reject "event.level"
            ("sender below required level " ++ toString required ++ " for this event type")
        -- Rule 9: user-keyed state is keyed by the sender.
        else if (Event.stateKey event).any (fun sk =>
            sk.startsWith "@" && sk ≠ Event.sender event) then
          reject "state_key.user" "user-keyed state_key is not the sender"
        -- Rule 10.
        else if Event.eventType event = "m.room.power_levels" then
          checkPowerLevels ruma version event state power senderPl
        else .ok ()

end Saltator.Auth
