import Saltator.Core.Auth

/-!
# What the authorisation rules read and allow

* `checkStateDependent_congr`: the verdict on an event depends on the state only through the
  selection set of the event and the create event.
* `checkStateDependent_member`: an accepted member event passed `checkMember`.
* `banned_member_change`: the three ways in which the membership of a banned user changes.
-/

namespace Saltator.Auth

open Std

variable {E : Type} [Event E]

/-! ## The selection set -/

def AgreeOnSelected (version : RoomVersion) (event : E) (state state' : StateView E) : Prop :=
  ∀ t sk, (t, sk) ∈ authTypesOf version event ∨ (t, sk) = ("m.room.create", "") → state t sk = state' t sk

section Selected

variable {version : RoomVersion} {event : E} (notCreate : Event.eventType event ≠ "m.room.create")
include notCreate

theorem powerLevels_selected : ("m.room.power_levels", "") ∈ authTypesOf version event := by
  simp [authTypesOf, authTypesForEvent, notCreate, OrdSet.mem_extend]

theorem sender_selected : ("m.room.member", Event.sender event) ∈ authTypesOf version event := by
  simp [authTypesOf, authTypesForEvent, notCreate, OrdSet.mem_extend]

end Selected

section MemberSelected

variable {version : RoomVersion} {event : E} (member : Event.eventType event = "m.room.member")
include member

theorem target_selected {target : String} (key : Event.stateKey event = some target) :
    ("m.room.member", target) ∈ authTypesOf version event := by
  simp [authTypesOf, authTypesForEvent, member, OrdSet.mem_extend, key]

theorem joinRules_selected {membership : String}
    (mem : strProp (Event.content event) "membership" = some membership)
    (reads : membership = "join" ∨ membership = "invite" ∨ membership = "knock") :
    ("m.room.join_rules", "") ∈ authTypesOf version event := by
  simp [authTypesOf, authTypesForEvent, member, OrdSet.mem_extend, mem, reads]

theorem token_selected {tpi signed : JsonObject} {token : String}
    (mem : strProp (Event.content event) "membership" = some "invite")
    (block : objProp (Event.content event) "third_party_invite" = some tpi)
    (inner : objProp tpi "signed" = some signed) (tok : strProp signed "token" = some token) :
    ("m.room.third_party_invite", token) ∈ authTypesOf version event := by
  simp [authTypesOf, authTypesForEvent, member, OrdSet.mem_extend, mem, block, inner, tok]

theorem authoriser_selected {authoriser : String}
    (mem : strProp (Event.content event) "membership" = some "join")
    (auth : strProp (Event.content event) "join_authorised_via_users_server" = some authoriser) :
    ("m.room.member", authoriser) ∈ authTypesOf version event := by
  simp [authTypesOf, authTypesForEvent, member, OrdSet.mem_extend, mem, auth]

end MemberSelected

/-! ## The verdict reads the selection only -/

theorem membership_congr {state state' : StateView E} {user : String}
    (h : state "m.room.member" user = state' "m.room.member" user) :
    membership state user = membership state' user := by
  rw [membership, membership, h]

section Congr

variable {ruma : Ruma} {version : RoomVersion} {event : E} {state state' : StateView E}
  {power : RoomPowerLevels}

theorem checkThirdPartyInvite_congr {tpi : JsonObject} {target targetMem : String}
    (h : ∀ signed token, objProp tpi "signed" = some signed → strProp signed "token" = some token →
      state "m.room.third_party_invite" token = state' "m.room.third_party_invite" token) :
    checkThirdPartyInvite ruma event tpi target targetMem state =
      checkThirdPartyInvite ruma event tpi target targetMem state' := by
  unfold checkThirdPartyInvite
  cases hs : objProp tpi "signed" with
  | none => rfl
  | some signed =>
    cases ht : strProp signed "token" with
    | none => cases hm : strProp signed "mxid" <;> simp only [ht, hm]
    | some token =>
      cases hm : strProp signed "mxid" <;> simp only [ht, hm, h signed token hs ht]

theorem checkJoin_congr {create : E} {target senderMem joinRule : String} (h : ∀ authoriser,
      strProp (Event.content event) "join_authorised_via_users_server" = some authoriser →
      membership state authoriser = membership state' authoriser) :
    checkJoin ruma version event create state power target senderMem joinRule =
      checkJoin ruma version event create state' power target senderMem joinRule := by
  unfold checkJoin
  cases ha : strProp (Event.content event) "join_authorised_via_users_server" with
  | none => rfl
  | some authoriser => simp only [h authoriser ha]

theorem checkMember_congr {create : E} {senderPl : PowerLevel}
    (type : Event.eventType event = "m.room.member")
    (agree : AgreeOnSelected version event state state') :
    checkMember ruma version event create state power senderPl =
      checkMember ruma version event create state' power senderPl := by
  have notCreate : Event.eventType event ≠ "m.room.create" := by simp [type]
  have senderMem := membership_congr (agree _ _ (.inl (sender_selected notCreate)))
  unfold checkMember
  cases key : Event.stateKey event with
  | none => rfl
  | some target =>
    have targetMem := membership_congr (agree _ _ (.inl (target_selected type key)))
    cases mem : strProp (Event.content event) "membership" with
    | none => rfl
    | some new =>
      simp only [senderMem, targetMem]
      by_cases join : new = "join"
      · subst join
        have rules := agree _ _ (.inl (joinRules_selected type mem (.inl rfl)))
        simp only [if_true, rules]
        apply checkJoin_congr
        intro authoriser ha
        exact membership_congr (agree _ _ (.inl (authoriser_selected type mem ha)))
      by_cases invite : new = "invite"
      · subst invite
        simp only [join, if_true, if_false]
        cases block : objProp (Event.content event) "third_party_invite" with
        | none => rfl
        | some tpi =>
          apply checkThirdPartyInvite_congr
          intro signed token hs ht
          exact agree _ _ (.inl (token_selected type mem block hs ht))
      by_cases knock : new = "knock"
      · subst knock
        have rules := agree _ _ (.inl (joinRules_selected type mem (.inr (.inr rfl))))
        simp only [join, invite, if_false, rules]
      simp only [join, invite, knock, if_false]

theorem checkStateDependent_congr (agree : AgreeOnSelected version event state state') :
    checkStateDependent ruma version event state = checkStateDependent ruma version event state' := by
  unfold checkStateDependent
  by_cases create : Event.eventType event = "m.room.create"
  · simp only [create, if_true]
  have created := agree _ _ (.inr rfl)
  have power := agree _ _ (.inl (powerLevels_selected create))
  have sender := membership_congr (agree _ _ (.inl (sender_selected create)))
  unfold checkPowerLevels
  rw [if_neg create, if_neg create, created, power, sender]
  cases state' "m.room.create" "" with
  | none => rfl
  | some createEvent =>
    by_cases member : Event.eventType event = "m.room.member"
    · simp only [checkMember_congr member agree]
    · simp only [member, if_false]

end Congr

/-! ## What acceptance tells -/

def checkRoomId (version : RoomVersion) (event create : E) : AuthResult := do
  if version.roomIdIsCreateEventId then
    match Event.roomId event with
    | some rid =>
      if withoutSigil rid ≠ withoutSigil (Event.eventId create) then
        reject "room_id.create" "room_id does not match the create event's ID"
    | none => reject "room_id.create" "room_id does not match the create event's ID"

def checkFederates (event create : E) : AuthResult := do
  match (Event.content create).lookup "m.federate" with
  | some (.bool false) =>
    if Ruma.userServerName (Event.sender event) ≠ Ruma.userServerName (Event.sender create) then
      reject "federate" "room does not federate and sender is remote"
  | _ => pure ()

def checkRules (ruma : Ruma) (version : RoomVersion) (event create : E) (state : StateView E)
    (power : RoomPowerLevels) : AuthResult :=
  let senderPl := power.user (Event.sender event)
  if Event.eventType event = "m.room.member" then
    checkMember ruma version event create state power senderPl
  else if membership state (Event.sender event) ≠ "join" then
    reject "sender.membership" "sender is not joined"
  else if Event.eventType event = "m.room.third_party_invite" then
    if senderPl.satisfies power.invite then .ok ()
    else reject "third_party_invite.level" "sender below invite level"
  else
    let required := power.requiredFor (Event.eventType event) (Event.isState event)
    if !senderPl.satisfies required then
      reject "event.level" ("sender below required level " ++ toString required ++ " for this event type")
    else if (Event.stateKey event).any (fun sk =>
        sk.startsWith "@" && sk ≠ Event.sender event) then
      reject "state_key.user" "user-keyed state_key is not the sender"
    else if Event.eventType event = "m.room.power_levels" then
      checkPowerLevels ruma version event state power senderPl
    else .ok ()

/-- What the rules established about an accepted event other than a create event. -/
structure Admitted (ruma : Ruma) (version : RoomVersion) (event : E) (state : StateView E)
    (create : E) (power : RoomPowerLevels) : Prop where
  created : state "m.room.create" "" = some create
  resolved : RoomPowerLevels.resolve ruma version create (state "m.room.power_levels" "") = .ok power
  roomId : checkRoomId version event create = .ok ()
  federates : checkFederates event create = .ok ()
  rules : checkRules ruma version event create state power = .ok ()

section Admission

variable {ruma : Ruma} {version : RoomVersion} {event create : E} {state : StateView E}
  {power : RoomPowerLevels}

theorem checkRoomId_bind (next : Unit → AuthResult) : (if version.roomIdIsCreateEventId then
      match Event.roomId event with
      | some rid =>
        if withoutSigil rid ≠ withoutSigil (Event.eventId create) then
          reject "room_id.create" "room_id does not match the create event's ID" >>= next
        else next ()
      | none => reject "room_id.create" "room_id does not match the create event's ID" >>= next
    else next ()) = checkRoomId version event create >>= next := by
  unfold checkRoomId
  split
  · cases Event.roomId event with
    | none => rfl
    | some rid =>
      dsimp only
      split <;> rfl
  · rfl

theorem checkFederates_bind (next : Unit → AuthResult) :
    (match (Event.content create).lookup "m.federate" with
    | some (.bool false) =>
      if Ruma.userServerName (Event.sender event) ≠ Ruma.userServerName (Event.sender create) then
        reject "federate" "room does not federate and sender is remote" >>= next
      else next ()
    | _ => next ()) = checkFederates event create >>= next := by
  unfold checkFederates
  split
  · split <;> rfl
  · rfl

theorem checkStateDependent_eq (notCreate : Event.eventType event ≠ "m.room.create")
    (created : state "m.room.create" "" = some create) :
    checkStateDependent ruma version event state = (do
      checkRoomId version event create
      checkFederates event create
      let power ←
        match RoomPowerLevels.resolve ruma version create (state "m.room.power_levels" "") with
        | .ok power => .ok power
        | .error e => .error ⟨"state.power_levels", "malformed state: " ++ e.reason⟩
      checkRules ruma version event create state power) := by
  unfold checkStateDependent
  rw [if_neg notCreate, created]
  refine (checkRoomId_bind _).trans ?_
  refine congrArg _ (funext fun _ => ?_)
  exact checkFederates_bind _

theorem checkStateDependent_admitted (notCreate : Event.eventType event ≠ "m.room.create")
    (ok : checkStateDependent ruma version event state = .ok ()) :
    ∃ create power, Admitted ruma version event state create power := by
  cases created : state "m.room.create" "" with
  | none =>
    unfold checkStateDependent at ok
    simp [notCreate, created, reject] at ok
  | some create =>
    rw [checkStateDependent_eq notCreate created] at ok
    obtain ⟨_, room, ok⟩ := Outcome.bind_eq_ok.1 ok
    obtain ⟨_, federates, ok⟩ := Outcome.bind_eq_ok.1 ok
    cases resolved :
        RoomPowerLevels.resolve ruma version create (state "m.room.power_levels" "") with
    | error e => simp [resolved] at ok
    | ok power =>
      rw [resolved] at ok
      exact ⟨create, power, created, resolved, room, federates, ok⟩

theorem checkStateDependent_create (type : Event.eventType event = "m.room.create") :
    checkStateDependent ruma version event state = checkCreate ruma version event :=
  if_pos type

theorem prevEvents_of_checkCreate (ok : checkCreate ruma version event = .ok ()) :
    Event.prevEvents event = [] := by
  by_contra some
  have some : (Event.prevEvents event).isEmpty = false := by simpa using some
  simp [checkCreate, some, reject] at ok

theorem Admitted.member (admitted : Admitted ruma version event state create power)
    (type : Event.eventType event = "m.room.member") :
    checkMember ruma version event create state power (power.user (Event.sender event)) = .ok () := by
  have rules := admitted.rules
  rwa [checkRules, if_pos type] at rules

theorem Admitted.joined (admitted : Admitted ruma version event state create power)
    (type : Event.eventType event ≠ "m.room.member") :
    membership state (Event.sender event) = "join" := by
  have rules := admitted.rules
  rw [checkRules, if_neg type] at rules
  by_contra absent
  simp [absent, reject] at rules

theorem Admitted.powerLevels (admitted : Admitted ruma version event state create power)
    (type : Event.eventType event = "m.room.power_levels") :
    checkPowerLevels ruma version event state power (power.user (Event.sender event)) = .ok () := by
  have member : Event.eventType event ≠ "m.room.member" := by simp [type]
  have invite : Event.eventType event ≠ "m.room.third_party_invite" := by simp [type]
  have rules := admitted.rules
  rw [checkRules, if_neg member, if_neg (not_not.2 (admitted.joined member)), if_neg invite] at rules
  dsimp only at rules
  split at rules
  · simp [reject] at rules
  · split at rules
    · simp [reject] at rules
    · exact rules

end Admission

/-! ## Bans -/

/-- The user whose first join follows the create event: its sender, before version 11 the `creator`
its content names. -/
def roomCreator (version : RoomVersion) (create : E) : UserId :=
  if version.creatorInCreateContent then
    (strProp (Event.content create) "creator").getD (Event.sender create)
  else Event.sender create

section Bans

variable {ruma : Ruma} {version : RoomVersion} {event create : E} {state : StateView E}
  {power : RoomPowerLevels} {target : String}

/-- How a member event can act on a banned user: a joined sender above the user repeats the ban or
lifts it, or the creator makes the room's first join. -/
inductive ActsOnBanned (ruma : Ruma) (version : RoomVersion) (event create : E)
    (state : StateView E) (power : RoomPowerLevels) (target : String) : Prop where
  | ban (new : strProp (Event.content event) "membership" = some "ban")
      (joined : membership state (Event.sender event) = "join")
      (mayBan : (power.user (Event.sender event)).satisfies power.ban)
      (above : (power.userFromStr ruma target).lt (power.user (Event.sender event)))
  | unban (new : strProp (Event.content event) "membership" = some "leave")
      (other : Event.sender event ≠ target)
      (joined : membership state (Event.sender event) = "join")
      (mayBan : (power.user (Event.sender event)).satisfies power.ban)
      (mayKick : (power.user (Event.sender event)).satisfies power.kick)
      (above : (power.userFromStr ruma target).lt (power.user (Event.sender event)))
  | firstJoin (new : strProp (Event.content event) "membership" = some "join")
      (prev : Event.prevEvents event = [Event.eventId create])
      (creator : target = roomCreator version create)

theorem checkThirdPartyInvite_banned {tpi : JsonObject} :
    checkThirdPartyInvite ruma event tpi target "ban" state ≠ .ok () := by
  simp [checkThirdPartyInvite, reject]

theorem checkJoin_banned {senderMem joinRule : String}
    (banned : Event.sender event = target → senderMem = "ban")
    (ok : checkJoin ruma version event create state power target senderMem joinRule = .ok ()) :
    Event.prevEvents event = [Event.eventId create] ∧ target = roomCreator version create := by
  unfold checkJoin at ok
  rw [← roomCreator] at ok
  by_cases first : Event.prevEvents event = [Event.eventId create] ∧ target = roomCreator version create
  · exact first
  · simp only [if_neg first] at ok
    by_cases self : Event.sender event = target
    · simp [self, banned self, reject] at ok
    · simp [self, reject] at ok

/-- **Bans hold.** An accepted member event about a banned user is a ban or an unban by a joined
sender of sufficient level above the user's, or the first join of the room's creator. -/
theorem banned_member_change (banned : membership state target = "ban")
    (type : Event.eventType event = "m.room.member") (key : Event.stateKey event = some target)
    (ok : checkStateDependent ruma version event state = .ok ()) :
    ∃ create power, state "m.room.create" "" = some create ∧
      RoomPowerLevels.resolve ruma version create (state "m.room.power_levels" "") = .ok power ∧
      ActsOnBanned ruma version event create state power target := by
  obtain ⟨create, power, admitted⟩ := checkStateDependent_admitted (by simp [type]) ok
  refine ⟨create, power, admitted.created, admitted.resolved, ?_⟩
  have rules := admitted.member type
  unfold checkMember at rules
  cases mem : strProp (Event.content event) "membership" with
  | none => simp [key, mem, reject] at rules
  | some new =>
    simp only [key, mem, banned] at rules
    by_cases join : new = "join"
    · subst join
      rw [if_pos rfl] at rules
      have self : Event.sender event = target → membership state (Event.sender event) = "ban" :=
        fun h => h ▸ banned
      obtain ⟨prev, creator⟩ := checkJoin_banned self rules
      exact .firstJoin mem prev creator
    rw [if_neg join] at rules
    by_cases invite : new = "invite"
    · rw [if_pos invite] at rules
      split at rules
      · exact absurd rules checkThirdPartyInvite_banned
      · split at rules <;> simp [reject] at rules
    rw [if_neg invite] at rules
    by_cases leave : new = "leave"
    · subst leave
      rw [if_pos rfl] at rules
      by_cases self : Event.sender event = target
      · simp [self, banned, reject] at rules
      · rw [if_neg self] at rules
        split at rules
        · simp [reject] at rules
        · rename_i joined
          split at rules
          · simp [reject] at rules
          · rename_i mayBan
            split at rules
            · rename_i mayKick
              exact .unban mem self (by simpa using joined) (by simpa using mayBan)
                (Bool.and_eq_true_iff.1 mayKick).1 (Bool.and_eq_true_iff.1 mayKick).2
            · simp [reject] at rules
    rw [if_neg leave] at rules
    by_cases ban : new = "ban"
    · subst ban
      rw [if_pos rfl] at rules
      split at rules
      · simp [reject] at rules
      · rename_i joined
        split at rules
        · rename_i mayBan
          exact .ban mem (by simpa using joined) (Bool.and_eq_true_iff.1 mayBan).1
            (Bool.and_eq_true_iff.1 mayBan).2
        · simp [reject] at rules
    rw [if_neg ban] at rules
    by_cases knock : new = "knock"
    · rw [if_pos knock] at rules
      split at rules
      · simp [reject] at rules
      · split at rules
        · simp [reject] at rules
        · rename_i self
          have self : Event.sender event = target := by simpa using self
          simp [self, banned, reject] at rules
    · simp [knock, reject] at rules

end Bans

def sampleEvent (id : EventId) (eventType stateKey : String) (sender : UserId)
    (content : JsonObject) : IdentifiedPdu :=
  ⟨id, { roomId := some "!r:x", sender, originServerTs := 1, eventType, stateKey := some stateKey,
         content, authEvents := [], prevEvents := [], depth := 1, hashes := none, signatures := [],
         unsigned := none }⟩

def sampleBanned : StateView IdentifiedPdu := fun t sk =>
  List.lookup (t, sk) [(("m.room.create", ""), sampleEvent "$c" "m.room.create" "" "@a:x" []),
      (("m.room.member", "@a:x"),
        sampleEvent "$j" "m.room.member" "@a:x" "@a:x" [("membership", .string "join")]),
      (("m.room.member", "@b:x"),
        sampleEvent "$b" "m.room.member" "@b:x" "@a:x" [("membership", .string "ban")])]

def sampleUnban : IdentifiedPdu :=
  sampleEvent "$u" "m.room.member" "@b:x" "@a:x" [("membership", .string "leave")]

theorem banned_member_change_unban : ∃ create power,
    sampleBanned "m.room.create" "" = some create ∧
    RoomPowerLevels.resolve Ruma.sample .v11 create (sampleBanned "m.room.power_levels" "") = .ok power ∧
    ActsOnBanned Ruma.sample .v11 sampleUnban create sampleBanned power "@b:x" :=
  banned_member_change (by decide) rfl rfl (by decide +kernel)

end Saltator.Auth
