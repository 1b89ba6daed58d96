import Saltator.Client.Blocked
import Saltator.Core.Escalation
import Saltator.Room.Accepted
import Saltator.Room.Whole

/-!
# Restricted joins

A room may be open to the members of other rooms. The server of a member lets such a user in, and names
one of its own users in the join who could have invited them. It judges the other rooms by what it holds
of them, and it does so only while it takes part in them.
-/

namespace Saltator.Client

open Std
open Saltator.Outcome
open Room
open Room.Pipeline
open StateRes (Key StateIds)

/-! ## The authoriser -/

section Model

variable (ruma : Ruma) (ours : String) (peers : RoomId → Store) (s : Store) (fuel : Nat)

def stateEventContent (state : StateIds) (eventType stateKey : String) : Option JsonObject :=
  (state[((eventType, stateKey) : Key)]?.bind fun id => s.event[id]?).map StoredEvent.raw

def joinRulesContent (state : StateIds) : Option JsonObject :=
  (stateEventContent s state "m.room.join_rules" "").bind fun raw => objProp raw "content"

def joinRuleIn (state : StateIds) : String :=
  ((joinRulesContent s state).bind fun content => strProp content "join_rule").getD "invite"

def allowedRoom : Json → Option RoomId
  | .object o => if strProp o "type" = some "m.room_membership" then strProp o "room_id" else none
  | _ => none

def localMember (state : StateIds) (user : String) : Bool :=
  ruma.isUserId user && Ruma.userServerName user == ours && membershipIn s state user == "join"

/-- What a room of the allow list comes to. -/
inductive Condition where
  | met
  | unmet
  | uncheckable
  deriving DecidableEq

def judgeCondition (joiner : UserId) (state : StateIds) : Condition :=
  let participating := state.toList.any fun entry =>
    entry.1.1 == "m.room.member" && localMember ruma ours s state entry.1.2
  if !participating then .uncheckable
  else if membershipIn s state joiner = "join" then .met
  else .unmet

def checkCondition (joiner : UserId) (allowed : RoomId) : Except RoomError Condition :=
  match (peers allowed).room[allowed]? with
  | none => .ok .uncheckable
  | some roomMeta => do
    let state ← ofStore ((peers allowed).resolveGroup fuel allowed roomMeta.currentGroup)
    return judgeCondition ruma ours (peers allowed) joiner state

def checkConditions (joiner : UserId) : List Json → Bool → Except RoomError Condition
  | [], uncheckable => .ok (if uncheckable then .uncheckable else .unmet)
  | entry :: entries, uncheckable =>
    match allowedRoom entry with
    | none => checkConditions joiner entries uncheckable
    | some allowed => do
      match ← checkCondition ruma ours peers fuel joiner allowed with
      | .met => return .met
      | .uncheckable => checkConditions joiner entries true
      | .unmet => checkConditions joiner entries uncheckable

def identifyState (version : RoomVersion) (raw : JsonObject) : Except RoomError IdentifiedPdu := do
  let id ← (ruma.eventId raw version).mapError fun e => .malformed (reprStr e)
  let pdu ← (Pdu.fromCanonical ruma raw).mapError fun e => .malformed (reprStr e)
  return ⟨id, pdu⟩

def powerLevelsIn (version : RoomVersion) (state : StateIds) : Except RoomError RoomPowerLevels :=
  match stateEventContent s state "m.room.create" "" with
  | none => .error (.malformed "room has no create event")
  | some createRaw => do
    let create ← identifyState ruma version createRaw
    let pl ← (stateEventContent s state "m.room.power_levels" "").mapM (identifyState ruma version)
    (RoomPowerLevels.resolve ruma version create pl).mapError fun e =>
      .malformed ("malformed state: " ++ e.reason)

def considerMember (state : StateIds) (power : RoomPowerLevels) (best : Option (UserId × PowerLevel))
    (key : Key) : Option (UserId × PowerLevel) :=
  let level := power.user key.2
  if key.1 = "m.room.member" ∧ localMember ruma ours s state key.2 ∧ level.satisfies power.invite ∧
      best.all (fun b => b.2.lt level) then
    some (key.2, level)
  else best

def restrictedJoinAuthoriser (room : RoomId) (joiner : UserId) : Except RoomError RestrictedAuth :=
  match s.room[room]? with
  | none => .ok .notNeeded
  | some roomMeta => do
    let version ← parseVersion roomMeta.version
    let state ← ofStore (s.resolveGroup fuel room roomMeta.currentGroup)
    if ¬ (joinRuleIn s state = "restricted" ∨ joinRuleIn s state = "knock_restricted") then
      return .notNeeded
    else if membershipIn s state joiner = "join" ∨ membershipIn s state joiner = "invite" then
      return .notNeeded
    else
      match (joinRulesContent s state).bind fun content => content.lookup "allow" with
      | some (.array entries) => do
        match ← checkConditions ruma ours peers fuel joiner entries false with
        | .uncheckable => return .cannotValidate
        | .unmet => return .failsConditions
        | .met => do
          let power ← powerLevelsIn ruma s version state
          match (state.toList.map Prod.fst).foldl (considerMember ruma ours s state power) none with
          | some best => return .authorised best.1
          | none => return .cannotGrant
      | _ => return .failsConditions

end Model

/-! ## What it answers -/

section Spec

variable {ruma : Ruma} {ours : String} {peers : RoomId → Store} {s : Store} {fuel : Nat}
  {room allowed : RoomId} {state : StateIds} {joiner user : UserId} {version : RoomVersion}
  {power : RoomPowerLevels} {event create : IdentifiedPdu} {e : IdentifiedPdu} {raw : JsonObject}

def Allows (s : Store) (state : StateIds) (allowed : RoomId) : Prop :=
  ∃ entries entry, entry ∈ entries ∧ allowedRoom entry = some allowed ∧
    (joinRulesContent s state).bind (fun content => content.lookup "allow") = some (.array entries)

def allowNames (s : Store) (state : StateIds) (allowed : RoomId) : Bool :=
  match (joinRulesContent s state).bind fun content => content.lookup "allow" with
  | some (.array entries) => entries.any fun entry => allowedRoom entry == some allowed
  | _ => false

theorem allows_of_allowNames (h : allowNames s state allowed = true) : Allows s state allowed := by
  unfold allowNames at h
  split at h
  · next entries allow =>
    obtain ⟨entry, mem, named⟩ := List.any_eq_true.1 h
    exact ⟨entries, entry, mem, beq_iff_eq.1 named, allow⟩
  · cases h

def Vouched (ruma : Ruma) (ours : String) (s : Store) (allowed : RoomId) (joiner : UserId) : Prop :=
  Serving.InRoom ruma s allowed ours ∧
    ∃ state, Serving.Current s allowed state ∧ membershipIn s state joiner = "join"

def MayInvite (ruma : Ruma) (ours : String) (s : Store) (state : StateIds) (power : RoomPowerLevels)
    (user : UserId) : Prop :=
  localMember ruma ours s state user = true ∧ (power.user user).satisfies power.invite = true

theorem membershipIn_eq_join : membershipIn s state user = "join" ↔
    ∃ id stored, state[(("m.room.member", user) : Key)]? = some id ∧ s.event[id]? = some stored ∧
      membershipOf stored = some "join" := by
  unfold membershipIn memberKey
  constructor
  · intro joined
    cases at' : state[(("m.room.member", user) : Key)]? with
    | none => simp [at'] at joined
    | some id =>
      cases held : s.event[id]? with
      | none => simp [at', held] at joined
      | some stored =>
        cases stated : membershipOf stored with
        | none => simp [at', held, stated] at joined
        | some membership =>
          simp only [at', held, stated, Option.bind_some, Option.getD_some] at joined
          exact ⟨id, stored, rfl, held, joined ▸ stated⟩
  · rintro ⟨id, stored, at', held, stated⟩
    simp [at', held, stated]

theorem localMember_iff : localMember ruma ours s state user = true ↔
    ruma.isUserId user = true ∧ Ruma.userServerName user = ours ∧ membershipIn s state user = "join" := by
  simp only [localMember, Bool.and_eq_true, beq_iff_eq, and_assoc]

theorem mem_keys_of_localMember (member : localMember ruma ours s state user = true) :
    (("m.room.member", user) : Key) ∈ state.toList.map Prod.fst := by
  obtain ⟨id, -, at', -⟩ := membershipIn_eq_join.1 (localMember_iff.1 member).2.2
  exact List.mem_map.2 ⟨(_, id), OrdMap.mem_toList.2 at', rfl⟩

theorem any_localMember_iff : (state.toList.any fun entry =>
    entry.1.1 == "m.room.member" && localMember ruma ours s state entry.1.2) = true ↔
      Serving.Belongs ruma s state ours ["join"] := by
  constructor
  · intro found
    obtain ⟨⟨⟨eventType, user⟩, id⟩, mem, both⟩ := List.any_eq_true.1 found
    obtain ⟨type, member⟩ := Bool.and_eq_true_iff.1 both
    obtain ⟨valid, own, joined⟩ := localMember_iff.1 member
    obtain ⟨id, stored, at', held, stated⟩ := membershipIn_eq_join.1 joined
    exact ⟨user, id, stored, "join", at', valid, own, held, stated, List.mem_singleton_self _⟩
  · rintro ⟨user, id, stored, membership, at', valid, own, held, stated, mem⟩
    obtain rfl := List.mem_singleton.1 mem
    have joined := membershipIn_eq_join.2 ⟨id, stored, at', held, stated⟩
    refine List.any_eq_true.2 ⟨((_, user), id), OrdMap.mem_toList.2 at', ?_⟩
    exact Bool.and_eq_true_iff.2 ⟨beq_self_eq_true _, localMember_iff.2 ⟨valid, own, joined⟩⟩

theorem judgeCondition_met : judgeCondition ruma ours s joiner state = .met ↔
    Serving.Belongs ruma s state ours ["join"] ∧ membershipIn s state joiner = "join" := by
  rw [← any_localMember_iff, judgeCondition]
  split
  · next nobody =>
    refine iff_of_false (by simp) fun both => ?_
    rw [both.1] at nobody
    cases nobody
  · next somebody =>
    simp only [Bool.not_eq_true', Bool.not_eq_false] at somebody
    split
    · next joined => exact iff_of_true rfl ⟨somebody, joined⟩
    · next apart => exact iff_of_false (by simp) fun both => apart both.2

theorem checkCondition_met {c : Condition} (h : checkCondition ruma ours peers fuel joiner allowed = .ok c) :
    c = .met ↔ Vouched ruma ours (peers allowed) allowed joiner := by
  unfold checkCondition at h
  cases known : (peers allowed).room[allowed]? with
  | none =>
    rw [known] at h
    cases h
    refine iff_of_false (by simp) ?_
    rintro ⟨⟨_, ⟨m, held, -⟩, -⟩, -⟩
    rw [known] at held
    cases held
  | some m =>
    simp only [known, bind_eq_ok, pure_eq_ok, ofStore, mapError_eq_ok] at h
    obtain ⟨state, resolved, rfl⟩ := h
    have current : Serving.Current (peers allowed) allowed state :=
      ⟨m, known, resolveGroup_materializes resolved⟩
    rw [judgeCondition_met]
    constructor
    · rintro ⟨belongs, joined⟩
      exact ⟨⟨state, current, belongs⟩, state, current, joined⟩
    · rintro ⟨⟨state', current', belongs⟩, state'', current'', joined⟩
      obtain rfl := current.unique current'
      obtain rfl := current.unique current''
      exact ⟨belongs, joined⟩

theorem checkConditions_met {entries : List Json} {uncheckable : Bool} {c : Condition}
    (h : checkConditions ruma ours peers fuel joiner entries uncheckable = .ok c) :
    c = .met ↔ ∃ entry ∈ entries, ∃ allowed, allowedRoom entry = some allowed ∧
      Vouched ruma ours (peers allowed) allowed joiner := by
  induction entries generalizing uncheckable with
  | nil =>
    cases h
    cases uncheckable <;> simp
  | cons entry entries ih =>
    simp only [List.mem_cons, exists_eq_or_imp]
    rw [checkConditions] at h
    split at h
    · next skipped => simpa [skipped] using ih h
    · next allowed named =>
      obtain ⟨first, checked, h⟩ := bind_eq_ok.1 h
      have spec := checkCondition_met checked
      simp only [named, Option.some.injEq, exists_eq_left', ← spec]
      cases first with
      | met =>
        cases h
        simp
      | uncheckable => simpa using ih h
      | unmet => simpa using ih h

def Resolving (peers : RoomId → Store) : Prop :=
  ∀ (room : RoomId) (m : RoomMeta), (peers room).room[room]? = some m →
    ∃ map, Materializes (peers room) room m.currentGroup map

theorem checkCondition_answers (resolving : Resolving peers) (joiner : UserId) (allowed : RoomId) :
    ∃ c enough, ∀ fuel, enough ≤ fuel → checkCondition ruma ours peers fuel joiner allowed = .ok c := by
  unfold checkCondition
  cases known : (peers allowed).room[allowed]? with
  | none => exact ⟨_, 0, fun _ _ => rfl⟩
  | some m =>
    obtain ⟨map, current⟩ := resolving allowed m known
    obtain ⟨-, enough, resolved⟩ := current.settles
    refine ⟨judgeCondition ruma ours (peers allowed) joiner map, enough, fun fuel le => ?_⟩
    have resolved : (peers allowed).resolveGroup fuel allowed m.currentGroup = .ok map := resolved fuel le
    simp only [resolved, ofStore, Except.mapError, ok_bind]
    rfl

theorem checkConditions_answers (resolving : Resolving peers) (joiner : UserId) (entries : List Json)
    (uncheckable : Bool) : ∃ c enough, ∀ fuel, enough ≤ fuel →
      checkConditions ruma ours peers fuel joiner entries uncheckable = .ok c := by
  induction entries generalizing uncheckable with
  | nil => exact ⟨_, 0, fun _ _ => rfl⟩
  | cons entry entries ih =>
    cases named : allowedRoom entry with
    | none =>
      obtain ⟨c, enough, rest⟩ := ih uncheckable
      exact ⟨c, enough, fun fuel le => by rw [checkConditions, named]; exact rest fuel le⟩
    | some allowed =>
      obtain ⟨first, enough, checked⟩ := checkCondition_answers resolving joiner allowed
      obtain ⟨c, enough', rest⟩ := ih (first == .uncheckable || uncheckable)
      refine ⟨if first = .met then .met else c, max enough enough', fun fuel le => ?_⟩
      have checked := checked fuel (le_of_max_le_left le)
      have rest := rest fuel (le_of_max_le_right le)
      rw [checkConditions, named]
      dsimp only
      rw [checked, ok_bind]
      cases first with
      | met => rfl
      | uncheckable => exact rest
      | unmet => exact rest

/-! ## The best of our users -/

def MayInviteKey (ruma : Ruma) (ours : String) (s : Store) (state : StateIds) (power : RoomPowerLevels)
    (key : Key) : Prop :=
  key.1 = "m.room.member" ∧ MayInvite ruma ours s state power key.2

def BestOf (ruma : Ruma) (ours : String) (s : Store) (state : StateIds) (power : RoomPowerLevels)
    (keys : List Key) : Option (UserId × PowerLevel) → Prop
  | none => ∀ key ∈ keys, ¬ MayInviteKey ruma ours s state power key
  | some best => MayInvite ruma ours s state power best.1 ∧ best.2 = power.user best.1 ∧
    ∀ key ∈ keys, MayInviteKey ruma ours s state power key → (power.user key.2).le best.2 = true

theorem considerMembers_best (keys : List Key) : BestOf ruma ours s state power keys
    (keys.foldl (considerMember ruma ours s state power) none) := by
  induction keys using List.reverseRecOn with
  | nil => simp [BestOf]
  | append_singleton keys key ih =>
    rw [List.foldl_append, List.foldl_cons, List.foldl_nil]
    generalize keys.foldl (considerMember ruma ours s state power) none = best at ih
    unfold considerMember
    by_cases better : key.1 = "m.room.member" ∧ localMember ruma ours s state key.2 = true ∧
        (power.user key.2).satisfies power.invite = true ∧
        best.all (fun b : UserId × PowerLevel => b.2.lt (power.user key.2)) = true
    · dsimp only
      rw [if_pos better]
      obtain ⟨type, member, level, above⟩ := better
      refine ⟨⟨member, level⟩, rfl, fun other mem may => ?_⟩
      rcases List.mem_append.1 mem with before | last
      · cases best with
        | none => exact absurd may (ih other before)
        | some best =>
          have less : (best.2.lt (power.user key.2)) = true := above
          have le : (best.2.le (power.user key.2)) = true := by
            simp only [PowerLevel.lt, Bool.not_eq_true'] at less
            exact (PowerLevel.le_total _ _).resolve_right (by simp [less])
          exact PowerLevel.le_trans (ih.2.2 other before may) le
      · rw [List.mem_singleton.1 last]
        exact PowerLevel.le_refl _
    · dsimp only
      rw [if_neg better]
      cases best with
      | none =>
        intro other mem may
        rcases List.mem_append.1 mem with before | last
        · exact ih other before may
        · obtain rfl := List.mem_singleton.1 last
          exact better ⟨may.1, may.2.1, may.2.2, rfl⟩
      | some best =>
        refine ⟨ih.1, ih.2.1, fun other mem may => ?_⟩
        rcases List.mem_append.1 mem with before | last
        · exact ih.2.2 other before may
        · obtain rfl := List.mem_singleton.1 last
          by_contra greater
          exact better ⟨may.1, may.2.1, may.2.2, by simpa [PowerLevel.lt] using greater⟩

structure Restricted (ruma : Ruma) (s : Store) (room : RoomId) (version : RoomVersion) (state : StateIds)
    (power : RoomPowerLevels) : Prop where
  known : ∃ m : RoomMeta, s.room[room]? = some m ∧ RoomVersion.parse m.version = some version ∧
    Materializes s room m.currentGroup state
  rule : joinRuleIn s state = "restricted" ∨ joinRuleIn s state = "knock_restricted"
  power : powerLevelsIn ruma s version state = .ok power

theorem authorised_spec (h : restrictedJoinAuthoriser ruma ours peers s fuel room joiner =
      .ok (.authorised user)) :
    ∃ version state power, Restricted ruma s room version state power ∧
      ¬ (membershipIn s state joiner = "join" ∨ membershipIn s state joiner = "invite") ∧
      (∃ allowed, Allows s state allowed ∧ Vouched ruma ours (peers allowed) allowed joiner) ∧
      MayInvite ruma ours s state power user ∧
      ∀ other, MayInvite ruma ours s state power other → (power.user other).le (power.user user) = true := by
  unfold restrictedJoinAuthoriser at h
  cases known : s.room[room]? with
  | none => simp [known] at h
  | some m =>
    simp only [known, bind_eq_ok, parseVersion_eq_ok, ofStore, mapError_eq_ok] at h
    obtain ⟨version, parsed, state, resolved, h⟩ := h
    split at h
    · cases h
    next restricted =>
    split at h
    · cases h
    next outside =>
    split at h
    swap
    · cases h
    next entries allow =>
    obtain ⟨c, checked, h⟩ := bind_eq_ok.1 h
    cases c with
    | uncheckable => cases h
    | unmet => cases h
    | met =>
      obtain ⟨power, levels, h⟩ := bind_eq_ok.1 h
      obtain ⟨entry, mem, allowed, named, vouched⟩ := (checkConditions_met checked).1 rfl
      have best : BestOf ruma ours s state power (state.toList.map Prod.fst) _ := considerMembers_best _
      split at h
      · next first picked =>
        cases h
        rw [picked] at best
        obtain ⟨may, level, highest⟩ := best
        refine ⟨version, state, power, ⟨⟨m, known, parsed, resolveGroup_materializes resolved⟩,
          not_not.1 restricted, levels⟩, outside, ⟨allowed, ⟨entries, entry, mem, named, allow⟩, vouched⟩,
          may, fun other may' => ?_⟩
        rw [← level]
        exact highest _ (mem_keys_of_localMember may'.1) ⟨rfl, may'⟩
      · cases h

theorem authorised_of_vouched (resolving : Resolving peers)
    (restricted : Restricted ruma s room version state power)
    (outside : ¬ (membershipIn s state joiner = "join" ∨ membershipIn s state joiner = "invite"))
    (allows : Allows s state allowed) (vouched : Vouched ruma ours (peers allowed) allowed joiner)
    (may : MayInvite ruma ours s state power user) :
    ∃ named enough, ∀ fuel, enough ≤ fuel →
      restrictedJoinAuthoriser ruma ours peers s fuel room joiner = .ok (.authorised named) := by
  obtain ⟨⟨m, known, parsed, current⟩, rule, levels⟩ := restricted
  obtain ⟨entries, entry, mem, named, allow⟩ := allows
  obtain ⟨-, enough, resolved⟩ := current.settles
  obtain ⟨c, enough', checked⟩ : ∃ c enough, ∀ fuel, enough ≤ fuel →
      checkConditions ruma ours peers fuel joiner entries false = .ok c :=
    checkConditions_answers resolving joiner entries false
  obtain rfl : c = .met :=
    (checkConditions_met (checked enough' le_rfl)).2 ⟨entry, mem, allowed, named, vouched⟩
  have best : BestOf ruma ours s state power (state.toList.map Prod.fst) _ := considerMembers_best _
  cases picked : (state.toList.map Prod.fst).foldl (considerMember ruma ours s state power) none with
  | none =>
    rw [picked] at best
    exact absurd ⟨rfl, may⟩ (best _ (mem_keys_of_localMember may.1))
  | some first =>
    refine ⟨first.1, max enough enough', fun fuel le => ?_⟩
    have resolved : s.resolveGroup fuel room m.currentGroup = .ok state :=
      resolved fuel (le_of_max_le_left le)
    simp only [restrictedJoinAuthoriser, known, parseVersion_eq_ok.2 parsed, resolved, ofStore,
      Except.mapError, ok_bind, if_neg (not_not.2 rule), if_neg outside, allow,
      checked fuel (le_of_max_le_right le), levels, picked]
    rfl

/-! ## The join -/

def heldEvent (ruma : Ruma) (s : Store) (id : EventId) : Option IdentifiedPdu :=
  (s.event[id]?).bind fun stored => (parseStored ruma id stored).toOption

def currentView (ruma : Ruma) (s : Store) (state : StateIds) : Auth.StateView IdentifiedPdu :=
  fullView state (heldEvent ruma s)

def Viewable (ruma : Ruma) (s : Store) (state : StateIds) : Prop :=
  ∀ (key : Key) (id : EventId), state[key]? = some id → (heldEvent ruma s id).isSome = true

theorem heldEvent_eq_some {id : EventId} (h : heldEvent ruma s id = some e) :
    ∃ stored pdu, s.event[id]? = some stored ∧ Pdu.fromCanonical ruma stored.raw = .ok pdu ∧
      e = ⟨id, pdu⟩ := by
  obtain ⟨stored, held, parsed⟩ := Option.bind_eq_some_iff.1 h
  rw [toOption_eq_some, parseStored, bind_eq_ok] at parsed
  obtain ⟨pdu, read, same⟩ := parsed
  exact ⟨stored, pdu, held, mapError_eq_ok.1 read, (Except.ok.inj same).symm⟩

theorem fromCanonical_content {pdu : Pdu} (h : Pdu.fromCanonical ruma raw = .ok pdu) :
    objProp raw "content" = some pdu.content := by
  simp only [Pdu.fromCanonical, bind_eq_ok, pure_eq_ok] at h
  obtain ⟨_, -, _, -, _, -, _, -, _, -, content, read, _, -, _, -, _, -, _, -, _, -, _, -, rfl⟩ := h
  unfold Field.object at read
  split at read
  · next o found =>
    cases read
    simp only [objProp, found]
  · cases read

theorem content_currentView (viewable : Viewable ruma s state) (eventType stateKey : String) :
    (currentView ruma s state eventType stateKey).map Event.content =
      (stateEventContent s state eventType stateKey).bind fun raw => objProp raw "content" := by
  unfold currentView fullView stateEventContent
  cases at' : state[((eventType, stateKey) : Key)]? with
  | none => rfl
  | some id =>
    obtain ⟨e, held⟩ := Option.isSome_iff_exists.1 (viewable _ id at')
    obtain ⟨stored, pdu, found, parsed, rfl⟩ := heldEvent_eq_some held
    simp only [Option.bind_some, held, found, Option.map_some, fromCanonical_content parsed]
    rfl

theorem strProp_currentView (viewable : Viewable ruma s state) (eventType stateKey member : String) :
    ((currentView ruma s state eventType stateKey).bind fun e => strProp (Event.content e) member) =
      ((stateEventContent s state eventType stateKey).bind fun raw => objProp raw "content").bind
        fun content => strProp content member := by
  rw [← content_currentView viewable, Option.bind_map]
  rfl

theorem membership_currentView (viewable : Viewable ruma s state) :
    Auth.membership (currentView ruma s state) user = membershipIn s state user := by
  rw [Auth.membership, strProp_currentView viewable, stateEventContent, Option.bind_map, Option.bind_assoc]
  rfl

theorem joinRule_currentView (viewable : Viewable ruma s state) :
    ((currentView ruma s state "m.room.join_rules" "").bind fun e =>
      strProp (Event.content e) "join_rule").getD "invite" = joinRuleIn s state := by
  rw [strProp_currentView viewable]
  rfl

theorem identifyState_currentView (viewable : Viewable ruma s state) {eventType stateKey : String}
    (found : stateEventContent s state eventType stateKey = some raw)
    (identified : identifyState ruma version raw = .ok e) :
    ∃ id, currentView ruma s state eventType stateKey = some ⟨id, e.pdu⟩ := by
  obtain ⟨stored, at', rfl⟩ := Option.map_eq_some_iff.1 found
  obtain ⟨id, at', held⟩ := Option.bind_eq_some_iff.1 at'
  obtain ⟨view, own⟩ := Option.isSome_iff_exists.1 (viewable _ id at')
  obtain ⟨stored', pdu, held', parsed, rfl⟩ := heldEvent_eq_some own
  obtain rfl := some_unique held held'
  simp only [identifyState, bind_eq_ok, mapError_eq_ok, pure_eq_ok] at identified
  obtain ⟨_, -, pdu', parsed', rfl⟩ := identified
  obtain rfl := ok_unique parsed parsed'
  refine ⟨id, ?_⟩
  rw [currentView, fullView, at', Option.bind_some, own]

theorem powerLevels_currentView (viewable : Viewable ruma s state)
    (levels : powerLevelsIn ruma s version state = .ok power) :
    ∃ create, currentView ruma s state "m.room.create" "" = some create ∧
      RoomPowerLevels.resolve ruma version create (currentView ruma s state "m.room.power_levels" "") =
        .ok power := by
  unfold powerLevelsIn at levels
  split at levels
  · cases levels
  next createRaw found =>
  simp only [bind_eq_ok, mapError_eq_ok] at levels
  obtain ⟨create, identified, pl, read, resolved⟩ := levels
  obtain ⟨id, view⟩ := identifyState_currentView viewable found identified
  refine ⟨_, view, ?_⟩
  cases raw : stateEventContent s state "m.room.power_levels" "" with
  | none =>
    rw [raw] at read
    cases read
    have absent : currentView ruma s state "m.room.power_levels" "" = none := by
      rw [← Option.map_eq_none_iff, content_currentView viewable, raw]
      rfl
    rw [absent]
    exact resolved
  | some raw' =>
    rw [raw, Option.mapM_some, map_eq_pure_bind, bind_eq_ok] at read
    obtain ⟨e, identified', same⟩ := read
    cases same
    obtain ⟨id', view'⟩ := identifyState_currentView viewable raw identified'
    rw [view']
    exact resolved

theorem checkRoomId_eq_ok (named : Event.roomId event = some room) :
    Auth.checkRoomId version event create = .ok () ↔
      (version.roomIdIsCreateEventId = true → withoutSigil room = withoutSigil (Event.eventId create)) := by
  unfold Auth.checkRoomId
  rw [named]
  by_cases own : version.roomIdIsCreateEventId = true
  · by_cases same : withoutSigil room = withoutSigil (Event.eventId create)
    · simp [own, same]
    · simp [own, same, Auth.reject]
  · simp [own]

theorem checkFederates_eq_ok (sender : Event.sender event = joiner) :
    Auth.checkFederates event create = .ok () ↔
      ((Event.content create).lookup "m.federate" = some (.bool false) →
        Ruma.userServerName joiner = Ruma.userServerName (Event.sender create)) := by
  unfold Auth.checkFederates
  rw [sender]
  split
  · next alone =>
    by_cases same : Ruma.userServerName joiner = Ruma.userServerName (Event.sender create)
    · simp [alone, same]
    · simp [alone, same, Auth.reject]
  · next federates => exact iff_of_true rfl fun alone => absurd alone federates

theorem checkJoin_restricted {view : Auth.StateView IdentifiedPdu}
    {senderMem joinRule : String} (sender : Event.sender event = joiner) (free : senderMem ≠ "ban")
    (rule : joinRule = "restricted" ∨ joinRule = "knock_restricted")
    (names : strProp (Event.content event) "join_authorised_via_users_server" = some user)
    (valid : ruma.isUserId user = true) (joined : Auth.membership view user = "join")
    (level : (power.user user).satisfies power.invite = true) :
    Auth.checkJoin ruma version event create view power joiner senderMem joinRule = .ok () := by
  have closed : ¬ (joinRule = "invite" ∨ joinRule = "knock") := by
    rcases rule with rfl | rfl <;> decide
  unfold Auth.checkJoin
  extract_lets creator
  by_cases first : Event.prevEvents event = [Event.eventId create] ∧ joiner = creator
  · exact if_pos first
  rw [if_neg first, if_neg (not_not.2 sender), if_neg free, if_neg closed, if_pos rule]
  split
  · rfl
  · simp [names, valid, joined, level]

/-- The member event that a join becomes: only the members that the template leaves open are added. -/
def Completed (template signed : JsonObject) : Prop :=
  ∀ key ∈ "content" :: protectedMembers, signed.lookup key = template.lookup key

theorem checkStateDependent_join (viewable : Viewable ruma s state)
    (restricted : Restricted ruma s room version state power) (may : MayInvite ruma ours s state power user)
    (free : membershipIn s state joiner ≠ "ban") {v : RoomVersion} {template signed : JsonObject} {now : Nat}
    (made : Server.makeMembershipTemplate s fuel room joiner "join" (some user) now = .ok (v, template))
    (completed : Completed template signed) {id : EventId} {pdu : Pdu}
    (parsed : Pdu.fromCanonical ruma signed = .ok pdu) :
    ∃ create, currentView ruma s state "m.room.create" "" = some create ∧
      (Auth.checkStateDependent ruma version (⟨id, pdu⟩ : IdentifiedPdu) (currentView ruma s state) = .ok () ↔
        (version.roomIdIsCreateEventId = true → withoutSigil room = withoutSigil (Event.eventId create)) ∧
        ((Event.content create).lookup "m.federate" = some (.bool false) →
          Ruma.userServerName joiner = Ruma.userServerName (Event.sender create))) := by
  obtain ⟨create, created, resolved⟩ := powerLevels_currentView viewable restricted.power
  refine ⟨create, created, ?_⟩
  obtain ⟨m, current, depth, -, -, -, -, -, -, rfl⟩ := draft_eq_ok.1 (makeMembershipTemplate_eq_ok.1 made)
  have views := Pdu.fromCanonical_views parsed
  have own : ∀ key ∈ protectedMembers, strProp signed key = _ := fun key mem =>
    strProp_congr (completed key (List.mem_cons_of_mem _ mem))
  have type : pdu.eventType = "m.room.member" := by
    have same := views.eventType.symm.trans (own "type" (by decide))
    simpa [Server.unsignedEvent, strProp, List.lookup_cons, Json.asStr] using same
  have sender : pdu.sender = joiner := by
    have same := views.sender.symm.trans (own "sender" (by decide))
    simpa [Server.unsignedEvent, strProp, List.lookup_cons, Json.asStr] using same
  have stateKey : pdu.stateKey = some joiner := by
    rw [views.stateKey, own "state_key" (by decide)]
    simp [Server.unsignedEvent, strProp, List.lookup_cons, Json.asStr]
  have named : pdu.roomId = some room := by
    rw [views.roomId, own "room_id" (by decide)]
    simp [Server.unsignedEvent, strProp, List.lookup_cons, Json.asStr]
  have content : pdu.content = Server.membershipContent "join" (some user) := by
    have same := (fromCanonical_content parsed).symm
    rw [objProp, completed "content" List.mem_cons_self] at same
    simpa [Server.unsignedEvent, List.lookup_cons] using same
  obtain ⟨valid, -, joined⟩ := localMember_iff.1 may.1
  generalize event : (⟨id, pdu⟩ : IdentifiedPdu) = e
  replace type : Event.eventType e = "m.room.member" := event ▸ type
  replace sender : Event.sender e = joiner := event ▸ sender
  replace stateKey : Event.stateKey e = some joiner := event ▸ stateKey
  replace named : Event.roomId e = some room := event ▸ named
  replace content : Event.content e = Server.membershipContent "join" (some user) := event ▸ content
  have rules : Auth.checkRules ruma version e create (currentView ruma s state) power = .ok () := by
    have joins : strProp (Event.content e) "membership" = some "join" := by
      rw [content]
      rfl
    have names : strProp (Event.content e) "join_authorised_via_users_server" = some user := by
      rw [content]
      rfl
    rw [Auth.checkRules, if_pos type]
    unfold Auth.checkMember
    simp only [stateKey, joins, if_true, joinRule_currentView viewable, membership_currentView viewable,
      sender]
    exact checkJoin_restricted sender free restricted.rule names valid
      ((membership_currentView viewable).trans joined) may.2
  have notCreate : Event.eventType e ≠ "m.room.create" := by
    rw [type]
    decide
  rw [Auth.checkStateDependent_eq notCreate created, resolved, ← checkRoomId_eq_ok named,
    ← checkFederates_eq_ok sender]
  constructor
  · intro passed
    obtain ⟨_, own, passed⟩ := bind_eq_ok.1 passed
    obtain ⟨_, federates, -⟩ := bind_eq_ok.1 passed
    exact ⟨own, federates⟩
  · rintro ⟨own, federates⟩
    rw [own, federates]
    exact rules

end Spec

/-- **Restricted joins.** The user who is named is one of ours, joined to the room, with a level that suffices
to invite and that none of ours exceeds; and the joiner is outside, and joined to a room of the allow list
where one of our users is. The rules then let a joiner in who is not banned, exactly if the room is open to
the joiner's server. In turn somebody is named wherever such a room and such a user of ours are there, and the
joiner is neither joined nor invited. -/
theorem restricted_join_authorised (ruma : Ruma) (ours : String) (peers : RoomId → Store) (s : Store)
    (room : RoomId) (joiner : UserId) :
    (∀ fuel user, restrictedJoinAuthoriser ruma ours peers s fuel room joiner = .ok (.authorised user) →
      ∃ version state power, Restricted ruma s room version state power ∧
        ¬ (membershipIn s state joiner = "join" ∨ membershipIn s state joiner = "invite") ∧
        (∃ allowed, Allows s state allowed ∧ Vouched ruma ours (peers allowed) allowed joiner) ∧
        MayInvite ruma ours s state power user ∧
        (∀ other, MayInvite ruma ours s state power other →
          (power.user other).le (power.user user) = true) ∧
        (Viewable ruma s state → membershipIn s state joiner ≠ "ban" → ∀ fuel v template now signed id pdu,
            Server.makeMembershipTemplate s fuel room joiner "join" (some user) now = .ok (v, template) →
            Completed template signed → Pdu.fromCanonical ruma signed = .ok pdu →
            ∃ create, currentView ruma s state "m.room.create" "" = some create ∧
              (Auth.checkStateDependent ruma version (⟨id, pdu⟩ : IdentifiedPdu) (currentView ruma s state) =
                  .ok () ↔
                (version.roomIdIsCreateEventId = true →
                  withoutSigil room = withoutSigil (Event.eventId create)) ∧
                ((Event.content create).lookup "m.federate" = some (.bool false) →
                  Ruma.userServerName joiner = Ruma.userServerName (Event.sender create))))) ∧
    ((∀ r, Runs (LawfulIn ruma) Store.empty (peers r)) →
      ∀ version state power allowed user, Restricted ruma s room version state power →
        ¬ (membershipIn s state joiner = "join" ∨ membershipIn s state joiner = "invite") →
        Allows s state allowed → Vouched ruma ours (peers allowed) allowed joiner →
        MayInvite ruma ours s state power user →
        ∃ named enough, ∀ fuel, enough ≤ fuel →
          restrictedJoinAuthoriser ruma ours peers s fuel room joiner = .ok (.authorised named)) := by
  constructor
  · intro fuel user answered
    obtain ⟨version, state, power, restricted, outside, vouched, may, highest⟩ := authorised_spec answered
    refine ⟨version, state, power, restricted, outside, vouched, may, highest, fun viewable free => ?_⟩
    intro fuel v template now signed id pdu made completed parsed
    exact checkStateDependent_join viewable restricted may free made completed parsed
  · intro runs version state power allowed user restricted outside allows vouched may
    have resolving : Resolving peers := fun r m known => ((run_standing (runs r)).rooms r m known).current
    exact authorised_of_vouched resolving restricted outside allows vouched may

/-! ## A room that does not federate -/

/-- The room `!r:x` is open to the members of `!q:x`, but it does not federate. The user `@i:x` is invited to
it. Both `@i:x` and `@j:y` are members of the other room. -/
def sampleRestricted : List Call :=
  [.ingest (Ruma.samplePdu "c" "m.room.create" (some "") "@a:x"
      [("m.federate", .bool false), ("room_version", .string "11")] [] [] 1) false,
    .ingest Ruma.sampleJoin false,
    .ingest (Ruma.samplePdu "u" "m.room.join_rules" (some "") "@a:x"
      [("allow", .array [.object [("room_id", .string "!q:x"), ("type", .string "m.room_membership")]]),
        ("join_rule", .string "restricted")] ["$c", "$j"] ["$j"] 3) false,
    .ingest (Ruma.samplePdu "v" "m.room.member" (some "@i:x") "@a:x" [("membership", .string "invite")]
      ["$c", "$j", "$u"] ["$u"] 4) false,
    .importRoom .v11 otherJoin [otherCreate,
        inOther (Ruma.samplePdu "i" "m.room.member" (some "@i:x") "@i:x" [("membership", .string "join")]
          ["$d"] ["$k"] 3),
        inOther (Ruma.samplePdu "o" "m.room.member" (some "@j:y") "@j:y" [("membership", .string "join")]
          ["$d"] ["$k"] 3)] []]

theorem exists_restricted (p : Store → StateIds → Bool)
    (h : ((Server.sample ["x"]).serveAll (fun _ _ => True) 9 Store.empty sampleRestricted).any (fun s =>
      (s.room["!r:x"]?).any fun m => (s.resolveGroup 9 "!r:x" m.currentGroup).toOption.any (p s)) = true) :
    ∃ s state, Runs (LawfulIn Ruma.sample) Store.empty s ∧ Serving.Current s "!r:x" state ∧
      p s state = true := by
  obtain ⟨s, run, computed⟩ := exists_lawful_run _ _ h
  obtain ⟨m, known, computed⟩ := (Option.any_eq_true _ _).1 computed
  obtain ⟨state, resolved, hp⟩ := (Option.any_eq_true _ _).1 computed
  exact ⟨s, state, run, ⟨m, known, resolveGroup_materializes (toOption_eq_some.1 resolved)⟩, hp⟩

theorem restricted_join_authorised_guest : ∃ s allowed, Runs (LawfulIn Ruma.sample) Store.empty s ∧
    Vouched Ruma.sample "x" s allowed "@j:y" := by
  obtain ⟨s, state, run, -, hp⟩ := exists_restricted (fun s _ =>
    (restrictedJoinAuthoriser Ruma.sample "x" (fun _ => s) s 9 "!r:x" "@j:y").toOption ==
      some (.authorised "@a:x")) (by decide +kernel)
  have answered := toOption_eq_some.1 (beq_iff_eq.1 hp)
  obtain ⟨_, _, _, -, -, ⟨allowed, -, vouched⟩, -⟩ :=
    (restricted_join_authorised Ruma.sample "x" (fun _ => s) s "!r:x" "@j:y").1 9 _ answered
  exact ⟨s, allowed, run, vouched⟩

theorem completed_sampleSign (template : JsonObject) : Completed template (template ++
    [("hashes", .object [("sha256", .string "s")]),
      ("signatures", .object [("x", .object [("ed25519:1", .string "sig")])])]) := by
  intro key mem
  have other : ∀ key ∈ "content" :: protectedMembers, key ≠ "hashes" ∧ key ≠ "signatures" := by decide
  obtain ⟨hashes, signatures⟩ := other key mem
  rw [List.lookup_append, List.lookup_cons, beq_eq_false_iff_ne.2 hashes, List.lookup_cons,
    beq_eq_false_iff_ne.2 signatures]
  exact Option.or_none

/-- Nobody is named for the invited user, who needs nobody. For the other member somebody is, but the rules
refuse the join. -/
theorem closed_room_refuses : ∃ s state power, Runs (LawfulIn Ruma.sample) Store.empty s ∧
    Restricted Ruma.sample s "!r:x" .v11 state power ∧ Allows s state "!q:x" ∧
    MayInvite Ruma.sample "x" s state power "@a:x" ∧
    (Vouched Ruma.sample "x" s "!q:x" "@i:x" ∧ membershipIn s state "@i:x" = "invite" ∧
      ∀ fuel user, restrictedJoinAuthoriser Ruma.sample "x" (fun _ => s) s fuel "!r:x" "@i:x" ≠
        .ok (.authorised user)) ∧
    restrictedJoinAuthoriser Ruma.sample "x" (fun _ => s) s 9 "!r:x" "@j:y" = .ok (.authorised "@a:x") ∧
    membershipIn s state "@j:y" ≠ "ban" ∧
    ∃ v template signed pdu,
      Server.makeMembershipTemplate s 9 "!r:x" "@j:y" "join" (some "@a:x") 5 = .ok (v, template) ∧
      Completed template signed ∧ Pdu.fromCanonical Ruma.sample signed = .ok pdu ∧
      Auth.checkStateDependent Ruma.sample .v11 (⟨"$s", pdu⟩ : IdentifiedPdu)
        (currentView Ruma.sample s state) ≠ .ok () := by
  obtain ⟨s, state, run, current, hp⟩ := exists_restricted (fun s state =>
    (s.room["!r:x"]?).any (fun m : RoomMeta => m.version == "11") &&
      membershipIn s state "@i:x" == "invite" && membershipIn s state "@j:y" == "leave" &&
      allowNames s state "!q:x" &&
      (checkCondition Ruma.sample "x" (fun _ => s) 9 "@i:x" "!q:x").toOption == some .met &&
      (restrictedJoinAuthoriser Ruma.sample "x" (fun _ => s) s 9 "!r:x" "@j:y").toOption ==
        some (.authorised "@a:x") &&
      (Server.makeMembershipTemplate s 9 "!r:x" "@j:y" "join" (some "@a:x") 5).toOption.any fun made =>
        (Pdu.fromCanonical Ruma.sample (made.2 ++ [("hashes", .object [("sha256", .string "s")]),
          ("signatures", .object [("x", .object [("ed25519:1", .string "sig")])])])).toOption.any fun pdu =>
          (Auth.checkStateDependent Ruma.sample .v11 (⟨"$s", pdu⟩ : IdentifiedPdu)
            (currentView Ruma.sample s state)).toOption.isNone) (by decide +kernel)
  simp only [Bool.and_eq_true, beq_iff_eq, Option.any_eq_true, Option.isNone_iff_eq_none,
    toOption_eq_some] at hp
  obtain ⟨⟨⟨⟨⟨⟨⟨m, known, v11⟩, invited⟩, left⟩, allows⟩, met⟩, answered⟩, ⟨v, template⟩, made, pdu, parsed,
    refused⟩ := hp
  obtain ⟨version, state', power, restricted, -, -, may, -⟩ := authorised_spec answered
  obtain ⟨m', known', parses, materializes⟩ := restricted.known
  obtain rfl := current.unique ⟨m', known', materializes⟩
  obtain rfl := some_unique known known'
  rw [v11] at parses
  obtain rfl : RoomVersion.v11 = version := Option.some.inj parses
  refine ⟨s, state, power, run, restricted, allows_of_allowNames allows, may,
    ⟨(checkCondition_met met).1 rfl, invited, ?_⟩, answered, ?_, v, template, _, pdu, made,
    completed_sampleSign template, parsed, ?_⟩
  · intro fuel user answered'
    obtain ⟨_, _, _, restricted', outside, -⟩ := authorised_spec answered'
    obtain ⟨m', known', -, materializes'⟩ := restricted'.known
    obtain rfl := current.unique ⟨m', known', materializes'⟩
    exact outside (.inr invited)
  · rw [left]
    decide
  · intro passed
    rw [passed] at refused
    cases refused

end Saltator.Client
