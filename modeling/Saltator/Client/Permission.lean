import Saltator.Client.RoomUtil
import Saltator.Core.Escalation
import Saltator.Room.Accepted

/-!
# Who may send state

Before it publishes or unpublishes a room, or upgrades it, the client API asks whether the user may
send a certain type of state event. It reads the contents of the state on its own: a level that is
encoded as a string counts as absent, and a room without power levels lets everybody send. The rules
read such levels up to version 9, and without power levels let the creators send only
(`can_send_state_iff`).
-/

namespace Saltator

/-- A member of a value, absent in anything but an object. -/
def Json.get (v : Json) (key : String) : Option Json :=
  match v with
  | .object members => members.lookup key
  | _ => none

namespace Client

open Std
open Room
open Auth
open Pipeline (fullView parseStored)
open StateRes (Key StateIds createKey plKey)

/-! ## The test of the client API -/

section

variable (s : Store) (state : StateIds)

def namedCreator (user : UserId) : Bool :=
  (state[createKey]?.bind (rawEvent s)).any fun raw =>
    (raw.lookup "sender").bind Json.asStr = some user ||
      (((raw.lookup "content").bind (·.get "additional_creators")).bind Json.asArray).any
        fun creators => creators.any fun v => v.asStr = some user

/-- `can_send_state`. -/
def canSendState (version : RoomVersion) (user : UserId) (eventType : String) : Bool :=
  if version.privilegedCreators && namedCreator s state user then true
  else
    match stateContentIn s state "m.room.power_levels" with
    -- No power-level event: taken for a `state_default` of 0.
    | none => true
    | some pl =>
      let userLevel := ((((pl.get "users").bind (·.get user)).bind Json.asInteger).or
        ((pl.get "users_default").bind Json.asInteger)).getD 0
      let required := ((((pl.get "events").bind (·.get eventType)).bind Json.asInteger).or
        ((pl.get "state_default").bind Json.asInteger)).getD 50
      required ≤ userLevel

end

/-! ## The test of the rules -/

def PowerTest (ruma : Ruma) (version : RoomVersion) (view : StateView IdentifiedPdu) (user : UserId)
    (eventType : String) : Prop :=
  ∃ create power, view "m.room.create" "" = some create ∧
    RoomPowerLevels.resolve ruma version create (view "m.room.power_levels" "") = .ok power ∧
    (power.user user).satisfies (power.requiredFor eventType true)

instance {ruma : Ruma} {version : RoomVersion} {view : StateView IdentifiedPdu} {user : UserId}
    {eventType : String} : Decidable (PowerTest ruma version view user eventType) :=
  decidable_of_iff ((view "m.room.create" "").any (fun create =>
      (RoomPowerLevels.resolve ruma version create (view "m.room.power_levels" "")).toOption.any
        fun power => (power.user user).satisfies (power.requiredFor eventType true)) = true) <| by
    simp only [PowerTest, Option.any_eq_true, Outcome.toOption_eq_some]
    grind

/-- Every name of an object occurs once, in the object and in the objects right inside it. -/
structure UniqueNames (content : JsonObject) : Prop where
  names : (content.map Prod.fst).Nodup
  inner : ∀ key members, (key, Json.object members) ∈ content → (members.map Prod.fst).Nodup

structure Admissible (ruma : Ruma) (s : Store) (version : RoomVersion) (id : EventId)
    (event : IdentifiedPdu) : Prop where
  held : ∃ stored, s.event[id]? = some stored ∧ stored.rejected = none ∧
    parseStored ruma id stored = .ok event
  passed : ∃ before, checkStateDependent ruma version event before = .ok ()
  unique : UniqueNames (Event.content event)

structure AcceptedState (ruma : Ruma) (s : Store) (version : RoomVersion) (state : StateIds) :
    Prop where
  created : ∃ id, state[createKey]? = some id
  entries : ∀ (key : Key) id, state[key]? = some id →
    ∃ event, Admissible ruma s version id event ∧ Event.eventType event = key.1

def storedView (ruma : Ruma) (s : Store) (state : StateIds) : StateView IdentifiedPdu :=
  fullView state fun id => s.event[id]?.bind fun stored => (parseStored ruma id stored).toOption

/-! ## Levels that are numbers -/

def withoutStrings : Json → Json
  | .object members => .object (members.filter fun entry => entry.2.asStr.isNone)
  | v => v

def numbersOnly (content : JsonObject) : JsonObject :=
  (content.filter fun m => m.2.asStr.isNone).map fun m => (m.1, withoutStrings m.2)

def numericView (view : StateView IdentifiedPdu) : StateView IdentifiedPdu := fun t sk =>
  if (t, sk) = plKey then
    (view t sk).map fun event =>
      { event with pdu := { event.pdu with content := numbersOnly event.pdu.content } }
  else view t sk

section Levels

variable {content : JsonObject} {key property : String} {lenient : Bool} {members : JsonObject}
  {version : RoomVersion}

theorem lookup_fresh (fresh : key ∉ members.map Prod.fst) : members.lookup key = none := by
  rw [List.lookup_eq_none_iff]
  intro m hm
  have other : m.1 ≠ key := fun same => fresh (same ▸ List.mem_map_of_mem hm)
  simpa using other.symm

theorem mem_of_lookup {v : Json} (found : members.lookup key = some v) : (key, v) ∈ members := by
  induction members with
  | nil => simp at found
  | cons m members ih => grind

theorem lookup_filter (names : (members.map Prod.fst).Nodup)
    (p : Json → Bool) : (members.filter fun m => p m.2).lookup key = (members.lookup key).filter p := by
  induction members with
  | nil => rfl
  | cons m members ih =>
    obtain ⟨name, v⟩ := m
    rw [List.map_cons, List.nodup_cons] at names
    obtain ⟨fresh, names⟩ := names
    by_cases same : key = name
    · subst same
      cases kept : p v <;> simp [kept, ih names, lookup_fresh fresh, Option.filter]
    · have other : (key == name) = false := beq_false_of_ne same
      cases kept : p v <;> simp [kept, ih names, List.lookup_cons, other]

theorem lookup_mapSnd (f : Json → Json) :
    (members.map fun m => (m.1, f m.2)).lookup key = (members.lookup key).map f := by
  induction members with
  | nil => rfl
  | cons m members ih =>
    obtain ⟨name, v⟩ := m
    cases same : key == name <;> simp [List.lookup_cons, same, ih]

theorem lookup_numbersOnly (unique : UniqueNames content) : (numbersOnly content).lookup key =
      ((content.lookup key).filter fun v => v.asStr.isNone).map withoutStrings := by
  rw [numbersOnly, lookup_mapSnd, lookup_filter unique.names fun v => v.asStr.isNone]

def entryOf (content : JsonObject) (property key : String) : Option Json :=
  (content.lookup property).bind (·.get key)

theorem foldl_addLevel (names : (members.map Prod.fst).Nodup) (out : OrdMap String Int) :
    (members.foldl (addLevel lenient) out)[key]? =
      ((members.lookup key).bind (levelValue lenient)).or out[key]? := by
  induction members generalizing out with
  | nil => simp
  | cons m members ih =>
    obtain ⟨name, v⟩ := m
    rw [List.map_cons, List.nodup_cons] at names
    obtain ⟨fresh, names⟩ := names
    rw [List.foldl_cons, ih names]
    by_cases same : key = name
    · subst same
      cases level : levelValue lenient v <;> simp [addLevel, level, lookup_fresh fresh]
    · have other : (key == name) = false := beq_false_of_ne same
      cases level : levelValue lenient v <;>
        simp [addLevel, level, List.lookup_cons, other, same, OrdMap.getElem?_insert']

theorem levelAt_eq (unique : UniqueNames content) : levelAt version content property key =
      (entryOf content property key).bind (levelValue version.lenientPowerLevels) := by
  unfold levelAt entryOf
  cases found : content.lookup property with
  | none => simp [entryMap_none found]
  | some v =>
    cases v with
    | object members =>
      have names := unique.inner property members (mem_of_lookup found)
      simp [entryMap_object found, foldl_addLevel names, Json.get]
    | _ => simp [entryMap, found, Json.get]

theorem levelValue_filter (v : Option Json) :
    (v.filter fun v => v.asStr.isNone).bind (levelValue lenient) = v.bind Json.asInteger := by
  cases v with
  | none => rfl
  | some v => cases v <;> rfl

theorem entryOf_numbersOnly (unique : UniqueNames content) : entryOf (numbersOnly content) property key =
      (entryOf content property key).filter fun v => v.asStr.isNone := by
  unfold entryOf
  rw [lookup_numbersOnly unique]
  cases found : content.lookup property with
  | none => rfl
  | some v =>
    cases v with
    | object members =>
      exact lookup_filter (unique.inner property members (mem_of_lookup found)) fun v =>
        v.asStr.isNone
    | _ => rfl

theorem scalarAt_numbersOnly (unique : UniqueNames content) :
    scalarAt version (numbersOnly content) key = (content.lookup key).bind Json.asInteger := by
  unfold scalarAt
  rw [lookup_numbersOnly unique]
  cases content.lookup key with
  | none => rfl
  | some v => cases v <;> rfl

theorem UniqueNames.numbersOnly (unique : UniqueNames content) : UniqueNames (numbersOnly content) := by
  constructor
  · have kept := (content.filter_sublist (p := fun m => m.2.asStr.isNone)).map Prod.fst
    simpa [Client.numbersOnly, Function.comp_def] using unique.names.sublist kept
  · intro key members mem
    obtain ⟨⟨name, v⟩, hm, same⟩ := List.mem_map.1 mem
    have hm := (List.mem_filter.1 hm).1
    cases v with
    | object inner =>
      simp only [withoutStrings, Prod.mk.injEq, Json.object.injEq] at same
      obtain ⟨rfl, rfl⟩ := same
      exact (unique.inner name inner hm).sublist (List.filter_sublist.map Prod.fst)
    | _ => simp [withoutStrings] at same

theorem levelAt_numbersOnly (unique : UniqueNames content) :
    levelAt version (numbersOnly content) property key =
      (entryOf content property key).bind Json.asInteger := by
  rw [levelAt_eq unique.numbersOnly, entryOf_numbersOnly unique, levelValue_filter]

theorem wellShaped_numbersOnly {ruma : Ruma} (unique : UniqueNames content)
    (shaped : WellShaped ruma version content) : WellShaped ruma version (numbersOnly content) := by
  constructor
  · intro key hkey v found
    rw [lookup_numbersOnly unique, Option.map_eq_some_iff] at found
    obtain ⟨w, found, rfl⟩ := found
    have level := shaped.scalars key hkey w (Option.filter_eq_some_iff.1 found).1
    cases w <;> simp_all [withoutStrings, levelValue]
  · intro key hkey v found
    rw [lookup_numbersOnly unique, Option.map_eq_some_iff] at found
    obtain ⟨w, found, rfl⟩ := found
    obtain ⟨members, rfl, levels⟩ := shaped.entries key hkey w (Option.filter_eq_some_iff.1 found).1
    exact ⟨_, rfl, fun entry he => levels entry (List.mem_filter.1 he).1⟩
  · intro v found
    rw [lookup_numbersOnly unique, Option.map_eq_some_iff] at found
    obtain ⟨w, found, rfl⟩ := found
    obtain ⟨members, rfl, levels⟩ := shaped.users w (Option.filter_eq_some_iff.1 found).1
    exact ⟨_, rfl, fun entry he => levels entry (List.mem_filter.1 he).1⟩

end Levels

/-! ## What the two tests read -/

section Readings

variable {ruma : Ruma} {s : Store} {version : RoomVersion} {state : StateIds} {user : UserId}
  {eventType : String} {create event : IdentifiedPdu} {view : StateView IdentifiedPdu}
  {id : EventId}

theorem powerTest_iff (created : view "m.room.create" "" = some create)
    (followed : view "m.room.power_levels" "" = some event)
    (shaped : WellShaped ruma version (Event.content event)) :
    PowerTest ruma version view user eventType ↔
      (version.privilegedCreators = true ∧ user ∈ creators ruma version create) ∨
      (levelAt version (Event.content event) "events" eventType).getD
          ((scalarAt version (Event.content event) "state_default").getD 50) ≤
        (levelAt version (Event.content event) "users" user).getD
          ((scalarAt version (Event.content event) "users_default").getD 0) := by
  obtain ⟨power, resolved⟩ := shaped.resolves create
  have reads := reads_of_resolve resolved
  have default : power.stateDefault = (scalarAt version (Event.content event) "state_default").getD 50 := by
    simp only [RoomPowerLevels.resolve, Outcome.bind_eq_ok, Outcome.pure_eq_ok] at resolved
    obtain ⟨_, _, _, _, _, _, _, _, level, hlevel, _, _, _, _, _, _, _, _, rfl⟩ := resolved
    exact intProp_eq hlevel
  have test : PowerTest ruma version view user eventType ↔
      (power.user user).satisfies (power.requiredFor eventType true) := by
    constructor
    · rintro ⟨create', power', created', resolved', allowed⟩
      obtain rfl : create = create' := some_unique created created'
      rw [followed] at resolved'
      obtain rfl : power = power' := ok_unique resolved resolved'
      exact allowed
    · intro allowed
      exact ⟨create, power, created, followed ▸ resolved, allowed⟩
  have required : power.requiredFor eventType true =
      (levelAt version (Event.content event) "events" eventType).getD
        ((scalarAt version (Event.content event) "state_default").getD 50) := by
    rw [RoomPowerLevels.requiredFor, reads.events, default]
    cases levelAt version (Event.content event) "events" eventType <;> rfl
  rw [test, required, RoomPowerLevels.user, reads.version_eq, reads.creators_eq, reads.users,
    reads.usersDefault, reads.hasPlEvent, ← ExtTreeSet.contains_iff_mem, ← Bool.and_eq_true]
  cases version.privilegedCreators && (creators ruma version create).contains user with
  | true => simp [PowerLevel.satisfies, PowerLevel.le]
  | false =>
    cases levelAt version (Event.content event) "users" user <;>
      simp [PowerLevel.satisfies, PowerLevel.le]

theorem powerTest_default (created : view "m.room.create" "" = some create)
    (absent : view "m.room.power_levels" "" = none) :
    PowerTest ruma version view user eventType ↔ user ∈ creators ruma version create := by
  have resolved : RoomPowerLevels.resolve ruma version create (none : Option IdentifiedPdu) = .ok
      { version, creators := creators ruma version create, hasPlEvent := false, users := ∅,
        usersDefault := 0, events := ∅, eventsDefault := 0, stateDefault := 50, ban := 50,
        kick := 50, redact := 50, invite := 0 } := rfl
  have test : PowerTest ruma version view user eventType ↔ ∃ power,
      RoomPowerLevels.resolve ruma version create (none : Option IdentifiedPdu) = .ok power ∧
      (power.user user).satisfies (power.requiredFor eventType true) := by
    simp [PowerTest, created, absent]
  simp only [test, resolved, Except.ok.injEq, exists_eq_left', RoomPowerLevels.user,
    RoomPowerLevels.requiredFor, ← ExtTreeSet.contains_iff_mem]
  cases version.privilegedCreators <;> cases (creators ruma version create).contains user <;>
    simp [PowerLevel.satisfies, PowerLevel.le]

/-- What the client API reads of an accepted event. -/
structure Shows (s : Store) (id : EventId) (event : IdentifiedPdu) (raw : JsonObject) : Prop where
  raw_eq : rawEvent s id = some raw
  sender : (raw.lookup "sender").bind Json.asStr = some (Event.sender event)
  content : raw.lookup "content" = some (.object (Event.content event))

theorem Admissible.shows (admissible : Admissible ruma s version id event) :
    ∃ raw, Shows s id event raw := by
  obtain ⟨stored, held, sound, parsed⟩ := admissible.held
  obtain ⟨pdu, read, made⟩ := Outcome.bind_eq_ok.1 parsed
  obtain rfl := Outcome.pure_eq_ok.1 made
  rw [Pipeline.ofFormat, Outcome.mapError_eq_ok] at read
  refine ⟨stored.raw, by simp [rawEvent, held, sound], (Pdu.fromCanonical_views read).sender, ?_⟩
  simp only [Pdu.fromCanonical, Outcome.bind_eq_ok, Outcome.pure_eq_ok] at read
  obtain ⟨_, _, _, _, _, _, _, _, _, _, content, hcontent, _, _, _, _, _, _, _, _, _, _, _, _, rfl⟩ :=
    read
  unfold Field.object at hcontent
  split at hcontent
  · rename_i members found
    obtain rfl := Except.ok.inj hcontent
    exact found
  · simp [Field.shapeError] at hcontent

theorem Admissible.seen {key : Key} (admissible : Admissible ruma s version id event)
    (entry : state[key]? = some id) : storedView ruma s state key.1 key.2 = some event := by
  obtain ⟨stored, held, -, parsed⟩ := admissible.held
  simp [storedView, fullView, entry, held, parsed]

theorem namedCreator_iff (privileged : version.privilegedCreators = true)
    (valid : ruma.isUserId user = true) (entry : state[createKey]? = some id) {raw : JsonObject}
    (shows : Shows s id create raw) :
    namedCreator s state user = true ↔ user ∈ creators ruma version create := by
  have named : version.creatorInCreateContent = false := by
    cases version <;> first | rfl | cases privileged
  have sender : user ∈ (∅ : OrdSet UserId).insert (Event.sender create) ↔ Event.sender create = user := by
    rw [OrdSet.mem_insert', eq_comm]
    simp
  have additional : ((raw.lookup "content").bind (·.get "additional_creators")) =
      (Event.content create).lookup "additional_creators" := by
    simp [shows.content, Json.get]
  simp only [namedCreator, entry, shows.raw_eq, shows.sender, additional, creators, named, privileged,
    Option.bind_some, Option.any_some, if_true, Bool.false_eq_true, if_false, Option.getD_none]
  cases found : (Event.content create).lookup "additional_creators" with
  | none => simp [sender]
  | some v =>
    cases v with
    | array extra =>
      simp only [Json.asArray, Option.bind_some, Option.any_some, OrdSet.mem_extend, sender,
        List.mem_filter, List.mem_filterMap, valid]
      grind
    | _ => simp [Json.asArray, sender]

theorem canSendState_powerLevels {created followed : EventId} {rawCreate raw : JsonObject}
    (valid : ruma.isUserId user = true) (entry : state[createKey]? = some created)
    (shows : Shows s created create rawCreate) (levels : state[plKey]? = some followed)
    (shown : Shows s followed event raw) :
    canSendState s state version user eventType = true ↔
      (version.privilegedCreators = true ∧ user ∈ creators ruma version create) ∨
      (((entryOf (Event.content event) "events" eventType).bind Json.asInteger).getD
          ((((Event.content event).lookup "state_default").bind Json.asInteger).getD 50)) ≤
        (((entryOf (Event.content event) "users" user).bind Json.asInteger).getD
          ((((Event.content event).lookup "users_default").bind Json.asInteger).getD 0)) := by
  have content : stateContentIn s state "m.room.power_levels" = some (.object (Event.content event)) := by
    rw [stateContentIn, show ((("m.room.power_levels", "") : Key)) = plKey from rfl, levels]
    simp [shown.raw_eq, shown.content]
  have orD (a b : Option Int) (d : Int) : (a.or b).getD d = a.getD (b.getD d) := by
    cases a <;> rfl
  unfold canSendState
  by_cases privileged : version.privilegedCreators = true
  · have named := namedCreator_iff privileged valid entry shows
    by_cases creator : user ∈ creators ruma version create
    · simp [privileged, creator, named.2 creator]
    · have unnamed : namedCreator s state user = false :=
        Bool.eq_false_iff.2 fun h => creator (named.1 h)
      simp [privileged, creator, unnamed, content, orD, entryOf, Json.get]
  · simp [privileged, content, orD, entryOf, Json.get]

end Readings

/-! ## When the tests agree -/

/-- Nothing about the user and the type hangs on what the client API misses: without power levels the
user is a creator, and where levels may be strings, the rules say the same without those. -/
def PlainLevels (ruma : Ruma) (version : RoomVersion) (view : StateView IdentifiedPdu) (user : UserId)
    (eventType : String) : Prop :=
  match view "m.room.power_levels" "" with
  | none => ∃ create, view "m.room.create" "" = some create ∧ user ∈ creators ruma version create
  | some _ => version.lenientPowerLevels = true →
      (PowerTest ruma version view user eventType ↔
        PowerTest ruma version (numericView view) user eventType)

section Agreement

variable {ruma : Ruma} {s : Store} {version : RoomVersion} {state : StateIds} {user : UserId}
  {eventType : String} {event : IdentifiedPdu} {id : EventId}

theorem Admissible.shaped (admissible : Admissible ruma s version id event)
    (type : Event.eventType event = "m.room.power_levels") :
    WellShaped ruma version (Event.content event) := by
  obtain ⟨before, ok⟩ := admissible.passed
  exact wellShaped_of_accepted type ok

theorem levelValue_strict (strict : version.lenientPowerLevels = false) :
    levelValue version.lenientPowerLevels = Json.asInteger := by
  funext v
  cases v <;> simp [levelValue, strict, Json.asInteger]

/-- **Who may send state.** In an accepted room state the client API's test says what the rules' level
test says exactly if, for a room without power levels, the user is a creator of the room, and for one
with power levels of a version up to 9, the rules say the same with the string levels left out. -/
theorem can_send_state_iff (accepted : AcceptedState ruma s version state)
    (valid : ruma.isUserId user = true) :
    (canSendState s state version user eventType = true ↔
      PowerTest ruma version (storedView ruma s state) user eventType) ↔
    PlainLevels ruma version (storedView ruma s state) user eventType := by
  obtain ⟨createId, entry⟩ := accepted.created
  obtain ⟨create, admissible, -⟩ := accepted.entries createKey createId entry
  obtain ⟨rawCreate, shows⟩ := admissible.shows
  have created : storedView ruma s state "m.room.create" "" = some create := admissible.seen entry
  cases levels : state[plKey]? with
  | none =>
    have absent : storedView ruma s state "m.room.power_levels" "" = none := by
      simp [storedView, fullView, show state[(("m.room.power_levels", "") : Key)]? = none from levels]
    have everybody : canSendState s state version user eventType = true := by
      simp [canSendState, stateContentIn,
        show state[(("m.room.power_levels", "") : Key)]? = none from levels]
    simp [PlainLevels, absent, everybody, powerTest_default created absent, created]
  | some followed =>
    obtain ⟨event, admissible', type⟩ := accepted.entries plKey followed levels
    obtain ⟨raw, shown⟩ := admissible'.shows
    have unique : UniqueNames event.pdu.content := admissible'.unique
    have shaped := admissible'.shaped type
    have held : storedView ruma s state "m.room.power_levels" "" = some event :=
      admissible'.seen levels
    have client : canSendState s state version user eventType = true ↔ _ :=
      canSendState_powerLevels valid entry shows levels shown
    have rules : PowerTest ruma version (storedView ruma s state) user eventType ↔ _ :=
      powerTest_iff created held shaped
    simp only [Event.content] at client rules
    -- The client API's test is the rules' test with the strings left out.
    have numeric : PowerTest ruma version (numericView (storedView ruma s state)) user eventType ↔
        canSendState s state version user eventType = true := by
      have created' : numericView (storedView ruma s state) "m.room.create" "" = some create := by
        simp [numericView, plKey, created]
      have held' : numericView (storedView ruma s state) "m.room.power_levels" "" =
          some { event with pdu := { event.pdu with content := numbersOnly event.pdu.content } } := by
        simp [numericView, plKey, held]
      rw [client, powerTest_iff created' held' (wellShaped_numbersOnly unique shaped)]
      simp only [Event.content]
      rw [levelAt_numbersOnly unique, levelAt_numbersOnly unique, scalarAt_numbersOnly unique,
        scalarAt_numbersOnly unique]
    simp only [PlainLevels, held, numeric]
    cases lenient : version.lenientPowerLevels with
    | true => simp [iff_comm]
    | false =>
      have agree : canSendState s state version user eventType = true ↔
          PowerTest ruma version (storedView ruma s state) user eventType := by
        rw [client, rules, levelAt_eq unique, levelAt_eq unique, scalarAt, scalarAt,
          levelValue_strict lenient]
      simp [agree]

end Agreement

/-! ## A room of two -/

/-- `AcceptedState`, checked: the rules let every entry through over the rest of the state. -/
def admits (ruma : Ruma) (s : Store) (version : RoomVersion) (state : StateIds) : Bool :=
  state[createKey]?.isSome && state.toList.all fun entry =>
    (s.event[entry.2]?.filter fun stored => stored.rejected.isNone).any fun stored =>
      (parseStored ruma entry.2 stored).toOption.any fun event =>
        Event.eventType event == entry.1.1 &&
        decide ((Event.content event).map Prod.fst).Nodup &&
        ((Event.content event).all fun m =>
          match m.2 with
          | .object members => (members.map Prod.fst).Nodup
          | _ => true) &&
        (checkStateDependent ruma version event (storedView ruma s (state.erase entry.1))).toOption.isSome

theorem acceptedState_of_admits {ruma : Ruma} {s : Store} {version : RoomVersion} {state : StateIds}
    (h : admits ruma s version state = true) : AcceptedState ruma s version state := by
  obtain ⟨created, entries⟩ := Bool.and_eq_true_iff.1 h
  refine ⟨Option.isSome_iff_exists.1 created, fun key id entry => ?_⟩
  have checked := List.all_eq_true.1 entries (key, id) (OrdMap.mem_toList.2 entry)
  obtain ⟨stored, held, checked⟩ := (Option.any_eq_true _ _).1 checked
  obtain ⟨held, sound⟩ := Option.filter_eq_some_iff.1 held
  obtain ⟨event, parsed, checked⟩ := (Option.any_eq_true _ _).1 checked
  simp only [Bool.and_eq_true, beq_iff_eq, decide_eq_true_eq, List.all_eq_true,
    Option.isSome_iff_exists, Outcome.toOption_eq_some] at checked
  obtain ⟨⟨⟨type, names⟩, inner⟩, _, passed⟩ := checked
  refine ⟨event, ⟨⟨stored, held, Option.isNone_iff_eq_none.1 sound,
    Outcome.toOption_eq_some.1 parsed⟩, ⟨_, passed⟩, names, fun name members hm => ?_⟩, type⟩
  simpa using inner _ hm

def samplePair (version : String) (more : List (Key × EventId × JsonObject)) :
    List (Key × EventId × JsonObject) :=
  [(createKey, "$c", Ruma.samplePdu "c" "m.room.create" (some "") "@a:x"
      [("creator", .string "@a:x"), ("room_version", .string version)] [] [] 1),
    (memberKey "@a:x", "$j", Ruma.sampleJoin),
    (("m.room.join_rules", ""), "$r", Ruma.samplePdu "r" "m.room.join_rules" (some "") "@a:x"
      [("join_rule", .string "public")] ["$c", "$j"] ["$j"] 3),
    (memberKey "@b:x", "$k", Ruma.samplePdu "k" "m.room.member" (some "@b:x") "@b:x"
      [("membership", .string "join")] ["$c", "$r"] ["$r"] 4)] ++ more

def samplePairLevels (level : Json) : List (Key × EventId × JsonObject) :=
  [(plKey, "$p", Ruma.samplePdu "p" "m.room.power_levels" (some "") "@a:x"
    [("users", .object [("@a:x", .integer 100), ("@b:x", level)])] ["$c", "$j"] ["$k"] 5)]

def storeOf (rows : List (Key × EventId × JsonObject)) : Store :=
  { Store.empty with
    event := OrdMap.extend ∅ (rows.map fun r => (r.2.1, ⟨r.2.2, 1, 1, 1, none, none, false, false⟩)) }

def stateOf (rows : List (Key × EventId × JsonObject)) : StateIds :=
  OrdMap.extend ∅ (rows.map fun r => (r.1, r.2.1))

/-- The level of `@b:x` is a string: the rules read it, the client API does not. -/
theorem can_send_state_iff_string : ¬PlainLevels Ruma.sample .v9
    (storedView Ruma.sample (storeOf (samplePair "9" (samplePairLevels (.string "50"))))
      (stateOf (samplePair "9" (samplePairLevels (.string "50"))))) "@b:x" "m.room.topic" := by
  rw [← can_send_state_iff (acceptedState_of_admits (by decide +kernel)) (by decide +kernel)]
  decide +kernel

/-- In a room without power levels `@b:x`, who joined and did not create it, may send state for the
client API and may not for the rules. -/
theorem everybody_may_send : ¬∀ (s : Store) (version : RoomVersion) (state : StateIds) (user : UserId)
    (eventType : String), AcceptedState Ruma.sample s version state →
    Ruma.sample.isUserId user = true → membershipIn s state user = "join" →
    (canSendState s state version user eventType = true ↔
      PowerTest Ruma.sample version (storedView Ruma.sample s state) user eventType) := by
  intro agree
  have agreed := agree (storeOf (samplePair "11" [])) .v11 (stateOf (samplePair "11" [])) "@b:x"
    "m.room.topic" (acceptedState_of_admits (by decide +kernel)) (by decide +kernel) (by decide +kernel)
  revert agreed
  decide +kernel

end Client

end Saltator
