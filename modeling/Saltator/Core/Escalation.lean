import Saltator.Core.AuthSpec

/-!
# Power levels cannot be escalated

A power-levels event that the rules accept resolves, and compared with the one before it neither
raises anybody above what the sender commands nor touches what lies above the sender.

* `usersMap_eq`, `intMap_eq`: resolution and the rules read the same levels out of a content.
* `no_escalation`: the comparison of the two contents.
-/

namespace Saltator

open Std

/-! ## The order of levels -/

namespace PowerLevel

def max (a b : PowerLevel) : PowerLevel := if le a b then b else a

@[simp] theorem le_refl (a : PowerLevel) : le a a := by
  cases a with
  | int level => simp [le]
  | infinite => rfl

theorem le_trans {a b c : PowerLevel} (hab : le a b) (hbc : le b c) : le a c := by
  cases a <;> cases b <;> cases c <;> simp_all [le]
  omega

theorem le_total (a b : PowerLevel) : le a b ∨ le b a := by
  cases a <;> cases b <;> simp [le]
  omega

theorem le_max_left (a b : PowerLevel) : le a (max a b) := by
  unfold max
  split
  · assumption
  · exact le_refl a

theorem le_max_right (a b : PowerLevel) : le b (max a b) := by
  unfold max
  split
  · exact le_refl b
  · rename_i h
    exact (le_total a b).resolve_left h

end PowerLevel

/-! ## Reading levels -/

section Reading

variable {ruma : Ruma} {lenient : Bool} {content : JsonObject} {key : String}

def addLevel (lenient : Bool) (out : OrdMap String Int) (entry : String × Json) : OrdMap String Int :=
  match levelValue lenient entry.2 with
  | some i => out.insert entry.1 i
  | none => out

theorem entryMap_object {members : List (String × Json)}
    (object : content.lookup key = some (.object members)) :
    Auth.entryMap lenient content key = members.foldl (addLevel lenient) ∅ := by
  simp only [Auth.entryMap, object]
  rfl

theorem entryMap_none (absent : content.lookup key = none) : Auth.entryMap lenient content key = ∅ := by
  simp only [Auth.entryMap, absent]

theorem intMap_ok (levels : ∀ v, content.lookup key = some v → ∃ members, v = .object members ∧
      ∀ entry ∈ members, (levelValue lenient entry.2).isSome) :
    intMap content key lenient = .ok (Auth.entryMap lenient content key) := by
  unfold intMap
  cases found : content.lookup key with
  | none => rw [entryMap_none found]
  | some v =>
    obtain ⟨members, rfl, valid⟩ := levels v found
    rw [entryMap_object found]
    apply Outcome.foldlM_eq_foldl
    intro entry he out
    obtain ⟨i, hi⟩ := Option.isSome_iff_exists.1 (valid entry he)
    simp only [addLevel, hi]

theorem usersMap_ok (levels : ∀ v, content.lookup "users" = some v → ∃ members, v = .object members ∧
      ∀ entry ∈ members, ruma.isUserId entry.1 ∧ (levelValue lenient entry.2).isSome) :
    usersMap ruma content lenient = .ok (Auth.entryMap lenient content "users") := by
  unfold usersMap
  cases found : content.lookup "users" with
  | none => rw [entryMap_none found]
  | some v =>
    obtain ⟨members, rfl, valid⟩ := levels v found
    rw [entryMap_object found]
    apply Outcome.foldlM_eq_foldl
    intro entry he out
    obtain ⟨i, hi⟩ := Option.isSome_iff_exists.1 (valid entry he).2
    simp only [addLevel, hi, (valid entry he).1, if_true]

theorem intMap_eq {levels : OrdMap String Int} (h : intMap content key lenient = .ok levels) :
    levels = Auth.entryMap lenient content key := by
  refine ok_unique h (intMap_ok fun v found => ?_)
  unfold intMap at h
  simp only [found] at h
  cases v with
  | object members =>
    refine ⟨members, rfl, fun entry he => ?_⟩
    obtain ⟨out, out', step⟩ := Outcome.foldlM_ok_step h entry he
    cases level : levelValue lenient entry.2 with
    | none => simp [level] at step
    | some i => rfl
  | _ => simp at h

theorem usersMap_eq {levels : OrdMap UserId Int} (h : usersMap ruma content lenient = .ok levels) :
    levels = Auth.entryMap lenient content "users" := by
  refine ok_unique h (usersMap_ok fun v found => ?_)
  unfold usersMap at h
  simp only [found] at h
  cases v with
  | object members =>
    refine ⟨members, rfl, fun entry he => ?_⟩
    obtain ⟨out, out', step⟩ := Outcome.foldlM_ok_step h entry he
    by_cases user : ruma.isUserId entry.1
    · cases level : levelValue lenient entry.2 with
      | none => simp [level, user] at step
      | some i => exact ⟨user, rfl⟩
    · simp [user] at step
  | _ => simp at h

end Reading

namespace Auth

variable {E : Type} [Event E]

def scalarAt (version : RoomVersion) (content : JsonObject) (key : String) : Option Int :=
  (content.lookup key).bind (levelValue version.lenientPowerLevels)

def levelAt (version : RoomVersion) (content : JsonObject) (property key : String) : Option Int :=
  (entryMap version.lenientPowerLevels content property)[key]?

section Resolved

variable {ruma : Ruma} {version : RoomVersion} {content : JsonObject} {key : String} {i : Int}

theorem intProp_ok
    (level : ∀ v, content.lookup key = some v → (levelValue version.lenientPowerLevels v).isSome) :
    intProp content key i version.lenientPowerLevels = .ok ((scalarAt version content key).getD i) := by
  unfold intProp scalarAt
  cases found : content.lookup key with
  | none => rfl
  | some v =>
    obtain ⟨j, hj⟩ := Option.isSome_iff_exists.1 (level v found)
    simp [hj]

theorem intProp_eq {j : Int} (h : intProp content key i version.lenientPowerLevels = .ok j) :
    j = (scalarAt version content key).getD i := by
  refine ok_unique h (intProp_ok fun v found => ?_)
  cases level : levelValue version.lenientPowerLevels v with
  | none => simp [intProp, found, level] at h
  | some _ => rfl

structure Reads (ruma : Ruma) (version : RoomVersion) (create powerLevels : E)
    (power : RoomPowerLevels) : Prop where
  version_eq : power.version = version
  creators_eq : power.creators = creators ruma version create
  hasPlEvent : power.hasPlEvent = true
  users : ∀ u, power.users[u]? = levelAt version (Event.content powerLevels) "users" u
  usersDefault : power.usersDefault = (scalarAt version (Event.content powerLevels) "users_default").getD 0
  events : ∀ t, power.events[t]? = levelAt version (Event.content powerLevels) "events" t

theorem reads_of_resolve {create powerLevels : E} {power : RoomPowerLevels}
    (h : RoomPowerLevels.resolve ruma version create (some powerLevels) = .ok power) :
    Reads ruma version create powerLevels power := by
  simp only [RoomPowerLevels.resolve, Outcome.bind_eq_ok, Outcome.pure_eq_ok] at h
  obtain ⟨users, husers, default, hdefault, events, hevents, _, _, _, _, _, _, _, _, _, _, _, _,
    rfl⟩ := h
  exact ⟨rfl, rfl, rfl, fun u => by rw [usersMap_eq husers]; rfl, intProp_eq hdefault,
    fun t => by rw [intMap_eq hevents]; rfl⟩

end Resolved

/-! ## The shape of an accepted content -/

/-- Every property has the type that resolution expects. -/
structure WellShaped (ruma : Ruma) (version : RoomVersion) (content : JsonObject) : Prop where
  scalars : ∀ key ∈ scalarLevels, ∀ v, content.lookup key = some v →
    (levelValue version.lenientPowerLevels v).isSome
  entries : ∀ key ∈ ["events", "notifications"], ∀ v, content.lookup key = some v →
    ∃ members, v = .object members ∧
      ∀ entry ∈ members, (levelValue version.lenientPowerLevels entry.2).isSome
  users : ∀ v, content.lookup "users" = some v → ∃ members, v = .object members ∧
    ∀ entry ∈ members, ruma.isUserId entry.1 ∧ (levelValue version.lenientPowerLevels entry.2).isSome

section Shape

variable {ruma : Ruma} {version : RoomVersion} {content : JsonObject} {power : RoomPowerLevels}

theorem checkUserLevel_ok {entry : String × Json}
    (ok : checkUserLevel ruma version entry = .ok ()) :
    ruma.isUserId entry.1 ∧ (levelValue version.lenientPowerLevels entry.2).isSome := by
  unfold checkUserLevel at ok
  split at ok
  · simp [reject] at ok
  · rename_i user
    split at ok
    · simp [reject] at ok
    · rename_i level
      exact ⟨by simpa using user, Option.isSome_iff_ne_none.2 (by simpa using level)⟩

theorem checkPowerLevelShape_ok
    (ok : checkPowerLevelShape ruma version content power = .ok ()) :
    WellShaped ruma version content := by
  unfold checkPowerLevelShape at ok
  obtain ⟨_, scalars, ok⟩ := Outcome.bind_eq_ok.1 ok
  obtain ⟨_, entries, ok⟩ := Outcome.bind_eq_ok.1 ok
  rw [Outcome.forM_eq_ok] at scalars entries
  constructor
  · intro key hkey v found
    have := scalars key hkey
    simp only [found] at this
    by_contra level
    simp [level, reject] at this
  · intro key hkey v found
    have := entries key hkey
    cases v with
    | object members =>
      simp only [found] at this
      refine ⟨members, rfl, fun entry he => ?_⟩
      split at this
      · rename_i levels
        exact List.all_eq_true.1 levels entry he
      · simp [reject] at this
    | _ => simp [found, reject] at this
  · intro v found
    cases v with
    | object members =>
      simp only [found] at ok
      obtain ⟨_, users, _⟩ := Outcome.bind_eq_ok.1 ok
      rw [Outcome.forM_eq_ok] at users
      exact ⟨members, rfl, fun entry he => checkUserLevel_ok (users entry he)⟩
    | _ => simp [found, reject] at ok

theorem wellShaped_of_accepted {levels : E} {before : StateView E}
    (type : Event.eventType levels = "m.room.power_levels")
    (ok : checkStateDependent ruma version levels before = .ok ()) :
    WellShaped ruma version (Event.content levels) := by
  obtain ⟨create, power, admitted⟩ := checkStateDependent_admitted (by simp [type]) ok
  have rules := admitted.powerLevels type
  unfold checkPowerLevels at rules
  obtain ⟨_, shape, -⟩ := Outcome.bind_eq_ok.1 rules
  exact checkPowerLevelShape_ok shape

theorem WellShaped.resolves (create : E) {event : E}
    (shaped : WellShaped ruma version (Event.content event)) :
    ∃ power, RoomPowerLevels.resolve ruma version create (some event) = .ok power := by
  have scalar : ∀ key ∈ scalarLevels, ∀ default,
      intProp (Event.content event) key default version.lenientPowerLevels =
        .ok ((scalarAt version (Event.content event) key).getD default) :=
    fun key hkey default => intProp_ok (shaped.scalars key hkey)
  simp only [scalarLevels, List.forall_mem_cons] at scalar
  obtain ⟨usersDefault, eventsDefault, stateDefault, ban, redact, kick, invite, -⟩ := scalar
  simp [RoomPowerLevels.resolve, usersMap_ok shaped.users,
    intMap_ok (shaped.entries "events" (by simp)), usersDefault, eventsDefault, stateDefault, ban,
    redact, kick, invite, pure, Except.pure]

end Shape

/-! ## The change from the previous content -/

/-- What an accepted content may do to the previous one. -/
structure Keeps (version : RoomVersion) (sender : UserId) (old content : JsonObject)
    (own : PowerLevel) : Prop where
  scalars : ∀ key ∈ scalarLevels, scalarAt version old key ≠ scalarAt version content key →
    (∀ v, scalarAt version old key = some v → own.satisfies v) ∧
    (∀ v, scalarAt version content key = some v → own.satisfies v)
  entries : ∀ property ∈ ["events", "notifications"], ∀ k v, levelAt version old property k = some v →
    levelAt version content property k = some v ∨ own.satisfies v
  users : ∀ k v, levelAt version old "users" k = some v →
    levelAt version content "users" k = some v ∨ k = sender ∨ own.le (.int v) = false
  granted : ∀ property ∈ ["events", "notifications", "users"], ∀ k v,
    levelAt version content property k = some v →
    levelAt version old property k = some v ∨ own.satisfies v

section Change

variable {version : RoomVersion} {sender : UserId} {old content : JsonObject} {own : PowerLevel}

theorem checkPowerLevelChange_ok
    (ok : checkPowerLevelChange version sender old content own = .ok ()) :
    Keeps version sender old content own := by
  unfold checkPowerLevelChange at ok
  obtain ⟨_, scalars, entries⟩ := Outcome.bind_eq_ok.1 ok
  clear ok
  rw [Outcome.forM_eq_ok] at scalars entries
  have removed : ∀ property ∈ ["events", "notifications", "users"], ∀ k v,
      levelAt version old property k = some v → levelAt version content property k = some v ∨
        (if property = "users" then k = sender ∨ own.le (.int v) = false else own.satisfies v) := by
    intro property hproperty k v found
    obtain ⟨_, kept, _⟩ := Outcome.bind_eq_ok.1 (entries property hproperty)
    rw [Outcome.forM_eq_ok] at kept
    have entry := kept (k, v) (OrdMap.mem_toList.2 found)
    by_cases same : levelAt version content property k = some v
    · exact .inl same
    · right
      unfold levelAt at same
      simp only [same, if_false] at entry
      split
      · rename_i users
        simp only [users, if_true] at entry
        split at entry
        · simp [reject] at entry
        · rename_i spared
          grind
      · rename_i other
        simp only [other, if_false] at entry
        by_contra below
        simp [below, reject] at entry
  constructor
  · intro key hkey differs
    have scalar := scalars key hkey
    dsimp only at scalar
    rw [← scalarAt, ← scalarAt, if_pos differs] at scalar
    have before : ∀ v, scalarAt version old key = some v → own.satisfies v := by
      intro v found
      by_contra above
      have above : own.satisfies v = false := by simpa using above
      simp [found, above, reject] at scalar
    refine ⟨before, fun v found => ?_⟩
    by_contra above
    have above : own.satisfies v = false := by simpa using above
    cases previous : scalarAt version old key with
    | none => simp [found, previous, above, reject] at scalar
    | some w => simp [found, previous, above, before w previous, reject] at scalar
  · intro property hproperty k v found
    have := removed property (by grind) k v found
    rwa [if_neg (by grind)] at this
  · intro k v found
    have := removed "users" (by simp) k v found
    rwa [if_pos rfl] at this
  · intro property hproperty k v found
    obtain ⟨_, _, granted⟩ := Outcome.bind_eq_ok.1 (entries property hproperty)
    rw [Outcome.forM_eq_ok] at granted
    have entry := granted (k, v) (OrdMap.mem_toList.2 found)
    by_cases same : levelAt version old property k = some v
    · exact .inl same
    · right
      unfold levelAt at same
      simp only [same, if_false] at entry
      by_contra below
      simp [below, reject] at entry

end Change

/-! ## No escalation -/

/-- A new power-levels event compared with the previous one: `own` is the sender's level, `old` and
`new` are the levels the two events resolve to. -/
structure NoEscalation (version : RoomVersion) (sender : UserId) (own : PowerLevel)
    (previous content : JsonObject) (old new : RoomPowerLevels) : Prop where
  /-- Nobody ends up above the old level, the sender, the old default and zero. -/
  bounded : ∀ u, (new.user u).le
    (((old.user u).max own).max ((PowerLevel.int old.usersDefault).max (.int 0)))
  /-- The entries of other users at or above the sender stay. -/
  users_kept : ∀ u v, u ≠ sender → levelAt version previous "users" u = some v →
    own.le (.int v) → levelAt version content "users" u = some v
  /-- The events and notifications entries above the sender stay. -/
  entries_kept : ∀ property ∈ ["events", "notifications"], ∀ k v,
    levelAt version previous property k = some v → (PowerLevel.int v).le own = false →
    levelAt version content property k = some v
  /-- The scalars above the sender stay. -/
  scalars_kept : ∀ key ∈ scalarLevels, ∀ v, scalarAt version previous key = some v →
    (PowerLevel.int v).le own = false → scalarAt version content key = some v
  /-- Every entry that differs is at most the sender's level. -/
  entries_granted : ∀ property ∈ ["events", "notifications", "users"], ∀ k v,
    levelAt version content property k = some v → levelAt version previous property k ≠ some v →
    (PowerLevel.int v).le own
  /-- Every scalar that differs is at most the sender's level. -/
  scalars_granted : ∀ key ∈ scalarLevels, ∀ v, scalarAt version content key = some v →
    scalarAt version previous key ≠ some v → (PowerLevel.int v).le own

section Escalation

variable {ruma : Ruma} {version : RoomVersion} {sender : UserId} {own : PowerLevel}
  {create previous event : E} {old new : RoomPowerLevels}

theorem usersDefault_bounded (reads : Reads ruma version create previous old)
    (reads' : Reads ruma version create event new)
    (keeps : Keeps version sender (Event.content previous) (Event.content event) own) :
    new.usersDefault = old.usersDefault ∨ own.satisfies new.usersDefault ∨ new.usersDefault = 0 := by
  rw [reads.usersDefault, reads'.usersDefault]
  by_cases same : scalarAt version (Event.content previous) "users_default" =
      scalarAt version (Event.content event) "users_default"
  · rw [same]
    exact .inl rfl
  · have granted := (keeps.scalars "users_default" (by decide) same).2
    cases level : scalarAt version (Event.content event) "users_default" with
    | none => exact .inr (.inr rfl)
    | some v => exact .inr (.inl (granted v level))

theorem user_bounded (reads : Reads ruma version create previous old)
    (reads' : Reads ruma version create event new)
    (keeps : Keeps version sender (Event.content previous) (Event.content event) own) (u : UserId) :
    (new.user u).le (((old.user u).max own).max ((PowerLevel.int old.usersDefault).max (.int 0))) := by
  have byOld {level : PowerLevel} (h : level.le (old.user u)) : level.le
      (((old.user u).max own).max ((PowerLevel.int old.usersDefault).max (.int 0))) :=
    PowerLevel.le_trans h (PowerLevel.le_trans (PowerLevel.le_max_left _ own) (PowerLevel.le_max_left _ _))
  have byOwn {level : PowerLevel} (h : level.le own) : level.le
      (((old.user u).max own).max ((PowerLevel.int old.usersDefault).max (.int 0))) :=
    PowerLevel.le_trans h (PowerLevel.le_trans (PowerLevel.le_max_right _ own) (PowerLevel.le_max_left _ _))
  have byDefaults {level : PowerLevel}
      (h : level.le ((PowerLevel.int old.usersDefault).max (.int 0))) : level.le
      (((old.user u).max own).max ((PowerLevel.int old.usersDefault).max (.int 0))) :=
    PowerLevel.le_trans h (PowerLevel.le_max_right _ _)
  by_cases creator : (version.privilegedCreators && (creators ruma version create).contains u) = true
  · apply byOld
    simp [RoomPowerLevels.user, reads.version_eq, reads.creators_eq, reads'.version_eq,
      reads'.creators_eq, creator]
  have oldUser : old.user u = .int ((levelAt version (Event.content previous) "users" u).getD
      old.usersDefault) := by
    simp only [RoomPowerLevels.user, reads.version_eq, reads.creators_eq, creator, reads.hasPlEvent,
      reads.users]
    cases levelAt version (Event.content previous) "users" u <;> simp
  have newUser : new.user u = .int ((levelAt version (Event.content event) "users" u).getD
      new.usersDefault) := by
    simp only [RoomPowerLevels.user, reads'.version_eq, reads'.creators_eq, creator,
      reads'.hasPlEvent, reads'.users]
    cases levelAt version (Event.content event) "users" u <;> simp
  rw [newUser]
  cases entry : levelAt version (Event.content event) "users" u with
  | some v =>
    obtain same | granted := keeps.granted "users" (by simp) u v entry
    · apply byOld
      simp [oldUser, same]
    · exact byOwn granted
  | none =>
    obtain same | granted | zero := usersDefault_bounded reads reads' keeps
    · apply byDefaults
      rw [Option.getD_none, same]
      exact PowerLevel.le_max_left _ _
    · exact byOwn granted
    · apply byDefaults
      rw [Option.getD_none, zero]
      exact PowerLevel.le_max_right _ _

/-- **No escalation.** A power-levels event that the rules accept over a previous one resolves, and
it neither lifts anybody above what the sender commands nor alters what lies above the sender. -/
theorem no_escalation {state : StateView E} (created : state "m.room.create" "" = some create)
    (followed : state "m.room.power_levels" "" = some previous)
    (type : Event.eventType event = "m.room.power_levels")
    (ok : checkStateDependent ruma version event state = .ok ()) :
    ∃ old new, RoomPowerLevels.resolve ruma version create (some previous) = .ok old ∧
      RoomPowerLevels.resolve ruma version create (some event) = .ok new ∧
      NoEscalation version (Event.sender event) (old.user (Event.sender event))
        (Event.content previous) (Event.content event) old new := by
  obtain ⟨create', old, admitted⟩ := checkStateDependent_admitted (by simp [type]) ok
  obtain rfl : create = create' := some_unique created admitted.created
  have resolved := admitted.resolved
  rw [followed] at resolved
  have rules := admitted.powerLevels type
  unfold checkPowerLevels at rules
  obtain ⟨_, shape, change⟩ := Outcome.bind_eq_ok.1 rules
  simp only [followed] at change
  have keeps := checkPowerLevelChange_ok change
  obtain ⟨new, resolves⟩ := (checkPowerLevelShape_ok shape).resolves create
  refine ⟨old, new, resolved, resolves, ?_⟩
  constructor
  · exact user_bounded (reads_of_resolve resolved) (reads_of_resolve resolves) keeps
  · intro u v other found above
    obtain same | self | below := keeps.users u v found
    · exact same
    · exact absurd self other
    · simp [above] at below
  · intro property hproperty k v found above
    obtain same | below := keeps.entries property hproperty k v found
    · exact same
    · simp [PowerLevel.satisfies, above] at below
  · intro key hkey v found above
    by_contra differs
    have := (keeps.scalars key hkey (by grind)).1 v found
    simp [PowerLevel.satisfies, above] at this
  · intro property hproperty k v found differs
    exact (keeps.granted property hproperty k v found).resolve_left differs
  · intro key hkey v found differs
    exact (keeps.scalars key hkey (by grind)).2 v found

end Escalation

def sampleLevels (id : EventId) (sender : UserId) (users : List (UserId × Int)) : IdentifiedPdu :=
  sampleEvent id "m.room.power_levels" "" sender
    [("users", .object (users.map fun u => (u.1, .integer u.2)))]

def sampleCreateEvent : IdentifiedPdu := sampleEvent "$c" "m.room.create" "" "@a:x" []

def sampleModerated : StateView IdentifiedPdu := fun t sk =>
  List.lookup (t, sk) [(("m.room.create", ""), sampleCreateEvent), (("m.room.member", "@b:x"),
        sampleEvent "$j" "m.room.member" "@b:x" "@b:x" [("membership", .string "join")]),
      (("m.room.power_levels", ""), sampleLevels "$p" "@a:x" [("@a:x", 100), ("@b:x", 50)])]

def samplePromotion : IdentifiedPdu :=
  sampleLevels "$q" "@b:x" [("@a:x", 100), ("@b:x", 50), ("@c:x", 50)]

theorem no_escalation_promotion : ∃ old new, RoomPowerLevels.resolve Ruma.sample .v11 sampleCreateEvent
      (some (sampleLevels "$p" "@a:x" [("@a:x", 100), ("@b:x", 50)])) = .ok old ∧
    RoomPowerLevels.resolve Ruma.sample .v11 sampleCreateEvent (some samplePromotion) = .ok new ∧
    NoEscalation .v11 "@b:x" (old.user "@b:x")
      [("users", .object [("@a:x", .integer 100), ("@b:x", .integer 50)])]
      (Event.content samplePromotion) old new :=
  have created : sampleModerated "m.room.create" "" = some sampleCreateEvent := rfl
  no_escalation created rfl rfl (by decide +kernel)

end Auth

end Saltator
