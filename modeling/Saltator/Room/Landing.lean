import Saltator.Core.Lasting
import Saltator.Room.Accepted
import Saltator.Room.Memberships
import Saltator.Room.Speech

/-!
# What an event that passes both checks comes to

An event that passes the checks against its auth events and against the state before it is let in, and
its state group stands for the state after it. A merge of forks is the exception: the group of the state
before it is only staged in the command, and a state event looks its parent up in the store
(`lands_iff`).
-/

namespace Saltator.Room

open Std
open Saltator.Outcome Saltator.Loop
open Machine (applyAppend)
open Pipeline
open StateRes (Key StateIds createKey plKey neededKeys)

/-! ## More fuel changes no decision -/

section Lasts

variable (ruma : Ruma) (s : Store) (room : RoomId)

theorem resolveGroup_lasting (group : Nat) : Lasting fun fuel => s.resolveGroup fuel room group := by
  unfold Store.resolveGroup
  exact (Lasting.run _ _ _).bind fun _ => .const _

theorem materialize_lasting (group : Nat) : Lasting fun fuel => materialize ruma s fuel room group :=
  ((resolveGroup_lasting s room group).mapError _).bind fun _ => .const _

theorem fetchPrevs_lasting (ids : List EventId) : Lasting fun fuel => fetchPrevs s fuel ids := by
  unfold fetchPrevs
  refine .foldlM ids (fun id acc => ?_) _
  cases s.event[id]? with
  | none => exact .const _
  | some se =>
    dsimp only
    split
    · exact (Lasting.run _ _ _).bind fun behind => .const _
    · exact .const _

theorem stateBefore_lasting (version : RoomVersion) (isCreate : Bool)
    (fetch : EventId → Option IdentifiedPdu) (prevGroups : OrdSet Nat) (alloc : Alloc) :
    Lasting fun fuel => stateBefore ruma s fuel version room isCreate fetch prevGroups alloc := by
  unfold stateBefore
  split
  · exact .const _
  · split
    · exact (materialize_lasting ruma s room _).bind fun _ => .const _
    · refine (Lasting.mapM _ fun group => materialize_lasting ruma s room group).bind fun sets => ?_
      exact ((StateRes.resolve_lasting fetch ruma version sets).mapError _).bind fun _ => .const _

theorem extremityState_lasting (event : IdentifiedPdu) (after : StateIds) (id : EventId) :
    Lasting fun fuel => extremityState ruma s fuel room event after id := by
  unfold extremityState
  split
  · exact .const _
  · cases s.event[id]? with
    | none => exact .const _
    | some se => exact materialize_lasting ruma s room se.stateGroupAfter

theorem currentState_lasting (version : RoomVersion) (event : IdentifiedPdu)
    (fetch : EventId → Option IdentifiedPdu) (extremities : OrdSet EventId) (after : Held) :
    Lasting fun fuel => currentState ruma s fuel version room event fetch extremities after := by
  unfold currentState
  split
  · exact .const _
  · refine (Lasting.mapM _ fun id => extremityState_lasting ruma s room event after.state id).bind
      fun sets => ?_
    exact ((StateRes.resolve_lasting fetch ruma version sets).mapError _).bind fun _ => .const _

theorem settle_lasting (version : RoomVersion) (isCreate relay : Bool) (event : IdentifiedPdu)
    (raw : JsonObject) (prevGroups : OrdSet Nat) :
    Lasting fun fuel => settle ruma s fuel version room isCreate relay event raw prevGroups := by
  refine (stateBefore_lasting ruma s room version isCreate _ prevGroups _).bind fun before => ?_
  refine (Lasting.const _).bind fun view => ?_
  cases Auth.checkStateDependent ruma version event (viewOf view) with
  | error r => exact .const _
  | ok _ =>
    refine (Lasting.const _).bind fun after => ?_
    exact (currentState_lasting ruma s room version event _ _ after).bind fun _ =>
      (Lasting.const _).bind fun _ => .const _

/-- **More fuel changes no decision of the pipeline.** -/
theorem processInner_lasting (keys : PublicKeyMap) (raw : JsonObject) (version : RoomVersion)
    (isCreate relay rejectMissingAuth : Bool) : Lasting fun fuel =>
      processInner ruma keys s fuel raw version room isCreate relay rejectMissingAuth := by
  refine (Lasting.const _).bind fun vetted => (Lasting.const _).bind fun id => ?_
  split
  · exact .const _
  refine Lasting.bind ?_ fun _ => .const _
  unfold judge
  dsimp only
  split
  · exact .const _
  refine (Lasting.const _).bind fun held => (fetchPrevs_lasting s _).bind fun prevs => ?_
  split
  · exact .const _
  split
  · exact .const _
  refine (Lasting.const _).bind fun own => ?_
  cases own with
  | error r => exact .const _
  | ok _ => exact settle_lasting ruma s room version isCreate relay _ _ _

end Lasts

/-! ## Landing -/

def stateWith (event : IdentifiedPdu) (before : StateIds) : StateIds :=
  match Event.stateKey event with
  | none => before
  | some sk => before.insert (Event.eventType event, sk) event.eventId

/-- The event is a new one of a known room, and it passes both checks: against its auth events, and
against the state before it, in which its prev events with these groups leave the room. -/
structure Clears (server : Server) (s : Store) (raw : JsonObject) (version : RoomVersion)
    (room : RoomId) (isCreate : Bool) (event : IdentifiedPdu) (prevGroups : OrdSet Nat)
    (before : Held) : Prop where
  routed : Routed server s raw version room isCreate
  vetted : ∃ raw', vet server.ruma server.keys version raw = .ok (raw', event.pdu) ∧
    server.ruma.eventId raw' version = .ok event.eventId
  new : s.event[event.eventId]? = none
  known : isCreate = true ∨ (s.room[room]?).isSome
  checked : ∃ fuel held, Passed server.ruma s fuel version room isCreate event held prevGroups before
  allowed : ∃ view, stateView version event before.state (fetchFor server.ruma s event) = .ok view ∧
    Auth.checkStateDependent server.ruma version event (viewOf view) = .ok ()

/-- The pipeline accepts the event, and once its command is applied, the event's state group stands for
the state after the event. -/
def Lands (server : Server) (s : Store) (raw : JsonObject) (version : RoomVersion) (room : RoomId)
    (isCreate relay rejectMissingAuth : Bool) (event : IdentifiedPdu) (before : StateIds) : Prop :=
  ∃ d t seq stored,
    SettlesTo .outOfFuel (fun fuel => processInner server.ruma server.keys s fuel raw version room
      isCreate relay rejectMissingAuth) (.ok (.inr d)) ∧
    applyAppend s d.cmd = .ok (t, .accepted event.eventId seq) ∧
    t.event[event.eventId]? = some stored ∧
    SettlesTo .outOfFuel (fun fuel => t.resolveGroup fuel room stored.stateGroupAfter)
      (.ok (stateWith event before))

def AfterTip (s : Store) (room : RoomId) (event : IdentifiedPdu) (after : StateIds) (id : EventId)
    (state : StateIds) : Prop :=
  if id = event.eventId then state = after
  else ∃ stored : StoredEvent, s.event[id]? = some stored ∧ Materializes s room stored.stateGroupAfter state

/-- Nothing stands in the way of an event that passed: it merges no forks as a state event, the states
after the remaining extremities resolve, and what it redacts can be read. -/
structure Landable (ruma : Ruma) (s : Store) (version : RoomVersion) (room : RoomId) (isCreate : Bool)
    (event : IdentifiedPdu) (prevGroups : OrdSet Nat) (before : StateIds) : Prop where
  single : isCreate = true ∨ Event.stateKey event = none ∨ prevGroups.size = 1
  tips : (newExtremities s.room[room]? event).size = 1 ∨ ∃ states resolved fuel,
    List.Forall₂ (AfterTip s room event (stateWith event before))
      (newExtremities s.room[room]? event).toList states ∧
    StateRes.resolve ruma version (fetchFor ruma s event) fuel states = .ok resolved
  target : Event.eventType event = "m.room.redaction" → ∀ id (stored : StoredEvent),
    (strProp (Event.content event) "redacts").filter ruma.isEventId = some id →
    s.event[id]? = some stored → stored.rejected = none →
    ∃ target, parseStored ruma id stored = .ok target

section Steps

variable {ruma : Ruma} {s : Store} {fuel : Nat} {version : RoomVersion} {room : RoomId}
  {isCreate : Bool} {event : IdentifiedPdu} {prevGroups : OrdSet Nat} {before after : Held}
  {fetch : EventId → Option IdentifiedPdu} {state : StateIds} {view : OrdMap Key IdentifiedPdu}

theorem stateAfter_stateWith (h : stateAfter s room isCreate event before = .ok after) :
    after.state = stateWith event before.state := by
  unfold stateAfter at h
  unfold stateWith
  cases key : Event.stateKey event with
  | none =>
    simp only [key, Except.ok.injEq] at h
    exact congrArg Held.state h.symm
  | some sk =>
    simp only [key] at h
    split at h
    · exact congrArg Held.state (Except.ok.inj h).symm
    split at h
    · cases h
    split at h <;> exact congrArg Held.state (Except.ok.inj h).symm

theorem size_eq_one {set : OrdSet Nat} : set.size = 1 ↔ ∃ g, set.toList = [g] := by
  rw [← ExtTreeSet.length_toList, List.length_eq_one_iff]

theorem stateBefore_merged (ok : GroupsOk s) (forked : prevGroups.size ≠ 1)
    (h : stateBefore ruma s fuel version room false fetch prevGroups (startAlloc s.room[room]?) =
      .ok before) : s.group[(room, before.group)]? = none := by
  have next : before.group = s.nextGroup room := by
    unfold stateBefore at h
    rw [if_neg Bool.false_ne_true] at h
    split at h
    · rename_i g one
      exact absurd (size_eq_one.2 ⟨g, one⟩) forked
    · simp only [bind_eq_ok, pure_eq_ok] at h
      obtain ⟨sets, -, resolved, -, rfl⟩ := h
      rfl
  cases stored : s.group[(room, before.group)]? with
  | none => rfl
  | some g =>
    have below := ok.lt_nextGroup stored
    omega

theorem stateAfter_iff (ok : GroupsOk s)
    (h : stateBefore ruma s fuel version room isCreate fetch prevGroups (startAlloc s.room[room]?) =
      .ok before) : (∃ after, stateAfter s room isCreate event before = .ok after) ↔
    isCreate = true ∨ Event.stateKey event = none ∨ prevGroups.size = 1 := by
  cases key : Event.stateKey event with
  | none => simp [stateAfter, key]
  | some sk =>
    cases isCreate with
    | true => simp [stateAfter, key]
    | false =>
      by_cases one : prevGroups.size = 1
      · obtain ⟨g, single⟩ := size_eq_one.1 one
        have stored : ∃ held, s.group[(room, before.group)]? = some held := by
          simp only [stateBefore, single, Bool.false_eq_true, if_false, bind_eq_ok, pure_eq_ok] at h
          obtain ⟨state, computed, rfl⟩ := h
          cases materialize_materializes computed with
          | full stored _ => exact ⟨_, stored⟩
          | delta stored _ _ => exact ⟨_, stored⟩
        obtain ⟨held, stored⟩ := stored
        simp only [stateAfter, key, stored, one, Bool.false_eq_true, if_false, or_true, iff_true]
        split <;> exact ⟨_, rfl⟩
      · simp [stateAfter, key, stateBefore_merged ok one h, one]

theorem Standing.materialize (h : Standing ruma s) {group : Nat} {map : StateIds}
    (current : Materializes s room group map) :
    ∃ fuel, materialize ruma s fuel room group = .ok map := by
  obtain ⟨-, fuel, resolved⟩ := current.settles
  have valid : ∀ v ∈ map.vals, ruma.isEventId v = true := by
    intro v hv
    obtain ⟨key, found⟩ := OrdMap.mem_vals.1 hv
    exact h.valid current found
  have resolved : s.resolveGroup fuel room group = .ok map := resolved fuel le_rfl
  refine ⟨fuel, ?_⟩
  simpa [Pipeline.materialize, resolved, ofStore, Except.mapError, pure, Except.pure] using valid

theorem Standing.extremityState_iff (h : Standing ruma s) {id : EventId}
    {map : StateIds} : (∃ fuel, extremityState ruma s fuel room event state id = .ok map) ↔
      AfterTip s room event state id map := by
  unfold extremityState AfterTip
  split
  · simp [eq_comm]
  · cases s.event[id]? with
    | none => simp
    | some stored =>
      simp only [Option.some.injEq, exists_eq_left']
      constructor
      · rintro ⟨fuel, computed⟩
        exact materialize_materializes computed
      · exact h.materialize

theorem Standing.currentState_iff (h : Standing ruma s) {extremities : OrdSet EventId} :
    (∃ fuel current, currentState ruma s fuel version room event fetch extremities after =
      .ok current) ↔ extremities.size = 1 ∨ ∃ states resolved fuel,
        List.Forall₂ (AfterTip s room event after.state) extremities.toList states ∧
        StateRes.resolve ruma version fetch fuel states = .ok resolved := by
  by_cases one : extremities.size = 1
  · simp [currentState, one]
  simp only [currentState, one, if_false, false_or]
  constructor
  · rintro ⟨fuel, current, computed⟩
    obtain ⟨states, hstates, computed⟩ := bind_eq_ok.1 computed
    obtain ⟨resolved, hresolved, -⟩ := bind_eq_ok.1 computed
    rw [ofStateRes, mapError_eq_ok] at hresolved
    refine ⟨states, resolved, fuel, (mapM_forall₂ hstates).imp fun id map found => ?_, hresolved⟩
    exact h.extremityState_iff.1 ⟨fuel, found⟩
  · rintro ⟨states, resolved, m, afterTips, hresolved⟩
    obtain ⟨n, hstates⟩ := Lasting.mapM_answers (fun id =>
      extremityState_lasting ruma s room event after.state id)
      (afterTips.imp fun id map tip => h.extremityState_iff.2 tip)
    have states' := Lasting.mapM _ (fun id =>
      extremityState_lasting ruma s room event after.state id) (le_max_left n m) hstates
    have resolved' := StateRes.resolve_lasting fetch ruma version states (le_max_right n m) hresolved
    refine ⟨max n m, ?_⟩
    simp only [states', resolved', ofStateRes, Except.mapError, ok_bind]
    split <;> exact ⟨_, rfl⟩

theorem senderMayRedact_eq_ok (viewed : stateView version event state fetch = .ok view)
    (notCreate : Event.eventType event ≠ "m.room.create")
    (allowed : Auth.checkStateDependent ruma version event (viewOf view) = .ok ()) :
    ∃ may, senderMayRedact ruma version event state fetch = .ok may := by
  have spec := stateView_spec viewed
  have needed : createKey ∈ neededKeys version event := OrdSet.mem_insert'.2 (.inl rfl)
  have levels : plKey ∈ neededKeys version event :=
    OrdSet.mem_insert'.2 (.inr (Auth.powerLevels_selected notCreate))
  obtain ⟨create, power, admitted⟩ := Auth.checkStateDependent_admitted notCreate allowed
  have created : state[createKey]?.bind fetch = some create :=
    (spec createKey needed).symm.trans admitted.created
  have followed : state[plKey]?.bind fetch = viewOf view "m.room.power_levels" "" :=
    (spec plKey levels).symm
  simp only [senderMayRedact, created, followed, admitted.resolved]
  exact ⟨_, rfl⟩

theorem redactsOf_iff (viewed : stateView version event state fetch = .ok view)
    (allowed : Auth.checkStateDependent ruma version event (viewOf view) = .ok ()) :
    (∃ redacts, redactsOf ruma s version room event state fetch = .ok redacts) ↔
      (Event.eventType event = "m.room.redaction" → ∀ id (stored : StoredEvent),
        (strProp (Event.content event) "redacts").filter ruma.isEventId = some id →
        s.event[id]? = some stored → stored.rejected = none →
        ∃ target, parseStored ruma id stored = .ok target) := by
  unfold redactsOf
  by_cases redaction : Event.eventType event = "m.room.redaction"
  swap
  · simp [redaction]
  obtain ⟨may, hmay⟩ := senderMayRedact_eq_ok viewed (by simp [redaction]) allowed
  simp only [redaction, if_true, forall_const, redactionDirective, hmay]
  cases named : (strProp (Event.content event) "redacts").filter ruma.isEventId with
  | none => simp
  | some id =>
    have only : (∀ id' (stored : StoredEvent), some id = some id' → s.event[id']? = some stored →
          stored.rejected = none → ∃ target, parseStored ruma id' stored = .ok target) ↔
        ∀ stored : StoredEvent, s.event[id]? = some stored → stored.rejected = none →
          ∃ target, parseStored ruma id stored = .ok target := by
      constructor
      · exact fun h stored => h id stored rfl
      · rintro h id' stored same
        obtain rfl := Option.some.inj same
        exact h stored
    rw [only]
    cases held : s.event[id]? with
    | none => simp [held]
    | some stored =>
      simp only [held, Option.some.injEq, forall_eq']
      cases sound : stored.rejected with
      | some reason => simp
      | none =>
        cases parsed : parseStored ruma id stored with
        | error e => simp
        | ok target =>
          simp only [ok_bind]
          split_ifs <;> simp

end Steps

section Landing

variable {server : Server} {s : Store} {raw : JsonObject} {version : RoomVersion} {room : RoomId}
  {isCreate : Bool} {event : IdentifiedPdu} {prevGroups : OrdSet Nat} {before : Held}

theorem contains_eq_false {id : EventId} (absent : s.event[id]? = none) : s.event.contains id = false := by
  rw [OrdMap.contains_eq_false]
  intro mem
  obtain ⟨stored, found⟩ := OrdMap.mem_iff_getElem?.1 mem
  simp [absent] at found

theorem Clears.processInner_eq (h : Clears server s raw version room isCreate event prevGroups before)
    (relay rejectMissingAuth : Bool) : ∃ raw' enough, ∀ fuel, enough ≤ fuel →
    processInner server.ruma server.keys s fuel raw version room isCreate relay rejectMissingAuth = do
      let after ← stateAfter s room isCreate event before
      let current ← currentState server.ruma s fuel version room event (fetchFor server.ruma s event)
        (newExtremities s.room[room]? event) after
      let redacts ← redactsOf server.ruma s version room event before.state
        (fetchFor server.ruma s event)
      return .inr ⟨acceptedCommand version room isCreate relay event raw' after current
        (newExtremities s.room[room]? event) redacts, before.state, after.state⟩ := by
  obtain ⟨raw', vetted, named⟩ := h.vetted
  obtain ⟨enough, held, passed⟩ := h.checked
  obtain ⟨view, viewed, allowed⟩ := h.allowed
  refine ⟨raw', enough, fun fuel le => ?_⟩
  have named : ofFormat (server.ruma.eventId raw' version) = .ok event.eventId :=
    mapError_eq_ok.2 named
  have new := contains_eq_false h.new
  have known : (!isCreate && s.room[room]?.isNone) = false := by
    obtain create | known := h.known
    · simp [create]
    · obtain ⟨m, hm⟩ := Option.isSome_iff_exists.1 known
      simp [hm]
  have prevs := fetchPrevs_lasting s _ le passed.prevs
  have start := stateBefore_lasting server.ruma s room version isCreate _ prevGroups _ le passed.before
  simp only [processInner, vetted, named, new, judge, known, passed.auth, prevs, passed.own, settle,
    start, viewed, allowed, ok_bind, Bool.false_eq_true, if_false, List.isEmpty_nil, Bool.not_true,
    bind_assoc, pure_bind]

theorem Clears.accepts_iff (h : Clears server s raw version room isCreate event prevGroups before)
    (ok : GroupsOk s) (standing : Standing server.ruma s) (relay rejectMissingAuth : Bool) :
    (∃ fuel d, processInner server.ruma server.keys s fuel raw version room isCreate relay
      rejectMissingAuth = .ok (.inr d)) ↔
    Landable server.ruma s version room isCreate event prevGroups before.state := by
  obtain ⟨raw', enough, eq⟩ := h.processInner_eq relay rejectMissingAuth
  obtain ⟨fuel₀, held, passed⟩ := h.checked
  obtain ⟨view, viewed, allowed⟩ := h.allowed
  have single : (∃ after, stateAfter s room isCreate event before = .ok after) ↔ _ :=
    stateAfter_iff ok passed.before
  have target : (∃ redacts, redactsOf server.ruma s version room event before.state _ = .ok redacts) ↔ _ :=
    redactsOf_iff viewed allowed
  constructor
  · rintro ⟨fuel, d, accepted⟩
    have accepted := (eq _ (le_max_right fuel enough)).symm.trans (processInner_lasting _ s room _ raw
      version isCreate relay rejectMissingAuth (le_max_left fuel enough) accepted)
    obtain ⟨after, hafter, accepted⟩ := bind_eq_ok.1 accepted
    obtain ⟨current, hcurrent, accepted⟩ := bind_eq_ok.1 accepted
    obtain ⟨redacts, hredacts, -⟩ := bind_eq_ok.1 accepted
    have tips := standing.currentState_iff.1 ⟨_, current, hcurrent⟩
    rw [stateAfter_stateWith hafter] at tips
    exact ⟨single.1 ⟨after, hafter⟩, tips, target.1 ⟨redacts, hredacts⟩⟩
  · rintro landable
    obtain ⟨after, hafter⟩ := single.2 landable.single
    obtain ⟨redacts, hredacts⟩ := target.2 landable.target
    have tips := landable.tips
    rw [← stateAfter_stateWith hafter] at tips
    obtain ⟨fuel, current, hcurrent⟩ := standing.currentState_iff.2 tips
    have hcurrent := currentState_lasting server.ruma s room version event _ _ after
      (le_max_left fuel enough) hcurrent
    refine ⟨max fuel enough, ⟨acceptedCommand version room isCreate relay event raw' after current
      (newExtremities s.room[room]? event) redacts, before.state, after.state⟩, ?_⟩
    rw [eq _ (le_max_right fuel enough)]
    simp only [hafter, hcurrent, hredacts, ok_bind]
    rfl

theorem Clears.decision (h : Clears server s raw version room isCreate event prevGroups before)
    {relay rejectMissingAuth : Bool} {fuel : Nat} {d : Decision}
    (accepted : processInner server.ruma server.keys s fuel raw version room isCreate relay
      rejectMissingAuth = .ok (.inr d)) :
    d.cmd.rejected = none ∧ d.cmd.eventId = event.eventId ∧ d.cmd.roomId = room ∧
      (d.cmd.createVersion.isSome ↔ isCreate = true) ∧ d.after = stateWith event before.state := by
  obtain ⟨raw', enough, eq⟩ := h.processInner_eq relay rejectMissingAuth
  have accepted := (eq _ (le_max_right fuel enough)).symm.trans (processInner_lasting _ s room _ raw
    version isCreate relay rejectMissingAuth (le_max_left fuel enough) accepted)
  obtain ⟨after, hafter, accepted⟩ := bind_eq_ok.1 accepted
  obtain ⟨current, -, accepted⟩ := bind_eq_ok.1 accepted
  obtain ⟨redacts, -, accepted⟩ := bind_eq_ok.1 accepted
  obtain rfl := Sum.inr.inj (pure_eq_ok.1 accepted)
  exact ⟨rfl, rfl, rfl, by cases isCreate <;> simp [acceptedCommand], stateAfter_stateWith hafter⟩

/-- **What an event that passes both checks comes to.** In every store that a lawful server reaches, it
is let in with the group of the state after it exactly if it merges no forks as a state event, the
states after the room's remaining extremities resolve, and the event that it redacts can be read. -/
theorem lands_iff (run : Runs (LawfulIn server.ruma) Store.empty s) (lawful : server.Lawful)
    (h : Clears server s raw version room isCreate event prevGroups before)
    (relay rejectMissingAuth : Bool) :
    Lands server s raw version room isCreate relay rejectMissingAuth event before.state ↔
      Landable server.ruma s version room isCreate event prevGroups before.state := by
  have ok : GroupsOk s := (run_groups_ok (run.mono fun _ _ => LawfulIn.serialIn) (.refl : Runs _ s s)).1
  have standing := run_standing run
  rw [← h.accepts_iff ok standing relay rejectMissingAuth]
  constructor
  · rintro ⟨d, -, -, -, ⟨-, fuel, settled⟩, -⟩
    exact ⟨fuel, d, settled fuel le_rfl⟩
  · rintro ⟨fuel, d, decided⟩
    obtain ⟨accepted, named, placed, version', after⟩ := h.decision decided
    have absent : s.event[d.cmd.eventId]? = none := named ▸ h.new
    obtain ⟨m, hm⟩ : ∃ m, Machine.acceptedMeta s d.cmd = .ok m := by
      unfold Machine.acceptedMeta
      cases created : d.cmd.createVersion with
      | some v => exact ⟨_, rfl⟩
      | none =>
        obtain create | known := h.known
        · simp [created, create] at version'
        · obtain ⟨m, hm⟩ := Option.isSome_iff_exists.1 known
          simp [placed, hm]
    obtain ⟨t, seq, applied⟩ : ∃ t seq, Machine.applyAccepted s d.cmd = .ok (t, seq) := by
      have later : Machine.acceptedMeta _ d.cmd = .ok m := hm
      simp only [Machine.applyAccepted, bind_eq_ok]
      exact ⟨_, _, m, later, rfl⟩
    have appended := Machine.applyAccepted_spec applied
    obtain ⟨raw', pdu, id, vetted, identified, -, -, judged⟩ := processInner_cases decided
    obtain ⟨fresh, -, -⟩ := judged.fresh
    have group := appended.group
    rw [placed] at group
    have stored := GroupsOk.stored_putGroups fresh.nodup group
    have le := ok.le_put fresh group
    have keyed : isCreate = true → (Event.stateKey (⟨id, pdu⟩ : IdentifiedPdu)).isSome := by
      rintro rfl
      exact h.routed.create_keyed lawful vetted
    have materializes := judged.materializes (fun _ => le _) keyed accepted stored
    rw [after] at materializes
    refine ⟨d, t, seq, Machine.acceptedRecord d.cmd (s.seq + 1), ?_, ?_, ?_, materializes.settles⟩
    · exact (processInner_lasting _ s room _ raw version isCreate relay rejectMissingAuth).settlesTo
        decided
    · simp only [applyAppend, contains_eq_false absent, accepted, applied, ok_bind,
        Bool.false_eq_true, if_false]
      rw [named]
      rfl
    · rw [appended.event, named]
      simp

/-! ## A merge of forks -/

/-- Both checks on an event that the server ingests, and what they read: the event, the groups of its
prev events, and the state before it. -/
def cleared (server : Server) (s : Store) (fuel : Nat) (raw : JsonObject) :
    Option ((RoomVersion × RoomId × Bool) × IdentifiedPdu × OrdSet Nat × Held) := do
  let (version, room, isCreate) ← (classify server.ruma s raw).toOption
  let (raw', pdu) ← (vet server.ruma server.keys version raw).toOption
  let id ← (server.ruma.eventId raw' version).toOption
  let event : IdentifiedPdu := ⟨id, pdu⟩
  let (held, missingAuth) ← (fetchAuth server.ruma s (Event.authEvents event)).toOption
  let (prevGroups, missing) ← (fetchPrevs s fuel (Event.prevEvents event)).toOption
  let () ← ((checkOwnAuth server.ruma s version s.room[room]? isCreate event held).toOption.bind
    Except.toOption)
  let before ← (stateBefore server.ruma s fuel version room isCreate (fetchFor server.ruma s event)
    prevGroups (startAlloc s.room[room]?)).toOption
  let view ← (stateView version event before.state (fetchFor server.ruma s event)).toOption
  let () ← (Auth.checkStateDependent server.ruma version event (viewOf view)).toOption
  if s.event[id]?.isNone && (isCreate || s.room[room]?.isSome) && missingAuth.isEmpty &&
      missing.isEmpty then
    some ((version, room, isCreate), event, prevGroups, before)
  else none

theorem clears_of_cleared {fuel : Nat} (h : cleared server s fuel raw =
    some ((version, room, isCreate), event, prevGroups, before)) :
    Clears server s raw version room isCreate event prevGroups before := by
  simp only [cleared, Option.bind_eq_bind, Option.bind_eq_some_iff, toOption_eq_some] at h
  obtain ⟨⟨version', room', create'⟩, classified, ⟨raw', pdu⟩, vetted, id, named, ⟨held, missingAuth⟩,
    auth, ⟨groups, missing⟩, prevs, _, ⟨_, own, passed⟩, start, hstart, view, viewed, _, allowed, h⟩ := h
  split at h
  swap
  · cases h
  rename_i conditions
  simp only [Bool.and_eq_true, Option.isNone_iff_eq_none, Bool.or_eq_true, List.isEmpty_iff] at conditions
  obtain ⟨⟨⟨new, known⟩, rfl⟩, rfl⟩ := conditions
  simp only [Option.some.injEq, Prod.mk.injEq] at h
  obtain ⟨⟨rfl, rfl, rfl⟩, rfl, rfl, rfl⟩ := h
  exact ⟨.ingested classified, ⟨raw', vetted, named⟩, new, known,
    ⟨fuel, held, auth, prevs, passed ▸ own, hstart⟩, view, viewed, allowed⟩

def sampleStateEvent (hash eventType : String) (prevEvents : List EventId) (depth : Nat) : JsonObject :=
  Ruma.samplePdu hash eventType (some "") "@a:x" [] ["$c", "$j"] prevEvents depth

/-- A topic right after the creator's join. -/
theorem lands_iff_topic : ∃ s event before, Runs (LawfulIn Ruma.sample) Store.empty s ∧
    Lands (Server.sample ["x"]) s (sampleStateEvent "t" "m.room.topic" ["$j"] 3) .v11 "!r:x" false false
      false event before := by
  obtain ⟨s, run, hp⟩ := exists_lawful_run [.ingest Ruma.sampleCreate false, .ingest Ruma.sampleJoin false]
    (fun s => (cleared (Server.sample ["x"]) s 9 (sampleStateEvent "t" "m.room.topic" ["$j"] 3)).any
      fun c => c.1 == (.v11, "!r:x", false) && c.2.1.pdu.eventType == "m.room.topic" &&
        c.2.2.1.size == 1 && (newExtremities s.room["!r:x"]? c.2.1).size == 1) (by decide +kernel)
  obtain ⟨⟨key, event, prevGroups, before⟩, hcleared, hp⟩ := (Option.any_eq_true _ _).1 hp
  simp only [Bool.and_eq_true, beq_iff_eq] at hp
  obtain ⟨⟨⟨rfl, type⟩, single⟩, sole⟩ := hp
  refine ⟨s, event, before.state, run, (lands_iff run (Server.sample_lawful ["x"])
    (clears_of_cleared hcleared) false false).2 ⟨.inr (.inr single), .inl sole, fun redaction => ?_⟩⟩
  exact absurd (redaction.symm.trans type) (by decide)

/-- Two state events by the creator fork the room. A third one that merges the forks passes both checks,
and the pipeline refuses to process it, however it is called. -/
theorem merging_topic_lost : ∃ s event prevGroups before,
    Runs (LawfulIn Ruma.sample) Store.empty s ∧
    Clears (Server.sample ["x"]) s (sampleStateEvent "u" "m.room.topic" ["$n", "$t"] 4) .v11 "!r:x" false
      event prevGroups before ∧
    ∀ relay rejectMissingAuth, ¬Lands (Server.sample ["x"]) s
      (sampleStateEvent "u" "m.room.topic" ["$n", "$t"] 4) .v11 "!r:x" false relay rejectMissingAuth event
      before.state := by
  obtain ⟨s, run, hp⟩ := exists_lawful_run [.ingest Ruma.sampleCreate false, .ingest Ruma.sampleJoin false,
      .ingest (sampleStateEvent "t" "m.room.topic" ["$j"] 3) false,
      .ingest (sampleStateEvent "n" "m.room.name" ["$j"] 3) false]
    (fun s => (cleared (Server.sample ["x"]) s 9 (sampleStateEvent "u" "m.room.topic" ["$n", "$t"] 4)).any
      fun c => c.1 == (.v11, "!r:x", false) && c.2.1.pdu.stateKey == some "" && c.2.2.1.size == 2)
    (by decide +kernel)
  obtain ⟨⟨key, event, prevGroups, before⟩, hcleared, hp⟩ := (Option.any_eq_true _ _).1 hp
  simp only [Bool.and_eq_true, beq_iff_eq] at hp
  obtain ⟨⟨rfl, keyed⟩, forked⟩ := hp
  have clears := clears_of_cleared hcleared
  refine ⟨s, event, prevGroups, before, run, clears, fun relay rejectMissingAuth lands => ?_⟩
  obtain ⟨d, -, -, -, ⟨-, fuel, settled⟩, -⟩ := lands
  have ok : GroupsOk s := (run_groups_ok (run.mono fun _ _ => LawfulIn.serialIn) (.refl : Runs _ s s)).1
  have landable := (clears.accepts_iff ok (run_standing run) relay rejectMissingAuth).1
    ⟨fuel, d, settled fuel le_rfl⟩
  obtain create | message | single := landable.single
  · cases create
  · exact absurd (message.symm.trans keyed) (by simp)
  · omega

end Landing

end Saltator.Room
