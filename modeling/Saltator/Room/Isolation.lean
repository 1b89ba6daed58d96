import Saltator.Core.Fetch
import Saltator.Room.Rejection

/-!
# What an event's fate depends on

A shard holds many rooms, and its stored events are looked up by id alone. The pipeline is run for an
event of one room, but an id that it looks up may belong to an event of another room of the shard,
whose state group number then stands for a group of this room.

`Consults` says what a run looks up, stage by stage: each stage is reached when the ones before it came
through. Where none of it is held as an event of another room, the run depends on the room's own rows
only. An accepted event that names an event of another room depends on that row.
-/

namespace Saltator.Room

open Std
open Saltator.Outcome
open Pipeline
open StateRes (Key StateIds ValueOf createKey plKey)

/-! ## Rows of a room -/

def OfRoom (room : RoomId) (id : EventId) (stored : StoredEvent) : Prop :=
  match strProp stored.raw "room_id" with
  | some r => r = room
  | none => id = "$" ++ withoutSigil room

instance (room : RoomId) (id : EventId) (stored : StoredEvent) :
    Decidable (OfRoom room id stored) := by
  unfold OfRoom
  split <;> infer_instance

def Store.Foreign (s : Store) (room : RoomId) (id : EventId) : Prop :=
  ∃ stored, s.event[id]? = some stored ∧ ¬ OfRoom room id stored

structure AgreeOn (room : RoomId) (s s' : Store) : Prop where
  event : ∀ id stored, OfRoom room id stored → (s.event[id]? = some stored ↔ s'.event[id]? = some stored)
  group : ∀ group : Nat, s.group[(room, group)]? = s'.group[(room, group)]?
  room : s.room[room]? = s'.room[room]?

variable {room : RoomId}

theorem AgreeOn.row {s s' : Store} (h : AgreeOn room s s') {id : EventId}
    (own : ¬ s.Foreign room id) (own' : ¬ s'.Foreign room id) : s.event[id]? = s'.event[id]? := by
  cases held : s.event[id]? with
  | some stored =>
    have ours : OfRoom room id stored := by_contra fun other => own ⟨stored, held, other⟩
    exact ((h.event id stored ours).1 held).symm
  | none =>
    cases held' : s'.event[id]? with
    | none => rfl
    | some stored =>
      have ours : OfRoom room id stored := by_contra fun other => own' ⟨stored, held', other⟩
      exact absurd ((h.event id stored ours).2 held') (by simp [held])

/-! ## What a run looks up -/

inductive Walked (s : Store) (prevs : List EventId) : Nat → EventId → Prop
  | prev {id : EventId} (h : id ∈ prevs) : Walked s prevs 0 id
  | behind {depth : Nat} {id p : EventId} {stored : StoredEvent} (h : Walked s prevs depth id)
      (held : s.event[id]? = some stored) (groupless : stored.stateGroupAfter = 0) (near : depth ≤ 8)
      (hp : p ∈ prevEventIds stored.raw) : Walked s prevs (depth + 1) p

/-- What the resolution of states fetches: what they map, and whatever it looks up for these. -/
inductive Fetched (ruma : Ruma) (s : Store) (version : RoomVersion) (event : IdentifiedPdu)
    (sets : List StateIds) : EventId → Prop
  | value {id : EventId} (h : ValueOf sets id) : Fetched ruma s version event sets id
  | cited {id a : EventId} {e : IdentifiedPdu} (h : Fetched ruma s version event sets id)
      (held : fetchFor ruma s event id = some e) (ha : a ∈ Event.authEvents e) :
      Fetched ruma s version event sets a
  | founder {id : EventId} {e : IdentifiedPdu} {r : RoomId}
      (h : Fetched ruma s version event sets id) (held : fetchFor ruma s event id = some e)
      (hroom : Event.roomId e = some r) (named : version.roomIdIsCreateEventId) :
      Fetched ruma s version event sets ("$" ++ withoutSigil r)

inductive Resolves (ruma : Ruma) (s : Store) (version : RoomVersion) (event : IdentifiedPdu)
    (sets : List StateIds) (id : EventId) : Prop
  | fetched (conflict : ¬ (StateRes.partition sets).2.isEmpty) (h : Fetched ruma s version event sets id)

/-- What the event itself refers to. -/
inductive Names (ruma : Ruma) (event : IdentifiedPdu) : EventId → Prop
  | auth {id : EventId} (h : id ∈ Event.authEvents event) : Names ruma event id
  | prev {id : EventId} (h : id ∈ Event.prevEvents event) : Names ruma event id
  | redacts {id : EventId} (redaction : Event.eventType event = "m.room.redaction")
      (h : strProp (Event.content event) "redacts" = some id) (valid : ruma.isEventId id) :
      Names ruma event id

section Stages

variable (ruma : Ruma) (s : Store) (fuel : Nat) (version : RoomVersion) (room : RoomId) (isCreate : Bool)
  (event : IdentifiedPdu)

/-- What is looked up for an event that the rules pass: its room's forward extremities where there are
several of them, what their resolution fetches, and for a redaction its target and the power levels. -/
inductive Concludes (before after : Held) : EventId → Prop
  | extremity {id : EventId} (fork : (newExtremities s.room[room]? event).size ≠ 1)
      (h : id ∈ newExtremities s.room[room]? event) (other : id ≠ event.eventId) : Concludes before after id
  | current {id : EventId} {sets : List StateIds} (fork : (newExtremities s.room[room]? event).size ≠ 1)
      (states : (newExtremities s.room[room]? event).toList.mapM
        (extremityState ruma s fuel room event after.state) = .ok sets)
      (h : Resolves ruma s version event sets id) : Concludes before after id
  | target {id : EventId} (redaction : Event.eventType event = "m.room.redaction")
      (h : strProp (Event.content event) "redacts" = some id) (valid : ruma.isEventId id) :
      Concludes before after id
  | power {key : Key} {id : EventId} (redaction : Event.eventType event = "m.room.redaction")
      (read : key = createKey ∨ key = plKey) (h : before.state[key]? = some id) : Concludes before after id

/-- What is looked up for an event that passed the checks against its own auth events: what the
resolution of the states before it fetches, and what the rules need of the state. -/
inductive Settles (prevGroups : OrdSet Nat) : EventId → Prop
  | before {id : EventId} {sets : List StateIds} (joined : isCreate = false)
      (fork : ∀ g, prevGroups.toList ≠ [g])
      (states : prevGroups.toList.mapM (materialize ruma s fuel room) = .ok sets)
      (h : Resolves ruma s version event sets id) : Settles prevGroups id
  | view {before : Held} {key : Key} {id : EventId}
      (hbefore : stateBefore ruma s fuel version room isCreate (fetchFor ruma s event) prevGroups
        (startAlloc s.room[room]?) = .ok before)
      (needed : key ∈ StateRes.neededKeys version event) (h : before.state[key]? = some id) :
      Settles prevGroups id
  | passed {before after : Held} {view : OrdMap Key IdentifiedPdu} {id : EventId}
      (hbefore : stateBefore ruma s fuel version room isCreate (fetchFor ruma s event) prevGroups
        (startAlloc s.room[room]?) = .ok before)
      (hview : stateView version event before.state (fetchFor ruma s event) = .ok view)
      (rules : Auth.checkStateDependent ruma version event (viewOf view) = .ok ())
      (hafter : stateAfter s room isCreate event before = .ok after)
      (h : Concludes ruma s fuel version room event before after id) : Settles prevGroups id

/-- What a run looks up for an event that is not held yet. -/
inductive Judges : EventId → Prop
  | auth {id : EventId} (known : isCreate ∨ (s.room[room]?).isSome) (h : id ∈ Event.authEvents event) :
      Judges id
  | walked {auth : List (IdentifiedPdu × Bool) × List EventId} {depth : Nat} {id : EventId}
      (known : isCreate ∨ (s.room[room]?).isSome)
      (hauth : fetchAuth ruma s (Event.authEvents event) = .ok auth)
      (h : Walked s (Event.prevEvents event) depth id) : Judges id
  | create {held : List (IdentifiedPdu × Bool)} {prevGroups : OrdSet Nat} {m : RoomMeta}
      (hauth : fetchAuth ruma s (Event.authEvents event) = .ok (held, []))
      (hprevs : fetchPrevs s fuel (Event.prevEvents event) = .ok (prevGroups, []))
      (structural : Auth.checkAuthEvents version event (held.map fun (e, rejected) => ⟨e, rejected⟩) = .ok ())
      (known : s.room[room]? = some m) (joined : isCreate = false)
      (implicit : version.createEventInAuthEvents = false) : Judges m.createEventId
  | settles {held : List (IdentifiedPdu × Bool)} {prevGroups : OrdSet Nat} {id : EventId}
      (hauth : fetchAuth ruma s (Event.authEvents event) = .ok (held, []))
      (hprevs : fetchPrevs s fuel (Event.prevEvents event) = .ok (prevGroups, []))
      (hown : checkOwnAuth ruma s version s.room[room]? isCreate event held = .ok (.ok ()))
      (h : Settles ruma s fuel version room isCreate event prevGroups id) : Judges id

/-- What a run for the event looks up among the shard's events. -/
inductive Consults : EventId → Prop
  | own : Consults event.eventId
  | judges {id : EventId} (absent : s.event.contains event.eventId = false)
      (h : Judges ruma s fuel version room isCreate event id) : Consults id

end Stages

/-! ## Runs on two stores -/

section Same

variable {ruma : Ruma} {s s' : Store} {fuel : Nat} {version : RoomVersion} {room : RoomId}
  {isCreate relay rejectMissingAuth : Bool} {event : IdentifiedPdu} {raw : JsonObject}
  {ids : List EventId} {prevs : List EventId} {held : List (IdentifiedPdu × Bool)}

theorem fetchAuth_same (rows : ∀ id ∈ ids, s.event[id]? = s'.event[id]?) :
    fetchAuth ruma s ids = fetchAuth ruma s' ids :=
  foldlM_eq_foldlM (I := fun _ => True) (fun id hid _ _ => by simp only [rows id hid])
    (fun _ _ _ _ _ _ => trivial) trivial

theorem visitPrev_same {depth : Nat} {w : BehindWalk} (rows : ∀ id ∈ ids, s.event[id]? = s'.event[id]?) :
    ids.foldl (visitPrev s depth) w = ids.foldl (visitPrev s' depth) w := by
  induction ids generalizing w with
  | nil => rfl
  | cons id ids ih =>
    have head : visitPrev s depth w id = visitPrev s' depth w id := by
      simp only [visitPrev, rows id List.mem_cons_self]
    rw [List.foldl_cons, List.foldl_cons, head]
    exact ih fun a ha => rows a (List.mem_cons_of_mem _ ha)

def WaitsBehind (s : Store) (prevs : List EventId) (w : BehindWalk) : Prop :=
  ∀ n ∈ w.queue, Walked s prevs n.2 n.1 ∧
    ∀ stored : StoredEvent, s.event[n.1]? = some stored → stored.stateGroupAfter = 0

theorem WaitsBehind.visit {depth : Nat} {w : BehindWalk}
    (h : WaitsBehind s prevs w) (walked : ∀ id ∈ ids, Walked s prevs (depth + 1) id) :
    WaitsBehind s prevs (ids.foldl (visitPrev s depth) w) := by
  refine List.foldlRecOn (motive := WaitsBehind s prevs) _ _ h fun w inv id hid => ?_
  unfold visitPrev
  split
  · rename_i stored held
    split
    · exact inv
    · rename_i groupless
      intro n hn
      rcases List.mem_cons.1 hn with rfl | hn
      · refine ⟨walked id hid, fun stored' held' => ?_⟩
        obtain rfl := some_unique held held'
        exact not_not.1 groupless
      · exact inv n hn
  · exact inv

theorem WaitsBehind.step {w w' : BehindWalk} (h : WaitsBehind s prevs w)
    (hround : behindRound s w = .ok (.inl w')) : WaitsBehind s prevs w' := by
  obtain ⟨queue, seen, groups⟩ := w
  cases queue with
  | nil => simp [behindRound] at hround
  | cons n queue =>
    obtain ⟨id, depth⟩ := n
    have rest : WaitsBehind s prevs ⟨queue, seen, groups⟩ := fun n hn =>
      h n (List.mem_cons_of_mem _ hn)
    obtain ⟨walked, groupless⟩ := h (id, depth) List.mem_cons_self
    simp only [behindRound] at hround
    split at hround
    · exact Sum.inl.inj (Except.ok.inj hround) ▸ rest
    rename_i near
    split at hround
    · exact Sum.inl.inj (Except.ok.inj hround) ▸ rest
    split at hround
    · exact Sum.inl.inj (Except.ok.inj hround) ▸ rest
    · rename_i stored held
      obtain rfl := Sum.inl.inj (Except.ok.inj hround)
      exact WaitsBehind.visit (w := ⟨queue, seen.insert id, groups⟩) rest fun p hp =>
        .behind walked held (groupless stored held) (Nat.le_of_not_lt near) hp

theorem groupsBehindRejected_same {id : EventId} {stored : StoredEvent}
    (rows : ∀ depth a, Walked s prevs depth a → s.event[a]? = s'.event[a]?) (walked : Walked s prevs 0 id)
    (held : s.event[id]? = some stored) (groupless : stored.stateGroupAfter = 0) :
    groupsBehindRejected s fuel id = groupsBehindRejected s' fuel id := by
  refine Loop.run_eq_run (I := WaitsBehind s prevs) (fun w inv => ?_) (fun _ _ inv => inv.step) fuel _ ?_
  · obtain ⟨queue, seen, groups⟩ := w
    cases queue with
    | nil => rfl
    | cons n queue =>
      obtain ⟨walked, groupless⟩ := inv n List.mem_cons_self
      simp only [behindRound, ← rows n.2 n.1 walked]
      split
      · rfl
      rename_i near
      cases held : s.event[n.1]? with
      | none => rfl
      | some stored =>
        simp only [visitPrev_same fun p hp =>
          rows _ p (.behind walked held (groupless stored held) (Nat.le_of_not_lt near) hp)]
  · intro n hn
    obtain rfl := List.mem_singleton.1 hn
    refine ⟨walked, fun stored' held' => ?_⟩
    obtain rfl := some_unique held held'
    exact groupless

theorem fetchPrevs_same (rows : ∀ depth a, Walked s ids depth a → s.event[a]? = s'.event[a]?) :
    fetchPrevs s fuel ids = fetchPrevs s' fuel ids := by
  refine foldlM_eq_foldlM (I := fun _ => True) (fun id hid acc _ => ?_) (fun _ _ _ _ _ _ => trivial) trivial
  have walked : Walked s ids 0 id := .prev hid
  simp only [← rows 0 id walked]
  cases held : s.event[id]? with
  | none => rfl
  | some stored =>
    by_cases groupless : stored.stateGroupAfter = 0
    · have behind : groupsBehindRejected s fuel id = groupsBehindRejected s' fuel id :=
        groupsBehindRejected_same rows walked held groupless
      simp only [if_pos groupless, behind]
    · simp only [if_neg groupless]

theorem materialize_same (agree : AgreeOn room s s') (group : Nat) :
    materialize ruma s fuel room group = materialize ruma s' fuel room group := by
  have walk : Store.groupRound s room = Store.groupRound s' room := by
    funext w
    obtain ⟨next, chain⟩ := w
    cases next with
    | none => rfl
    | some id => simp only [Store.groupRound, agree.group id]
  simp only [materialize, Store.resolveGroup, walk]

theorem fetchFor_same {sets : List StateIds}
    (rows : ∀ a, Fetched ruma s version event sets a → s.event[a]? = s'.event[a]?) :
    StateRes.SameOn version (Fetched ruma s version event sets) (fetchFor ruma s event)
      (fetchFor ruma s' event) where
  same a ha := by simp only [fetchFor, rows a ha]
  pass _ _ h held _ ha := .cited h held ha
  founder _ _ _ h held hroom named := by simp only [fetchFor, rows _ (.founder h held hroom named)]

theorem resolve_same {sets : List StateIds}
    (rows : ∀ a, Resolves ruma s version event sets a → s.event[a]? = s'.event[a]?) :
    StateRes.resolve ruma version (fetchFor ruma s event) fuel sets =
      StateRes.resolve ruma version (fetchFor ruma s' event) fuel sets := by
  by_cases agree : (StateRes.partition sets).2.isEmpty = true
  · simp only [StateRes.resolve, agree, if_true]
  · exact (fetchFor_same fun a h => rows a (.fetched agree h)).resolve fun _ => .value

/-! ### The pipeline -/

theorem checkOwnAuth_same (agree : AgreeOn room s s')
    (create : ∀ m, Auth.checkAuthEvents version event (held.map fun (e, rejected) => ⟨e, rejected⟩) = .ok () →
      s.room[room]? = some m → isCreate = false → version.createEventInAuthEvents = false →
        s.event[m.createEventId]? = s'.event[m.createEventId]?) :
    checkOwnAuth ruma s version s.room[room]? isCreate event held =
      checkOwnAuth ruma s' version s'.room[room]? isCreate event held := by
  rw [← agree.room]
  unfold checkOwnAuth
  split
  · rfl
  · rename_i structural
    have state : authState ruma s version s.room[room]? isCreate held =
        authState ruma s' version s.room[room]? isCreate held := by
      unfold authState
      split
      · rename_i implicit
        simp only [Bool.and_eq_true, Bool.not_eq_true'] at implicit
        cases known : s.room[room]? with
        | none => rfl
        | some m => simp only [create m structural known implicit.1 implicit.2]
      · rfl
    rw [state]

section Settled

variable (agree : AgreeOn room s s') {prevGroups : OrdSet Nat} {before after : Held}
include agree

theorem stateBefore_same {alloc : Alloc}
    (rows : ∀ sets a, isCreate = false → (∀ g, prevGroups.toList ≠ [g]) →
      prevGroups.toList.mapM (materialize ruma s fuel room) = .ok sets →
      Resolves ruma s version event sets a → s.event[a]? = s'.event[a]?) :
    stateBefore ruma s fuel version room isCreate (fetchFor ruma s event) prevGroups alloc =
      stateBefore ruma s' fuel version room isCreate (fetchFor ruma s' event) prevGroups alloc := by
  unfold stateBefore
  split
  · rfl
  rename_i joined
  split
  · rw [materialize_same agree]
  · rename_i fork
    refine bind_eq_bind (mapM_eq_mapM fun g _ => materialize_same agree g) fun sets hsets => ?_
    rw [resolve_same fun a => rows sets a (by simpa using joined) fork hsets]

omit agree in
theorem stateView_same {state : StateIds}
    (rows : ∀ key ∈ StateRes.neededKeys version event, ∀ v, state[key]? = some v →
      s.event[v]? = s'.event[v]?) :
    stateView version event state (fetchFor ruma s event) =
      stateView version event state (fetchFor ruma s' event) := by
  refine foldlM_eq_foldlM (I := fun _ => True) (fun key needed _ _ => ?_) (fun _ _ _ _ _ _ => trivial) trivial
  cases hv : state[key]? with
  | none => rfl
  | some v => simp only [fetchFor, rows key (OrdSet.mem_toList'.1 needed) v hv]

theorem stateAfter_same :
    stateAfter s room isCreate event before = stateAfter s' room isCreate event before := by
  simp only [stateAfter, agree.group]

variable (rows : ∀ a, Concludes ruma s fuel version room event before after a → s.event[a]? = s'.event[a]?)
include rows

theorem currentState_same :
    currentState ruma s fuel version room event (fetchFor ruma s event)
        (newExtremities s.room[room]? event) after =
      currentState ruma s' fuel version room event (fetchFor ruma s' event)
        (newExtremities s.room[room]? event) after := by
  unfold currentState
  split
  · rfl
  · rename_i fork
    refine bind_eq_bind (mapM_eq_mapM fun id hid => ?_) fun sets hsets => ?_
    · unfold extremityState
      split
      · rfl
      · rename_i other
        rw [rows id (.extremity fork (OrdSet.mem_toList'.1 hid) other)]
        simp only [materialize_same agree]
    · rw [resolve_same fun a h => rows a (.current fork hsets h)]

omit agree in
theorem redactsOf_same :
    redactsOf ruma s version room event before.state (fetchFor ruma s event) =
      redactsOf ruma s' version room event before.state (fetchFor ruma s' event) := by
  unfold redactsOf
  split
  · rename_i redaction
    have fetched (key : Key) (read : key = createKey ∨ key = plKey) :
        before.state[key]?.bind (fetchFor ruma s event) = before.state[key]?.bind (fetchFor ruma s' event) := by
      cases hv : before.state[key]? with
      | none => rfl
      | some v => simp only [Option.bind_some, fetchFor, rows v (.power redaction read hv)]
    have power : senderMayRedact ruma version event before.state (fetchFor ruma s event) =
        senderMayRedact ruma version event before.state (fetchFor ruma s' event) := by
      simp only [senderMayRedact, fetched createKey (.inl rfl), fetched plKey (.inr rfl)]
    unfold redactionDirective
    cases hid : (strProp (Event.content event) "redacts").filter ruma.isEventId with
    | none => rfl
    | some id =>
      obtain ⟨hid, valid⟩ := Option.filter_eq_some_iff.1 hid
      simp only [rows id (.target redaction hid valid), power]
  · rfl

omit rows in
theorem settle_same (rows : ∀ a, Settles ruma s fuel version room isCreate event prevGroups a →
      s.event[a]? = s'.event[a]?) :
    settle ruma s fuel version room isCreate relay event raw prevGroups =
      settle ruma s' fuel version room isCreate relay event raw prevGroups := by
  have metadata : s'.room[room]? = s.room[room]? := agree.room.symm
  simp only [settle, metadata]
  refine bind_eq_bind (stateBefore_same agree fun sets a joined fork states h =>
    rows a (.before joined fork states h)) fun before hbefore => ?_
  refine bind_eq_bind (stateView_same fun key needed v hv => rows v (.view hbefore needed hv))
    fun view hview => ?_
  split
  · rfl
  · rename_i rules
    refine bind_eq_bind (stateAfter_same agree) fun after hafter => ?_
    have finishes (a : EventId) (h : Concludes ruma s fuel version room event before after a) :=
      rows a (.passed hbefore hview rules hafter h)
    refine bind_eq_bind (currentState_same agree finishes) fun current _ => ?_
    rw [redactsOf_same finishes]

omit rows in
theorem judge_same
    (rows : ∀ a, Judges ruma s fuel version room isCreate event a → s.event[a]? = s'.event[a]?) :
    judge ruma s fuel version room isCreate relay rejectMissingAuth event raw =
      judge ruma s' fuel version room isCreate relay rejectMissingAuth event raw := by
  have metadata : s'.room[room]? = s.room[room]? := agree.room.symm
  simp only [judge, metadata]
  split
  · rfl
  rename_i here
  have known : isCreate ∨ (s.room[room]?).isSome := by
    cases hroom : s.room[room]? with
    | none => exact .inl (by simpa [hroom] using here)
    | some m => exact .inr rfl
  refine bind_eq_bind (fetchAuth_same fun id hid => rows id (.auth known hid)) ?_
  rintro ⟨held, missingAuth⟩ hauth
  refine bind_eq_bind (fetchPrevs_same fun depth id hid => rows id (.walked known hauth hid)) ?_
  rintro ⟨prevGroups, missing⟩ hprevs
  dsimp only
  by_cases hmissing : (!missing.isEmpty) = true
  · simp only [if_pos hmissing]
  by_cases hmissingAuth : (!missingAuth.isEmpty) = true
  · simp only [if_neg hmissing, if_pos hmissingAuth]
  simp only [if_neg hmissing, if_neg hmissingAuth]
  obtain rfl : missing = [] := by simpa using hmissing
  obtain rfl : missingAuth = [] := by simpa using hmissingAuth
  have own : checkOwnAuth ruma s version s.room[room]? isCreate event held =
      checkOwnAuth ruma s' version s.room[room]? isCreate event held := by
    rw [checkOwnAuth_same agree fun m structural known joined implicit =>
      rows _ (.create hauth hprevs structural known joined implicit), metadata]
  refine bind_eq_bind own fun verdict hown => ?_
  cases verdict with
  | error r => rfl
  | ok u => exact settle_same agree fun a h => rows a (.settles hauth hprevs hown h)

end Settled

end Same

/-! ## Dependence on another room -/

def Store.forget (s : Store) (id : EventId) : Store := { s with event := s.event.erase id }

theorem AgreeOn.forget {s : Store} {p : EventId} (foreign : s.Foreign room p) :
    AgreeOn room s (s.forget p) where
  event id stored ours := by
    simp only [Store.forget, OrdMap.getElem?_erase']
    split
    · rename_i same
      obtain ⟨other, held, notOurs⟩ := foreign
      simp only [reduceCtorEq, iff_false]
      intro held'
      obtain rfl := some_unique (same ▸ held') held
      exact notOurs (same ▸ ours)
    · rfl
  group _ := rfl
  room := rfl

section Dependence

variable {ruma : Ruma} {keys : PublicKeyMap} {s : Store} {fuel : Nat} {version : RoomVersion}
  {room : RoomId} {isCreate relay rejectMissingAuth : Bool} {event : IdentifiedPdu}
  {raw : JsonObject} {d : Decision} {p : EventId}

theorem Pipeline.Judged.names (h : Judged ruma s fuel version room isCreate relay event raw d)
    (accepted : d.cmd.rejected = none) :
    (∀ id ∈ Event.authEvents event, (s.event[id]?).isSome) ∧
      (∀ id ∈ Event.prevEvents event, (s.event[id]?).isSome) ∧
      redactsOf ruma s version room event d.before (fetchFor ruma s event) = .ok d.cmd.redacts := by
  cases h with
  | chainRejected prevs => simp [rejectedCommand] at accepted
  | stateRejected passed => simp [rejectedCommand] at accepted
  | accepted passed hafter hcurrent hredacts =>
    obtain ⟨hids, hheld⟩ := fetchAuth_held passed.auth
    refine ⟨fun id hid => ?_, fetchPrevs_held passed.prevs, hredacts⟩
    obtain ⟨q, hq, rfl⟩ := List.mem_map.1 (hids ▸ hid)
    obtain ⟨stored, held, _⟩ := hheld q hq
    simp [held]

theorem redactsOf_foreign {state : StateIds} {fetch : EventId → Option IdentifiedPdu}
    {redacts : Option String} (redaction : Event.eventType event = "m.room.redaction")
    (target : strProp (Event.content event) "redacts" = some p) (valid : ruma.isEventId p)
    (h : redactsOf ruma s version room event state fetch = .ok redacts) :
    (s.Foreign room p → redacts = none) ∧ (s.event[p]? = none → redacts ≠ none) := by
  have named : (strProp (Event.content event) "redacts").filter ruma.isEventId = some p := by
    simp [target, valid]
  simp only [redactsOf, if_pos redaction, redactionDirective, named] at h
  refine ⟨fun ⟨stored, held, other⟩ => ?_, fun absent => ?_⟩
  · simp only [held] at h
    split at h
    · exact (Except.ok.inj h).symm
    · obtain ⟨e, he, h⟩ := bind_eq_ok.1 h
      rw [parseStored, bind_eq_ok] at he
      obtain ⟨pdu, hpdu, he⟩ := he
      obtain rfl := pure_eq_ok.1 he
      rw [ofFormat, mapError_eq_ok] at hpdu
      have elsewhere : Event.roomId (⟨p, pdu⟩ : IdentifiedPdu) ≠ some room := by
        intro same
        refine other ?_
        rw [OfRoom, ← (Pdu.fromCanonical_views hpdu).roomId, show pdu.roomId = some room from same]
      rw [if_pos elsewhere] at h
      exact (pure_eq_ok.1 h).symm
  · simp only [absent, bind_eq_ok, pure_eq_ok] at h
    obtain ⟨mayRedact, _, rfl⟩ := h
    simp

theorem forget_decides_otherwise
    (h : processInner ruma keys s fuel raw version room isCreate relay rejectMissingAuth =
      .ok (.inr d)) (accepted : d.cmd.rejected = none) {raw' : JsonObject} {pdu : Pdu}
    {id : EventId} (hvet : vet ruma keys version raw = .ok (raw', pdu))
    (hid : ruma.eventId raw' version = .ok id) (names : Names ruma ⟨id, pdu⟩ p)
    (foreign : s.Foreign room p) :
    processInner ruma keys (s.forget p) fuel raw version room isCreate relay rejectMissingAuth ≠
      .ok (.inr d) := by
  intro h'
  obtain ⟨raw₁, pdu₁, id₁, hvet₁, hid₁, _, _, judged⟩ := processInner_cases h
  obtain ⟨raw₂, pdu₂, id₂, hvet₂, hid₂, _, _, judged'⟩ := processInner_cases h'
  obtain ⟨rfl, rfl⟩ := Prod.mk.inj (ok_unique hvet hvet₁)
  obtain ⟨rfl, rfl⟩ := Prod.mk.inj (ok_unique hvet hvet₂)
  obtain rfl := ok_unique hid hid₁
  obtain rfl := ok_unique hid hid₂
  obtain ⟨_, _, redacts⟩ := judged.names accepted
  obtain ⟨auth', prevs', redacts'⟩ := judged'.names accepted
  have gone : (s.forget p).event[p]? = none := by simp [Store.forget]
  cases names with
  | auth cited => simpa [gone] using auth' p cited
  | prev cited => simpa [gone] using prevs' p cited
  | redacts redaction target valid =>
    exact (redactsOf_foreign redaction target valid redacts').2 gone
      ((redactsOf_foreign redaction target valid redacts).1 foreign)

theorem processInner_held {raw' : JsonObject} {pdu : Pdu} {id : EventId}
    (hvet : vet ruma keys version raw = .ok (raw', pdu)) (hid : ruma.eventId raw' version = .ok id) :
    processInner ruma keys s fuel raw version room isCreate relay rejectMissingAuth = .ok (.inl id) ↔
      s.event.contains id = true := by
  have named : ofFormat (ruma.eventId raw' version) = .ok id := by rw [ofFormat, mapError_eq_ok, hid]
  simp only [processInner, hvet, named, ok_bind]
  constructor
  · intro duplicate
    by_contra absent
    rw [if_neg absent] at duplicate
    obtain ⟨d, -, told⟩ := bind_eq_ok.1 duplicate
    cases told
  · intro held
    rw [if_pos held]
    rfl

end Dependence

theorem AgreeOn.answered {s t : Store} {a : AppendEvent} {response : RoomResponse}
    (h : Machine.Answered s a t response) (elsewhere : a.roomId ≠ room)
    (other : ∀ stored : StoredEvent, stored.raw = a.raw → ¬ OfRoom room a.eventId stored) :
    AgreeOn room s t := by
  have rows {stored : StoredEvent} (absent : s.event[a.eventId]? = none)
      (sent : stored.raw = a.raw) (event : t.event = s.event.insert a.eventId stored) :
      ∀ id e, OfRoom room id e → (s.event[id]? = some e ↔ t.event[id]? = some e) := by
    intro id e ours
    rw [event, OrdMap.getElem?_insert']
    split
    · rename_i same
      subst same
      refine ⟨fun held => by simp [absent] at held, fun held => ?_⟩
      exact absurd (Option.some.inj held ▸ ours) (other stored sent)
    · rfl
  have groups (group : t.group = (s.putGroups a.roomId a.newGroups).group) (g : Nat) :
      s.group[(room, g)]? = t.group[(room, g)]? := by
    rw [group]
    rcases putGroups_cases s a.roomId a.newGroups room g with ⟨same, _⟩ | ⟨_, same⟩
    · exact absurd same.symm elsewhere
    · exact same.symm
  cases h with
  | duplicate => exact ⟨fun _ _ _ => Iff.rfl, fun _ => rfl, rfl⟩
  | rejected absent hrejected =>
    refine ⟨rows absent rfl Machine.applyRejected_event, groups Machine.applyRejected_group, ?_⟩
    cases known : s.room[a.roomId]? with
    | none => rw [Machine.applyRejected_unknown known]
    | some m => rw [Machine.applyRejected_room known, if_neg (Ne.symm elsewhere)]
  | accepted absent hrejected happly =>
    have appended := Machine.applyAccepted_spec happly
    obtain ⟨m, _, metadata⟩ := appended.room
    refine ⟨rows absent rfl appended.event, groups appended.group, ?_⟩
    rw [metadata, OrdMap.getElem?_insert', if_neg (Ne.symm elsewhere)]

/-- The same event in the room `!q:x`. -/
def inOther (raw : JsonObject) : JsonObject :=
  raw.map fun m => if m.1 = "room_id" then (m.1, .string "!q:x") else m

/-- The create event of the room `!q:x`, and the join of its creator. -/
def otherCreate : JsonObject :=
  inOther (Ruma.samplePdu "d" "m.room.create" (some "") "@a:x" [("room_version", .string "11")] [] [] 1)

def otherJoin : JsonObject :=
  inOther (Ruma.samplePdu "k" "m.room.member" (some "@a:x") "@a:x" [("membership", .string "join")]
    ["$d"] ["$d"] 2)

def sampleBehind (prev : EventId) : JsonObject :=
  Ruma.samplePdu "t" "m.room.topic" (some "") "@a:x" [] ["$c", "$j"] [prev] 3

/-- The run of the small library instance for an event of the room `!r:x`. -/
def processSample (s : Store) (raw : JsonObject) : Except RoomError (EventId ⊕ Decision) :=
  processInner Ruma.sample (Server.sample ["x"]).keys s 9 raw .v11 "!r:x" false false false

theorem exists_other (p : Store → Store → Bool)
    (h : (((Server.sample ["x"]).serveAll (fun _ _ => True) 9 Store.empty
      [.ingest Ruma.sampleCreate false, .ingest Ruma.sampleJoin false, .ingest otherCreate false]).any
        fun s => ((Server.sample ["x"]).ingestPdu s 9 otherJoin false).toOption.any fun x =>
          x.getRight?.any fun d => d.cmd.roomId == "!q:x" && strProp d.cmd.raw "room_id" == some "!q:x" &&
            (Machine.applyAppend s d.cmd).toOption.any fun r => p s r.1) = true) :
    ∃ s t, Runs (Serial Ruma.sample) Store.empty s ∧ Runs (Serial Ruma.sample) Store.empty t ∧
      AgreeOn "!r:x" s t ∧ p s t = true := by
  obtain ⟨s, run, computed⟩ := exists_run (fun _ _ => True) _ _ h
  obtain ⟨x, hx, decided⟩ := (Option.any_eq_true _ _).1 computed
  obtain ⟨d, hd, applied⟩ := (Option.any_eq_true _ _).1 decided
  simp only [Bool.and_eq_true, beq_iff_eq] at applied
  obtain ⟨⟨hroom, hraw⟩, applied⟩ := applied
  obtain ⟨⟨t, response⟩, happly, hp⟩ := (Option.any_eq_true _ _).1 applied
  rw [toOption_eq_some] at hx happly
  obtain rfl := Sum.getRight?_eq_some_iff.1 hd
  have serial : Serial Ruma.sample s (.append d.cmd) := by
    refine ⟨Server.sample ["x"], 9, .ingest otherJoin false, rfl, ?_⟩
    rw [Call.prepare, hx]
    rfl
  have run : Runs (Serial Ruma.sample) Store.empty s := run.mono fun _ _ hP => hP.1
  refine ⟨s, t, run, run.tail ⟨s, .append d.cmd, response, serial, happly⟩, ?_, hp⟩
  refine .answered (Machine.applyAppend_answered happly) (by rw [hroom]; decide) fun stored sent => ?_
  rw [OfRoom, sent, hraw]
  show ¬ "!q:x" = "!r:x"
  decide

end Saltator.Room
