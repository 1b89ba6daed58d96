import Saltator.Core.Fetch
import Saltator.Room.Rejection

/-!
# What state resolution finds

The pipeline resolves states over what the store holds, so it depends on what the imports have put there.
`Whole` says that unrejected events read back and cite sound ones, and that the groups map sound ones.
Events of the pipeline keep that. Imports keep it under `bringsWhole`, and as long as they do no
resolution misses an event.
-/

namespace Saltator.Room

open Std
open Saltator.Outcome
open Machine (Effect Touched plain)
open Pipeline
open StateRes (Key StateIds ValueOf Present)

def Store.cites (s : Store) (id : EventId) : Option (List EventId) :=
  match s.event[id]? with
  | some e => if e.rejected.isNone then some (authEventIds e.raw) else none
  | none => none

/-- The raw event has a typed view. -/
def Readable (ruma : Ruma) (raw : JsonObject) : Prop := (Pdu.fromCanonical ruma raw).isOk = true

structure Whole (ruma : Ruma) (s : Store) : Prop where
  readable : ∀ (id : EventId) (e : StoredEvent), s.event[id]? = some e → e.rejected = none →
    Readable ruma e.raw
  cited : ∀ (id : EventId) (e : StoredEvent), s.event[id]? = some e → e.rejected = none →
    ∀ a ∈ authEventIds e.raw, s.Sound a
  mapped : ∀ (room : RoomId) (id : Nat) (g : StateGroup), s.group[(room, id)]? = some g →
    ∀ entry ∈ g.entries, s.Sound entry.2

/-! ## Resolution -/

section Resolution

variable {ruma : Ruma} {keys : PublicKeyMap} {s : Store} {fuel : Nat} {version : RoomVersion}
  {room : RoomId} {isCreate relay rejectMissingAuth : Bool} {event : IdentifiedPdu} {raw : JsonObject}
  {held : List (IdentifiedPdu × Bool)} {prevGroups : OrdSet Nat} {before after current : Held}
  {missing : EventId} {map : StateIds} {group : Nat} {id : EventId} {r : StateRes.StateResError}
  {ids : List EventId}

theorem Whole.materialized (inv : Whole ruma s) (h : materialize ruma s fuel room group = .ok map)
    {key : Key} {v : EventId} (hv : map[key]? = some v) : s.Sound v := by
  obtain ⟨id, g, hg, entry, hentry, rfl⟩ := (materialize_materializes h).values hv
  exact inv.mapped room id g hg entry hentry

theorem fetchFor_sound (inv : Whole ruma s) (hnew : s.event[event.eventId]? = none) (h : s.Sound id) :
    ∃ e, fetchFor ruma s event id = some e ∧ ∀ a ∈ Event.authEvents e, s.Sound a := by
  obtain ⟨se, held, unrejected⟩ := h
  have other : id ≠ event.eventId := by
    rintro rfl
    rw [hnew] at held
    cases held
  have readable := inv.readable id se held unrejected
  cases parsed : Pdu.fromCanonical ruma se.raw with
  | error e => simp [Readable, parsed, Except.isOk, Except.toBool] at readable
  | ok pdu =>
    refine ⟨⟨id, pdu⟩, ?_, fun a ha => ?_⟩
    · simp [fetchFor, other, held, unrejected, parseStored, ofFormat, parsed, Except.mapError, pure,
        Except.pure]
    · exact inv.cited id se held unrejected a ((Pdu.fromCanonical_views parsed).authEvents ▸ ha)

theorem present_sound (inv : Whole ruma s) (hnew : s.event[event.eventId]? = none) :
    Present (fetchFor ruma s event) s.Sound where
  held id h := by
    obtain ⟨e, found, -⟩ := fetchFor_sound inv hnew h
    simp [found]
  pass id e h found := by
    obtain ⟨e', found', cites⟩ := fetchFor_sound inv hnew h
    obtain rfl := some_unique found found'
    exact cites

theorem present_mappable (inv : Whole ruma s) (hnew : s.event[event.eventId]? = none)
    (hauth : ∀ a ∈ Event.authEvents event, s.Sound a) :
    Present (fetchFor ruma s event) (Mappable s event) where
  held id h := by
    rcases h with h | rfl
    · exact (present_sound inv hnew).held id h
    · simp [fetchFor]
  pass id e h found a ha := by
    rcases h with h | rfl
    · exact .inl ((present_sound inv hnew).pass id e h found a ha)
    · obtain rfl : event = e := by simpa [fetchFor] using found
      exact .inl (hauth a ha)

theorem Whole.maps_before (inv : Whole ruma s) (hnew : s.event[event.eventId]? = none)
    (h : stateBefore ruma s fuel version room isCreate (fetchFor ruma s event) prevGroups
      (startAlloc s.room[room]?) = .ok before) : Maps s.Sound before := by
  refine Saltator.Room.maps_before (fun _ _ hm _ _ hv => inv.materialized hm hv) (fun sets result hsets hr key v hv => ?_)
    h
  rcases StateRes.resolve_values (present_sound inv hnew).pass hsets hr hv with value | ⟨sound, -⟩
  · exact hsets v value
  · exact sound

theorem Whole.reads (inv : Whole ruma s) (hnew : s.event[event.eventId]? = none)
    (hauth : ∀ a ∈ Event.authEvents event, s.Sound a) :
    Reads ruma s fuel version room event (Mappable s event) where
  own := .inr rfl
  group _ _ hm _ _ hv := .inl (inv.materialized hm hv)
  resolved sets result hsets hr key v hv := by
    rcases StateRes.resolve_values (present_mappable inv hnew hauth).pass hsets hr hv with
      value | ⟨mappable, -⟩
    · exact hsets v value
    · exact mappable

/-! ## The pipeline -/

theorem vet_ne_stateRes : vet ruma keys version raw ≠ .error (.stateRes r) := by
  refine bind_ne_error (mapError_ne_error (by simp)) fun pdu _ =>
    bind_ne_error (mapError_ne_error (by simp)) fun outcome _ => ?_
  cases outcome with
  | verified => simp
  | signedButHashMismatch =>
    exact bind_ne_error (mapError_ne_error (by simp)) fun _ _ =>
      bind_ne_error (mapError_ne_error (by simp)) fun _ _ => pure_ne_error

theorem parseStored_ne_stateRes {se : StoredEvent} : parseStored ruma id se ≠ .error (.stateRes r) :=
  bind_ne_error (mapError_ne_error (by simp)) fun _ _ => pure_ne_error

theorem fetchAuth_ne_stateRes : fetchAuth ruma s ids ≠ .error (.stateRes r) := by
  refine foldlM_ne_error (fun id _ acc => ?_) _
  dsimp only
  split
  · exact bind_ne_error parseStored_ne_stateRes fun _ _ => pure_ne_error
  · simp

theorem fetchPrevs_ne_stateRes : fetchPrevs s fuel ids ≠ .error (.stateRes r) := by
  refine foldlM_ne_error (fun id _ acc => ?_) _
  dsimp only
  split
  · simp
  split
  · refine bind_ne_error (Loop.run_ne_error (I := fun _ => True) (fun _ _ _ _ => trivial)
      (fun w _ => ?_) (by simp) trivial) fun behind _ => ?_
    · unfold behindRound
      split
      · simp
      dsimp only
      split
      · simp
      split
      · simp
      split <;> simp
    · split <;> simp
  · simp

theorem checkOwnAuth_ne_stateRes {m : Option RoomMeta} :
    checkOwnAuth ruma s version m isCreate event held ≠ .error (.stateRes r) := by
  unfold checkOwnAuth
  split
  · simp
  refine bind_ne_error ?_ fun _ _ => pure_ne_error
  unfold authState
  dsimp only
  split
  · split
    · simp
    split
    · simp
    · exact bind_ne_error parseStored_ne_stateRes fun _ _ => pure_ne_error
  · simp

theorem materialize_ne_stateRes : materialize ruma s fuel room group ≠ .error (.stateRes r) := by
  refine bind_ne_error (mapError_ne_error fun e _ => ?_) fun map _ => ?_
  · cases e <;> simp
  · split <;> simp

theorem redactsOf_ne_stateRes {fetch : EventId → Option IdentifiedPdu} :
    redactsOf ruma s version room event map fetch ≠ .error (.stateRes r) := by
  have may : senderMayRedact ruma version event map fetch ≠ .error (.stateRes r) := by
    unfold senderMayRedact
    split
    · simp
    split <;> simp
  unfold redactsOf redactionDirective
  split
  · split
    · simp
    split
    · exact bind_ne_error may fun _ _ => pure_ne_error
    split
    · simp
    refine bind_ne_error parseStored_ne_stateRes fun target _ => ?_
    split
    · simp
    split
    · simp
    refine bind_ne_error may fun allowed _ => ?_
    split <;> simp
  · simp

theorem ofStateRes_ne_missing {P : EventId → Prop} (present : Present (fetchFor ruma s event) P)
    {sets : List StateIds} (hsets : ∀ v, ValueOf sets v → P v) :
    ofStateRes (StateRes.resolve ruma version (fetchFor ruma s event) fuel sets) ≠
      .error (.stateRes (.missingEvent missing)) := by
  refine mapError_ne_error fun e failed same => ?_
  cases e with
  | missingEvent id =>
    obtain rfl : id = missing := by simpa using same
    exact present.resolve hsets failed
  | _ => simp at same

theorem stateBefore_ne_missing (inv : Whole ruma s) (hnew : s.event[event.eventId]? = none)
    {alloc : Alloc} :
    stateBefore ruma s fuel version room isCreate (fetchFor ruma s event) prevGroups alloc ≠
      .error (.stateRes (.missingEvent missing)) := by
  unfold stateBefore
  split
  · simp
  split
  · exact bind_ne_error materialize_ne_stateRes fun _ _ => pure_ne_error
  · refine bind_ne_error (mapM_ne_error fun _ _ => materialize_ne_stateRes) fun sets hsets =>
      bind_ne_error (ofStateRes_ne_missing (present_sound inv hnew) ?_) fun _ _ => pure_ne_error
    exact mapM_values (fun _ _ hm _ _ hv => inv.materialized hm hv) hsets

theorem currentState_ne_missing (inv : Whole ruma s) (hnew : s.event[event.eventId]? = none)
    (hauth : ∀ a ∈ Event.authEvents event, s.Sound a) (hafter : Maps (Mappable s event) after)
    {tips : OrdSet EventId} :
    currentState ruma s fuel version room event (fetchFor ruma s event) tips after ≠
      .error (.stateRes (.missingEvent missing)) := by
  have reads : Reads ruma s fuel version room event (Mappable s event) := inv.reads hnew hauth
  unfold currentState
  split
  · simp
  refine bind_ne_error (mapM_ne_error fun id _ => ?_) fun sets hsets =>
    bind_ne_error (ofStateRes_ne_missing (present_mappable inv hnew hauth)
      (reads.extremityStates hsets hafter)) fun _ _ => ?_
  · unfold extremityState
    split
    · simp
    split
    · simp
    · exact materialize_ne_stateRes
  · split <;> simp

theorem judge_ne_missing (inv : Whole ruma s) (hnew : s.event[event.eventId]? = none) :
    judge ruma s fuel version room isCreate relay rejectMissingAuth event raw ≠
      .error (.stateRes (.missingEvent missing)) := by
  unfold judge
  dsimp only
  split
  · simp
  refine bind_ne_error fetchAuth_ne_stateRes ?_
  rintro ⟨held, missingAuth⟩ hheld
  refine bind_ne_error fetchPrevs_ne_stateRes ?_
  rintro ⟨prevGroups, gaps⟩ hprevs
  dsimp only
  split
  · simp
  rename_i closed
  split
  · split <;> simp
  rename_i covered
  refine bind_ne_error checkOwnAuth_ne_stateRes fun verdict hown => ?_
  cases verdict with
  | error r => simp
  | ok allowed =>
    obtain rfl : missingAuth = [] := by simpa using covered
    obtain rfl : gaps = [] := by simpa using closed
    refine bind_ne_error (stateBefore_ne_missing inv hnew) fun before hbefore => ?_
    have passed : Passed ruma s fuel version room isCreate event held prevGroups before :=
      ⟨hheld, hprevs, hown, hbefore⟩
    have reads : Reads ruma s fuel version room event (Mappable s event) :=
      inv.reads hnew passed.auth_sound
    refine bind_ne_error (foldlM_ne_error (fun key _ view => ?_) _) fun view _ => ?_
    · split
      · simp
      split <;> simp
    split
    · simp
    refine bind_ne_error ?_ fun after hafter => bind_ne_error
      (currentState_ne_missing inv hnew passed.auth_sound
        (reads.stateAfter hafter (reads.stateBefore passed))) fun current _ =>
      bind_ne_error redactsOf_ne_stateRes fun _ _ => pure_ne_error
    unfold stateAfter
    split
    · simp
    dsimp only
    split
    · simp
    split
    · simp
    split <;> simp

theorem processInner_ne_missing (inv : Whole ruma s) :
    processInner ruma keys s fuel raw version room isCreate relay rejectMissingAuth ≠
      .error (.stateRes (.missingEvent missing)) := by
  refine bind_ne_error vet_ne_stateRes ?_
  rintro ⟨raw', pdu⟩ _
  refine bind_ne_error (mapError_ne_error (by simp)) fun id _ => ?_
  split
  · simp
  · rename_i absent
    exact bind_ne_error (judge_ne_missing inv (by simpa using absent)) fun _ _ => pure_ne_error

end Resolution

/-! ## The commands -/

abbrev Brought (s : Store) (events : List ImportEvent) (id : EventId) : Prop :=
  s.event[id]? = none ∧ ∃ ev ∈ events, ev.eventId = id

/-- Put on the timeline with this chain. -/
abbrev Chained (s : Store) (chain : List ImportEvent) (id : EventId) : Prop :=
  s.onTimeline id = false ∧ ∃ ev ∈ chain, ev.eventId = id

/-- The event reads back, and cites sound events or such that become sound along with it. -/
abbrev Rests (ruma : Ruma) (s : Store) (new : EventId → Prop) (raw : JsonObject) : Prop :=
  Readable ruma raw ∧ ∀ a ∈ authEventIds raw, s.Sound a ∨ new a

/-- Whatever an import stores or maps rests on sound events and on what comes with it. -/
abbrev bringsWhole (ruma : Ruma) : Condition where
  append _ _ := True
  importRoom s cmd :=
    let new id := id = cmd.joinEventId ∨ Brought s cmd.events id
    Rests ruma s new cmd.joinRaw ∧ (∀ entry ∈ cmd.state, s.Sound entry.2 ∨ new entry.2) ∧
      ∀ ev ∈ cmd.events, s.event[ev.eventId]? = none → Rests ruma s new ev.raw
  importSegment s cmd :=
    let new id := Chained s cmd.timeline id ∨ Brought s cmd.events id
    (∀ ev ∈ cmd.timeline, s.onTimeline ev.eventId = false → Rests ruma s new ev.raw) ∧
      (∀ entry ∈ cmd.state, s.Sound entry.2 ∨ new entry.2) ∧
      ∀ ev ∈ cmd.events, s.event[ev.eventId]? = none → Rests ruma s new ev.raw
  importHistory s cmd :=
    ∀ ev ∈ cmd.events, s.event[ev.eventId]? = none → Rests ruma s (Brought s cmd.events) ev.raw

/-- What the computation of an append established: it maps sound events or the one it accepts, which
reads back and cites sound events. -/
abbrev appendsSound (ruma : Ruma) : Condition where
  append s cmd :=
    (∀ p ∈ cmd.newGroups, ∀ entry ∈ p.2.entries,
      s.Sound entry.2 ∨ (cmd.rejected = none ∧ entry.2 = cmd.eventId)) ∧
      (cmd.rejected = none → Readable ruma cmd.raw ∧ ∀ a ∈ authEventIds cmd.raw, s.Sound a)
  importRoom _ _ := True
  importSegment _ _ := True
  importHistory _ _ := True

variable {ruma : Ruma}

theorem vet_readable {keys : PublicKeyMap} {version : RoomVersion} {raw raw' : JsonObject}
    {pdu : Pdu} (h : vet ruma keys version raw = .ok (raw', pdu)) : Readable ruma raw' := by
  simp [Readable, (validatePdu_eq_ok (vet_cases h).1).1, Except.isOk, Except.toBool]

theorem produced_appendsSound {server : Server} {s : Store} {cmd : RoomCommand}
    (inv : Whole ruma s) (same : server.ruma = ruma) (h : Produced server s cmd) :
    (appendsSound ruma).Holds s cmd := by
  subst same
  have append : ∀ {raw version room isCreate relay reject fuel} {d : Decision},
      processInner server.ruma server.keys s fuel raw version room isCreate relay reject =
        .ok (.inr d) → (appendsSound server.ruma).append s d.cmd := by
    intro raw version room isCreate relay reject fuel d computed
    obtain ⟨raw', pdu, id, vetted, -, absent, -, judged⟩ := processInner_cases computed
    cases judged with
    | chainRejected prevs => simp [rejectedCommand]
    | stateRejected passed =>
      refine ⟨fun p mem entry listed => .inl ?_, by simp [rejectedCommand]⟩
      have maps : Maps s.Sound _ := inv.maps_before absent passed.before
      exact maps.groups p mem entry listed
    | accepted passed hafter hcurrent hredacts =>
      have cites := passed.auth_sound
      have reads : Reads server.ruma s fuel version room ⟨id, pdu⟩ (Mappable s ⟨id, pdu⟩) :=
        inv.reads absent cites
      refine ⟨fun p mem entry listed => ?_, fun _ => ⟨vet_readable vetted, fun a cited => ?_⟩⟩
      · have mapped := (reads.currentState hcurrent (reads.stateAfter hafter
          (reads.stateBefore passed))).groups p mem entry listed
        exact mapped.imp_right fun own => ⟨rfl, own⟩
      · have views : Event.authEvents (⟨id, pdu⟩ : IdentifiedPdu) = authEventIds raw' :=
          (vet_views vetted).1.authEvents
        exact cites a (views ▸ cited)
  cases h with
  | append routed computed => exact append computed
  | stamped routed computed => exact append computed
  | _ => trivial

/-! ## The step -/

section Step

variable {ruma : Ruma} {s t : Store} {cmd : RoomCommand} {id : EventId}

theorem appendsSound_effect {other : RoomCommand} (heff : Effect s cmd t)
    (h : (appendsSound ruma).Holds s other) : (appendsSound ruma).Holds t other := by
  have append : ∀ a, (appendsSound ruma).append s a → (appendsSound ruma).append t a := fun a ha =>
    ⟨fun p mem entry listed => (ha.1 p mem entry listed).imp_left (sound_effect heff), fun accepted =>
      ⟨(ha.2 accepted).1, fun b cited => sound_effect heff ((ha.2 accepted).2 b cited)⟩⟩
  cases other with
  | append a => exact append a h
  | appendStamped a txn => exact append a h
  | _ => trivial

theorem sound_of_stored_new (heff : Effect s cmd t) (imports : ∀ a, cmd ≠ .append a)
    (absent : s.event[id]? = none) (stored : (t.event[id]?).isSome) : t.Sound id := by
  refine sound_of_stored stored ?_
  by_contra rejected
  rw [Bool.not_eq_false] at rejected
  rcases rejected_of_effect heff rejected with old | ⟨a, rfl, -⟩
  · simp [Store.isRejected, absent] at old
  · exact imports a rfl

theorem importRoom_sound {c : ImportRoom} (heff : Effect s (.importRoom c) t)
    (applied : t.event[c.joinEventId]? = some (Machine.joinRecord c (Machine.importGroup s c) (s.seq + 1)))
    (kept : ∀ a : EventId, a ≠ c.joinEventId → t.event[a]? = (s.putSupport c.events).event[a]?)
    (h : s.Sound id ∨ id = c.joinEventId ∨ Brought s c.events id) : t.Sound id := by
  rcases h with old | rfl | ⟨absent, listed⟩
  · exact sound_effect heff old
  · exact ⟨_, applied, rfl⟩
  · by_cases own : id = c.joinEventId
    · exact own ▸ ⟨_, applied, rfl⟩
    · refine sound_of_stored_new heff (by simp) absent ?_
      rw [kept id own]
      exact (s.putSupport_event_cases c.events id).2 listed

theorem importSegment_sound {c : ImportSegment} {m : RoomMeta} (known : s.room[c.roomId]? = some m)
    (h : s.Sound id ∨ Chained s c.timeline id ∨ Brought s c.events id) :
    ((Machine.segmentRows s m c).store.putMeta c.roomId
      (Machine.segmentMeta m (Machine.segmentRows s m c) c)).Sound id := by
  have heff : Effect s (.importSegment c) _ := .importSegment known
  obtain ⟨changed, placed⟩ := Machine.segmentLoop_event_cases c.roomId m.nextGroup c.timeline
    ⟨(s.putSupport c.events).putGroups c.roomId [(m.nextGroup, ⟨none, 0, c.state⟩)], 0, none, none⟩ id
  rcases h with old | ⟨off, listed⟩ | ⟨absent, listed⟩
  · exact sound_effect heff old
  · -- The chain gives the event a record of its own, unless the timeline has it.
    rcases changed with same | ⟨ev, -, -, -, seq, -, record⟩
    · obtain ⟨e, held, later⟩ := Store.onTimeline_iff.1 (placed (.inr listed))
      have old := same.symm.trans held
      have onTimeline : (s.putSupport c.events).onTimeline id = true :=
        Store.onTimeline_iff.2 ⟨e, old, later⟩
      rw [Machine.onTimeline_putSupport, off] at onTimeline
      cases onTimeline
    · exact ⟨_, record, rfl⟩
  · refine sound_of_stored_new heff (by simp) absent ?_
    have support := (s.putSupport_event_cases c.events id).2 listed
    rcases changed with same | ⟨ev, -, -, -, seq, -, record⟩
    · exact (congrArg Option.isSome same).trans support
    · exact congrArg Option.isSome record

theorem importHistory_sound {c : ImportHistory} {m m' : RoomMeta} (h : s.Sound id ∨ Brought s c.events id)
    (heff : Effect s (.importHistory c) ((Machine.historyRows s m c).store.putMeta c.roomId m')) :
    ((Machine.historyRows s m c).store.putMeta c.roomId m').Sound id := by
  rcases h with old | ⟨absent, listed⟩
  · exact sound_effect heff old
  · refine sound_of_stored_new heff (by simp) absent ?_
    obtain ⟨-, visible⟩ := Machine.historyLoop_event_cases c.roomId c.events
      ⟨s, m.nextHistoryIdx, ∅, [], 0⟩ id
    obtain ⟨e, held, -⟩ := Store.visible_iff.1 (visible (.inr listed))
    exact Option.isSome_iff_exists.2 ⟨e, held⟩

theorem Whole.write (inv : Whole ruma s) (heff : Effect s cmd t)
    (new : ∀ (id : EventId) (e : StoredEvent), Touched s cmd id e → e.rejected = none →
      Readable ruma e.raw ∧ ∀ a ∈ authEventIds e.raw, t.Sound a)
    (room : RoomId) (groups : List (Nat × StateGroup)) (group : t.group = (s.putGroups room groups).group)
    (values : ∀ p ∈ groups, ∀ entry ∈ p.2.entries, t.Sound entry.2) : Whole ruma t := by
  have records : ∀ (id : EventId) (e : StoredEvent), t.event[id]? = some e → e.rejected = none →
      Readable ruma e.raw ∧ ∀ a ∈ authEventIds e.raw, t.Sound a := by
    intro id e held unrejected
    rcases heff.event_cases id with same | ⟨e', held', touched⟩
    · have old := same.symm.trans held
      exact ⟨inv.readable id e old unrejected, fun a cited =>
        sound_effect heff (inv.cited id e old unrejected a cited)⟩
    · obtain rfl := some_unique held held'
      exact new id e touched unrejected
  refine ⟨fun id e held unrejected => (records id e held unrejected).1,
    fun id e held unrejected => (records id e held unrejected).2, fun r id g held entry mem => ?_⟩
  rw [group] at held
  rcases putGroups_cases s room groups r id with ⟨-, g', listed, put⟩ | ⟨-, old⟩
  · obtain rfl := some_unique put held
    exact values _ listed entry mem
  · exact sound_effect heff (inv.mapped r id g (old ▸ held) entry mem)

theorem whole_effect (inv : Whole ruma s) (ready : (appendsSound ruma).Holds s cmd)
    (brings : (bringsWhole ruma).Holds s cmd) (heff : Effect s cmd t) : Whole ruma t := by
  have step := heff
  cases heff with
  | idle => exact inv
  | tick => exact ⟨inv.readable, inv.cited, inv.mapped⟩
  | @rejected c rejected absent hrejected =>
    refine inv.write step (fun id e touched unrejected => ?_) c.roomId c.newGroups
      Machine.applyRejected_group fun p mem entry listed => ?_
    · cases touched with
      | rejected => simp [Machine.rejectedRecord] at unrejected
      | accepted _ accepted => simp [hrejected] at accepted
      | support listed => simp [Machine.supportOf] at listed
    · rcases ready.1 p mem entry listed with old | ⟨accepted, -⟩
      · exact sound_effect step old
      · simp [hrejected] at accepted
  | @accepted c s' seq absent hrejected happly =>
    have appended := Machine.applyAccepted_spec happly
    refine inv.write step (fun id e touched unrejected => ?_) c.roomId c.newGroups appended.group
      fun p mem entry listed => ?_
    · cases touched with
      | rejected => simp [Machine.rejectedRecord] at unrejected
      | accepted =>
        obtain ⟨readable, cites⟩ := ready.2 hrejected
        exact ⟨readable, fun a cited => sound_effect step (cites a cited)⟩
      | support listed => simp [Machine.supportOf] at listed
    · rcases ready.1 p mem entry listed with old | ⟨-, own⟩
      · exact sound_effect step old
      · refine ⟨Machine.acceptedRecord c (s.seq + 1), ?_, rfl⟩
        rw [own, appended.event]
        simp
  | @importRoom c fresh =>
    obtain ⟨join, state, events⟩ := brings
    have sound := fun id (h : s.Sound id ∨ id = c.joinEventId ∨ Brought s c.events id) =>
      importRoom_sound step (OrdMap.getElem?_insert'.trans (if_pos rfl))
        (fun a other => OrdMap.getElem?_insert'.trans (if_neg other)) h
    refine inv.write step (fun id e touched unrejected => ?_) c.roomId
      [(Machine.importGroup s c, ⟨none, 0, c.state⟩)] rfl fun p mem entry listed => ?_
    · cases touched with
      | @support _ ev listed absent =>
        obtain ⟨readable, cites⟩ := events ev listed absent
        exact ⟨readable, fun a cited => sound a (cites a cited)⟩
      | joined => exact ⟨join.1, fun a cited => sound a (join.2 a cited)⟩
    · obtain rfl := List.mem_singleton.1 mem
      exact sound entry.2 (state entry listed)
  | @importSegment c m known =>
    obtain ⟨chain, state, events⟩ := brings
    refine inv.write step (fun id e touched unrejected => ?_) c.roomId
      [(m.nextGroup, ⟨none, 0, c.state⟩)] (Machine.segmentRows_frame s m c).1 fun p mem entry listed => ?_
    · cases touched with
      | @support _ ev listed absent =>
        obtain ⟨readable, cites⟩ := events ev listed absent
        exact ⟨readable, fun a cited => importSegment_sound known (cites a cited)⟩
      | chained listed off =>
        obtain ⟨readable, cites⟩ := chain _ listed off
        exact ⟨readable, fun a cited => importSegment_sound known (cites a cited)⟩
    · obtain rfl := List.mem_singleton.1 mem
      exact importSegment_sound known (state entry listed)
  | @importHistory c m known =>
    refine inv.write step (fun id e touched unrejected => ?_) c.roomId [] (Machine.historyRows_frame s m c).1
      (by simp)
    cases touched with
    | support listed => simp [Machine.supportOf] at listed
    | indexed listed absent =>
      obtain ⟨readable, cites⟩ := brings _ listed absent
      exact ⟨readable, fun a cited => importHistory_sound (cites a cited) step⟩
    | @reindexed _ _ old _ listed held off =>
      exact ⟨inv.readable _ old held unrejected, fun a cited =>
        sound_effect step (inv.cited _ old held unrejected a cited)⟩

end Step

/-! ## Runs -/

theorem whole_empty : Whole ruma Store.empty := by
  refine ⟨?_, ?_, ?_⟩ <;> intro <;> simp [Store.empty]

theorem whole_onCore : OnCore (Whole ruma) := fun _ =>
  ⟨fun h => ⟨h.readable, h.cited, h.mapped⟩, fun h => ⟨h.readable, h.cited, h.mapped⟩⟩

theorem appendsSound_onCore (cmd : RoomCommand) : OnCore fun s => (appendsSound ruma).Holds s cmd := by
  intro s
  cases cmd <;> exact Iff.rfl

theorem run_whole {c c' : Config}
    (run : Config.Runs ruma (bringsWhole ruma).Holds c c') (inv : Whole ruma c.store)
    (pool : ∀ cmd ∈ c.pool, (appendsSound ruma).Holds c.store cmd) :
    Whole ruma c'.store ∧ ∀ cmd ∈ c'.pool, (appendsSound ruma).Holds c'.store cmd := by
  refine Config.Runs.invariant (R := (appendsSound ruma).Holds) whole_onCore appendsSound_onCore
    (fun server s cmd inv same produced => produced_appendsSound inv same produced)
    (fun s cmd other t _ ready _ _ heff => appendsSound_effect heff ready)
    (fun s cmd t inv ready brings heff => ?_) run ⟨inv, pool⟩
  rw [← Condition.holds_plain] at ready brings
  exact whole_effect inv ready brings heff

theorem run_whole_import {s t : Store} {pool : List RoomCommand} {cmd : RoomCommand}
    {c : Config} (reached : Config.Runs ruma (bringsWhole ruma).Holds Config.init ⟨s, pool⟩)
    (step : Effect s cmd t) (ready : (appendsSound ruma).Holds s cmd)
    (brings : (bringsWhole ruma).Holds s cmd)
    (run : Config.Runs ruma (bringsWhole ruma).Holds ⟨t, pool⟩ c) : Whole ruma c.store := by
  obtain ⟨inv, pending⟩ := run_whole reached whole_empty (by simp [Config.init])
  exact (run_whole run (whole_effect inv ready brings step) fun other mem =>
    appendsSound_effect step (pending other mem)).1

end Saltator.Room
