import Saltator.Room.Replicated

/-!
# What the next event is built on

A local event is built on what the room's bookkeeping points to: its version, its extremities and the
group of its current state. Along runs in which the commands of a room are computed and applied one
at a time, all of it is there: the version is a known one, the extremities are stored, the current
group stands for a state, and everything that is named has the form of an event id.
-/

namespace Saltator.Room

open Std
open Saltator.Outcome
open Machine (Effect plain SegmentRun)
open Pipeline
open StateRes (Key StateIds ValueOf PassedOn)

/-- What one room's bookkeeping points to is there. -/
structure Stands (ruma : Ruma) (s : Store) (room : RoomId) (m : RoomMeta) : Prop where
  version : (RoomVersion.parse m.version).isSome
  tips : ∀ id ∈ m.extremities, ruma.isEventId id ∧ (s.event[id]?).isSome
  current : ∃ map, Materializes s room m.currentGroup map

structure Standing (ruma : Ruma) (s : Store) : Prop where
  rooms : ∀ (room : RoomId) (m : RoomMeta), s.room[room]? = some m → Stands ruma s room m
  values : ∀ (room : RoomId) (id : Nat) (g : StateGroup), s.group[(room, id)]? = some g →
    ∀ entry ∈ g.entries, ruma.isEventId entry.2

/-- The command was computed by a lawful server, from a store that agrees with this one on the
command's room. -/
def LawfulIn (ruma : Ruma) (s : Store) (cmd : RoomCommand) : Prop :=
  ∃ (base : Store) (server : Server) (fuel : Nat) (call : Call), server.Lawful ∧
    server.ruma = ruma ∧ call.prepare server base fuel = .ok (.inr cmd) ∧
    SameRoom base s (roomOf cmd)

theorem LawfulIn.serialIn {ruma : Ruma} {s : Store} {cmd : RoomCommand} (h : LawfulIn ruma s cmd) :
    SerialIn ruma s cmd := by
  obtain ⟨base, server, fuel, call, -, hserver, hprep, same⟩ := h
  exact ⟨base, ⟨server, fuel, call, hserver, hprep⟩, same⟩

/-! ## What the pipeline computes -/

section Pipeline

variable {ruma : Ruma} {s t : Store} {fuel : Nat} {version : RoomVersion} {room : RoomId}
  {isCreate relay : Bool} {event : IdentifiedPdu} {raw : JsonObject} {d : Decision}
  {after current : Held}

abbrev GroupsIn (s t : Store) (room : RoomId) : Prop :=
  ∀ (id : Nat) (g : StateGroup), s.group[(room, id)]? = some g → t.group[(room, id)]? = some g

theorem currentState_materializes {fetch : EventId → Option IdentifiedPdu} {extremities : OrdSet EventId}
    (h : currentState ruma s fuel version room event fetch extremities after = .ok current)
    (stored : Stored t room current.alloc.newGroups)
    (hafter : Stored t room after.alloc.newGroups → Materializes t room after.group after.state) :
    Materializes t room current.group current.state := by
  unfold currentState at h
  split at h
  · obtain rfl := Except.ok.inj h
    exact hafter stored
  · simp only [bind_eq_ok] at h
    obtain ⟨sets, _, resolved, _, h⟩ := h
    split at h
    · obtain rfl := pure_eq_ok.1 h
      exact hafter stored
    · obtain rfl := pure_eq_ok.1 h
      exact stored.full.2

theorem Pipeline.Judged.currentGroup (le : GroupsIn s t room)
    (h : Judged ruma s fuel version room isCreate relay event raw d)
    (keyed : isCreate = true → (Event.stateKey event).isSome) (accepted : d.cmd.rejected = none)
    (stored : Stored t room d.cmd.newGroups) :
    ∃ map, Materializes t room d.cmd.newCurrentGroup map := by
  cases h with
  | chainRejected _ => simp [rejectedCommand] at accepted
  | stateRejected _ => simp [rejectedCommand] at accepted
  | @accepted _ _ before after current _ passed hafter hcurrent _ =>
    refine ⟨current.state, currentState_materializes hcurrent stored fun stored => ?_⟩
    refine stateAfter_materializes hafter (fun hcreate => ?_) keyed stored
    have hbefore := passed.before
    rw [hcreate] at hbefore
    exact stateBefore_materializes le hbefore

theorem reads_eventIds (own : ruma.isEventId event.eventId)
    (cited : ∀ a ∈ Event.authEvents event, ruma.isEventId a) :
    Reads ruma s fuel version room event fun id => ruma.isEventId id where
  own := own
  group group map hm key v hv := by
    obtain ⟨map', _, hm⟩ := bind_eq_ok.1 hm
    split at hm
    · rename_i valid
      obtain rfl := pure_eq_ok.1 hm
      exact List.all_eq_true.1 valid v (OrdMap.mem_vals.2 ⟨key, hv⟩)
    · cases hm
  resolved sets result hsets h key v hv := by
    have pass : PassedOn (fetchFor ruma s event) fun id => ruma.isEventId id := by
      intro id e _ he a ha
      unfold fetchFor at he
      split at he
      · obtain rfl := Option.some.inj he
        exact cited a ha
      · split at he
        · cases he
        · rename_i se _
          split at he
          · cases he
          · obtain ⟨pdu, hpdu, he⟩ := bind_eq_ok.1 (toOption_eq_some.1 he)
            obtain rfl := pure_eq_ok.1 he
            rw [ofFormat, mapError_eq_ok] at hpdu
            exact Pdu.fromCanonical_cites hpdu a ha
    rcases StateRes.resolve_values pass hsets h hv with hval | ⟨valid, -⟩
    · exact hsets v hval
    · exact valid

end Pipeline

/-! ## The commands -/

/-- What the computation of an append established. -/
structure Grounded (ruma : Ruma) (s : Store) (a : AppendEvent) : Prop where
  own : ruma.isEventId a.eventId
  values : ∀ p ∈ a.newGroups, ∀ entry ∈ p.2.entries, ruma.isEventId entry.2
  tips : a.rejected = none → ∀ id ∈ a.newExtremities, id = a.eventId ∨ id ∈ s.extremities a.roomId
  version : ∀ v, a.createVersion = some v → (RoomVersion.parse v).isSome
  current : a.rejected = none → ∀ t, GroupsIn s t a.roomId → Stored t a.roomId a.newGroups →
    ∃ map, Materializes t a.roomId a.newCurrentGroup map

/-- What the computation of a command established. -/
abbrev grounded (ruma : Ruma) : Condition where
  append := Grounded ruma
  importRoom _ cmd := ruma.isEventId cmd.joinEventId ∧ (RoomVersion.parse cmd.version).isSome ∧
    ∀ entry ∈ cmd.state, ruma.isEventId entry.2
  importSegment _ cmd := (∀ ev ∈ cmd.timeline, ruma.isEventId ev.eventId) ∧
    ∀ entry ∈ cmd.state, ruma.isEventId entry.2
  importHistory _ _ := True

section Prepared

variable {server : Server} {ruma : Ruma} {base s : Store} {room : RoomId} {cmd : RoomCommand} {d : Decision}

theorem HashNamed.isEventId (named : HashNamed ruma cmd) {id : EventId} {raw : JsonObject}
    (listed : (id, raw) ∈ carried cmd) : ruma.isEventId id := by
  obtain ⟨version, hid⟩ := named _ listed
  obtain ⟨_, _, _, valid⟩ := Ruma.eventId_eq_ok.1 hid
  exact valid

theorem Computes.grounded (h : Computes ruma room base cmd d) (same : SameRoom base s room) :
    Grounded ruma s d.cmd := by
  obtain ⟨-, listed⟩ := h.listed
  have hroom := h.roomId
  obtain ⟨server, raw, version, isCreate, relay, reject, fuel, lawful, rfl, routed, hp, -⟩ := h
  obtain ⟨raw', pdu, id, hvet, hid, _, _, hjudged⟩ := processInner_cases hp
  obtain ⟨hash, _, _, own⟩ := Ruma.eventId_eq_ok.1 hid
  have heventId : d.cmd.eventId = id := by cases hjudged <;> rfl
  have cited : ∀ a ∈ Event.authEvents (⟨id, pdu⟩ : IdentifiedPdu), server.ruma.isEventId a :=
    Pdu.fromCanonical_cites (validatePdu_eq_ok (vet_cases hvet).1).1
  have keyed : isCreate = true → (Event.stateKey (⟨id, pdu⟩ : IdentifiedPdu)).isSome := by
    rintro rfl
    exact routed.create_keyed lawful hvet
  constructor
  · rw [heventId]
    exact own
  · exact hjudged.maps fun _ => reads_eventIds own cited
  · intro accepted tip mem
    rcases (listed accepted tip).1 mem with own | ⟨old, _⟩
    · exact .inl own
    · refine .inr ?_
      rw [hroom] at old ⊢
      rwa [Store.extremities, ← same.roomMeta]
  · intro v hv
    cases hjudged with
    | chainRejected => cases hv
    | stateRejected => cases hv
    | accepted =>
      simp only [acceptedCommand] at hv
      split at hv
      · obtain rfl := Option.some.inj hv
        simp
      · cases hv
  · intro accepted t le stored
    rw [hroom] at le stored ⊢
    refine hjudged.currentGroup (fun id g hg => le id g ?_) keyed accepted stored
    rwa [← same.group]

theorem importRoom_version {version : RoomVersion} {join : JsonObject}
    {state authChain : List JsonObject} {cmd : ImportRoom}
    (h : server.importRoom version join state authChain = .ok cmd) : cmd.version = version.asStr := by
  simp only [Server.importRoom, bind_eq_ok] at h
  obtain ⟨joinId, _, room, _, dump, _, sender, _, h⟩ := h
  split at h
  · cases h
  · obtain rfl := pure_eq_ok.1 h
    rfl

theorem LawfulIn.grounded (h : LawfulIn ruma s cmd) : (grounded ruma).Holds s cmd := by
  obtain ⟨base, server, fuel, call, lawful, rfl, hprep, same⟩ := h
  have append {raw version room isCreate relay reject fuel} {d : Decision}
      (routed : Routed server base raw version room isCreate)
      (hp : processInner server.ruma server.keys base fuel raw version room isCreate relay reject =
        .ok (.inr d)) (same : SameRoom base s d.cmd.roomId) : Grounded server.ruma s d.cmd := by
    have computes : Computes server.ruma room base (.append d.cmd) d :=
      ⟨server, raw, version, isCreate, relay, reject, fuel, lawful, rfl, routed, hp, rfl⟩
    exact computes.grounded (computes.roomId ▸ same)
  cases prepare_produced hprep with
  | append routed hp => exact append routed hp same
  | stamped routed hp => exact append routed hp same
  | @importRoom version join state authChain cmd h =>
    have named := importRoom_hashNamed h
    refine ⟨named.isEventId List.mem_cons_self, ?_, fun entry mem => ?_⟩
    · rw [importRoom_version h, RoomVersion.parse_asStr]
      rfl
    · rcases importRoom_covers h entry mem with join | ⟨ev, hev, hid⟩
      · exact join ▸ named.isEventId List.mem_cons_self
      · exact hid ▸ named.isEventId (List.mem_cons_of_mem _ (List.mem_map_of_mem hev))
  | @importSegment room state authChain chain fuel cmd h =>
    have named := importSegment_hashNamed h
    refine ⟨fun ev mem => ?_, fun entry mem => ?_⟩
    · exact named.isEventId (List.mem_map_of_mem (List.mem_append_right _ mem))
    · obtain ⟨ev, hev, hid⟩ := importSegment_covers h entry mem
      exact hid ▸ named.isEventId (List.mem_map_of_mem (List.mem_append_left _ hev))
  | importHistory h => trivial
  | receipt => trivial

end Prepared

/-! ## The step -/

section Step

variable {ruma : Ruma} {s t : Store} {cmd : RoomCommand} {room : RoomId} {m : RoomMeta}

theorem Stands.later (h : Stands ruma s room m) (le : s.GroupsLe t)
    (kept : ∀ id : EventId, (s.event[id]?).isSome → (t.event[id]?).isSome) : Stands ruma t room m where
  version := h.version
  tips id mem := ⟨(h.tips id mem).1, kept id (h.tips id mem).2⟩
  current := by
    obtain ⟨map, current⟩ := h.current
    exact ⟨map, current.mono fun _ => le _⟩

theorem Standing.write (h : Standing ruma s) (le : s.GroupsLe t)
    (kept : ∀ id : EventId, (s.event[id]?).isSome → (t.event[id]?).isSome)
    (rooms : ∀ (r : RoomId) (m : RoomMeta), t.room[r]? = some m → s.room[r]? = some m ∨ Stands ruma t r m)
    (room : RoomId) (groups : List (Nat × StateGroup))
    (group : t.group = (s.putGroups room groups).group)
    (values : ∀ p ∈ groups, ∀ entry ∈ p.2.entries, ruma.isEventId entry.2) : Standing ruma t := by
  constructor
  · intro r m known
    rcases rooms r m known with old | stands
    · exact (h.rooms r m old).later le kept
    · exact stands
  · intro r id g hg
    rw [group] at hg
    rcases putGroups_cases s room groups r id with ⟨_, g', mem, hval⟩ | ⟨_, old⟩
    · obtain rfl := some_unique hval hg
      exact values _ mem
    · exact h.values r id g (old ▸ hg)

theorem room_putMeta {rows : Store} (hroom : rows.room = s.room) :
    (rows.putMeta room m).room = s.room.insert room m := by
  rw [Store.putMeta, hroom]

theorem rooms_insert (hroom : t.room = s.room.insert room m) (stands : Stands ruma t room m)
    (r : RoomId) (m' : RoomMeta) (known : t.room[r]? = some m') :
    s.room[r]? = some m' ∨ Stands ruma t r m' := by
  rw [hroom, OrdMap.getElem?_insert'] at known
  split at known
  · rename_i same
    obtain rfl := Option.some.inj known
    exact .inr (same ▸ stands)
  · exact .inl known

theorem snapshot_materializes {id : Nat} {state : List (Key × EventId)}
    (group : t.group = (s.putGroups room [(id, ⟨none, 0, state⟩)]).group) :
    ∃ map, Materializes t room id map := by
  have stored : t.group[(room, id)]? = some ⟨none, 0, state⟩ := by
    rw [group]
    simp [Store.putGroups]
  exact ⟨_, .full stored rfl⟩

theorem segmentLoop_lastId (group : Nat) (chain : List ImportEvent) (r : SegmentRun) {id : EventId}
    (h : (chain.foldl (Machine.segmentEvent room group) r).lastId = some id) :
    r.lastId = some id ∨ ∃ ev ∈ chain, ev.eventId = id := by
  induction chain generalizing r with
  | nil => exact .inl h
  | cons ev chain ih =>
    rcases ih _ h with last | ⟨ev', mem, own⟩
    · unfold Machine.segmentEvent at last
      split at last
      · exact .inl last
      · exact .inr ⟨ev, List.mem_cons_self, Option.some.inj last⟩
    · exact .inr ⟨ev', List.mem_cons_of_mem _ mem, own⟩

theorem mem_pushExtremity_cases {extremities : List EventId} {last : Option EventId} {id : EventId}
    (h : id ∈ Machine.pushExtremity extremities last) : id ∈ extremities ∨ last = some id := by
  unfold Machine.pushExtremity at h
  split at h
  · split at h
    · exact .inl h
    · rcases List.mem_append.1 h with old | new
      · exact .inl old
      · obtain rfl := List.mem_singleton.1 new
        exact .inr rfl
  · exact .inl h

theorem standing_effect (h : Standing ruma s) (ground : (grounded ruma).Holds s cmd)
    (nodup : ∀ a, cmd = .append a → (a.newGroups.map Prod.fst).Nodup) (le : s.GroupsLe t)
    (heff : Effect s cmd t) : Standing ruma t := by
  have kept : ∀ id : EventId, (s.event[id]?).isSome → (t.event[id]?).isSome :=
    fun _ => stored_effect heff
  cases heff with
  | idle => exact h
  | tick =>
    exact h.write le kept (fun _ _ known => .inl known) "" [] rfl (by simp)
  | @rejected a rejected absent hrejected =>
    refine h.write le kept (fun r m known => ?_) _ _ Machine.applyRejected_group ground.values
    cases unknown : s.room[a.roomId]? with
    | none =>
      rw [Machine.applyRejected_unknown unknown] at known
      exact .inl known
    | some old =>
      rw [Machine.applyRejected_room unknown] at known
      split at known
      · rename_i same
        obtain rfl := Option.some.inj known
        obtain ⟨version, tips, current⟩ := (h.rooms a.roomId old unknown).later le kept
        exact .inr (same ▸ ⟨version, tips, current⟩)
      · exact .inl known
  | @accepted a s' seq absent hrejected happly =>
    have appended := Machine.applyAccepted_spec happly
    obtain ⟨m, hm, hroom⟩ := appended.room
    refine h.write le kept (rooms_insert hroom ?_) _ _ appended.group ground.values
    have stored := GroupsOk.stored_putGroups (nodup a rfl) appended.group
    have current := ground.current hrejected t (fun _ => le _) stored
    have own : (t.event[a.eventId]?).isSome := by simp [appended.event]
    have tips : ∀ id ∈ a.newExtremities, ruma.isEventId id ∧ (t.event[id]?).isSome := by
      intro id mem
      rcases ground.tips hrejected id mem with rfl | old
      · exact ⟨ground.own, own⟩
      · unfold Store.extremities at old
        cases known : s.room[a.roomId]? with
        | none => simp [known] at old
        | some m₀ =>
          rw [known] at old
          obtain ⟨valid, held⟩ := (h.rooms a.roomId m₀ known).tips id old
          exact ⟨valid, kept id held⟩
    unfold Machine.acceptedMeta at hm
    split at hm
    · rename_i version hversion
      obtain rfl := Except.ok.inj hm
      exact ⟨ground.version version hversion, tips, current⟩
    · split at hm
      · cases hm
      · rename_i m₀ known
        obtain rfl := Except.ok.inj hm
        exact ⟨(h.rooms a.roomId m₀ known).version, tips, current⟩
  | @importRoom c fresh =>
    obtain ⟨own, version, values⟩ := ground
    refine h.write le kept (rooms_insert rfl ⟨version, fun id mem => ?_, snapshot_materializes rfl⟩)
      c.roomId [(Machine.importGroup s c, ⟨none, 0, c.state⟩)] rfl fun p mem => ?_
    · obtain rfl := List.mem_singleton.1 mem
      refine ⟨own, ?_⟩
      change (((s.putSupport c.events).event.insert c.joinEventId _)[c.joinEventId]?).isSome
      simp
    · obtain rfl := List.mem_singleton.1 mem
      exact values
  | @importSegment c m known =>
    obtain ⟨chain, values⟩ := ground
    obtain ⟨group, hroom, -⟩ := Machine.segmentRows_frame s m c
    have stands := (h.rooms c.roomId m known).later le kept
    refine h.write le kept
      (rooms_insert (room_putMeta hroom) ⟨stands.version, fun id mem => ?_, stands.current⟩)
      c.roomId [(m.nextGroup, ⟨none, 0, c.state⟩)] group fun p mem => ?_
    · rcases mem_pushExtremity_cases mem with old | last
      · exact stands.tips id old
      · rcases segmentLoop_lastId m.nextGroup c.timeline _ last with none | ⟨ev, hev, rfl⟩
        · cases none
        · refine ⟨chain ev hev, ?_⟩
          have placed := (Machine.segmentLoop_event_cases c.roomId m.nextGroup c.timeline
            ⟨(s.putSupport c.events).putGroups c.roomId [(m.nextGroup, ⟨none, 0, c.state⟩)], 0,
              none, none⟩ ev.eventId).2 (.inr ⟨ev, hev, rfl⟩)
          obtain ⟨e, he, _⟩ := Store.onTimeline_iff.1 placed
          exact Option.isSome_iff_exists.2 ⟨e, he⟩
    · obtain rfl := List.mem_singleton.1 mem
      exact values
  | @importHistory c m known =>
    obtain ⟨group, hroom, -⟩ := Machine.historyRows_frame s m c
    have stands := (h.rooms c.roomId m known).later le kept
    exact h.write le kept
      (rooms_insert (room_putMeta hroom) ⟨stands.version, stands.tips, stands.current⟩) c.roomId []
      group (by simp)

end Step

/-! ## Runs -/

theorem materializes_core {s : Store} {room : RoomId} {id : Nat} {map : StateIds} :
    Materializes s.core room id map ↔ Materializes s room id map :=
  ⟨fun h => h.mono fun _ _ hg => hg, fun h => h.mono fun _ _ hg => hg⟩

theorem standing_onCore (ruma : Ruma) : OnCore (Standing ruma) := by
  have core {s : Store} {room : RoomId} {m : RoomMeta} :
      Stands ruma s room m ↔ Stands ruma s.core room m := by
    constructor
    · rintro ⟨version, tips, map, current⟩
      exact ⟨version, tips, map, materializes_core.2 current⟩
    · rintro ⟨version, tips, map, current⟩
      exact ⟨version, tips, map, materializes_core.1 current⟩
  intro s
  constructor
  · intro h
    exact ⟨fun room m known => core.1 (h.rooms room m known), h.values⟩
  · intro h
    exact ⟨fun room m known => core.2 (h.rooms room m known), h.values⟩

theorem standing_empty (ruma : Ruma) : Standing ruma Store.empty := by
  constructor
  · intro room m known
    simp [Store.empty] at known
  · intro room id g hg
    simp [Store.empty] at hg

theorem run_standing {ruma : Ruma} {s : Store} (run : Runs (LawfulIn ruma) Store.empty s) :
    Standing ruma s := by
  have inv : GroupsOk s ∧ Standing ruma s := by
    refine Runs.invariant (I := fun s => GroupsOk s ∧ Standing ruma s)
      (fun s => and_congr (groupsOk_onCore s) (standing_onCore ruma s))
      (fun s cmd t h lawful heff => ?_) run ⟨groupsOk_empty, standing_empty ruma⟩
    have fresh := lawful.serialIn.freshIn
    obtain ⟨ok, le⟩ := groups_effect h.1 fresh heff
    exact ⟨ok, standing_effect h.2 (Condition.holds_plain.2 lawful.grounded)
      (fun a ha => (fresh a ha).1.nodup) le heff⟩
  exact inv.2

end Saltator.Room
