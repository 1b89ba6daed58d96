import Saltator.Room.Elsewhere
import Saltator.Room.Standing

/-!
# What a local event makes of the members

A room's members are what its current state maps. Along runs in which every command is computed from the
store it is applied to, that state maps stored events only, and an event that is sent on the room's tips
changes what it maps in the one place that the event is about.
-/

namespace Saltator.Room

open Std
open Saltator.Outcome
open Saltator.Stateful
open Machine (Effect plain applyRejected)
open Pipeline
open StateRes (Key StateIds)

/-! ## What the groups map is stored -/

def MapsStored (s : Store) : Prop :=
  ∀ (room : RoomId) (id : Nat) (g : StateGroup), s.group[(room, id)]? = some g →
    ∀ entry ∈ g.entries, (s.event[entry.2]?).isSome

abbrev mapsStored : Condition where
  append s a := ∀ p ∈ a.newGroups, ∀ entry ∈ p.2.entries, entry.2 = a.eventId ∨ (s.event[entry.2]?).isSome
  importRoom _ cmd := ∀ entry ∈ cmd.state,
    entry.2 = cmd.joinEventId ∨ ∃ ev ∈ cmd.events, ev.eventId = entry.2
  importSegment _ cmd := ∀ entry ∈ cmd.state, ∃ ev ∈ cmd.events, ev.eventId = entry.2
  importHistory _ _ := True

section Maps

variable {ruma : Ruma} {s t : Store} {fuel : Nat} {version : RoomVersion} {room : RoomId}
  {event : IdentifiedPdu} {cmd : RoomCommand}

theorem Materializes.stored {id : Nat} {map : StateIds} (maps : MapsStored s)
    (h : Materializes s room id map) {key : Key} {v : EventId} (found : map[key]? = some v) :
    (s.event[v]?).isSome := by
  obtain ⟨id, g, held, entry, mem, rfl⟩ := h.values found
  exact maps room id g held entry mem

theorem reads_stored (maps : MapsStored s) :
    Reads ruma s fuel version room event fun id => id = event.eventId ∨ (s.event[id]?).isSome where
  own := .inl rfl
  group _ _ computed _ _ found := .inr ((materialize_materializes computed).stored maps found)
  resolved sets result values computed key v found := by
    have pass : StateRes.PassedOn (fetchFor ruma s event) fun _ => True := fun _ _ _ _ _ _ => trivial
    obtain old | ⟨-, fetched⟩ := StateRes.resolve_values pass (fun _ _ => trivial) computed found
    · exact values v old
    · unfold fetchFor at fetched
      split at fetched
      · exact .inl ‹_›
      · split at fetched
        · cases fetched
        · rename_i held
          exact .inr (by simp [held])

theorem Serial.mapsStored (h : Serial ruma s cmd) (maps : MapsStored s) : mapsStored.Holds s cmd := by
  obtain ⟨server, fuel, call, -, prepared⟩ := h
  have append {raw version room isCreate relay reject fuel} {d : Decision}
      (computed : processInner server.ruma server.keys s fuel raw version room isCreate relay reject =
        .ok (.inr d)) : ∀ p ∈ d.cmd.newGroups, ∀ entry ∈ p.2.entries,
        entry.2 = d.cmd.eventId ∨ (s.event[entry.2]?).isSome := by
    obtain ⟨raw', pdu, id, -, -, -, -, judged⟩ := processInner_cases computed
    have own : d.cmd.eventId = id := by cases judged <;> rfl
    rw [own]
    exact judged.maps fun _ => reads_stored maps
  cases prepare_produced prepared with
  | append routed computed => exact append computed
  | stamped routed computed => exact append computed
  | importRoom computed => exact importRoom_covers computed
  | importSegment computed => exact importSegment_covers computed
  | importHistory computed => trivial
  | receipt => trivial

theorem MapsStored.write (h : MapsStored s)
    (kept : ∀ id : EventId, (s.event[id]?).isSome → (t.event[id]?).isSome)
    (room : RoomId) (groups : List (Nat × StateGroup))
    (group : t.group = (s.putGroups room groups).group)
    (values : ∀ p ∈ groups, ∀ entry ∈ p.2.entries, (t.event[entry.2]?).isSome) : MapsStored t := by
  intro r id g held entry mem
  rw [group] at held
  obtain ⟨-, g', listed, put⟩ | ⟨-, old⟩ := putGroups_cases s room groups r id
  · obtain rfl := some_unique put held
    exact values _ listed entry mem
  · exact kept entry.2 (h r id g (old ▸ held) entry mem)

theorem mapsStored_effect (h : MapsStored s) (holds : mapsStored.Holds s cmd) (heff : Effect s cmd t) :
    MapsStored t := by
  have kept : ∀ id : EventId, (s.event[id]?).isSome → (t.event[id]?).isSome :=
    fun _ => stored_effect heff
  cases heff with
  | idle => exact h
  | tick => exact h
  | @rejected a rejected absent hrejected =>
    refine h.write kept _ _ Machine.applyRejected_group fun p mem entry listed => ?_
    obtain own | old := holds p mem entry listed
    · rw [own, Machine.applyRejected_event]
      simp
    · exact kept _ old
  | @accepted a s' seq absent hrejected happly =>
    have appended := Machine.applyAccepted_spec happly
    refine h.write kept _ _ appended.group fun p mem entry listed => ?_
    obtain own | old := holds p mem entry listed
    · rw [own, appended.event]
      simp
    · exact kept _ old
  | @importRoom c fresh =>
    refine h.write kept c.roomId [(Machine.importGroup s c, ⟨none, 0, c.state⟩)] rfl
      fun p mem entry listed => ?_
    obtain rfl := List.mem_singleton.1 mem
    change (((s.putSupport c.events).event.insert c.joinEventId _)[entry.2]?).isSome
    rw [OrdMap.getElem?_insert']
    split
    · rfl
    · rename_i other
      exact (s.putSupport_event_cases c.events entry.2).2 ((holds entry listed).resolve_left other)
  | @importSegment c m known =>
    obtain ⟨group, -, -⟩ := Machine.segmentRows_frame s m c
    refine h.write kept c.roomId [(m.nextGroup, ⟨none, 0, c.state⟩)] group fun p mem entry listed => ?_
    obtain rfl := List.mem_singleton.1 mem
    have support := (s.putSupport_event_cases c.events entry.2).2 (holds entry listed)
    obtain same | ⟨ev, -, -, -, seq, -, record⟩ := (Machine.segmentLoop_event_cases c.roomId m.nextGroup
      c.timeline ⟨(s.putSupport c.events).putGroups c.roomId [(m.nextGroup, ⟨none, 0, c.state⟩)], 0,
        none, none⟩ entry.2).1
    · exact (congrArg Option.isSome same).trans support
    · exact congrArg Option.isSome record
  | @importHistory c m known =>
    obtain ⟨group, -, -⟩ := Machine.historyRows_frame s m c
    exact h.write kept c.roomId [] group (by simp)

theorem mapsStored_onCore : OnCore MapsStored := fun _ => Iff.rfl

theorem run_mapsStored (run : Runs (Serial ruma) Store.empty s) : MapsStored s :=
  Runs.invariant mapsStored_onCore (fun _ _ _ h serial heff =>
      mapsStored_effect h (Condition.holds_plain.2 (serial.mapsStored h)) heff) run
    fun room id g held => by simp [Store.empty] at held

end Maps

def LawfulSerial (ruma : Ruma) (s : Store) (cmd : RoomCommand) : Prop :=
  ∃ (server : Server) (fuel : Nat) (call : Call), server.Lawful ∧ server.ruma = ruma ∧
    call.prepare server s fuel = .ok (.inr cmd)

/-- What such commands make of an empty store. -/
structure Orderly (ruma : Ruma) (s : Store) : Prop where
  groups : GroupsOk s
  standing : Standing ruma s
  stored : MapsStored s

variable {cmd : RoomCommand} {s : Store}

theorem LawfulSerial.serial {ruma : Ruma} (h : LawfulSerial ruma s cmd) : Serial ruma s cmd := by
  obtain ⟨server, fuel, call, -, same, prepared⟩ := h
  exact ⟨server, fuel, call, same, prepared⟩

theorem LawfulSerial.lawfulIn {ruma : Ruma} (h : LawfulSerial ruma s cmd) : LawfulIn ruma s cmd := by
  obtain ⟨server, fuel, call, lawful, same, prepared⟩ := h
  exact ⟨s, server, fuel, call, lawful, same, prepared, rfl, fun _ => rfl⟩

theorem run_orderly {ruma : Ruma} (run : Runs (LawfulSerial ruma) Store.empty s) : Orderly ruma s where
  groups := Runs.invariant groupsOk_onCore
    (fun _ _ _ h computed heff => (groups_effect h computed.lawfulIn.serialIn.freshIn heff).1) run
    groupsOk_empty
  standing := run_standing (run.mono fun _ _ => LawfulSerial.lawfulIn)
  stored := run_mapsStored (run.mono fun _ _ => LawfulSerial.serial)

theorem serveAll_lawful {server : Server} {P : Store → RoomCommand → Prop} [∀ s cmd, Decidable (P s cmd)]
    {fuel : Nat} {s s' : Store} {calls : List Call} (lawful : server.Lawful)
    (h : server.serveAll P fuel s calls = some s') : Runs (LawfulSerial server.ruma) s s' :=
  serveAll_induction (fun _ => .refl) (fun _ _ _ => Relation.ReflTransGen.trans)
    (fun s _ call cmd response prepared _ applied =>
      .single ⟨s, cmd, response, ⟨server, fuel, call, lawful, rfl, prepared⟩, applied⟩) h

/-! ## A call on a node -/

/-- Make a call, and apply the command that it comes to. -/
def Heal.submit {σ : Type} (fuel : Nat) (call : Call) : Heal σ (Except RoomError Outcome) := fun n =>
  match call.prepare n.server n.store fuel with
  | .error e => (.error e, n)
  | .ok (.inl id) => (.ok (.duplicate id), n)
  | .ok (.inr cmd) =>
    let (response, after) := Heal.propose call cmd n
    (response >>= Heal.outcomeOf, after)

theorem Heal.submit_cases {σ : Type} (fuel : Nat) (call : Call) (n : Node σ) :
    (Heal.submit fuel call n).2.store = n.store ∨
      ∃ cmd response, call.prepare n.server n.store fuel = .ok (.inr cmd) ∧
        Machine.apply n.store n.store cmd = .ok ((Heal.submit fuel call n).2.store, response) := by
  unfold Heal.submit
  split
  · exact .inl rfl
  · exact .inl rfl
  · rename_i cmd prepared
    cases applied : Machine.apply n.store n.store cmd with
    | error e =>
      left
      simp only [Heal.propose, applied]
    | ok done =>
      obtain ⟨after, response⟩ := done
      refine .inr ⟨cmd, response, prepared, ?_⟩
      simp only [Heal.propose, applied]

theorem Heal.submit_runs {σ : Type} {fuel : Nat} {call : Call} {n : Node σ} (lawful : n.server.Lawful)
    (run : Runs (LawfulSerial n.server.ruma) Store.empty n.store) :
    Runs (LawfulSerial n.server.ruma) Store.empty (Heal.submit fuel call n).2.store := by
  obtain same | ⟨cmd, response, prepared, applied⟩ := Heal.submit_cases fuel call n
  · rwa [same]
  · exact run.tail ⟨_, cmd, response, ⟨n.server, fuel, call, lawful, rfl, prepared⟩, applied⟩

section Resident

variable {σ : Type} {ruma : Ruma} {fuel : Nat} {raw : JsonObject}

/-- The store came about by computed commands, and so does what a lawful server makes of it. -/
abbrev Growing (ruma : Ruma) (n : Node σ) : Prop :=
  (n.server.Lawful ∧ n.server.ruma = ruma) ∧ Runs (LawfulSerial ruma) Store.empty n.store

theorem applyResident_growing (coSign : Bool) :
    Keeps (Growing ruma : Node σ → Prop) (applyResident fuel raw coSign) := by
  unfold applyResident
  refine Keeps.get fun n h => ?_
  obtain ⟨⟨lawful, rfl⟩, run⟩ := h
  cases decided : n.server.residentApply n.store fuel raw coSign with
  | error e => exact ⟨⟨lawful, rfl⟩, run⟩
  | ok outcome =>
    cases outcome with
    | inl id => exact ⟨⟨lawful, rfl⟩, run⟩
    | inr d =>
      change Growing n.server.ruma (Heal.propose (.resident raw coSign) (.append d.cmd) n).2
      unfold Heal.propose
      split
      · exact ⟨⟨lawful, rfl⟩, run⟩
      · rename_i after response applied
        have prepared : (Call.resident raw coSign).prepare n.server n.store fuel =
            .ok (.inr (.append d.cmd)) := by
          simp only [Call.prepare, decided, ok_bind]
          rfl
        exact ⟨⟨lawful, rfl⟩,
          run.tail ⟨_, _, response, ⟨n.server, fuel, _, lawful, rfl, prepared⟩, applied⟩⟩

theorem sendJoin_growing : Keeps (Growing ruma : Node σ → Prop) (sendJoin fuel raw) := by
  refine Keeps.bind Keeps.read fun n => ?_
  split
  · exact Keeps.pure _
  · refine Keeps.bind (applyResident_growing true) fun outcome => ?_
    split
    · exact Keeps.pure _
    · exact Keeps.pure _
    · exact Keeps.bind Keeps.read fun n => Keeps.pure _

theorem sendKnock_growing : Keeps (Growing ruma : Node σ → Prop) (sendKnock fuel raw) := by
  refine Keeps.bind Keeps.read fun n => ?_
  split
  · exact Keeps.pure _
  · refine Keeps.bind (applyResident_growing false) fun outcome => ?_
    split
    · exact Keeps.pure _
    · exact Keeps.pure _
    · exact Keeps.bind Keeps.read fun n => Keeps.pure _

end Resident

theorem prepare_send {server : Server} {fuel : Nat} {room : RoomId} {sender : UserId}
    {eventType : String} {stateKey : Option String} {content : JsonObject} {ts : Nat}
    (prepared : (Call.send room sender eventType stateKey content ts none).prepare server s fuel =
      .ok (.inr cmd)) :
    ∃ raw version d, server.buildLocal s fuel room sender eventType stateKey content ts =
        .ok (raw, version) ∧
      processInner server.ruma server.keys s fuel raw version room false false false = .ok (.inr d) ∧
      cmd = .append d.cmd := by
  simp only [Call.prepare, Server.sendLocal, bind_eq_ok, pure_eq_ok, Prod.exists] at prepared
  obtain ⟨outcome, ⟨raw, version, built, computed⟩, out⟩ := prepared
  obtain ⟨d, rfl, rfl⟩ := map_eq_inr out
  refine ⟨raw, version, d, built, computed, ?_⟩
  split <;> rfl

/-! ## A local event -/

def tipState (ruma : Ruma) (s : Store) (fuel : Nat) (room : RoomId) (event : IdentifiedPdu) :
    Except RoomError StateIds :=
  match s.room[room]? with
  | none => .error (.unknownRoom room)
  | some roomMeta => do
    let version ← parseVersion roomMeta.version
    let (groups, _) ← fetchPrevs s fuel roomMeta.extremities
    let before ← stateBefore ruma s fuel version room false (fetchFor ruma s event) groups
      (startAlloc s.room[room]?)
    return before.state

/-- The signature and the hash of an event leave its content alone, and so does a redaction with the
membership of a member event. -/
structure Server.Truthful (server : Server) : Prop extends server.Lawful where
  sign_content : ∀ version raw signed, server.sign version raw = .ok signed →
    signed.lookup "content" = raw.lookup "content"
  redact_membership : ∀ version raw redacted, server.ruma.redact version raw = .ok redacted →
    strProp raw "type" = some "m.room.member" →
    (objProp redacted "content").bind (strProp · "membership") =
      (objProp raw "content").bind (strProp · "membership")

section Send

variable {server : Server} {s t : Store} {fuel : Nat} {room : RoomId} {sender user : UserId}
  {content : JsonObject} {ts : Nat} {version : RoomVersion} {event : IdentifiedPdu}

theorem built_member (truthful : server.Truthful) {signed raw : JsonObject} {pdu : Pdu}
    (built : server.buildLocal s fuel room sender "m.room.member" (some user) content ts =
      .ok (signed, version))
    (vetted : vet server.ruma server.keys version signed = .ok (raw, pdu)) :
    ∃ m, s.room[room]? = some m ∧ RoomVersion.parse m.version = some version ∧
      pdu.eventType = "m.room.member" ∧ pdu.stateKey = some user ∧ pdu.prevEvents = m.extremities ∧
      (objProp raw "content").bind (strProp · "membership") = strProp content "membership" := by
  rw [Server.buildLocal, bind_eq_ok] at built
  obtain ⟨⟨draft, version'⟩, drafted, built⟩ := built
  simp only [bind_eq_ok, pure_eq_ok, Prod.mk.injEq, signEvent_eq_ok] at built
  obtain ⟨_, _, signed, signs, rfl, rfl⟩ := built
  obtain ⟨m, current, depth, known, parsed, -, -, -, -, rfl⟩ := draft_eq_ok.1 drafted
  obtain ⟨views, kept⟩ := vet_views vetted
  have same : ∀ key ∈ protectedMembers, raw.lookup key = _ := fun key mem =>
    ((kept truthful.ruma).1 key mem).trans (truthful.sign_lookup _ _ _ signs key mem)
  have type : strProp signed "type" = some "m.room.member" :=
    (strProp_congr (truthful.sign_lookup _ _ _ signs "type" (by decide))).trans
      (by simp [Server.unsignedEvent, strProp, List.lookup_cons, Json.asStr])
  have signedContent : (objProp signed "content").bind (strProp · "membership") =
      strProp content "membership" := by
    rw [objProp, truthful.sign_content _ _ _ signs]
    simp [Server.unsignedEvent, List.lookup_cons]
  refine ⟨m, known, parsed, ?_, ?_, ?_, ?_⟩
  · have sent := (strProp_congr (same "type" (by decide))).symm.trans views.eventType
    simp [Server.unsignedEvent, strProp, List.lookup_cons, Json.asStr] at sent
    exact sent.symm
  · rw [views.stateKey, strProp_congr (same "state_key" (by decide))]
    simp [Server.unsignedEvent, strProp, List.lookup_cons, Json.asStr]
  · rw [views.prevEvents, prevEventIds, idList, same "prev_events" (by decide)]
    simp [Server.unsignedEvent, Server.stringArray, List.lookup_cons, List.filterMap_map, Function.comp_def,
      Json.asStr]
  · obtain ⟨rfl, -⟩ | ⟨redacted, -⟩ := (vet_cases vetted).2
    · exact signedContent
    · exact (truthful.redact_membership _ _ _ redacted type).trans signedContent

theorem size_newExtremities {m : RoomMeta} (tips : Event.prevEvents event = m.extremities) :
    (newExtremities (some m) event).size = 1 := by
  have own : newExtremities (some m) event = (∅ : OrdSet EventId).insert event.eventId := by
    refine ExtTreeSet.ext_mem fun id => ?_
    rw [← OrdSet.mem_toList', mem_newExtremities, OrdSet.mem_insert', tips]
    simp
  rw [own, ExtTreeSet.size_insert]
  simp

theorem stateAfter_state {before after : Held} {sk : String}
    (h : stateAfter s room false event before = .ok after) (keyed : Event.stateKey event = some sk) :
    after.state = before.state.insert (Event.eventType event, sk) event.eventId := by
  unfold stateAfter at h
  rw [keyed] at h
  dsimp only at h
  split at h
  · obtain rfl := Except.ok.inj h
    rfl
  split at h
  · cases h
  split at h <;> obtain rfl := Except.ok.inj h <;> rfl

theorem tipState_of_passed {m : RoomMeta} {held : List (IdentifiedPdu × Bool)} {prevGroups : OrdSet Nat}
    {before : Held} (passed : Passed server.ruma s fuel version room false event held prevGroups before)
    (known : s.room[room]? = some m) (parsed : RoomVersion.parse m.version = some version)
    (tips : Event.prevEvents event = m.extremities) :
    tipState server.ruma s fuel room event = .ok before.state := by
  have prevs := passed.prevs
  rw [tips] at prevs
  have start := passed.before
  rw [known] at start
  simp only [tipState, known, parseVersion_eq_ok.2 parsed, prevs, ok_bind, start, pure_eq_ok]

/-- What a member event that was sent makes of a store: the current state is as it was, or it is the one
that the room's extremities lead to, with the event in its place. -/
structure Sent (ruma : Ruma) (s : Store) (fuel : Nat) (room : RoomId) (user : UserId)
    (membership : Option String) (t : Store) : Prop where
  kept : ∀ (id : EventId) (e : StoredEvent), s.event[id]? = some e → t.event[id]? = some e
  current : ∀ (m : RoomMeta) (map : StateIds), t.room[room]? = some m →
    Materializes t room m.currentGroup map →
    (∃ old, s.room[room]? = some old ∧ Materializes s room old.currentGroup map) ∨
    ∃ event before id e, tipState ruma s fuel room event = .ok before ∧
      map = before.insert ("m.room.member", user) id ∧ t.event[id]? = some e ∧ membershipOf e = membership

theorem Sent.core {user : UserId} {membership : Option String} {u : Store}
    (h : Sent server.ruma s fuel room user membership u) (same : u.core = t.core) :
    Sent server.ruma s fuel room user membership t := by
  have event := Store.event_of_core same
  have group : u.group = t.group := show u.core.group = t.core.group from congrArg Store.group same
  constructor
  · intro id e held
    rw [← event]
    exact h.kept id e held
  · intro m map known current
    rw [← Store.room_of_core same] at known
    rw [← event]
    exact h.current m map known (current.mono fun _ _ held => group ▸ held)

theorem sent_append {raw : JsonObject} {version : RoomVersion} {d : Decision}
    (truthful : server.Truthful) (orderly : Orderly server.ruma s)
    (built : server.buildLocal s fuel room sender "m.room.member" (some user) content ts =
      .ok (raw, version))
    (computed : processInner server.ruma server.keys s fuel raw version room false false false =
      .ok (.inr d)) (heff : Effect s (.append d.cmd) t) :
    Sent server.ruma s fuel room user (strProp content "membership") t := by
  have fresh : FreshIn s (.append d.cmd) := processInner_freshIn computed rfl ⟨rfl, fun _ => rfl⟩
  obtain ⟨-, le⟩ := groups_effect orderly.groups fresh heff
  have named := processInner_roomId computed
  obtain ⟨raw', pdu, id, vetted, -, absent, -, judged⟩ := processInner_cases computed
  obtain ⟨m, known, parsed, type, keyed, tips, membership⟩ := built_member truthful built vetted
  refine ⟨fun v e held => held_append heff held, fun new map found current => ?_⟩
  -- Where the room's group stays, so does what it comes to.
  have stays (old : RoomMeta) (stood : s.room[room]? = some old)
      (kept : new.currentGroup = old.currentGroup) :
      ∃ old, s.room[room]? = some old ∧ Materializes s room old.currentGroup map := by
    obtain ⟨map', stands⟩ := (orderly.standing.rooms room old stood).current
    rw [kept] at current
    obtain rfl := current.unique (stands.mono fun _ => le _)
    exact ⟨old, stood, stands⟩
  cases heff with
  | idle => exact .inl (stays new found rfl)
  | rejected _ _ =>
    rw [Machine.applyRejected_room (named ▸ known), if_pos named.symm] at found
    obtain rfl := Option.some.inj found
    exact .inl (stays m known rfl)
  | @accepted _ _ seq _ accepted happly =>
    have appended := Machine.applyAccepted_spec happly
    cases judged with
    | chainRejected _ => simp [rejectedCommand] at accepted
    | stateRejected _ => simp [rejectedCommand] at accepted
    | @accepted held prevGroups first after last redacts passed hafter hcurrent _ =>
      -- The event is the room's only extremity, so its own group is the current one.
      have alone : last = after := by
        rw [known, currentState, if_pos (size_newExtremities tips)] at hcurrent
        exact (Except.ok.inj hcurrent).symm
      subst alone
      have stands : Materializes t room last.group last.state :=
        stateAfter_materializes hafter (fun _ => stateBefore_materializes (fun _ => le _) passed.before)
          (by rintro ⟨⟩)
          (GroupsOk.stored_putGroups (fresh _ rfl).1.nodup appended.group)
      have moved : new.currentGroup = last.group := by
        obtain ⟨m', hm, hroom⟩ := appended.room
        rw [hroom] at found
        simp only [acceptedCommand, OrdMap.getElem?_insert', if_true] at found
        obtain rfl := Option.some.inj found
        simp only [Machine.acceptedMeta, acceptedCommand, Bool.false_eq_true, if_false, known] at hm
        obtain rfl := Except.ok.inj hm
        rfl
      rw [moved] at current
      obtain rfl := current.unique stands
      have row : t.event[id]? = some (Machine.acceptedRecord (acceptedCommand version room false false
          ⟨id, pdu⟩ raw' last last (newExtremities s.room[room]? ⟨id, pdu⟩) redacts) (s.seq + 1)) := by
        rw [appended.event]
        exact OrdMap.getElem?_insert'.trans (if_pos rfl)
      refine .inr ⟨⟨id, pdu⟩, first.state, id, _, tipState_of_passed passed known parsed tips, ?_, row, membership⟩
      have place := stateAfter_state hafter keyed
      rwa [show Event.eventType (⟨id, pdu⟩ : IdentifiedPdu) = "m.room.member" from type] at place

end Send

end Saltator.Room
