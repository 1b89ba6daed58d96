import Saltator.Room.Mapped

/-!
# Rejection is final

The pipeline never lets a rejected event back in: it stores an event once, cites only unrejected
events and maps only those in the states it computes. So every group maps stored unrejected events
(`Rejects.mapped`), and what an unrejected event cites is not rejected (`Rejects.cited`).

The imports write records of their own without asking for rejections, and an event that an imported
one cites may be rejected later. `keepsRejections` names the commands that do neither.
-/

namespace Saltator.Room

open Std
open Saltator.Outcome
open Machine (Effect Touched plain)
open Pipeline
open StateRes (Key StateIds ValueOf PassedOn)

def Store.Sound (s : Store) (id : EventId) : Prop :=
  ∃ e : StoredEvent, s.event[id]? = some e ∧ e.rejected = none

abbrev CitesNone (s : Store) (raw : JsonObject) : Prop :=
  ∀ a ∈ authEventIds raw, s.isRejected a = false

/-- What holds as long as no rejected event got back in. -/
structure Rejects (s : Store) : Prop where
  off : ∀ (id : EventId) (e : StoredEvent), s.event[id]? = some e → e.rejected.isSome → e.seq = 0
  cited : ∀ (id : EventId) (e : StoredEvent), s.event[id]? = some e → e.rejected = none → CitesNone s e.raw
  mapped : ∀ (room : RoomId) (id : Nat) (g : StateGroup), s.group[(room, id)]? = some g →
    ∀ entry ∈ g.entries, s.Sound entry.2

theorem sound_not_rejected {s : Store} {id : EventId} (h : s.Sound id) : s.isRejected id = false := by
  obtain ⟨e, he, hr⟩ := h
  simp [Store.isRejected, he, hr]

theorem sound_of_stored {s : Store} {id : EventId} (hstored : (s.event[id]?).isSome)
    (h : s.isRejected id = false) : s.Sound id := by
  obtain ⟨e, he⟩ := Option.isSome_iff_exists.1 hstored
  refine ⟨e, he, ?_⟩
  simpa [Store.isRejected, he] using h

theorem Materializes.values {s : Store} {room : RoomId} {id : Nat} {map : StateIds}
    (h : Materializes s room id map) {key : Key} {v : EventId} (hv : map[key]? = some v) :
    ∃ (id : Nat) (g : StateGroup), s.group[(room, id)]? = some g ∧ ∃ entry ∈ g.entries, entry.2 = v := by
  -- A value of a group's state is one of its entries, or comes from the state below.
  have entry : ∀ (g : StateGroup) (base : StateIds), (Store.applyEntries base g)[key]? = some v →
      (∃ entry ∈ g.entries, entry.2 = v) ∨ base[key]? = some v := by
    intro g base hval
    rcases OrdMap.foldl_insert_cases Prod.fst Prod.snd g.entries base key with
      ⟨e, he, _, hsome⟩ | ⟨_, hsame⟩
    · exact .inl ⟨e, he, some_unique hsome hval⟩
    · exact .inr (hsame.symm.trans hval)
  induction h with
  | @full id g stored _ =>
    rcases entry g ∅ hv with hin | hbase
    · exact ⟨id, g, stored, hin⟩
    · simp at hbase
  | @delta id p g map stored _ _ ih =>
    rcases entry g map hv with hin | hbase
    · exact ⟨id, g, stored, hin⟩
    · exact ih hbase

/-! ## What the pipeline maps -/

section Pipeline

variable {ruma : Ruma} {s : Store} {fuel : Nat} {version : RoomVersion} {room : RoomId}
  {isCreate relay : Bool} {event : IdentifiedPdu} {raw : JsonObject} {held : List (IdentifiedPdu × Bool)}
  {prevGroups : OrdSet Nat} {before : Held} {d : Decision}

def Mappable (s : Store) (event : IdentifiedPdu) (id : EventId) : Prop :=
  s.Sound id ∨ id = event.eventId

theorem materialize_sound (inv : Rejects s) {group : Nat} {map : StateIds}
    (h : materialize ruma s fuel room group = .ok map) {key : Key} {v : EventId}
    (hv : map[key]? = some v) : s.Sound v := by
  obtain ⟨id, g, hg, entry, hentry, rfl⟩ := (materialize_materializes h).values hv
  exact inv.mapped room id g hg entry hentry

theorem Pipeline.Passed.auth_sound
    (passed : Passed ruma s fuel version room isCreate event held prevGroups before) :
    ∀ a ∈ Event.authEvents event, s.Sound a := by
  have hentries : ∀ p ∈ held, p.2 = false := by
    have hown := passed.own
    unfold checkOwnAuth at hown
    split at hown
    · simp at hown
    · rename_i hcheck
      rw [Auth.checkAuthEvents, bind_eq_ok] at hcheck
      obtain ⟨acc, hfold, _⟩ := hcheck
      -- The fold stops at a rejected entry.
      have unrejected := (foldlM_spec
        (I := fun done _ => ∀ entry ∈ done, Auth.AuthEntry.rejected entry = false)
        (F := fun _ => True) (fun done entry acc acc' _ inv hstep => ?_)
        (fun _ _ _ _ _ _ _ => trivial) (by simp)).1 acc hfold
      · intro p hp
        exact unrejected ⟨p.1, p.2⟩ (List.mem_map.2 ⟨p, hp, rfl⟩)
      · intro e he
        rcases List.mem_append.1 he with he | he
        · exact inv e he
        · obtain rfl := List.mem_singleton.1 he
          unfold Auth.checkAuthEntry at hstep
          dsimp only at hstep
          cases hr : e.rejected with
          | false => rfl
          | true =>
            rw [hr] at hstep
            split at hstep
            · simp at hstep
            · split at hstep <;> simp at hstep
  obtain ⟨hids, hheld⟩ := fetchAuth_held passed.auth
  intro a ha
  rw [← hids] at ha
  obtain ⟨p, hp, rfl⟩ := List.mem_map.1 ha
  obtain ⟨se, hse, _, hrej⟩ := hheld p hp
  refine ⟨se, hse, ?_⟩
  rw [hentries p hp] at hrej
  simpa using hrej.symm

theorem resolve_mappable (inv : Rejects s) (hnew : s.event[event.eventId]? = none)
    (hauth : ∀ a ∈ Event.authEvents event, s.Sound a) {sets : List StateIds} {result : StateIds}
    (hsets : ∀ id, ValueOf sets id → Mappable s event id)
    (h : StateRes.resolve ruma version (fetchFor ruma s event) fuel sets = .ok result) {key : Key}
    {v : EventId} (hv : result[key]? = some v) : Mappable s event v := by
  have pass : PassedOn (fetchFor ruma s event) fun id => s.isRejected id = false := by
    intro id e hid he a ha
    unfold fetchFor at he
    split at he
    · obtain rfl := Option.some.inj he
      exact sound_not_rejected (hauth a ha)
    · split at he
      · simp at he
      · rename_i se hse
        have hrej : se.rejected = none := by simpa [Store.isRejected, hse] using hid
        rw [hrej] at he
        cases hparse : parseStored ruma id se with
        | error err => simp [hparse] at he
        | ok e' =>
          obtain rfl : e' = e := by simpa [hparse] using he
          rw [parseStored, bind_eq_ok] at hparse
          obtain ⟨pdu, hpdu, hparse⟩ := hparse
          obtain rfl := pure_eq_ok.1 hparse
          rw [ofFormat, mapError_eq_ok] at hpdu
          have ha' : a ∈ authEventIds se.raw := (Pdu.fromCanonical_views hpdu).authEvents ▸ ha
          exact inv.cited id se hse hrej a ha'
  have unrejected : ∀ id, Mappable s event id → s.isRejected id = false := by
    rintro id (hid | rfl)
    · exact sound_not_rejected hid
    · simp [Store.isRejected, hnew]
  rcases StateRes.resolve_values pass (fun id hid => unrejected id (hsets id hid)) h hv with
    hval | ⟨hrej, hheld⟩
  · exact hsets v hval
  · by_cases hid : v = event.eventId
    · exact .inr hid
    · refine .inl (sound_of_stored ?_ hrej)
      unfold fetchFor at hheld
      rw [if_neg hid] at hheld
      split at hheld
      · simp at hheld
      · rename_i se hse
        simp [hse]

theorem Pipeline.Passed.reads (inv : Rejects s) (hnew : s.event[event.eventId]? = none)
    (passed : Passed ruma s fuel version room isCreate event held prevGroups before) :
    Reads ruma s fuel version room event (Mappable s event) where
  own := .inr rfl
  group _ _ hm _ _ hv := .inl (materialize_sound inv hm hv)
  resolved _ _ hsets h _ _ hv := resolve_mappable inv hnew passed.auth_sound hsets h hv

theorem Pipeline.Judged.sound (inv : Rejects s) (hnew : s.event[event.eventId]? = none)
    (h : Judged ruma s fuel version room isCreate relay event raw d) :
    (∀ p ∈ d.cmd.newGroups, ∀ entry ∈ p.2.entries, Mappable s event entry.2) ∧
      d.cmd.eventId = event.eventId ∧ d.cmd.raw = raw ∧
      (d.cmd.rejected = none → ∀ a ∈ Event.authEvents event, s.Sound a) := by
  refine ⟨h.maps (Passed.reads inv hnew), ?_⟩
  cases h with
  | chainRejected prevs => exact ⟨rfl, rfl, fun hr => by simp [rejectedCommand] at hr⟩
  | stateRejected passed => exact ⟨rfl, rfl, fun hr => by simp [rejectedCommand] at hr⟩
  | accepted passed hafter hcurrent hredacts => exact ⟨rfl, rfl, fun _ => passed.auth_sound⟩

end Pipeline

/-! ## The commands -/

/-- No rejected event gets back in. A rejected event is neither cited by an unrejected one nor mapped
by the groups stored along with it; what an import maps, or puts on the timeline, is not held as
rejected, and what it stores anew cites no rejected event. -/
abbrev keepsRejections : Condition where
  append s cmd := cmd.rejected.isSome →
    (∀ p ∈ s.event.toList, p.2.rejected = none → cmd.eventId ∉ authEventIds p.2.raw) ∧
      ∀ p ∈ cmd.newGroups, ∀ entry ∈ p.2.entries, entry.2 ≠ cmd.eventId
  importRoom s cmd := s.isRejected cmd.joinEventId = false ∧ CitesNone s cmd.joinRaw ∧
    (∀ entry ∈ cmd.state, s.isRejected entry.2 = false) ∧
    ∀ ev ∈ cmd.events, s.event[ev.eventId]? = none → CitesNone s ev.raw
  importSegment s cmd :=
    (∀ ev ∈ cmd.timeline, s.onTimeline ev.eventId = false →
      s.isRejected ev.eventId = false ∧ CitesNone s ev.raw) ∧
    (∀ entry ∈ cmd.state, s.isRejected entry.2 = false) ∧
    ∀ ev ∈ cmd.events, s.event[ev.eventId]? = none → CitesNone s ev.raw
  importHistory s cmd := ∀ ev ∈ cmd.events, s.event[ev.eventId]? = none → CitesNone s ev.raw

instance (s : Store) (cmd : AppendEvent) : Decidable (keepsRejections.append s cmd) := inferInstance

instance (s : Store) (cmd : ImportRoom) : Decidable (keepsRejections.importRoom s cmd) :=
  inferInstance

instance (s : Store) (cmd : ImportSegment) : Decidable (keepsRejections.importSegment s cmd) :=
  inferInstance

/-- What the computation of a command established: an append maps and cites sound events, and the
state of an import is made of events it carries. -/
abbrev mapsSound : Condition where
  append s cmd :=
    (∀ p ∈ cmd.newGroups, ∀ entry ∈ p.2.entries, s.Sound entry.2 ∨ entry.2 = cmd.eventId) ∧
      (cmd.rejected = none → ∀ a ∈ authEventIds cmd.raw, s.Sound a)
  importRoom _ cmd := ∀ entry ∈ cmd.state, entry.2 = cmd.joinEventId ∨
    ∃ ev ∈ cmd.events, ev.eventId = entry.2
  importSegment _ cmd := ∀ entry ∈ cmd.state, ∃ ev ∈ cmd.events, ev.eventId = entry.2
  importHistory _ _ := True

section Prepared

variable {server : Server} {s : Store}

def Server.Dump.Covers (d : Server.Dump) : Prop :=
  (∀ id ∈ d.seen, ∃ ev ∈ d.events, ev.eventId = id) ∧
    ∀ (key : Key) v, d.stateMap[key]? = some v → ∃ ev ∈ d.events, ev.eventId = v

theorem dump_add_covers {d : Server.Dump} (h : d.Covers) (id : EventId) (obj : JsonObject)
    (inState : Bool) : (d.add id obj inState).Covers := by
  -- The events only grow, and the new id is among them.
  have grow : ∀ ev ∈ d.events, ev ∈ (d.add id obj inState).events := by
    intro ev hev
    unfold Server.Dump.add
    dsimp only
    split
    · exact hev
    · exact List.mem_append_left _ hev
  have self : ∃ ev ∈ (d.add id obj inState).events, ev.eventId = id := by
    by_cases hseen : d.seen.contains id = true
    · obtain ⟨ev, hev, hid⟩ := h.1 id (ExtTreeSet.contains_iff_mem.1 hseen)
      exact ⟨ev, grow ev hev, hid⟩
    · exact ⟨Server.importEventOf id obj, by simp [Server.Dump.add, hseen], rfl⟩
  refine ⟨fun a ha => ?_, fun key v hv => ?_⟩
  · rcases OrdSet.mem_insert'.1 ha with rfl | ha
    · exact self
    · obtain ⟨ev, hev, hid⟩ := h.1 a ha
      exact ⟨ev, grow ev hev, hid⟩
  · have old : d.stateMap[key]? = some v → ∃ ev ∈ (d.add id obj inState).events, ev.eventId = v := by
      intro hold
      obtain ⟨ev, hev, hid⟩ := h.2 key v hold
      exact ⟨ev, grow ev hev, hid⟩
    unfold Server.Dump.add at hv
    dsimp only at hv
    split at hv
    · split at hv
      · rw [OrdMap.getElem?_insert'] at hv
        split at hv
        · exact Option.some.inj hv ▸ self
        · exact old hv
      · exact old hv
    · exact old hv

theorem dump_empty_covers : Server.Dump.Covers ⟨[], ∅, ∅⟩ := ⟨by simp, by simp⟩

theorem dump_covers {version : RoomVersion} {objs : List JsonObject} {dump : Server.Dump}
    (h : objs.foldlM (fun (d : Server.Dump) obj => do
      let id ← ofFormat (server.ruma.eventId obj version)
      return d.add id obj true) ⟨[], ∅, ∅⟩ = .ok dump) : dump.Covers :=
  (foldlM_spec (I := fun _ => Server.Dump.Covers) (F := fun _ => True)
    (fun done obj acc acc' _ inv hstep => by
      obtain ⟨id, _, hstep⟩ := bind_eq_ok.1 hstep
      exact pure_eq_ok.1 hstep ▸ dump_add_covers inv id obj true)
    (fun _ _ _ _ _ _ _ => trivial) dump_empty_covers).1 _ h

theorem importRoom_covers {version : RoomVersion} {join : JsonObject} {state authChain : List JsonObject}
    {cmd : ImportRoom} (h : server.importRoom version join state authChain = .ok cmd) :
    ∀ entry ∈ cmd.state, entry.2 = cmd.joinEventId ∨ ∃ ev ∈ cmd.events, ev.eventId = entry.2 := by
  simp only [Server.importRoom, bind_eq_ok] at h
  obtain ⟨joinId, _, room, _, dump, hdump, sender, _, h⟩ := h
  have covers := dump_covers hdump
  split at h
  · simp at h
  · obtain rfl := pure_eq_ok.1 h
    intro entry hentry
    have hv := OrdMap.mem_toList.1 hentry
    rw [OrdMap.getElem?_insert'] at hv
    split at hv
    · exact .inl (Option.some.inj hv).symm
    · exact .inr (covers.2 _ _ hv)

theorem importSegment_covers {room : RoomId} {state authChain chain : List JsonObject} {fuel : Nat}
    {cmd : ImportSegment} (h : server.importSegment s fuel room state authChain chain = .ok cmd) :
    ∀ entry ∈ cmd.state, ∃ ev ∈ cmd.events, ev.eventId = entry.2 := by
  unfold Server.importSegment at h
  split at h
  · simp at h
  simp only [bind_eq_ok] at h
  obtain ⟨version, _, ⟨dump, verdict⟩, hdump, h⟩ := h
  obtain rfl := pure_eq_ok.1 h
  have covers : dump.Covers := by
    refine (foldlM_spec (I := fun _ (acc : Server.Dump × OrdMap EventId Bool) => acc.1.Covers)
      (F := fun _ => True) (fun done entry acc acc' _ inv hstep => ?_)
      (fun _ _ _ _ _ _ _ => trivial) dump_empty_covers).1 _ hdump
    unfold Server.snapshotObject at hstep
    split at hstep
    · obtain rfl := Except.ok.inj hstep
      exact inv
    · obtain ⟨⟨ok, verdict'⟩, _, hstep⟩ := bind_eq_ok.1 hstep
      dsimp only at hstep
      split at hstep
      · exact pure_eq_ok.1 hstep ▸ dump_add_covers inv _ _ _
      · exact pure_eq_ok.1 hstep ▸ inv
  exact fun entry hentry => covers.2 _ _ (OrdMap.mem_toList.1 hentry)

theorem produced_mapsSound {cmd : RoomCommand} (inv : Rejects s) (h : Produced server s cmd) :
    mapsSound.Holds s cmd := by
  have append : ∀ {raw version room isCreate relay reject fuel} {d : Decision},
      processInner server.ruma server.keys s fuel raw version room isCreate relay reject =
        .ok (.inr d) → mapsSound.append s d.cmd := by
    intro raw version room isCreate relay reject fuel d hp
    obtain ⟨raw', pdu, id, hvet, _, hnew, _, hjudged⟩ := processInner_cases hp
    obtain ⟨hgroups, hid, hraw, hauth⟩ := hjudged.sound inv hnew
    refine ⟨fun p hp entry hentry => hid ▸ hgroups p hp entry hentry, fun hr a ha => ?_⟩
    rw [hraw, ← (vet_views hvet).1.authEvents] at ha
    exact hauth hr a ha
  cases h with
  | append routed hp => exact append hp
  | stamped routed hp => exact append hp
  | importRoom h => exact importRoom_covers h
  | importSegment h => exact importSegment_covers h
  | importHistory h => exact trivial
  | receipt => exact trivial

end Prepared

/-! ## The step -/

section Step

variable {s t : Store} {cmd : RoomCommand} {id : EventId}

theorem sound_effect (heff : Effect s cmd t) (h : s.Sound id) : t.Sound id := by
  obtain ⟨e, he, hr⟩ := h
  rcases heff.event_cases id with hsame | ⟨e', he', touched⟩
  · exact ⟨e, hsame.trans he, hr⟩
  · refine ⟨e', he', ?_⟩
    cases touched with
    | rejected absent => simp [he] at absent
    | reindexed listed held off =>
      obtain rfl := some_unique held he
      exact hr
    | _ => rfl

theorem mapsSound_effect {other : RoomCommand} (heff : Effect s cmd t)
    (h : mapsSound.Holds s other) : mapsSound.Holds t other := by
  have append : ∀ a, mapsSound.append s a → mapsSound.append t a := fun a ha =>
    ⟨fun p hp entry hentry => (ha.1 p hp entry hentry).imp_left (sound_effect heff),
      fun hr a' ha' => sound_effect heff (ha.2 hr a' ha')⟩
  cases other with
  | append a => exact append a h
  | appendStamped a txn => exact append a h
  | _ => exact h

theorem rejected_effect (keeps : keepsRejections.Holds s cmd) (heff : Effect s cmd t)
    (h : s.isRejected id) : t.isRejected id := by
  obtain ⟨e, he, hr⟩ := Store.isRejected_iff.1 h
  rcases heff.event_cases id with hsame | ⟨e', he', touched⟩
  · exact Store.isRejected_iff.2 ⟨e, hsame.trans he, hr⟩
  · cases touched with
    | rejected absent => simp [he] at absent
    | accepted absent => simp [he] at absent
    | support listed absent => simp [he] at absent
    | indexed listed absent => simp [he] at absent
    | joined => simp [keeps.1] at h
    | chained listed off later => simp [(keeps.1 _ listed off).1] at h
    | reindexed listed held off =>
      obtain rfl := some_unique held he
      exact Store.isRejected_iff.2 ⟨_, he', hr⟩

theorem rejected_of_effect (heff : Effect s cmd t) (h : t.isRejected id) :
    s.isRejected id ∨ ∃ a, cmd = .append a ∧ a.rejected.isSome ∧ a.eventId = id := by
  obtain ⟨e, he, hr⟩ := Store.isRejected_iff.1 h
  rcases heff.event_cases id with hsame | ⟨e', he', touched⟩
  · exact .inl (Store.isRejected_iff.2 ⟨e, hsame.symm.trans he, hr⟩)
  · obtain rfl := some_unique he he'
    cases touched with
    | rejected absent hrejected => exact .inr ⟨_, rfl, by simp [hrejected], rfl⟩
    | reindexed listed held off => exact .inl (Store.isRejected_iff.2 ⟨_, held, hr⟩)
    | _ => simp [Machine.acceptedRecord, Store.supportEvent, Machine.joinRecord,
        Machine.chainRecord, Machine.historyEvent] at hr

theorem cited_effect (inv : Rejects s) (ready : mapsSound.Holds s cmd)
    (keeps : keepsRejections.Holds s cmd) (heff : Effect s cmd t) {e : StoredEvent}
    (he : t.event[id]? = some e) (hr : e.rejected = none) : CitesNone t e.raw := by
  intro a ha
  by_contra hrej
  rw [Bool.not_eq_false] at hrej
  -- An event rejected before is not cited by the records the command writes.
  have before : s.isRejected a = false := by
    rcases heff.event_cases id with hsame | ⟨e', he', touched⟩
    · exact inv.cited id e (hsame.symm.trans he) hr a ha
    · obtain rfl := some_unique he he'
      cases touched with
      | rejected => simp [Machine.rejectedRecord] at hr
      | accepted absent hrejected => exact sound_not_rejected (ready.2 hrejected a ha)
      | @support _ ev listed absent =>
        cases cmd with
        | importRoom cmd => exact keeps.2.2.2 ev listed absent a ha
        | importSegment cmd => exact keeps.2.2 ev listed absent a ha
        | _ => simp [Machine.supportOf] at listed
      | joined => exact keeps.2.1 a ha
      | chained listed off later => exact (keeps.1 _ listed off).2 a ha
      | indexed listed absent => exact keeps _ listed absent a ha
      | reindexed listed held off => exact inv.cited _ _ held hr a ha
  rcases rejected_of_effect heff hrej with hold | ⟨cmd', rfl, hcmd, rfl⟩
  · simp [before] at hold
  · -- A newly rejected event is not cited by the records that were there, nor by itself.
    have hcite := (keeps hcmd).1
    rcases heff.event_cases id with hsame | ⟨e', he', touched⟩
    · exact hcite (id, e) (OrdMap.mem_toList.2 (hsame.symm.trans he)) hr ha
    · obtain rfl := some_unique he he'
      cases touched with
      | rejected => simp [Machine.rejectedRecord] at hr
      | accepted absent hrejected => simp [hrejected] at hcmd
      | support listed => simp [Machine.supportOf] at listed

theorem mapped_effect (inv : Rejects s) (ready : mapsSound.Holds s cmd)
    (keeps : keepsRejections.Holds s cmd) (heff : Effect s cmd t) (room : RoomId) (id : Nat)
    (g : StateGroup) (hg : t.group[(room, id)]? = some g) : ∀ entry ∈ g.entries, t.Sound entry.2 := by
  have old : s.group[(room, id)]? = some g → ∀ entry ∈ g.entries, t.Sound entry.2 :=
    fun hold entry hentry => sound_effect heff (inv.mapped room id g hold entry hentry)
  -- A group that was written has sound entries, one that was not is as before.
  have put : ∀ (r : RoomId) (groups : List (Nat × StateGroup)), t.group = (s.putGroups r groups).group →
      (∀ p ∈ groups, ∀ entry ∈ p.2.entries, t.Sound entry.2) → ∀ entry ∈ g.entries,
      t.Sound entry.2 := by
    intro r groups hgroup hsound
    rw [hgroup] at hg
    rcases putGroups_cases s r groups room id with ⟨_, g', hmem, hval⟩ | ⟨_, hsame⟩
    · obtain rfl := some_unique hval hg
      exact hsound _ hmem
    · exact old (hsame ▸ hg)
  -- What an import maps was not rejected, and is not rejected by the import.
  have imported : ∀ id : EventId, (t.event[id]?).isSome → s.isRejected id = false →
      (∀ a, cmd ≠ .append a) → t.Sound id := by
    intro id hstored hrej hcmd
    refine sound_of_stored hstored ?_
    by_contra hrej'
    rw [Bool.not_eq_false] at hrej'
    rcases rejected_of_effect heff hrej' with hold | ⟨a, rfl, _⟩
    · simp [hrej] at hold
    · exact hcmd a rfl
  cases heff with
  | idle => exact old hg
  | tick => exact old hg
  | @rejected cmd rejected absent hrejected =>
    refine put cmd.roomId cmd.newGroups Machine.applyRejected_group fun p hp entry hentry => ?_
    rcases ready.1 p hp entry hentry with hsound | hself
    · exact sound_effect (.rejected absent hrejected) hsound
    · exact absurd hself ((keeps (by simp [hrejected])).2 p hp entry hentry)
  | @accepted cmd s' seq absent hrejected happly =>
    have happended := Machine.applyAccepted_spec happly
    refine put cmd.roomId cmd.newGroups happended.group fun p hp entry hentry => ?_
    rcases ready.1 p hp entry hentry with hsound | hself
    · exact sound_effect (.accepted absent hrejected happly) hsound
    · refine ⟨Machine.acceptedRecord cmd (s.seq + 1), ?_, rfl⟩
      rw [hself, happended.event]
      simp
  | @importRoom cmd fresh =>
    refine put cmd.roomId [(Machine.importGroup s cmd, ⟨none, 0, cmd.state⟩)] rfl
      fun p hp entry hentry => ?_
    obtain rfl := List.mem_singleton.1 hp
    refine imported entry.2 ?_ (keeps.2.2.1 entry hentry) (by simp)
    change (((s.putSupport cmd.events).event.insert cmd.joinEventId _)[entry.2]?).isSome
    rw [OrdMap.getElem?_insert']
    split
    · rfl
    · rename_i hne
      rcases ready entry hentry with hjoin | hin
      · exact absurd hjoin hne
      · exact (s.putSupport_event_cases cmd.events entry.2).2 hin
  | @importSegment cmd m known =>
    obtain ⟨hgroup, _⟩ := Machine.segmentRows_frame s m cmd
    refine put cmd.roomId [(m.nextGroup, ⟨none, 0, cmd.state⟩)] hgroup fun p hp entry hentry => ?_
    obtain rfl := List.mem_singleton.1 hp
    refine imported entry.2 ?_ (keeps.2.1 entry hentry) (by simp)
    have hsupport := (s.putSupport_event_cases cmd.events entry.2).2 (ready entry hentry)
    rcases (Machine.segmentLoop_event_cases cmd.roomId m.nextGroup cmd.timeline
      ⟨(s.putSupport cmd.events).putGroups cmd.roomId [(m.nextGroup, ⟨none, 0, cmd.state⟩)], 0,
        none, none⟩ entry.2).1 with hsame | ⟨_, _, _, _, _, _, hrec⟩
    · exact (congrArg Option.isSome hsame).trans hsupport
    · exact congrArg Option.isSome hrec
  | @importHistory cmd m known =>
    obtain ⟨hgroup, _⟩ := Machine.historyRows_frame s m cmd
    exact old (hgroup ▸ hg)

theorem rejects_effect (inv : Rejects s) (ready : mapsSound.Holds s cmd)
    (keeps : keepsRejections.Holds s cmd) (heff : Effect s cmd t) : Rejects t := by
  refine ⟨fun id e he hr => ?_, fun id e he hr => cited_effect inv ready keeps heff he hr,
    mapped_effect inv ready keeps heff⟩
  rcases heff.event_cases id with hsame | ⟨e', he', touched⟩
  · exact inv.off id e (hsame.symm.trans he) hr
  · obtain rfl := some_unique he he'
    cases touched with
    | rejected => rfl
    | @reindexed _ _ old _ listed held off => exact inv.off _ old held hr
    | _ => simp [Machine.acceptedRecord, Store.supportEvent, Machine.joinRecord,
        Machine.chainRecord, Machine.historyEvent] at hr

end Step

/-! ## Runs -/

theorem rejects_empty : Rejects Store.empty := by
  refine ⟨?_, ?_, ?_⟩ <;> intro <;> simp [Store.empty]

theorem rejects_onCore : OnCore Rejects := fun _ =>
  ⟨fun h => ⟨h.off, h.cited, h.mapped⟩, fun h => ⟨h.off, h.cited, h.mapped⟩⟩

theorem mapsSound_onCore (cmd : RoomCommand) : OnCore fun s => mapsSound.Holds s cmd := by
  intro s
  cases cmd <;> exact Iff.rfl

/-- **Rejection is final.** In every interleaving of calls and applied commands in which no command
lets a rejected event back in, an event once stored as rejected stays so, gets no timeline position
and is mapped by no state group. -/
theorem run_keeps_rejected {ruma : Ruma} {c c' : Config}
    (reached : Config.Runs ruma keepsRejections.Holds Config.init c)
    (run : Config.Runs ruma keepsRejections.Holds c c') {id : EventId}
    (h : c.store.isRejected id) :
    c'.store.isRejected id ∧ c'.store.onTimeline id = false ∧
      ∀ (fuel : Nat) (room : RoomId) (group : Nat) (map : StateIds),
        c'.store.resolveGroup fuel room group = .ok map → ∀ key : Key, map[key]? ≠ some id := by
  have carry : ∀ {c c' : Config} (P : Store → Prop), OnCore P →
      (∀ s cmd t, P s → keepsRejections.Holds s cmd → Effect s cmd t → P t) →
      Config.Runs ruma keepsRejections.Holds c c' → Rejects c.store →
      (∀ cmd ∈ c.pool, mapsSound.Holds c.store cmd) → P c.store →
      (Rejects c'.store ∧ P c'.store) ∧ ∀ cmd ∈ c'.pool, mapsSound.Holds c'.store cmd := by
    intro c c' P hP step run inv pool init
    refine Config.Runs.invariant (I := fun s => Rejects s ∧ P s) (R := mapsSound.Holds)
      (fun s => and_congr (rejects_onCore s) (hP s)) mapsSound_onCore
      (fun server s cmd inv _ hproduced => produced_mapsSound inv.1 hproduced)
      (fun s cmd other t _ ready _ _ heff => mapsSound_effect heff ready)
      (fun s cmd t inv ready keeps heff => ?_) run ⟨⟨inv, init⟩, pool⟩
    rw [← Condition.holds_plain] at ready keeps
    exact ⟨rejects_effect inv.1 ready keeps heff, step s _ t inv.2 keeps heff⟩
  obtain ⟨⟨inv, -⟩, pool⟩ := carry (fun _ => True) (fun _ => Iff.rfl) (fun _ _ _ _ _ _ => trivial)
    reached rejects_empty (by simp [Config.init]) trivial
  obtain ⟨⟨inv', hrej⟩, -⟩ := carry (fun s => s.isRejected id) (fun _ => Iff.rfl)
    (fun _ _ _ h keeps heff => rejected_effect keeps heff h) run inv pool h
  refine ⟨hrej, ?_, fun fuel room group map hmap key hkey => ?_⟩
  · obtain ⟨e, he, hr⟩ := Store.isRejected_iff.1 hrej
    simp [Store.onTimeline, he, inv'.off id e he hr]
  · obtain ⟨gid, g, hg, entry, hentry, rfl⟩ := (resolveGroup_materializes hmap).values hkey
    simp [sound_not_rejected (inv'.mapped room gid g hg entry hentry)] at hrej

def sampleIntruder : JsonObject :=
  Ruma.samplePdu "i" "m.room.message" none "@b:x" [] ["$c"] ["$j"] 3

/-- The room `!r:x` with a rejected event, and what further calls make of it. -/
theorem exists_rejected_run (P : Store → RoomCommand → Prop) [∀ s cmd, Decidable (P s cmd)]
    (calls : List Call) (p : Store → Bool)
    (h : ((Server.sample ["x"]).serveAll P 9 Store.empty [.ingest Ruma.sampleCreate false,
      .ingest Ruma.sampleJoin false, .ingest sampleIntruder false]).any (fun s =>
        s.isRejected "$i" && ((Server.sample ["x"]).serveAll P 9 s calls).any p) = true) :
    ∃ c c' : Config, Config.Runs Ruma.sample P Config.init c ∧ Config.Runs Ruma.sample P c c' ∧
      c.store.isRejected "$i" ∧ p c'.store := by
  obtain ⟨s, hs, hp⟩ := (Option.any_eq_true _ _).1 h
  rw [Bool.and_eq_true, Option.any_eq_true] at hp
  obtain ⟨hrej, s', hs', hp'⟩ := hp
  obtain ⟨pool, run⟩ := Config.serveAll_config hs []
  obtain ⟨pool', run'⟩ := Config.serveAll_config hs' pool
  exact ⟨⟨s, pool⟩, ⟨s', pool'⟩, run, run', hrej, hp'⟩

theorem run_keeps_rejected_intruder : ∃ c c' : Config, c.store.isRejected "$i" ∧
    c'.store.onTimeline "$m" ∧ c'.store.isRejected "$i" ∧ c'.store.onTimeline "$i" = false := by
  obtain ⟨c, c', reached, run, hrej, hp⟩ := exists_rejected_run keepsRejections.Holds
    [.ingest (Ruma.samplePdu "m" "m.room.message" none "@a:x" [] ["$c", "$j"] ["$j"] 3) false]
    (fun s => s.onTimeline "$m") (by decide +kernel)
  obtain ⟨hrej', hoff, _⟩ := run_keeps_rejected reached run hrej
  exact ⟨c, c', hrej, hp, hrej', hoff⟩

/-- A rejected event that returns in a recovered chain is accepted. -/
theorem chain_accepts_rejected : ∃ c c' : Config, Config.Runs Ruma.sample (fun _ _ => True) Config.init c ∧
      Config.Runs Ruma.sample (fun _ _ => True) c c' ∧ c.store.isRejected "$i" ∧
      c'.store.isRejected "$i" = false ∧ c'.store.onTimeline "$i" := by
  obtain ⟨c, c', reached, run, hrej, hp⟩ := exists_rejected_run (fun _ _ => True)
    [.importSegment "!r:x" [Ruma.sampleCreate] [] [sampleIntruder]]
    (fun s => !s.isRejected "$i" && s.onTimeline "$i") (by decide +kernel)
  rw [Bool.and_eq_true, Bool.not_eq_true'] at hp
  exact ⟨c, c', reached, run, hrej, hp.1, hp.2⟩

end Saltator.Room
