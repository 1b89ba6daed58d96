import Saltator.Room.Extremities

/-!
# What the extremities cover

An event is covered by a room's extremities when it is one of them or an ancestor of one. An event
that was covered stays covered as long as stored events keep their prev events and every extremity
that goes away is covered by the new ones (`Store.Covered.kept`).

Stored events keep their prev events because an event's id is a hash of them: `HashNamed` says that
the pipeline and the imports store an event only under the id its hash gives.
-/

namespace Saltator.Room

open Std
open Saltator.Outcome
open Machine (Effect Touched plain Appended acceptedRecord applyRejected applyRejected_event
  applyAccepted_spec segmentRows_frame historyRows_frame)
open Pipeline

def Store.Covered (s : Store) (room : RoomId) (id : EventId) : Prop :=
  ∃ tip ∈ s.extremities room, tip = id ∨ Ancestor s tip id

def PrevsKept (s t : Store) : Prop :=
  ∀ (id : EventId) (e : StoredEvent), s.event[id]? = some e →
    ∃ e' : StoredEvent, t.event[id]? = some e' ∧ prevEventIds e'.raw = prevEventIds e.raw

section Covered

variable {s t : Store}

theorem Ancestor.kept (kept : PrevsKept s t) {a b : EventId} (h : Ancestor s a b) : Ancestor t a b := by
  refine Relation.TransGen.mono (fun a b edge => ?_) _ _ h
  obtain ⟨e, he, hb⟩ := edge
  obtain ⟨e', he', same⟩ := kept a e he
  exact ⟨e', he', same ▸ hb⟩

theorem Store.Covered.kept {room : RoomId} {id : EventId} (h : s.Covered room id)
    (kept : PrevsKept s t) (tips : ∀ tip ∈ s.extremities room, t.Covered room tip) :
    t.Covered room id := by
  obtain ⟨tip, htip, below⟩ := h
  obtain ⟨top, htop, above⟩ := tips tip htip
  refine ⟨top, htop, ?_⟩
  rcases below with rfl | below
  · exact above
  · rcases above with rfl | above
    · exact .inr (below.kept kept)
    · exact .inr (above.trans (below.kept kept))

theorem Store.Covered.of_mem {room : RoomId} {tip : EventId} (h : tip ∈ s.extremities room) :
    s.Covered room tip := ⟨tip, h, .inl rfl⟩

theorem prevsKept_insert {id : EventId} {record : StoredEvent} (absent : s.event[id]? = none)
    (hevent : t.event = s.event.insert id record) : PrevsKept s t := by
  intro a e he
  refine ⟨e, ?_, rfl⟩
  rw [hevent, OrdMap.getElem?_insert', if_neg, he]
  rintro rfl
  simp [absent] at he

theorem prevsKept_append {a : AppendEvent} (heff : Effect s (.append a) t) : PrevsKept s t := by
  cases heff with
  | idle => exact fun _ e he => ⟨e, he, rfl⟩
  | rejected absent _ => exact prevsKept_insert absent applyRejected_event
  | accepted absent _ happly => exact prevsKept_insert absent (applyAccepted_spec happly).event

end Covered

/-! ## The step -/

/-- The extremities that an accepted event was computed with: those of the store its computation
read, without its direct prev events, and the event itself. -/
def ListedFrom (base : Store) (a : AppendEvent) : Prop :=
  a.rejected = none → ∀ id, id ∈ a.newExtremities ↔ id = a.eventId ∨
    (id ∈ base.extremities a.roomId ∧ id ∉ prevEventIds a.raw)

section Step

variable {base s t : Store} {a : AppendEvent}

theorem tips_appended (hrejected : a.rejected = none) (listed : ListedFrom base a)
    (known : ∀ tip ∈ s.extremities a.roomId, tip ∈ base.extremities a.roomId)
    (happended : Appended s a t) (room : RoomId) :
    ∀ tip ∈ s.extremities room, t.Covered room tip := by
  intro tip htip
  have tips := extremities_appended happended room
  split at tips
  · rename_i hroom
    subst hroom
    have listed := listed hrejected
    have self : a.eventId ∈ t.extremities a.roomId := by
      rw [tips, listed]
      exact .inl rfl
    by_cases hprev : tip ∈ prevEventIds a.raw
    · exact ⟨a.eventId, self, .inr (.single ⟨acceptedRecord a (s.seq + 1),
        by simp [happended.event], hprev⟩)⟩
    · refine .of_mem ?_
      rw [tips, listed]
      exact .inr ⟨known tip htip, hprev⟩
  · exact .of_mem (tips ▸ htip)

theorem tips_append (listed : ListedFrom base a) (known : s.event[a.eventId]? = none → a.rejected = none →
      ∀ tip ∈ s.extremities a.roomId, tip ∈ base.extremities a.roomId)
    (heff : Effect s (.append a) t) (room : RoomId) :
    ∀ tip ∈ s.extremities room, t.Covered room tip := by
  cases heff with
  | idle => exact fun _ htip => .of_mem htip
  | @rejected _ rejected _ _ =>
    exact fun tip htip => .of_mem (extremities_applyRejected s a rejected room ▸ htip)
  | accepted absent hrejected happly =>
    exact tips_appended hrejected listed (known absent hrejected) (applyAccepted_spec happly) room

theorem mem_pushExtremity {extremities : List EventId} {last : Option EventId} {id : EventId}
    (h : id ∈ extremities) : id ∈ Machine.pushExtremity extremities last := by
  unfold Machine.pushExtremity
  split
  · split
    · exact h
    · exact List.mem_append_left _ h
  · exact h

theorem extremities_putMeta {rows : Store} (hroom : rows.room = s.room) (room : RoomId)
    (roomMeta : RoomMeta) (r : RoomId) : (rows.putMeta room roomMeta).extremities r =
      if r = room then roomMeta.extremities else s.extremities r :=
  extremities_insert (congrArg (fun rooms => rooms.insert room roomMeta) hroom) r

theorem extremities_import {cmd : RoomCommand} (himport : ∀ a, cmd ≠ .append a)
    (heff : Effect s cmd t) (room : RoomId) :
    (∀ tip ∈ s.extremities room, tip ∈ t.extremities room) ∨
      ∃ c : ImportRoom, cmd = .importRoom c ∧ c.roomId = room ∧ (s.room[room]?).isSome ∧
        t.extremities room = [c.joinEventId] := by
  cases heff with
  | idle => exact .inl fun _ htip => htip
  | tick => exact .inl fun _ htip => htip
  | rejected => exact absurd rfl (himport _)
  | accepted => exact absurd rfl (himport _)
  | @importRoom c fresh =>
    have tips := extremities_insert (s := s) (t := (Machine.importRows s c).1.putMeta c.roomId
      (Machine.importMeta s (Machine.importRows s c).1 c)) rfl room
    split at tips
    · rename_i hroom
      subst hroom
      by_cases known : (s.room[c.roomId]?).isSome
      · exact .inr ⟨c, rfl, rfl, known, tips⟩
      · refine .inl fun tip htip => ?_
        rw [Bool.not_eq_true, Option.isSome_eq_false_iff, Option.isNone_iff_eq_none] at known
        simp [Store.extremities, known] at htip
    · exact .inl fun _ htip => tips ▸ htip
  | @importSegment c m known =>
    obtain ⟨-, hroom, -⟩ := segmentRows_frame s m c
    refine .inl fun tip htip => ?_
    rw [extremities_putMeta hroom]
    split
    · rename_i hr
      refine mem_pushExtremity ?_
      rw [hr] at htip
      simpa [Store.extremities, known] using htip
    · exact htip
  | @importHistory c m known =>
    obtain ⟨-, hroom, -⟩ := historyRows_frame s m c
    refine .inl fun tip htip => ?_
    rw [extremities_putMeta hroom]
    split
    · rename_i hr
      rw [hr] at htip
      simpa [Store.extremities, known] using htip
    · exact htip

end Step

/-! ## Events stored under their hash -/

def Hashed (ruma : Ruma) (s : Store) : Prop :=
  ∀ (id : EventId) (e : StoredEvent), s.event[id]? = some e → ∃ version, ruma.eventId e.raw version = .ok id

def carried : RoomCommand → List (EventId × JsonObject)
  | .append cmd => [(cmd.eventId, cmd.raw)]
  | .appendStamped cmd _ => [(cmd.eventId, cmd.raw)]
  | .receipt _ => []
  | .importRoom cmd =>
    (cmd.joinEventId, cmd.joinRaw) :: cmd.events.map fun ev => (ev.eventId, ev.raw)
  | .importHistory cmd => cmd.events.map fun ev => (ev.eventId, ev.raw)
  | .importSegment cmd => (cmd.events ++ cmd.timeline).map fun ev => (ev.eventId, ev.raw)

def HashNamed (ruma : Ruma) (cmd : RoomCommand) : Prop :=
  ∀ c ∈ carried cmd, ∃ version, ruma.eventId c.2 version = .ok c.1

/-- No hash collides where a command is applied: an event that it carries and a stored one whose
hashes give one id have the same prev events. -/
def Collisionless (ruma : Ruma) (s : Store) (cmd : RoomCommand) : Prop :=
  ∀ c ∈ carried cmd, ∀ e : StoredEvent, s.event[c.1]? = some e → ∀ version version',
    ruma.eventId e.raw version = .ok c.1 → ruma.eventId c.2 version' = .ok c.1 →
      prevEventIds e.raw = prevEventIds c.2

section Hashes

variable {ruma : Ruma} {s t : Store} {cmd : RoomCommand}

@[simp] theorem carried_plain : carried (plain cmd) = carried cmd := by
  cases cmd <;> rfl

theorem Machine.Touched.carried {id : EventId} {e : StoredEvent} (h : Touched s cmd id e) :
    (id, e.raw) ∈ carried cmd ∨ ∃ e', s.event[id]? = some e' ∧ e'.raw = e.raw := by
  cases h with
  | rejected absent _ => exact .inl List.mem_cons_self
  | accepted absent _ => exact .inl List.mem_cons_self
  | @support cmd ev listed absent =>
    left
    cases cmd with
    | importRoom c => exact List.mem_cons_of_mem _ (List.mem_map_of_mem listed)
    | importSegment c => exact List.mem_map_of_mem (List.mem_append_left _ listed)
    | _ => simp [Machine.supportOf] at listed
  | joined => exact .inl List.mem_cons_self
  | @chained c ev group seq listed off later =>
    exact .inl (List.mem_map_of_mem (List.mem_append_right _ listed))
  | @indexed c ev idx listed absent => exact .inl (List.mem_map_of_mem listed)
  | @reindexed c ev e idx listed held off => exact .inr ⟨e, held, rfl⟩

theorem hashed_effect (hashed : Hashed ruma s) (named : HashNamed ruma cmd) (heff : Effect s cmd t) :
    Hashed ruma t := by
  intro id e he
  rcases heff.event_cases id with hsame | ⟨e', he', touched⟩
  · exact hashed id e (hsame ▸ he)
  · obtain rfl := some_unique he' he
    rcases touched.carried with listed | ⟨e, held, same⟩
    · exact named _ listed
    · exact same ▸ hashed id e held

theorem prevsKept_effect (hashed : Hashed ruma s) (named : HashNamed ruma cmd)
    (apart : Collisionless ruma s cmd) (heff : Effect s cmd t) : PrevsKept s t := by
  intro id e he
  rcases heff.event_cases id with hsame | ⟨e', he', touched⟩
  · exact ⟨e, hsame.trans he, rfl⟩
  · refine ⟨e', he', ?_⟩
    rcases touched.carried with listed | ⟨e₀, held, same⟩
    · obtain ⟨version, hid⟩ := hashed id e he
      obtain ⟨version', hid'⟩ := named _ listed
      exact (apart _ listed e he version version' hid hid').symm
    · obtain rfl := some_unique held he
      rw [same]

end Hashes

/-! ## The commands that are proposed -/

section Produced

variable {server : Server} {s : Store} {fuel : Nat} {version : RoomVersion}

theorem processInner_hashNamed {raw : JsonObject} {room : RoomId}
    {isCreate relay rejectMissingAuth : Bool} {d : Decision} {cmd : RoomCommand}
    (h : processInner server.ruma server.keys s fuel raw version room isCreate relay
      rejectMissingAuth = .ok (.inr d)) (hplain : plain cmd = .append d.cmd) :
    HashNamed server.ruma cmd := by
  obtain ⟨raw', pdu, id, _, hid, _, _, hjudged⟩ := processInner_cases h
  intro c hc
  rw [← carried_plain, hplain] at hc
  obtain rfl := List.mem_singleton.1 hc
  refine ⟨version, ?_⟩
  cases hjudged <;> exact hid

def Server.Dump.Named (ruma : Ruma) (d : Server.Dump) : Prop :=
  ∀ ev ∈ d.events, ∃ version, ruma.eventId ev.raw version = .ok ev.eventId

theorem dump_add_named {ruma : Ruma} {d : Server.Dump} (h : d.Named ruma) {id : EventId}
    {obj : JsonObject} (hid : ruma.eventId obj version = .ok id)
    (inState : Bool) : (d.add id obj inState).Named ruma := by
  intro ev hev
  unfold Server.Dump.add at hev
  dsimp only at hev
  split at hev
  · exact h ev hev
  · rcases List.mem_append.1 hev with hev | hev
    · exact h ev hev
    · obtain rfl := List.mem_singleton.1 hev
      exact ⟨version, hid⟩

theorem importRoom_hashNamed {join : JsonObject} {state authChain : List JsonObject} {cmd : ImportRoom}
    (h : server.importRoom version join state authChain = .ok cmd) :
    HashNamed server.ruma (.importRoom cmd) := by
  simp only [Server.importRoom, bind_eq_ok, ofFormat, mapError_eq_ok] at h
  obtain ⟨joinId, hjoin, room, _, dump, hdump, sender, _, h⟩ := h
  have named : dump.Named server.ruma :=
    (foldlM_spec (I := fun _ => Server.Dump.Named server.ruma) (F := fun _ => True)
      (fun done obj acc acc' _ inv hstep => by
        simp only [bind_eq_ok, mapError_eq_ok, pure_eq_ok] at hstep
        obtain ⟨id, hid, rfl⟩ := hstep
        exact dump_add_named inv hid true)
      (fun _ _ _ _ _ _ _ => trivial) (by simp [Server.Dump.Named])).1 _ hdump
  split at h
  · simp at h
  · obtain rfl := pure_eq_ok.1 h
    intro c hc
    rcases List.mem_cons.1 hc with rfl | hc
    · exact ⟨version, hjoin⟩
    · obtain ⟨ev, hev, rfl⟩ := List.mem_map.1 hc
      exact named ev hev

theorem importSegment_hashNamed {room : RoomId} {state authChain chain : List JsonObject}
    {cmd : ImportSegment} (h : server.importSegment s fuel room state authChain chain = .ok cmd) :
    HashNamed server.ruma (.importSegment cmd) := by
  unfold Server.importSegment at h
  split at h
  · simp at h
  simp only [bind_eq_ok, pure_eq_ok] at h
  obtain ⟨version, _, ⟨dump, _⟩, hdump, rfl⟩ := h
  have named : dump.Named server.ruma :=
    (foldlM_spec (I := fun _ acc => Server.Dump.Named server.ruma acc.1) (F := fun _ => True)
      (fun done entry acc acc' _ inv hstep => by
        unfold Server.snapshotObject at hstep
        split at hstep
        · exact Except.ok.inj hstep ▸ inv
        · rename_i id hid
          obtain ⟨⟨ok, verdict⟩, _, hstep⟩ := bind_eq_ok.1 hstep
          dsimp only at hstep
          split at hstep
          · obtain rfl := pure_eq_ok.1 hstep
            exact dump_add_named inv hid _
          · obtain rfl := pure_eq_ok.1 hstep
            exact inv)
      (fun _ _ _ _ _ _ _ => trivial) (by simp [Server.Dump.Named])).1 _ hdump
  intro c hc
  obtain ⟨ev, hev, rfl⟩ := List.mem_map.1 hc
  rcases List.mem_append.1 hev with hev | hev
  · exact named ev hev
  · obtain ⟨obj, _, hobj⟩ := List.mem_filterMap.1 hev
    unfold Server.chainEvent at hobj
    split at hobj
    · rename_i id hid
      obtain rfl := Option.some.inj hobj
      exact ⟨version, hid⟩
    · simp at hobj

end Produced

end Saltator.Room
