import Saltator.Room.Handshake
import Saltator.Room.HealSpec

/-!
# Other rooms

A command leaves the timeline, the groups and the bookkeeping of every room but its own alone
(`untouched_effect`). The stored events of all rooms are one table: an event of another room keeps its
record unless a recovered chain brings one of its id. So healing an event touches no other room, and none
of its events, as long as the origin answers neither with events of that room nor under their ids
(`healing_sealed`).
-/

namespace Saltator.Room

open Std
open Saltator.Outcome
open Saltator.Stateful
open Pipeline
open Machine

/-- The stores hold the same timeline, groups and bookkeeping of the room. -/
structure Untouched (room : RoomId) (s t : Store) : Prop where
  rows : ∀ n : Nat, t.roomSeq[(room, n)]? = s.roomSeq[(room, n)]?
  group : ∀ g : Nat, t.group[(room, g)]? = s.group[(room, g)]?
  known : t.room[room]? = s.room[room]?

namespace Untouched

variable {room : RoomId} {s t u : Store}

theorem refl : Untouched room s s := ⟨fun _ => rfl, fun _ => rfl, rfl⟩

theorem trans (h : Untouched room s t) (h' : Untouched room t u) : Untouched room s u :=
  ⟨fun n => (h'.rows n).trans (h.rows n), fun g => (h'.group g).trans (h.group g), h'.known.trans h.known⟩

theorem resolveGroup (h : Untouched room s t) (fuel group : Nat) :
    t.resolveGroup fuel room group = s.resolveGroup fuel room group := by
  have walk : t.groupRound room = s.groupRound room := by
    funext w
    obtain ⟨next, chain⟩ := w
    cases next with
    | none => rfl
    | some id => simp only [Store.groupRound, h.group id]
  simp only [Store.resolveGroup, walk]

end Untouched

section Step

variable {s t : Store} {room : RoomId} {r : RoomId} {e : StoredEvent}

theorem group_putGroups_ne (other : r ≠ room) (groups : List (Nat × StateGroup)) (g : Nat) :
    (s.putGroups r groups).group[(room, g)]? = s.group[(room, g)]? := by
  obtain ⟨same, -⟩ | ⟨-, kept⟩ := putGroups_cases s r groups room g
  · exact absurd same.symm other
  · exact kept

theorem row_insert_ne (other : r ≠ room) (rows : OrdMap (RoomId × Nat) EventId)
    (n n' : Nat) (id : EventId) : (rows.insert (r, n) id)[(room, n')]? = rows[(room, n')]? := by
  rw [OrdMap.getElem?_insert', if_neg]
  intro same
  exact other (Prod.mk.inj same).1.symm

theorem known_insert_ne (other : r ≠ room) (rooms : OrdMap RoomId RoomMeta)
    (m : RoomMeta) : (rooms.insert r m)[room]? = rooms[room]? := by
  rw [OrdMap.getElem?_insert', if_neg (Ne.symm other)]

theorem segmentLoop_rows_ne (other : r ≠ room) (group : Nat) (chain : List ImportEvent)
    (run : SegmentRun) (n : Nat) :
    (chain.foldl (segmentEvent r group) run).store.roomSeq[(room, n)]? = run.store.roomSeq[(room, n)]? := by
  induction chain generalizing run with
  | nil => rfl
  | cons ev chain ih =>
    rw [List.foldl_cons, ih]
    unfold segmentEvent
    split
    · rfl
    · exact row_insert_ne other _ _ _ _

theorem untouched_effect {cmd : RoomCommand} (h : Effect s cmd t) (other : roomOf cmd ≠ room) :
    Untouched room s t := by
  cases h with
  | idle => exact .refl
  | tick => exact ⟨fun _ => rfl, fun _ => rfl, rfl⟩
  | @rejected a rejected =>
    refine ⟨fun n => by rw [(applyRejected_frame s a rejected).1], fun g => ?_, ?_⟩
    · rw [applyRejected_group]
      exact group_putGroups_ne other a.newGroups g
    · cases known : s.room[a.roomId]? with
      | none => rw [applyRejected_unknown known]
      | some m => exact (applyRejected_room known room).trans (if_neg (Ne.symm other))
  | @accepted a _ _ _ _ happly =>
    have appended := applyAccepted_spec happly
    obtain ⟨m, -, known⟩ := appended.room
    refine ⟨fun n => ?_, fun g => ?_, ?_⟩
    · rw [appended.roomSeq]
      exact row_insert_ne other _ _ _ _
    · rw [appended.group]
      exact group_putGroups_ne other a.newGroups g
    · rw [known]
      exact known_insert_ne other _ _
  | @importRoom cmd _ =>
    exact ⟨fun n => row_insert_ne other _ _ _ _, fun g => group_putGroups_ne other _ g,
      known_insert_ne other _ _⟩
  | @importSegment cmd m _ =>
    obtain ⟨group, known, -, -⟩ := segmentRows_frame s m cmd
    refine ⟨fun n => segmentLoop_rows_ne other _ _ _ n, fun g => ?_, ?_⟩
    · change (segmentRows s m cmd).store.group[(room, g)]? = _
      rw [group]
      exact group_putGroups_ne other _ g
    · refine (known_insert_ne other _ _).trans ?_
      rw [known]
  | @importHistory cmd m _ =>
    obtain ⟨group, known, rows, -, -⟩ := historyRows_frame s m cmd
    refine ⟨fun n => ?_, fun g => ?_, ?_⟩
    · change (historyRows s m cmd).store.roomSeq[(room, n)]? = _
      rw [rows]
    · change (historyRows s m cmd).store.group[(room, g)]? = _
      rw [group]
    · refine (known_insert_ne other _ _).trans ?_
      rw [known]

theorem held_segment {cmd : ImportSegment} {m : RoomMeta} {id : EventId}
    (held : s.event[id]? = some e) (apart : ∀ ev ∈ cmd.timeline, ev.eventId ≠ id) :
    (segmentRows s m cmd).store.event[id]? = some e := by
  have support : (s.putSupport cmd.events).event[id]? = some e := by
    obtain ⟨absent, -⟩ | same := (s.putSupport_event_cases cmd.events id).1
    · rw [held] at absent
      cases absent
    · exact same.trans held
  obtain same | ⟨ev, mem, named, -⟩ := (segmentLoop_event_cases cmd.roomId m.nextGroup cmd.timeline
    ⟨(s.putSupport cmd.events).putGroups cmd.roomId [(m.nextGroup, ⟨none, 0, cmd.state⟩)], 0, none,
      none⟩ id).1
  · exact same.trans support
  · exact absurd named (apart ev mem)

theorem held_append {a : AppendEvent} {id : EventId} (did : Effect s (.append a) t)
    (held : s.event[id]? = some e) : t.event[id]? = some e := by
  obtain same | ⟨e', -, touched⟩ := did.event_cases id
  · exact same.trans held
  · cases touched with
    | rejected absent _ => rw [held] at absent; cases absent
    | accepted absent _ => rw [held] at absent; cases absent
    | support listed _ => cases listed

end Step

/-! ## Sealed rooms -/

structure Sealed (base : Store) (room : RoomId) (id : EventId) (s : Store) : Prop where
  untouched : Untouched room base s
  held : ∀ e, base.event[id]? = some e → s.event[id]? = some e

def Routes (ruma : Ruma) (raw : JsonObject) (room : RoomId) : Prop :=
  ∃ s version isCreate, classify ruma s raw = .ok (version, room, isCreate)

def Proposal.Avoids (ruma : Ruma) (room : RoomId) (id : EventId) (p : Proposal) : Prop :=
  match p.call with
  | .ingest raw _ => ¬ Routes ruma raw room
  | .importSegment r _ _ chain => r ≠ room ∧ ∀ obj ∈ chain, ∀ version, ruma.eventId obj version ≠ .ok id
  | _ => True

section Sealed

variable {base s : Store} {room : RoomId} {id : EventId} {fuel : Nat} {response : RoomResponse}
  {version : RoomVersion} {engine t : Store}

theorem Sealed.refl : Sealed base room id base := ⟨.refl, fun _ h => h⟩

theorem Sealed.core {t : Store} (h : Sealed base room id s) (same : s.core = t.core) :
    Sealed base room id t := by
  have rows := Store.roomSeq_of_core same
  have known := Store.room_of_core same
  have group : s.group = t.group := show s.core.group = t.core.group from congrArg Store.group same
  have event := Store.event_of_core same
  exact ⟨⟨fun n => rows ▸ h.untouched.rows n, fun g => group ▸ h.untouched.group g,
    known ▸ h.untouched.known⟩, fun e held => event ▸ h.held e held⟩

theorem Sealed.append {a : AppendEvent} (h : Sealed base room id s) (other : a.roomId ≠ room)
    (applied : Machine.apply engine s (.append a) = .ok (t, response)) : Sealed base room id t := by
  obtain ⟨u, did, same⟩ := apply_effect applied
  exact Sealed.core ⟨h.untouched.trans (untouched_effect did other),
    fun e held => held_append did (h.held e held)⟩ same

theorem Sealed.importSegment {cmd : ImportSegment} (h : Sealed base room id s) (other : cmd.roomId ≠ room)
    (apart : ∀ ev ∈ cmd.timeline, ev.eventId ≠ id)
    (applied : Machine.apply engine s (.importSegment cmd) = .ok (t, response)) :
    Sealed base room id t := by
  obtain ⟨u, did, same⟩ := apply_effect applied
  refine Sealed.core ⟨h.untouched.trans (untouched_effect did other), fun e held => ?_⟩ same
  have held := h.held e held
  cases did with
  | idle => exact held
  | importSegment known => exact held_segment held apart

theorem chainEvent_id {server : Server} {obj : JsonObject} {ev : ImportEvent}
    (h : server.chainEvent version obj = some ev) : server.ruma.eventId obj version = .ok ev.eventId := by
  unfold Server.chainEvent at h
  split at h
  · rename_i named
    obtain rfl := Option.some.inj h
    exact named
  · cases h

variable {σ : Type} {ruma : Ruma} {raw : JsonObject}

theorem sealed_steady : Steady fuel raw (fun _ => True) (fun n : Node σ => n.server.ruma = ruma ∧
    ((∀ p ∈ n.proposals, p.Avoids ruma room id) → Sealed base room id n.store)) where
  remote _ _ h := h
  keys _ _ _ h := h
  proposed n call cmd after response draws prepared applied h := by
    obtain ⟨rfl, sealed⟩ := h
    refine ⟨rfl, fun avoid => ?_⟩
    have before := sealed fun p mem => avoid p (List.mem_append_left _ mem)
    have last := avoid ⟨n.server, call, n.store, after⟩ (List.mem_append_right _ (List.mem_singleton.2 rfl))
    cases call with
    | ingest obj rejectMissingAuth =>
      simp only [Call.prepare, Server.ingestPdu, bind_eq_ok, pure_eq_ok, Prod.exists] at prepared
      obtain ⟨outcome, ⟨version, r, isCreate, routed, processed⟩, out⟩ := prepared
      obtain ⟨d, rfl, rfl⟩ := map_eq_inr out
      refine before.append ?_ applied
      rw [processInner_roomId processed]
      rintro rfl
      exact last ⟨n.store, version, isCreate, routed⟩
    | importSegment r state authChain chain =>
      obtain ⟨other, unnamed⟩ := last
      simp only [Call.prepare, bind_eq_ok, pure_eq_ok] at prepared
      obtain ⟨segment, computed, out⟩ := prepared
      obtain rfl := Sum.inr.inj out
      unfold Server.importSegment at computed
      split at computed
      · cases computed
      simp only [bind_eq_ok, pure_eq_ok, Prod.exists] at computed
      obtain ⟨version, -, dump, verdict, -, rfl⟩ := computed
      refine before.importSegment other ?_ applied
      intro ev mem same
      obtain ⟨obj, hobj, hev⟩ := List.mem_filterMap.1 mem
      exact unnamed obj hobj version (same ▸ chainEvent_id hev)
    | _ => cases draws

theorem healing_sealed {fetcher : EventFetcher σ} {origin : String} {n : Node σ} (same : n.server.ruma = ruma)
    (h : Sealed base room id n.store)
    (avoid : ∀ p ∈ (ingestPduHealing fetcher fuel origin raw n).2.proposals, p.Avoids ruma room id) :
    Sealed base room id (ingestPduHealing fetcher fuel origin raw n).2.store :=
  (healRounds_keeps sealed_steady (fetcher.gives_any origin) 3 false false n ⟨same, fun _ => h⟩).2 avoid

/-! ### Handshakes -/

theorem routed_member {r : RoomId} {isCreate : Bool} (member : strProp raw "type" = some "m.room.member")
    (routed : classify ruma s raw = .ok (version, r, isCreate)) : strProp raw "room_id" = some r := by
  obtain ⟨shaped, -⟩ | ⟨-, -, named, -⟩ := classify_cases routed
  · simp [createShaped, member] at shaped
  · exact named

variable (member : strProp raw "type" = some "m.room.member") (unnamed : strProp raw "room_id" ≠ some room)
include member unnamed

theorem applyResident_sealed (coSign : Bool) :
    Keeps (fun n : Node σ => Sealed base room id n.store) (applyResident fuel raw coSign) := by
  unfold applyResident
  refine Keeps.get fun n h => ?_
  cases decided : n.server.residentApply n.store fuel raw coSign with
  | error e => exact h
  | ok outcome =>
    cases outcome with
    | inl id => exact h
    | inr d =>
      simp only [Server.residentApply, bind_eq_ok, Prod.exists] at decided
      obtain ⟨version, r, isCreate, routed, signed, -, processed⟩ := decided
      have named := routed_member member routed
      have other : d.cmd.roomId ≠ room := by
        rw [processInner_roomId processed]
        rintro rfl
        exact unnamed named
      change Sealed base room id (Heal.propose (.resident raw coSign) (.append d.cmd) n).2.store
      unfold Heal.propose
      split
      · exact h
      · rename_i applied
        exact h.append other applied

theorem sendJoin_sealed : Keeps (fun n : Node σ => Sealed base room id n.store) (sendJoin fuel raw) := by
  refine Keeps.bind Keeps.read fun n => ?_
  split
  · exact Keeps.pure _
  · refine Keeps.bind (applyResident_sealed member unnamed true) fun outcome => ?_
    split
    · exact Keeps.pure _
    · exact Keeps.pure _
    · exact Keeps.bind Keeps.read fun n => Keeps.pure _

theorem sendKnock_sealed : Keeps (fun n : Node σ => Sealed base room id n.store) (sendKnock fuel raw) := by
  refine Keeps.bind Keeps.read fun n => ?_
  split
  · exact Keeps.pure _
  · refine Keeps.bind (applyResident_sealed member unnamed false) fun outcome => ?_
    split
    · exact Keeps.pure _
    · exact Keeps.pure _
    · exact Keeps.bind Keeps.read fun n => Keeps.pure _

end Sealed

end Saltator.Room
