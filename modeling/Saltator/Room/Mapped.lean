import Saltator.Core.Provenance
import Saltator.Room.Groups

/-!
# What the pipeline maps

The states that the pipeline computes for an event map the event itself, values of stored groups and
values resolved from them. Whatever holds of these holds of everything a decision's command maps.
-/

namespace Saltator.Room

open Std
open Saltator.Outcome
open Pipeline
open StateRes (Key StateIds ValueOf)

structure Maps (V : EventId → Prop) (h : Held) : Prop where
  state : ∀ (key : Key) v, h.state[key]? = some v → V v
  groups : ∀ p ∈ h.alloc.newGroups, ∀ entry ∈ p.2.entries, V entry.2

structure Reads (ruma : Ruma) (s : Store) (fuel : Nat) (version : RoomVersion) (room : RoomId)
    (event : IdentifiedPdu) (V : EventId → Prop) : Prop where
  own : V event.eventId
  group : ∀ group map, materialize ruma s fuel room group = .ok map →
    ∀ (key : Key) v, map[key]? = some v → V v
  resolved : ∀ (sets : List StateIds) (result : StateIds), (∀ id, ValueOf sets id → V id) →
    StateRes.resolve ruma version (fetchFor ruma s event) fuel sets = .ok result →
      ∀ (key : Key) v, result[key]? = some v → V v

variable {ruma : Ruma} {s : Store} {fuel : Nat} {version : RoomVersion} {room : RoomId}
  {isCreate relay : Bool} {event : IdentifiedPdu} {raw : JsonObject}
  {held : List (IdentifiedPdu × Bool)} {prevGroups : OrdSet Nat} {before after current : Held}
  {d : Decision} {V : EventId → Prop}

theorem Maps.full (h : Maps V before) {map : StateIds}
    (hmap : ∀ (key : Key) v, map[key]? = some v → V v) :
    Maps V ⟨map, (allocFull before.alloc map).2, (allocFull before.alloc map).1⟩ where
  state := hmap
  groups p hp entry hentry := by
    rcases List.mem_append.1 hp with hp | hp
    · exact h.groups p hp entry hentry
    · obtain rfl := List.mem_singleton.1 hp
      exact hmap entry.1 entry.2 (OrdMap.mem_toList.1 hentry)

theorem mapM_values {α : Type} {f : α → Except RoomError StateIds}
    (hf : ∀ a m, f a = .ok m → ∀ (key : Key) v, m[key]? = some v → V v) {l : List α}
    {sets : List StateIds} (h : l.mapM f = .ok sets) (id : EventId) (hid : ValueOf sets id) :
    V id := by
  obtain ⟨set, hset, key, hkey⟩ := hid
  induction l generalizing sets with
  | nil =>
    obtain rfl : [] = sets := by simpa using h
    simp at hset
  | cons a l ih =>
    rw [List.mapM_cons, bind_eq_ok] at h
    obtain ⟨m, hm, h⟩ := h
    obtain ⟨rest, hrest, h⟩ := bind_eq_ok.1 h
    obtain rfl := pure_eq_ok.1 h
    rcases List.mem_cons.1 hset with rfl | hset
    · exact hf a _ hm key id hkey
    · exact ih hrest hset

theorem maps_before (group : ∀ group map, materialize ruma s fuel room group = .ok map →
      ∀ (key : Key) v, map[key]? = some v → V v)
    (resolved : ∀ (sets : List StateIds) (result : StateIds), (∀ id, ValueOf sets id → V id) →
      StateRes.resolve ruma version (fetchFor ruma s event) fuel sets = .ok result →
        ∀ (key : Key) v, result[key]? = some v → V v)
    (h : stateBefore ruma s fuel version room isCreate (fetchFor ruma s event) prevGroups
      (startAlloc s.room[room]?) = .ok before) : Maps V before := by
  have start : ∀ group, Maps V ⟨∅, group, startAlloc s.room[room]?⟩ := fun group =>
    ⟨by simp, by simp [startAlloc]⟩
  unfold stateBefore at h
  split at h
  · obtain rfl := Except.ok.inj h
    exact start 0
  · split at h
    · rename_i g _
      simp only [bind_eq_ok, pure_eq_ok] at h
      obtain ⟨state, hstate, rfl⟩ := h
      exact ⟨group g state hstate, (start g).groups⟩
    · simp only [bind_eq_ok, pure_eq_ok] at h
      obtain ⟨sets, hsets, result, hresolved, rfl⟩ := h
      rw [ofStateRes, mapError_eq_ok] at hresolved
      exact (start 0).full (resolved sets result (mapM_values group hsets) hresolved)

namespace Reads

variable (reads : Reads ruma s fuel version room event V)
include reads

theorem stateBefore (passed : Passed ruma s fuel version room isCreate event held prevGroups before) :
    Maps V before :=
  maps_before reads.group reads.resolved passed.before

theorem stateAfter (h : Pipeline.stateAfter s room isCreate event before = .ok after) (hbefore : Maps V before) :
    Maps V after := by
  unfold Pipeline.stateAfter at h
  split at h
  · obtain rfl := Except.ok.inj h
    exact hbefore
  · rename_i sk _
    have hinsert : ∀ (key : Key) v,
        (before.state.insert (Event.eventType event, sk) event.eventId)[key]? = some v → V v := by
      intro key v hv
      rw [OrdMap.getElem?_insert'] at hv
      split at hv
      · exact Option.some.inj hv ▸ reads.own
      · exact hbefore.state key v hv
    dsimp only at h
    split at h
    · obtain rfl := Except.ok.inj h
      exact hbefore.full hinsert
    · split at h
      · simp at h
      · split at h
        · obtain rfl := Except.ok.inj h
          refine ⟨hinsert, fun p hp entry hentry => ?_⟩
          rcases List.mem_append.1 hp with hp | hp
          · exact hbefore.groups p hp entry hentry
          · obtain rfl := List.mem_singleton.1 hp
            obtain rfl := List.mem_singleton.1 hentry
            exact reads.own
        · obtain rfl := Except.ok.inj h
          exact hbefore.full hinsert

theorem extremityStates {tips : List EventId} {sets : List StateIds}
    (h : tips.mapM (extremityState ruma s fuel room event after.state) = .ok sets)
    (hafter : Maps V after) : ∀ id, ValueOf sets id → V id := by
  refine mapM_values (fun a m hm key v hv => ?_) h
  unfold extremityState at hm
  split at hm
  · obtain rfl := Except.ok.inj hm
    exact hafter.state key v hv
  · split at hm
    · simp at hm
    · exact reads.group _ m hm key v hv

theorem currentState {extremities : OrdSet EventId}
    (h : Pipeline.currentState ruma s fuel version room event (fetchFor ruma s event) extremities after =
      .ok current) (hafter : Maps V after) : Maps V current := by
  unfold Pipeline.currentState at h
  split at h
  · obtain rfl := Except.ok.inj h
    exact hafter
  · simp only [bind_eq_ok] at h
    obtain ⟨sets, hsets, resolved, hresolved, h⟩ := h
    rw [ofStateRes, mapError_eq_ok] at hresolved
    have values := reads.extremityStates hsets hafter
    split at h
    · obtain rfl := pure_eq_ok.1 h
      exact hafter
    · obtain rfl := pure_eq_ok.1 h
      exact hafter.full (reads.resolved sets resolved values hresolved)

end Reads

theorem Pipeline.Judged.maps (reads : ∀ {held prevGroups before},
      Passed ruma s fuel version room isCreate event held prevGroups before →
        Reads ruma s fuel version room event V)
    (h : Judged ruma s fuel version room isCreate relay event raw d) :
    ∀ p ∈ d.cmd.newGroups, ∀ entry ∈ p.2.entries, V entry.2 := by
  cases h with
  | chainRejected prevs => simp [rejectedCommand]
  | stateRejected passed => exact ((reads passed).stateBefore passed).groups
  | accepted passed hafter hcurrent hredacts =>
    exact ((reads passed).currentState hcurrent ((reads passed).stateAfter hafter
      ((reads passed).stateBefore passed))).groups

end Saltator.Room
