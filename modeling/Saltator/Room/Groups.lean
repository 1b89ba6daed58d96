import Saltator.Room.Runs

/-!
# State groups

A state group is a snapshot, or a delta over its parent. `Materializes` says which state a group
stands for; `resolveGroup` computes it. The pipeline allocates groups from the room's counter on
(`Fresh`), a delta only over a stored group, so the stored groups of a room form chains that go down
in id and are at most `maxGroupChain` long (`GroupsOk`).

This holds along runs in which every command of a room is computed from the bookkeeping and the
groups it is applied to (`SerialIn`). What happens to other rooms in between does not matter.
-/

namespace Saltator.Room

open Std
open Saltator.Outcome Saltator.Loop
open Machine (Effect plain importGroup applyRejected applyRejected_group applyRejected_room
  applyRejected_unknown applyAccepted_spec)
open Pipeline
open StateRes (Key StateIds)

/-! ## What a group stands for -/

inductive Materializes (s : Store) (room : RoomId) : Nat → StateIds → Prop
  | full {id : Nat} {g : StateGroup} (stored : s.group[(room, id)]? = some g)
      (hparent : g.parent = none) : Materializes s room id (Store.applyEntries ∅ g)
  | delta {id p : Nat} {g : StateGroup} {map : StateIds}
      (stored : s.group[(room, id)]? = some g) (hparent : g.parent = some p)
      (base : Materializes s room p map) : Materializes s room id (Store.applyEntries map g)

def Store.GroupsLe (s t : Store) : Prop :=
  ∀ (key : RoomId × Nat) (g : StateGroup), s.group[key]? = some g → t.group[key]? = some g

namespace Materializes

variable {s t : Store} {room : RoomId} {id : Nat} {map map' : StateIds}

theorem unique (h : Materializes s room id map) (h' : Materializes s room id map') : map = map' := by
  induction h generalizing map' with
  | full stored hparent =>
    cases h' with
    | full stored' _ => simp_all
    | delta stored' hparent' _ => simp_all
  | delta stored hparent _ ih =>
    cases h' with
    | full stored' hparent' => simp_all
    | delta stored' hparent' base' =>
      obtain rfl := some_unique stored stored'
      obtain rfl := some_unique hparent hparent'
      rw [ih base']

theorem mono (h : Materializes s room id map)
    (le : ∀ (id : Nat) (g : StateGroup), s.group[(room, id)]? = some g → t.group[(room, id)]? = some g) :
    Materializes t room id map := by
  induction h with
  | full stored hparent => exact .full (le _ _ stored) hparent
  | delta stored hparent _ ih => exact .delta (le _ _ stored) hparent ih

theorem walk (h : Materializes s room id map) (chain : List StateGroup) :
    ∃ n, ∀ fuel, n ≤ fuel → ∃ chain', Loop.run .outOfFuel (Store.groupRound s room) fuel
        (some id, chain) = .ok chain' ∧
      chain'.foldl Store.applyEntries ∅ = chain.foldl Store.applyEntries map := by
  induction h generalizing chain with
  | @full id g stored hparent =>
    refine ⟨2, fun fuel hfuel => ⟨g :: chain, ?_, rfl⟩⟩
    obtain ⟨n, rfl⟩ : ∃ n, fuel = n + 2 := ⟨fuel - 2, by omega⟩
    simp [Loop.run, Store.groupRound, stored, hparent]
  | @delta id p g map stored hparent _ ih =>
    obtain ⟨n, hn⟩ := ih (g :: chain)
    refine ⟨n + 1, fun fuel hfuel => ?_⟩
    obtain ⟨k, rfl⟩ : ∃ k, fuel = k + 1 := ⟨fuel - 1, by omega⟩
    obtain ⟨chain', hrun, hfold⟩ := hn k (by omega)
    refine ⟨chain', ?_, hfold⟩
    rw [Loop.run]
    simp only [Store.groupRound, stored, hparent]
    exact hrun

theorem settles (h : Materializes s room id map) :
    SettlesTo .outOfFuel (fun fuel => s.resolveGroup fuel room id) (.ok map) := by
  obtain ⟨n, hn⟩ := h.walk []
  refine ⟨by simp, n, fun fuel hfuel => ?_⟩
  obtain ⟨chain, hrun, hfold⟩ := hn fuel hfuel
  simp only [Store.resolveGroup, hrun, ok_bind]
  exact congrArg Except.ok hfold

end Materializes

variable {room : RoomId}

/-- What `resolveGroup` answers is the group's state. -/
theorem resolveGroup_materializes {s : Store} {fuel : Nat} {id : Nat}
    {map : StateIds} (h : s.resolveGroup fuel room id = .ok map) :
    Materializes s room id map := by
  -- Started with the newer groups in `chain`, the walk answers the entries of the group first.
  have walked : ∀ (fuel id : Nat) (chain chain' : List StateGroup),
      Loop.run .outOfFuel (Store.groupRound s room) fuel (some id, chain) = .ok chain' →
      ∃ map, Materializes s room id map ∧
        chain'.foldl Store.applyEntries ∅ = chain.foldl Store.applyEntries map := by
    intro fuel
    induction fuel with
    | zero => intro id chain chain' hrun; simp [Loop.run] at hrun
    | succ fuel ih =>
      intro id chain chain' hrun
      rw [Loop.run] at hrun
      cases hg : s.group[(room, id)]? with
      | none => simp [Store.groupRound, hg] at hrun
      | some g =>
        simp only [Store.groupRound, hg] at hrun
        cases hp : g.parent with
        | none =>
          refine ⟨_, .full hg hp, ?_⟩
          cases fuel with
          | zero => simp [Loop.run] at hrun
          | succ fuel =>
            simp only [hp, Loop.run, Store.groupRound, Except.ok.injEq] at hrun
            rw [← hrun, List.foldl_cons]
        | some p =>
          rw [hp] at hrun
          obtain ⟨map, hmap, hfold⟩ := ih p (g :: chain) chain' hrun
          exact ⟨_, .delta hg hp hmap, hfold⟩
  rw [Store.resolveGroup, bind_eq_ok] at h
  obtain ⟨chain, hrun, h⟩ := h
  obtain ⟨map', hmap, hfold⟩ := walked fuel id [] chain hrun
  obtain rfl : map' = map := by
    rw [pure_eq_ok, hfold] at h
    exact h
  exact hmap

theorem applyEntries_toList (map : StateIds) : Store.applyEntries ∅ ⟨none, 0, map.toList⟩ = map :=
  OrdMap.foldl_insert_toList map

/-! ## Allocation -/

def Store.nextGroup (s : Store) (room : RoomId) : Nat :=
  (s.room[room]?.map RoomMeta.nextGroup).getD 1

/-- A snapshot, or a delta of bounded length over a stored group. -/
def Based (s : Store) (room : RoomId) (g : StateGroup) : Prop :=
  (g.parent = none ∧ g.chainLen = 0) ∨
    ∃ p gp, g.parent = some p ∧ s.group[(room, p)]? = some gp ∧ g.chainLen = gp.chainLen + 1 ∧
      g.chainLen ≤ maxGroupChain

/-- New groups that take their ids from the room's counter on, up to `next`. -/
structure Fresh (s : Store) (room : RoomId) (groups : List (Nat × StateGroup)) (next : Nat) :
    Prop where
  le : s.nextGroup room ≤ next
  bounds : ∀ e ∈ groups, s.nextGroup room ≤ e.1 ∧ e.1 < next
  based : ∀ e ∈ groups, Based s room e.2
  nodup : (groups.map Prod.fst).Nodup

namespace Fresh

variable {s : Store} {room : RoomId} {groups : List (Nat × StateGroup)} {next : Nat}

theorem nil : Fresh s room [] (s.nextGroup room) := ⟨Nat.le_refl _, by simp, by simp, by simp⟩

theorem snoc (h : Fresh s room groups next) {g : StateGroup} (hg : Based s room g) :
    Fresh s room (groups ++ [(next, g)]) (next + 1) where
  le := Nat.le_succ_of_le h.le
  bounds e he := by
    rcases List.mem_append.1 he with he | he
    · have := h.bounds e he
      omega
    · obtain rfl := List.mem_singleton.1 he
      exact ⟨h.le, Nat.lt_succ_self _⟩
  based e he := by
    rcases List.mem_append.1 he with he | he
    · exact h.based e he
    · obtain rfl := List.mem_singleton.1 he
      exact hg
  nodup := by
    rw [List.map_append, List.nodup_append]
    refine ⟨h.nodup, by simp, fun a ha b hb => ?_⟩
    obtain ⟨e, he, rfl⟩ := List.mem_map.1 ha
    have := (h.bounds e he).2
    simp only [List.map_cons, List.map_nil, List.mem_singleton] at hb
    omega

theorem single {r : RoomId} {g : StateGroup} (hg : Based s r g) :
    Fresh s r [(s.nextGroup r, g)] (s.nextGroup r + 1) := nil.snoc hg

theorem full (h : Fresh s room groups next) (map : StateIds) :
    Fresh s room (allocFull ⟨next, groups⟩ map).1.newGroups (allocFull ⟨next, groups⟩ map).1.nextGroup :=
  h.snoc (.inl ⟨rfl, rfl⟩)

end Fresh

section Pipeline

variable {ruma : Ruma} {s : Store} {fuel : Nat} {version : RoomVersion} {room : RoomId}
  {isCreate relay : Bool} {event : IdentifiedPdu} {raw : JsonObject} {prevGroups : OrdSet Nat}
  {fetch : EventId → Option IdentifiedPdu} {before after current : Held} {d : Decision} {t : Store}
  {extremities : OrdSet EventId}

/-- Whether the state before an event allocates: only a merge of forks does. -/
theorem stateBefore_fresh (h : stateBefore ruma s fuel version room isCreate fetch prevGroups
      (startAlloc s.room[room]?) = .ok before) :
    Fresh s room before.alloc.newGroups before.alloc.nextGroup ∧
      (isCreate = true → before.alloc.newGroups = []) := by
  unfold stateBefore at h
  split at h
  · obtain rfl := Except.ok.inj h
    exact ⟨.nil, fun _ => rfl⟩
  · rename_i hcreate
    refine ⟨?_, fun hc => absurd hc hcreate⟩
    split at h
    · simp only [bind_eq_ok, pure_eq_ok] at h
      obtain ⟨state, _, rfl⟩ := h
      exact .nil
    · simp only [bind_eq_ok, pure_eq_ok] at h
      obtain ⟨sets, _, resolved, _, rfl⟩ := h
      exact Fresh.nil.full resolved

theorem stateAfter_fresh (h : stateAfter s room isCreate event before = .ok after)
    (hbefore : Fresh s room before.alloc.newGroups before.alloc.nextGroup) :
    Fresh s room after.alloc.newGroups after.alloc.nextGroup := by
  unfold stateAfter at h
  split at h
  · obtain rfl := Except.ok.inj h
    exact hbefore
  · dsimp only at h
    split at h
    · obtain rfl := Except.ok.inj h
      exact hbefore.full _
    · split at h
      · simp at h
      · rename_i p hp
        split at h
        · rename_i hlen
          obtain rfl := Except.ok.inj h
          exact hbefore.snoc (.inr ⟨_, p, rfl, hp, rfl, Nat.le_of_lt hlen⟩)
        · obtain rfl := Except.ok.inj h
          exact hbefore.full _

theorem currentState_fresh
    (h : currentState ruma s fuel version room event fetch extremities after = .ok current)
    (hafter : Fresh s room after.alloc.newGroups after.alloc.nextGroup) :
    Fresh s room current.alloc.newGroups current.alloc.nextGroup := by
  unfold currentState at h
  split at h
  · obtain rfl := Except.ok.inj h
    exact hafter
  · simp only [bind_eq_ok] at h
    obtain ⟨sets, _, resolved, _, h⟩ := h
    split at h
    · obtain rfl := pure_eq_ok.1 h
      exact hafter
    · obtain rfl := pure_eq_ok.1 h
      exact hafter.full resolved

theorem Pipeline.Judged.fresh (h : Judged ruma s fuel version room isCreate relay event raw d) :
    Fresh s room d.cmd.newGroups d.cmd.nextGroup ∧ d.cmd.roomId = room ∧
      (isCreate = true → d.cmd.rejected.isSome → d.cmd.newGroups = []) := by
  cases h with
  | chainRejected prevs => exact ⟨.nil, rfl, fun _ _ => rfl⟩
  | stateRejected passed =>
    obtain ⟨hfresh, hnone⟩ := stateBefore_fresh passed.before
    exact ⟨hfresh, rfl, fun hc _ => hnone hc⟩
  | accepted passed hafter hcurrent hredacts =>
    obtain ⟨hfresh, _⟩ := stateBefore_fresh passed.before
    exact ⟨currentState_fresh hcurrent (stateAfter_fresh hafter hfresh), rfl,
      fun _ hr => by simp [acceptedCommand] at hr⟩

theorem materialize_materializes {group : Nat} {map : StateIds}
    (h : materialize ruma s fuel room group = .ok map) : Materializes s room group map := by
  rw [materialize, bind_eq_ok] at h
  obtain ⟨map', hmap, h⟩ := h
  rw [ofStore, mapError_eq_ok] at hmap
  split at h
  · obtain rfl := pure_eq_ok.1 h
    exact resolveGroup_materializes hmap
  · simp at h

def Stored (t : Store) (room : RoomId) (groups : List (Nat × StateGroup)) : Prop :=
  ∀ e ∈ groups, t.group[(room, e.1)]? = some e.2

theorem Stored.full {a : Alloc} {map : StateIds} (h : Stored t room (allocFull a map).1.newGroups) :
    Stored t room a.newGroups ∧ Materializes t room (allocFull a map).2 map := by
  refine ⟨fun e he => h e (List.mem_append_left _ he), ?_⟩
  have := Materializes.full (h (a.nextGroup, ⟨none, 0, map.toList⟩) (by simp [allocFull])) rfl
  rwa [applyEntries_toList] at this

theorem currentState_stored
    (h : currentState ruma s fuel version room event fetch extremities after = .ok current)
    (stored : Stored t room current.alloc.newGroups) : Stored t room after.alloc.newGroups := by
  unfold currentState at h
  split at h
  · obtain rfl := Except.ok.inj h
    exact stored
  · simp only [bind_eq_ok] at h
    obtain ⟨sets, _, resolved, _, h⟩ := h
    split at h
    · obtain rfl := pure_eq_ok.1 h
      exact stored
    · obtain rfl := pure_eq_ok.1 h
      exact stored.full.1

theorem stateBefore_materializes
    (le : ∀ (id : Nat) (g : StateGroup), s.group[(room, id)]? = some g → t.group[(room, id)]? = some g)
    (h : stateBefore ruma s fuel version room false fetch prevGroups (startAlloc s.room[room]?) =
      .ok before) (stored : Stored t room before.alloc.newGroups) :
    Materializes t room before.group before.state := by
  unfold stateBefore at h
  rw [if_neg Bool.false_ne_true] at h
  split at h
  · simp only [bind_eq_ok, pure_eq_ok] at h
    obtain ⟨state, hstate, rfl⟩ := h
    exact (materialize_materializes hstate).mono le
  · simp only [bind_eq_ok, pure_eq_ok] at h
    obtain ⟨sets, _, resolved, _, rfl⟩ := h
    exact stored.full.2

theorem stateAfter_materializes (h : stateAfter s room isCreate event before = .ok after)
    (hbefore : isCreate = false → Stored t room before.alloc.newGroups →
      Materializes t room before.group before.state)
    (keyed : isCreate = true → (Event.stateKey event).isSome)
    (stored : Stored t room after.alloc.newGroups) :
    Materializes t room after.group after.state := by
  unfold stateAfter at h
  split at h
  · rename_i hkey
    obtain rfl := Except.ok.inj h
    cases isCreate with
    | true => simp [hkey] at keyed
    | false => exact hbefore rfl stored
  · rename_i sk hkey
    dsimp only at h
    split at h
    · obtain rfl := Except.ok.inj h
      exact stored.full.2
    · rename_i hcreate
      split at h
      · simp at h
      · rename_i p hp
        split at h
        · obtain rfl := Except.ok.inj h
          have own := stored (before.alloc.nextGroup, ⟨some before.group, p.chainLen + 1,
            [((Event.eventType event, sk), event.eventId)]⟩)
            (List.mem_append_right _ List.mem_cons_self)
          refine .delta own rfl (hbefore (by simpa using hcreate) fun e he => ?_)
          exact stored e (List.mem_append_left _ he)
        · obtain rfl := Except.ok.inj h
          exact stored.full.2

theorem Pipeline.Judged.materializes
    (le : ∀ (id : Nat) (g : StateGroup), s.group[(room, id)]? = some g → t.group[(room, id)]? = some g)
    (h : Judged ruma s fuel version room isCreate relay event raw d)
    (keyed : isCreate = true → (Event.stateKey event).isSome) (accepted : d.cmd.rejected = none)
    (stored : Stored t room d.cmd.newGroups) :
    Materializes t room d.cmd.stateGroupAfter d.after := by
  cases h with
  | chainRejected _ => simp [rejectedCommand] at accepted
  | stateRejected _ => simp [rejectedCommand] at accepted
  | accepted passed hafter hcurrent _ =>
    refine stateAfter_materializes hafter (fun hcreate => ?_) keyed (currentState_stored hcurrent stored)
    have hbefore := passed.before
    rw [hcreate] at hbefore
    exact stateBefore_materializes le hbefore

end Pipeline

/-! ## The invariant -/

/-- The stored groups of every room: ids below the counter, parents stored with smaller ids, chain
lengths counted and capped. -/
structure GroupsOk (s : Store) : Prop where
  below : ∀ (room : RoomId) (id : Nat) (g : StateGroup), s.group[(room, id)]? = some g →
    ∃ m : RoomMeta, s.room[room]? = some m ∧ id < m.nextGroup
  parent : ∀ (room : RoomId) (id p : Nat) (g : StateGroup), s.group[(room, id)]? = some g →
    g.parent = some p →
      p < id ∧ ∃ gp : StateGroup, s.group[(room, p)]? = some gp ∧ g.chainLen = gp.chainLen + 1
  capped : ∀ (room : RoomId) (id : Nat) (g : StateGroup), s.group[(room, id)]? = some g →
    g.chainLen ≤ maxGroupChain

theorem putGroups_cases (s : Store) (room : RoomId) (groups : List (Nat × StateGroup))
    (r : RoomId) (id : Nat) :
    (r = room ∧ ∃ g, (id, g) ∈ groups ∧ (s.putGroups room groups).group[(r, id)]? = some g) ∨
      ((r = room → ∀ e ∈ groups, e.1 ≠ id) ∧
        (s.putGroups room groups).group[(r, id)]? = s.group[(r, id)]?) := by
  rcases OrdMap.foldl_insert_cases (fun e : Nat × StateGroup => (room, e.1)) Prod.snd groups s.group
    (r, id) with ⟨e, he, hk, hv⟩ | ⟨hk, hv⟩
  · obtain ⟨rfl, rfl⟩ := Prod.mk.inj hk
    exact .inl ⟨rfl, e.2, he, hv⟩
  · refine .inr ⟨fun hr e he hid => hk e he (by rw [hr, hid]), hv⟩

namespace GroupsOk

variable {s t : Store} {room : RoomId} {groups : List (Nat × StateGroup)} {next : Nat}

theorem lt_nextGroup (h : GroupsOk s) {id : Nat} {g : StateGroup}
    (hg : s.group[(room, id)]? = some g) : id < s.nextGroup room := by
  obtain ⟨m, hm, hlt⟩ := h.below room id g hg
  simpa [Store.nextGroup, hm] using hlt

theorem congr (h : GroupsOk s) (hgroup : t.group = s.group) (hroom : t.room = s.room) : GroupsOk t := by
  obtain ⟨h1, h2, h3⟩ := h
  exact ⟨by rwa [hgroup, hroom], by rwa [hgroup], by rwa [hgroup]⟩

theorem stored_putGroups (nodup : (groups.map Prod.fst).Nodup)
    (hgroup : t.group = (s.putGroups room groups).group) : Stored t room groups := by
  intro e he
  rw [hgroup]
  rcases putGroups_cases s room groups room e.1 with ⟨_, g, hg, hv⟩ | ⟨hne, _⟩
  · have same : e = (e.1, g) := List.inj_on_of_nodup_map nodup he hg rfl
    rw [hv, congrArg Prod.snd same]
  · exact absurd rfl (hne rfl e he)

theorem le_put_over {base : Store} (fresh : Fresh base room groups next)
    (below : ∀ (id : Nat) (g : StateGroup), s.group[(room, id)]? = some g → id < base.nextGroup room)
    (hgroup : t.group = (s.putGroups room groups).group) : s.GroupsLe t := by
  rintro ⟨r, id⟩ g hg
  rw [hgroup]
  rcases putGroups_cases s room groups r id with ⟨rfl, g', hmem, _⟩ | ⟨_, hsame⟩
  · have := below id g hg
    have := (fresh.bounds _ hmem).1
    omega
  · rw [hsame, hg]

theorem put_over {base : Store} {m : RoomMeta} (h : GroupsOk s) (le : base.GroupsLe s)
    (fresh : Fresh base room groups next)
    (below : ∀ (id : Nat) (g : StateGroup), s.group[(room, id)]? = some g → id < base.nextGroup room)
    (hgroup : t.group = (s.putGroups room groups).group) (hnext : next ≤ m.nextGroup)
    (hroom : ∀ r : RoomId, t.room[r]? = if r = room then some m else s.room[r]?) : GroupsOk t := by
  have kept := le_put_over fresh below hgroup
  -- A group of the new store was stored before, or is one of the fresh ones.
  have cases : ∀ (r : RoomId) (id : Nat) (g : StateGroup), t.group[(r, id)]? = some g →
      s.group[(r, id)]? = some g ∨ (r = room ∧ (id, g) ∈ groups) := by
    intro r id g hg
    rw [hgroup] at hg
    rcases putGroups_cases s room groups r id with ⟨rfl, g', hmem, hv⟩ | ⟨_, hsame⟩
    · obtain rfl := some_unique hv hg
      exact .inr ⟨rfl, hmem⟩
    · exact .inl (hsame ▸ hg)
  refine ⟨fun r id g hg => ?_, fun r id p g hg hp => ?_, fun r id g hg => ?_⟩
  · rw [hroom]
    rcases cases r id g hg with hold | ⟨rfl, hmem⟩
    · split
      · rename_i hr
        subst hr
        have := below id g hold
        have := fresh.le
        exact ⟨m, rfl, by omega⟩
      · exact h.below r id g hold
    · have := (fresh.bounds _ hmem).2
      exact ⟨m, if_pos rfl, by omega⟩
  · rcases cases r id g hg with hold | ⟨rfl, hmem⟩
    · obtain ⟨hlt, gp, hgp, hlen⟩ := h.parent r id p g hold hp
      exact ⟨hlt, gp, kept _ _ hgp, hlen⟩
    · rcases fresh.based _ hmem with ⟨hnone, _⟩ | ⟨p', gp, hp', hgp, hlen, _⟩
      · exact absurd (hnone.symm.trans hp) (by simp)
      · obtain rfl := some_unique hp' hp
        have hgp := le _ _ hgp
        have := below p' gp hgp
        have := (fresh.bounds _ hmem).1
        exact ⟨by omega, gp, kept _ _ hgp, hlen⟩
  · rcases cases r id g hg with hold | ⟨rfl, hmem⟩
    · exact h.capped r id g hold
    · rcases fresh.based _ hmem with ⟨_, hzero⟩ | ⟨_, _, _, _, _, hcap⟩
      · simp_all
      · exact hcap

theorem le_put (h : GroupsOk s) (fresh : Fresh s room groups next)
    (hgroup : t.group = (s.putGroups room groups).group) : s.GroupsLe t :=
  le_put_over fresh (fun _ _ => h.lt_nextGroup) hgroup

theorem put (h : GroupsOk s) {m : RoomMeta} (fresh : Fresh s room groups m.nextGroup)
    (hgroup : t.group = (s.putGroups room groups).group) (hroom : t.room = s.room.insert room m) :
    GroupsOk t :=
  h.put_over (fun _ _ hg => hg) fresh (fun _ _ => h.lt_nextGroup) hgroup (Nat.le_refl _) fun r => by
    rw [hroom, OrdMap.getElem?_insert']

theorem materializes (h : GroupsOk s) {id : Nat} {g : StateGroup}
    (hg : s.group[(room, id)]? = some g) : ∃ map, Materializes s room id map := by
  induction id using Nat.strong_induction_on generalizing g with
  | _ id ih =>
    cases hp : g.parent with
    | none => exact ⟨_, .full hg hp⟩
    | some p =>
      obtain ⟨hlt, gp, hgp, _⟩ := h.parent room id p g hg hp
      obtain ⟨map, hmap⟩ := ih p hlt hgp
      exact ⟨_, .delta hg hp hmap⟩

end GroupsOk

/-! ## Runs -/

def roomOf : RoomCommand → RoomId
  | .append cmd => cmd.roomId
  | .appendStamped cmd _ => cmd.roomId
  | .receipt cmd => cmd.roomId
  | .importRoom cmd => cmd.roomId
  | .importHistory cmd => cmd.roomId
  | .importSegment cmd => cmd.roomId

structure SameRoom (s t : Store) (room : RoomId) : Prop where
  roomMeta : s.room[room]? = t.room[room]?
  group : ∀ id : Nat, s.group[(room, id)]? = t.group[(room, id)]?

def SerialIn (ruma : Ruma) (s : Store) (cmd : RoomCommand) : Prop :=
  ∃ base, Serial ruma base cmd ∧ SameRoom base s (roomOf cmd)

theorem Fresh.congr {s t : Store} {groups : List (Nat × StateGroup)} {next : Nat}
    (h : Fresh s room groups next) (same : SameRoom s t room) : Fresh t room groups next := by
  have hnext : s.nextGroup room = t.nextGroup room := by
    unfold Store.nextGroup
    rw [same.roomMeta]
  refine ⟨hnext ▸ h.le, hnext ▸ h.bounds, fun e he => ?_, h.nodup⟩
  rcases h.based e he with hfull | ⟨p, gp, hp, hgp, rest⟩
  · exact .inl hfull
  · exact .inr ⟨p, gp, hp, (same.group p).symm.trans hgp, rest⟩

/-- The groups of an append are fresh where it is applied; a rejected event of a room that is not
known has none. -/
def FreshIn (s : Store) (cmd : RoomCommand) : Prop :=
  ∀ a, plain cmd = .append a → Fresh s a.roomId a.newGroups a.nextGroup ∧
    (s.room[a.roomId]? = none → a.rejected.isSome → a.newGroups = [])

variable {cmd : RoomCommand}

theorem processInner_freshIn {ruma : Ruma} {keys : PublicKeyMap} {base s : Store} {fuel : Nat}
    {raw : JsonObject} {version : RoomVersion}
    {isCreate relay rejectMissingAuth : Bool} {d : Decision}
    (h : processInner ruma keys base fuel raw version room isCreate relay rejectMissingAuth =
      .ok (.inr d)) (hplain : plain cmd = .append d.cmd) (same : SameRoom base s d.cmd.roomId) :
    FreshIn s cmd := by
  intro a ha
  obtain rfl := RoomCommand.append.inj (hplain.symm.trans ha)
  obtain ⟨_, _, _, _, _, _, hknown, hjudged⟩ := processInner_cases h
  obtain ⟨hfresh, rfl, hnone⟩ := hjudged.fresh
  refine ⟨hfresh.congr same, fun hroom => hnone (hknown.resolve_right ?_)⟩
  rw [same.roomMeta, hroom]
  simp

theorem SerialIn.freshIn {ruma : Ruma} {s : Store} (h : SerialIn ruma s cmd) : FreshIn s cmd := by
  obtain ⟨base, ⟨server, fuel, call, -, hprep⟩, same⟩ := h
  cases prepare_produced hprep with
  | append routed hp => exact processInner_freshIn hp rfl same
  | stamped routed hp => exact processInner_freshIn hp rfl same
  | _ => exact fun _ hplain => by simp [plain] at hplain

theorem groups_append {base s t : Store} {a : AppendEvent} (hs : GroupsOk s) (le : base.GroupsLe s)
    (fresh : Fresh base a.roomId a.newGroups a.nextGroup)
    (unknown : s.room[a.roomId]? = none → a.rejected.isSome → a.newGroups = [])
    (below : s.event[a.eventId]? = none → a.rejected = none ∨ a.newGroups ≠ [] →
      ∀ (id : Nat) (g : StateGroup), s.group[(a.roomId, id)]? = some g → id < base.nextGroup a.roomId)
    (heff : Effect s (.append a) t) : GroupsOk t ∧ s.GroupsLe t := by
  cases heff with
  | idle => exact ⟨hs, fun _ _ hg => hg⟩
  | @rejected _ rejected absent hrejected =>
    have hgroup : (applyRejected s a rejected).group = (s.putGroups a.roomId a.newGroups).group :=
      applyRejected_group
    by_cases hnil : a.newGroups = []
    · have same : (applyRejected s a rejected).group = s.group := by
        rw [hgroup, hnil]
        rfl
      refine ⟨?_, fun _ _ hg => same ▸ hg⟩
      cases known : s.room[a.roomId]? with
      | none => exact hs.congr same (applyRejected_unknown known)
      | some m =>
        have hnext : s.nextGroup a.roomId = m.nextGroup := by simp [Store.nextGroup, known]
        have empty : Fresh s a.roomId [] (max m.nextGroup a.nextGroup) :=
          ⟨hnext ▸ Nat.le_max_left _ _, by simp, by simp, by simp⟩
        exact hs.put_over (fun _ _ hg => hg) empty (fun _ _ => hs.lt_nextGroup) same
          (Nat.le_refl _) (applyRejected_room known)
    · have below := below absent (.inr hnil)
      obtain ⟨m, known⟩ := Option.ne_none_iff_exists'.1 fun hroom =>
        hnil (unknown hroom (by simp [hrejected]))
      exact ⟨hs.put_over le fresh below hgroup (Nat.le_max_right _ _) (applyRejected_room known),
        GroupsOk.le_put_over fresh below hgroup⟩
  | accepted absent hrejected happly =>
    have below := below absent (.inl hrejected)
    have happended := applyAccepted_spec happly
    obtain ⟨m, hm, hroom⟩ := happended.room
    have hnext : m.nextGroup = a.nextGroup := by
      unfold Machine.acceptedMeta at hm
      split at hm
      · obtain rfl := Except.ok.inj hm
        rfl
      · split at hm
        · simp at hm
        · obtain rfl := Except.ok.inj hm
          rfl
    refine ⟨hs.put_over le fresh below happended.group hnext.ge fun r => ?_,
      GroupsOk.le_put_over fresh below happended.group⟩
    rw [hroom, OrdMap.getElem?_insert']

theorem groups_effect {s t : Store} (h : GroupsOk s) (fresh : FreshIn s cmd)
    (heff : Effect s (plain cmd) t) : GroupsOk t ∧ s.GroupsLe t := by
  generalize hplain : plain cmd = cmd' at heff
  have append : ∀ {a : AppendEvent}, plain cmd = .append a → Effect s (.append a) t →
      GroupsOk t ∧ s.GroupsLe t := by
    intro a ha heff
    obtain ⟨hfresh, hnone⟩ := fresh a ha
    exact groups_append h (fun _ _ hg => hg) hfresh hnone (fun _ _ _ _ => h.lt_nextGroup) heff
  cases heff with
  | idle => exact ⟨h, fun _ _ hg => hg⟩
  | tick => exact ⟨h.congr rfl rfl, fun _ _ hg => hg⟩
  | rejected absent hrejected => exact append hplain (.rejected absent hrejected)
  | accepted absent hrejected happly => exact append hplain (.accepted absent hrejected happly)
  | @importRoom cmd' =>
    have hfresh : Fresh s cmd'.roomId [(importGroup s cmd', ⟨none, 0, cmd'.state⟩)]
        (importGroup s cmd' + 1) := .single (.inl ⟨rfl, rfl⟩)
    exact ⟨h.put (m := Machine.importMeta s (Machine.importRows s cmd').1 cmd') hfresh rfl rfl,
      h.le_put hfresh rfl⟩
  | @importSegment cmd' m known =>
    have hfresh : Fresh s cmd'.roomId [(m.nextGroup, ⟨none, 0, cmd'.state⟩)] (m.nextGroup + 1) := by
      have := Fresh.single (s := s) (r := cmd'.roomId) (g := ⟨none, 0, cmd'.state⟩) (.inl ⟨rfl, rfl⟩)
      simpa [Store.nextGroup, known] using this
    obtain ⟨hgroup, hroom, _⟩ := Machine.segmentRows_frame s m cmd'
    refine ⟨h.put (m := Machine.segmentMeta m (Machine.segmentRows s m cmd') cmd') hfresh hgroup ?_,
      h.le_put hfresh hgroup⟩
    simp only [Store.putMeta, hroom]
  | @importHistory cmd' m known =>
    obtain ⟨hgroup, hroom, _⟩ := Machine.historyRows_frame s m cmd'
    have hnext : s.nextGroup cmd'.roomId = m.nextGroup := by simp [Store.nextGroup, known]
    have hfresh : Fresh s cmd'.roomId [] m.nextGroup := hnext ▸ .nil
    refine ⟨h.put (m := { m with
        historyFrontier := Machine.stillMissing m (Machine.historyRows s m cmd')
        nextHistoryIdx := (Machine.historyRows s m cmd').idx }) hfresh hgroup ?_,
      h.le_put hfresh hgroup⟩
    simp only [Store.putMeta, hroom]

theorem groupsOk_onCore : OnCore GroupsOk := fun _ => ⟨fun h => h.congr rfl rfl, fun h => h.congr rfl rfl⟩

theorem groupsOk_empty : GroupsOk Store.empty := by
  refine ⟨?_, ?_, ?_⟩ <;> intro <;> simp [Store.empty]

theorem Serial.serialIn {ruma : Ruma} {s : Store} (h : Serial ruma s cmd) :
    SerialIn ruma s cmd := ⟨s, h, rfl, fun _ => rfl⟩

/-- **State groups are sound and permanent.** Along every run of commands that are computed and
applied one at a time in their room, the stored groups are well formed; a stored group stays as it
is, and materialising it terminates with the same state from then on. -/
theorem run_groups_ok {ruma : Ruma} {s s' : Store} (run : Runs (SerialIn ruma) Store.empty s)
    (later : Runs (SerialIn ruma) s s') :
    GroupsOk s ∧ ∀ (room : RoomId) (id : Nat) (g : StateGroup), s.group[(room, id)]? = some g →
      s'.group[(room, id)]? = some g ∧
      ∃ map, SettlesTo .outOfFuel (fun fuel => s.resolveGroup fuel room id) (.ok map) ∧
        SettlesTo .outOfFuel (fun fuel => s'.resolveGroup fuel room id) (.ok map) := by
  have ok : GroupsOk s := Runs.invariant groupsOk_onCore
    (fun _ _ _ h serial heff => (groups_effect h serial.freshIn heff).1) run groupsOk_empty
  have kept : GroupsOk s' ∧ s.GroupsLe s' :=
    Runs.invariant (I := fun t => GroupsOk t ∧ s.GroupsLe t)
      (fun t => and_congr (groupsOk_onCore t) Iff.rfl)
      (fun _ _ _ h serial heff =>
        have step := groups_effect h.1 serial.freshIn heff
        ⟨step.1, fun key g hg => step.2 key g (h.2 key g hg)⟩) later ⟨ok, fun _ _ hg => hg⟩
  refine ⟨ok, fun room id g hg => ⟨kept.2 _ _ hg, ?_⟩⟩
  obtain ⟨map, hmap⟩ := ok.materializes hg
  exact ⟨map, hmap.settles, (hmap.mono fun _ => kept.2 _).settles⟩

theorem run_groups_ok_join : ∃ s s' : Store, GroupsOk s ∧
    (s.group[("!r:x", 2)]?).isSome ∧ (s'.event["$m"]?).isSome ∧
    ∃ map, SettlesTo .outOfFuel (fun fuel => s.resolveGroup fuel "!r:x" 2) (.ok map) ∧
      SettlesTo .outOfFuel (fun fuel => s'.resolveGroup fuel "!r:x" 2) (.ok map) := by
  have serial : ∀ {s s' : Store},
      Runs (fun s cmd => Serial Ruma.sample s cmd ∧ True) s s' → Runs (SerialIn Ruma.sample) s s' :=
    fun run => run.mono fun _ _ h => h.1.serialIn
  obtain ⟨s, run, hp⟩ := exists_run (fun _ _ => True)
    [.ingest Ruma.sampleCreate false, .ingest Ruma.sampleJoin false]
    (fun s => (s.group[("!r:x", 2)]?).isSome && ((Server.sample ["x"]).serveAll (fun _ _ => True) 9 s
        [.ingest (Ruma.samplePdu "m" "m.room.message" none "@a:x" [] ["$c", "$j"] ["$j"] 3)
          false]).any fun s => s.event.contains "$m")
    (by decide +kernel)
  rw [Bool.and_eq_true, Option.any_eq_true] at hp
  obtain ⟨hg, s', hs', hm⟩ := hp
  obtain ⟨g, hg'⟩ := Option.isSome_iff_exists.1 hg
  obtain ⟨ok, kept⟩ := run_groups_ok (serial run) (serial (serveAll_runs hs'))
  exact ⟨s, s', ok, hg, by simpa using hm, (kept "!r:x" 2 g hg').2⟩

end Saltator.Room
