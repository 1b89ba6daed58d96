import Saltator.Room.Whole

/-!
# The state of an imported room

An import maps the events of both lists of a join response by their state keys, the last one of a key
wins, and the join is put on top. So the current state is the offered one exactly where the auth chain
has no state key of its own.
-/

namespace Saltator.Room

open Std
open Saltator.Outcome
open Machine (applyImport)
open StateRes (Key StateIds createKey)

namespace Server

variable (server : Server) (version : RoomVersion)

def listed (objects : List JsonObject) (key : Key) : Option EventId :=
  ((objects.filter fun o => stateKeyOf o = some key).getLast?).bind fun o =>
    (server.ruma.eventId o version).toOption

def joinKey (join : JsonObject) : Option Key :=
  (strProp join "sender").map fun sender => ("m.room.member", sender)

def offered (join : JsonObject) (objects : List JsonObject) (key : Key) : Option EventId :=
  if joinKey join = some key then (server.ruma.eventId join version).toOption
  else server.listed version objects key

end Server

section Import

variable {server : Server} {version : RoomVersion} {join : JsonObject}
  {state authChain objects : List JsonObject} {cmd : ImportRoom} {s t : Store} {key : Key}
  {objects' : List JsonObject}

theorem listed_append_of_listed (given : ∃ o ∈ objects', Server.stateKeyOf o = some key) :
    server.listed version (objects ++ objects') key = server.listed version objects' key := by
  obtain ⟨o, mem, keyed⟩ := given
  have some' : (objects'.filter fun o => Server.stateKeyOf o = some key) ≠ [] :=
    List.ne_nil_of_mem (List.mem_filter.2 ⟨mem, by simpa using keyed⟩)
  unfold Server.listed
  rw [List.filter_append, List.getLast?_append_of_ne_nil _ some']

theorem listed_append_of_unlisted (unlisted : ∀ o ∈ objects', Server.stateKeyOf o ≠ some key) :
    server.listed version (objects ++ objects') key = server.listed version objects key := by
  have none' : (objects'.filter fun o => Server.stateKeyOf o = some key) = [] :=
    List.filter_eq_nil_iff.2 fun o mem => by simpa using unlisted o mem
  unfold Server.listed
  rw [List.filter_append, none', List.append_nil]

theorem listed_eq_none (unlisted : ∀ o ∈ objects, Server.stateKeyOf o ≠ some key) :
    server.listed version objects key = none := by
  rw [← List.nil_append objects, listed_append_of_unlisted unlisted]
  rfl

theorem listed_isSome (ids : ∀ o ∈ objects, ∃ id, server.ruma.eventId o version = .ok id)
    (given : ∃ o ∈ objects, Server.stateKeyOf o = some key) :
    (server.listed version objects key).isSome := by
  obtain ⟨o, mem, keyed⟩ := given
  have some' : (objects.filter fun o => Server.stateKeyOf o = some key) ≠ [] :=
    List.ne_nil_of_mem (List.mem_filter.2 ⟨mem, by simpa using keyed⟩)
  obtain ⟨id, named⟩ := ids _ (List.mem_filter.1 (List.getLast_mem some')).1
  unfold Server.listed
  rw [List.getLast?_eq_some_getLast some', Option.bind_some, named]
  rfl

theorem dump_stateMap {d : Server.Dump} (h : objects.foldlM (fun (d : Server.Dump) obj => do
      let id ← Pipeline.ofFormat (server.ruma.eventId obj version)
      return d.add id obj true) ⟨[], ∅, ∅⟩ = .ok d) :
    (∀ o ∈ objects, ∃ id, server.ruma.eventId o version = .ok id) ∧
      ∀ key, d.stateMap[key]? = server.listed version objects key := by
  refine (foldlM_spec (I := fun done (d : Server.Dump) =>
      (∀ o ∈ done, ∃ id, server.ruma.eventId o version = .ok id) ∧
        ∀ key, d.stateMap[key]? = server.listed version done key) (F := fun _ => True)
    (fun done o d d' _ inv step => ?_) (fun _ _ _ _ _ _ _ => trivial) ⟨by simp, fun key => ?_⟩).1 d h
  · simp only [bind_eq_ok, pure_eq_ok, Pipeline.ofFormat, mapError_eq_ok] at step
    obtain ⟨id, named, rfl⟩ := step
    refine ⟨fun o' mem => ?_, fun key => ?_⟩
    · rcases List.mem_append.1 mem with mem | mem
      · exact inv.1 o' mem
      · obtain rfl := List.mem_singleton.1 mem
        exact ⟨id, named⟩
    · unfold Server.Dump.add
      dsimp only [if_true]
      by_cases keyed : Server.stateKeyOf o = some key
      · rw [listed_append_of_listed ⟨o, List.mem_singleton_self o, keyed⟩, keyed]
        simp [Server.listed, keyed, named]
      · rw [listed_append_of_unlisted (by simpa using keyed), ← inv.2 key]
        cases other : Server.stateKeyOf o with
        | none => rfl
        | some key' =>
          have apart : key ≠ key' := by
            rintro rfl
            exact keyed other
          exact OrdMap.getElem?_insert'.trans (if_neg apart)
  · simp [Server.listed]

theorem importRoom_state (h : server.importRoom version join state authChain = .ok cmd) :
    (∀ o ∈ authChain ++ state, ∃ id, server.ruma.eventId o version = .ok id) ∧
      ∃ map : StateIds, cmd.state = map.toList ∧
        ∀ key, map[key]? = server.offered version join (authChain ++ state) key := by
  simp only [Server.importRoom, bind_eq_ok, Pipeline.ofFormat, mapError_eq_ok] at h
  obtain ⟨joinId, named, room, -, dump, hdump, sender, hsender, h⟩ := h
  obtain ⟨ids, stateMap⟩ := dump_stateMap hdump
  have sent : strProp join "sender" = some sender := by
    unfold Pipeline.strOf at hsender
    split at hsender
    · rename_i found
      exact Except.ok.inj hsender ▸ found
    · cases hsender
  split at h
  · cases h
  obtain rfl := pure_eq_ok.1 h
  refine ⟨ids, _, rfl, fun key => ?_⟩
  rw [OrdMap.getElem?_insert', stateMap]
  simp only [Server.offered, Server.joinKey, sent, Option.map_some, Option.some.injEq, named,
    toOption_ok, eq_comm]

theorem resolveGroup_full {room : RoomId} {group : Nat} {entries : List (Key × EventId)}
    (stored : s.group[(room, group)]? = some ⟨none, 0, entries⟩) (fuel : Nat) :
    s.resolveGroup (fuel + 2) room group = .ok (Store.applyEntries ∅ ⟨none, 0, entries⟩) := by
  simp [Store.resolveGroup, Loop.run, Store.groupRound, stored, pure, Except.pure]

def Presents (s : Store) (room : RoomId) (state : Key → Option EventId) : Prop :=
  ∃ m, s.room[room]? = some m ∧ ∀ fuel, ∃ map : StateIds,
    s.resolveGroup (fuel + 2) room m.currentGroup = .ok map ∧ ∀ key, map[key]? = state key

/-- The room has a current state, and all events that it leads to are stored and unrejected. -/
def Store.Resolvable (s : Store) (room : RoomId) : Prop :=
  ∃ state, Presents s room state ∧ ∀ key id, state key = some id → Graph.Complete s.cites id

theorem Presents.unique {room : RoomId} {state state' : Key → Option EventId} (h : Presents s room state)
    (h' : Presents s room state') : state = state' := by
  obtain ⟨m, known, read⟩ := h
  obtain ⟨m', known', read'⟩ := h'
  obtain rfl := some_unique known known'
  obtain ⟨map, found, values⟩ := read 0
  obtain ⟨map', found', values'⟩ := read' 0
  obtain rfl := ok_unique found found'
  exact funext fun key => (values key).symm.trans (values' key)

theorem import_presents {seq : Nat} (computed : server.importRoom version join state authChain = .ok cmd)
    (applied : applyImport s cmd = (t, .accepted cmd.joinEventId seq)) :
    Presents t cmd.roomId (server.offered version join (authChain ++ state)) := by
  obtain ⟨-, map, entries, values⟩ := importRoom_state computed
  unfold applyImport at applied
  split at applied
  · cases applied
  obtain ⟨rfl, -⟩ := Prod.mk.inj applied
  refine ⟨Machine.importMeta s (Machine.importRows s cmd).1 cmd,
    OrdMap.getElem?_insert'.trans (if_pos rfl), fun fuel => ⟨map, ?_, values⟩⟩
  have stored : ((Machine.importRows s cmd).1.putMeta cmd.roomId
      (Machine.importMeta s (Machine.importRows s cmd).1 cmd)).group[
        (cmd.roomId, Machine.importGroup s cmd)]? = some ⟨none, 0, cmd.state⟩ :=
    OrdMap.getElem?_insert'.trans (if_pos rfl)
  have read := resolveGroup_full stored fuel
  rwa [entries, applyEntries_toList] at read

/-- **An import adopts the offered state** exactly where each state key of the auth chain, the join's own
apart, is in the state list too. -/
theorem adopts_iff {seq : Nat} (computed : server.importRoom version join state authChain = .ok cmd)
    (applied : applyImport s cmd = (t, .accepted cmd.joinEventId seq)) :
    Presents t cmd.roomId (server.offered version join state) ↔
      ∀ o ∈ authChain, ∀ key, Server.stateKeyOf o = some key → Server.joinKey join ≠ some key →
        ∃ o' ∈ state, Server.stateKeyOf o' = some key := by
  have presented := import_presents computed applied
  obtain ⟨ids, -⟩ := importRoom_state computed
  constructor
  · intro adopted o mem key keyed apart
    by_contra unlisted
    push Not at unlisted
    have same := congrFun (presented.unique adopted) key
    simp only [Server.offered, if_neg apart, listed_append_of_unlisted unlisted,
      listed_eq_none unlisted] at same
    have given := listed_isSome (fun o mem => ids o (List.mem_append_left _ mem)) ⟨o, mem, keyed⟩
    simp [same] at given
  · intro covered
    have same : server.offered version join (authChain ++ state) = server.offered version join state := by
      funext key
      unfold Server.offered
      split
      · rfl
      rename_i apart
      by_cases given : ∃ o ∈ state, Server.stateKeyOf o = some key
      · exact listed_append_of_listed given
      · have unlisted : ∀ o ∈ authChain ++ state, Server.stateKeyOf o ≠ some key := by
          intro o mem keyed
          rcases List.mem_append.1 mem with mem | mem
          · exact given (covered o mem key keyed apart)
          · exact given ⟨o, mem, keyed⟩
        rw [listed_eq_none unlisted, listed_eq_none fun o mem => unlisted o (List.mem_append_right _ mem)]
    exact same ▸ presented

end Import

/-! ## Two responses -/

def sampleChainLevels : JsonObject :=
  Ruma.samplePdu "p" "m.room.power_levels" (some "") "@a:x" [] ["$c", "$j"] ["$j"] 3

theorem exists_imported (state authChain : List JsonObject) (p : ImportRoom → Bool)
    (h : ((Server.sample ["x"]).importRoom .v11 Ruma.sampleJoin state authChain).toOption.any p = true) :
    ∃ cmd t, (Server.sample ["x"]).importRoom .v11 Ruma.sampleJoin state authChain = .ok cmd ∧
      applyImport Store.empty cmd = (t, .accepted cmd.joinEventId 1) ∧ p cmd = true := by
  obtain ⟨cmd, computed, hp⟩ := (Option.any_eq_true _ _).1 h
  exact ⟨cmd, _, toOption_eq_some.1 computed, rfl, hp⟩

theorem adopts_iff_sample : ∃ cmd t,
    (Server.sample ["x"]).importRoom .v11 Ruma.sampleJoin [Ruma.sampleCreate, sampleChainLevels]
      [Ruma.sampleCreate] = .ok cmd ∧
    applyImport Store.empty cmd = (t, .accepted cmd.joinEventId 1) ∧
    Presents t cmd.roomId
      ((Server.sample ["x"]).offered .v11 Ruma.sampleJoin [Ruma.sampleCreate, sampleChainLevels]) := by
  obtain ⟨cmd, t, computed, applied, -⟩ := exists_imported [Ruma.sampleCreate, sampleChainLevels]
    [Ruma.sampleCreate] (fun _ => true) (by decide +kernel)
  refine ⟨cmd, t, computed, applied, (adopts_iff computed applied).2 fun o mem key keyed _ => ?_⟩
  obtain rfl := List.mem_singleton.1 mem
  exact ⟨Ruma.sampleCreate, List.mem_cons_self, keyed⟩

/-- The state list has no power levels, and those of the auth chain become the room's. -/
theorem chain_levels_adopted : ∃ cmd t,
    (Server.sample ["x"]).importRoom .v11 Ruma.sampleJoin [Ruma.sampleCreate] [sampleChainLevels] =
      .ok cmd ∧
    applyImport Store.empty cmd = (t, .accepted cmd.joinEventId 1) ∧
    (∃ m map, t.room[cmd.roomId]? = some m ∧ t.resolveGroup 2 cmd.roomId m.currentGroup = .ok map ∧
      map[StateRes.plKey]? = some "$p") ∧
    ¬ Presents t cmd.roomId ((Server.sample ["x"]).offered .v11 Ruma.sampleJoin [Ruma.sampleCreate]) := by
  obtain ⟨cmd, t, computed, applied, -⟩ := exists_imported [Ruma.sampleCreate] [sampleChainLevels]
    (fun _ => true) (by decide +kernel)
  have presented := import_presents computed applied
  have levels : (Server.sample ["x"]).offered .v11 Ruma.sampleJoin ([sampleChainLevels] ++ [Ruma.sampleCreate])
      StateRes.plKey = some "$p" := by
    decide +kernel
  refine ⟨cmd, t, computed, applied, ?_, fun adopted => ?_⟩
  · obtain ⟨m, known, read⟩ := presented
    obtain ⟨map, found, values⟩ := read 0
    exact ⟨m, map, known, found, (values _).trans levels⟩
  · have same := congrFun (presented.unique adopted) StateRes.plKey
    rw [levels] at same
    exact absurd same (by decide +kernel)

end Saltator.Room
