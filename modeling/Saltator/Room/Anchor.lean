import Saltator.Room.Whole

/-!
# The snapshot of a segment

A recovered chain is anchored on a state snapshot. An object enters the snapshot if everything that it
leads to is part of the fetch or stored; `resolvable_spec` says that this is what the check decides. Of a
stored event the check asks nothing more, so the snapshot may lead to rejected events and to absent ones.
-/

namespace Saltator.Room

open Std
open Saltator.Outcome
open Saltator.Graph
open Machine (Effect plain)
open StateRes (Key StateIds)

/-! ## The check -/

def refsOf (s : Store) (fetched : OrdMap EventId (List EventId)) (id : EventId) : Option (List EventId) :=
  match fetched[id]? with
  | some refs => some refs
  | none => if s.event.contains id then some [] else none

section Check

variable {s : Store} {fetched : OrdMap EventId (List EventId)} {seed : EventId}
  {verdict verdict' : OrdMap EventId Bool} {fuel : Nat} {ok : Bool} {w : Server.ResolveWalk}
  {id : EventId}

def Sure (s : Store) (fetched : OrdMap EventId (List EventId)) (verdict : OrdMap EventId Bool) : Prop :=
  ∀ id b, verdict[id]? = some b → (b = true ↔ Complete (refsOf s fetched) id)

theorem Sure.insert (sure : Sure s fetched verdict) {b : Bool}
    (settled : b = true ↔ Complete (refsOf s fetched) id) : Sure s fetched (verdict.insert id b) := by
  intro a c found
  rw [OrdMap.getElem?_insert'] at found
  split at found
  · rename_i same
    subst same
    exact Option.some.inj found ▸ settled
  · exact sure a c found

structure WalkOver (s : Store) (fetched : OrdMap EventId (List EventId)) (seed : EventId)
    (w : Server.ResolveWalk) : Prop where
  sure : Sure s fetched w.verdict
  entered : seed ∈ w.pending ∨ seed ∈ w.visiting ∨ Complete (refsOf s fetched) seed
  reached : ∀ id ∈ w.pending, Relation.ReflTransGen (Edge (refsOf s fetched)) seed id
  covered : ∀ id ∈ w.visiting, ∃ refs, refsOf s fetched id = some refs ∧
    ∀ r ∈ refs, r ∈ w.pending ∨ r ∈ w.visiting ∨ Complete (refsOf s fetched) r

theorem WalkOver.start (sure : Sure s fetched verdict) : WalkOver s fetched seed ⟨[seed], ∅, verdict⟩ where
  sure := sure
  entered := .inl (List.mem_singleton_self _)
  reached id mem := by
    obtain rfl := List.mem_singleton.1 mem
    exact .refl
  covered id mem := by simp at mem

theorem WalkOver.fails (h : WalkOver s fetched seed w) (mem : id ∈ w.pending)
    (absent : ¬ Complete (refsOf s fetched) id) : ¬ Complete (refsOf s fetched) seed :=
  fun whole => absent (whole.reached (h.reached id mem))

theorem WalkOver.skip {pending : List EventId} (h : WalkOver s fetched seed w)
    (top : w.pending = id :: pending) (known : id ∈ w.visiting ∨ Complete (refsOf s fetched) id) :
    WalkOver s fetched seed { w with pending } := by
  have keep : ∀ r, r ∈ w.pending ∨ r ∈ w.visiting ∨ Complete (refsOf s fetched) r →
      r ∈ pending ∨ r ∈ w.visiting ∨ Complete (refsOf s fetched) r := by
    rintro r (mem | rest)
    · rcases List.mem_cons.1 (top ▸ mem) with rfl | mem
      · exact .inr known
      · exact .inl mem
    · exact .inr rest
  refine ⟨h.sure, keep seed h.entered, fun r mem => h.reached r (top ▸ List.mem_cons_of_mem _ mem),
    fun a mem => ?_⟩
  obtain ⟨refs, found, all⟩ := h.covered a mem
  exact ⟨refs, found, fun r listed => keep r (all r listed)⟩

theorem WalkOver.visit {pending refs : List EventId} (h : WalkOver s fetched seed w)
    (top : w.pending = id :: pending) (found : refsOf s fetched id = some refs) :
    WalkOver s fetched seed
      { w with pending := refs.reverse ++ pending, visiting := w.visiting.insert id } := by
  have keep : ∀ r, r ∈ w.pending ∨ r ∈ w.visiting ∨ Complete (refsOf s fetched) r →
      r ∈ refs.reverse ++ pending ∨ r ∈ w.visiting.insert id ∨ Complete (refsOf s fetched) r := by
    rintro r (mem | mem | rest)
    · rcases List.mem_cons.1 (top ▸ mem) with rfl | mem
      · exact .inr (.inl (OrdSet.mem_insert'.2 (.inl rfl)))
      · exact .inl (List.mem_append_right _ mem)
    · exact .inr (.inl (OrdSet.mem_insert'.2 (.inr mem)))
    · exact .inr (.inr rest)
  refine ⟨h.sure, keep seed h.entered, fun r mem => ?_, fun a mem => ?_⟩
  · rcases List.mem_append.1 mem with mem | mem
    · exact (h.reached id (top ▸ List.mem_cons_self)).tail
        ⟨refs, found, List.mem_reverse.1 mem⟩
    · exact h.reached r (top ▸ List.mem_cons_of_mem _ mem)
  · rcases OrdSet.mem_insert'.1 mem with rfl | mem
    · exact ⟨refs, found, fun r listed => .inl (List.mem_append_left _ (List.mem_reverse.2 listed))⟩
    · obtain ⟨refs', found', all⟩ := h.covered a mem
      exact ⟨refs', found', fun r listed => keep r (all r listed)⟩

theorem WalkOver.done (h : WalkOver s fetched seed w) (empty : w.pending = []) :
    (∀ id ∈ w.visiting, Complete (refsOf s fetched) id) ∧ Complete (refsOf s fetched) seed := by
  have visited : ∀ id ∈ w.visiting, Complete (refsOf s fetched) id := fun id mem =>
    complete_of_closed (P := fun a => a ∈ w.visiting ∨ Complete (refsOf s fetched) a) (fun a inside => by
        rcases inside with mem | whole
        · obtain ⟨refs, found, all⟩ := h.covered a mem
          exact ⟨refs, found, fun r listed => (all r listed).resolve_left (by simp [empty])⟩
        · obtain ⟨refs, found⟩ := Option.isSome_iff_exists.1 whole.known
          exact ⟨refs, found, fun r listed => .inr (whole.edge ⟨refs, found, listed⟩)⟩)
      (.inl mem)
  refine ⟨visited, ?_⟩
  rcases h.entered with mem | mem | whole
  · simp [empty] at mem
  · exact visited seed mem
  · exact whole

theorem resolvableRound_spec {out : Server.ResolveWalk ⊕ (Bool × OrdMap EventId Bool)}
    (h : WalkOver s fetched seed w) (round : Server.resolvableRound s fetched seed w = .ok out) :
    match out with
    | .inl w' => WalkOver s fetched seed w'
    | .inr r => (r.1 = true ↔ Complete (refsOf s fetched) seed) ∧ Sure s fetched r.2 := by
  unfold Server.resolvableRound at round
  split at round
  · rename_i empty
    obtain rfl := Except.ok.inj round
    obtain ⟨visited, whole⟩ := h.done empty
    refine ⟨by simpa using whole, ?_⟩
    refine List.foldlRecOn (motive := Sure s fetched) _ _ h.sure fun v sure id mem => ?_
    exact sure.insert (by simpa using visited id (OrdSet.mem_toList'.1 mem))
  · rename_i id pending top
    have listed : id ∈ w.pending := top ▸ List.mem_cons_self
    split at round
    · rename_i settled
      obtain rfl := Except.ok.inj round
      have fails := h.fails listed (by simpa using (h.sure id false settled).not)
      exact ⟨by simpa using fails, h.sure.insert (by simpa using fails)⟩
    rename_i unsettled
    split at round
    · rename_i known
      obtain rfl := Except.ok.inj round
      rw [Bool.or_eq_true] at known
      refine h.skip top (known.symm.imp ExtTreeSet.contains_iff_mem.1 fun held => ?_)
      obtain ⟨b, found⟩ := OrdMap.mem_iff_getElem?.1 (ExtTreeMap.contains_iff_mem.1 held)
      cases b with
      | true => exact (h.sure id true found).1 rfl
      | false => exact absurd found unsettled
    dsimp only at round
    split at round
    · rename_i refs found
      obtain rfl := Except.ok.inj round
      exact h.visit top (by simp [refsOf, found])
    rename_i unfetched
    split at round
    · rename_i stored
      obtain rfl := Except.ok.inj round
      have refs : refsOf s fetched id = some [] := by simp [refsOf, unfetched, stored]
      have visited := h.visit top refs
      have whole : Complete (refsOf s fetched) id := (complete_iff refs).2 (by simp)
      exact ⟨visited.sure.insert (by simpa using whole), visited.entered, visited.reached, visited.covered⟩
    · rename_i absent
      obtain rfl := Except.ok.inj round
      have missing : ¬ Complete (refsOf s fetched) id := fun whole => by
        simpa [refsOf, unfetched, absent] using whole.known
      have fails := h.fails listed missing
      exact ⟨by simpa using fails, (h.sure.insert (by simpa using missing)).insert (by simpa using fails)⟩

/-- The check decides whether everything that the event leads to is part of the fetch or stored. -/
theorem resolvable_spec (sure : Sure s fetched verdict)
    (h : Server.resolvable s fuel fetched verdict seed = .ok (ok, verdict')) :
    (ok = true ↔ Complete (refsOf s fetched) seed) ∧ Sure s fetched verdict' :=
  (Loop.run_result (I := WalkOver s fetched seed)
    (Q := fun r : Bool × OrdMap EventId Bool =>
      (r.1 = true ↔ Complete (refsOf s fetched) seed) ∧ Sure s fetched r.2) (F := fun _ => True)
    (fun _ _ inv round => resolvableRound_spec inv round)
    (fun _ _ inv round => resolvableRound_spec inv round) (fun _ _ _ _ => trivial) fuel _
    (WalkOver.start sure)).1 _ h

end Check

/-! ## The snapshot -/

/-- An object that is kept: its id, whether it is of the state list, and the object. -/
abbrev KeptObject := EventId × Bool × JsonObject

section Dump

variable {server : Server} {s : Store} {fuel : Nat} {version : RoomVersion}
  {fetched : OrdMap EventId (List EventId)} {d : Server.Dump}

open Classical in
noncomputable def keeps (server : Server) (s : Store) (version : RoomVersion)
    (fetched : OrdMap EventId (List EventId)) (entry : Bool × JsonObject) : Option KeptObject :=
  match server.ruma.eventId entry.2 version with
  | .error _ => none
  | .ok id => if Complete (refsOf s fetched) id then some (id, entry) else none

def addKept (d : Server.Dump) (e : KeptObject) : Server.Dump := d.add e.1 e.2.2 e.2.1

def anchor (kept : List KeptObject) (key : Key) : Option EventId :=
  ((kept.filter fun e => e.2.1 ∧ Server.stateKeyOf e.2.2 = some key).getLast?).map Prod.fst

theorem snapshot_dump {entries : List (Bool × JsonObject)} {v : OrdMap EventId Bool}
    (h : entries.foldlM (server.snapshotObject s fuel version fetched) (⟨[], ∅, ∅⟩, ∅) = .ok (d, v)) :
    d = (entries.filterMap (keeps server s version fetched)).foldl addKept ⟨[], ∅, ∅⟩ := by
  refine ((foldlM_spec (I := fun done (acc : Server.Dump × OrdMap EventId Bool) =>
      acc.1 = (done.filterMap (keeps server s version fetched)).foldl addKept ⟨[], ∅, ∅⟩ ∧
        Sure s fetched acc.2) (F := fun _ => True) (fun done entry acc acc' _ inv step => ?_)
    (fun _ _ _ _ _ _ _ => trivial) ⟨rfl, fun id b found => by simp at found⟩).1 _ h).1
  obtain ⟨same, sure⟩ := inv
  rw [List.filterMap_append, List.foldl_append, ← same]
  unfold Server.snapshotObject at step
  split at step
  · rename_i unnamed
    obtain rfl := Except.ok.inj step
    exact ⟨by simp [keeps, unnamed], sure⟩
  · rename_i id named
    obtain ⟨⟨ok, verdict⟩, checked, step⟩ := bind_eq_ok.1 step
    obtain ⟨decides, sure'⟩ := resolvable_spec sure checked
    dsimp only at step
    split at step
    · rename_i holds
      obtain rfl := pure_eq_ok.1 step
      exact ⟨by simp [keeps, named, decides.1 holds, addKept], sure'⟩
    · rename_i fails
      obtain rfl := pure_eq_ok.1 step
      exact ⟨by simp [keeps, named, decides.not.1 fails], sure'⟩

structure DumpOf (kept : List KeptObject) (d : Server.Dump) : Prop where
  seen : ∀ id, id ∈ d.seen ↔ ∃ e ∈ kept, e.1 = id
  first : ∀ ev ∈ d.events, (kept.find? fun e => e.1 = ev.eventId).map (fun e => e.2.2) = some ev.raw
  listed : ∀ id ∈ d.seen, ∃ ev ∈ d.events, ev.eventId = id
  state : ∀ key, d.stateMap[key]? = anchor kept key

theorem dumpOf_add {kept : List KeptObject} (h : DumpOf kept d) (e : KeptObject) :
    DumpOf (kept ++ [e]) (addKept d e) where
  seen id := by
    have grown : id ∈ (addKept d e).seen ↔ id = e.1 ∨ id ∈ d.seen := OrdSet.mem_insert'
    rw [grown, h.seen id]
    simp only [List.mem_append, List.mem_singleton, or_and_right, exists_or, exists_eq_left]
    grind
  first ev mem := by
    rw [List.find?_append]
    have old : ev ∈ d.events → ((kept.find? fun e => e.1 = ev.eventId).or
        ([e].find? fun e => e.1 = ev.eventId)).map (fun e => e.2.2) = some ev.raw := by
      intro mem
      obtain ⟨o, found, raw⟩ := Option.map_eq_some_iff.1 (h.first ev mem)
      simp only [found, Option.some_or, Option.map_some, raw]
    unfold addKept Server.Dump.add at mem
    dsimp only at mem
    split at mem
    · exact old mem
    rename_i fresh
    rcases List.mem_append.1 mem with mem | mem
    · exact old mem
    · obtain rfl := List.mem_singleton.1 mem
      have absent : (kept.find? fun o => o.1 = e.1) = none := by
        rw [List.find?_eq_none]
        intro o mem' same
        exact fresh (ExtTreeSet.contains_iff_mem.2 ((h.seen _).2 ⟨o, mem', by simpa using same⟩))
      have ids : (Server.importEventOf e.1 e.2.2).eventId = e.1 := rfl
      rw [ids, absent]
      simp [Server.importEventOf]
  listed id mem := by
    have grow : ∀ ev ∈ d.events, ev ∈ (addKept d e).events := by
      intro ev mem
      unfold addKept Server.Dump.add
      dsimp only
      split
      · exact mem
      · exact List.mem_append_left _ mem
    by_cases held : id ∈ d.seen
    · obtain ⟨ev, mem, same⟩ := h.listed id held
      exact ⟨ev, grow ev mem, same⟩
    · have same : id = e.1 := (OrdSet.mem_insert'.1 mem).resolve_right held
      subst same
      have fresh : d.seen.contains e.1 = false := OrdSet.contains_eq_false.2 held
      exact ⟨Server.importEventOf e.1 e.2.2, by simp [addKept, Server.Dump.add, fresh], rfl⟩
  state key := by
    have given : anchor (kept ++ [e]) key =
        if e.2.1 = true ∧ Server.stateKeyOf e.2.2 = some key then some e.1 else anchor kept key := by
      unfold anchor
      rw [List.filter_append]
      split <;> rename_i keyed <;> simp [keyed]
    rw [given, ← h.state key]
    unfold addKept Server.Dump.add
    dsimp only
    cases e.2.1 with
    | false => simp
    | true =>
      cases keyed : Server.stateKeyOf e.2.2 with
      | none => simp
      | some key' => simp only [if_true, OrdMap.getElem?_insert', Option.some.injEq, true_and, eq_comm]

theorem dumpOf (kept : List KeptObject) : DumpOf kept (kept.foldl addKept ⟨[], ∅, ∅⟩) := by
  induction kept using List.reverseRecOn with
  | nil => exact ⟨by simp, by simp, by simp, by simp [anchor]⟩
  | append_singleton kept e ih =>
    rw [List.foldl_append]
    exact dumpOf_add ih e

end Dump

/-! ## The segment -/

section Segment

variable {server : Server} {s t : Store} {fuel : Nat} {room : RoomId} {version : RoomVersion}
  {state authChain chain : List JsonObject} {cmd : ImportSegment} {m : RoomMeta}

noncomputable def keptOf (server : Server) (s : Store) (version : RoomVersion)
    (state authChain chain : List JsonObject) : List KeptObject :=
  (authChain.map (fun o => (false, o)) ++ state.map fun o => (true, o)).filterMap
    (keeps server s version (server.fetchedAuthOf version (authChain ++ state ++ chain)))

/-- What an event cites once the segment is there: events that the chain puts on the timeline as they
came, stored ones that are not rejected, and of the others what was kept. -/
def anchored (s : Store) (kept : List KeptObject) (chain : List ImportEvent) (id : EventId) :
    Option (List EventId) :=
  match if s.onTimeline id then none else chain.find? fun ev => ev.eventId = id with
  | some ev => some (authEventIds ev.raw)
  | none =>
    match s.event[id]? with
    | some e => if e.rejected.isNone then some (authEventIds e.raw) else none
    | none => (kept.find? fun e => e.1 = id).map fun e => authEventIds e.2.2

/-- What a segment's command is made of. -/
structure Segments (s : Store) (room : RoomId) (kept : List KeptObject) (timeline : List ImportEvent)
    (cmd : ImportSegment) : Prop where
  room : cmd.roomId = room
  timeline : cmd.timeline = timeline
  first : ∀ ev ∈ cmd.events, (kept.find? fun e => e.1 = ev.eventId).map (fun e => e.2.2) = some ev.raw
  listed : ∀ e ∈ kept, ∃ ev ∈ cmd.events, ev.eventId = e.1
  state : ∃ map : StateIds, cmd.state = map.toList ∧ ∀ key, map[key]? = anchor kept key

theorem importSegment_segments (known : s.room[room]? = some m)
    (parsed : RoomVersion.parse m.version = some version)
    (h : server.importSegment s fuel room state authChain chain = .ok cmd) :
    Segments s room (keptOf server s version state authChain chain)
      (chain.filterMap (server.chainEvent version)) cmd := by
  simp only [Server.importSegment, known, Pipeline.parseVersion, parsed, bind_eq_ok, Except.ok.injEq,
    exists_eq_left'] at h
  obtain ⟨⟨dump, verdict⟩, computed, h⟩ := h
  obtain rfl := pure_eq_ok.1 h
  obtain rfl := snapshot_dump computed
  have made := dumpOf (keptOf server s version state authChain chain)
  exact ⟨rfl, rfl, made.first, fun e mem => made.listed e.1 ((made.seen e.1).2 ⟨e, mem, rfl⟩),
    _, rfl, made.state⟩

theorem segmentLoop_placed (room : RoomId) (group : Nat) {chain : List ImportEvent} {r : Machine.SegmentRun}
    {id : EventId} {ev : ImportEvent} (off : r.store.onTimeline id = false)
    (found : (chain.find? fun ev => ev.eventId = id) = some ev) :
    ∃ seq, (chain.foldl (Machine.segmentEvent room group) r).store.event[id]? =
      some (Machine.chainRecord ev group seq) := by
  induction chain generalizing r with
  | nil => cases found
  | cons head chain ih =>
    rw [List.find?_cons] at found
    rw [List.foldl_cons]
    by_cases own : head.eventId = id
    · simp only [own, decide_true, Option.some.injEq] at found
      subst found
      -- The first occurrence is placed, and the others find it on the timeline.
      have placed : (Machine.segmentEvent room group r head).store.event[id]? =
          some (Machine.chainRecord head group (r.store.seq + 1)) := by
        simp [Machine.segmentEvent, own, off]
      rcases (Machine.segmentLoop_event_cases room group chain
        (Machine.segmentEvent room group r head) id).1 with same | ⟨-, -, -, still, -⟩
      · exact ⟨_, same.trans placed⟩
      · simp [Store.onTimeline, placed, Machine.chainRecord] at still
    · simp only [own, decide_false] at found
      refine ih ?_ found
      unfold Machine.segmentEvent
      split
      · exact off
      · have same : (r.store.putTimeline room head.eventId
            (Machine.chainRecord head group)).1.event[id]? = r.store.event[id]? := by
          simp [OrdMap.getElem?_insert', Ne.symm own]
        simpa only [Store.onTimeline, same] using off

theorem cites_eq_anchored {kept : List KeptObject} {timeline : List ImportEvent} {m' : RoomMeta}
    (segments : Segments s room kept timeline cmd) :
    ((Machine.segmentRows s m cmd).store.putMeta room m').cites = anchored s kept timeline := by
  obtain ⟨rfl, rfl, first, listed, -⟩ := segments
  funext id
  have changed := (Machine.segmentLoop_event_cases cmd.roomId m.nextGroup cmd.timeline
    ⟨(s.putSupport cmd.events).putGroups cmd.roomId [(m.nextGroup, ⟨none, 0, cmd.state⟩)], 0, none, none⟩
    id).1
  have on : ((s.putSupport cmd.events).putGroups cmd.roomId
      [(m.nextGroup, ⟨none, 0, cmd.state⟩)]).onTimeline id = s.onTimeline id :=
    Machine.onTimeline_putSupport s cmd.events id
  -- Where the chain leaves the record alone, it is that of the store or a kept object's.
  have unplaced : (Machine.segmentRows s m cmd).store.event[id]? = (s.putSupport cmd.events).event[id]? →
      ((Machine.segmentRows s m cmd).store.putMeta cmd.roomId m').cites id =
        match s.event[id]? with
        | some e => if e.rejected.isNone then some (authEventIds e.raw) else none
        | none => (kept.find? fun e => e.1 = id).map fun e => authEventIds e.2.2 := by
    intro same
    have cites : ((Machine.segmentRows s m cmd).store.putMeta cmd.roomId m').cites id =
        match (s.putSupport cmd.events).event[id]? with
        | some e => if e.rejected.isNone then some (authEventIds e.raw) else none
        | none => none := by
      unfold Store.cites
      rw [← same]
      rfl
    rw [cites]
    rcases (s.putSupport_event_cases cmd.events id).1 with ⟨absent, ev, mem, rfl, support⟩ | old
    · obtain ⟨e, found, raw⟩ := Option.map_eq_some_iff.1 (first ev mem)
      rw [support, absent, found]
      simp only [Option.map_some, raw]
      rfl
    · rw [old]
      cases stored : s.event[id]? with
      | some e => rfl
      | none =>
        cases found : kept.find? fun e => e.1 = id with
        | none => rfl
        | some e =>
          have own : e.1 = id := by simpa using List.find?_some found
          obtain ⟨ev, mem, same⟩ := listed e (List.mem_of_find?_eq_some found)
          have held := (s.putSupport_event_cases cmd.events id).2 ⟨ev, mem, same.trans own⟩
          rw [old, stored] at held
          cases held
  unfold anchored
  by_cases placed : s.onTimeline id = true
  · rw [if_pos placed]
    rcases changed with same | ⟨-, -, -, off, -⟩
    · exact unplaced same
    · rw [on, placed] at off
      cases off
  · rw [Bool.not_eq_true] at placed
    rw [placed, if_neg Bool.false_ne_true]
    cases found : cmd.timeline.find? fun ev => ev.eventId = id with
    | some ev =>
      have start : (⟨(s.putSupport cmd.events).putGroups cmd.roomId
          [(m.nextGroup, ⟨none, 0, cmd.state⟩)], 0, none, none⟩ : Machine.SegmentRun).store.onTimeline id =
          false := on.trans placed
      obtain ⟨seq, record⟩ := segmentLoop_placed cmd.roomId m.nextGroup start found
      have held : ((Machine.segmentRows s m cmd).store.putMeta cmd.roomId m').event[id]? = _ := record
      simp [Store.cites, held, Machine.chainRecord]
    | none =>
      rcases changed with same | ⟨ev, mem, own, -⟩
      · exact unplaced same
      · exact absurd (by simpa using own) (List.find?_eq_none.1 found ev mem)

/-- **A segment's snapshot is clean** exactly where everything that a kept state event leads to is there:
what the chain places or the lists add, and stored events, all of them unrejected. Where the segment brings
all it rests on, and so do the imports before and after, no later resolution misses an event. -/
theorem snapshot_clean_iff {response : RoomResponse} (known : s.room[room]? = some m)
    (parsed : RoomVersion.parse m.version = some version)
    (computed : server.importSegment s fuel room state authChain chain = .ok cmd)
    (applied : Machine.applyImportSegment s cmd = .ok (t, response)) :
    ((∃ g, t.group[(room, m.nextGroup)]? = some g ∧ ∀ entry ∈ g.entries, Complete t.cites entry.2) ↔
      ∀ key id, anchor (keptOf server s version state authChain chain) key = some id →
        Complete (anchored s (keptOf server s version state authChain chain)
          (chain.filterMap (server.chainEvent version))) id) ∧
    ((bringsWhole server.ruma).importSegment s cmd →
      ∀ pool, Config.Runs server.ruma (bringsWhole server.ruma).Holds Config.init ⟨s, pool⟩ →
      ∀ c, Config.Runs server.ruma (bringsWhole server.ruma).Holds ⟨t, pool⟩ c →
      ∀ keys fuel raw version room isCreate relay rejectMissingAuth missing,
        Pipeline.processInner server.ruma keys c.store fuel raw version room isCreate relay
          rejectMissingAuth ≠ .error (.stateRes (.missingEvent missing))) := by
  have segments := importSegment_segments known parsed computed
  obtain ⟨map, entries, values⟩ := segments.state
  have about := segments.room
  unfold Machine.applyImportSegment at applied
  rw [about, known] at applied
  obtain ⟨rfl, -⟩ := ok_pair applied
  refine ⟨?_, fun brings pool reached c run keys fuel raw version room isCreate relay reject missing => ?_⟩
  · have stored : ((Machine.segmentRows s m cmd).store.putMeta room
        (Machine.segmentMeta m (Machine.segmentRows s m cmd) cmd)).group[(room, m.nextGroup)]? =
          some ⟨none, 0, cmd.state⟩ := by
      have frame := (Machine.segmentRows_frame s m cmd).1
      rw [about] at frame
      exact (congrArg (·[(room, m.nextGroup)]?) frame).trans (OrdMap.getElem?_insert'.trans (if_pos rfl))
    simp only [stored, Option.some.injEq, exists_eq_left', cites_eq_anchored segments, entries]
    constructor
    · intro clean key id found
      exact clean (key, id) (OrdMap.mem_toList.2 ((values key).trans found))
    · intro whole entry mem
      exact whole entry.1 entry.2 ((values _).symm.trans (OrdMap.mem_toList.1 mem))
  · have step : Effect s (.importSegment cmd) _ := .importSegment (about ▸ known)
    rw [about] at step
    exact processInner_ne_missing (run_whole_import reached step trivial brings run)

end Segment

/-! ## Two snapshots -/

def sampleHistory : List Call :=
  [.ingest Ruma.sampleCreate false, .ingest Ruma.sampleJoin false, .ingest sampleIntruder false]

theorem exists_segment (state chain : List JsonObject) (p : Store → RoomMeta → ImportSegment → Store → Bool)
    (h : ((Server.sample ["x"]).serveAll (fun _ cmd => (match plain cmd with
        | .append _ => true | _ => false) = true) 9 Store.empty sampleHistory).any (fun s =>
      (s.room["!r:x"]?).any fun m => decide (RoomVersion.parse m.version = some .v11) &&
        ((Server.sample ["x"]).importSegment s 9 "!r:x" state [] chain).toOption.any fun cmd =>
          (Machine.applyImportSegment s cmd).toOption.any fun out => p s m cmd out.1) = true) :
    ∃ s pool m cmd t response,
      Config.Runs Ruma.sample (bringsWhole Ruma.sample).Holds Config.init ⟨s, pool⟩ ∧
      s.room["!r:x"]? = some m ∧ RoomVersion.parse m.version = some .v11 ∧
      (Server.sample ["x"]).importSegment s 9 "!r:x" state [] chain = .ok cmd ∧
      Machine.applyImportSegment s cmd = .ok (t, response) ∧ p s m cmd t = true := by
  obtain ⟨s, served, h⟩ := (Option.any_eq_true _ _).1 h
  obtain ⟨m, known, h⟩ := (Option.any_eq_true _ _).1 h
  rw [Bool.and_eq_true, decide_eq_true_eq] at h
  obtain ⟨parsed, h⟩ := h
  obtain ⟨cmd, computed, h⟩ := (Option.any_eq_true _ _).1 h
  obtain ⟨⟨t, response⟩, applied, hp⟩ := (Option.any_eq_true _ _).1 h
  obtain ⟨pool, run⟩ := Config.serveAll_config served []
  refine ⟨s, pool, m, cmd, t, response, run.mono fun s cmd append => ?_, known, parsed,
    toOption_eq_some.1 computed, toOption_eq_some.1 applied, hp⟩
  rw [← Condition.holds_plain]
  split at append
  · rename_i same
    rw [same]
    trivial
  · cases append

/-- A snapshot of events that the room has accepted is clean, and the room resolves over it. -/
theorem snapshot_clean_sample : ∃ s pool m cmd t response,
    Config.Runs Ruma.sample (bringsWhole Ruma.sample).Holds Config.init ⟨s, pool⟩ ∧
    s.room["!r:x"]? = some m ∧ s.isRejected "$i" ∧
    (Server.sample ["x"]).importSegment s 9 "!r:x" [Ruma.sampleCreate, Ruma.sampleJoin] [] [] = .ok cmd ∧
    Machine.applyImportSegment s cmd = .ok (t, response) ∧
    (∀ key id, anchor (keptOf (Server.sample ["x"]) s .v11 [Ruma.sampleCreate, Ruma.sampleJoin] [] []) key =
      some id → Complete (anchored s
        (keptOf (Server.sample ["x"]) s .v11 [Ruma.sampleCreate, Ruma.sampleJoin] [] []) []) id) ∧
    ∀ fuel raw missing, Pipeline.processInner Ruma.sample (Server.sample ["x"]).keys t fuel raw .v11 "!r:x"
      false true false ≠ .error (.stateRes (.missingEvent missing)) := by
  obtain ⟨s, pool, m, cmd, t, response, reached, known, parsed, computed, applied, hp⟩ :=
    exists_segment [Ruma.sampleCreate, Ruma.sampleJoin] [] (fun s m cmd t => s.isRejected "$i" &&
      decide (cmd.timeline = []) && cmd.state.all (fun entry => s.cites entry.2 != none) &&
      cmd.events.all (fun ev => s.event.contains ev.eventId) &&
      decide (t.cites "$c" = some []) && decide (t.cites "$j" = some ["$c"]) &&
      (t.group[("!r:x", m.nextGroup)]?).any fun g =>
        g.entries.all fun entry => decide (entry.2 = "$c" ∨ entry.2 = "$j")) (by decide +kernel)
  simp only [Bool.and_eq_true, decide_eq_true_eq, List.all_eq_true, bne_iff_ne] at hp
  obtain ⟨⟨⟨⟨⟨⟨rejected, placed⟩, state⟩, events⟩, create⟩, join⟩, entries⟩ := hp
  obtain ⟨g, stored, entries⟩ := (Option.any_eq_true _ _).1 entries
  have complete : ∀ id, id = "$c" ∨ id = "$j" → Complete t.cites id := fun id listed => by
    refine complete_of_closed (P := fun id => id = "$c" ∨ id = "$j") (fun id listed => ?_) listed
    rcases listed with rfl | rfl
    · exact ⟨[], create, by simp⟩
    · exact ⟨["$c"], join, by simp⟩
  have sound : ∀ id, s.cites id ≠ none → s.Sound id := fun id cited => by
    unfold Store.cites at cited
    split at cited
    · rename_i e held
      split at cited
      · exact ⟨e, held, by simpa using ‹e.rejected.isNone = true›⟩
      · exact absurd rfl cited
    · exact absurd rfl cited
  obtain ⟨clean, resolves⟩ := snapshot_clean_iff known parsed computed applied
  have clean := clean.1 ⟨g, stored, fun entry mem => complete entry.2 (by
    simpa using List.all_eq_true.1 entries entry mem)⟩
  have brings : (bringsWhole Ruma.sample).importSegment s cmd := by
    refine ⟨by simp [placed], fun entry mem => .inl (sound _ (state entry mem)), fun ev mem absent => ?_⟩
    have held := events ev mem
    rw [ExtTreeMap.contains_eq_isSome_getElem?, absent] at held
    cases held
  exact ⟨s, pool, m, cmd, t, response, reached, known, rejected, computed, applied, clean,
    fun fuel raw missing => resolves brings pool reached _ .refl _ _ _ _ _ _ _ _ _⟩

def sampleTopicOver : JsonObject :=
  Ruma.samplePdu "t" "m.room.topic" (some "") "@a:x" [] ["$c", "$j", "$i"] ["$j"] 3

def sampleAfterGap : JsonObject := Ruma.samplePdu "m" "m.room.message" none "@a:x" [] ["$c", "$j"] ["$z"] 9

def sampleMergedName : JsonObject :=
  Ruma.samplePdu "n" "m.room.name" (some "") "@a:x" [] ["$c", "$j"] ["$j", "$m"] 10

/-- The rejected message is stored, so the topic counts as resolvable, and the snapshot maps it. The next
merge of forks does not find the message. -/
theorem snapshot_over_rejected : ∃ s pool m cmd t response g,
    Config.Runs Ruma.sample (bringsWhole Ruma.sample).Holds Config.init ⟨s, pool⟩ ∧
    s.room["!r:x"]? = some m ∧ s.isRejected "$i" ∧
    (Server.sample ["x"]).importSegment s 9 "!r:x" [Ruma.sampleCreate, Ruma.sampleJoin, sampleTopicOver] []
      [sampleAfterGap] = .ok cmd ∧
    Machine.applyImportSegment s cmd = .ok (t, response) ∧
    t.group[("!r:x", m.nextGroup)]? = some g ∧ (("m.room.topic", ""), "$t") ∈ g.entries ∧
    t.cites "$t" = some ["$c", "$j", "$i"] ∧ t.isRejected "$i" ∧ ¬ Complete t.cites "$t" ∧
    Pipeline.processInner Ruma.sample (Server.sample ["x"]).keys t 9 sampleMergedName .v11 "!r:x"
      false true false = .error (.stateRes (.missingEvent "$i")) := by
  obtain ⟨s, pool, m, cmd, t, response, reached, known, -, computed, applied, hp⟩ :=
    exists_segment [Ruma.sampleCreate, Ruma.sampleJoin, sampleTopicOver] [sampleAfterGap]
      (fun s m cmd t => s.isRejected "$i" && t.isRejected "$i" &&
        (t.group[("!r:x", m.nextGroup)]?).any (fun g => decide ((("m.room.topic", ""), "$t") ∈ g.entries)) &&
        decide (t.cites "$t" = some ["$c", "$j", "$i"]) && decide (t.cites "$i" = none) &&
        match Pipeline.processInner Ruma.sample (Server.sample ["x"]).keys t 9 sampleMergedName .v11 "!r:x"
          false true false with
        | .error e => decide (e = .stateRes (.missingEvent "$i"))
        | .ok _ => false) (by decide +kernel)
  simp only [Bool.and_eq_true, decide_eq_true_eq] at hp
  obtain ⟨⟨⟨⟨⟨rejected, rejected'⟩, mapped⟩, topic⟩, hidden⟩, wedged⟩ := hp
  obtain ⟨g, stored, listed⟩ := (Option.any_eq_true _ _).1 mapped
  refine ⟨s, pool, m, cmd, t, response, g, reached, known, rejected, computed, applied, stored,
    of_decide_eq_true listed, topic, rejected', fun complete => ?_, ?_⟩
  · have held := (complete.edge ⟨_, topic, by simp⟩ : Complete t.cites "$i").known
    rw [hidden] at held
    cases held
  · split at wedged
    · rename_i e failed
      exact failed.trans (congrArg _ (of_decide_eq_true wedged))
    · cases wedged

end Saltator.Room
