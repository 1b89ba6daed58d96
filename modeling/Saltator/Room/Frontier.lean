import Saltator.Room.Listing
import Saltator.Room.Rejection

/-!
# The history frontier

A room's history is complete as far as its frontier says: a prev event of a listed event is visible,
stored as rejected, or named in the frontier (`Accounts.prevs`), so an empty frontier means that
nothing is missing. History imports keep the frontier exactly so. The other commands leave gaps when
an event arrives on top of one that is stored but not visible: `keepsFrontier` names the commands
that do not.
-/

namespace Saltator.Room

open Std
open Saltator.Outcome
open Machine
open Pipeline

def Store.frontier (s : Store) (room : RoomId) : List EventId :=
  (s.room[room]?.map RoomMeta.historyFrontier).getD []

def Settled (s : Store) (id : EventId) : Prop := s.visible id ∨ s.isRejected id

def Accounted (s : Store) (room : RoomId) (id : EventId) : Prop :=
  Settled s id ∨ id ∈ s.frontier room

/-! ## Rows and visibility -/

structure Marks (s : Store) : Prop where
  bound : ∀ (room : RoomId) (n : Nat) (id : EventId), s.roomSeq[(room, n)]? = some id → n ≤ s.seq
  visible : ∀ room id p, Lists s room id p → s.visible id
  listed : ∀ id, s.visible id → ∃ room p, Lists s room id p

namespace Marks

variable {s t : Store} {e : StoredEvent}

theorem congr (h : Marks s) (hq : t.roomSeq = s.roomSeq) (hh : t.history = s.history)
    (hs : s.seq ≤ t.seq) (hv : ∀ id, t.visible id = s.visible id) : Marks t := by
  have lists : ∀ room id p, Lists t room id p ↔ Lists s room id p := by
    intro room id p
    cases p <;> simp [Lists, hq, hh]
  refine ⟨fun room n id hrow => ?_, fun room id p hp => ?_, fun id hid => ?_⟩
  · rw [hq] at hrow
    have := h.bound room n id hrow
    omega
  · rw [hv]
    exact h.visible room id p ((lists room id p).1 hp)
  · obtain ⟨room, p, hp⟩ := h.listed id (hv id ▸ hid)
    exact ⟨room, p, (lists room id p).2 hp⟩

theorem visible_insert (s : Store) (id : EventId) (hvis : e.visible) (a : EventId) :
    ({ s with event := s.event.insert id e } : Store).visible a ↔ a = id ∨ s.visible a := by
  simp only [Store.visible, OrdMap.getElem?_insert']
  split
  · rename_i h
    simp [h, hvis]
  · rename_i h
    simp [h]

theorem place (h : Marks s) (room : RoomId) (id : EventId) {stored : Nat → StoredEvent}
    (hseq : ∀ n, (stored n).seq = n) :
    Marks (s.putTimeline room id stored).1 := by
  have hvis := visible_insert s id (e := stored (s.seq + 1)) (by simp [StoredEvent.visible, hseq])
  refine ⟨fun r n a hrow => ?_, fun r a p hp => (hvis a).2 ?_, fun a ha => ?_⟩
  · simp only [Store.putTimeline_roomSeq, Store.putTimeline_seq, OrdMap.getElem?_insert'] at hrow ⊢
    split at hrow
    · rename_i hkey
      have := (Prod.mk.inj hkey).2
      omega
    · have := h.bound r n a hrow
      omega
  · cases p with
    | timeline n =>
      simp only [Lists, Store.putTimeline_roomSeq, OrdMap.getElem?_insert'] at hp
      split at hp
      · exact .inl (Option.some.inj hp).symm
      · exact .inr (h.visible r a (.timeline n) hp)
    | history n => exact .inr (h.visible r a (.history n) hp)
  · rcases (hvis a).1 ha with rfl | ha
    · exact ⟨room, .timeline (s.seq + 1), by simp [Lists]⟩
    · obtain ⟨r, p, hp⟩ := h.listed a ha
      refine ⟨r, p, ?_⟩
      cases p with
      | timeline n =>
        have hne : (r, n) ≠ (room, s.seq + 1) := fun hkey => by
          have := h.bound r n a hp
          have := (Prod.mk.inj hkey).2
          omega
        simp only [Lists, Store.putTimeline_roomSeq, OrdMap.getElem?_insert']
        rw [if_neg hne]
        exact hp
      | history n => exact hp

theorem index (h : Marks s) {room : RoomId} {id : EventId} {idx : Nat}
    (unused : s.history[(room, idx)]? = none) (hidx : e.historyIdx = some idx) :
    Marks { s with
      event := s.event.insert id e
      history := s.history.insert (room, idx) id } := by
  have hvis := visible_insert s id (e := e) (by simp [StoredEvent.visible, hidx])
  refine ⟨h.bound, fun r a p hp => (hvis a).2 ?_, fun a ha => ?_⟩
  · cases p with
    | timeline n => exact .inr (h.visible r a (.timeline n) hp)
    | history n =>
      simp only [Lists, OrdMap.getElem?_insert'] at hp
      split at hp
      · exact .inl (Option.some.inj hp).symm
      · exact .inr (h.visible r a (.history n) hp)
  · rcases (hvis a).1 ha with rfl | ha
    · exact ⟨room, .history idx, by simp [Lists]⟩
    · obtain ⟨r, p, hp⟩ := h.listed a ha
      refine ⟨r, p, ?_⟩
      cases p with
      | timeline n => exact hp
      | history n =>
        have hne : (r, n) ≠ (room, idx) := fun hkey => by
          have hp' : s.history[(r, n)]? = some a := hp
          simp [hkey, unused] at hp'
        simp only [Lists, OrdMap.getElem?_insert']
        rw [if_neg hne]
        exact hp

end Marks

theorem visible_putSupport (s : Store) (events : List ImportEvent) (id : EventId) :
    (s.putSupport events).visible id = s.visible id := by
  unfold Store.visible
  rcases (s.putSupport_event_cases events id).1 with ⟨hnone, ev, _, _, hrec⟩ | hsame
  · rw [hnone, hrec]
    rfl
  · rw [hsame]

/-! ## The loops -/

section Loops

variable {room : RoomId}

theorem segmentLoop_marks (room : RoomId) (group : Nat) (chain : List ImportEvent) {r : SegmentRun}
    (h : Marks r.store) :
    Marks (chain.foldl (segmentEvent room group) r).store ∧
      ∀ other id p, Lists (chain.foldl (segmentEvent room group) r).store other id p →
        Lists r.store other id p ∨ (other = room ∧ r.store.onTimeline id = false ∧
          ∃ ev ∈ chain, ev.eventId = id) := by
  induction chain generalizing r with
  | nil => exact ⟨h, fun _ _ _ hp => .inl hp⟩
  | cons ev chain ih =>
    rw [List.foldl_cons]
    unfold segmentEvent
    by_cases hon : r.store.onTimeline ev.eventId = true
    · rw [if_pos hon]
      obtain ⟨hmarks, hlists⟩ := ih h
      refine ⟨hmarks, fun other id p hp => ?_⟩
      rcases hlists other id p hp with hold | ⟨hroom, hoff, ev', hev', hid⟩
      · exact .inl hold
      · exact .inr ⟨hroom, hoff, ev', List.mem_cons_of_mem _ hev', hid⟩
    · rw [if_neg hon]
      rw [Bool.not_eq_true] at hon
      obtain ⟨hmarks, hlists⟩ := ih (r := ⟨(r.store.putTimeline room ev.eventId
        (chainRecord ev group)).1, r.appended + 1, r.firstSeq.or (some (r.store.seq + 1)),
        some ev.eventId⟩) (h.place room ev.eventId fun _ => rfl)
      refine ⟨hmarks, fun other id p hp => ?_⟩
      rcases hlists other id p hp with hold | ⟨hroom, hoff, ev', hev', hid⟩
      · cases p with
        | timeline n =>
          simp only [Lists, Store.putTimeline_roomSeq, OrdMap.getElem?_insert'] at hold
          split at hold
          · rename_i hkey
            obtain rfl := Option.some.inj hold
            exact .inr ⟨(Prod.mk.inj hkey).1, hon, ev, List.mem_cons_self, rfl⟩
          · exact .inl hold
        | history n => exact .inl hold
      · refine .inr ⟨hroom, ?_, ev', List.mem_cons_of_mem _ hev', hid⟩
        -- An event that is off the timeline afterwards was off it before.
        by_contra hbefore
        rw [Bool.not_eq_false, Store.onTimeline_iff] at hbefore
        obtain ⟨e, he, hseq⟩ := hbefore
        have : (r.store.putTimeline room ev.eventId (chainRecord ev group)).1.onTimeline id := by
          rw [Store.onTimeline_iff]
          simp only [Store.putTimeline_event, OrdMap.getElem?_insert']
          split
          · exact ⟨_, rfl, Nat.succ_pos _⟩
          · exact ⟨e, he, hseq⟩
        simp [this] at hoff

structure Collected (start : Store) (r : HistoryRun) : Prop where
  batch : ∀ id ∈ r.batchIds, r.store.visible id
  kept : ∀ id, start.visible id → r.store.visible id
  prevs : ∀ (id : EventId) (e : StoredEvent), r.store.event[id]? = some e → e.visible →
    start.visible id = false → ∀ prev ∈ prevEventIds e.raw, prev ∈ r.newPrevs

theorem collected_step {start : Store} {r : HistoryRun} (h : Collected start r) (ev : ImportEvent) :
    Collected start (historyStep room r ev) := by
  rcases historyStep_cases room r ev with ⟨heq, hvis⟩ | ⟨stored, heq, _, _, hidx, _⟩
  · rw [heq]
    refine ⟨fun id hid => ?_, h.kept, h.prevs⟩
    rcases OrdSet.mem_insert'.1 hid with rfl | hid
    · exact hvis
    · exact h.batch id hid
  · rw [heq]
    have hv := Marks.visible_insert r.store ev.eventId (e := stored) (by simp [StoredEvent.visible, hidx])
    refine ⟨fun id hid => (hv id).2 ?_, fun id hid => (hv id).2 (.inr (h.kept id hid)),
      fun id e he hvis hoff prev hprev => ?_⟩
    · exact (OrdSet.mem_insert'.1 hid).imp_right (h.batch id)
    · simp only [indexEvent, OrdMap.getElem?_insert'] at he ⊢
      split at he
      · obtain rfl := Option.some.inj he
        exact List.mem_append_right _ hprev
      · exact List.mem_append_left _ (h.prevs id e he hvis hoff prev hprev)

theorem historyLoop_marks (events : List ImportEvent) {start : Store} {r : HistoryRun}
    (h : Marks r.store) (counter : CounterInv room start r) :
    Marks (events.foldl (historyStep room) r).store ∧
      ∀ other id p, Lists (events.foldl (historyStep room) r).store other id p →
        Lists r.store other id p ∨ (other = room ∧ r.store.visible id = false) := by
  induction events generalizing r with
  | nil => exact ⟨h, fun _ _ _ hp => .inl hp⟩
  | cons ev events ih =>
    rw [List.foldl_cons]
    rcases historyStep_cases room r ev with ⟨heq, _⟩ | ⟨stored, heq, hoff, _, hidx, _⟩
    · have := ih (r := historyStep room r ev) (by rw [heq]; exact h) (counter.step ev)
      rwa [heq] at this ⊢
    · have hv := Marks.visible_insert r.store ev.eventId (e := stored)
        (by simp [StoredEvent.visible, hidx])
      have hnext : Marks (historyStep room r ev).store := by
        rw [heq]
        exact h.index counter.unused hidx
      obtain ⟨hmarks, hlists⟩ := ih hnext (counter.step ev)
      refine ⟨hmarks, fun other id p hp => ?_⟩
      rcases hlists other id p hp with hold | ⟨hroom, hoff'⟩
      · rw [heq] at hold
        cases p with
        | timeline n => exact .inl hold
        | history n =>
          simp only [Lists, indexEvent, OrdMap.getElem?_insert'] at hold
          split at hold
          · rename_i hkey
            obtain rfl := Option.some.inj hold
            exact .inr ⟨(Prod.mk.inj hkey).1, hoff⟩
          · exact .inl hold
      · refine .inr ⟨hroom, ?_⟩
        by_contra hbefore
        rw [Bool.not_eq_false] at hbefore
        have hafter : (historyStep room r ev).store.visible id := by
          rw [heq]
          exact (hv id).2 (.inr hbefore)
        simp [hafter] at hoff'

end Loops

/-! ## The commands -/

abbrev KeepsPrevs (s : Store) (id : EventId) (raw : JsonObject) : Prop :=
  ∀ e ∈ s.event[id]?, e.visible → prevEventIds e.raw = prevEventIds raw

/-- The events of a chain whose prevs the import does not open: those past the first, and all if the
first cannot be read. -/
def ImportSegment.unopened (cmd : ImportSegment) : List ImportEvent :=
  if cmd.frontierAdd = [] then cmd.timeline else cmd.timeline.tail

/-- The command hides no gap. An appended event builds on what is visible, rejected or, for an
accepted one, open in the frontier; a create event starts a room that has no history; the prevs that an
imported join shares with the events that come with it are accounted for, and so are those of a chain's
events past the first that are not in the chain. -/
abbrev keepsFrontier : Condition where
  append s cmd :=
    (∀ prev ∈ prevEventIds cmd.raw, ∀ e ∈ s.event[prev]?, e.visible ∨ e.rejected.isSome ∨
      (cmd.rejected = none ∧ prev ∈ s.frontier cmd.roomId)) ∧
    (cmd.createVersion.isSome → ∀ m ∈ s.room[cmd.roomId]?, m.nextHistoryIdx = 1 ∧ m.historyFrontier = [])
  importRoom s cmd := KeepsPrevs s cmd.joinEventId cmd.joinRaw ∧
    ∀ prev ∈ prevEventIds cmd.joinRaw, (∃ ev ∈ cmd.events, ev.eventId = prev) → s.visible prev ∨
      s.isRejected prev ∨ prev ∈ s.frontier cmd.roomId
  importSegment s cmd :=
    (∀ ev ∈ cmd.timeline, s.onTimeline ev.eventId = false → KeepsPrevs s ev.eventId ev.raw) ∧
    ∀ ev ∈ cmd.unopened, s.onTimeline ev.eventId = false → ∀ prev ∈ prevEventIds ev.raw,
      s.visible prev ∨ s.isRejected prev ∨ prev ∈ s.frontier cmd.roomId ∨
        ∃ ev' ∈ cmd.timeline, ev'.eventId = prev
  importHistory _ _ := True

instance (s : Store) (cmd : AppendEvent) : Decidable (keepsFrontier.append s cmd) := inferInstance

instance (s : Store) (cmd : ImportRoom) : Decidable (keepsFrontier.importRoom s cmd) :=
  inferInstance

instance (s : Store) (cmd : ImportSegment) : Decidable (keepsFrontier.importSegment s cmd) :=
  inferInstance

/-- The same with what the imports open: every prev of what they put on the timeline is opened or
accounted for. -/
abbrev opensGaps : Condition where
  append := keepsFrontier.append
  importRoom s cmd := KeepsPrevs s cmd.joinEventId cmd.joinRaw ∧
    ∀ prev ∈ prevEventIds cmd.joinRaw, prev ∈ cmd.historyFrontier ∨ s.visible prev ∨
      s.isRejected prev ∨ prev ∈ s.frontier cmd.roomId
  importSegment s cmd := ∀ ev ∈ cmd.timeline, s.onTimeline ev.eventId = false →
    KeepsPrevs s ev.eventId ev.raw ∧
    ∀ prev ∈ prevEventIds ev.raw, prev ∈ cmd.frontierAdd ∨ s.visible prev ∨ s.isRejected prev ∨
      prev ∈ s.frontier cmd.roomId ∨ ∃ ev' ∈ cmd.timeline, ev'.eventId = prev
  importHistory _ _ := True

/-- What the computation of a command established: the prevs of an appended event are stored, and
each import opens the prevs of its join that it does not bring, or those of the event its chain
begins with. -/
abbrev prevsHeld : Condition where
  append s cmd := ∀ prev ∈ prevEventIds cmd.raw, (s.event[prev]?).isSome
  importRoom _ cmd := ∀ prev ∈ prevEventIds cmd.joinRaw,
    prev ∈ cmd.historyFrontier ∨ ∃ ev ∈ cmd.events, ev.eventId = prev
  importSegment _ cmd := cmd.frontierAdd ≠ [] →
    ∀ ev ∈ cmd.timeline.head?, prevEventIds ev.raw = cmd.frontierAdd
  importHistory _ _ := True

theorem importRoom_opens {server : Server} {version : RoomVersion} {join : JsonObject}
    {state authChain : List JsonObject} {s : Store} {cmd : ImportRoom}
    (h : server.importRoom version join state authChain = .ok cmd) : prevsHeld.importRoom s cmd := by
  simp only [Server.importRoom, bind_eq_ok] at h
  obtain ⟨joinId, _, room, _, dump, hdump, sender, _, h⟩ := h
  have covers := dump_covers hdump
  split at h
  · simp at h
  · obtain rfl := pure_eq_ok.1 h
    intro prev hprev
    by_cases seen : dump.seen.contains prev = true
    · exact .inr (covers.1 prev (ExtTreeSet.contains_iff_mem.1 seen))
    · exact .inl (List.mem_filter.2 ⟨hprev, by simp [seen]⟩)

theorem importSegment_opens {server : Server} {s : Store} {fuel : Nat} {room : RoomId}
    {state authChain chain : List JsonObject} {cmd : ImportSegment}
    (h : server.importSegment s fuel room state authChain chain = .ok cmd) :
    prevsHeld.importSegment s cmd := by
  unfold Server.importSegment at h
  split at h
  · simp at h
  simp only [bind_eq_ok] at h
  obtain ⟨version, _, ⟨dump, verdict⟩, _, h⟩ := h
  obtain rfl := pure_eq_ok.1 h
  intro opened ev first
  cases chain with
  | nil => cases first
  | cons obj chain =>
    simp only [Server.chainFrontier] at opened ⊢
    split at opened
    · rename_i readable
      obtain ⟨ev', read⟩ := Option.isSome_iff_exists.1 readable
      rw [List.filterMap_cons_some read, List.head?_cons, Option.mem_def, Option.some.injEq] at first
      subst first
      rw [if_pos readable]
      unfold Server.chainEvent at read
      split at read
      · obtain rfl := Option.some.inj read
        rfl
      · cases read
    · exact absurd rfl opened

theorem produced_prevsHeld {server : Server} {s : Store} {cmd : RoomCommand}
    (h : Produced server s cmd) : prevsHeld.Holds s cmd := by
  have append : ∀ {raw version room isCreate relay reject fuel} {d : Decision},
      processInner server.ruma server.keys s fuel raw version room isCreate relay reject =
        .ok (.inr d) → prevsHeld.append s d.cmd := by
    intro raw version room isCreate relay reject fuel d hp
    obtain ⟨raw', pdu, id, hvet, _, _, _, hjudged⟩ := processInner_cases hp
    have cited : ∀ p ∈ prevEventIds raw', p ∈ Event.prevEvents (⟨id, pdu⟩ : IdentifiedPdu) := by
      rw [← (vet_views hvet).1.prevEvents]
      exact fun _ h => h
    cases hjudged with
    | chainRejected prevs => exact fun p hp => fetchPrevs_held prevs p (cited p hp)
    | stateRejected passed => exact fun p hp => fetchPrevs_held passed.prevs p (cited p hp)
    | accepted passed => exact fun p hp => fetchPrevs_held passed.prevs p (cited p hp)
  cases h with
  | append routed hp => exact append hp
  | stamped routed hp => exact append hp
  | importRoom h => exact importRoom_opens (s := s) h
  | importSegment h => exact importSegment_opens h
  | _ => exact trivial

theorem opensGaps_of_keepsFrontier {s : Store} {cmd : RoomCommand} (ready : prevsHeld.Holds s cmd)
    (keeps : keepsFrontier.Holds s cmd) : opensGaps.Holds s cmd := by
  cases cmd with
  | importRoom cmd => exact ⟨keeps.1, fun prev mem => (ready prev mem).imp id (keeps.2 prev mem)⟩
  | importSegment cmd =>
    intro ev mem off
    refine ⟨keeps.1 ev mem off, ?_⟩
    by_cases unopened : ev ∈ cmd.unopened
    · exact fun prev cited => .inr (keeps.2 ev unopened off prev cited)
    · -- The chain begins with the event.
      obtain ⟨opened, first⟩ : cmd.frontierAdd ≠ [] ∧ cmd.timeline.head? = some ev := by
        unfold ImportSegment.unopened at unopened
        split at unopened
        · exact absurd mem unopened
        · rename_i opened
          refine ⟨opened, ?_⟩
          cases timeline : cmd.timeline with
          | nil => simp [timeline] at mem
          | cons head tail =>
            rw [timeline] at mem unopened
            rw [List.head?_cons, (List.mem_cons.1 mem).resolve_right unopened]
      exact fun prev cited => .inl (ready opened ev first ▸ cited)
  | _ => exact keeps

section Effects

variable {s t : Store} {cmd : RoomCommand} {id : EventId}

theorem stored_effect (heff : Effect s cmd t) (h : (s.event[id]?).isSome) : (t.event[id]?).isSome := by
  rcases heff.event_cases id with hsame | ⟨e, he, _⟩
  · rw [hsame]
    exact h
  · simp [he]

theorem prevsHeld_effect {other : RoomCommand} (heff : Effect s cmd t)
    (h : prevsHeld.Holds s other) : prevsHeld.Holds t other := by
  cases other with
  | append a => exact fun prev hprev => stored_effect heff (h prev hprev)
  | appendStamped a txn => exact fun prev hprev => stored_effect heff (h prev hprev)
  | _ => exact h

theorem chainRecord_visible {ev : ImportEvent} {group seq n : Nat} (h : n < seq) :
    (chainRecord ev group seq).visible := by
  have : 0 < seq := by omega
  simp [StoredEvent.visible, chainRecord, this]

theorem visible_effect (heff : Effect s cmd t) (h : s.visible id) : t.visible id := by
  obtain ⟨e, he, hv⟩ := Store.visible_iff.1 h
  rcases heff.event_cases id with hsame | ⟨e', he', touched⟩
  · exact Store.visible_iff.2 ⟨e, hsame.trans he, hv⟩
  · refine Store.visible_iff.2 ⟨e', he', ?_⟩
    cases touched with
    | rejected absent => simp [he] at absent
    | accepted absent => simp [he] at absent
    | support listed absent => simp [he] at absent
    | indexed listed absent => simp [he] at absent
    | joined => simp [StoredEvent.visible, joinRecord]
    | chained listed off later => exact chainRecord_visible later
    | reindexed => simp [StoredEvent.visible]

theorem settled_effect (heff : Effect s cmd t) (h : Settled s id) : Settled t id := by
  rcases h with hv | hr
  · exact .inl (visible_effect heff hv)
  · obtain ⟨e, he, hr⟩ := Store.isRejected_iff.1 hr
    rcases heff.event_cases id with hsame | ⟨e', he', touched⟩
    · exact .inr (Store.isRejected_iff.2 ⟨e, hsame.trans he, hr⟩)
    · cases touched with
      | rejected absent => simp [he] at absent
      | accepted absent => simp [he] at absent
      | support listed absent => simp [he] at absent
      | indexed listed absent => simp [he] at absent
      | joined =>
        exact .inl (Store.visible_iff.2 ⟨_, he', by simp [StoredEvent.visible, joinRecord]⟩)
      | chained listed off later =>
        exact .inl (Store.visible_iff.2 ⟨_, he', chainRecord_visible later⟩)
      | reindexed => exact .inl (Store.visible_iff.2 ⟨_, he', by simp [StoredEvent.visible]⟩)

theorem frontier_insert {s t : Store} (room : RoomId) (new : RoomMeta)
    (hroom : t.room = s.room.insert room new) (r : RoomId) :
    t.frontier r = if r = room then new.historyFrontier else s.frontier r := by
  unfold Store.frontier
  rw [hroom, OrdMap.getElem?_insert']
  split <;> rfl

theorem mem_addFrontier (rows : Store) (ids : List EventId) (frontier : List EventId) (id : EventId) :
    (id ∈ frontier → id ∈ addFrontier rows frontier ids) ∧
      (id ∈ ids → rows.visible id ∨ id ∈ addFrontier rows frontier ids) := by
  unfold addFrontier
  induction ids generalizing frontier with
  | nil => simp
  | cons a ids ih =>
    rw [List.foldl_cons]
    split
    · obtain ⟨hold, hnew⟩ := ih (frontier ++ [a])
      refine ⟨fun h => hold (List.mem_append_left _ h), fun h => ?_⟩
      rcases List.mem_cons.1 h with rfl | h
      · exact .inr (hold (by simp))
      · exact hnew h
    · rename_i hskip
      obtain ⟨hold, hnew⟩ := ih frontier
      refine ⟨hold, fun h => ?_⟩
      rcases List.mem_cons.1 h with rfl | h
      · by_cases hv : rows.visible id = true
        · exact .inl hv
        · exact .inr (hold (by simpa [hv] using hskip))
      · exact hnew h

theorem mem_stillMissing {start : Store} {m : RoomMeta} {r : HistoryRun} (h : Collected start r)
    (hid : id ∈ m.historyFrontier ∨ id ∈ r.newPrevs) :
    r.store.visible id ∨ id ∈ stillMissing m r := by
  by_cases hv : r.store.visible id = true
  · exact .inl hv
  · refine .inr (List.mem_filter.2 ⟨?_, ?_⟩)
    · rw [OrdSet.mem_toList', OrdSet.mem_extend, OrdSet.mem_extend]
      rcases hid with hid | hid
      · exact .inr (.inl hid)
      · exact .inl hid
    · have hbatch : r.batchIds.contains id = false := by
        rw [OrdSet.contains_eq_false]
        exact fun hin => hv (h.batch id hin)
      simp [hv, hbatch]

theorem collected_loop (room : RoomId) (s : Store) (idx : Nat) (events : List ImportEvent) :
    Collected s (events.foldl (historyStep room) ⟨s, idx, ∅, [], 0⟩) := by
  refine List.foldlRecOn (motive := Collected s) events _ ⟨by simp, fun _ h => h, ?_⟩
    fun _ hr ev _ => collected_step hr ev
  intro id e he hv hoff
  have : s.visible id := Store.visible_iff.2 ⟨e, he, hv⟩
  simp [this] at hoff

theorem frontier_effect (keeps : opensGaps.Holds s cmd) (heff : Effect s cmd t) {room : RoomId}
    (h : id ∈ s.frontier room) : t.visible id ∨ id ∈ t.frontier room := by
  -- Replacing the bookkeeping of one room, by one whose frontier names at least as much.
  have replace : ∀ (r : RoomId) (new : RoomMeta), t.room = s.room.insert r new →
      (id ∈ s.frontier r → t.visible id ∨ id ∈ new.historyFrontier) →
      t.visible id ∨ id ∈ t.frontier room := by
    intro r new hroom hnew
    rw [frontier_insert _ _ hroom]
    split
    · rename_i hr
      exact hnew (hr ▸ h)
    · exact .inr h
  have known : ∀ (r : RoomId) (m : RoomMeta), s.room[r]? = some m →
      (id ∈ s.frontier r → id ∈ m.historyFrontier) := by
    intro r m hm hin
    simpa [Store.frontier, hm] using hin
  cases heff with
  | idle => exact .inr h
  | tick => exact .inr h
  | @rejected cmd rejected absent hrejected =>
    unfold applyRejected at replace ⊢
    dsimp only at replace ⊢
    split
    · exact .inr h
    · rename_i m hm
      split
      · simp only [hm] at replace
        rename_i hlt
        rw [if_pos hlt] at replace
        exact replace cmd.roomId { m with nextGroup := cmd.nextGroup } rfl
          fun hin => .inr (known cmd.roomId m hm hin)
      · exact .inr h
  | @accepted cmd s' seq absent hrejected happly =>
    obtain ⟨new, hmeta, hroom⟩ := (applyAccepted_spec happly).room
    refine replace cmd.roomId new hroom fun hin => ?_
    unfold acceptedMeta at hmeta
    split at hmeta
    · rename_i v hv
      unfold Store.frontier at hin
      cases hm : s.room[cmd.roomId]? with
      | none => simp [hm] at hin
      | some m => simp [hm, (keeps.2 (by simp [hv]) m hm).2] at hin
    · split at hmeta
      · simp at hmeta
      · rename_i m hm
        obtain rfl := Except.ok.inj hmeta
        exact .inr (known cmd.roomId m hm hin)
  | @importRoom cmd fresh =>
    refine replace cmd.roomId (importMeta s (importRows s cmd).1 cmd) rfl fun hin => .inr ?_
    simp only [importMeta, OrdSet.mem_toList', OrdSet.mem_extend]
    exact .inr (.inl hin)
  | @importSegment cmd m hm =>
    obtain ⟨_, hroom, _⟩ := segmentRows_frame s m cmd
    exact replace cmd.roomId (segmentMeta m (segmentRows s m cmd) cmd)
      (by simp only [Store.putMeta, hroom])
      fun hin => .inr ((mem_addFrontier _ _ _ id).1 (known cmd.roomId m hm hin))
  | @importHistory cmd m hm =>
    obtain ⟨_, hroom, _⟩ := historyRows_frame s m cmd
    exact replace cmd.roomId { m with
        historyFrontier := stillMissing m (historyRows s m cmd)
        nextHistoryIdx := (historyRows s m cmd).idx } (by simp only [Store.putMeta, hroom])
      fun hin => mem_stillMissing (collected_loop cmd.roomId s m.nextHistoryIdx cmd.events)
        (.inl (known cmd.roomId m hm hin))

theorem accounted_effect (keeps : opensGaps.Holds s cmd) (heff : Effect s cmd t) {room : RoomId}
    (h : Accounted s room id) : Accounted t room id := by
  rcases h with h | h
  · exact .inl (settled_effect heff h)
  · rcases frontier_effect keeps heff h with hv | hin
    · exact .inl (.inl hv)
    · exact .inr hin

end Effects

/-! ## The invariant -/

structure Accounts (s : Store) : Prop where
  marks : Marks s
  counters : Counters s
  prevs : ∀ (room : RoomId) (id : EventId) (p : Place) (e : StoredEvent), Lists s room id p →
    s.event[id]? = some e → ∀ prev ∈ prevEventIds e.raw, Accounted s room prev
  rejected : ∀ (id : EventId) (e : StoredEvent), s.event[id]? = some e → e.rejected.isSome →
    ∀ prev ∈ prevEventIds e.raw, Settled s prev

section Step

variable {s t : Store} {cmd : RoomCommand} {e : StoredEvent}

theorem listed_prevs (h : Accounts s) (keeps : opensGaps.Holds s cmd) (heff : Effect s cmd t)
    {room : RoomId} {id : EventId} {p : Place} (hlist : Lists s room id p)
    (he : t.event[id]? = some e) : ∀ prev ∈ prevEventIds e.raw, Accounted t room prev := by
  obtain ⟨old, hold, hvis⟩ := Store.visible_iff.1 (h.marks.visible room id p hlist)
  have use : prevEventIds old.raw = prevEventIds e.raw →
      ∀ prev ∈ prevEventIds e.raw, Accounted t room prev := fun heq prev hprev =>
    accounted_effect keeps heff (h.prevs room id p old hlist hold prev (heq ▸ hprev))
  rcases heff.event_cases id with hsame | ⟨e', he', touched⟩
  · obtain rfl := some_unique (hsame.symm.trans he) hold
    exact use rfl
  · obtain rfl := some_unique he he'
    cases touched with
    | rejected absent => simp [hold] at absent
    | accepted absent => simp [hold] at absent
    | support listed absent => simp [hold] at absent
    | indexed listed absent => simp [hold] at absent
    | joined => exact use (keeps.1 old hold hvis)
    | chained listed off later => exact use ((keeps _ listed off).1 old hold hvis)
    | reindexed listed held off =>
      obtain rfl := some_unique held hold
      exact use rfl

theorem rejected_prevs (h : Accounts s) (ready : prevsHeld.Holds s cmd)
    (keeps : opensGaps.Holds s cmd) (heff : Effect s cmd t) {id : EventId}
    (he : t.event[id]? = some e) (hr : e.rejected.isSome) :
    ∀ prev ∈ prevEventIds e.raw, Settled t prev := by
  intro prev hprev
  refine settled_effect heff ?_
  rcases heff.event_cases id with hsame | ⟨e', he', touched⟩
  · exact h.rejected id e (hsame.symm.trans he) hr prev hprev
  · obtain rfl := some_unique he he'
    cases touched with
    | rejected absent hrejected =>
      obtain ⟨old, hold⟩ := Option.isSome_iff_exists.1 (ready prev hprev)
      rcases keeps.1 prev hprev old hold with hv | hr' | ⟨hnone, _⟩
      · exact .inl (Store.visible_iff.2 ⟨old, hold, hv⟩)
      · exact .inr (Store.isRejected_iff.2 ⟨old, hold, hr'⟩)
      · simp [hrejected] at hnone
    | @reindexed _ _ old _ listed held off => exact h.rejected _ old held hr prev hprev
    | _ => simp [acceptedRecord, Store.supportEvent, joinRecord, chainRecord, historyEvent] at hr

abbrev roomImported (s : Store) (cmd : ImportRoom) : Store :=
  (importRows s cmd).1.putMeta cmd.roomId (importMeta s (importRows s cmd).1 cmd)

abbrev segmentImported (s : Store) (m : RoomMeta) (cmd : ImportSegment) : Store :=
  (segmentRows s m cmd).store.putMeta cmd.roomId (segmentMeta m (segmentRows s m cmd) cmd)

abbrev historyImported (s : Store) (m : RoomMeta) (cmd : ImportHistory) : Store :=
  (historyRows s m cmd).store.putMeta cmd.roomId
    { m with
      historyFrontier := stillMissing m (historyRows s m cmd)
      nextHistoryIdx := (historyRows s m cmd).idx }

structure Explained (s t : Store) : Prop where
  marks : Marks t
  rows : ∀ room id p, Lists t room id p → Lists s room id p ∨
    ∀ e : StoredEvent, t.event[id]? = some e → ∀ prev ∈ prevEventIds e.raw, Accounted t room prev

theorem explained_rejected (h : Accounts s) {cmd : AppendEvent} {rejected : Rejected}
    (absent : s.event[cmd.eventId]? = none) : Explained s (applyRejected s cmd rejected) := by
  have hvis : ∀ id, (applyRejected s cmd rejected).visible id = s.visible id := by
    intro id
    simp only [Store.visible, applyRejected_event, OrdMap.getElem?_insert']
    split
    · rename_i hid
      simp [hid, absent, StoredEvent.visible, rejectedRecord]
    · rfl
  obtain ⟨hrows, hhistory, hseq, _⟩ := applyRejected_frame s cmd rejected
  refine ⟨h.marks.congr hrows hhistory (Nat.le_of_eq hseq.symm) hvis,
    fun room id p hp => .inl ?_⟩
  cases p <;> simpa [Lists, hrows, hhistory] using hp

theorem explained_accepted (h : Accounts s) {cmd : AppendEvent} {seq : Nat}
    (ready : prevsHeld.append s cmd) (keeps : opensGaps.append s cmd)
    (mono : ∀ room id, Accounted s room id → Accounted t room id)
    (happly : applyAccepted s cmd = .ok (t, seq)) : Explained s t := by
  have happended := applyAccepted_spec happly
  have hplaced := h.marks.place cmd.roomId cmd.eventId
    (show ∀ n, (acceptedRecord cmd n).seq = n from fun _ => rfl)
  refine ⟨hplaced.congr happended.roomSeq happended.history (Nat.le_of_eq happended.seq.symm)
    fun id => by simp only [Store.visible, happended.event, Store.putTimeline_event],
    fun room id p hp => ?_⟩
  cases p with
  | history n => exact .inl (by simpa [Lists, happended.history] using hp)
  | timeline n =>
    simp only [Lists, happended.roomSeq, OrdMap.getElem?_insert'] at hp
    split at hp
    · rename_i hkey
      obtain ⟨rfl, -⟩ := Prod.mk.inj hkey
      obtain rfl := Option.some.inj hp
      refine .inr fun e he prev hprev => mono _ _ ?_
      obtain rfl : acceptedRecord cmd (s.seq + 1) = e := by simpa [happended.event] using he
      obtain ⟨old, hold⟩ := Option.isSome_iff_exists.1 (ready prev hprev)
      rcases keeps.1 prev hprev old hold with hv | hr | ⟨_, hin⟩
      · exact .inl (.inl (Store.visible_iff.2 ⟨old, hold, hv⟩))
      · exact .inl (.inr (Store.isRejected_iff.2 ⟨old, hold, hr⟩))
      · exact .inr hin
    · exact .inl hp

theorem explained_importRoom (h : Accounts s) {cmd : ImportRoom} (keeps : opensGaps.importRoom s cmd)
    (mono : ∀ room id, Accounted s room id → Accounted (roomImported s cmd) room id) :
    Explained s (roomImported s cmd) := by
  have hsupport : Marks (s.putSupport cmd.events) :=
    h.marks.congr rfl rfl (Nat.le_refl _) (visible_putSupport s cmd.events)
  have hplaced := hsupport.place cmd.roomId cmd.joinEventId
    (show ∀ n, (joinRecord cmd (importGroup s cmd) n).seq = n from fun _ => rfl)
  refine ⟨hplaced.congr rfl rfl (Nat.le_refl _) fun _ => rfl, fun room id p hp => ?_⟩
  cases p with
  | history n => exact .inl hp
  | timeline n =>
    have hp' : (s.roomSeq.insert (cmd.roomId, s.seq + 1) cmd.joinEventId)[(room, n)]? =
      some id := hp
    rw [OrdMap.getElem?_insert'] at hp'
    split at hp'
    · rename_i hkey
      obtain ⟨rfl, -⟩ := Prod.mk.inj hkey
      obtain rfl := Option.some.inj hp'
      refine .inr fun e he prev hprev => ?_
      have he' : ((s.putSupport cmd.events).event.insert cmd.joinEventId
        (joinRecord cmd (importGroup s cmd) (s.seq + 1)))[cmd.joinEventId]? = some e := he
      obtain rfl : joinRecord cmd (importGroup s cmd) (s.seq + 1) = e := by simpa using he'
      rcases keeps.2 prev hprev with hopen | hv | hr | hin
      · -- Opened by the import, unless it is visible by now.
        by_cases hv : (importRows s cmd).1.visible prev = true
        · exact .inl (.inl hv)
        · refine .inr ?_
          rw [frontier_insert (s := s) cmd.roomId (importMeta s (importRows s cmd).1 cmd) rfl, if_pos rfl]
          simp only [importMeta, OrdSet.mem_toList', OrdSet.mem_extend, List.mem_filter]
          exact .inl ⟨hopen, by simpa using hv⟩
      · exact mono _ _ (.inl (.inl hv))
      · exact mono _ _ (.inl (.inr hr))
      · exact mono _ _ (.inr hin)
    · exact .inl hp'

theorem explained_importSegment (h : Accounts s) {cmd : ImportSegment} {m : RoomMeta}
    (keeps : opensGaps.importSegment s cmd)
    (mono : ∀ room id, Accounted s room id → Accounted (segmentImported s m cmd) room id) :
    Explained s (segmentImported s m cmd) := by
  have hsupport : Marks ((s.putSupport cmd.events).putGroups cmd.roomId
      [(m.nextGroup, ⟨none, 0, cmd.state⟩)]) :=
    h.marks.congr rfl rfl (Nat.le_refl _) (visible_putSupport s cmd.events)
  obtain ⟨hmarks, hlists⟩ := segmentLoop_marks cmd.roomId m.nextGroup cmd.timeline
    (r := ⟨_, 0, none, none⟩) hsupport
  refine ⟨hmarks.congr rfl rfl (Nat.le_refl _) fun _ => rfl, fun room id p hp => ?_⟩
  have hp' : Lists (segmentRows s m cmd).store room id p := by cases p <;> exact hp
  rcases hlists room id p hp' with hold | ⟨rfl, hoff, ev, hev, rfl⟩
  · exact .inl (by cases p <;> exact hold)
  · refine .inr fun e he prev hprev => ?_
    obtain ⟨hcase, hcover⟩ := segmentLoop_event_cases cmd.roomId m.nextGroup cmd.timeline
      ⟨(s.putSupport cmd.events).putGroups cmd.roomId [(m.nextGroup, ⟨none, 0, cmd.state⟩)], 0,
        none, none⟩ ev.eventId
    rcases hcase with hsame | ⟨ev', hev', hid, _, seq, _, hrec⟩
    · -- Off the timeline before, so the loop gave it a position.
      have hon := hcover (.inr ⟨ev, hev, rfl⟩)
      rw [Store.onTimeline, hsame] at hon
      exact absurd (hon.symm.trans hoff) (by simp)
    · obtain rfl : chainRecord ev' m.nextGroup seq = e := some_unique hrec he
      have hoff' : s.onTimeline ev'.eventId = false := by
        rw [hid, ← onTimeline_putSupport s cmd.events]
        exact hoff
      rcases (keeps ev' hev' hoff').2 prev hprev with hopen | hv | hr | hin | ⟨ev'', hev'', rfl⟩
      · rcases (mem_addFrontier (segmentRows s m cmd).store cmd.frontierAdd m.historyFrontier
          prev).2 hopen with hv | hin
        · exact .inl (.inl hv)
        · refine .inr ?_
          simpa [Store.frontier, Store.putMeta, segmentMeta, OrdMap.getElem?_insert'] using hin
      · exact mono _ _ (.inl (.inl hv))
      · exact mono _ _ (.inl (.inr hr))
      · exact mono _ _ (.inr hin)
      · have hon := (segmentLoop_event_cases cmd.roomId m.nextGroup cmd.timeline
          ⟨(s.putSupport cmd.events).putGroups cmd.roomId
            [(m.nextGroup, ⟨none, 0, cmd.state⟩)], 0, none, none⟩ ev''.eventId).2
          (.inr ⟨ev'', hev'', rfl⟩)
        obtain ⟨e, he, hpos⟩ := Store.onTimeline_iff.1 hon
        exact .inl (.inl (Store.visible_iff.2 ⟨e, he, by simp [StoredEvent.visible, hpos]⟩))

theorem explained_importHistory (h : Accounts s) {cmd : ImportHistory} {m : RoomMeta}
    (known : s.room[cmd.roomId]? = some m) : Explained s (historyImported s m cmd) := by
  obtain ⟨hmarks, hlists⟩ := historyLoop_marks cmd.events
    (r := ⟨s, m.nextHistoryIdx, ∅, [], 0⟩) h.marks (.init h.counters known)
  have collected := collected_loop cmd.roomId s m.nextHistoryIdx cmd.events
  refine ⟨hmarks.congr rfl rfl (Nat.le_refl _) fun _ => rfl, fun room id p hp => ?_⟩
  have hp' : Lists (historyRows s m cmd).store room id p := by cases p <;> exact hp
  rcases hlists room id p hp' with hold | ⟨rfl, hoff⟩
  · exact .inl hold
  · refine .inr fun e he prev hprev => ?_
    have hvis : e.visible := by
      obtain ⟨e', he', hv⟩ := Store.visible_iff.1 (hmarks.visible _ _ _ hp')
      obtain rfl := some_unique he' he
      exact hv
    rcases mem_stillMissing collected (m := m)
      (.inr (collected.prevs id e he hvis hoff prev hprev)) with hv | hin
    · exact .inl (.inl hv)
    · have hin' : prev ∈ stillMissing m (historyRows s m cmd) := hin
      refine .inr ?_
      simpa [Store.frontier, Store.putMeta, OrdMap.getElem?_insert'] using hin'

theorem explained_effect (h : Accounts s) (ready : prevsHeld.Holds s cmd)
    (keeps : opensGaps.Holds s cmd) (heff : Effect s cmd t) : Explained s t := by
  have mono : ∀ room id, Accounted s room id → Accounted t room id :=
    fun room id => accounted_effect keeps heff
  cases heff with
  | idle => exact ⟨h.marks, fun _ _ _ hp => .inl hp⟩
  | tick => exact ⟨h.marks.congr rfl rfl (Nat.le_succ _) fun _ => rfl, fun _ _ _ hp => .inl hp⟩
  | rejected absent hrejected => exact explained_rejected h absent
  | accepted absent hrejected happly => exact explained_accepted h ready keeps mono happly
  | importRoom fresh => exact explained_importRoom h keeps mono
  | importSegment known => exact explained_importSegment h keeps mono
  | importHistory known => exact explained_importHistory h known

theorem accounts_effect (h : Accounts s) (ready : prevsHeld.Holds s cmd)
    (keeps : opensGaps.Holds s cmd) (heff : Effect s cmd t) : Accounts t := by
  obtain ⟨hmarks, hlists⟩ := explained_effect h ready keeps heff
  refine ⟨hmarks, counters_effect h.counters (fun a ha hv m hm => ?_) heff,
    fun room id p e hp he => ?_, fun id e he hr => rejected_prevs h ready keeps heff he hr⟩
  · subst ha
    exact (keeps.2 hv m hm).1
  · rcases hlists room id p hp with hold | hnew
    · exact listed_prevs h keeps heff hold he
    · exact hnew e he

end Step

/-! ## Runs -/

theorem accounts_empty : Accounts Store.empty := by
  refine ⟨⟨?_, ?_, ?_⟩, counters_empty, ?_, ?_⟩
  · intro
    simp [Store.empty]
  · intro room id p h
    cases p <;> simp [Lists, Store.empty] at h
  · intro
    simp [Store.visible, Store.empty]
  · intro room id p e h
    cases p <;> simp [Lists, Store.empty] at h
  · intro
    simp [Store.empty]

theorem accounts_onCore : OnCore Accounts := by
  have lists : ∀ s room id p, Lists s.core room id p ↔ Lists s room id p := by
    intro s room id p
    cases p <;> exact Iff.rfl
  have marks : ∀ s, Marks s ↔ Marks s.core := fun s =>
    ⟨fun h => h.congr rfl rfl (Nat.le_refl _) fun _ => rfl,
      fun h => h.congr rfl rfl (Nat.le_refl _) fun _ => rfl⟩
  refine fun s => ⟨fun h => ⟨(marks s).1 h.marks, (counters_onCore s).1 h.counters,
    fun room id p e hp => h.prevs room id p e ((lists s room id p).1 hp), h.rejected⟩,
    fun h => ⟨(marks s).2 h.marks, (counters_onCore s).2 h.counters,
    fun room id p e hp => h.prevs room id p e ((lists s room id p).2 hp), h.rejected⟩⟩

theorem prevsHeld_onCore (cmd : RoomCommand) : OnCore fun s => prevsHeld.Holds s cmd := by
  intro s
  cases cmd <;> exact Iff.rfl

/-- `b` is reached from `a` along prev events. -/
def Ancestor (s : Store) : EventId → EventId → Prop :=
  Relation.TransGen fun a b => ∃ e : StoredEvent, s.event[a]? = some e ∧ b ∈ prevEventIds e.raw

theorem Accounts.ancestors {s : Store} (h : Accounts s) {id : EventId} (hid : s.visible id)
    (hempty : ∀ a room p, a = id ∨ Ancestor s id a → Lists s room a p → s.frontier room = [])
    {a : EventId} (ha : Ancestor s id a) : Settled s a := by
  -- One step further back from a settled event.
  have back : ∀ a b (e : StoredEvent), (a = id ∨ Ancestor s id a) → Settled s a →
      s.event[a]? = some e → b ∈ prevEventIds e.raw → Settled s b := by
    intro a b e hreach hsettled he hb
    rcases hsettled with hv | hr
    · obtain ⟨room, p, hp⟩ := h.marks.listed a hv
      rcases h.prevs room a p e hp he b hb with hb | hb
      · exact hb
      · simp [hempty a room p hreach hp] at hb
    · obtain ⟨e', he', hr'⟩ := Store.isRejected_iff.1 hr
      obtain rfl := some_unique he' he
      exact h.rejected a e' he hr' b hb
  induction ha with
  | single step =>
    obtain ⟨e, he, hb⟩ := step
    exact back id _ e (.inl rfl) (.inl hid) he hb
  | tail before step ih =>
    obtain ⟨e, he, hb⟩ := step
    exact back _ _ e (.inr before) ih he hb

end Saltator.Room
