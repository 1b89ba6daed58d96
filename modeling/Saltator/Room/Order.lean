import Saltator.Room.Listing
import Saltator.Room.HealSpec
import Saltator.Room.Groups

/-!
# The order of a room

Every event has at most one position in its room's order, and positions are given out once: a command
adds rows past the shard's counter and changes none of those before it (`run_kept`). A gap is marked at
a position of the room (`run_gapsPlaced`).
-/

namespace Saltator.Room

open Std
open Machine

structure InOrder (s : Store) : Prop where
  row : ∀ (room : RoomId) (n : Nat) (id : EventId), s.roomSeq[(room, n)]? = some id →
    0 < n ∧ n ≤ s.seq ∧ (∃ m, s.room[room]? = some m) ∧ s.onTimeline id
  once : ∀ (room : RoomId) (n n' : Nat) (id : EventId), s.roomSeq[(room, n)]? = some id →
    s.roomSeq[(room, n')]? = some id → n = n'

namespace InOrder

variable {s t : Store}

/-- New rows come from nowhere else than `place`. -/
theorem frame (h : InOrder s) (rows : t.roomSeq = s.roomSeq) (seq : s.seq ≤ t.seq)
    (known : ∀ (r : RoomId) (m : RoomMeta), s.room[r]? = some m → ∃ m', t.room[r]? = some m')
    (on : ∀ id, s.onTimeline id → t.onTimeline id) : InOrder t where
  row room n id hrow := by
    rw [rows] at hrow
    obtain ⟨pos, le, ⟨m, hm⟩, placed⟩ := h.row room n id hrow
    exact ⟨pos, le.trans seq, known room m hm, on id placed⟩
  once room n n' id hrow hrow' := by
    rw [rows] at hrow hrow'
    exact h.once room n n' id hrow hrow'

theorem place (h : InOrder s) {room : RoomId} {id : EventId} {stored : Nat → StoredEvent}
    {m : RoomMeta} (known : s.room[room]? = some m) (marked : ∀ n, (stored n).seq = n)
    (fresh : ∀ n : Nat, s.roomSeq[(room, n)]? ≠ some id) :
    InOrder (s.putTimeline room id stored).1 where
  row r n a hrow := by
    simp only [Store.putTimeline_roomSeq, OrdMap.getElem?_insert'] at hrow
    have on : ∀ b, (s.putTimeline room id stored).1.onTimeline b = (decide (b = id) || s.onTimeline b) := by
      intro b
      simp only [Store.onTimeline, Store.putTimeline_event, OrdMap.getElem?_insert']
      by_cases same : b = id <;> simp [same, marked]
    rw [on]
    split at hrow
    · rename_i key
      obtain ⟨rfl, rfl⟩ := Prod.mk.inj key
      obtain rfl := Option.some.inj hrow
      exact ⟨by omega, by simp, ⟨m, known⟩, by simp⟩
    · obtain ⟨pos, le, held, placed⟩ := h.row r n a hrow
      exact ⟨pos, by simp; omega, held, by simp [placed]⟩
  once r n n' a hrow hrow' := by
    simp only [Store.putTimeline_roomSeq, OrdMap.getElem?_insert'] at hrow hrow'
    have other : ∀ k : Nat, s.roomSeq[(room, k)]? = some id → False := fun k => fresh k
    split at hrow <;> split at hrow'
    · rename_i key key'
      exact (Prod.mk.inj key).2.trans (Prod.mk.inj key').2.symm
    · rename_i key _
      obtain ⟨rfl, rfl⟩ := Prod.mk.inj key
      exact (other n' (Option.some.inj hrow ▸ hrow')).elim
    · rename_i _ key
      obtain ⟨rfl, rfl⟩ := Prod.mk.inj key
      exact (other n (Option.some.inj hrow' ▸ hrow)).elim
    · exact h.once r n n' a hrow hrow'

theorem fresh_of_off (h : InOrder s) {id : EventId} (off : s.onTimeline id = false) (room : RoomId)
    (n : Nat) : s.roomSeq[(room, n)]? ≠ some id := by
  intro hrow
  rw [(h.row room n id hrow).2.2.2] at off
  cases off

theorem segmentLoop {room : RoomId} {m : RoomMeta} (group : Nat) (chain : List ImportEvent)
    {r : SegmentRun} (h : InOrder r.store) (known : r.store.room[room]? = some m) :
    InOrder (chain.foldl (segmentEvent room group) r).store := by
  induction chain generalizing r with
  | nil => exact h
  | cons ev chain ih =>
    rw [List.foldl_cons]
    unfold segmentEvent
    split
    · exact ih h known
    · rename_i off
      rw [Bool.not_eq_true] at off
      exact ih (h.place known (fun _ => rfl) (h.fresh_of_off off room)) known

end InOrder

section Effects

variable {s t : Store} {cmd : RoomCommand}

theorem onTimeline_effect (heff : Effect s cmd t) {id : EventId} (on : s.onTimeline id) :
    t.onTimeline id := by
  rcases heff.event_cases id with same | ⟨e, held, touched⟩
  · rw [Store.onTimeline, same]
    exact on
  · obtain ⟨e', held', pos⟩ := Store.onTimeline_iff.1 on
    refine Store.onTimeline_iff.2 ⟨e, held, ?_⟩
    cases touched with
    | rejected absent => simp [absent] at held'
    | accepted absent => simp [absent] at held'
    | support _ absent => simp [absent] at held'
    | joined => exact Nat.succ_pos _
    | chained _ off => simp [off] at on
    | indexed _ absent => simp [absent] at held'
    | reindexed _ stored off =>
      obtain rfl := some_unique stored held'
      simp only [StoredEvent.visible, Bool.or_eq_false_iff, decide_eq_false_iff_not] at off
      exact absurd pos off.1

theorem known_putMeta (s : Store) (room : RoomId) (m : RoomMeta) :
    (s.putMeta room m).room[room]? = some m := OrdMap.getElem?_insert'.trans (if_pos rfl)

theorem inOrder_effect (h : InOrder s) (heff : Effect s cmd t) : InOrder t := by
  have on : ∀ id, s.onTimeline id → t.onTimeline id := fun _ => onTimeline_effect heff
  have inserted : ∀ (rooms : OrdMap RoomId RoomMeta) (room : RoomId) (m : RoomMeta) (r : RoomId)
      (m' : RoomMeta), rooms[r]? = some m' → ∃ m'', (rooms.insert room m)[r]? = some m'' := by
    intro rooms room m r m' held
    rw [OrdMap.getElem?_insert']
    split
    · exact ⟨m, rfl⟩
    · exact ⟨m', held⟩
  cases heff with
  | idle => exact h
  | tick => exact h.frame rfl (Nat.le_succ _) (fun r m held => ⟨m, held⟩) on
  | @rejected a rejected absent =>
    obtain ⟨rows, -, seq, -⟩ := applyRejected_frame s a rejected
    refine h.frame rows (Nat.le_of_eq seq.symm) (fun r m held => ?_) on
    cases known : s.room[a.roomId]? with
    | none =>
      rw [applyRejected_unknown known]
      exact ⟨m, held⟩
    | some m' =>
      rw [applyRejected_room known]
      split
      · exact ⟨_, rfl⟩
      · exact ⟨m, held⟩
  | @accepted a _ _ absent _ happly =>
    have appended := applyAccepted_spec happly
    obtain ⟨m, -, room⟩ := appended.room
    have off : s.onTimeline a.eventId = false := by simp [Store.onTimeline, absent]
    have base : InOrder (s.putMeta a.roomId m) :=
      h.frame rfl (Nat.le_refl _) (inserted s.room a.roomId m) fun _ => id
    have placed := base.place (known_putMeta s a.roomId m) (fun n => (rfl : (acceptedRecord a n).seq = n))
      (h.fresh_of_off off a.roomId)
    refine placed.frame appended.roomSeq (Nat.le_of_eq appended.seq.symm) (fun r m' held => ?_)
      fun id => ?_
    · rw [room]
      exact ⟨m', held⟩
    · rw [Store.onTimeline, Store.onTimeline, appended.event]
      exact fun on => on
  | @importRoom c fresh =>
    have base : InOrder (((s.putSupport c.events).putGroups c.roomId
        [(importGroup s c, ⟨none, 0, c.state⟩)]).putMeta c.roomId (importMeta s (importRows s c).1 c)) := by
      refine h.frame rfl (Nat.le_refl _) (inserted s.room c.roomId _) fun id on => ?_
      exact (onTimeline_putSupport s c.events id).trans on
    refine base.place (known_putMeta _ c.roomId _)
      (fun n => (rfl : (joinRecord c (importGroup s c) n).seq = n)) fun n hrow => fresh ?_
    obtain ⟨-, -, ⟨m, known⟩, placed⟩ := h.row c.roomId n c.joinEventId hrow
    exact ⟨Option.isSome_iff_exists.2 ⟨m, known⟩, placed⟩
  | @importSegment c m known =>
    have base : InOrder ((s.putSupport c.events).putGroups c.roomId [(m.nextGroup, ⟨none, 0, c.state⟩)]) :=
      h.frame rfl (Nat.le_refl _) (fun r m held => ⟨m, held⟩)
        fun id on => (onTimeline_putSupport s c.events id).trans on
    have looped : InOrder (segmentRows s m c).store :=
      InOrder.segmentLoop m.nextGroup c.timeline base known
    exact looped.frame rfl (Nat.le_refl _) (inserted _ c.roomId _) fun _ on => on
  | @importHistory c m known =>
    obtain ⟨-, room, rows, -, seq⟩ := historyRows_frame s m c
    refine h.frame rows (Nat.le_of_eq seq.symm) (fun r m' held => ?_) on
    exact inserted _ c.roomId _ r m' (by rw [room]; exact held)

theorem inOrder_onCore : OnCore InOrder :=
  fun _ => ⟨fun h => ⟨h.row, h.once⟩, fun h => ⟨h.row, h.once⟩⟩

theorem inOrder_empty : InOrder Store.empty :=
  ⟨fun _ _ _ hrow => by simp [Store.empty] at hrow, fun _ _ _ _ hrow => by simp [Store.empty] at hrow⟩

theorem run_inOrder {P : Store → RoomCommand → Prop} (run : Runs P Store.empty s) : InOrder s :=
  Runs.invariant inOrder_onCore (fun _ _ _ h _ heff => inOrder_effect h heff) run inOrder_empty

end Effects

/-! ## Rows stay -/

/-- The second store has more rows, past the positions of the first. -/
structure Kept (s t : Store) : Prop where
  seq : s.seq ≤ t.seq
  rows : ∀ (room : RoomId) (n : Nat), n ≤ s.seq → t.roomSeq[(room, n)]? = s.roomSeq[(room, n)]?

namespace Kept

variable {s t u : Store}

theorem refl (s : Store) : Kept s s := ⟨le_rfl, fun _ _ _ => rfl⟩

theorem trans (h : Kept s t) (h' : Kept t u) : Kept s u :=
  ⟨h.seq.trans h'.seq, fun room n le => (h'.rows room n (le.trans h.seq)).trans (h.rows room n le)⟩

theorem same (rows : t.roomSeq = s.roomSeq) (seq : s.seq ≤ t.seq) : Kept s t :=
  ⟨seq, fun room n _ => by rw [rows]⟩

theorem place (rows : ∃ room id, t.roomSeq = s.roomSeq.insert (room, s.seq + 1) id)
    (seq : t.seq = s.seq + 1) : Kept s t := by
  obtain ⟨room, id, rows⟩ := rows
  refine ⟨by omega, fun r n le => ?_⟩
  rw [rows, OrdMap.getElem?_insert', if_neg]
  intro same
  have := (Prod.mk.inj same).2
  omega

theorem row (h : Kept s t) (ordered : InOrder s) {room : RoomId} {n : Nat} {id : EventId}
    (row : s.roomSeq[(room, n)]? = some id) : t.roomSeq[(room, n)]? = some id :=
  (h.rows room n (ordered.row room n id row).2.1).trans row

end Kept

section Runs

variable {s t : Store} {cmd : RoomCommand} {P : Store → RoomCommand → Prop} {room : RoomId}

theorem kept_effect (heff : Effect s cmd t) : Kept s t := by
  cases heff with
  | idle => exact .refl s
  | tick => exact .same rfl (Nat.le_succ _)
  | @rejected a rejected =>
    obtain ⟨rows, -, seq, -⟩ := applyRejected_frame s a rejected
    exact .same rows seq.ge
  | accepted _ _ happly =>
    have appended := applyAccepted_spec happly
    exact .place ⟨_, _, appended.roomSeq⟩ appended.seq
  | @importRoom c => exact .place ⟨c.roomId, c.joinEventId, rfl⟩ rfl
  | @importSegment c m =>
    have places := segmentLoop_places c.roomId m.nextGroup c.timeline
      ⟨(s.putSupport c.events).putGroups c.roomId [(m.nextGroup, ⟨none, 0, c.state⟩)], 0, none, none⟩
    exact ⟨places.seq, places.old⟩
  | @importHistory c m =>
    obtain ⟨-, -, rows, -, seq⟩ := historyRows_frame s m c
    exact .same rows seq.ge

theorem run_kept (run : Runs P s t) : Kept s t :=
  Runs.invariant (I := Kept s) (fun _ => ⟨fun h => ⟨h.seq, h.rows⟩, fun h => ⟨h.seq, h.rows⟩⟩)
    (fun _ _ _ h _ heff => h.trans (kept_effect heff)) run (.refl s)

/-! ## States stay -/

/-- An import of another room does not bring an event of this room's order as its join. -/
abbrev ownJoins (room : RoomId) : Condition where
  append _ _ := True
  importRoom s cmd := cmd.roomId ≠ room → ∀ r ∈ s.roomSeq.toList, r.1.1 = room → r.2 ≠ cmd.joinEventId
  importSegment _ _ := True
  importHistory _ _ := True

theorem record_effect {n : Nat} {id : EventId} (ordered : InOrder s)
    (own : (ownJoins room).Holds s cmd) (heff : Effect s cmd t)
    (row : s.roomSeq[(room, n)]? = some id) : t.event[id]? = s.event[id]? := by
  obtain ⟨-, -, ⟨m, known⟩, on⟩ := ordered.row room n id row
  obtain ⟨e, held, pos⟩ := Store.onTimeline_iff.1 on
  rcases heff.event_cases id with same | ⟨e', -, touched⟩
  · exact same
  · cases touched with
    | rejected absent => simp [absent] at held
    | accepted absent => simp [absent] at held
    | support _ absent => simp [absent] at held
    | @joined c =>
      by_cases here : c.roomId = room
      · cases heff with
        | idle => rfl
        | importRoom fresh => exact absurd ⟨by rw [here, known]; rfl, on⟩ fresh
      · exact absurd rfl (own here ((room, n), c.joinEventId)
          (OrdMap.mem_toList.2 row) rfl)
    | chained _ off => simp [off] at on
    | indexed _ absent => simp [absent] at held
    | reindexed _ stored off =>
      obtain rfl := some_unique stored held
      simp only [StoredEvent.visible, Bool.or_eq_false_iff, decide_eq_false_iff_not] at off
      exact absurd pos off.1

theorem run_records (ordered : InOrder s)
    (own : ∀ s cmd, P s cmd → (ownJoins room).Holds s cmd) (run : Runs P s t) (n : Nat) (id : EventId)
    (row : s.roomSeq[(room, n)]? = some id) : t.event[id]? = s.event[id]? := by
  have kept : InOrder t ∧ Kept s t ∧ t.event[id]? = s.event[id]? := by
    refine Runs.invariant (I := fun t => InOrder t ∧ Kept s t ∧ t.event[id]? = s.event[id]?)
      (fun t => and_congr (inOrder_onCore t) ?_) ?_ run ⟨ordered, .refl s, rfl⟩
    · exact ⟨fun h => ⟨⟨h.1.seq, h.1.rows⟩, h.2⟩, fun h => ⟨⟨h.1.seq, h.1.rows⟩, h.2⟩⟩
    · rintro u cmd u' ⟨ordered', kept, same⟩ holds heff
      refine ⟨inOrder_effect ordered' heff, kept.trans (kept_effect heff), ?_⟩
      have row' := kept.row ordered row
      exact (record_effect ordered' (Condition.holds_plain.2 (own u cmd holds)) heff row').trans same
  exact kept.2.2

theorem run_groupsLe {ruma : Ruma} (sound : GroupsOk s)
    (serial : ∀ s cmd, P s cmd → SerialIn ruma s cmd) (run : Runs P s t) : s.GroupsLe t := by
  have kept : GroupsOk t ∧ s.GroupsLe t := by
    refine Runs.invariant (I := fun t => GroupsOk t ∧ s.GroupsLe t)
      (fun t => and_congr (groupsOk_onCore t) Iff.rfl) ?_ run ⟨sound, fun _ _ held => held⟩
    rintro u cmd u' ⟨sound', grown⟩ holds heff
    obtain ⟨sound'', more⟩ := groups_effect sound' (serial u cmd holds).freshIn heff
    exact ⟨sound'', fun key g held => more key g (grown key g held)⟩
  exact kept.2

theorem Store.GroupsLe.resolveGroup {fuel group : Nat} {map : StateRes.StateIds}
    (le : s.GroupsLe t) (h : s.resolveGroup fuel room group = .ok map) :
    t.resolveGroup fuel room group = .ok map := by
  -- The walk down the chain finds every group where it was.
  have walk : ∀ (fuel : Nat) (start : Option Nat × List StateGroup) (chain : List StateGroup),
      Loop.run .outOfFuel (s.groupRound room) fuel start = .ok chain →
      Loop.run .outOfFuel (t.groupRound room) fuel start = .ok chain := by
    intro fuel
    induction fuel with
    | zero => intro start chain hrun; simp [Loop.run] at hrun
    | succ fuel ih =>
      rintro ⟨id, below⟩ chain hrun
      rw [Loop.run] at hrun ⊢
      cases id with
      | none => exact hrun
      | some id =>
        cases stored : s.group[(room, id)]? with
        | none => simp [Store.groupRound, stored] at hrun
        | some g =>
          simp only [Store.groupRound, stored, le _ _ stored] at hrun ⊢
          exact ih _ _ hrun
  rw [Store.resolveGroup, Outcome.bind_eq_ok] at h ⊢
  obtain ⟨chain, hrun, h⟩ := h
  exact ⟨chain, walk fuel _ chain hrun, h⟩

/-- No rejected event is on the timeline. -/
def PlacedAccepted (s : Store) : Prop :=
  ∀ (id : EventId) (e : StoredEvent), s.event[id]? = some e → 0 < e.seq → e.rejected = none

theorem placedAccepted_effect (h : PlacedAccepted s) (heff : Effect s cmd t) : PlacedAccepted t := by
  intro id e held placed
  rcases heff.event_cases id with same | ⟨e', held', touched⟩
  · exact h id e (same ▸ held) placed
  · obtain rfl := some_unique held' held
    cases touched with
    | rejected => exact absurd placed (Nat.lt_irrefl 0)
    | accepted => rfl
    | support => exact absurd placed (Nat.lt_irrefl 0)
    | joined => rfl
    | chained => rfl
    | indexed => exact absurd placed (Nat.lt_irrefl 0)
    | @reindexed c ev e idx listed stored off => exact h _ e stored placed

theorem run_placedAccepted (run : Runs P Store.empty s) : PlacedAccepted s :=
  Runs.invariant (fun _ => Iff.rfl) (fun _ _ _ h _ heff => placedAccepted_effect h heff) run
    fun id e held => by simp [Store.empty] at held

/-- Gaps are marked at rows of their room. -/
def GapsPlaced (s : Store) : Prop :=
  ∀ (room : RoomId) (m : RoomMeta) (gap : Nat), s.room[room]? = some m → gap ∈ m.gapMarkers →
    ∃ id, s.roomSeq[(room, gap)]? = some id

theorem segmentLoop_first {group : Nat} (chain : List ImportEvent) {r : SegmentRun}
    (first : ∀ n, r.firstSeq = some n → n ≤ r.store.seq ∧ ∃ id, r.store.roomSeq[(room, n)]? = some id) :
    ∀ n, (chain.foldl (segmentEvent room group) r).firstSeq = some n →
      ∃ id, (chain.foldl (segmentEvent room group) r).store.roomSeq[(room, n)]? = some id := by
  induction chain generalizing r with
  | nil => exact fun n h => (first n h).2
  | cons ev chain ih =>
    rw [List.foldl_cons]
    refine ih fun n h => ?_
    unfold segmentEvent at h ⊢
    split at h
    · rename_i on
      rw [if_pos on]
      exact first n h
    · rename_i off
      rw [if_neg off]
      simp only [Store.putTimeline_roomSeq, Store.putTimeline_seq, OrdMap.getElem?_insert'] at h ⊢
      rcases Option.or_eq_some_iff.1 h with h | ⟨-, h⟩
      · obtain ⟨le, id, row⟩ := first n h
        refine ⟨by omega, id, ?_⟩
        rw [if_neg]
        · exact row
        · intro same
          have := (Prod.mk.inj same).2
          omega
      · obtain rfl := Option.some.inj h
        exact ⟨le_rfl, ev.eventId, if_pos rfl⟩

theorem GapsPlaced.frame (h : GapsPlaced s) (ordered : InOrder s) (kept : Kept s t)
    (markers : ∀ (room : RoomId) (m : RoomMeta) (gap : Nat), t.room[room]? = some m →
      gap ∈ m.gapMarkers → (∃ m', s.room[room]? = some m' ∧ gap ∈ m'.gapMarkers) ∨
        ∃ id, t.roomSeq[(room, gap)]? = some id) : GapsPlaced t := by
  intro room m gap held mem
  rcases markers room m gap held mem with ⟨m', held', mem'⟩ | row
  · obtain ⟨id, row⟩ := h room m' gap held' mem'
    exact ⟨id, kept.row ordered row⟩
  · exact row

theorem markers_insert {m : RoomMeta} {T : OrdMap RoomId RoomMeta}
    {Q : RoomId → Nat → Prop} (others : ∀ r m' gap, T[r]? = some m' → gap ∈ m'.gapMarkers → Q r gap)
    (own : ∀ gap ∈ m.gapMarkers, Q room gap) (r : RoomId) (m' : RoomMeta) (gap : Nat)
    (held : (T.insert room m)[r]? = some m') (mem : gap ∈ m'.gapMarkers) : Q r gap := by
  rw [OrdMap.getElem?_insert'] at held
  split at held
  · rename_i same
    subst same
    obtain rfl := Option.some.inj held
    exact own gap mem
  · exact others r m' gap held mem

theorem gapsPlaced_effect (h : GapsPlaced s) (ordered : InOrder s) (heff : Effect s cmd t) :
    GapsPlaced t := by
  have kept := kept_effect heff
  have old (r : RoomId) (m : RoomMeta) (gap : Nat) (held : s.room[r]? = some m)
      (mem : gap ∈ m.gapMarkers) : (∃ m', s.room[r]? = some m' ∧ gap ∈ m'.gapMarkers) ∨
        ∃ id, t.roomSeq[(r, gap)]? = some id := .inl ⟨m, held, mem⟩
  refine h.frame ordered kept ?_
  cases heff with
  | idle => exact old
  | tick => exact old
  | @rejected a rejected =>
    intro r m gap held mem
    cases known : s.room[a.roomId]? with
    | none =>
      rw [applyRejected_unknown known] at held
      exact old r m gap held mem
    | some m' =>
      rw [applyRejected_room known] at held
      split at held
      · rename_i same
        subst same
        obtain rfl := Option.some.inj held
        exact .inl ⟨m', known, mem⟩
      · exact old r m gap held mem
  | @accepted a _ _ _ _ happly =>
    obtain ⟨m, made, room⟩ := (applyAccepted_spec happly).room
    rw [room]
    refine markers_insert old fun gap mem => ?_
    unfold acceptedMeta at made
    split at made
    · obtain rfl := Except.ok.inj made
      cases mem
    · split at made
      · cases made
      · rename_i m' known
        obtain rfl := Except.ok.inj made
        exact .inl ⟨m', known, mem⟩
  | @importRoom c =>
    refine markers_insert (T := s.room) old fun gap mem => ?_
    cases known : s.room[c.roomId]? with
    | none => simp [importMeta, known] at mem
    | some m => exact .inl ⟨m, rfl, by simpa [importMeta, known] using mem⟩
  | @importSegment c m known =>
    obtain ⟨-, room, -, -⟩ := segmentRows_frame s m c
    refine markers_insert (room ▸ old) fun gap mem => ?_
    have marked : gap ∈ m.gapMarkers ∨ (segmentRows s m c).firstSeq = some gap := by
      unfold segmentMeta at mem
      dsimp only at mem
      split at mem
      · rename_i first start
        rcases List.mem_append.1 (List.mem_of_mem_drop mem) with mem | mem
        · exact .inl mem
        · rw [List.mem_singleton] at mem
          exact .inr (start.trans (congrArg some mem.symm))
      · exact .inl mem
    rcases marked with mem | start
    · exact .inl ⟨m, known, mem⟩
    · exact .inr (segmentLoop_first c.timeline (fun n h => by cases h) gap start)
  | @importHistory c m known =>
    obtain ⟨-, room, -⟩ := historyRows_frame s m c
    refine markers_insert (room ▸ old) fun gap mem => ?_
    exact .inl ⟨m, known, mem⟩

theorem run_gapsPlaced (run : Runs P Store.empty s) : GapsPlaced s := by
  refine (Runs.invariant (I := fun s => GapsPlaced s ∧ InOrder s)
    (fun s => and_congr Iff.rfl (inOrder_onCore s))
    (fun _ _ _ h _ heff => ⟨gapsPlaced_effect h.1 h.2 heff, inOrder_effect h.2 heff⟩) run
    ⟨fun room m gap held => ?_, inOrder_empty⟩).1
  simp [Store.empty] at held

end Runs

end Saltator.Room
