import Saltator.Room.Runs

/-!
# Every event is listed once

A room lists its events in two places: the forward timeline rows and the backwards history rows. The
record of an event carries a marker for each (`seq`, `historyIdx`). The invariant `Rows` ties rows
and markers together; it is kept by putting an unlisted event on the timeline (`Rows.place`), by
storing one off the timeline (`Rows.store`) and by indexing one (`Rows.index`).

The imports can put an event on the timeline that already holds a history index, and a second create
event restarts the history indexes: `keepsListing` names the commands that do neither.
-/

namespace Saltator.Room

open Std
open Machine

/-- A place in a room's lists: a timeline position or a history index. -/
inductive Place where
  | timeline (seq : Nat)
  | history (idx : Nat)
  deriving DecidableEq

def Lists (s : Store) (room : RoomId) (id : EventId) : Place → Prop
  | .timeline n => s.roomSeq[(room, n)]? = some id
  | .history n => s.history[(room, n)]? = some id

/-- An event has at most one place in a room, and its record's markers name exactly the places
where it is listed. -/
structure ListedOnce (s : Store) : Prop where
  once : ∀ room id p q, Lists s room id p → Lists s room id q → p = q
  recorded : ∀ room id p, Lists s room id p → (s.event[id]?).isSome
  seq : ∀ (id : EventId) (e : StoredEvent) n, s.event[id]? = some e →
    ((∃ room, Lists s room id (.timeline n)) ↔ 0 < e.seq ∧ e.seq = n)
  historyIdx : ∀ (id : EventId) (e : StoredEvent) n, s.event[id]? = some e →
    ((∃ room, Lists s room id (.history n)) ↔ e.historyIdx = some n)

/-- Rows and markers agree, and positions stay below the shard's counter. -/
structure Rows (s : Store) : Prop where
  row : ∀ (room : RoomId) (n : Nat) (id : EventId), s.roomSeq[(room, n)]? = some id →
    0 < n ∧ n ≤ s.seq ∧ ∃ e : StoredEvent, s.event[id]? = some e ∧ e.seq = n ∧ e.historyIdx = none
  history : ∀ (room : RoomId) (n : Nat) (id : EventId), s.history[(room, n)]? = some id →
    ∃ e : StoredEvent, s.event[id]? = some e ∧ e.seq = 0 ∧ e.historyIdx = some n
  seqMarker : ∀ (id : EventId) (e : StoredEvent), s.event[id]? = some e → 0 < e.seq →
    ∃ room : RoomId, s.roomSeq[(room, e.seq)]? = some id
  historyMarker : ∀ (id : EventId) (e : StoredEvent) (n : Nat), s.event[id]? = some e →
    e.historyIdx = some n → ∃ room : RoomId, s.history[(room, n)]? = some id

structure Counters (s : Store) : Prop where
  below : ∀ (room : RoomId) (n : Nat) (id : EventId), s.history[(room, n)]? = some id →
    ∃ m : RoomMeta, s.room[room]? = some m ∧ 0 < n ∧ n < m.nextHistoryIdx
  started : ∀ (room : RoomId) (m : RoomMeta), s.room[room]? = some m → 0 < m.nextHistoryIdx

def Unlisted (s : Store) (id : EventId) : Prop :=
  ∀ e : StoredEvent, s.event[id]? = some e → e.seq = 0 ∧ e.historyIdx = none

namespace Rows

variable {s : Store}

theorem listedOnce (h : Rows s) : ListedOnce s where
  once room id p q hp hq := by
    cases p with
    | timeline n =>
      obtain ⟨_, _, e, he, hn, hnone⟩ := h.row room n id hp
      cases q with
      | timeline m =>
        obtain ⟨_, _, e', he', hm, _⟩ := h.row room m id hq
        simp_all
      | history m =>
        obtain ⟨e', he', _, hm⟩ := h.history room m id hq
        simp_all
    | history n =>
      obtain ⟨e, he, hzero, hn⟩ := h.history room n id hp
      cases q with
      | timeline m =>
        obtain ⟨hpos, _, e', he', hm, _⟩ := h.row room m id hq
        simp_all
      | history m =>
        obtain ⟨e', he', _, hm⟩ := h.history room m id hq
        simp_all
  recorded room id p hp := by
    cases p with
    | timeline n =>
      obtain ⟨_, _, e, he, _⟩ := h.row room n id hp
      rw [he]
      rfl
    | history n =>
      obtain ⟨e, he, _⟩ := h.history room n id hp
      rw [he]
      rfl
  seq id e n he := by
    constructor
    · rintro ⟨room, hrow⟩
      obtain ⟨hpos, _, e', he', hn, _⟩ := h.row room n id hrow
      obtain rfl : e = e' := by simpa [he] using he'
      exact ⟨hn ▸ hpos, hn⟩
    · rintro ⟨hpos, rfl⟩
      exact h.seqMarker id e he hpos
  historyIdx id e n he := by
    constructor
    · rintro ⟨room, hrow⟩
      obtain ⟨e', he', _, hn⟩ := h.history room n id hrow
      obtain rfl : e = e' := by simpa [he] using he'
      exact hn
    · exact h.historyMarker id e n he

theorem store (h : Rows s) (id : EventId) (e : StoredEvent) (unlisted : Unlisted s id)
    (hseq : e.seq = 0) (hidx : e.historyIdx = none) :
    Rows { s with event := s.event.insert id e } where
  row room n a ha := by
    obtain ⟨hpos, hle, e', he', hn, hnone⟩ := h.row room n a ha
    refine ⟨hpos, hle, e', ?_, hn, hnone⟩
    simp only [OrdMap.getElem?_insert']
    rw [if_neg, he']
    rintro rfl
    have := (unlisted e' he').1
    omega
  history room n a ha := by
    obtain ⟨e', he', hzero, hn⟩ := h.history room n a ha
    refine ⟨e', ?_, hzero, hn⟩
    simp only [OrdMap.getElem?_insert']
    rw [if_neg, he']
    rintro rfl
    simp [(unlisted e' he').2] at hn
  seqMarker a e' ha hpos := by
    simp only [OrdMap.getElem?_insert'] at ha
    split at ha
    · obtain rfl := Option.some.inj ha
      omega
    · exact h.seqMarker a e' ha hpos
  historyMarker a e' n ha hn := by
    simp only [OrdMap.getElem?_insert'] at ha
    split at ha
    · obtain rfl := Option.some.inj ha
      simp [hidx] at hn
    · exact h.historyMarker a e' n ha hn

theorem place (h : Rows s) (room : RoomId) (id : EventId) (stored : Nat → StoredEvent)
    (unlisted : Unlisted s id) (hseq : ∀ n, (stored n).seq = n)
    (hidx : ∀ n, (stored n).historyIdx = none) : Rows (s.putTimeline room id stored).1 where
  row r n a ha := by
    simp only [Store.putTimeline_roomSeq, OrdMap.getElem?_insert'] at ha
    simp only [Store.putTimeline_event, Store.putTimeline_seq, OrdMap.getElem?_insert']
    split at ha
    · rename_i hkey
      obtain ⟨rfl, rfl⟩ := Prod.mk.inj hkey
      obtain rfl := Option.some.inj ha
      exact ⟨by omega, by omega, _, if_pos rfl, hseq _, hidx _⟩
    · obtain ⟨hpos, hle, e, he, hn, hnone⟩ := h.row r n a ha
      refine ⟨hpos, by omega, e, ?_, hn, hnone⟩
      rw [if_neg, he]
      rintro rfl
      have := (unlisted e he).1
      omega
  history r n a ha := by
    obtain ⟨e, he, hzero, hn⟩ := h.history r n a ha
    refine ⟨e, ?_, hzero, hn⟩
    simp only [Store.putTimeline_event, OrdMap.getElem?_insert']
    rw [if_neg, he]
    rintro rfl
    simp [(unlisted e he).2] at hn
  seqMarker a e ha hpos := by
    simp only [Store.putTimeline_event, OrdMap.getElem?_insert'] at ha
    simp only [Store.putTimeline_roomSeq, OrdMap.getElem?_insert']
    split at ha
    · rename_i hid
      obtain rfl := Option.some.inj ha
      exact ⟨room, by rw [hseq, if_pos rfl, hid]⟩
    · obtain ⟨r, hr⟩ := h.seqMarker a e ha hpos
      refine ⟨r, ?_⟩
      rw [if_neg, hr]
      intro hkey
      have := (h.row r e.seq a hr).2.1
      have := (Prod.mk.inj hkey).2
      omega
  historyMarker a e n ha hn := by
    simp only [Store.putTimeline_event, OrdMap.getElem?_insert'] at ha
    split at ha
    · obtain rfl := Option.some.inj ha
      simp [hidx] at hn
    · exact h.historyMarker a e n ha hn

theorem index (h : Rows s) {room : RoomId} {id : EventId} {e : StoredEvent} {idx : Nat}
    (unlisted : Unlisted s id) (unused : s.history[(room, idx)]? = none) (hseq : e.seq = 0)
    (hidx : e.historyIdx = some idx) :
    Rows { s with
      event := s.event.insert id e
      history := s.history.insert (room, idx) id } where
  row r n a ha := by
    obtain ⟨hpos, hle, e', he', hn, hnone⟩ := h.row r n a ha
    refine ⟨hpos, hle, e', ?_, hn, hnone⟩
    simp only [OrdMap.getElem?_insert']
    rw [if_neg, he']
    rintro rfl
    have := (unlisted e' he').1
    omega
  history r n a ha := by
    simp only [OrdMap.getElem?_insert'] at ha ⊢
    split at ha
    · rename_i hkey
      obtain ⟨rfl, rfl⟩ := Prod.mk.inj hkey
      obtain rfl := Option.some.inj ha
      exact ⟨e, if_pos rfl, hseq, hidx⟩
    · obtain ⟨e', he', hzero, hn⟩ := h.history r n a ha
      refine ⟨e', ?_, hzero, hn⟩
      rw [if_neg, he']
      rintro rfl
      simp [(unlisted e' he').2] at hn
  seqMarker a e' ha hpos := by
    simp only [OrdMap.getElem?_insert'] at ha
    split at ha
    · obtain rfl := Option.some.inj ha
      omega
    · exact h.seqMarker a e' ha hpos
  historyMarker a e' n ha hn := by
    simp only [OrdMap.getElem?_insert'] at ha ⊢
    split at ha
    · rename_i hid
      obtain rfl := Option.some.inj ha
      obtain rfl : idx = n := by simpa [hidx] using hn
      exact ⟨room, by rw [if_pos rfl, hid]⟩
    · obtain ⟨r, hr⟩ := h.historyMarker a e' n ha hn
      refine ⟨r, ?_⟩
      rw [if_neg, hr]
      intro hkey
      simp [hkey, unused] at hr

theorem congr (h : Rows s) {t : Store} (he : t.event = s.event) (hq : t.roomSeq = s.roomSeq)
    (hh : t.history = s.history) (hs : s.seq ≤ t.seq) : Rows t where
  row room n id hrow := by
    rw [hq] at hrow
    rw [he]
    obtain ⟨hpos, hle, rest⟩ := h.row room n id hrow
    exact ⟨hpos, by omega, rest⟩
  history room n id hrow := by
    rw [hh] at hrow
    rw [he]
    exact h.history room n id hrow
  seqMarker id e hid := by
    rw [he] at hid
    rw [hq]
    exact h.seqMarker id e hid
  historyMarker id e n hid := by
    rw [he] at hid
    rw [hh]
    exact h.historyMarker id e n hid

end Rows

/-! ## The loops -/

theorem rows_putSupport {s : Store} (h : Rows s) (events : List ImportEvent) :
    Rows (s.putSupport events) := by
  suffices general : ∀ m : OrdMap EventId StoredEvent, Rows { s with event := m } →
      Rows { s with event := events.foldl (fun m ev =>
        if m.contains ev.eventId then m
        else m.insert ev.eventId (Store.supportEvent ev)) m } from general s.event h
  induction events with
  | nil => exact fun m hm => hm
  | cons ev events ih =>
    intro m hm
    simp only [List.foldl_cons]
    split
    · exact ih m hm
    · rename_i hc
      refine ih _ (hm.store ev.eventId (Store.supportEvent ev) (fun e he => ?_) rfl rfl)
      simp only at he
      exact absurd (ExtTreeMap.contains_iff_mem.2 (OrdMap.mem_iff_getElem?.2 ⟨e, he⟩)) hc

def NoHistory (s : Store) (events : List ImportEvent) : Prop :=
  ∀ ev ∈ events, ∀ e ∈ s.event[ev.eventId]?, e.historyIdx = none

theorem unlisted_of_off {s : Store} {id : EventId} (off : s.onTimeline id = false)
    (noHistory : ∀ e : StoredEvent, s.event[id]? = some e → e.historyIdx = none) : Unlisted s id := by
  intro e he
  refine ⟨?_, noHistory e he⟩
  by_contra hpos
  have := Store.onTimeline_iff.2 ⟨e, he, Nat.pos_of_ne_zero hpos⟩
  simp [off] at this

theorem rows_segmentLoop (room : RoomId) (group : Nat) (chain : List ImportEvent) {r : SegmentRun}
    (h : Rows r.store) (hno : NoHistory r.store chain) :
    Rows (chain.foldl (segmentEvent room group) r).store := by
  induction chain generalizing r with
  | nil => exact h
  | cons ev chain ih =>
    simp only [List.foldl_cons]
    unfold segmentEvent
    by_cases hon : r.store.onTimeline ev.eventId = true
    · rw [if_pos hon]
      exact ih h fun ev' hev' => hno ev' (List.mem_cons_of_mem _ hev')
    · rw [if_neg hon]
      rw [Bool.not_eq_true] at hon
      refine ih (h.place room ev.eventId _ (unlisted_of_off hon (hno ev (by simp))) (fun _ => rfl) fun _ => rfl)
        fun ev' hev' e he => ?_
      simp only [Store.putTimeline_event, OrdMap.getElem?_insert'] at he
      split at he
      · obtain rfl := Option.some.inj he
        rfl
      · exact hno ev' (List.mem_cons_of_mem _ hev') e he

/-- What the indexing loop maintains of the room's history rows: they lie below the next index. -/
structure CounterInv (room : RoomId) (start : Store) (r : HistoryRun) : Prop where
  pos : 0 < r.idx
  below : ∀ (n : Nat) (id : EventId), r.store.history[(room, n)]? = some id → 0 < n ∧ n < r.idx
  others : ∀ (other : RoomId) (n : Nat), other ≠ room →
    r.store.history[(other, n)]? = start.history[(other, n)]?

/-- One backfilled event: nothing is indexed, or an event that is not visible gets the next index
and keeps its body if it has one. -/
theorem historyStep_cases (room : RoomId) (r : HistoryRun) (ev : ImportEvent) :
    (historyStep room r ev = { r with batchIds := r.batchIds.insert ev.eventId } ∧
      r.store.visible ev.eventId) ∨
    ∃ stored : StoredEvent, historyStep room r ev = indexEvent room r ev.eventId stored ∧
      r.store.visible ev.eventId = false ∧ stored.seq = 0 ∧ stored.historyIdx = some r.idx ∧
      ((r.store.event[ev.eventId]? = none ∧ stored = historyEvent ev r.idx) ∨
        ∃ held, r.store.event[ev.eventId]? = some held ∧
          stored = { held with historyIdx := some r.idx }) := by
  unfold historyStep
  split
  · rename_i held hheld
    split
    · rename_i hv
      exact .inl ⟨rfl, Store.visible_iff.2 ⟨held, hheld, hv⟩⟩
    · rename_i hoff
      have hoff' : held.seq = 0 ∧ held.historyIdx = none := by
        simpa [StoredEvent.visible] using hoff
      refine .inr ⟨_, rfl, ?_, hoff'.1, rfl, .inr ⟨held, hheld, rfl⟩⟩
      simpa [Store.visible, hheld] using hoff
  · rename_i hnone
    exact .inr ⟨_, rfl, by simp [Store.visible, hnone], rfl, rfl, .inl ⟨hnone, rfl⟩⟩

namespace CounterInv

variable {room : RoomId} {start : Store} {r : HistoryRun}

theorem unused (h : CounterInv room start r) : r.store.history[(room, r.idx)]? = none := by
  by_contra hsome
  obtain ⟨id, hid⟩ := Option.ne_none_iff_exists'.1 hsome
  have := (h.below r.idx id hid).2
  omega

theorem index (h : CounterInv room start r) (id : EventId) (stored : StoredEvent) :
    CounterInv room start (indexEvent room r id stored) := by
  refine ⟨Nat.succ_pos _, fun n id' hn => ?_, fun other n hne => ?_⟩
  · simp only [indexEvent, OrdMap.getElem?_insert'] at hn ⊢
    split at hn
    · rename_i hkey
      have := (Prod.mk.inj hkey).2
      have := h.pos
      omega
    · have := h.below n id' hn
      omega
  · simp only [indexEvent, OrdMap.getElem?_insert']
    rw [if_neg fun hkey => hne (Prod.mk.inj hkey).1]
    exact h.others other n hne

theorem step (h : CounterInv room start r) (ev : ImportEvent) :
    CounterInv room start (historyStep room r ev) := by
  rcases historyStep_cases room r ev with ⟨heq, _⟩ | ⟨stored, heq, _⟩
  · rw [heq]
    exact ⟨h.pos, h.below, h.others⟩
  · rw [heq]
    exact h.index ev.eventId stored

theorem init {s : Store} {m : RoomMeta} (h : Counters s) (known : s.room[room]? = some m) :
    CounterInv room s ⟨s, m.nextHistoryIdx, ∅, [], 0⟩ := by
  refine ⟨h.started _ m known, fun n id hn => ?_, fun _ _ _ => rfl⟩
  obtain ⟨m', hm', hpos, hlt⟩ := h.below room n id hn
  obtain rfl : m = m' := by simpa [known] using hm'
  exact ⟨hpos, hlt⟩

theorem loop (h : CounterInv room start r) (events : List ImportEvent) :
    CounterInv room start (events.foldl (historyStep room) r) :=
  List.foldlRecOn (motive := CounterInv room start) events _ h fun _ hr ev _ => hr.step ev

end CounterInv

theorem rows_historyLoop {room : RoomId} {start : Store} (events : List ImportEvent)
    {r : HistoryRun} (h : Rows r.store) (counter : CounterInv room start r) :
    Rows (events.foldl (historyStep room) r).store := by
  induction events generalizing r with
  | nil => exact h
  | cons ev events ih =>
    rw [List.foldl_cons]
    refine ih ?_ (counter.step ev)
    rcases historyStep_cases room r ev with ⟨heq, _⟩ | ⟨stored, heq, hoff, hseq, hidx, _⟩
    · rw [heq]
      exact h
    · rw [heq]
      refine h.index (fun e he => ?_) counter.unused hseq hidx
      have hoff' : e.visible = false := by simpa [Store.visible, he] using hoff
      simpa [StoredEvent.visible] using hoff'

/-! ## The invariant along a run -/

/-- No event is listed a second time: an imported timeline event holds no history index, an imported
join is on no timeline when its room is unknown, and no create event restarts a room's history. -/
abbrev keepsListing : Condition where
  append s cmd := cmd.createVersion.isSome → ∀ m ∈ s.room[cmd.roomId]?, m.nextHistoryIdx = 1
  importRoom s cmd := (∀ e ∈ s.event[cmd.joinEventId]?, e.historyIdx = none) ∧
    (s.room[cmd.roomId]? = none → s.onTimeline cmd.joinEventId = false)
  importSegment s cmd := ∀ ev ∈ cmd.timeline, ∀ e ∈ s.event[ev.eventId]?, e.historyIdx = none
  importHistory _ _ := True

structure Listing (s : Store) : Prop where
  rows : Rows s
  counters : Counters s

theorem rows_empty : Rows Store.empty := by
  refine ⟨?_, ?_, ?_, ?_⟩ <;> intro <;> simp [Store.empty]

theorem counters_empty : Counters Store.empty := by
  refine ⟨?_, ?_⟩ <;> intro <;> simp [Store.empty]

theorem counters_onCore : OnCore Counters := fun _ =>
  ⟨fun h => ⟨h.below, h.started⟩, fun h => ⟨h.below, h.started⟩⟩

theorem listing_onCore : OnCore Listing := fun s =>
  ⟨fun h => ⟨h.rows.congr rfl rfl rfl (Nat.le_refl _), (counters_onCore s).1 h.counters⟩,
    fun h => ⟨h.rows.congr rfl rfl rfl (Nat.le_refl _), (counters_onCore s).2 h.counters⟩⟩

variable {s t : Store}

theorem Counters.insert (room : RoomId) (new : RoomMeta) (h : Counters s)
    (hh : t.history = s.history) (hroom : t.room = s.room.insert room new)
    (hpos : 0 < new.nextHistoryIdx)
    (hle : ∀ m : RoomMeta, s.room[room]? = some m → m.nextHistoryIdx ≤ new.nextHistoryIdx) :
    Counters t := by
  refine ⟨fun r n id hrow => ?_, fun r m hm => ?_⟩
  · rw [hh] at hrow
    obtain ⟨m, hm, hpos, hlt⟩ := h.below r n id hrow
    rw [hroom]
    simp only [OrdMap.getElem?_insert']
    split
    · rename_i hr
      subst hr
      exact ⟨new, rfl, hpos, Nat.lt_of_lt_of_le hlt (hle m hm)⟩
    · exact ⟨m, hm, hpos, hlt⟩
  · rw [hroom] at hm
    simp only [OrdMap.getElem?_insert'] at hm
    split at hm
    · obtain rfl := Option.some.inj hm
      exact hpos
    · exact h.started r m hm

theorem acceptedMeta_history {s : Store} {cmd : AppendEvent} {new : RoomMeta} (counters : Counters s)
    (h : acceptedMeta s cmd = .ok new)
    (keeps : cmd.createVersion.isSome → ∀ m ∈ s.room[cmd.roomId]?, m.nextHistoryIdx = 1) :
    0 < new.nextHistoryIdx ∧
      ∀ m : RoomMeta, s.room[cmd.roomId]? = some m → m.nextHistoryIdx ≤ new.nextHistoryIdx := by
  unfold acceptedMeta at h
  split at h
  · rename_i version hv
    obtain rfl := Except.ok.inj h
    exact ⟨Nat.one_pos, fun m hm => Nat.le_of_eq (keeps (by simp [hv]) m hm)⟩
  · split at h
    · simp at h
    · rename_i m hm
      obtain rfl := Except.ok.inj h
      refine ⟨counters.started _ m hm, fun m' hm' => ?_⟩
      obtain rfl : m = m' := by simpa [hm] using hm'
      exact Nat.le_refl _

variable {cmd : RoomCommand}

theorem counters_effect (h : Counters s) (keeps : ∀ a, cmd = .append a → a.createVersion.isSome →
      ∀ m ∈ s.room[a.roomId]?, m.nextHistoryIdx = 1) (heff : Effect s cmd t) : Counters t := by
  cases heff with
  | idle => exact h
  | tick => exact ⟨h.below, h.started⟩
  | @rejected cmd rejected absent hrejected =>
    unfold applyRejected
    dsimp only
    split
    · exact ⟨h.below, h.started⟩
    · rename_i m hm
      split
      · refine h.insert cmd.roomId { m with nextGroup := cmd.nextGroup } rfl rfl
          (h.started _ m hm) fun m' hm' => ?_
        obtain rfl := some_unique hm hm'
        exact Nat.le_refl _
      · exact ⟨h.below, h.started⟩
  | @accepted cmd s' seq absent hrejected happly =>
    have happended := applyAccepted_spec happly
    obtain ⟨new, hnew, hroom⟩ := happended.room
    obtain ⟨hpos, hle⟩ := acceptedMeta_history h hnew (keeps cmd rfl)
    exact h.insert cmd.roomId new happended.history hroom hpos hle
  | @importRoom cmd fresh =>
    refine h.insert cmd.roomId (importMeta s (importRows s cmd).1 cmd) rfl rfl ?_ fun m hm => ?_
    · change 0 < (s.room[cmd.roomId]?.map RoomMeta.nextHistoryIdx).getD 1
      cases hm : s.room[cmd.roomId]? with
      | none => simp
      | some m => simpa using h.started _ m hm
    · change m.nextHistoryIdx ≤ (s.room[cmd.roomId]?.map RoomMeta.nextHistoryIdx).getD 1
      simp [hm]
  | @importSegment cmd m known =>
    obtain ⟨_, hroom, hhist, _⟩ := segmentRows_frame s m cmd
    refine h.insert cmd.roomId (segmentMeta m (segmentRows s m cmd) cmd) hhist
      (by simp only [Store.putMeta, hroom]) (h.started _ m known) fun m' hm' => ?_
    obtain rfl : m = m' := by simpa [known] using hm'
    exact Nat.le_refl _
  | @importHistory cmd m known =>
    have hloop := (CounterInv.init h known).loop cmd.events
    obtain ⟨_, hroom, _⟩ := historyRows_frame s m cmd
    refine ⟨fun r n id hn => ?_, fun r m' hm' => ?_⟩
    · simp only [Store.putMeta, hroom, OrdMap.getElem?_insert']
      by_cases hr : r = cmd.roomId
      · subst hr
        obtain ⟨hpos, hlt⟩ := hloop.below n id hn
        exact ⟨_, if_pos rfl, hpos, hlt⟩
      · rw [if_neg hr]
        exact h.below r n id ((hloop.others r n hr) ▸ hn)
    · simp only [Store.putMeta, hroom, OrdMap.getElem?_insert'] at hm'
      split at hm'
      · obtain rfl := Option.some.inj hm'
        exact hloop.pos
      · exact h.started r m' hm'

theorem rows_effect (h : Rows s) (counters : Counters s)
    (keeps : keepsListing.Holds s cmd) (heff : Effect s cmd t) : Rows t := by
  cases heff with
  | idle => exact h
  | tick => exact h.congr rfl rfl rfl (Nat.le_succ _)
  | @rejected cmd rejected absent hrejected =>
    have hrows := h.store cmd.eventId (rejectedRecord cmd rejected)
      (fun e he => by simp [absent] at he) rfl rfl
    unfold applyRejected
    dsimp only
    split
    · exact hrows.congr rfl rfl rfl (Nat.le_refl _)
    · split <;> exact hrows.congr rfl rfl rfl (Nat.le_refl _)
  | @accepted cmd s' seq absent hrejected happly =>
    have happended := applyAccepted_spec happly
    have hrows : Rows (s.putTimeline cmd.roomId cmd.eventId (acceptedRecord cmd)).1 :=
      h.place cmd.roomId cmd.eventId _ (fun e he => by simp [absent] at he) (fun _ => rfl) fun _ => rfl
    exact hrows.congr happended.event happended.roomSeq happended.history (Nat.le_of_eq happended.seq.symm)
  | @importRoom cmd fresh =>
    obtain ⟨hjoin, hunknown⟩ := keeps
    have hoff : s.onTimeline cmd.joinEventId = false := by
      cases hm : s.room[cmd.roomId]? with
      | none => exact hunknown hm
      | some m => simpa [hm] using fresh
    have unlisted : Unlisted (s.putSupport cmd.events) cmd.joinEventId := by
      refine unlisted_of_off (by rw [onTimeline_putSupport]; exact hoff) fun e he => ?_
      rcases (s.putSupport_event_cases cmd.events cmd.joinEventId).1 with
        ⟨_, ev, _, _, hrec⟩ | hsame
      · rw [hrec, Option.some.injEq] at he
        exact he ▸ rfl
      · exact hjoin e (hsame ▸ he)
    exact ((rows_putSupport h cmd.events).place cmd.roomId cmd.joinEventId
      (joinRecord cmd (importGroup s cmd)) unlisted (fun _ => rfl) fun _ => rfl).congr rfl rfl rfl
      (Nat.le_refl _)
  | @importSegment cmd m known =>
    have hsupport := (rows_putSupport h cmd.events).congr
      (t := (s.putSupport cmd.events).putGroups cmd.roomId [(m.nextGroup, ⟨none, 0, cmd.state⟩)])
      rfl rfl rfl (Nat.le_refl _)
    have hno : NoHistory (s.putSupport cmd.events) cmd.timeline := by
      intro ev hev e he
      rcases (s.putSupport_event_cases cmd.events ev.eventId).1 with ⟨_, ev', _, _, hrec⟩ | hsame
      · obtain rfl : Store.supportEvent ev' = e := by simpa [hrec] using he
        rfl
      · exact keeps ev hev e (hsame ▸ he)
    exact (rows_segmentLoop cmd.roomId m.nextGroup cmd.timeline
      (r := ⟨_, 0, none, none⟩) hsupport hno).congr rfl rfl rfl (Nat.le_refl _)
  | @importHistory cmd m known =>
    exact (rows_historyLoop cmd.events (r := ⟨s, m.nextHistoryIdx, ∅, [], 0⟩) h
      (.init counters known)).congr rfl rfl rfl (Nat.le_refl _)

theorem listing_effect (h : Listing s)
    (keeps : keepsListing.Holds s cmd) (heff : Effect s (plain cmd) t) : Listing t := by
  rw [← Condition.holds_plain] at keeps
  generalize plain cmd = cmd at keeps heff
  refine ⟨rows_effect h.rows h.counters keeps heff, counters_effect h.counters (fun a ha => ?_) heff⟩
  subst ha
  exact keeps

/-- **No event is listed twice.** Along every sequence of commands that keep the listing, an event
has at most one place in a room and its markers name it. -/
theorem run_lists_once {s : Store} (run : Runs keepsListing.Holds Store.empty s) : ListedOnce s :=
  (Runs.invariant listing_onCore
    (fun _ _ _ h keeps heff => listing_effect h keeps heff) run ⟨rows_empty, counters_empty⟩).rows.listedOnce

def sampleBackfilled : JsonObject :=
  Ruma.samplePdu "h" "m.room.message" none "@a:x" [] ["$c"] ["$c"] 2

def sampleLateJoin : JsonObject :=
  Ruma.samplePdu "j" "m.room.member" (some "@a:x") "@a:x" [("membership", .string "join")] ["$c"] ["$h"] 3

theorem run_lists_once_backfill : ∃ s : Store,
    ListedOnce s ∧ s.roomSeq[("!r:x", 1)]? = some "$j" ∧ s.history[("!r:x", 1)]? = some "$h" := by
  obtain ⟨s, run, hp⟩ := exists_run keepsListing.Holds
    [.importRoom .v11 sampleLateJoin [Ruma.sampleCreate] [], .importHistory "!r:x" [sampleBackfilled]]
    (fun s => s.roomSeq[("!r:x", 1)]? = some "$j" ∧ s.history[("!r:x", 1)]? = some "$h")
    (by decide +kernel)
  exact ⟨s, run_lists_once (run.mono fun _ _ h => h.2), of_decide_eq_true hp⟩

/-- A backfilled event that returns in a recovered chain is listed in both places. -/
theorem backfilled_chain_event_listed_twice :
    ∃ s, Runs (Serial Ruma.sample) Store.empty s ∧ ¬ ListedOnce s := by
  obtain ⟨s, run, hp⟩ := exists_run (fun _ _ => True)
    [.importRoom .v11 sampleLateJoin [Ruma.sampleCreate] [], .importHistory "!r:x" [sampleBackfilled],
      .importSegment "!r:x" [Ruma.sampleCreate] [] [sampleBackfilled]]
    (fun s => s.roomSeq[("!r:x", 2)]? = some "$h" ∧ s.history[("!r:x", 1)]? = some "$h")
    (by decide +kernel)
  refine ⟨s, run.mono fun _ _ h => h.1, fun once => ?_⟩
  obtain ⟨hrow, hhist⟩ := of_decide_eq_true hp
  have := once.once "!r:x" "$h" (.timeline 2) (.history 1) hrow hhist
  simp at this

end Saltator.Room
