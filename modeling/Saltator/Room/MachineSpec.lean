import Saltator.Room.Machine

/-!
# What a command can do

`apply_effect` is the inversion rule of the state machine: applying a command has one of the effects
listed in `Effect`, up to the tables that no other part of the room server depends on (receipts,
client transactions, the published records). `Effect.event_cases` then says what can happen to the
record of one event, and is what the invariants are proved from.
-/

namespace Saltator.Room

open Std
open Saltator.Outcome

/-! ## Store operations -/

namespace Store

section Fields

variable (s : Store) (room : RoomId) (id : EventId) (stored : Nat → StoredEvent)

@[simp] theorem putTimeline_event : (s.putTimeline room id stored).1.event =
    s.event.insert id (stored (s.seq + 1)) := rfl
@[simp] theorem putTimeline_roomSeq : (s.putTimeline room id stored).1.roomSeq =
    s.roomSeq.insert (room, s.seq + 1) id := rfl
@[simp] theorem putTimeline_seq : (s.putTimeline room id stored).1.seq = s.seq + 1 := rfl
@[simp] theorem putTimeline_snd : (s.putTimeline room id stored).2 = s.seq + 1 := rfl
@[simp] theorem putTimeline_group : (s.putTimeline room id stored).1.group = s.group := rfl
@[simp] theorem putTimeline_room : (s.putTimeline room id stored).1.room = s.room := rfl
@[simp] theorem putTimeline_history : (s.putTimeline room id stored).1.history = s.history := rfl
@[simp] theorem putTimeline_redact : (s.putTimeline room id stored).1.redact = s.redact := rfl

end Fields

/-- The tables that the room server's own decisions depend on. -/
def core (s : Store) : Store :=
  { s with timeline := ∅, receipt := ∅, txn := ∅, txnIdx := ∅, txnEcho := ∅, emits := [] }

variable {s t : Store}

theorem event_of_core (h : s.core = t.core) : s.event = t.event :=
  show s.core.event = t.core.event from congrArg Store.event h

theorem redact_of_core (h : s.core = t.core) : s.redact = t.redact :=
  show s.core.redact = t.core.redact from congrArg Store.redact h

theorem room_of_core (h : s.core = t.core) : s.room = t.room :=
  show s.core.room = t.core.room from congrArg Store.room h

theorem roomSeq_of_core (h : s.core = t.core) : s.roomSeq = t.roomSeq :=
  show s.core.roomSeq = t.core.roomSeq from congrArg Store.roomSeq h

variable {id : EventId}

theorem visible_iff {s : Store} : s.visible id ↔ ∃ e, s.event[id]? = some e ∧ e.visible := by
  simp [visible, Option.any_eq_true]

theorem onTimeline_iff {s : Store} : s.onTimeline id ↔ ∃ e, s.event[id]? = some e ∧ 0 < e.seq := by
  simp [onTimeline, Option.any_eq_true]

theorem isRejected_iff {s : Store} : s.isRejected id ↔ ∃ e, s.event[id]? = some e ∧ e.rejected.isSome := by
  simp [isRejected, Option.any_eq_true]

/-- What `putSupport` makes of one record: absent ids that are listed get a support record. -/
theorem putSupport_event_cases (s : Store) (events : List ImportEvent) (id : EventId) :
    ((s.event[id]? = none ∧ ∃ ev ∈ events, ev.eventId = id ∧
        (s.putSupport events).event[id]? = some (supportEvent ev)) ∨
      (s.putSupport events).event[id]? = s.event[id]?) ∧
    ((∃ ev ∈ events, ev.eventId = id) → ((s.putSupport events).event[id]?).isSome) := by
  suffices general : ∀ m : OrdMap EventId StoredEvent,
      let m' := events.foldl (fun m ev =>
        if m.contains ev.eventId then m else m.insert ev.eventId (supportEvent ev)) m
      ((m[id]? = none ∧ ∃ ev ∈ events, ev.eventId = id ∧ m'[id]? = some (supportEvent ev)) ∨
        m'[id]? = m[id]?) ∧
      ((∃ ev ∈ events, ev.eventId = id) → m'[id]?.isSome) from general s.event
  induction events with
  | nil => intro m; simp
  | cons ev events ih =>
    intro m
    simp only [List.foldl_cons]
    by_cases hc : m.contains ev.eventId = true
    · rw [if_pos hc]
      obtain ⟨hcase, hheld⟩ := ih m
      refine ⟨?_, ?_⟩
      · rcases hcase with ⟨hm, ev', hev', hid, hrec⟩ | hsame
        · exact .inl ⟨hm, ev', by simp [hev'], hid, hrec⟩
        · exact .inr hsame
      · rintro ⟨ev', hev', rfl⟩
        rcases List.mem_cons.1 hev' with rfl | hev'
        · rcases hcase with ⟨hm, _⟩ | hsame
          · exact absurd (ExtTreeMap.contains_iff_mem.1 hc) (by simpa using hm)
          · rw [hsame]
            simpa using hc
        · exact hheld ⟨ev', hev', rfl⟩
    · rw [if_neg hc]
      obtain ⟨hcase, hheld⟩ := ih (m.insert ev.eventId (supportEvent ev))
      rw [OrdMap.getElem?_insert'] at hcase
      by_cases hid : id = ev.eventId
      · subst hid
        have hnone : m[ev.eventId]? = none := by simpa using hc
        simp only [if_true, reduceCtorEq, false_and, false_or] at hcase
        exact ⟨.inl ⟨hnone, ev, by simp, rfl, hcase⟩, fun _ => by rw [hcase]; rfl⟩
      · simp only [hid, if_false] at hcase
        refine ⟨?_, ?_⟩
        · rcases hcase with ⟨hm, ev', hev', hid', hrec⟩ | hsame
          · exact .inl ⟨hm, ev', by simp [hev'], hid', hrec⟩
          · exact .inr hsame
        · rintro ⟨ev', hev', rfl⟩
          rcases List.mem_cons.1 hev' with rfl | hev'
          · exact absurd rfl hid
          · exact hheld ⟨ev', hev', rfl⟩

end Store

namespace Machine

/-! ## Effects -/

def plain : RoomCommand → RoomCommand
  | .appendStamped cmd _ => .append cmd
  | cmd => cmd

/-- Everything a command can do to the tables that matter. -/
inductive Effect (s : Store) : RoomCommand → Store → Prop
  | idle {cmd : RoomCommand} : Effect s cmd s
  | tick {cmd : ReceiptCmd} : Effect s (.receipt cmd) { s with seq := s.seq + 1 }
  | rejected {cmd : AppendEvent} {rejected : Rejected} (absent : s.event[cmd.eventId]? = none)
      (hrejected : cmd.rejected = some rejected) :
      Effect s (.append cmd) (applyRejected s cmd rejected)
  | accepted {cmd : AppendEvent} {s' : Store} {seq : Nat} (absent : s.event[cmd.eventId]? = none)
      (hrejected : cmd.rejected = none) (happly : applyAccepted s cmd = .ok (s', seq)) :
      Effect s (.append cmd) s'
  | importRoom {cmd : ImportRoom}
      (fresh : ¬ (s.room[cmd.roomId]?.isSome ∧ s.onTimeline cmd.joinEventId)) :
      Effect s (.importRoom cmd)
        ((importRows s cmd).1.putMeta cmd.roomId (importMeta s (importRows s cmd).1 cmd))
  | importSegment {cmd : ImportSegment} {roomMeta : RoomMeta}
      (known : s.room[cmd.roomId]? = some roomMeta) :
      Effect s (.importSegment cmd) ((segmentRows s roomMeta cmd).store.putMeta cmd.roomId
          (segmentMeta roomMeta (segmentRows s roomMeta cmd) cmd))
  | importHistory {cmd : ImportHistory} {roomMeta : RoomMeta}
      (known : s.room[cmd.roomId]? = some roomMeta) :
      Effect s (.importHistory cmd) ((historyRows s roomMeta cmd).store.putMeta cmd.roomId
          { roomMeta with
            historyFrontier := stillMissing roomMeta (historyRows s roomMeta cmd)
            nextHistoryIdx := (historyRows s roomMeta cmd).idx })

inductive Answered (s : Store) (cmd : AppendEvent) : Store → RoomResponse → Prop
  | duplicate (held : (s.event[cmd.eventId]?).isSome) : Answered s cmd s (.duplicate cmd.eventId)
  | rejected {rejected : Rejected} (absent : s.event[cmd.eventId]? = none)
      (hrejected : cmd.rejected = some rejected) :
      Answered s cmd (applyRejected s cmd rejected) (.rejected cmd.eventId rejected.reason)
  | accepted {s' : Store} {seq : Nat} (absent : s.event[cmd.eventId]? = none)
      (hrejected : cmd.rejected = none) (happly : applyAccepted s cmd = .ok (s', seq)) :
      Answered s cmd s' (.accepted cmd.eventId seq)

variable {response : RoomResponse}

theorem applyAppend_answered {s s' : Store} {cmd : AppendEvent}
    (h : applyAppend s cmd = .ok (s', response)) : Answered s cmd s' response := by
  unfold applyAppend at h
  split at h
  · rename_i held
    obtain ⟨rfl, rfl⟩ := ok_pair h
    exact .duplicate (by simpa using held)
  rename_i hnew
  have absent : s.event[cmd.eventId]? = none := by simpa using hnew
  split at h
  · rename_i rejected hr
    obtain ⟨rfl, rfl⟩ := ok_pair h
    exact .rejected absent hr
  · rename_i hr
    obtain ⟨⟨t, seq⟩, happly, h⟩ := bind_eq_ok.1 h
    obtain ⟨rfl, rfl⟩ := ok_pair h
    exact .accepted absent hr happly

theorem Answered.effect {s s' : Store} {cmd : AppendEvent}
    (h : Answered s cmd s' response) : Effect s (.append cmd) s' := by
  cases h with
  | duplicate => exact .idle
  | rejected absent hrejected => exact .rejected absent hrejected
  | accepted absent hrejected happly => exact .accepted absent hrejected happly

theorem core_putTxn (engine s : Store) (txn : TxnStamp) (id : EventId) :
    (putTxn engine s txn id).core = s.core := by
  unfold putTxn
  refine List.foldlRecOn (motive := fun t : Store => t.core = s.core) _ _ rfl fun t ht entry _ => ?_
  rw [← ht]
  unfold dropTxn
  dsimp only
  split <;> rfl

variable {cmd : RoomCommand} {engine s s' : Store}

theorem apply_append_answered {a : AppendEvent} (hplain : plain cmd = .append a)
    (h : apply engine s cmd = .ok (s', response)) :
    ∃ t : Store, t.core = s'.core ∧ Answered s a t response := by
  cases cmd with
  | append cmd =>
    obtain rfl := RoomCommand.append.inj hplain
    exact ⟨s', rfl, applyAppend_answered h⟩
  | appendStamped cmd txn =>
    obtain rfl := RoomCommand.append.inj hplain
    rw [apply, applyAppendStamped, bind_eq_ok] at h
    obtain ⟨⟨t, resp⟩, happend, h⟩ := h
    dsimp only at h
    split at h
    · obtain ⟨rfl, rfl⟩ := ok_pair h
      exact ⟨t, (core_putTxn ..).symm, applyAppend_answered happend⟩
    · obtain ⟨rfl, rfl⟩ := ok_pair h
      exact ⟨t, rfl, applyAppend_answered happend⟩
  | _ => simp [plain] at hplain

/-! ## The loops of the imports -/

theorem segmentLoop_event_cases (room : RoomId) (group : Nat) (chain : List ImportEvent)
    (r : SegmentRun) (id : EventId) :
    let r' := chain.foldl (segmentEvent room group) r
    (r'.store.event[id]? = r.store.event[id]? ∨
      ∃ ev ∈ chain, ev.eventId = id ∧ r.store.onTimeline id = false ∧
        ∃ seq, r.store.seq < seq ∧ r'.store.event[id]? = some (chainRecord ev group seq)) ∧
    ((r.store.onTimeline id ∨ ∃ ev ∈ chain, ev.eventId = id) → r'.store.onTimeline id) := by
  induction chain generalizing r with
  | nil => simp
  | cons ev chain ih =>
    simp only [List.foldl_cons]
    unfold segmentEvent
    by_cases hon : r.store.onTimeline ev.eventId = true
    · rw [if_pos hon]
      obtain ⟨hcase, hcover⟩ := ih r
      refine ⟨?_, fun h => hcover ?_⟩
      · rcases hcase with hsame | ⟨ev', hev', rest⟩
        · exact .inl hsame
        · exact .inr ⟨ev', by simp [hev'], rest⟩
      · rcases h with h | ⟨ev', hev', rfl⟩
        · exact .inl h
        · rcases List.mem_cons.1 hev' with rfl | hev'
          · exact .inl hon
          · exact .inr ⟨ev', hev', rfl⟩
    · rw [if_neg hon]
      rw [Bool.not_eq_true] at hon
      obtain ⟨hcase, hcover⟩ := ih
        ⟨(r.store.putTimeline room ev.eventId (chainRecord ev group)).1, r.appended + 1,
          r.firstSeq.or (some (r.store.seq + 1)), some ev.eventId⟩
      have hself : (r.store.putTimeline room ev.eventId (chainRecord ev group)).1.onTimeline
          ev.eventId = true := by
        simp [Store.onTimeline_iff, chainRecord]
      have hother : id ≠ ev.eventId →
          (r.store.putTimeline room ev.eventId (chainRecord ev group)).1.event[id]? =
            r.store.event[id]? := fun hne => by
        simp [OrdMap.getElem?_insert', hne]
      by_cases hid : id = ev.eventId
      · subst hid
        refine ⟨.inr ⟨ev, by simp, rfl, hon, ?_⟩, fun _ => hcover (.inl hself)⟩
        rcases hcase with hsame | ⟨ev', _, _, hoff, _⟩
        · refine ⟨r.store.seq + 1, by omega, hsame.trans ?_⟩
          simp
        · simp [hself] at hoff
      · have hon' : (r.store.putTimeline room ev.eventId (chainRecord ev group)).1.onTimeline id =
            r.store.onTimeline id := by
          simp only [Store.onTimeline, hother hid]
        refine ⟨?_, fun h => hcover ?_⟩
        · rcases hcase with hsame | ⟨ev', hev', heq, hoff, seq, hseq, hrec⟩
          · exact .inl (hsame.trans (hother hid))
          · refine .inr ⟨ev', by simp [hev'], heq, hon' ▸ hoff, seq, ?_, hrec⟩
            simp only [Store.putTimeline_seq] at hseq
            omega
        · rcases h with h | ⟨ev', hev', rfl⟩
          · exact .inl (hon'.trans h)
          · rcases List.mem_cons.1 hev' with rfl | hev'
            · exact absurd rfl hid
            · exact .inr ⟨ev', hev', rfl⟩

theorem historyLoop_event_cases (room : RoomId) (events : List ImportEvent) (r : HistoryRun)
    (id : EventId) :
    let r' := events.foldl (historyStep room) r
    (r'.store.event[id]? = r.store.event[id]? ∨
      (∃ ev ∈ events, ev.eventId = id ∧ r.store.event[id]? = none ∧
        ∃ idx, r'.store.event[id]? = some (historyEvent ev idx)) ∨
      (∃ ev ∈ events, ev.eventId = id ∧ ∃ e idx, r.store.event[id]? = some e ∧ e.visible = false ∧
        r'.store.event[id]? = some { e with historyIdx := some idx })) ∧
    ((r.store.visible id ∨ ∃ ev ∈ events, ev.eventId = id) → r'.store.visible id) := by
  induction events generalizing r with
  | nil => simp
  | cons ev events ih =>
    simp only [List.foldl_cons]
    -- The step leaves other records alone, and makes this one visible.
    have hother : id ≠ ev.eventId → (historyStep room r ev).store.event[id]? = r.store.event[id]? := by
      intro hne
      unfold historyStep indexEvent
      split
      · split
        · rfl
        · simp [OrdMap.getElem?_insert', hne]
      · simp [OrdMap.getElem?_insert', hne]
    obtain ⟨hcase, hcover⟩ := ih (historyStep room r ev)
    by_cases hid : id = ev.eventId
    · subst hid
      have hvis : (historyStep room r ev).store.visible ev.eventId = true := by
        unfold historyStep indexEvent
        split
        · rename_i held hheld
          split
          · rename_i hv
            exact Store.visible_iff.2 ⟨held, hheld, hv⟩
          · simp [Store.visible_iff, StoredEvent.visible]
        · simp [Store.visible_iff, StoredEvent.visible, historyEvent]
      have hfinal : (events.foldl (historyStep room) (historyStep room r ev)).store.event[ev.eventId]? =
          (historyStep room r ev).store.event[ev.eventId]? := by
        obtain ⟨e, he, hev⟩ := Store.visible_iff.1 hvis
        rcases hcase with hsame | ⟨_, _, _, hnone, _⟩ | ⟨_, _, _, e', _, he', hoff, _⟩
        · exact hsame
        · simp [he] at hnone
        · rw [he, Option.some.injEq] at he'
          simp [← he', hev] at hoff
      refine ⟨?_, fun _ => hcover (.inl hvis)⟩
      rw [hfinal]
      unfold historyStep indexEvent
      split
      · rename_i held hheld
        split
        · exact .inl rfl
        · rename_i hoff
          refine .inr (.inr ⟨ev, by simp, rfl, held, r.idx, hheld, by simpa using hoff, ?_⟩)
          simp
      · rename_i hnone
        refine .inr (.inl ⟨ev, by simp, rfl, hnone, r.idx, ?_⟩)
        simp
    · rw [hother hid] at hcase
      refine ⟨?_, fun h => hcover ?_⟩
      · rcases hcase with hsame | ⟨ev', hev', rest⟩ | ⟨ev', hev', rest⟩
        · exact .inl hsame
        · exact .inr (.inl ⟨ev', by simp [hev'], rest⟩)
        · exact .inr (.inr ⟨ev', by simp [hev'], rest⟩)
      · rcases h with h | ⟨ev', hev', rfl⟩
        · refine .inl ?_
          unfold Store.visible
          rw [hother hid]
          exact h
        · rcases List.mem_cons.1 hev' with rfl | hev'
          · exact absurd rfl hid
          · exact .inr ⟨ev', hev', rfl⟩

theorem apply_effect (h : apply engine s cmd = .ok (s', response)) :
    ∃ t, Effect s (plain cmd) t ∧ t.core = s'.core := by
  cases cmd with
  | append cmd =>
    obtain ⟨t, same, answered⟩ := apply_append_answered rfl h
    exact ⟨t, answered.effect, same⟩
  | appendStamped cmd txn =>
    obtain ⟨t, same, answered⟩ := apply_append_answered rfl h
    exact ⟨t, answered.effect, same⟩
  | receipt cmd =>
    simp only [apply, Except.ok.injEq, applyReceipt] at h
    split at h
    · simp only [Prod.mk.injEq] at h
      exact ⟨s, .idle, by rw [h.1]⟩
    · simp only [Prod.mk.injEq] at h
      exact ⟨_, .tick, by rw [← h.1]; rfl⟩
  | importRoom cmd =>
    simp only [apply, Except.ok.injEq, applyImport] at h
    split at h
    · simp only [Prod.mk.injEq] at h
      exact ⟨s, .idle, by rw [h.1]⟩
    · rename_i fresh
      simp only [Prod.mk.injEq] at h
      exact ⟨_, .importRoom (by simpa using fresh), by rw [← h.1]⟩
  | importSegment cmd =>
    simp only [apply, applyImportSegment] at h
    split at h
    · simp at h
    · rename_i roomMeta known
      simp only [Except.ok.injEq, Prod.mk.injEq] at h
      exact ⟨_, .importSegment known, by rw [← h.1]⟩
  | importHistory cmd =>
    simp only [apply, applyImportHistory] at h
    split at h
    · simp at h
    · rename_i roomMeta known
      simp only [Except.ok.injEq, Prod.mk.injEq] at h
      exact ⟨_, .importHistory known, by rw [← h.1]⟩

/-! ## Tables the loops leave alone -/

section Frames

theorem segmentLoop_frame (room : RoomId) (group : Nat) (chain : List ImportEvent)
    (r : SegmentRun) :
    let r' := chain.foldl (segmentEvent room group) r
    r'.store.group = r.store.group ∧ r'.store.room = r.store.room ∧
      r'.store.history = r.store.history ∧ r'.store.redact = r.store.redact := by
  refine List.foldlRecOn (motive := fun r' : SegmentRun => r'.store.group = r.store.group ∧
    r'.store.room = r.store.room ∧ r'.store.history = r.store.history ∧
    r'.store.redact = r.store.redact) chain _ ⟨rfl, rfl, rfl, rfl⟩ fun r' h ev _ => ?_
  unfold segmentEvent
  split
  · exact h
  · exact h

theorem historyLoop_frame (room : RoomId) (events : List ImportEvent) (r : HistoryRun) :
    let r' := events.foldl (historyStep room) r
    r'.store.group = r.store.group ∧ r'.store.room = r.store.room ∧
      r'.store.roomSeq = r.store.roomSeq ∧ r'.store.redact = r.store.redact ∧
      r'.store.seq = r.store.seq := by
  refine List.foldlRecOn (motive := fun r' : HistoryRun => r'.store.group = r.store.group ∧
    r'.store.room = r.store.room ∧ r'.store.roomSeq = r.store.roomSeq ∧
    r'.store.redact = r.store.redact ∧ r'.store.seq = r.store.seq) events _
    ⟨rfl, rfl, rfl, rfl, rfl⟩ fun r' h ev _ => ?_
  unfold historyStep
  split
  · split
    · exact h
    · exact h
  · exact h

theorem segmentRows_frame (s : Store) (m : RoomMeta) (cmd : ImportSegment) :
    (segmentRows s m cmd).store.group =
        (s.putGroups cmd.roomId [(m.nextGroup, ⟨none, 0, cmd.state⟩)]).group ∧
      (segmentRows s m cmd).store.room = s.room ∧
      (segmentRows s m cmd).store.history = s.history ∧
      (segmentRows s m cmd).store.redact = s.redact :=
  segmentLoop_frame cmd.roomId m.nextGroup cmd.timeline
    ⟨(s.putSupport cmd.events).putGroups cmd.roomId [(m.nextGroup, ⟨none, 0, cmd.state⟩)], 0, none, none⟩

theorem historyRows_frame (s : Store) (m : RoomMeta) (cmd : ImportHistory) :
    (historyRows s m cmd).store.group = s.group ∧ (historyRows s m cmd).store.room = s.room ∧
      (historyRows s m cmd).store.roomSeq = s.roomSeq ∧
      (historyRows s m cmd).store.redact = s.redact ∧ (historyRows s m cmd).store.seq = s.seq :=
  historyLoop_frame cmd.roomId cmd.events ⟨s, m.nextHistoryIdx, ∅, [], 0⟩

variable {s : Store} {cmd : AppendEvent} {rejected : Rejected}

theorem applyRejected_event : (applyRejected s cmd rejected).event =
    s.event.insert cmd.eventId (rejectedRecord cmd rejected) := by
  unfold applyRejected
  dsimp only
  split
  · rfl
  · split <;> rfl

theorem applyRejected_group : (applyRejected s cmd rejected).group =
    (s.putGroups cmd.roomId cmd.newGroups).group := by
  unfold applyRejected
  dsimp only
  split
  · rfl
  · split <;> rfl

theorem applyRejected_room {roomMeta : RoomMeta}
    (known : s.room[cmd.roomId]? = some roomMeta) (room : RoomId) :
    (applyRejected s cmd rejected).room[room]? =
      if room = cmd.roomId then
        some { roomMeta with nextGroup := max roomMeta.nextGroup cmd.nextGroup }
      else s.room[room]? := by
  unfold applyRejected
  dsimp only [Store.putGroups]
  simp only [known]
  split
  · rename_i h
    rw [Nat.max_eq_right (Nat.le_of_lt h)]
    exact OrdMap.getElem?_insert'
  · rename_i h
    rw [Nat.max_eq_left (Nat.not_lt.1 h)]
    split
    · rename_i hroom
      rw [hroom, known]
    · rfl

theorem applyRejected_unknown (unknown : s.room[cmd.roomId]? = none) :
    (applyRejected s cmd rejected).room = s.room := by
  unfold applyRejected
  dsimp only [Store.putGroups]
  simp only [unknown]

theorem applyRejected_frame (s : Store) (cmd : AppendEvent) (rejected : Rejected) :
    (applyRejected s cmd rejected).roomSeq = s.roomSeq ∧
      (applyRejected s cmd rejected).history = s.history ∧
      (applyRejected s cmd rejected).seq = s.seq ∧
      (applyRejected s cmd rejected).redact = s.redact := by
  unfold applyRejected
  dsimp only
  split
  · exact ⟨rfl, rfl, rfl, rfl⟩
  · split <;> exact ⟨rfl, rfl, rfl, rfl⟩

structure Appended (s : Store) (cmd : AppendEvent) (s' : Store) : Prop where
  event : s'.event = s.event.insert cmd.eventId (acceptedRecord cmd (s.seq + 1))
  roomSeq : s'.roomSeq = s.roomSeq.insert (cmd.roomId, s.seq + 1) cmd.eventId
  seq : s'.seq = s.seq + 1
  history : s'.history = s.history
  group : s'.group = (s.putGroups cmd.roomId cmd.newGroups).group
  room : ∃ roomMeta, acceptedMeta s cmd = .ok roomMeta ∧ s'.room = s.room.insert cmd.roomId roomMeta
  redact : s'.redact = redactTable s cmd

theorem applyAccepted_spec {s' : Store} {seq : Nat} (h : applyAccepted s cmd = .ok (s', seq)) :
    Appended s cmd s' := by
  unfold applyAccepted at h
  obtain ⟨roomMeta, hmeta, h⟩ := bind_eq_ok.1 h
  simp only [pure_eq_ok, Prod.mk.injEq] at h
  obtain ⟨rfl, -⟩ := h
  exact ⟨rfl, rfl, rfl, rfl, rfl, ⟨roomMeta, hmeta, rfl⟩, rfl⟩

end Frames

/-! ## Appends -/

theorem apply_append_cases {a : AppendEvent} (hplain : plain cmd = .append a)
    (h : apply engine s cmd = .ok (s', response)) (absent : s.event[a.eventId]? = none) :
    ∃ t : Store, t.core = s'.core ∧
      ((∃ rejected, a.rejected = some rejected ∧ t = applyRejected s a rejected) ∨
        (a.rejected = none ∧ ∃ seq, applyAccepted s a = .ok (t, seq))) := by
  obtain ⟨t, same, answered⟩ := apply_append_answered hplain h
  refine ⟨t, same, ?_⟩
  cases answered with
  | duplicate held => simp [absent] at held
  | rejected _ hrejected => exact .inl ⟨_, hrejected, rfl⟩
  | accepted _ hrejected happly => exact .inr ⟨hrejected, _, happly⟩

/-! ## What can happen to one event -/

def supportOf : RoomCommand → List ImportEvent
  | .importRoom cmd => cmd.events
  | .importSegment cmd => cmd.events
  | _ => []

inductive Touched (s : Store) : RoomCommand → EventId → StoredEvent → Prop
  | rejected {cmd : AppendEvent} {rejected : Rejected} (absent : s.event[cmd.eventId]? = none)
      (hrejected : cmd.rejected = some rejected) :
      Touched s (.append cmd) cmd.eventId (rejectedRecord cmd rejected)
  | accepted {cmd : AppendEvent} (absent : s.event[cmd.eventId]? = none)
      (hrejected : cmd.rejected = none) :
      Touched s (.append cmd) cmd.eventId (acceptedRecord cmd (s.seq + 1))
  | support {cmd : RoomCommand} {ev : ImportEvent} (listed : ev ∈ supportOf cmd)
      (absent : s.event[ev.eventId]? = none) : Touched s cmd ev.eventId (Store.supportEvent ev)
  | joined {cmd : ImportRoom} :
      Touched s (.importRoom cmd) cmd.joinEventId (joinRecord cmd (importGroup s cmd) (s.seq + 1))
  | chained {cmd : ImportSegment} {ev : ImportEvent} {group seq : Nat}
      (listed : ev ∈ cmd.timeline) (off : s.onTimeline ev.eventId = false) (later : s.seq < seq) :
      Touched s (.importSegment cmd) ev.eventId (chainRecord ev group seq)
  | indexed {cmd : ImportHistory} {ev : ImportEvent} {idx : Nat} (listed : ev ∈ cmd.events)
      (absent : s.event[ev.eventId]? = none) :
      Touched s (.importHistory cmd) ev.eventId (historyEvent ev idx)
  | reindexed {cmd : ImportHistory} {ev : ImportEvent} {e : StoredEvent} {idx : Nat}
      (listed : ev ∈ cmd.events) (held : s.event[ev.eventId]? = some e) (off : e.visible = false) :
      Touched s (.importHistory cmd) ev.eventId { e with historyIdx := some idx }

theorem onTimeline_putSupport (s : Store) (events : List ImportEvent) (id : EventId) :
    (s.putSupport events).onTimeline id = s.onTimeline id := by
  unfold Store.onTimeline
  rcases (s.putSupport_event_cases events id).1 with ⟨hnone, ev, _, _, hrec⟩ | hsame
  · rw [hnone, hrec]
    rfl
  · rw [hsame]

theorem Effect.event_cases {s t : Store} (h : Effect s cmd t) (id : EventId) :
    t.event[id]? = s.event[id]? ∨ ∃ e, t.event[id]? = some e ∧ Touched s cmd id e := by
  cases h with
  | idle => exact .inl rfl
  | tick => exact .inl rfl
  | @rejected cmd rejected absent hrejected =>
    rw [applyRejected_event, OrdMap.getElem?_insert']
    split
    · rename_i hid
      subst hid
      exact .inr ⟨_, rfl, .rejected absent hrejected⟩
    · exact .inl rfl
  | @accepted cmd s' seq absent hrejected happly =>
    rw [(applyAccepted_spec happly).event, OrdMap.getElem?_insert']
    split
    · rename_i hid
      subst hid
      exact .inr ⟨_, rfl, .accepted absent hrejected⟩
    · exact .inl rfl
  | @importRoom cmd fresh =>
    change ((s.putSupport cmd.events).event.insert cmd.joinEventId _)[id]? = _ ∨ _
    rw [OrdMap.getElem?_insert']
    split
    · rename_i hid
      subst hid
      refine .inr ⟨joinRecord cmd (importGroup s cmd) (s.seq + 1), ?_, .joined⟩
      change ((s.putSupport cmd.events).event.insert cmd.joinEventId _)[cmd.joinEventId]? = _
      rw [OrdMap.getElem?_insert', if_pos rfl]
      rfl
    · rename_i hid
      rcases (s.putSupport_event_cases cmd.events id).1 with ⟨hnone, ev, hev, rfl, hrec⟩ | hsame
      · refine .inr ⟨_, ?_, .support (show ev ∈ supportOf (.importRoom cmd) from hev) hnone⟩
        change ((s.putSupport cmd.events).event.insert cmd.joinEventId _)[ev.eventId]? = _
        rw [OrdMap.getElem?_insert', if_neg hid, hrec]
      · exact .inl hsame
  | @importSegment cmd roomMeta known =>
    obtain ⟨hcase, -⟩ := segmentLoop_event_cases cmd.roomId roomMeta.nextGroup cmd.timeline
      ⟨(s.putSupport cmd.events).putGroups cmd.roomId
        [(roomMeta.nextGroup, ⟨none, 0, cmd.state⟩)], 0, none, none⟩ id
    rcases hcase with hsame | ⟨ev, hev, rfl, hoff, seq, hseq, hrec⟩
    · rcases (s.putSupport_event_cases cmd.events id).1 with ⟨hnone, ev, hev, rfl, hrec⟩ | hsame'
      · exact .inr ⟨_, hsame.trans hrec, .support (show ev ∈ supportOf (.importSegment cmd) from hev)
          hnone⟩
      · exact .inl (hsame.trans hsame')
    · refine .inr ⟨_, hrec, .chained hev ?_ hseq⟩
      rw [← onTimeline_putSupport s cmd.events]
      exact hoff
  | @importHistory cmd roomMeta known =>
    obtain ⟨hcase, -⟩ := historyLoop_event_cases cmd.roomId cmd.events
      ⟨s, roomMeta.nextHistoryIdx, ∅, [], 0⟩ id
    rcases hcase with hsame | ⟨ev, hev, rfl, hnone, idx, hrec⟩ |
      ⟨ev, hev, rfl, e, idx, he, hoff, hrec⟩
    · exact .inl hsame
    · exact .inr ⟨_, hrec, .indexed hev hnone⟩
    · exact .inr ⟨_, hrec, .reindexed hev he hoff⟩

end Machine

end Saltator.Room
