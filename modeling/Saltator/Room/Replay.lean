import Saltator.Room.MachineSpec
import Saltator.Shard.Apps

/-!
# Replaying the change stream

Remote subscribers that join late are served from `T_SEQ`: every record that a command publishes has
a row there, written in the same apply, and `RoomApp.replay` rebuilds the record from the row. The
journal invariant says that the rows and the published records agree, with no number left out, and
one lemma for each command carries it along.
-/

namespace Saltator.Room

open Std
open Saltator.Outcome

/-- The record that a row was published as. -/
def SeqEntry.payload : SeqEntry → ChangePayload
  | .event roomId eventId => .event roomId eventId
  | .receipt roomId _ _ _ _ => .receipt roomId

def encodeRecords (encode : ChangePayload → Shard.Bytes) (records : List (Nat × ChangePayload)) :
    List (Nat × Shard.Bytes) :=
  records.map fun r => (r.1, encode r.2)

/-- Rebuild up to `limit` records behind `fromSeq`, which is a 64-bit number. -/
def RoomApp.replay (encode : ChangePayload → Shard.Bytes) (s : Store) (fromSeq limit : Nat) :
    List (Nat × Shard.Bytes) :=
  let start := (fromSeq + 1) % 2 ^ 64
  ((s.timeline.rows fun seq => start ≤ seq).take limit).map fun r => (r.1, encode r.2.payload)

/-! ## The journal invariant -/

structure Journal (s : Store) : Prop where
  rows : s.timeline.toList.map (fun r => (r.1, r.2.payload)) = s.emits
  numbered : s.emits.map Prod.fst = List.range' 1 s.seq

namespace Journal

variable {s t : Store}

theorem empty : Journal .empty := ⟨rfl, rfl⟩

theorem congr (h : Journal s) (timeline : t.timeline = s.timeline) (emits : t.emits = s.emits)
    (seq : t.seq = s.seq) : Journal t := by
  constructor
  · rw [timeline, emits]
    exact h.rows
  · rw [emits, seq]
    exact h.numbered

theorem keys (h : Journal s) : s.timeline.toList.map Prod.fst = List.range' 1 s.seq := by
  rw [← h.numbered, ← h.rows, List.map_map]
  rfl

theorem mem_le (h : Journal s) {seq : Nat} (mem : seq ∈ s.timeline) : seq ≤ s.seq := by
  obtain ⟨entry, found⟩ := OrdMap.mem_iff_getElem?.1 mem
  have listed : seq ∈ s.timeline.toList.map Prod.fst :=
    List.mem_map.2 ⟨(seq, entry), OrdMap.mem_toList.2 found, rfl⟩
  rw [h.keys, List.mem_range'_1] at listed
  omega

theorem record (h : Journal s) (entry : SeqEntry)
    (timeline : t.timeline = s.timeline.insert (s.seq + 1) entry)
    (emits : t.emits = s.emits ++ [(s.seq + 1, entry.payload)]) (seq : t.seq = s.seq + 1) :
    Journal t := by
  have last : ∀ k ∈ s.timeline, compare k (s.seq + 1) = .lt := by
    intro k mem
    exact Nat.compare_eq_lt.2 (Nat.lt_succ_of_le (h.mem_le mem))
  constructor
  · rw [timeline, emits, OrdMap.toList_insert_last last, List.map_append, h.rows]
    rfl
  · rw [emits, seq, List.map_append, h.numbered, List.range'_concat]
    simp [Nat.add_comm]

end Journal

/-- What is kept where nothing is published, and where one record is published together with its
row. -/
structure Published (I : Store → Prop) : Prop where
  congr : ∀ {s t : Store}, I s → t.timeline = s.timeline → t.emits = s.emits → t.seq = s.seq → I t
  record : ∀ {s t : Store} (entry : SeqEntry), I s →
    t.timeline = s.timeline.insert (s.seq + 1) entry →
    t.emits = s.emits ++ [(s.seq + 1, entry.payload)] → t.seq = s.seq + 1 → I t

/-- The same, where a row of a room's order may be looked at as well: an event that is published gets
one. -/
structure Enrolled (I : Store → Prop) : Prop where
  congr : ∀ {s t : Store}, I s → t.timeline = s.timeline → t.emits = s.emits → t.seq = s.seq →
    t.roomSeq = s.roomSeq → I t
  event : ∀ {s t : Store} (room : RoomId) (id : EventId), I s →
    t.timeline = s.timeline.insert (s.seq + 1) (.event room id) →
    t.emits = s.emits ++ [(s.seq + 1, (SeqEntry.event room id).payload)] → t.seq = s.seq + 1 →
    t.roomSeq = s.roomSeq.insert (room, s.seq + 1) id → I t
  other : ∀ {s t : Store} (entry : SeqEntry), (∀ room id, entry ≠ .event room id) → I s →
    t.timeline = s.timeline.insert (s.seq + 1) entry →
    t.emits = s.emits ++ [(s.seq + 1, entry.payload)] → t.seq = s.seq + 1 →
    t.roomSeq = s.roomSeq → I t

theorem Published.enrolled {I : Store → Prop} (law : Published I) : Enrolled I where
  congr h timeline emits seq _ := law.congr h timeline emits seq
  event room id h timeline emits seq _ := law.record (.event room id) h timeline emits seq
  other entry _ h timeline emits seq _ := law.record entry h timeline emits seq

theorem Journal.published : Published Journal where
  congr := Journal.congr
  record entry h := h.record entry

/-! ## One lemma for each command -/

namespace Machine

section Enrolled

variable {I : Store → Prop} (law : Enrolled I) {s t : Store} {response : RoomResponse} {cmd : AppendEvent}

include law

theorem putTimeline_enrolled (h : I s) (room : RoomId) (id : EventId) (stored : Nat → StoredEvent) :
    I (s.putTimeline room id stored).1 :=
  law.event room id h rfl rfl rfl rfl

theorem applyReceipt_enrolled (h : I s) (cmd : ReceiptCmd) : I (applyReceipt s cmd).1 := by
  unfold applyReceipt
  dsimp only
  split
  · exact h
  · exact law.other (.receipt cmd.roomId cmd.userId cmd.receiptType cmd.eventId cmd.ts)
      (fun _ _ => SeqEntry.noConfusion) h rfl rfl rfl rfl

theorem applyRejected_enrolled (h : I s) (cmd : AppendEvent) (rejected : Rejected) :
    I (applyRejected s cmd rejected) := by
  unfold applyRejected
  dsimp only
  split
  · exact law.congr h rfl rfl rfl rfl
  · split <;> exact law.congr h rfl rfl rfl rfl

theorem applyAccepted_enrolled {seq : Nat} (h : I s)
    (applied : applyAccepted s cmd = .ok (t, seq)) : I t := by
  obtain ⟨roomMeta, -, applied⟩ := bind_eq_ok.1 applied
  obtain ⟨rfl, -⟩ := ok_pair applied
  exact law.congr (putTimeline_enrolled law h cmd.roomId cmd.eventId (acceptedRecord cmd)) rfl rfl rfl rfl

theorem applyAppend_enrolled (h : I s) (applied : applyAppend s cmd = .ok (t, response)) : I t := by
  cases applyAppend_answered applied with
  | duplicate => exact h
  | rejected => exact applyRejected_enrolled law h cmd _
  | accepted _ _ accepted => exact applyAccepted_enrolled law h accepted

theorem putTxn_enrolled (h : I s) (engine : Store) (txn : TxnStamp) (id : EventId) :
    I (putTxn engine s txn id) := by
  unfold putTxn
  refine List.foldlRecOn _ _ (law.congr h rfl rfl rfl rfl) fun t ht entry _ => ?_
  unfold dropTxn
  dsimp only
  split <;> exact law.congr ht rfl rfl rfl rfl

theorem applyImport_enrolled (h : I s) (cmd : ImportRoom) : I (applyImport s cmd).1 := by
  unfold applyImport
  split
  · exact h
  · have support : I ((s.putSupport cmd.events).putGroups cmd.roomId
        [(importGroup s cmd, ⟨none, 0, cmd.state⟩)]) := law.congr h rfl rfl rfl rfl
    exact law.congr (putTimeline_enrolled law support cmd.roomId cmd.joinEventId
      (joinRecord cmd (importGroup s cmd))) rfl rfl rfl rfl

theorem segmentLoop_enrolled {r : SegmentRun} (h : I r.store) (room : RoomId) (group : Nat)
    (chain : List ImportEvent) : I (chain.foldl (segmentEvent room group) r).store := by
  induction chain generalizing r with
  | nil => exact h
  | cons ev chain ih =>
    refine ih ?_
    unfold segmentEvent
    split
    · exact h
    · exact putTimeline_enrolled law h room ev.eventId (chainRecord ev group)

theorem applyImportSegment_enrolled {cmd : ImportSegment} (h : I s)
    (applied : applyImportSegment s cmd = .ok (t, response)) : I t := by
  unfold applyImportSegment at applied
  split at applied
  · cases applied
  · rename_i roomMeta known
    obtain ⟨rfl, -⟩ := ok_pair applied
    have support : I ((s.putSupport cmd.events).putGroups cmd.roomId
        [(roomMeta.nextGroup, ⟨none, 0, cmd.state⟩)]) := law.congr h rfl rfl rfl rfl
    exact law.congr (segmentLoop_enrolled law (r := ⟨_, 0, none, none⟩) support cmd.roomId
      roomMeta.nextGroup cmd.timeline) rfl rfl rfl rfl

theorem historyLoop_enrolled {r : HistoryRun} (h : I r.store) (room : RoomId)
    (events : List ImportEvent) : I (events.foldl (historyStep room) r).store := by
  induction events generalizing r with
  | nil => exact h
  | cons ev events ih =>
    refine ih ?_
    unfold historyStep
    split
    · split
      · exact h
      · exact law.congr h rfl rfl rfl rfl
    · exact law.congr h rfl rfl rfl rfl

theorem applyImportHistory_enrolled {cmd : ImportHistory} (h : I s)
    (applied : applyImportHistory s cmd = .ok (t, response)) : I t := by
  unfold applyImportHistory at applied
  split at applied
  · cases applied
  · rename_i roomMeta known
    obtain ⟨rfl, -⟩ := ok_pair applied
    exact law.congr (historyLoop_enrolled law (r := ⟨s, roomMeta.nextHistoryIdx, ∅, [], 0⟩) h
      cmd.roomId cmd.events) rfl rfl rfl rfl

theorem apply_enrolled {engine : Store} {cmd : RoomCommand} (h : I s)
    (applied : apply engine s cmd = .ok (t, response)) : I t := by
  cases cmd with
  | append cmd => exact applyAppend_enrolled law h applied
  | receipt cmd =>
    obtain ⟨rfl, -⟩ := ok_pair applied
    exact applyReceipt_enrolled law h cmd
  | importRoom cmd =>
    obtain ⟨rfl, -⟩ := ok_pair applied
    exact applyImport_enrolled law h cmd
  | importHistory cmd => exact applyImportHistory_enrolled law h applied
  | importSegment cmd => exact applyImportSegment_enrolled law h applied
  | appendStamped cmd txn =>
    obtain ⟨⟨u, answer⟩, append, applied⟩ := bind_eq_ok.1 applied
    have kept : I u := applyAppend_enrolled law h append
    dsimp only at applied
    split at applied
    · obtain ⟨rfl, -⟩ := ok_pair applied
      exact putTxn_enrolled law kept engine txn _
    · obtain ⟨rfl, -⟩ := ok_pair applied
      exact kept

end Enrolled

theorem apply_journal {s engine t : Store} {cmd : RoomCommand} {response : RoomResponse}
    (h : Journal s) (applied : apply engine s cmd = .ok (t, response)) : Journal t :=
  apply_enrolled Journal.published.enrolled h applied

end Machine

/-- The rows up to a number stay, and the next ones are numbered behind it. -/
structure Extends (s t : Store) : Prop where
  journal : Journal t
  seq : s.seq ≤ t.seq
  rows : ∀ n ≤ s.seq, t.timeline[n]? = s.timeline[n]?

theorem Extends.refl {s : Store} (h : Journal s) : Extends s s :=
  ⟨h, le_rfl, fun _ _ => rfl⟩

theorem Extends.published (s : Store) : Published (Extends s) where
  congr h timeline emits seq := by
    refine ⟨h.journal.congr timeline emits seq, h.seq.trans seq.ge, fun n upto => ?_⟩
    rw [timeline]
    exact h.rows n upto
  record entry h timeline emits seq := by
    refine ⟨h.journal.record entry timeline emits seq, h.seq.trans (seq ▸ Nat.le_succ _), ?_⟩
    intro n upto
    rw [timeline, OrdMap.getElem?_insert', if_neg (by have := h.seq; omega)]
    exact h.rows n upto

theorem Machine.apply_extends {s engine t : Store} {cmd : RoomCommand} {response : RoomResponse}
    (h : Journal s) (applied : apply engine s cmd = .ok (t, response)) : Extends s t :=
  apply_enrolled (Extends.published s).enrolled (.refl h) applied

theorem migrate_journal {s t : Store} {target : Nat} (h : Journal s)
    (migrated : migrate s target = .ok t) : Journal t := by
  unfold migrate at migrated
  split at migrated
  · obtain rfl := Except.ok.inj migrated
    exact h
  · cases migrated

theorem applyLog_journal {s t : Shard.State RoomApp} {batches : List (List (Shard.Entry RoomCommand))}
    {responses : List (Shard.EntryResponse RoomResponse)} (h : Journal s.app)
    (applied : Shard.applyLog RoomApp s batches = .ok (t, responses)) : Journal t.app := by
  have entry : ∀ (e u v : Shard.State RoomApp) (entry : Shard.Entry RoomCommand)
      (r : Shard.EntryResponse RoomResponse), Journal u.app →
      Shard.applyEntry RoomApp e u entry = .ok (v, r) → Journal v.app := by
    intro e u v entry r journal step
    cases Shard.applyEntry_reaches step with
    | idle same => exact same ▸ journal
    | command _ applied => exact Machine.apply_journal journal applied
    | migration _ _ _ migrated => exact migrate_journal journal migrated
  have run : Batch.Runs (Shard.applyEntry RoomApp) (fun _ _ _ => True) s t :=
    .of_applyAll applied fun _ _ _ _ => trivial
  exact run.invariant (I := fun _ u : Shard.State RoomApp => Journal u.app) (fun _ _ kept => kept)
    (fun e u c v r kept _ step => entry e u v c r kept step) h

/-! ## Replay -/

namespace Journal

variable {s : Store}

theorem filter_rows (h : Journal s) (p : Nat → Bool) :
    (s.timeline.rows p).map (fun r => (r.1, r.2.payload)) = s.emits.filter fun r => p r.1 := by
  rw [← h.rows, OrdMap.rows, List.filter_map]
  rfl

theorem filter_numbers (h : Journal s) (n : Nat) :
    (s.emits.filter fun r => n < r.1).map Prod.fst = List.range' (n + 1) (s.seq - n) := by
  have behind : ∀ m, (List.range' 1 m).filter (fun seq => n < seq) = List.range' (n + 1) (m - n) := by
    intro m
    induction m with
    | zero => simp
    | succ m ih =>
      rw [List.range'_concat, List.filter_append, ih, List.filter_singleton]
      by_cases reached : n ≤ m
      · have taken : decide (n < 1 + 1 * m) = true := decide_eq_true (by omega)
        have last : 1 + 1 * m = n + 1 + 1 * (m - n) := by omega
        rw [Nat.succ_sub reached, List.range'_concat, taken, last]
        rfl
      · have dropped : decide (n < 1 + 1 * m) = false := decide_eq_false (by omega)
        rw [dropped, Nat.sub_eq_zero_of_le (by omega), Nat.sub_eq_zero_of_le (by omega)]
        rfl
  rw [← behind, ← h.numbered, List.filter_map]
  rfl

theorem replay_eq (h : Journal s) (encode : ChangePayload → Shard.Bytes) {fromSeq : Nat}
    (fits : fromSeq + 1 < 2 ^ 64) (limit : Nat) : RoomApp.replay encode s fromSeq limit =
      encodeRecords encode ((s.emits.filter fun r => fromSeq < r.1).take limit) := by
  unfold RoomApp.replay encodeRecords
  rw [← h.filter_rows fun seq => fromSeq < seq, Nat.mod_eq_of_lt fits, List.map_take, List.map_take,
    List.map_map]
  rfl

theorem replay_numbers (h : Journal s) (encode : ChangePayload → Shard.Bytes) {fromSeq : Nat}
    (fits : fromSeq + 1 < 2 ^ 64) (limit : Nat) :
    (RoomApp.replay encode s fromSeq limit).map Prod.fst =
      List.range' (fromSeq + 1) (min limit (s.seq - fromSeq)) := by
  rw [h.replay_eq encode fits limit, encodeRecords, List.map_map]
  change List.map Prod.fst _ = _
  rw [List.map_take, h.filter_numbers]
  rcases Nat.le_total limit (s.seq - fromSeq) with short | long
  · rw [Nat.min_eq_left short, List.take_range'_of_length_ge short]
  · rw [Nat.min_eq_right long, List.take_range'_of_length_le long]

end Journal

/-- **Replay is the live stream.** After any log, cut into batches in any way, the published records
are numbered from one without a gap, and replaying behind a position gives, byte for byte and in
order, the records that were published behind it. -/
theorem replay_eq_published (encode : ChangePayload → Shard.Bytes) {t : Shard.State RoomApp}
    {batches : List (List (Shard.Entry RoomCommand))}
    {responses : List (Shard.EntryResponse RoomResponse)}
    (applied : Shard.applyLog RoomApp (.fresh .empty) batches = .ok (t, responses)) {fromSeq : Nat}
    (fits : fromSeq + 1 < 2 ^ 64) (limit : Nat) :
    t.app.emits.map Prod.fst = List.range' 1 t.app.seq ∧
    RoomApp.replay encode t.app fromSeq limit =
      encodeRecords encode ((t.app.emits.filter fun r => fromSeq < r.1).take limit) ∧
    (RoomApp.replay encode t.app fromSeq limit).map Prod.fst =
      List.range' (fromSeq + 1) (min limit (t.app.seq - fromSeq)) := by
  have h : Journal t.app := applyLog_journal Journal.empty applied
  exact ⟨h.numbered, h.replay_eq encode fits limit, h.replay_numbers encode fits limit⟩

def sampleReceipts : List (List (Shard.Entry RoomCommand)) :=
  [[⟨⟨1, 1, 1⟩, .normal (.receipt ⟨"!r:y", "@a:x", "m.read", "$1", none, 1⟩)⟩,
    ⟨⟨1, 1, 2⟩, .normal (.receipt ⟨"!r:y", "@a:x", "m.read", "$2", none, 2⟩)⟩]]

theorem sampleReceipts_applied : ∃ t responses,
    Shard.applyLog RoomApp (.fresh .empty) sampleReceipts = .ok (t, responses) ∧
      t.app.emits = [(1, .receipt "!r:y"), (2, .receipt "!r:y")] := by
  have run : (Shard.applyLog RoomApp (.fresh .empty) sampleReceipts).toOption.any
      (fun x => x.1.app.emits = [(1, .receipt "!r:y"), (2, .receipt "!r:y")]) = true := by
    decide +kernel
  obtain ⟨⟨t, responses⟩, ok, published⟩ := (Option.any_eq_true _ _).1 run
  exact ⟨t, responses, toOption_eq_some.1 ok, of_decide_eq_true published⟩

theorem replay_eq_published_receipts : ∃ t responses,
    Shard.applyLog RoomApp (.fresh .empty) sampleReceipts = .ok (t, responses) ∧
      RoomApp.replay (fun _ => [0]) t.app 1 10 = [(2, [0])] := by
  obtain ⟨t, responses, applied, published⟩ := sampleReceipts_applied
  have behind := (replay_eq_published (fun _ => [0]) applied (show 1 + 1 < 2 ^ 64 by decide) 10).2.1
  rw [published] at behind
  exact ⟨t, responses, applied, behind⟩

/-- Replay starts behind the position it is given: the record at that position is left out. -/
theorem replay_without_start : ∃ t responses,
    Shard.applyLog RoomApp (.fresh .empty) sampleReceipts = .ok (t, responses) ∧
      RoomApp.replay (fun _ => [0]) t.app 1 10 ≠
        encodeRecords (fun _ => [0]) (t.app.emits.filter fun r => 1 ≤ r.1) := by
  have run : (Shard.applyLog RoomApp (.fresh .empty) sampleReceipts).toOption.any
      (fun x => RoomApp.replay (fun _ => [0]) x.1.app 1 10 ≠
        encodeRecords (fun _ => [0]) (x.1.app.emits.filter fun r => 1 ≤ r.1)) = true := by
    decide +kernel
  obtain ⟨⟨t, responses⟩, ok, differs⟩ := (Option.any_eq_true _ _).1 run
  exact ⟨t, responses, toOption_eq_some.1 ok, of_decide_eq_true differs⟩

end Saltator.Room
