import Saltator.FedOut.Interpreter
import Saltator.Shard.StorageSpec

/-!
# Snapshots of a machine that keeps applying

The builder of a snapshot runs on a clone of the state machine, over the same engine: it reads the
position, the membership, the counter and the rows one after the other, and batches are applied in
between. A replica that installs the snapshot replays the log from the position on. When the rows or
the counter have moved on before they are read, the replay applies entries a second time.
-/

namespace Saltator.Shard.Storage

open Saltator.Outcome

/-- How far the builder has come. -/
inductive Building where
  | idle
  | positioned (lastApplied : Option LogId)
  | membered (lastApplied : Option LogId) (membership : StoredMembership)
  | counted (lastApplied : Option LogId) (membership : StoredMembership) (seq : Nat)
  | collected (content : SnapshotContent)
  | numbered (content : SnapshotContent) (data : Bytes) (snapSeq : Nat)
  | built (snapshot : Snapshot)

/-- A replica of a shard, with the batches that it has applied. -/
structure Replica where
  engine : Engine
  log : List (List Entry)
  building : Building

def Replica.fresh : Replica := ⟨∅, [], .idle⟩

def InOrder (log : List (List Entry)) : Prop :=
  log.flatten.Pairwise fun a b => a.logId.index < b.logId.index

instance (log : List (List Entry)) : Decidable (InOrder log) :=
  inferInstanceAs (Decidable (List.Pairwise _ _))

/-- One step of the state machine or of its builder. -/
inductive Act where
  | apply (batch : List Entry)
  | readLastApplied
  | readMembership
  | readSeq
  | readRows
  | number
  | store

section Steps

variable (fmt : Format) (app : Interpreter) (shard : ShardId)

def Replica.step (r : Replica) : Act → Option Replica
  | .apply batch =>
    if InOrder (r.log ++ [batch]) then
      (apply fmt app shard r.engine batch).toOption.map fun applied =>
        { r with engine := applied.engine, log := r.log ++ [batch] }
    else none
  | .readLastApplied =>
    match r.building with
    | .idle | .built _ =>
      (lastApplied fmt shard r.engine).toOption.map fun l => { r with building := .positioned l }
    | _ => none
  | .readMembership =>
    match r.building with
    | .positioned l =>
      (membership fmt shard r.engine).toOption.map fun m => { r with building := .membered l m }
    | _ => none
  | .readSeq =>
    match r.building with
    | .membered l m =>
      (seq fmt shard r.engine).toOption.map fun n => { r with building := .counted l m n }
    | _ => none
  | .readRows =>
    match r.building with
    | .counted l m n => some { r with building := .collected ⟨l, m, n, appRows shard r.engine⟩ }
    | _ => none
  | .number =>
    match r.building with
    | .collected content => do
      let data ← (encode fmt fmt.snapshotContent content).toOption
      (nextSnapshotSeq fmt shard r.engine).toOption.map fun (snapSeq, e) =>
        { r with engine := e, building := .numbered content data snapSeq }
    | _ => none
  | .store =>
    match r.building with
    | .numbered content data snapSeq =>
      (storeNumbered fmt shard r.engine content data snapSeq).toOption.map fun (snapshot, e) =>
        { r with engine := e, building := .built snapshot }
    | _ => none

/-- A batch is quiet if the builder loses nothing by it: between the reads of the position and of the
rows it leaves the rows as they are, and the counter too until that is read. -/
def Quiet (r : Replica) : Act → Prop
  | .apply batch =>
    match r.building with
    | .positioned _ | .membered _ _ =>
      ∀ applied, apply fmt app shard r.engine batch = .ok applied → Alike fmt shard r.engine applied.engine
    | .counted _ _ _ =>
      ∀ applied, apply fmt app shard r.engine batch = .ok applied → SameRows shard r.engine applied.engine
    | _ => True
  | _ => True

inductive Reached : Replica → Prop
  | fresh : Reached .fresh
  | step {r r' : Replica} {act : Act} (before : Reached r) (quiet : Quiet fmt app shard r act)
      (moved : r.step fmt app shard act = some r') : Reached r'

end Steps

/-! ## The log after a position -/

def after (last : Option LogId) (entry : Entry) : Bool :=
  last.all fun l => l.index < entry.logId.index

def logUpTo (last : Option LogId) (log : List (List Entry)) : List (List Entry) :=
  log.map (·.filter fun entry => !after last entry)

def logAfter (last : Option LogId) (log : List (List Entry)) : List (List Entry) :=
  log.map (·.filter (after last))

def position (log : List (List Entry)) : Option LogId := log.flatten.getLast?.map Entry.logId

section Positions

variable {before rest : List (List Entry)} {batch : List Entry}

theorem position_concat :
    position (before ++ [batch]) = (batch.getLast?.map Entry.logId).or (position before) := by
  rw [position, position, List.flatten_append, List.flatten_singleton, List.getLast?_append]
  cases batch.getLast? <;> rfl

theorem not_after_position (order : InOrder before) :
    ∀ entry ∈ before.flatten, after (position before) entry = false := by
  intro entry mem
  have nonempty : before.flatten ≠ [] := List.ne_nil_of_mem mem
  have : Std.Refl fun a b : Entry => a.logId.index ≤ b.logId.index := ⟨fun _ => le_rfl⟩
  have ordered : before.flatten.Pairwise fun a b => a.logId.index ≤ b.logId.index :=
    order.imp le_of_lt
  have last := ordered.rel_getLast mem
  simp [position, List.getLast?_eq_some_getLast nonempty, after, last]

theorem after_position (order : InOrder (before ++ rest)) :
    ∀ entry ∈ rest.flatten, after (position before) entry = true := by
  intro entry mem
  rw [InOrder, List.flatten_append, List.pairwise_append] at order
  cases last : before.flatten.getLast? with
  | none => simp [position, last, after]
  | some l =>
    have := order.2.2 l (List.mem_of_getLast? last) entry mem
    simp [position, last, after, this]

theorem logUpTo_append (order : InOrder (before ++ rest)) :
    logUpTo (position before) (before ++ rest) = before ++ rest.map fun _ => [] := by
  have order' : InOrder before := by
    rw [InOrder, List.flatten_append] at order
    exact (List.pairwise_append.1 order).1
  rw [logUpTo, List.map_append]
  congr 1
  · refine (List.map_congr_left fun batch mem => List.filter_eq_self.2 fun entry held => ?_).trans
      (List.map_id _)
    rw [not_after_position order' entry (List.mem_flatten_of_mem mem held)]
    rfl
  · refine List.map_congr_left fun batch mem => List.filter_eq_nil_iff.2 fun entry held => ?_
    rw [after_position order entry (List.mem_flatten_of_mem mem held)]
    simp

theorem logAfter_append (order : InOrder (before ++ rest)) :
    logAfter (position before) (before ++ rest) = (before.map fun _ => []) ++ rest := by
  have order' : InOrder before := by
    rw [InOrder, List.flatten_append] at order
    exact (List.pairwise_append.1 order).1
  rw [logAfter, List.map_append]
  congr 1
  · refine List.map_congr_left fun batch mem => List.filter_eq_nil_iff.2 fun entry held => ?_
    rw [not_after_position order' entry (List.mem_flatten_of_mem mem held)]
    simp
  · refine (List.map_congr_left fun batch mem => List.filter_eq_self.2 fun entry held => ?_).trans
      (List.map_id _)
    exact after_position order entry (List.mem_flatten_of_mem mem held)

end Positions

/-- What is installed from a snapshot and then applies the log after its position ends with the rows,
the counter and the history of the whole log. -/
def Reproduces (fmt : Format) (app : Interpreter) (shard : ShardId) (log : List (List Entry))
    (snapshot : Snapshot) : Prop :=
  ∃ replica past told whole,
    installSnapshot fmt shard ∅ snapshot = .ok replica ∧
    applyLog fmt app shard ∅ (logUpTo snapshot.metadata.lastLogId log) = .ok past ∧
    applyLog fmt app shard replica (logAfter snapshot.metadata.lastLogId log) = .ok told ∧
    applyLog fmt app shard ∅ log = .ok whole ∧
    Alike fmt shard whole.engine told.engine ∧
    whole.emits = past.emits ++ told.emits

/-! ## What the builder has read -/

section Reading

variable {fmt : Format} {app : Interpreter} {shard : ShardId} {r r' : Replica} {act : Act}
  {batch : List Entry} {log : List (List Entry)} {building : Building}

/-- Up to the position, the log leaves `past`. -/
def LeavesAt (fmt : Format) (app : Interpreter) (shard : ShardId) (log : List (List Entry))
    (l : Option LogId) (past : Applied) : Prop :=
  ∃ before rest, log = before ++ rest ∧ l = position before ∧ applyLog fmt app shard ∅ before = .ok past

theorem LeavesAt.concat {l : Option LogId} {past : Applied}
    (h : LeavesAt fmt app shard log l past) :
    LeavesAt fmt app shard (log ++ [batch]) l past := by
  obtain ⟨before, rest, rfl, position, applied⟩ := h
  exact ⟨before, rest ++ [batch], List.append_assoc .., position, applied⟩

def Consistent (fmt : Format) (app : Interpreter) (shard : ShardId) (log : List (List Entry))
    (content : SnapshotContent) : Prop :=
  ∃ past, LeavesAt fmt app shard log content.lastApplied past ∧
    content.kv = appRows shard past.engine ∧ seq fmt shard past.engine = .ok content.seq

theorem Consistent.concat {content : SnapshotContent} (h : Consistent fmt app shard log content) :
    Consistent fmt app shard (log ++ [batch]) content := by
  obtain ⟨past, leaves, rows, counter⟩ := h
  exact ⟨past, leaves.concat, rows, counter⟩

/-- What the builder has read so far is what the log up to the position leaves. -/
def Stage (fmt : Format) (app : Interpreter) (shard : ShardId) (r : Replica) : Prop :=
  match r.building with
  | .idle => True
  | .positioned l | .membered l _ => ∃ past, LeavesAt fmt app shard r.log l past ∧
    Alike fmt shard past.engine r.engine
  | .counted l _ n => ∃ past, LeavesAt fmt app shard r.log l past ∧
    SameRows shard past.engine r.engine ∧ seq fmt shard past.engine = .ok n
  | .collected content => Consistent fmt app shard r.log content
  | .numbered content data _ => Consistent fmt app shard r.log content ∧
    fmt.snapshotContent.encode content = some data
  | .built snapshot => ∃ content d, Consistent fmt app shard r.log content ∧
    fmt.snapshotContent.encode content = some snapshot.data ∧
    snapshot.metadata.lastLogId = content.lastApplied ∧
    snapshot.metadata.lastMembership = content.membership ∧
    fmt.storedSnapshot.encode ⟨snapshot.metadata, snapshot.data⟩ = some d

/-- What holds of every replica that quiet steps reach. -/
structure Sound (fmt : Format) (app : Interpreter) (shard : ShardId) (r : Replica) : Prop where
  order : InOrder r.log
  applied : ∃ whole, applyLog fmt app shard ∅ r.log = .ok whole ∧ Alike fmt shard whole.engine r.engine
  position : lastApplied fmt shard r.engine = .ok (position r.log)
  stage : Stage fmt app shard r

theorem sound_fresh : Sound fmt app shard .fresh :=
  ⟨List.Pairwise.nil, ⟨⟨∅, [], []⟩, rfl, .refl _⟩, by simp [lastApplied, getSmMeta, Replica.fresh,
    Storage.position, pure, Except.pure, bind, Except.bind], trivial⟩

theorem stage_apply {applied : Applied} (h : Stage fmt app shard r)
    (quiet : Quiet fmt app shard r (.apply batch))
    (ok : apply fmt app shard r.engine batch = .ok applied) :
    Stage fmt app shard { r with engine := applied.engine, log := r.log ++ [batch] } := by
  obtain ⟨engine, log, building⟩ := r
  cases building with
  | idle => trivial
  | positioned l =>
    obtain ⟨past, leaves, alike⟩ := h
    exact ⟨past, leaves.concat, alike.trans (quiet applied ok)⟩
  | membered l m =>
    obtain ⟨past, leaves, alike⟩ := h
    exact ⟨past, leaves.concat, alike.trans (quiet applied ok)⟩
  | counted l m n =>
    obtain ⟨past, leaves, rows, counter⟩ := h
    have kept : SameRows shard engine applied.engine := quiet applied ok
    exact ⟨past, leaves.concat, fun k inside => (rows k inside).trans (kept k inside), counter⟩
  | collected content => exact Consistent.concat h
  | numbered content data snapSeq => exact ⟨h.1.concat, h.2⟩
  | built snapshot =>
    obtain ⟨content, d, consistent, rest⟩ := h
    exact ⟨content, d, consistent.concat, rest⟩

theorem sound_apply (h : Sound fmt app shard r) (quiet : Quiet fmt app shard r (.apply batch))
    (moved : r.step fmt app shard (.apply batch) = some r') : Sound fmt app shard r' := by
  simp only [Replica.step] at moved
  split at moved
  · rename_i order
    obtain ⟨applied, ok, rfl⟩ := Option.map_eq_some_iff.1 moved
    have ok := toOption_eq_some.1 ok
    obtain ⟨whole, log, alike⟩ := h.applied
    obtain ⟨applied', ok', alike', -, -⟩ := apply_agree alike.symm ok
    refine ⟨order, ⟨_, applyLog_append_eq_ok.2 ⟨whole, _, log,
      applyLog_cons_eq_ok.2 ⟨applied', _, ok', rfl, rfl⟩, rfl⟩, alike'.symm⟩, ?_,
      stage_apply h.stage quiet ok⟩
    rw [lastApplied_of_apply h.position ok, position_concat]
  · cases moved

theorem sound_read (h : Sound fmt app shard r)
    (stage : Stage fmt app shard { r with building := building }) :
    Sound fmt app shard { r with building := building } :=
  ⟨h.order, h.applied, h.position, stage⟩

section Cells

variable {e : Engine} {cell cell' v : Bytes}

theorem getSmMeta_insert {α : Type} {c : Codec α} (other : cell' ≠ cell) :
    getSmMeta fmt shard (e.insert (smMetaKey shard cell) v) c cell' = getSmMeta fmt shard e c cell' := by
  have held : (e.insert (smMetaKey shard cell) v)[smMetaKey shard cell']? = e[smMetaKey shard cell']? := by
    rw [OrdMap.getElem?_insert', if_neg (mt smMetaKey_inj.1 other)]
  rw [getSmMeta, getSmMeta, held]

theorem alike_insert (other : kSeq ≠ cell) : Alike fmt shard e (e.insert (smMetaKey shard cell) v) := by
  constructor
  · intro k inside
    rw [OrdMap.getElem?_insert', if_neg]
    rintro rfl
    exact not_inApp_smMetaKey inside
  · rw [seq, seq, getSmMeta_insert other]

end Cells

theorem sound_insert {cell v : Bytes} (h : Sound fmt app shard r)
    (counter : kSeq ≠ cell) (applied : kLastApplied ≠ cell)
    (stage : Stage fmt app shard { r with building := building }) (late : ∀ e : Engine,
      Stage fmt app shard ⟨r.engine, r.log, building⟩ → Stage fmt app shard ⟨e, r.log, building⟩) :
    Sound fmt app shard ⟨r.engine.insert (smMetaKey shard cell) v, r.log, building⟩ := by
  obtain ⟨whole, log, alike⟩ := h.applied
  refine ⟨h.order, ⟨whole, log, alike.trans (alike_insert counter)⟩, ?_, late _ stage⟩
  rw [lastApplied, getSmMeta_insert applied]
  exact h.position

theorem sound_step (h : Sound fmt app shard r) (quiet : Quiet fmt app shard r act)
    (moved : r.step fmt app shard act = some r') : Sound fmt app shard r' := by
  cases act with
  | apply batch => exact sound_apply h quiet moved
  | readLastApplied =>
    have begin : ∀ l, lastApplied fmt shard r.engine = .ok l →
        Sound fmt app shard { r with building := .positioned l } := by
      intro l read
      obtain rfl := ok_unique h.position read
      obtain ⟨whole, log, alike⟩ := h.applied
      exact sound_read h ⟨whole, ⟨r.log, [], (List.append_nil _).symm, rfl, log⟩, alike⟩
    simp only [Replica.step] at moved
    split at moved
    · obtain ⟨l, read, rfl⟩ := Option.map_eq_some_iff.1 moved
      exact begin l (toOption_eq_some.1 read)
    · obtain ⟨l, read, rfl⟩ := Option.map_eq_some_iff.1 moved
      exact begin l (toOption_eq_some.1 read)
    · cases moved
  | readMembership =>
    simp only [Replica.step] at moved
    split at moved
    · rename_i l now
      obtain ⟨m, read, rfl⟩ := Option.map_eq_some_iff.1 moved
      have stage := h.stage
      rw [Stage, now] at stage
      exact sound_read h stage
    · cases moved
  | readSeq =>
    simp only [Replica.step] at moved
    split at moved
    · rename_i l m now
      obtain ⟨n, read, rfl⟩ := Option.map_eq_some_iff.1 moved
      have stage := h.stage
      rw [Stage, now] at stage
      obtain ⟨past, leaves, alike⟩ := stage
      exact sound_read h ⟨past, leaves, alike.rows, alike.counter.trans (toOption_eq_some.1 read)⟩
    · cases moved
  | readRows =>
    simp only [Replica.step] at moved
    split at moved
    · rename_i l m n now
      obtain rfl := Option.some.inj moved
      have stage := h.stage
      rw [Stage, now] at stage
      obtain ⟨past, leaves, rows, counter⟩ := stage
      exact sound_read h ⟨past, leaves, rows.appRows.symm, counter⟩
    · cases moved
  | number =>
    simp only [Replica.step] at moved
    split at moved
    · rename_i content now
      obtain ⟨data, encoded, moved⟩ := Option.bind_eq_some_iff.1 moved
      obtain ⟨⟨snapSeq, e⟩, numbered, rfl⟩ := Option.map_eq_some_iff.1 moved
      obtain ⟨cell, -, numbered⟩ := bind_eq_ok.1 (toOption_eq_some.1 numbered)
      obtain ⟨enc, -, numbered⟩ := bind_eq_ok.1 numbered
      obtain ⟨rfl, rfl⟩ := ok_pair numbered
      have stage := h.stage
      rw [Stage, now] at stage
      exact sound_insert h (by decide) (by decide)
        ⟨stage, encode_eq_ok.1 (toOption_eq_some.1 encoded)⟩ fun _ stage => stage
    · cases moved
  | store =>
    simp only [Replica.step] at moved
    split at moved
    · rename_i content data snapSeq now
      obtain ⟨⟨snapshot, e⟩, stored, rfl⟩ := Option.map_eq_some_iff.1 moved
      obtain ⟨d, encoded, stored⟩ := bind_eq_ok.1 (toOption_eq_some.1 stored)
      obtain ⟨rfl, rfl⟩ := ok_pair stored
      have stage := h.stage
      rw [Stage, now] at stage
      exact sound_insert h (by decide) (by decide)
        ⟨content, d, stage.1, stage.2, rfl, rfl, encode_eq_ok.1 encoded⟩ fun _ stage => stage
    · cases moved

theorem Reached.sound (h : Reached fmt app shard r) : Sound fmt app shard r := by
  induction h with
  | fresh => exact sound_fresh
  | step before quiet moved ih => exact sound_step ih quiet moved

/-- Where every batch that lands among the reads of a builder is quiet, an empty replica that installs
the snapshot and applies the log after its position ends with the rows, the counter and the history of
the whole log. -/
theorem snapshot_consistent {snapshot : Snapshot} (h : Reached fmt app shard r)
    (done : r.building = .built snapshot) : Reproduces fmt app shard r.log snapshot := by
  obtain ⟨order, ⟨whole, log, -⟩, -, stage⟩ := h.sound
  rw [Stage, done] at stage
  obtain ⟨content, d, ⟨past, ⟨before, rest, split, position, applied⟩, rows, counter⟩, data, label,
    members, stored⟩ := stage
  rw [split] at order log ⊢
  obtain ⟨past', told, applied', replayed, rfl⟩ := applyLog_append_eq_ok.1 log
  obtain rfl := ok_unique applied' applied
  obtain ⟨replica, installed, holds⟩ :=
    installSnapshot_holds (t := ∅) rows data label members stored
  have alike : Alike fmt shard past'.engine replica := ⟨holds.rows, counter.trans holds.seq.symm⟩
  obtain ⟨told', replayed', alike', emits, -⟩ := applyLog_agree alike replayed
  refine ⟨replica, ⟨past'.engine, past'.emits ++ [], past'.responses ++ []⟩,
    ⟨told'.engine, [] ++ told'.emits, [] ++ told'.responses⟩, _, installed, ?_, ?_, log, alike', ?_⟩
  · rw [label, position, logUpTo_append order]
    exact applyLog_append_eq_ok.2 ⟨past', _, applied', applyLog_nils counter (by simp), rfl⟩
  · rw [label, position, logAfter_append order]
    exact applyLog_append_eq_ok.2 ⟨⟨replica, [], []⟩, told', applyLog_nils holds.seq (by simp),
      replayed', rfl⟩
  · rw [List.append_nil, List.nil_append, emits]

end Reading

def Replica.run (fmt : Format) (app : Interpreter) (shard : ShardId) (acts : List Act) : Option Replica :=
  acts.foldlM (Replica.step fmt app shard) .fresh

/-- A step that applies no command. -/
def Act.Idle : Act → Prop
  | .apply batch => ∀ entry ∈ batch, entry.Idle
  | _ => True

theorem Reached.foldlM {fmt : Format} {app : Interpreter} {shard : ShardId} {acts : List Act}
    {r r' : Replica} (h : Reached fmt app shard r) (idle : ∀ act ∈ acts, act.Idle)
    (ran : acts.foldlM (Replica.step fmt app shard) r = some r') : Reached fmt app shard r' := by
  induction acts generalizing r with
  | nil =>
    obtain rfl := Option.some.inj ran
    exact h
  | cons act acts ih =>
    rw [List.foldlM_cons] at ran
    obtain ⟨r₁, moved, ran⟩ := Option.bind_eq_some_iff.1 ran
    have quiet : Quiet fmt app shard r act := by
      cases act with
      | apply batch =>
        have alike : ∀ applied, apply fmt app shard r.engine batch = .ok applied →
            Alike fmt shard r.engine applied.engine :=
          fun _ ok => alike_of_idle (idle _ List.mem_cons_self) ok
        rw [Quiet]
        split
        · exact alike
        · exact alike
        · exact fun applied ok => (alike applied ok).rows
        · trivial
      | _ => trivial
    exact ih (h.step quiet moved) (fun act mem => idle act (List.mem_cons_of_mem _ mem)) ran

/-! ## A batch that lands among the reads -/

def sampleShard : ShardId := ⟨.fedOut, 0⟩

def sampleApp : Interpreter := FedOut.fedOutInterpreter .compact .compact

def sampleActs (payload : EntryPayload) : List Act :=
  [.apply [⟨⟨1, 1, 1⟩, .blank⟩], .readLastApplied, .apply [⟨⟨1, 1, 2⟩, payload⟩],
    .readMembership, .readSeq, .readRows, .number, .store]

theorem snapshot_consistent_sample : ∃ r snapshot,
    Replica.run .compact sampleApp sampleShard (sampleActs .blank) = some r ∧
    r.building = .built snapshot ∧ Reproduces .compact sampleApp sampleShard r.log snapshot := by
  have run : (Replica.run .compact sampleApp sampleShard (sampleActs .blank)).any (fun r =>
      match r.building with
      | .built _ => true
      | _ => false) = true := by decide +kernel
  obtain ⟨r, ran, evaluated⟩ := (Option.any_eq_true _ _).1 run
  split at evaluated
  · rename_i snapshot done
    have idle : ∀ act ∈ sampleActs .blank, act.Idle := by
      simp [sampleActs, Act.Idle, Entry.Idle]
    exact ⟨r, snapshot, ran, done, snapshot_consistent (Reached.fresh.foldlM idle ran) done⟩
  · cases evaluated

def sampleCommand : Bytes :=
  (FedOut.Wire.compact.command.encode (.enqueueEdus [⟨"b", [1]⟩])).getD []

def counterOf (x : Except StorageError Applied) : Option Nat :=
  x.toOption.bind fun applied => (seq .compact sampleShard applied.engine).toOption

/-- A message is queued after the position is read and before the counter is: the snapshot has it,
and the replay queues it once more. -/
theorem snapshot_diverges : ∃ r snapshot,
    Replica.run .compact sampleApp sampleShard (sampleActs (.normal sampleCommand)) = some r ∧
    r.building = .built snapshot ∧ ¬Reproduces .compact sampleApp sampleShard r.log snapshot := by
  have run : (Replica.run .compact sampleApp sampleShard (sampleActs (.normal sampleCommand))).any
      (fun r => match r.building with
        | .built snapshot =>
          decide (counterOf (applyLog .compact sampleApp sampleShard ∅ r.log) = some 1) &&
          (installSnapshot .compact sampleShard ∅ snapshot).toOption.any fun replica =>
            decide (counterOf (applyLog .compact sampleApp sampleShard replica
              (logAfter snapshot.metadata.lastLogId r.log)) = some 2)
        | _ => false) = true := by decide +kernel
  obtain ⟨r, ran, evaluated⟩ := (Option.any_eq_true _ _).1 run
  split at evaluated
  · rename_i snapshot done
    obtain ⟨once, replay⟩ := Bool.and_eq_true_iff.1 evaluated
    refine ⟨r, snapshot, ran, done, ?_⟩
    rintro ⟨replica, past, told, whole, installed, -, replayed, applied, alike, -⟩
    have once : counterOf (.ok whole) = some 1 := applied ▸ of_decide_eq_true once
    rw [installed] at replay
    have twice : counterOf (.ok told) = some 2 := replayed ▸ of_decide_eq_true replay
    change (seq .compact sampleShard whole.engine).toOption = some 1 at once
    rw [alike.counter] at once
    have differ : some 1 = some 2 := once.symm.trans twice
    cases differ
  · cases evaluated

end Saltator.Shard.Storage
