import Saltator.Shard.Transfer

/-!
# Snapshots reproduce the state

A snapshot is installed over whatever the receiver holds: the receiver's application rows are those of
the sender, and so is the bookkeeping (`Restored`). The two ways to build and install, the state
machine's own and the transfer's, write one format and leave one state.
-/

namespace Saltator.Shard

open Saltator.Outcome
open Storage Transfer

/-! ## Rows -/

section Rows

variable {shard : ShardId} {e t : Engine} {k : Key}

theorem not_inApp_smMetaKey {cell : Bytes} : ¬InApp shard (smMetaKey shard cell) := by
  rintro ⟨table, rest, app, same⟩
  obtain ⟨rfl, -⟩ := List.cons.inj (congrArg Key.rest same)
  exact absurd app (by decide)

theorem smMetaKey_inj {cell cell' : Bytes} :
    smMetaKey shard cell = smMetaKey shard cell' ↔ cell = cell' := by
  simp [smMetaKey, key, rekey]

theorem rekey_rest (h : InApp shard k) : rekey shard k.rest = k := by
  obtain ⟨table, rest, -, rfl⟩ := h
  rfl

theorem mem_appRange {v : Bytes} : (k, v) ∈ e.range (appBounds shard).1 (appBounds shard).2 ↔
    e[k]? = some v ∧ InApp shard k := by
  rw [Engine.range, OrdMap.mem_rows, between_appBounds]

theorem SameRows.appRows (h : SameRows shard e t) : appRows shard e = appRows shard t := by
  have same : e.range (appBounds shard).1 (appBounds shard).2 =
      t.range (appBounds shard).1 (appBounds shard).2 :=
    OrdMap.rows_congr fun k inside => h k (between_appBounds.1 inside)
  rw [Storage.appRows, same, Storage.appRows]

theorem replaceRows_appRows : replaceRows shard (appRows shard e) =
    .deleteRange (appBounds shard).1 (appBounds shard).2 ::
      (e.range (appBounds shard).1 (appBounds shard).2).map fun (k, v) => .put k v := by
  rw [replaceRows, Storage.appRows, List.map_map]
  refine congrArg _ (List.map_congr_left fun ⟨k, v⟩ mem => ?_)
  exact congrArg (BatchOp.put · v) (rekey_rest (mem_appRange.1 mem).2)

theorem staged_replaceRows (h : InApp shard k) :
    staged (replaceRows shard (appRows shard e)) k = some e[k]? := by
  rw [replaceRows_appRows, ← List.singleton_append, staged_append, staged_singleton, BatchOp.tells,
    if_pos (between_appBounds.2 h)]
  cases found : staged ((e.range (appBounds shard).1 (appBounds shard).2).map
    fun (k, v) => BatchOp.put k v) k with
  | some value =>
    obtain ⟨op, mem, tells⟩ := List.exists_of_findSome?_eq_some found
    obtain ⟨⟨k', v⟩, row, rfl⟩ := List.mem_map.1 (List.mem_reverse.1 mem)
    rw [BatchOp.tells] at tells
    split at tells
    · rename_i same
      obtain rfl := Option.some.inj tells
      obtain rfl := same
      rw [(mem_appRange.1 row).1]
      rfl
    · cases tells
  | none =>
    have silent := List.findSome?_eq_none_iff.1 found
    cases held : e[k]? with
    | none => rfl
    | some v =>
      have row := mem_appRange.2 ⟨held, h⟩
      have tells := silent _ (List.mem_reverse.2 (List.mem_map_of_mem row))
      rw [BatchOp.tells, if_pos rfl] at tells
      cases tells

end Rows

/-! ## The state after an install -/

structure Restored (fmt : Format) (shard : ShardId) (e t : Engine) : Prop where
  rows : SameRows shard e t
  seq : seq fmt shard t = seq fmt shard e
  membership : membership fmt shard t = membership fmt shard e
  lastApplied : lastApplied fmt shard t = lastApplied fmt shard e

/-- An engine holds the application rows of `e`, and the bookkeeping of a snapshot's content. -/
structure Holds (fmt : Format) (shard : ShardId) (e : Engine) (content : SnapshotContent)
    (t : Engine) : Prop where
  rows : SameRows shard e t
  seq : seq fmt shard t = .ok content.seq
  membership : membership fmt shard t = .ok content.membership
  lastApplied : lastApplied fmt shard t = .ok content.lastApplied

section Install

variable {fmt : Format} {shard : ShardId} {e t : Engine}

def cells (shard : ShardId) (seq lastApplied membership stored : Bytes) : WriteBatch :=
  [.put (smMetaKey shard kSeq) seq, .put (smMetaKey shard kLastApplied) lastApplied,
    .put (smMetaKey shard kMembership) membership, .put (smMetaKey shard kSnapshot) stored]

variable {s l m d : Bytes} {snap : TransferSnapshot} {wb : WriteBatch} {α : Type} {snapshot : Snapshot}

theorem staged_cells :
    staged (wb ++ cells shard s l m d) (smMetaKey shard kSeq) = some (some s) ∧
    staged (wb ++ cells shard s l m d) (smMetaKey shard kLastApplied) = some (some l) ∧
    staged (wb ++ cells shard s l m d) (smMetaKey shard kMembership) = some (some m) ∧
    staged (wb ++ cells shard s l m d) (smMetaKey shard kSnapshot) = some (some d) := by
  have distinct : [kSeq, kLastApplied, kMembership, kSnapshot].Pairwise (· ≠ ·) := by decide
  simp only [List.pairwise_cons, List.mem_cons, List.not_mem_nil, or_false] at distinct
  simp only [staged_append]
  simp only [staged, cells, List.reverse_cons, List.reverse_nil, List.nil_append, List.cons_append,
    List.findSome?_cons, BatchOp.tells, smMetaKey_inj]
  grind

theorem staged_cells_inApp {k : Key} (h : InApp shard k) : staged (cells shard s l m d) k = none := by
  rw [staged, List.findSome?_eq_none_iff]
  intro op mem
  simp only [cells, List.mem_reverse, List.mem_cons, List.not_mem_nil, or_false] at mem
  rcases mem with rfl | rfl | rfl | rfl
  all_goals
    refine if_neg ?_
    rintro rfl
    exact not_inApp_smMetaKey h

theorem getSmMeta_writeBatch {c : Codec α} {a : α} {b cell : Bytes}
    (put : staged wb (smMetaKey shard cell) = some (some b)) (written : c.encode a = some b) :
    getSmMeta fmt shard (t.writeBatch wb) c cell = .ok (some a) := by
  have held : (t.writeBatch wb)[smMetaKey shard cell]? = some b := by
    rw [Engine.getElem?_writeBatch, put]
    rfl
  have read : decode fmt c b = .ok a := decode_eq_ok.2 (c.fromBytes_encode written)
  simp only [getSmMeta, held, read]
  rfl

theorem readContent_eq_ok {content : SnapshotContent} : readContent fmt shard e = .ok content ↔
    lastApplied fmt shard e = .ok content.lastApplied ∧
      membership fmt shard e = .ok content.membership ∧ seq fmt shard e = .ok content.seq ∧
      appRows shard e = content.kv := by
  obtain ⟨lastApplied, membership, seq, kv⟩ := content
  simp only [readContent, bind_eq_ok, pure_eq_ok, SnapshotContent.mk.injEq]
  constructor
  · rintro ⟨_, l, _, m, _, s, rfl, rfl, rfl, rfl⟩
    exact ⟨l, m, s, rfl⟩
  · rintro ⟨l, m, s, rows⟩
    exact ⟨_, l, _, m, _, s, rfl, rfl, rfl, rows⟩

theorem parts_of_encode {content : SnapshotContent} {data : Bytes}
    (h : fmt.snapshotContent.encode content = some data) :
    ∃ s l m, fmt.u64.encode content.seq = some s ∧
      (fmt.option fmt.logId).encode content.lastApplied = some l ∧
      fmt.storedMembership.encode content.membership = some m := by
  obtain ⟨l, hl, h⟩ := Option.bind_eq_some_iff.1 h
  obtain ⟨rest, h, -⟩ := Option.map_eq_some_iff.1 h
  obtain ⟨m, hm, h⟩ := Option.bind_eq_some_iff.1 h
  obtain ⟨rest', h, -⟩ := Option.map_eq_some_iff.1 h
  obtain ⟨s, hs, -⟩ := Option.bind_eq_some_iff.1 h
  exact ⟨s, l, m, hs, hl, hm⟩

/-- The writes of a content with the rows of `e` leave these rows and the content's bookkeeping,
whatever they are written over. -/
theorem holds_of_write {content : SnapshotContent} (rows : content.kv = appRows shard e)
    (hs : fmt.u64.encode content.seq = some s)
    (hl : (fmt.option fmt.logId).encode content.lastApplied = some l)
    (hm : fmt.storedMembership.encode content.membership = some m) :
    Holds fmt shard e content (t.writeBatch (replaceRows shard content.kv ++ cells shard s l m d)) := by
  constructor
  · intro k inside
    rw [Engine.getElem?_writeBatch, staged_append, staged_cells_inApp inside, rows,
      staged_replaceRows inside]
    rfl
  · rw [Storage.seq, getSmMeta_writeBatch staged_cells.1 hs]
    rfl
  · rw [Storage.membership, getSmMeta_writeBatch staged_cells.2.2.1 hm]
    rfl
  · rw [Storage.lastApplied, getSmMeta_writeBatch staged_cells.2.1 hl]
    rfl

theorem Holds.restored {content : SnapshotContent} (h : Holds fmt shard e content t)
    (read : readContent fmt shard e = .ok content) : Restored fmt shard e t := by
  obtain ⟨lastApplied, membership, seq, -⟩ := readContent_eq_ok.1 read
  exact ⟨h.rows, h.seq.trans seq.symm, h.membership.trans membership.symm,
    h.lastApplied.trans lastApplied.symm⟩

theorem getCurrentSnapshot_of_write {metadata : SnapshotMeta} {data : Bytes}
    (hd : fmt.storedSnapshot.encode ⟨metadata, data⟩ = some d) :
    getCurrentSnapshot fmt shard (t.writeBatch (wb ++ cells shard s l m d)) =
      .ok (some ⟨metadata, data⟩) := by
  rw [getCurrentSnapshot, getSmMeta_writeBatch staged_cells.2.2.2 hd]
  rfl

theorem installSnapshot_holds {content : SnapshotContent} (rows : content.kv = appRows shard e)
    (data : fmt.snapshotContent.encode content = some snapshot.data)
    (position : snapshot.metadata.lastLogId = content.lastApplied)
    (members : snapshot.metadata.lastMembership = content.membership)
    (stored : fmt.storedSnapshot.encode ⟨snapshot.metadata, snapshot.data⟩ = some d) :
    ∃ t', installSnapshot fmt shard t snapshot = .ok t' ∧ Holds fmt shard e content t' := by
  obtain ⟨s, l, m, hs, hl, hm⟩ := parts_of_encode data
  refine ⟨t.writeBatch (replaceRows shard content.kv ++ cells shard s l m d), ?_,
    holds_of_write rows hs hl hm⟩
  simp only [installSnapshot, bind_eq_ok, pure_eq_ok, decode_eq_ok, encode_eq_ok, position, members]
  exact ⟨_, fmt.snapshotContent.fromBytes_encode data, s, hs, l, hl, m, hm, d, stored, rfl⟩

theorem buildSnapshot_eq_ok {e' : Engine}
    (h : buildSnapshot fmt shard e = .ok (snapshot, e')) : ∃ content d,
      readContent fmt shard e = .ok content ∧
      fmt.snapshotContent.encode content = some snapshot.data ∧
      snapshot.metadata.lastLogId = content.lastApplied ∧
      snapshot.metadata.lastMembership = content.membership ∧
      fmt.storedSnapshot.encode ⟨snapshot.metadata, snapshot.data⟩ = some d := by
  obtain ⟨content, read, h⟩ := bind_eq_ok.1 h
  obtain ⟨data, hdata, h⟩ := bind_eq_ok.1 h
  obtain ⟨⟨snapSeq, numbered⟩, -, h⟩ := bind_eq_ok.1 h
  obtain ⟨d, stored, h⟩ := bind_eq_ok.1 h
  obtain ⟨rfl, -⟩ := ok_pair h
  exact ⟨content, d, read, encode_eq_ok.1 hdata, rfl, rfl, encode_eq_ok.1 stored⟩

/-! ### The transfer -/

theorem getMeta_eq_ok {c : Codec α} {cell : Bytes} {x : Option α} :
    getMeta fmt shard c e cell = .ok x ↔ getSmMeta fmt shard e c cell = .ok x := by
  rw [getMeta, getSmMeta]
  cases e[smMetaKey shard cell]? with
  | none => simp
  | some b =>
    simp only [decode, bind_eq_ok, pure_eq_ok]
    cases c.fromBytes b <;> simp

theorem write_eq_ok {c : Codec α} {a : α} {b : Bytes} : write fmt c a = .ok b ↔ c.encode a = some b := by
  rw [write]
  cases c.encode a <;> simp

def Transfer.TransferSnapshot.content (snap : TransferSnapshot) : SnapshotContent :=
  ⟨snap.lastApplied, snap.membership, snap.seq, snap.kv⟩

theorem build_eq_ok : build fmt shard e = .ok snap ↔ readContent fmt shard e = .ok snap.content := by
  obtain ⟨lastApplied, membership, seq, kv⟩ := snap
  simp only [build, readContent, Storage.lastApplied, Storage.membership, Storage.seq, bind_eq_ok,
    pure_eq_ok, getMeta_eq_ok, TransferSnapshot.content, TransferSnapshot.mk.injEq,
    SnapshotContent.mk.injEq]
  constructor
  · rintro ⟨_, l, _, m, _, s, rfl, rfl, rfl, rfl⟩
    exact ⟨_, ⟨_, l, rfl⟩, _, ⟨_, m, rfl⟩, _, ⟨_, s, rfl⟩, rfl, rfl, rfl, rfl⟩
  · rintro ⟨_, ⟨_, l, rfl⟩, _, ⟨_, m, rfl⟩, _, ⟨_, s, rfl⟩, rfl, rfl, rfl, rfl⟩
    exact ⟨_, l, _, m, _, s, rfl, rfl, rfl, rfl⟩

theorem encode_transferSnapshot :
    (transferSnapshot fmt).encode snap = fmt.snapshotContent.encode snap.content := rfl

theorem install_eq_ok {stores stores' : Stores}
    (h : install fmt shard stores snap = .ok stores') : ∃ snapshot : Snapshot, ∃ s l m d,
      (transferSnapshot fmt).encode snap = some snapshot.data ∧
      snapshot.metadata.lastLogId = snap.lastApplied ∧
      snapshot.metadata.lastMembership = snap.membership ∧
      fmt.u64.encode snap.seq = some s ∧ (fmt.option fmt.logId).encode snap.lastApplied = some l ∧
      fmt.storedMembership.encode snap.membership = some m ∧
      fmt.storedSnapshot.encode ⟨snapshot.metadata, snapshot.data⟩ = some d ∧
      stores'.state = stores.state.writeBatch (replaceRows shard snap.kv ++ cells shard s l m d) := by
  obtain ⟨pristine, -, h⟩ := bind_eq_ok.1 h
  split at h
  · cases h
  split at h
  · cases h
  rename_i last position
  obtain ⟨data, hdata, h⟩ := bind_eq_ok.1 h
  obtain ⟨s, hs, h⟩ := bind_eq_ok.1 h
  obtain ⟨l, hl, h⟩ := bind_eq_ok.1 h
  obtain ⟨m, hm, h⟩ := bind_eq_ok.1 h
  obtain ⟨d, hd, h⟩ := bind_eq_ok.1 h
  obtain rfl := pure_eq_ok.1 h
  exact ⟨⟨_, data⟩, s, l, m, d, write_eq_ok.1 hdata, rfl, rfl, write_eq_ok.1 hs, write_eq_ok.1 hl,
    write_eq_ok.1 hm, write_eq_ok.1 hd, rfl⟩

/-- A snapshot, built and installed by the state machine or by a transfer, reproduces the application
rows, the counter, the membership and the position over whatever the receiver held. What a transfer
stores is a snapshot of the state machine's own format, and installs to the same state again. -/
theorem snapshot_round_trip : (∀ snapshot e', buildSnapshot fmt shard e = .ok (snapshot, e') →
      ∀ t, ∃ t', installSnapshot fmt shard t snapshot = .ok t' ∧ Restored fmt shard e t') ∧
    ∀ snap stores stores', build fmt shard e = .ok snap →
      install fmt shard stores snap = .ok stores' →
      Restored fmt shard e stores'.state ∧ ∃ current,
        getCurrentSnapshot fmt shard stores'.state = .ok (some current) ∧
        fmt.snapshotContent.fromBytes current.data = some snap.content ∧
        ∀ t, ∃ t', installSnapshot fmt shard t current = .ok t' ∧ Restored fmt shard e t' := by
  constructor
  · intro snapshot e' built t
    obtain ⟨content, d, read, data, position, members, stored⟩ := buildSnapshot_eq_ok built
    obtain ⟨t', installed, holds⟩ :=
      installSnapshot_holds (readContent_eq_ok.1 read).2.2.2.symm data position members stored
    exact ⟨t', installed, holds.restored read⟩
  · intro snap stores stores' built installed
    obtain ⟨current, s, l, m, d, data, position, members, hs, hl, hm, stored, state⟩ :=
      install_eq_ok installed
    have read := build_eq_ok.1 built
    rw [encode_transferSnapshot] at data
    rw [state]
    have rows := (readContent_eq_ok.1 read).2.2.2.symm
    refine ⟨(holds_of_write rows hs hl hm).restored read, current, getCurrentSnapshot_of_write stored,
      fmt.snapshotContent.fromBytes_encode data, fun t => ?_⟩
    obtain ⟨t', again, holds⟩ := installSnapshot_holds rows data position members stored
    exact ⟨t', again, holds.restored read⟩

end Install

def sampleEngine : Engine := (∅ : Engine).writeBatch [.put (key ⟨.metadata, 0⟩ 9 [1]) [2],
    .put (smMetaKey ⟨.metadata, 0⟩ kSeq) [1],
    .put (smMetaKey ⟨.metadata, 0⟩ kLastApplied) [1, 1, 1, 3]]

theorem snapshot_round_trip_sample : ∃ snapshot e' t' snap stores',
    buildSnapshot .compact ⟨.metadata, 0⟩ sampleEngine = .ok (snapshot, e') ∧
    installSnapshot .compact ⟨.metadata, 0⟩ ∅ snapshot = .ok t' ∧
    Restored .compact ⟨.metadata, 0⟩ sampleEngine t' ∧
    build .compact ⟨.metadata, 0⟩ sampleEngine = .ok snap ∧
    install .compact ⟨.metadata, 0⟩ ⟨∅, ∅⟩ snap = .ok stores' ∧
    Restored .compact ⟨.metadata, 0⟩ sampleEngine stores'.state := by
  obtain ⟨⟨snapshot, e'⟩, built, -⟩ := (Option.any_eq_true _ _).1
    (by decide +kernel : (buildSnapshot .compact ⟨.metadata, 0⟩ sampleEngine).toOption.any
      (fun _ => true) = true)
  obtain ⟨snap, payload, h⟩ := (Option.any_eq_true _ _).1
    (by decide +kernel : (build .compact ⟨.metadata, 0⟩ sampleEngine).toOption.any
      (fun snap => (install .compact ⟨.metadata, 0⟩ ⟨∅, ∅⟩ snap).toOption.any fun _ => true) = true)
  obtain ⟨stores', installed, -⟩ := (Option.any_eq_true _ _).1 h
  have built := toOption_eq_some.1 built
  have payload := toOption_eq_some.1 payload
  have installed := toOption_eq_some.1 installed
  obtain ⟨t', again, restored⟩ := snapshot_round_trip.1 snapshot e' built ∅
  exact ⟨snapshot, e', t', snap, stores', built, again, restored, payload, installed,
    (snapshot_round_trip.2 snap ⟨∅, ∅⟩ stores' payload installed).1⟩

end Saltator.Shard
