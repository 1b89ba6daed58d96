import Saltator.Shard.Snapshot

/-!
# What a batch does

The outcome of a batch depends on the application rows and the counter alone (`apply_agree`). It moves
the position to the last entry, and touches no other cell of the bookkeeping than it should.
-/

namespace Saltator.Shard.Storage

open Saltator.Outcome

variable {fmt : Format} {app : Interpreter} {shard : ShardId} {e e' : Engine}

/-! ## Within a batch -/

/-- A batch that began in `e`, over another engine. -/
def Applying.over (e : Engine) (b : Applying) : Applying := { b with ctx := { b.ctx with engine := e } }

/-- What holds of a batch that began in `e`, at every entry: of the runtime's cells, it stages the
membership alone. -/
structure Applying.Began (shard : ShardId) (e : Engine) (b : Applying) : Prop where
  atShard : b.ctx.shard = shard
  atEngine : b.ctx.engine = e
  frame : ∀ k, ¬InApp shard k → k ≠ smMetaKey shard kMembership → staged b.ctx.wb k = none

section Entries

variable {b b' : Applying} {entry : Entry} {entries : List Entry}

theorem applyEntry_began (h : b.Began shard e) (ok : applyEntry fmt app shard b entry = .ok b') :
    b'.Began shard e ∧ b'.last = some entry.logId := by
  obtain ⟨logId, payload⟩ := entry
  cases payload with
  | blank =>
    obtain rfl := Except.ok.inj ok
    exact ⟨⟨h.atShard, h.atEngine, h.frame⟩, rfl⟩
  | normal cmd =>
    obtain ⟨⟨response, ctx⟩, ran, ok⟩ := bind_eq_ok.1 ok
    obtain rfl := pure_eq_ok.1 ok
    have follows := Action.run_follows (mapError_eq_ok.1 ran)
    refine ⟨⟨follows.shard.trans h.atShard, follows.engine.trans h.atEngine, fun k outside other => ?_⟩,
      rfl⟩
    rw [follows.frame k (h.atShard ▸ outside)]
    exact h.frame k outside other
  | membership m =>
    obtain ⟨enc, -, ok⟩ := bind_eq_ok.1 ok
    obtain rfl := pure_eq_ok.1 ok
    refine ⟨⟨h.atShard, h.atEngine, fun k outside other => ?_⟩, rfl⟩
    rw [staged_concat, BatchOp.tells, if_neg (Ne.symm other), Option.none_or]
    exact h.frame k outside other

theorem entries_began (h : b.Began shard e)
    (ok : entries.foldlM (applyEntry fmt app shard) b = .ok b') :
    b'.Began shard e ∧ b'.last = (entries.getLast?.map Entry.logId).or b.last := by
  induction entries generalizing b with
  | nil =>
    obtain rfl := pure_eq_ok.1 ok
    exact ⟨h, rfl⟩
  | cons entry entries ih =>
    rw [List.foldlM_cons] at ok
    obtain ⟨b₁, first, ok⟩ := bind_eq_ok.1 ok
    obtain ⟨began, last⟩ := applyEntry_began h first
    obtain ⟨began', last'⟩ := ih began ok
    refine ⟨began', last'.trans ?_⟩
    rw [List.getLast?_cons, last]
    cases entries.getLast? <;> rfl

theorem applyEntry_over (h : b.Began shard e) (same : SameRows shard e e') :
    applyEntry fmt app shard (b.over e') entry =
      (applyEntry fmt app shard b entry).map (Applying.over e') := by
  obtain ⟨logId, payload⟩ := entry
  cases payload with
  | blank => rfl
  | normal cmd =>
    have rows : SameRows b.ctx.shard b.ctx.engine e' := by
      rw [h.atShard, h.atEngine]
      exact same
    have run := Action.run_agree (command fmt app cmd) rows
    simp only [applyEntry, Applying.over, run]
    cases (command fmt app cmd).run b.ctx <;> rfl
  | membership m =>
    simp only [applyEntry, Applying.over]
    cases encode fmt fmt.storedMembership ⟨some logId, m⟩ <;> rfl

theorem entries_over (h : b.Began shard e) (same : SameRows shard e e') :
    entries.foldlM (applyEntry fmt app shard) (b.over e') =
      (entries.foldlM (applyEntry fmt app shard) b).map (Applying.over e') := by
  induction entries generalizing b with
  | nil => rfl
  | cons entry entries ih =>
    rw [List.foldlM_cons, List.foldlM_cons, applyEntry_over h same]
    cases first : applyEntry fmt app shard b entry with
    | error => rfl
    | ok b₁ => exact ih (applyEntry_began h first).1

end Entries

/-! ## The bookkeeping -/

section Bookkeeping

variable {last : Option LogId} {seq0 n : Nat} {wb : WriteBatch} {k : Key}

theorem putCell_eq_ok {α : Type} {c : Codec α} {cell : Bytes} {a : α} :
    putCell fmt shard c cell a = .ok wb ↔
      ∃ enc, c.encode a = some enc ∧ wb = [.put (smMetaKey shard cell) enc] := by
  simp only [putCell, bind_eq_ok, pure_eq_ok, encode_eq_ok]
  exact exists_congr fun enc => and_congr_right fun _ => eq_comm

theorem staged_cell {cell : Bytes} {v : Bytes} (h : k ≠ smMetaKey shard cell) :
    staged [.put (smMetaKey shard cell) v] k = none := by
  rw [staged_singleton]
  exact if_neg (Ne.symm h)

theorem staged_applied (h : last.elim (.ok [])
      (fun l => putCell fmt shard (fmt.option fmt.logId) kLastApplied (some l)) = .ok wb)
    (other : k ≠ smMetaKey shard kLastApplied) : staged wb k = none := by
  cases last with
  | none =>
    obtain rfl := Except.ok.inj h
    rfl
  | some l =>
    obtain ⟨enc, -, rfl⟩ := putCell_eq_ok.1 h
    exact staged_cell other

theorem staged_moved (h : (if n = seq0 then .ok [] else putCell fmt shard fmt.u64 kSeq n) = .ok wb)
    (other : k ≠ smMetaKey shard kSeq) : staged wb k = none := by
  split at h
  · obtain rfl := Except.ok.inj h
    rfl
  · obtain ⟨enc, -, rfl⟩ := putCell_eq_ok.1 h
    exact staged_cell other

theorem staged_bookkeeping (h : bookkeeping fmt shard last seq0 n = .ok wb)
    (position : k ≠ smMetaKey shard kLastApplied) (counter : k ≠ smMetaKey shard kSeq) :
    staged wb k = none := by
  obtain ⟨applied, first, h⟩ := bind_eq_ok.1 h
  obtain ⟨moved, second, h⟩ := bind_eq_ok.1 h
  obtain rfl := pure_eq_ok.1 h
  rw [staged_append, staged_applied first position, staged_moved second counter]
  rfl

theorem kSeq_ne_kLastApplied : smMetaKey shard kSeq ≠ smMetaKey shard kLastApplied := by
  rw [Ne, smMetaKey_inj]
  decide

theorem staged_counter (h : bookkeeping fmt shard last seq0 n = .ok wb) :
    n = seq0 ∧ staged wb (smMetaKey shard kSeq) = none ∨
      ∃ enc, fmt.u64.encode n = some enc ∧ staged wb (smMetaKey shard kSeq) = some (some enc) := by
  obtain ⟨applied, first, h⟩ := bind_eq_ok.1 h
  obtain ⟨moved, second, h⟩ := bind_eq_ok.1 h
  obtain rfl := pure_eq_ok.1 h
  have noApplied := staged_applied first kSeq_ne_kLastApplied
  split at second
  · rename_i same
    obtain rfl := Except.ok.inj second
    exact .inl ⟨same, by rw [List.append_nil, noApplied]⟩
  · obtain ⟨enc, henc, rfl⟩ := putCell_eq_ok.1 second
    exact .inr ⟨enc, henc, by rw [staged_concat, BatchOp.tells, if_pos rfl]; rfl⟩

theorem staged_position (h : bookkeeping fmt shard last seq0 n = .ok wb) :
    last = none ∧ staged wb (smMetaKey shard kLastApplied) = none ∨
      ∃ l enc, last = some l ∧ (fmt.option fmt.logId).encode (some l) = some enc ∧
        staged wb (smMetaKey shard kLastApplied) = some (some enc) := by
  obtain ⟨applied, first, h⟩ := bind_eq_ok.1 h
  obtain ⟨moved, second, h⟩ := bind_eq_ok.1 h
  obtain rfl := pure_eq_ok.1 h
  rw [staged_append, staged_moved second kSeq_ne_kLastApplied.symm, Option.none_or]
  cases last with
  | none =>
    obtain rfl := Except.ok.inj first
    exact .inl ⟨rfl, rfl⟩
  | some l =>
    obtain ⟨enc, henc, rfl⟩ := putCell_eq_ok.1 first
    exact .inr ⟨l, enc, rfl, henc, by rw [staged_singleton, BatchOp.tells, if_pos rfl]⟩

end Bookkeeping

/-! ## A batch -/

section Batches

variable {entries : List Entry} {applied : Applied}

/-- A batch before its first entry. -/
def Applying.start (shard : ShardId) (e : Engine) (seq0 : Nat) : Applying :=
  ⟨⟨shard, e, [], seq0, []⟩, none, []⟩

theorem began_start {seq0 : Nat} : (Applying.start shard e seq0).Began shard e :=
  ⟨rfl, rfl, fun _ _ _ => rfl⟩

theorem apply_eq_ok : apply fmt app shard e entries = .ok applied ↔ ∃ seq0 b wb,
    seq fmt shard e = .ok seq0 ∧
    entries.foldlM (applyEntry fmt app shard) (.start shard e seq0) = .ok b ∧
    bookkeeping fmt shard b.last seq0 b.ctx.seq = .ok wb ∧
    applied = ⟨e.writeBatch (b.ctx.wb ++ wb), b.ctx.emits, b.responses⟩ := by
  simp only [apply, bind_eq_ok, pure_eq_ok]
  constructor
  · rintro ⟨seq0, counter, b, ran, wb, booked, rfl⟩
    exact ⟨seq0, b, wb, counter, ran, booked, rfl⟩
  · rintro ⟨seq0, b, wb, counter, ran, booked, rfl⟩
    exact ⟨seq0, counter, b, ran, wb, booked, rfl⟩

variable {b : Applying} {wb : WriteBatch} {seq0 : Nat}

theorem seq_writeBatch (began : b.Began shard e) (counter : seq fmt shard e = .ok seq0)
    (booked : bookkeeping fmt shard b.last seq0 b.ctx.seq = .ok wb) :
    seq fmt shard (e.writeBatch (b.ctx.wb ++ wb)) = .ok b.ctx.seq := by
  have untouched : staged b.ctx.wb (smMetaKey shard kSeq) = none := by
    refine began.frame _ not_inApp_smMetaKey ?_
    rw [Ne, smMetaKey_inj]
    decide
  rcases staged_counter booked with ⟨same, silent⟩ | ⟨enc, henc, put⟩
  · have held : (e.writeBatch (b.ctx.wb ++ wb))[smMetaKey shard kSeq]? =
        e[smMetaKey shard kSeq]? := by
      rw [Engine.getElem?_writeBatch, staged_append, silent, untouched]
      rfl
    rw [same, ← counter, seq, seq, getSmMeta, getSmMeta, held]
  · have put : staged (b.ctx.wb ++ wb) (smMetaKey shard kSeq) = some (some enc) := by
      rw [staged_append, put]
      rfl
    rw [seq, getSmMeta_writeBatch put henc]
    rfl

theorem lastApplied_of_apply {l : Option LogId} (before : lastApplied fmt shard e = .ok l)
    (h : apply fmt app shard e entries = .ok applied) : lastApplied fmt shard applied.engine =
      .ok ((entries.getLast?.map Entry.logId).or l) := by
  obtain ⟨seq0, b, wb, -, ran, booked, rfl⟩ := apply_eq_ok.1 h
  obtain ⟨began, last⟩ := entries_began began_start ran
  replace last : b.last = entries.getLast?.map Entry.logId := last.trans (Option.or_none ..)
  have untouched : staged b.ctx.wb (smMetaKey shard kLastApplied) = none := by
    refine began.frame _ not_inApp_smMetaKey ?_
    rw [Ne, smMetaKey_inj]
    decide
  rw [← last]
  rcases staged_position booked with ⟨none, silent⟩ | ⟨l', enc, some, henc, put⟩
  · have held : (e.writeBatch (b.ctx.wb ++ wb))[smMetaKey shard kLastApplied]? =
        e[smMetaKey shard kLastApplied]? := by
      rw [Engine.getElem?_writeBatch, staged_append, silent, untouched]
      rfl
    rw [none, Option.none_or, ← before, lastApplied, lastApplied, getSmMeta, getSmMeta, held]
  · have put : staged (b.ctx.wb ++ wb) (smMetaKey shard kLastApplied) = .some (.some enc) := by
      rw [staged_append, put]
      rfl
    rw [lastApplied, getSmMeta_writeBatch put henc, some]
    rfl

structure Alike (fmt : Format) (shard : ShardId) (e e' : Engine) : Prop where
  rows : SameRows shard e e'
  counter : seq fmt shard e = seq fmt shard e'

theorem Alike.refl (e : Engine) : Alike fmt shard e e := ⟨fun _ _ => rfl, rfl⟩

theorem Alike.symm (h : Alike fmt shard e e') : Alike fmt shard e' e :=
  ⟨fun k inside => (h.rows k inside).symm, h.counter.symm⟩

theorem Alike.trans {f : Engine} (h : Alike fmt shard e e') (h' : Alike fmt shard e' f) :
    Alike fmt shard e f :=
  ⟨fun k inside => (h.rows k inside).trans (h'.rows k inside), h.counter.trans h'.counter⟩

theorem apply_agree (alike : Alike fmt shard e e')
    (h : apply fmt app shard e entries = .ok applied) :
    ∃ applied', apply fmt app shard e' entries = .ok applied' ∧
      Alike fmt shard applied.engine applied'.engine ∧ applied'.emits = applied.emits ∧
      applied'.responses = applied.responses := by
  obtain ⟨seq0, b, wb, counter, ran, booked, rfl⟩ := apply_eq_ok.1 h
  have began := (entries_began began_start ran).1
  have counter' : seq fmt shard e' = .ok seq0 := alike.counter.symm.trans counter
  have ran' : entries.foldlM (applyEntry fmt app shard) (.start shard e' seq0) = .ok (b.over e') := by
    have run : entries.foldlM (applyEntry fmt app shard) ((Applying.start shard e seq0).over e') =
        _ := entries_over began_start alike.rows
    rw [ran] at run
    exact run
  have began' := (entries_began began_start ran').1
  refine ⟨_, apply_eq_ok.2 ⟨seq0, _, wb, counter', ran', booked, rfl⟩, ⟨fun k inside => ?_, ?_⟩, rfl, rfl⟩
  · rw [Engine.getElem?_writeBatch, Engine.getElem?_writeBatch, alike.rows k inside]
    rfl
  · exact (seq_writeBatch began counter booked).trans (seq_writeBatch began' counter' booked).symm

def Entry.Idle (entry : Entry) : Prop := ∀ cmd, entry.payload ≠ .normal cmd

theorem applyEntry_idle {entry : Entry} {b b' : Applying} (idle : entry.Idle)
    (h : ∀ k, InApp shard k → staged b.ctx.wb k = none)
    (ok : applyEntry fmt app shard b entry = .ok b') :
    (∀ k, InApp shard k → staged b'.ctx.wb k = none) ∧ b'.ctx.seq = b.ctx.seq := by
  obtain ⟨logId, payload⟩ := entry
  cases payload with
  | blank =>
    obtain rfl := Except.ok.inj ok
    exact ⟨h, rfl⟩
  | normal cmd => exact absurd rfl (idle cmd)
  | membership m =>
    obtain ⟨enc, -, ok⟩ := bind_eq_ok.1 ok
    obtain rfl := pure_eq_ok.1 ok
    refine ⟨fun k inside => ?_, rfl⟩
    rw [staged_append, h k inside, staged_cell, Option.or_none]
    rintro rfl
    exact not_inApp_smMetaKey inside

theorem entries_idle (idle : ∀ entry ∈ entries, entry.Idle) {b b' : Applying}
    (h : ∀ k, InApp shard k → staged b.ctx.wb k = none)
    (ok : entries.foldlM (applyEntry fmt app shard) b = .ok b') :
    (∀ k, InApp shard k → staged b'.ctx.wb k = none) ∧ b'.ctx.seq = b.ctx.seq := by
  induction entries generalizing b with
  | nil =>
    obtain rfl := pure_eq_ok.1 ok
    exact ⟨h, rfl⟩
  | cons entry entries ih =>
    rw [List.foldlM_cons] at ok
    obtain ⟨b₁, first, ok⟩ := bind_eq_ok.1 ok
    obtain ⟨silent, same⟩ := applyEntry_idle (idle entry List.mem_cons_self) h first
    obtain ⟨silent', same'⟩ := ih (fun entry mem => idle entry (List.mem_cons_of_mem _ mem)) silent ok
    exact ⟨silent', same'.trans same⟩

theorem alike_of_idle (idle : ∀ entry ∈ entries, entry.Idle)
    (h : apply fmt app shard e entries = .ok applied) : Alike fmt shard e applied.engine := by
  obtain ⟨seq0, b, wb, counter, ran, booked, rfl⟩ := apply_eq_ok.1 h
  obtain ⟨silent, moved⟩ := entries_idle idle (fun _ _ => rfl) ran
  constructor
  · intro k inside
    have other : ∀ {cell}, k ≠ smMetaKey shard cell := by
      rintro cell rfl
      exact not_inApp_smMetaKey inside
    rw [Engine.getElem?_writeBatch, staged_append, staged_bookkeeping booked other other, silent k inside]
    rfl
  · rw [seq_writeBatch (entries_began began_start ran).1 counter booked, moved]
    exact counter

/-! ## The log -/

variable {batch : List Entry} {batches rest : List (List Entry)}

theorem applyLog_cons_eq_ok : applyLog fmt app shard e (batch :: batches) = .ok applied ↔
    ∃ first last, apply fmt app shard e batch = .ok first ∧
      applyLog fmt app shard first.engine batches = .ok last ∧
      applied = ⟨last.engine, first.emits ++ last.emits, first.responses ++ last.responses⟩ := by
  simp only [applyLog, bind_eq_ok, pure_eq_ok]
  constructor
  · rintro ⟨first, begun, last, ended, rfl⟩
    exact ⟨first, last, begun, ended, rfl⟩
  · rintro ⟨first, last, begun, ended, rfl⟩
    exact ⟨first, begun, last, ended, rfl⟩

theorem applyLog_append_eq_ok : applyLog fmt app shard e (batches ++ rest) = .ok applied ↔
    ∃ past told, applyLog fmt app shard e batches = .ok past ∧
      applyLog fmt app shard past.engine rest = .ok told ∧
      applied = ⟨told.engine, past.emits ++ told.emits, past.responses ++ told.responses⟩ := by
  induction batches generalizing e applied with
  | nil =>
    constructor
    · intro h
      exact ⟨⟨e, [], []⟩, applied, rfl, h, rfl⟩
    · rintro ⟨past, told, h, h', rfl⟩
      obtain rfl := Except.ok.inj h
      exact h'
  | cons batch batches ih =>
    simp only [List.cons_append, applyLog_cons_eq_ok, ih]
    constructor
    · rintro ⟨first, _, begun, ⟨past, told, ended, replayed, rfl⟩, rfl⟩
      exact ⟨_, told, ⟨first, past, begun, ended, rfl⟩, replayed, by simp⟩
    · rintro ⟨_, told, ⟨first, past, begun, ended, rfl⟩, replayed, rfl⟩
      exact ⟨first, _, begun, ⟨past, told, ended, replayed, rfl⟩, by simp⟩

theorem applyLog_agree (alike : Alike fmt shard e e')
    (h : applyLog fmt app shard e batches = .ok applied) :
    ∃ applied', applyLog fmt app shard e' batches = .ok applied' ∧
      Alike fmt shard applied.engine applied'.engine ∧ applied'.emits = applied.emits ∧
      applied'.responses = applied.responses := by
  induction batches generalizing e e' applied with
  | nil =>
    obtain rfl := Except.ok.inj h
    exact ⟨_, rfl, alike, rfl, rfl⟩
  | cons batch batches ih =>
    obtain ⟨first, last, begun, ended, rfl⟩ := applyLog_cons_eq_ok.1 h
    obtain ⟨first', begun', alike, emits, responses⟩ := apply_agree alike begun
    obtain ⟨last', ended', alike, emits', responses'⟩ := ih alike ended
    refine ⟨_, applyLog_cons_eq_ok.2 ⟨first', last', begun', ended', rfl⟩, alike, ?_, ?_⟩
    · rw [emits, emits']
    · rw [responses, responses']

theorem applyLog_nils {n : Nat} (counter : seq fmt shard e = .ok n)
    (empty : ∀ batch ∈ batches, batch = []) :
    applyLog fmt app shard e batches = .ok ⟨e, [], []⟩ := by
  induction batches with
  | nil => rfl
  | cons batch batches ih =>
    obtain rfl := empty batch List.mem_cons_self
    have booked : bookkeeping fmt shard none n n = .ok [] := by simp [bookkeeping]
    refine applyLog_cons_eq_ok.2 ⟨⟨e, [], []⟩, ⟨e, [], []⟩, ?_,
      ih fun batch mem => empty batch (List.mem_cons_of_mem _ mem), rfl⟩
    exact apply_eq_ok.2 ⟨n, .start shard e n, [], counter, rfl, booked, rfl⟩

end Batches

end Saltator.Shard.Storage
