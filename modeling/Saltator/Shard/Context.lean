import Saltator.Shard.Engine

/-!
# The context of a command

A command's interpreter acts on a shard through a context: it reads through the writes staged by the
batch, scans the engine as it was when the batch began, stages writes, and emits records to the change
stream. An interpreter is a tree of such actions, so by construction its outcome depends on nothing
but the command, the application tables and the counter (`Action.run_agree`).
-/

namespace Saltator.Shard

open Std
open Saltator.Outcome

/-- A storage fault. -/
inductive StoreError where
  | engine (reason : String)
  deriving DecidableEq, Repr

def StoreError.text : StoreError → String
  | .engine reason => "storage engine error: " ++ reason

/-- What a shard's handle reports. -/
inductive ShardError where
  | raft (reason : String)
  | storage (reason : String)
  | codec (reason : String)
  deriving DecidableEq, Repr

/-- A table that a context may touch: none of the runtime's, and not the last, whose bounds would not
be its own. -/
structure AppTable where
  id : UInt8
  app : appTableMin ≤ id
  bounded : id ≠ 0xff

/-- Context for one command application. -/
structure ApplyCtx where
  shard : ShardId
  engine : Engine
  wb : WriteBatch
  /-- Sequence counter; `emit` assigns the next number. -/
  seq : Nat
  emits : List (Nat × Bytes)

namespace ApplyCtx

/-- Read a key from applied state, seeing writes staged earlier in this batch. -/
def get (ctx : ApplyCtx) (table : AppTable) (k : Bytes) : Option Bytes :=
  match staged ctx.wb (key ctx.shard table.id k) with
  | some value => value
  | none => ctx.engine[key ctx.shard table.id k]?

/-- The bounds of a scan over the keys `[start, stop)` of a table; no `stop` is the whole rest. -/
def bounds (shard : ShardId) (table : AppTable) (start stop : Bytes) : Bytes × Bytes :=
  ((key shard table.id start).bytes,
    if stop = [] then (tableBounds shard table.id).2 else (key shard table.id stop).bytes)

/-- Ordered scan of a table. Does not see writes staged in this batch. -/
def range (ctx : ApplyCtx) (table : AppTable) (start stop : Bytes) : List (Bytes × Bytes) :=
  let (startKey, stopKey) := bounds ctx.shard table start stop
  (ctx.engine.range startKey stopKey).map fun (k, v) => (k.rest.drop 1, v)

def put (ctx : ApplyCtx) (table : AppTable) (k value : Bytes) : ApplyCtx :=
  { ctx with wb := ctx.wb ++ [.put (key ctx.shard table.id k) value] }

def delete (ctx : ApplyCtx) (table : AppTable) (k : Bytes) : ApplyCtx :=
  { ctx with wb := ctx.wb ++ [.delete (key ctx.shard table.id k)] }

/-- Publish a record to the change stream once this command commits. -/
def emit (ctx : ApplyCtx) (payload : Bytes) : ApplyCtx :=
  { ctx with seq := ctx.seq + 1, emits := ctx.emits ++ [(ctx.seq + 1, payload)] }

end ApplyCtx

/-- What an interpreter does through its context, to return an `α`. -/
inductive Action (α : Type) where
  | done (a : α)
  | fail (e : StoreError)
  | getThen (table : AppTable) (k : Bytes) (next : Option Bytes → Action α)
  | rangeThen (table : AppTable) (start stop : Bytes) (next : List (Bytes × Bytes) → Action α)
  | putThen (table : AppTable) (k value : Bytes) (next : Action α)
  | deleteThen (table : AppTable) (k : Bytes) (next : Action α)
  /-- What follows sees the number that the record got. -/
  | emitThen (payload : Bytes) (next : Nat → Action α)

namespace Action

variable {α β : Type}

def andThen : Action α → (α → Action β) → Action β
  | .done a, f => f a
  | .fail e, _ => .fail e
  | .getThen table k next, f => .getThen table k fun value => (next value).andThen f
  | .rangeThen table start stop next, f =>
    .rangeThen table start stop fun rows => (next rows).andThen f
  | .putThen table k value next, f => .putThen table k value (next.andThen f)
  | .deleteThen table k next, f => .deleteThen table k (next.andThen f)
  | .emitThen payload next, f => .emitThen payload fun seq => (next seq).andThen f

instance : Monad Action where
  pure := done
  bind := andThen

def get (table : AppTable) (k : Bytes) : Action (Option Bytes) := .getThen table k .done

def range (table : AppTable) (start stop : Bytes) : Action (List (Bytes × Bytes)) :=
  .rangeThen table start stop .done

def put (table : AppTable) (k value : Bytes) : Action Unit := .putThen table k value (.done ())

def delete (table : AppTable) (k : Bytes) : Action Unit := .deleteThen table k (.done ())

def emit (payload : Bytes) : Action Nat := .emitThen payload .done

def run : Action α → ApplyCtx → Except StoreError (α × ApplyCtx)
  | .done a, ctx => .ok (a, ctx)
  | .fail e, _ => .error e
  | .getThen table k next, ctx => (next (ctx.get table k)).run ctx
  | .rangeThen table start stop next, ctx => (next (ctx.range table start stop)).run ctx
  | .putThen table k value next, ctx => next.run (ctx.put table k value)
  | .deleteThen table k next, ctx => next.run (ctx.delete table k)
  | .emitThen payload next, ctx => (next (ctx.seq + 1)).run (ctx.emit payload)

end Action

/-- A shard's command interpreter. -/
structure Interpreter where
  /-- The schema version that the code reads and writes. -/
  schemaVersion : Nat
  /-- Apply one committed command; the result is the response to the proposer. -/
  apply : Bytes → Action Bytes
  /-- Migrate applied state to a version, from the one before it. -/
  migrate : Nat → Action Unit

/-! ## What an outcome depends on -/

def SameRows (shard : ShardId) (e e' : Engine) : Prop := ∀ k, InApp shard k → e[k]? = e'[k]?

theorem inApp_of_between {shard : ShardId} {table : AppTable} {start stop : Bytes} {k : Key}
    (h : between (ApplyCtx.bounds shard table start stop).1
      (ApplyCtx.bounds shard table start stop).2 k = true) : InApp shard k := by
  have inside : ∀ {table : UInt8} {k : Bytes}, appTableMin ≤ table →
      (compare (appBounds shard).1 (key shard table k).bytes).isLE ∧
        compare (key shard table k).bytes (appBounds shard).2 = .lt := by
    intro table k app
    simpa [between] using between_appBounds.2 ⟨table, k, app, rfl⟩
  have next : appTableMin ≤ table.id + 1 := by
    have app := UInt8.le_iff_toNat_le.1 table.app
    have bounded : table.id.toNat ≠ 255 := fun h => table.bounded (UInt8.toNat_inj.1 h)
    have := table.id.toNat_lt
    have one : (table.id + 1).toNat = (table.id.toNat + 1) % 256 := UInt8.toNat_add ..
    rw [UInt8.le_iff_toNat_le, one]
    omega
  have stops : compare (ApplyCtx.bounds shard table start stop).2 (appBounds shard).2 = .lt := by
    rw [ApplyCtx.bounds, tableBounds, if_neg table.bounded]
    split
    · exact (inside next).2
    · exact (inside table.app).2
  simp only [between, Bool.and_eq_true, beq_iff_eq] at h
  refine between_appBounds.1 ?_
  simp only [between, Bool.and_eq_true, beq_iff_eq]
  exact ⟨TransCmp.isLE_trans (inside table.app).1 h.1, TransCmp.lt_trans h.2 stops⟩

section Agree

variable {shard : ShardId} {e e' : Engine}

theorem SameRows.range (h : SameRows shard e e') {table : AppTable} {start stop : Bytes} :
    e.range (ApplyCtx.bounds shard table start stop).1 (ApplyCtx.bounds shard table start stop).2 =
      e'.range (ApplyCtx.bounds shard table start stop).1 (ApplyCtx.bounds shard table start stop).2 :=
  OrdMap.rows_congr fun k inside => h k (inApp_of_between inside)

theorem Action.run_agree {α : Type} (act : Action α) {ctx : ApplyCtx}
    (h : SameRows ctx.shard ctx.engine e') : act.run { ctx with engine := e' } =
      (act.run ctx).map fun (a, ctx) => (a, { ctx with engine := e' }) := by
  induction act generalizing ctx with
  | done => rfl
  | fail => rfl
  | getThen table k next ih =>
    have same : ({ ctx with engine := e' } : ApplyCtx).get table k = ctx.get table k := by
      simp only [ApplyCtx.get, h _ ⟨table.id, k, table.app, rfl⟩]
    rw [Action.run, Action.run, same]
    exact ih _ h
  | rangeThen table start stop next ih =>
    have same : ({ ctx with engine := e' } : ApplyCtx).range table start stop =
        ctx.range table start stop := by
      simp only [ApplyCtx.range, h.range]
    rw [Action.run, Action.run, same]
    exact ih _ h
  | putThen table k value next ih =>
    change next.run { ctx.put table k value with engine := e' } = _
    exact ih h
  | deleteThen table k next ih =>
    change next.run { ctx.delete table k with engine := e' } = _
    exact ih h
  | emitThen payload next ih =>
    change (next (ctx.seq + 1)).run { ctx.emit payload with engine := e' } = _
    exact ih _ h

/-- An interpreter stages writes to application tables, and leaves the rest of its context alone. -/
structure ApplyCtx.Follows (ctx ctx' : ApplyCtx) : Prop where
  shard : ctx'.shard = ctx.shard
  engine : ctx'.engine = ctx.engine
  /-- Keys outside the application tables are not written. -/
  frame : ∀ k, ¬InApp ctx.shard k → staged ctx'.wb k = staged ctx.wb k

theorem Action.run_follows {α : Type} {act : Action α} {ctx ctx' : ApplyCtx} {a : α}
    (h : act.run ctx = .ok (a, ctx')) : ctx.Follows ctx' := by
  induction act generalizing ctx with
  | done =>
    obtain ⟨rfl, rfl⟩ := ok_pair h
    exact ⟨rfl, rfl, fun _ _ => rfl⟩
  | fail => cases h
  | getThen table k next ih => exact ih _ h
  | rangeThen table start stop next ih => exact ih _ h
  | putThen table k value next ih =>
    obtain ⟨shard, engine, frame⟩ := ih h
    refine ⟨shard, engine, fun k' outside => ?_⟩
    rw [frame k' outside, ApplyCtx.put, staged_concat, BatchOp.tells, if_neg, Option.none_or]
    rintro rfl
    exact outside ⟨table.id, k, table.app, rfl⟩
  | deleteThen table k next ih =>
    obtain ⟨shard, engine, frame⟩ := ih h
    refine ⟨shard, engine, fun k' outside => ?_⟩
    rw [frame k' outside, ApplyCtx.delete, staged_concat, BatchOp.tells, if_neg, Option.none_or]
    rintro rfl
    exact outside ⟨table.id, k, table.app, rfl⟩
  | emitThen payload next ih =>
    obtain ⟨shard, engine, frame⟩ := ih _ h
    exact ⟨shard, engine, frame⟩

end Agree

end Saltator.Shard
