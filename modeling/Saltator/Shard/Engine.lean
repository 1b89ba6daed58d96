import Saltator.Lib.Ordered
import Saltator.Shard.Machine

/-!
# The storage engine

An engine maps keys to byte strings, in the order of the keys' bytes. A batch of writes is applied as
a whole, one write after the other. Every key starts with the keyspace and the shard it belongs to,
so a shard's application tables are one range of keys.
-/

namespace Saltator.Shard

open Std

/-! ## Keys -/

/-- A key. Its first three bytes stand for the keyspace and the shard's index; nothing shorter is
ever written, since `key` and `rekey` make all the keys. -/
structure Key where
  keyspace : UInt8
  high : UInt8
  low : UInt8
  /-- The table, and the key in the table. -/
  rest : Bytes
  deriving DecidableEq

namespace Key

def bytes (k : Key) : Bytes := k.keyspace :: k.high :: k.low :: k.rest

theorem bytes_injective {k k' : Key} (h : k.bytes = k'.bytes) : k = k' := by
  cases k
  cases k'
  simpa [bytes] using h

/-- Keys are ordered as their bytes are. -/
instance : Ord Key := ⟨compareOn bytes⟩

instance : TransOrd Key := inferInstanceAs (TransCmp (compareOn bytes))

instance : LawfulEqOrd Key where
  eq_of_compare h := bytes_injective (LawfulEqOrd.eq_of_compare h)

end Key

/-- The keyspaces of the server. -/
inductive Keyspace where
  | metadata
  | room
  | user
  | fedOut
  deriving DecidableEq

def Keyspace.byte : Keyspace → UInt8
  | .metadata => 0
  | .room => 1
  | .user => 2
  | .fedOut => 3

structure ShardId where
  keyspace : Keyspace
  index : UInt16
  deriving DecidableEq

def ShardId.text (shard : ShardId) : String :=
  let keyspace := match shard.keyspace with
    | .metadata => "Meta"
    | .room => "Room"
    | .user => "User"
    | .fedOut => "FedOut"
  keyspace ++ "/" ++ toString shard.index.toNat

/-- Put the prefix of a shard back in front of the bytes that follow it. -/
def rekey (shard : ShardId) (rest : Bytes) : Key :=
  ⟨shard.keyspace.byte, (shard.index >>> 8).toUInt8, shard.index.toUInt8, rest⟩

def key (shard : ShardId) (table : UInt8) (k : Bytes) : Key := rekey shard (table :: k)

def shardBounds (shard : ShardId) : Bytes × Bytes :=
  ((rekey shard []).bytes,
    if shard.index = 0xffff then [shard.keyspace.byte + 1]
    else (rekey ⟨shard.keyspace, shard.index + 1⟩ []).bytes)

/-- The bounds of one table. The last table byte falls back to bumping the shard, which no table of
the server needs. -/
def tableBounds (shard : ShardId) (table : UInt8) : Bytes × Bytes :=
  ((key shard table []).bytes,
    if table = 0xff then (rekey ⟨shard.keyspace, shard.index + 1⟩ []).bytes
    else (key shard (table + 1) []).bytes)

/-- `APP_TABLE_MIN`: tables below belong to the runtime. -/
def appTableMin : UInt8 := 8

def appBounds (shard : ShardId) : Bytes × Bytes :=
  ((key shard appTableMin []).bytes, (shardBounds shard).2)

/-! ## Engines and batches -/

abbrev Engine := OrdMap Key Bytes

inductive BatchOp where
  | put (k : Key) (value : Bytes)
  | delete (k : Key)
  /-- All keys in `[start, stop)`. -/
  | deleteRange (start stop : Bytes)
  deriving DecidableEq

abbrev WriteBatch := List BatchOp

/-- The keys in `[start, stop)`. -/
def between (start stop : Bytes) (k : Key) : Bool :=
  (compare start k.bytes).isLE && compare k.bytes stop == .lt

/-- Ordered scan of `[start, stop)`. -/
def Engine.range (e : Engine) (start stop : Bytes) : List (Key × Bytes) :=
  OrdMap.rows e (between start stop)

def BatchOp.apply (e : Engine) : BatchOp → Engine
  | .put k value => e.insert k value
  | .delete k => e.erase k
  | .deleteRange start stop => OrdMap.eraseRows e (e.range start stop)

def Engine.writeBatch (e : Engine) (wb : WriteBatch) : Engine := wb.foldl BatchOp.apply e

def BatchOp.tells (k : Key) : BatchOp → Option (Option Bytes)
  | .put k' value => if k' = k then some (some value) else none
  | .delete k' => if k' = k then some none else none
  | .deleteRange start stop => if between start stop k then some none else none

/-- What a key would read as if the batch were applied: `none` when the batch says nothing about it,
`some none` when it deletes it. -/
def staged (wb : WriteBatch) (k : Key) : Option (Option Bytes) :=
  wb.reverse.findSome? (BatchOp.tells k)

section Write

variable {e : Engine} {wb : WriteBatch} {op : BatchOp} {k : Key}

theorem BatchOp.getElem?_apply : (op.apply e)[k]? = (op.tells k).getD e[k]? := by
  cases op with
  | put k' value =>
    simp only [BatchOp.apply, BatchOp.tells, OrdMap.getElem?_insert']
    by_cases h : k = k' <;> simp [h, eq_comm]
  | delete k' =>
    simp only [BatchOp.apply, BatchOp.tells, OrdMap.getElem?_erase']
    by_cases h : k = k' <;> simp [h, eq_comm]
  | deleteRange start stop =>
    simp only [BatchOp.apply, BatchOp.tells, Engine.range, OrdMap.getElem?_eraseRows, OrdMap.mem_rows_keys]
    by_cases inside : between start stop k
    · by_cases held : k ∈ e
      · simp [inside, held]
      · simp [inside, held]
    · simp [inside]

theorem staged_append {wb' : WriteBatch} : staged (wb ++ wb') k = (staged wb' k).or (staged wb k) := by
  rw [staged, List.reverse_append, List.findSome?_append]
  rfl

theorem staged_singleton : staged [op] k = op.tells k := by
  simp [staged, List.findSome?_cons]
  cases op.tells k <;> rfl

theorem staged_concat : staged (wb ++ [op]) k = (op.tells k).or (staged wb k) := by
  rw [staged_append, staged_singleton]

theorem Engine.getElem?_writeBatch : (e.writeBatch wb)[k]? = (staged wb k).getD e[k]? := by
  induction wb using List.reverseRecOn with
  | nil => rfl
  | append_singleton wb op ih =>
    rw [Engine.writeBatch, List.foldl_append, List.foldl_cons, List.foldl_nil,
      BatchOp.getElem?_apply, staged_concat]
    change (op.tells k).getD (e.writeBatch wb)[k]? = _
    rw [ih]
    cases op.tells k <;> rfl

end Write

/-! ## The range of the application tables -/

def InApp (shard : ShardId) (k : Key) : Prop :=
  ∃ table rest, appTableMin ≤ table ∧ k = key shard table rest

theorem cons_lt {a b : UInt8} {as bs : Bytes} : compare (a :: as) (b :: bs) = .lt ↔
    a.toNat < b.toNat ∨ a.toNat = b.toNat ∧ compare as bs = .lt := by
  rw [List.compare_eq_compareLex, List.compareLex_cons_cons, Ordering.then_eq_lt,
    UInt8.compare_eq_toNat_compare_toNat, Nat.compare_eq_lt, Nat.compare_eq_eq]

theorem cons_isLE {a b : UInt8} {as bs : Bytes} : (compare (a :: as) (b :: bs)).isLE ↔
    a.toNat < b.toNat ∨ a.toNat = b.toNat ∧ (compare as bs).isLE := by
  rw [List.compare_eq_compareLex, List.compareLex_cons_cons, UInt8.compare_eq_toNat_compare_toNat]
  rcases Nat.lt_trichotomy a.toNat b.toNat with h | h | h
  · simp [Nat.compare_eq_lt.2 h, h]
  · simp [h]
  · simp [Nat.compare_eq_gt.2 h, Nat.not_lt.2 h.le, h.ne']

theorem nil_isLE (k : Bytes) : (compare [] k).isLE = true := by cases k <;> simp

theorem cons_isLE_nil {a : UInt8} {as : Bytes} : (compare (a :: as) []).isLE = false := by simp

theorem not_lt_nil {k : Bytes} : compare k [] ≠ .lt := by cases k <;> simp

theorem high_toNat (index : UInt16) : (index >>> 8).toUInt8.toNat = index.toNat / 256 := by
  have := index.toNat_lt
  simp [UInt16.toNat_toUInt8, UInt16.toNat_shiftRight, Nat.shiftRight_eq_div_pow]
  omega

theorem low_toNat (index : UInt16) : index.toUInt8.toNat = index.toNat % 256 := by
  simp [UInt16.toNat_toUInt8]

/-- The next shard's index, unless there is none. -/
theorem index_succ {index : UInt16} (more : index ≠ 0xffff) : (index + 1).toNat = index.toNat + 1 := by
  have bound := index.toNat_lt
  have : index.toNat ≠ 65535 := fun h => more (UInt16.toNat_inj.1 h)
  rw [UInt16.toNat_add]
  simp
  omega

theorem byte_succ {keyspace : Keyspace} : (keyspace.byte + 1).toNat = keyspace.byte.toNat + 1 := by
  cases keyspace <;> decide

theorem inApp_iff {shard : ShardId} {k : Key} : InApp shard k ↔
    ∃ table rest, k.rest = table :: rest ∧ k.keyspace.toNat = shard.keyspace.byte.toNat ∧
      k.high.toNat = shard.index.toNat / 256 ∧ k.low.toNat = shard.index.toNat % 256 ∧
      8 ≤ table.toNat := by
  simp only [← high_toNat, ← low_toNat, UInt8.toNat_inj]
  constructor
  · rintro ⟨table, rest, h, rfl⟩
    exact ⟨table, rest, rfl, rfl, rfl, rfl, UInt8.le_iff_toNat_le.1 h⟩
  · obtain ⟨keyspace, high, low, rest⟩ := k
    rintro ⟨table, rest, rfl, rfl, rfl, rfl, h⟩
    exact ⟨table, rest, UInt8.le_iff_toNat_le.2 h, rfl⟩

theorem between_appBounds {shard : ShardId} {k : Key} :
    between (appBounds shard).1 (appBounds shard).2 k = true ↔ InApp shard k := by
  rw [inApp_iff]
  obtain ⟨keyspace, index⟩ := shard
  obtain ⟨a, b, c, rest⟩ := k
  have bound := index.toNat_lt
  have hb := b.toNat_lt
  have hc := c.toNat_lt
  have min : appTableMin.toNat = 8 := rfl
  simp only [between, appBounds, shardBounds, key, rekey, Key.bytes, Bool.and_eq_true, beq_iff_eq]
  by_cases last : index = 0xffff
  · have full : index.toNat = 65535 := by rw [last]; rfl
    rw [if_pos last]
    rcases rest with _ | ⟨table, rest⟩
    all_goals simp only [cons_isLE, cons_lt, nil_isLE, cons_isLE_nil, not_lt_nil,
      high_toNat index, low_toNat index, byte_succ, min, full]
    all_goals simp
    all_goals omega
  · rw [if_neg last]
    rcases rest with _ | ⟨table, rest⟩
    all_goals simp only [cons_isLE, cons_lt, nil_isLE, cons_isLE_nil, not_lt_nil,
      high_toNat index, low_toNat index, high_toNat (index + 1), low_toNat (index + 1),
      index_succ last, min]
    all_goals simp
    all_goals omega

end Saltator.Shard
