import Saltator.Shard.Context

/-!
# The bounds of a table, a shard and a prefix

Rows are found, moved and dropped by ranges of key bytes. A range's upper bound is its prefix with
the last byte incremented, so the ends of the byte range decide whether the bound still encloses the
rows that were meant.
-/

namespace Saltator.Shard

open Std

/-! ## The end of a prefix -/

/-- `prefix_end` on the bytes last to first: increment the last byte below `0xff`, dropping those
after it. -/
def popFull : Bytes → Bytes
  | [] => []
  | last :: rest => if last < 0xff then (last + 1) :: rest else popFull rest

def prefixEnd (start : Bytes) : Bytes := (popFull start.reverse).reverse

/-- The exclusive upper bound of a user's keys. -/
def userEnd (userId : Bytes) : Bytes := userId ++ [1]

theorem prefixEnd_append_singleton (start : Bytes) (last : UInt8) : prefixEnd (start ++ [last]) =
    if last < 0xff then start ++ [last + 1] else prefixEnd start := by
  rw [prefixEnd, List.reverse_append, List.reverse_singleton, List.singleton_append, popFull]
  split
  · simp
  · rfl

theorem prefixEnd_user (userId : Bytes) : prefixEnd (userId ++ [0]) = userEnd userId :=
  prefixEnd_append_singleton userId 0

theorem compare_append (l a b : Bytes) : compare (l ++ a) (l ++ b) = compare a b := by
  induction l with
  | nil => rfl
  | cons c l ih =>
    rw [List.compare_eq_compareLex] at ih ⊢
    rw [List.cons_append, List.cons_append, List.compareLex_cons_cons, ReflOrd.compare_self, ih]
    rfl

theorem append_isLE {l a b : Bytes} :
    (compare (l ++ a) (l ++ b)).isLE = true ↔ (compare a b).isLE = true := by
  rw [compare_append]

theorem prefix_iff_lt {start k : Bytes} {last : UInt8} (room : last.toNat < 255) :
    (compare (start ++ [last]) k).isLE ∧ compare k (start ++ [last + 1]) = .lt ↔ start ++ [last] <+: k := by
  have next : (last + 1).toNat = last.toNat + 1 := by
    rw [UInt8.toNat_add]
    simp
    omega
  induction start generalizing k with
  | nil =>
    cases k with
    | nil => simp
    | cons c k =>
      have tail : ∀ l : Bytes, (compare [] l).isLE = true := nil_isLE
      simp only [List.nil_append, cons_isLE, cons_lt, next, tail, not_lt_nil,
        List.cons_prefix_cons, List.nil_prefix, ← UInt8.toNat_inj]
      grind
  | cons b start ih =>
    cases k with
    | nil => simp
    | cons c k =>
      simp only [List.cons_append, cons_isLE, cons_lt, List.cons_prefix_cons, ← ih, ← UInt8.toNat_inj]
      grind

theorem prefix_iff_prefixEnd {start k : Bytes} : (compare start k).isLE ∧
    (prefixEnd start = [] ∨ compare k (prefixEnd start) = .lt) ↔ start <+: k := by
  induction start using List.reverseRecOn generalizing k with
  | nil => simp [prefixEnd, popFull, nil_isLE]
  | append_singleton start last ih =>
    rw [prefixEnd_append_singleton]
    split
    · next room =>
      rw [← prefix_iff_lt (UInt8.lt_iff_toNat_lt.1 room)]
      simp
    · next full =>
      have byte : last.toNat = 255 := by
        have := last.toNat_lt
        have := mt UInt8.lt_iff_toNat_lt.2 full
        simp at this
        omega
      have below : (compare start (start ++ [last])).isLE := by
        simpa [nil_isLE] using (append_isLE (l := start) (a := []) (b := [last])).2 (nil_isLE _)
      constructor
      · rintro ⟨above, stop⟩
        obtain ⟨rest, rfl⟩ := ih.1 ⟨TransCmp.isLE_trans below above, stop⟩
        rw [append_isLE] at above
        rw [List.prefix_append_right_inj]
        cases rest with
        | nil => simp at above
        | cons c rest =>
          have bound := c.toNat_lt
          have same : last.toNat = c.toNat := by
            have := cons_isLE.1 above
            omega
          simpa using UInt8.toNat_inj.1 same
      · rintro ⟨rest, rfl⟩
        have inside := (ih (k := start ++ [last] ++ rest)).2 ⟨[last] ++ rest, by simp⟩
        refine ⟨?_, inside.2⟩
        simpa using (append_isLE (l := start ++ [last]) (a := []) (b := rest)).2 (nil_isLE _)

/-! ## Exact bounds -/

variable {shard : ShardId}

/-- Of all keys that are built, those of the table lie in its bounds. -/
def TableExact (shard : ShardId) (table : UInt8) : Prop := ∀ shard' table' k,
  between (tableBounds shard table).1 (tableBounds shard table).2 (key shard' table' k) = true ↔
    shard' = shard ∧ table' = table

/-- Of all keys that are built, those of the shard lie in its bounds. -/
def ShardExact (shard : ShardId) : Prop := ∀ shard' table' k,
  between (shardBounds shard).1 (shardBounds shard).2 (key shard' table' k) = true ↔ shard' = shard

/-- Of all keys that are built, those of the table that extend `start` lie in the bounds of the scan
over `[start, stop)`. -/
def ScanExact (shard : ShardId) (table : AppTable) (start stop : Bytes) : Prop :=
  ∀ shard' table' k, between (ApplyCtx.bounds shard table start stop).1
      (ApplyCtx.bounds shard table start stop).2 (key shard' table' k) = true ↔
    shard' = shard ∧ table' = table.id ∧ start <+: k

theorem Keyspace.byte_inj {keyspace keyspace' : Keyspace} :
    keyspace'.byte.toNat = keyspace.byte.toNat ↔ keyspace' = keyspace := by
  cases keyspace <;> cases keyspace' <;> decide

theorem shard_eq_iff {shard' : ShardId} : shard' = shard ↔
    shard'.keyspace.byte.toNat = shard.keyspace.byte.toNat ∧ shard'.index.toNat = shard.index.toNat := by
  rw [Keyspace.byte_inj, UInt16.toNat_inj]
  cases shard
  cases shard'
  exact ShardId.mk.injEq .. ▸ Iff.rfl

theorem table_succ {table : UInt8} (more : table ≠ 0xff) : (table + 1).toNat = table.toNat + 1 := by
  have bound := table.toNat_lt
  have : table.toNat ≠ 255 := fun h => more (UInt8.toNat_inj.1 h)
  rw [UInt8.toNat_add]
  simp
  omega

theorem shardExact : ShardExact shard := by
  intro shard' table' k
  have bound := shard.index.toNat_lt
  have bound' := shard'.index.toNat_lt
  rw [shard_eq_iff]
  simp only [between, shardBounds, key, rekey, Key.bytes, Bool.and_eq_true, beq_iff_eq]
  by_cases last : shard.index = 0xffff
  · have full : shard.index.toNat = 65535 := by rw [last]; rfl
    rw [if_pos last]
    simp only [cons_isLE, cons_lt, nil_isLE, not_lt_nil, and_true, and_false, or_false,
      ↓high_toNat, low_toNat, byte_succ, full]
    omega
  · rw [if_neg last]
    simp only [cons_isLE, cons_lt, nil_isLE, not_lt_nil, and_true, and_false, or_false,
      ↓high_toNat, low_toNat, index_succ last]
    omega

theorem tableExact {table : UInt8} (room : ¬ (shard.index = 0xffff ∧ table = 0xff)) :
    TableExact shard table := by
  intro shard' table' k
  have bound := shard.index.toNat_lt
  have bound' := shard'.index.toNat_lt
  have small := table'.toNat_lt
  rw [shard_eq_iff, ← UInt8.toNat_inj]
  simp only [between, tableBounds, key, rekey, Key.bytes, Bool.and_eq_true, beq_iff_eq]
  by_cases last : table = 0xff
  · have full : table.toNat = 255 := by rw [last]; rfl
    have more : shard.index ≠ 0xffff := fun h => room ⟨h, last⟩
    rw [if_pos last]
    simp only [cons_isLE, cons_lt, nil_isLE, not_lt_nil, and_true, and_false, or_false,
      ↓high_toNat, low_toNat, index_succ more, full]
    omega
  · rw [if_neg last]
    simp only [cons_isLE, cons_lt, nil_isLE, not_lt_nil, and_true, and_false, or_false,
      ↓high_toNat, low_toNat, table_succ last]
    omega

theorem not_tableExact_last {keyspace : Keyspace} : ¬ TableExact ⟨keyspace, 0xffff⟩ 0xff := by
  intro exact
  have inside := (exact ⟨keyspace, 0xffff⟩ 0xff []).2 ⟨rfl, rfl⟩
  cases keyspace <;> exact absurd inside (by decide)

theorem scanExact {table : AppTable} {start : Bytes} : ScanExact shard table start (prefixEnd start) := by
  intro shard' table' k
  have bound := shard.index.toNat_lt
  have bound' := shard'.index.toNat_lt
  rw [shard_eq_iff, ← UInt8.toNat_inj, ← prefix_iff_prefixEnd]
  simp only [between, ApplyCtx.bounds, tableBounds, if_neg table.bounded, key, rekey, Key.bytes,
    Bool.and_eq_true, beq_iff_eq]
  by_cases whole : prefixEnd start = []
  · rw [if_pos whole]
    simp only [cons_isLE, cons_lt, not_lt_nil, ↓high_toNat, low_toNat, table_succ table.bounded, whole]
    grind
  · rw [if_neg whole]
    simp only [cons_isLE, cons_lt, ↓high_toNat, low_toNat, whole]
    grind

/-- Of every shard and table, the table's bounds, the shard's and those of the scans for a prefix, a
user's among them, enclose exactly the keys that were meant, unless it is the last table of the last
shard. -/
theorem bounds_exact_iff (shard : ShardId) (table : UInt8) : (TableExact shard table ∧ ShardExact shard ∧
      (∀ table start, ScanExact shard table start (prefixEnd start)) ∧
      ∀ table userId, ScanExact shard table (userId ++ [0]) (userEnd userId)) ↔
    ¬ (shard.index = 0xffff ∧ table = 0xff) := by
  constructor
  · rintro ⟨exact, -⟩ ⟨last, full⟩
    obtain ⟨keyspace, index⟩ := shard
    subst last full
    exact not_tableExact_last exact
  · intro room
    refine ⟨tableExact room, shardExact, fun _ _ => scanExact, fun table userId => ?_⟩
    rw [← prefixEnd_user]
    exact scanExact

/-- The last table of the last room shard: its own first key is outside its bounds. -/
theorem tableBounds_wraps : ¬ ∀ (shard : ShardId) (table : UInt8), TableExact shard table := by
  intro exact
  exact not_tableExact_last (exact ⟨.room, 0xffff⟩ 0xff)

end Saltator.Shard
