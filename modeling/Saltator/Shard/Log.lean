import Saltator.Shard.Bounds
import Saltator.Shard.Storage

/-!
# The Raft log of a shard

The entries of the log are rows of a runtime table, in the order of their indexes, and the last purged
entry is a cell of another. The store behaves as a map from indexes to entries with a purge marker, as
long as no index is the last that fits 64 bits: the code adds one to the index that it purges up to and
to the ends of a range.
-/

namespace Saltator.Shard.Storage

open Std
open Saltator.Outcome

/-! ## The store -/

def tLog : UInt8 := 0

def kVote : Bytes := utf8 "vote"

inductive IndexBound where
  | included (i : Nat)
  | excluded (i : Nat)
  | unbounded

def nextIndex (i : Nat) : Nat := (i + 1) % 2 ^ 64

def IndexBound.start : IndexBound → Nat
  | .included i => i
  | .excluded i => nextIndex i
  | .unbounded => 0

def IndexBound.stop : IndexBound → Nat
  | .included i => nextIndex i
  | .excluded i => i
  | .unbounded => 2 ^ 64 - 1

structure LogState where
  lastPurgedLogId : Option LogId
  lastLogId : Option LogId
  deriving DecidableEq

inductive LogCall where
  | append (entries : List Entry)
  | truncate (l : LogId)
  | purge (l : LogId)
  | saveVote (vote : Bytes)
  | saveCommitted (committed : Option LogId)

section Store

variable (fmt : Format) (entryCodec : Codec Entry) (shard : ShardId) (e : Engine)

def logKey (index : Nat) : Key := key shard tLog (bigEndian 8 index)

def raftKey (k : Bytes) : Key := key shard tRaft k

def logBounds : Bytes × Bytes := tableBounds shard tLog

protected def getMeta {α : Type} (c : Codec α) (k : Bytes) : Except StorageError (Option α) :=
  match e[raftKey shard k]? with
  | some b => return some (← decode fmt c b)
  | none => .ok none

/-- The last entry, found from the end of the table. -/
def lastLogId : Except StorageError (Option LogId) :=
  match (e.range (logBounds shard).1 (logBounds shard).2).getLast? with
  | some row => return some (← decode fmt entryCodec row.2).logId
  | none => .ok none

def tryGetLogEntries (start stop : IndexBound) : Except StorageError (List Entry) :=
  let endKey := if stop.stop = 2 ^ 64 - 1 then (logBounds shard).2
    else (logKey shard stop.stop).bytes
  (e.range (logKey shard start.start).bytes endKey).mapM fun row => decode fmt entryCodec row.2

def getLogState : Except StorageError LogState := do
  let lastPurged := (← Storage.getMeta fmt shard e (fmt.option fmt.logId) kLastPurged).join
  return ⟨lastPurged, (← lastLogId fmt entryCodec shard e).or lastPurged⟩

def LogCall.batch : LogCall → Except StorageError WriteBatch
  | .append entries => entries.mapM fun entry => do
    return .put (logKey shard entry.logId.index) (← encode fmt entryCodec entry)
  | .truncate l => .ok [.deleteRange (logKey shard l.index).bytes (logBounds shard).2]
  | .purge l => do
    return [.put (raftKey shard kLastPurged) (← encode fmt (fmt.option fmt.logId) (some l)),
      .deleteRange (logBounds shard).1 (logKey shard (nextIndex l.index)).bytes]
  | .saveVote vote => .ok [.put (raftKey shard kVote) vote]
  | .saveCommitted committed => do
    return [.put (raftKey shard kCommitted) (← encode fmt (fmt.option fmt.logId) committed)]

end Store

/-! ## The abstract log -/

structure RaftLog where
  entries : OrdMap Nat Entry
  lastPurged : Option LogId

namespace RaftLog

def empty : RaftLog := ⟨∅, none⟩

def call (log : RaftLog) : LogCall → RaftLog
  | .append entries =>
    { log with entries := OrdMap.extend log.entries (entries.map fun entry => (entry.logId.index, entry)) }
  | .truncate l => { log with entries := OrdMap.eraseRows log.entries (log.entries.rows fun i => l.index ≤ i) }
  | .purge l => ⟨OrdMap.eraseRows log.entries (log.entries.rows fun i => i ≤ l.index), some l⟩
  | .saveVote _ | .saveCommitted _ => log

def state (log : RaftLog) : LogState :=
  ⟨log.lastPurged, (log.entries.vals.getLast?.map Entry.logId).or log.lastPurged⟩

end RaftLog

def IndexBound.reached : IndexBound → Nat → Bool
  | .included a, i => a ≤ i
  | .excluded a, i => a < i
  | .unbounded, _ => true

def IndexBound.open : IndexBound → Nat → Bool
  | .included a, i => i ≤ a
  | .excluded a, i => i < a
  | .unbounded, _ => true

def IndexBound.FitsStart : IndexBound → Prop
  | .included i => i < 2 ^ 64
  | .excluded i => i + 1 < 2 ^ 64
  | .unbounded => True

/-- The end of a range fits 64 bits when one is added to it. -/
def IndexBound.FitsStop : IndexBound → Prop
  | .included i => i + 1 < 2 ^ 64
  | .excluded i => i < 2 ^ 64
  | .unbounded => True

def LogCall.Fits : LogCall → Prop
  | .append entries => ∀ entry ∈ entries, entry.logId.index < 2 ^ 64 - 1
  | .truncate l => l.index < 2 ^ 64
  | .purge l => l.index < 2 ^ 64 - 1
  | .saveVote _ | .saveCommitted _ => True

def RaftLog.between (log : RaftLog) (start stop : IndexBound) : List Entry :=
  (log.entries.rows fun i => start.reached i && stop.open i).map Prod.snd

/-! ## Keys in the order of the indexes -/

theorem length_bigEndian (width n : Nat) : (bigEndian width n).length = width := by
  induction width generalizing n with
  | zero => rfl
  | succ width ih => simp [bigEndian, ih]

theorem compare_concat {a b : Bytes} (same : a.length = b.length) (x y : UInt8) :
    compare (a ++ [x]) (b ++ [y]) = (compare a b).then (compare x y) := by
  induction a generalizing b with
  | nil =>
    obtain rfl := List.eq_nil_of_length_eq_zero same.symm
    simp
  | cons c a ih =>
    cases b with
    | nil => cases same
    | cons d b =>
      have ih := ih (Nat.succ.inj same)
      simp only [List.compare_eq_compareLex] at ih ⊢
      simp only [List.cons_append, List.compareLex_cons_cons, ih, Ordering.then_assoc]

theorem compare_digits (m n : Nat) :
    compare m n = (compare (m / 256) (n / 256)).then (compare (m % 256) (n % 256)) := by
  rcases Nat.lt_trichotomy (m / 256) (n / 256) with h | h | h
  · rw [Nat.compare_eq_lt.2 h, Nat.compare_eq_lt.2 (by omega)]
    rfl
  · rw [Nat.compare_eq_eq.2 h, Ordering.eq_then]
    rcases Nat.lt_trichotomy (m % 256) (n % 256) with l | l | l
    · rw [Nat.compare_eq_lt.2 l, Nat.compare_eq_lt.2 (by omega)]
    · rw [Nat.compare_eq_eq.2 l, Nat.compare_eq_eq.2 (by omega)]
    · rw [Nat.compare_eq_gt.2 l, Nat.compare_eq_gt.2 (by omega)]
  · rw [Nat.compare_eq_gt.2 h, Nat.compare_eq_gt.2 (by omega)]
    rfl

theorem compare_bigEndian {width m n : Nat} (hm : m < 256 ^ width) (hn : n < 256 ^ width) :
    compare (bigEndian width m) (bigEndian width n) = compare m n := by
  induction width generalizing m n with
  | zero =>
    obtain rfl := Nat.lt_one_iff.1 hm
    obtain rfl := Nat.lt_one_iff.1 hn
    rfl
  | succ width ih =>
    rw [Nat.pow_succ] at hm hn
    rw [bigEndian, bigEndian, compare_concat (by simp only [length_bigEndian]),
      ih (Nat.div_lt_of_lt_mul (by omega)) (Nat.div_lt_of_lt_mul (by omega)), compare_digits m n,
      UInt8.compare_eq_toNat_compare_toNat, UInt8.toNat_ofNat', UInt8.toNat_ofNat']

section Keys

variable {shard : ShardId} {lo up i j : Nat}

theorem compare_logKey (hi : i < 2 ^ 64) (hj : j < 2 ^ 64) :
    compare (logKey shard i).bytes (logKey shard j).bytes = compare i j := by
  have bytes (n : Nat) : (logKey shard n).bytes = (key shard tLog []).bytes ++ bigEndian 8 n := rfl
  rw [bytes, bytes, compare_append, compare_bigEndian hi hj]

theorem logKey_inj (hi : i < 2 ^ 64) (hj : j < 2 ^ 64) : logKey shard i = logKey shard j ↔ i = j := by
  refine ⟨fun same => ?_, fun same => same ▸ rfl⟩
  rw [← Nat.compare_eq_eq, ← compare_logKey hi hj, same, ReflOrd.compare_self]

theorem inLog {table : UInt8} {k : Bytes} :
    Shard.between (logBounds shard).1 (logBounds shard).2 (key shard table k) = true ↔ table = tLog := by
  have exact_ : TableExact shard tLog := tableExact fun last => absurd last.2 (by decide)
  simpa [logBounds] using exact_ shard table k

theorem logKey_inLog : (compare (logBounds shard).1 (logKey shard i).bytes).isLE = true ∧
    compare (logKey shard i).bytes (logBounds shard).2 = .lt := by
  have own : Shard.between (logBounds shard).1 (logBounds shard).2 (logKey shard i) = true := inLog.2 rfl
  simpa only [Shard.between, Bool.and_eq_true, beq_iff_eq] using own

theorem between_from (hlo : lo < 2 ^ 64) (hi : i < 2 ^ 64) :
    Shard.between (logKey shard lo).bytes (logBounds shard).2 (logKey shard i) = decide (lo ≤ i) := by
  rw [Bool.eq_iff_iff, Shard.between, compare_logKey hlo hi, logKey_inLog.2]
  simp [Nat.isLE_compare]

theorem between_upTo (hup : up < 2 ^ 64) (hi : i < 2 ^ 64) :
    Shard.between (logBounds shard).1 (logKey shard up).bytes (logKey shard i) = decide (i < up) := by
  rw [Bool.eq_iff_iff, Shard.between, compare_logKey hi hup, logKey_inLog.1]
  simp [Nat.compare_eq_lt]

theorem inLog_of_between {start stop : Bytes} {k : Key}
    (above : (compare (logBounds shard).1 start).isLE = true)
    (below : (compare stop (logBounds shard).2).isLE = true) (h : Shard.between start stop k = true) :
    Shard.between (logBounds shard).1 (logBounds shard).2 k = true := by
  simp only [Shard.between, Bool.and_eq_true, beq_iff_eq] at h ⊢
  exact ⟨TransCmp.isLE_trans above h.1, TransCmp.lt_of_lt_of_isLE h.2 below⟩

end Keys

/-! ## Refinement -/

/-- The store holds the entries of the abstract log, and nothing else in their table. -/
structure Refines (fmt : Format) (entryCodec : Codec Entry) (shard : ShardId) (e : Engine)
    (log : RaftLog) : Prop where
  bounded : ∀ i ∈ log.entries, i < 2 ^ 64 - 1
  written : ∀ (i : Nat) entry, log.entries[i]? = some entry → (entryCodec.encode entry).isSome
  rows : ∀ i < 2 ^ 64, e[logKey shard i]? = log.entries[i]?.bind entryCodec.encode
  only : ∀ k ∈ e, Shard.between (logBounds shard).1 (logBounds shard).2 k = true →
    ∃ i < 2 ^ 64, k = logKey shard i
  purged : Storage.getMeta fmt shard e (fmt.option fmt.logId) kLastPurged = .ok (log.lastPurged.map some)

namespace Refines

variable {fmt : Format} {entryCodec : Codec Entry} {shard : ShardId} {e : Engine} {log : RaftLog}

theorem range (h : Refines fmt entryCodec shard e log) {start stop : Bytes} {p : Nat → Bool}
    (above : (compare (logBounds shard).1 start).isLE = true)
    (below : (compare stop (logBounds shard).2).isLE = true)
    (inside : ∀ i < 2 ^ 64 - 1, Shard.between start stop (logKey shard i) = p i) :
    e.range start stop = (log.entries.rows p).map fun row =>
      (logKey shard row.1, (entryCodec.encode row.2).getD []) := by
  refine OrdMap.eq_of_sorted (e.ordered_keys_toList.filter _) ?_ ?_
  · refine List.pairwise_map.2 ((log.entries.ordered_keys_toList.filter _).imp_of_mem ?_)
    intro a b ha hb less
    have bound {r : Nat × Entry} (mem : r ∈ log.entries.rows p) : r.1 < 2 ^ 64 - 1 :=
      h.bounded r.1 (OrdMap.mem_iff_getElem?.2 ⟨r.2, (OrdMap.mem_rows.1 mem).1⟩)
    have := bound ha
    have := bound hb
    exact (compare_logKey (by omega) (by omega)).trans less
  · rintro ⟨k, v⟩
    rw [Engine.range, OrdMap.mem_rows, List.mem_map]
    constructor
    · rintro ⟨held, between⟩
      obtain ⟨i, small, rfl⟩ := h.only k (OrdMap.mem_iff_getElem?.2 ⟨v, held⟩)
        (inLog_of_between above below between)
      rw [h.rows i small] at held
      obtain ⟨entry, listed, enc⟩ := Option.bind_eq_some_iff.1 held
      rw [inside i (h.bounded i (OrdMap.mem_iff_getElem?.2 ⟨entry, listed⟩))] at between
      exact ⟨(i, entry), OrdMap.mem_rows.2 ⟨listed, between⟩, by rw [enc]; rfl⟩
    · rintro ⟨⟨i, entry⟩, mem, same⟩
      obtain ⟨rfl, rfl⟩ := Prod.mk.inj same
      obtain ⟨listed, selected⟩ := OrdMap.mem_rows.1 mem
      have small := h.bounded i (OrdMap.mem_iff_getElem?.2 ⟨entry, listed⟩)
      obtain ⟨b, enc⟩ := Option.isSome_iff_exists.1 (h.written i entry listed)
      rw [h.rows i (by omega), listed, Option.bind_some, enc, inside i small]
      exact ⟨rfl, selected⟩

theorem decode_row (h : Refines fmt entryCodec shard e log) {p : Nat → Bool} {row : Nat × Entry}
    (mem : row ∈ log.entries.rows p) :
    decode fmt entryCodec ((entryCodec.encode row.2).getD []) = .ok row.2 := by
  obtain ⟨b, enc⟩ := Option.isSome_iff_exists.1 (h.written row.1 row.2 (OrdMap.mem_rows.1 mem).1)
  rw [enc, Option.getD_some, decode, entryCodec.fromBytes_encode enc]

theorem state (h : Refines fmt entryCodec shard e log) :
    getLogState fmt entryCodec shard e = .ok log.state := by
  have all := h.range (p := fun _ => true) ReflOrd.isLE_rfl ReflOrd.isLE_rfl fun i _ =>
    inLog.2 rfl
  have last : lastLogId fmt entryCodec shard e = .ok (log.entries.vals.getLast?.map Entry.logId) := by
    unfold lastLogId
    rw [all, OrdMap.vals, List.getLast?_map, List.getLast?_map]
    have rows : log.entries.rows (fun _ => true) = log.entries.toList := List.filter_true _
    cases final : log.entries.toList.getLast? with
    | none => simp [rows, final]
    | some row =>
      have read := h.decode_row (p := fun _ => true) (rows ▸ List.mem_of_getLast? final)
      simp only [rows, final, Option.map_some, read, ok_bind]
      rfl
  rw [getLogState, h.purged, ok_bind, last, ok_bind, RaftLog.state]
  cases log.lastPurged <;> rfl

theorem entries (h : Refines fmt entryCodec shard e log) {start stop : IndexBound}
    (first : start.FitsStart) (final : stop.FitsStop) :
    tryGetLogEntries fmt entryCodec shard e start stop = .ok (log.between start stop) := by
  have from_ : start.start < 2 ^ 64 ∧ ∀ i, start.reached i = decide (start.start ≤ i) := by
    cases start with
    | included a => exact ⟨first, fun _ => rfl⟩
    | excluded a =>
      have next : nextIndex a = a + 1 := Nat.mod_eq_of_lt first
      refine ⟨by rw [IndexBound.start, next]; exact first, fun i => ?_⟩
      rw [IndexBound.reached, IndexBound.start, next, decide_eq_decide]
      omega
    | unbounded => exact ⟨by decide, fun i => by simp [IndexBound.reached, IndexBound.start]⟩
  have upTo : stop.stop < 2 ^ 64 ∧ ∀ i < 2 ^ 64 - 1, stop.open i = decide (i < stop.stop) := by
    cases stop with
    | included a =>
      have next : nextIndex a = a + 1 := Nat.mod_eq_of_lt final
      refine ⟨by rw [IndexBound.stop, next]; exact final, fun i _ => ?_⟩
      rw [IndexBound.open, IndexBound.stop, next, decide_eq_decide]
      omega
    | excluded a => exact ⟨final, fun _ _ => rfl⟩
    | unbounded => exact ⟨by decide, fun i small => (decide_eq_true small).symm⟩
  unfold tryGetLogEntries RaftLog.between
  dsimp only
  rw [h.range (p := fun i => start.reached i && stop.open i) logKey_inLog.1, List.mapM_map]
  · exact mapM_ok fun row mem => h.decode_row mem
  · split
    · exact ReflOrd.isLE_rfl
    · rw [logKey_inLog.2]
      rfl
  · intro i small
    rw [from_.2, upTo.2 i small]
    split
    · next last =>
      rw [between_from from_.1 (by omega), last, decide_eq_true small, Bool.and_true]
    · rw [Shard.between, compare_logKey from_.1 (by omega), compare_logKey (by omega) upTo.1,
        Bool.eq_iff_iff]
      simp [Nat.isLE_compare, Nat.compare_eq_lt]

/-! ### One call -/

theorem put (h : Refines fmt entryCodec shard e log) {entry : Entry} {b : Bytes}
    (enc : entryCodec.encode entry = some b) (small : entry.logId.index < 2 ^ 64 - 1) :
    Refines fmt entryCodec shard (e.insert (logKey shard entry.logId.index) b)
      { log with entries := log.entries.insert entry.logId.index entry } where
  bounded i mem := by
    rw [ExtTreeMap.mem_insert, LawfulEqOrd.compare_eq_iff_eq] at mem
    obtain rfl | mem := mem
    · exact small
    · exact h.bounded i mem
  written i other listed := by
    rw [OrdMap.getElem?_insert'] at listed
    split at listed
    · rw [← Option.some.inj listed, enc]
      rfl
    · exact h.written i other listed
  rows i bound := by
    rw [OrdMap.getElem?_insert', OrdMap.getElem?_insert']
    by_cases same : i = entry.logId.index
    · rw [if_pos (congrArg (logKey shard) same), if_pos same]
      exact enc.symm
    · rw [if_neg (mt (logKey_inj bound (by omega)).1 same), if_neg same]
      exact h.rows i bound
  only k mem inside := by
    rw [ExtTreeMap.mem_insert, LawfulEqOrd.compare_eq_iff_eq] at mem
    obtain rfl | mem := mem
    · exact ⟨_, by omega, rfl⟩
    · exact h.only k mem inside
  purged := by
    have other : raftKey shard kLastPurged ≠ logKey shard entry.logId.index := fun same => by
      simp [raftKey, logKey, key, rekey, tRaft, tLog] at same
    rw [Storage.getMeta, OrdMap.getElem?_insert', if_neg other]
    exact h.purged

theorem cell (h : Refines fmt entryCodec shard e log) {k v : Bytes} {purged : Option LogId}
    (reads : Storage.getMeta fmt shard (e.insert (raftKey shard k) v) (fmt.option fmt.logId) kLastPurged =
      .ok (purged.map some)) :
    Refines fmt entryCodec shard (e.insert (raftKey shard k) v) { log with lastPurged := purged } where
  bounded := h.bounded
  written := h.written
  rows i bound := by
    have other : logKey shard i ≠ raftKey shard k := fun same => by
      simp [raftKey, logKey, key, rekey, tRaft, tLog] at same
    rw [OrdMap.getElem?_insert', if_neg other]
    exact h.rows i bound
  only k' mem inside := by
    rw [ExtTreeMap.mem_insert, LawfulEqOrd.compare_eq_iff_eq] at mem
    obtain rfl | mem := mem
    · exact absurd (inLog.1 inside) (by decide)
    · exact h.only k' mem inside
  purged := reads

theorem otherCell (h : Refines fmt entryCodec shard e log) {k : Bytes} (v : Bytes)
    (other : kLastPurged ≠ k) : Refines fmt entryCodec shard (e.insert (raftKey shard k) v) log := by
  refine (h.cell ?_ : Refines fmt entryCodec shard _ { log with lastPurged := log.lastPurged })
  have differs : raftKey shard kLastPurged ≠ raftKey shard k := fun same => other (by
    simpa [raftKey, key, rekey] using same)
  rw [Storage.getMeta, OrdMap.getElem?_insert', if_neg differs]
  exact h.purged

theorem delete (h : Refines fmt entryCodec shard e log) {start stop : Bytes} {p : Nat → Bool}
    (above : (compare (logBounds shard).1 start).isLE = true)
    (below : (compare stop (logBounds shard).2).isLE = true)
    (inside : ∀ i < 2 ^ 64, Shard.between start stop (logKey shard i) = p i) :
    Refines fmt entryCodec shard (BatchOp.apply e (.deleteRange start stop))
      { log with entries := OrdMap.eraseRows log.entries (log.entries.rows p) } := by
  have left (i : Nat) : (OrdMap.eraseRows log.entries (log.entries.rows p))[i]? =
      if p i then none else log.entries[i]? := by
    rw [OrdMap.getElem?_eraseRows]
    by_cases held : i ∈ log.entries
    · simp [OrdMap.mem_rows_keys, held]
    · simp [OrdMap.mem_rows_keys, held]
  refine ⟨fun i mem => ?_, fun i entry listed => ?_, fun i bound => ?_, fun k mem within => ?_, ?_⟩
  · obtain ⟨entry, listed⟩ := OrdMap.mem_iff_getElem?.1 mem
    rw [left] at listed
    split at listed
    · cases listed
    · exact h.bounded i (OrdMap.mem_iff_getElem?.2 ⟨entry, listed⟩)
  · rw [left] at listed
    split at listed
    · cases listed
    · exact h.written i entry listed
  · rw [BatchOp.getElem?_apply, BatchOp.tells, inside i bound, left, h.rows i bound]
    split <;> rfl
  · obtain ⟨v, held⟩ := OrdMap.mem_iff_getElem?.1 mem
    rw [BatchOp.getElem?_apply, BatchOp.tells] at held
    split at held
    · cases held
    · exact h.only k (OrdMap.mem_iff_getElem?.2 ⟨v, held⟩) within
  · have outside : Shard.between start stop (raftKey shard kLastPurged) ≠ true := fun within =>
      absurd (inLog.1 (inLog_of_between above below within)) (by decide)
    rw [Storage.getMeta, BatchOp.getElem?_apply, BatchOp.tells, if_neg outside]
    exact h.purged

theorem append (h : Refines fmt entryCodec shard e log) {entries : List Entry} {wb : WriteBatch}
    (small : ∀ entry ∈ entries, entry.logId.index < 2 ^ 64 - 1)
    (done : LogCall.batch fmt entryCodec shard (.append entries) = .ok wb) :
    Refines fmt entryCodec shard (e.writeBatch wb) (log.call (.append entries)) := by
  have each := mapM_forall₂ done
  clear done
  induction each generalizing e log with
  | nil => exact h
  | @cons entry op entries wb first _ ih =>
    obtain ⟨b, enc, same⟩ := bind_eq_ok.1 first
    obtain rfl := pure_eq_ok.1 same
    rw [List.forall_mem_cons] at small
    exact ih (h.put (encode_eq_ok.1 enc) small.1) small.2

theorem call (h : Refines fmt entryCodec shard e log) {c : LogCall} {wb : WriteBatch} (fits : c.Fits)
    (done : c.batch fmt entryCodec shard = .ok wb) :
    Refines fmt entryCodec shard (e.writeBatch wb) (log.call c) := by
  cases c with
  | append entries => exact h.append fits done
  | truncate l =>
    obtain rfl := Except.ok.inj done
    refine h.delete logKey_inLog.1 ReflOrd.isLE_rfl fun i bound => ?_
    exact between_from fits bound
  | purge l =>
    obtain ⟨b, enc, same⟩ := bind_eq_ok.1 done
    obtain rfl := pure_eq_ok.1 same
    have small : l.index < 2 ^ 64 - 1 := fits
    have next : nextIndex l.index = l.index + 1 := Nat.mod_eq_of_lt (by omega)
    have marked : Refines fmt entryCodec shard (e.insert (raftKey shard kLastPurged) b)
        { log with lastPurged := some l } := h.cell (by
      rw [Storage.getMeta, OrdMap.getElem?_insert', if_pos rfl]
      dsimp only
      rw [decode, (fmt.option fmt.logId).fromBytes_encode (encode_eq_ok.1 enc)]
      rfl)
    refine marked.delete ReflOrd.isLE_rfl (by rw [logKey_inLog.2]; rfl) fun i bound => ?_
    rw [next, between_upTo (by omega) bound, decide_eq_decide]
    omega
  | saveVote vote =>
    obtain rfl := Except.ok.inj done
    exact h.otherCell vote (by decide)
  | saveCommitted committed =>
    obtain ⟨b, -, same⟩ := bind_eq_ok.1 done
    obtain rfl := pure_eq_ok.1 same
    exact h.otherCell b (by decide)

end Refines

/-! ### Runs -/

structure Fresh (shard : ShardId) (e : Engine) : Prop where
  entries : ∀ k ∈ e, ¬ Shard.between (logBounds shard).1 (logBounds shard).2 k = true
  purged : e[raftKey shard kLastPurged]? = none

/-- A call to the store, and to the abstract log if the store does not refuse it. -/
def follow (fmt : Format) (entryCodec : Codec Entry) (shard : ShardId) (w : Engine × RaftLog)
    (c : LogCall) : Engine × RaftLog :=
  match c.batch fmt entryCodec shard with
  | .ok wb => (w.1.writeBatch wb, w.2.call c)
  | .error _ => w

section Runs

variable {fmt : Format} {entryCodec : Codec Entry} {shard : ShardId} {e : Engine}

theorem Fresh.refines (h : Fresh shard e) : Refines fmt entryCodec shard e .empty where
  bounded := by simp [RaftLog.empty]
  written := by simp [RaftLog.empty]
  rows i _ := by
    have absent : logKey shard i ∉ e := fun mem => h.entries _ mem (inLog.2 rfl)
    rw [ExtTreeMap.getElem?_eq_none absent]
    simp [RaftLog.empty]
  only k mem inside := absurd inside (h.entries k mem)
  purged := by
    rw [Storage.getMeta, h.purged]
    rfl

theorem refines_follow (fresh : Fresh shard e) {cs : List LogCall} (fits : ∀ c ∈ cs, c.Fits) :
    Refines fmt entryCodec shard (cs.foldl (follow fmt entryCodec shard) (e, .empty)).1
      (cs.foldl (follow fmt entryCodec shard) (e, .empty)).2 := by
  induction cs using List.reverseRecOn with
  | nil => exact fresh.refines
  | append_singleton cs c ih =>
    have before := ih fun c mem => fits c (List.mem_append_left _ mem)
    rw [List.foldl_append, List.foldl_cons, List.foldl_nil, follow]
    split
    · next done => exact before.call (fits c (by simp)) done
    · exact before

/-- Whatever calls were made, the store reports and reads what the abstract log does, if no index that
was written, purged or asked for is the last that fits 64 bits. -/
theorem log_refines (fresh : Fresh shard e) {cs : List LogCall} (fits : ∀ c ∈ cs, c.Fits) :
    let w := cs.foldl (follow fmt entryCodec shard) (e, .empty)
    getLogState fmt entryCodec shard w.1 = .ok w.2.state ∧
      ∀ start stop : IndexBound, start.FitsStart → stop.FitsStop →
        tryGetLogEntries fmt entryCodec shard w.1 start stop = .ok (w.2.between start stop) := by
  have refined : Refines fmt entryCodec shard _ _ := refines_follow fresh fits
  exact ⟨refined.state, fun _ _ first final => refined.entries first final⟩

end Runs

/-! ### A range up to the last index -/

def blankEntry : Codec Entry where
  encode entry :=
    if entry.payload = .blank then (Format.compact.logId.encode entry.logId).map (· ++ [0]) else none
  decode bytes := (Format.compact.logId.decode bytes).bind fun read =>
    match read.2 with
    | 0 :: rest => some (⟨read.1, .blank⟩, rest)
    | _ => none
  decode_encode := by
    rintro ⟨logId, payload⟩ bytes rest h
    obtain ⟨rfl, h⟩ := Option.ite_none_right_eq_some.1 h
    obtain ⟨first, enc, rfl⟩ := Option.map_eq_some_iff.1 h
    simp [List.append_assoc, Format.compact.logId.decode_encode _ enc]

def sampleLog (cs : List LogCall) : Engine × RaftLog :=
  cs.foldl (follow Format.compact blankEntry ⟨.room, 7⟩) (∅, .empty)

theorem fresh_empty {shard : ShardId} : Fresh shard ∅ where
  entries := by simp
  purged := by simp

theorem log_refines_purged : getLogState Format.compact blankEntry ⟨.room, 7⟩
    (sampleLog [.append [⟨⟨1, 1, 0⟩, .blank⟩], .purge ⟨1, 1, 0⟩]).1 =
      .ok ⟨some ⟨1, 1, 0⟩, some ⟨1, 1, 0⟩⟩ := by
  refine (@log_refines Format.compact blankEntry ⟨.room, 7⟩ ∅ fresh_empty _ ?_).1.trans
    (by decide +kernel)
  simp [LogCall.Fits]

/-- The end of the range wraps to the first index, so nothing is read. -/
example : tryGetLogEntries Format.compact blankEntry ⟨.room, 7⟩
    (sampleLog [.append [⟨⟨1, 1, 0⟩, .blank⟩]]).1 (.included 0) (.included (2 ^ 64 - 1)) = .ok [] ∧
    (sampleLog [.append [⟨⟨1, 1, 0⟩, .blank⟩]]).2.between (.included 0) (.included (2 ^ 64 - 1)) =
      [⟨⟨1, 1, 0⟩, .blank⟩] := by
  decide +kernel

end Saltator.Shard.Storage

namespace Saltator.Shard

/-! ## Parts of keys -/

section Parts

open Storage (utf8 bigEndian compare_bigEndian)

/-- There is no byte in the text at which keys are cut. -/
def Plain (s : String) : Prop := 0 ∉ utf8 s

instance (s : String) : Decidable (Plain s) := inferInstanceAs (Decidable (0 ∉ utf8 s))

theorem utf8_inj {s t : String} : utf8 s = utf8 t ↔ s = t := by
  refine ⟨fun same => String.toByteArray_inj.1 (ByteArray.ext (Array.toList_inj.1 same)), fun h => h ▸ rfl⟩

theorem bigEndian_inj {width m n : Nat} (hm : m < 256 ^ width) (hn : n < 256 ^ width) :
    bigEndian width m = bigEndian width n ↔ m = n := by
  refine ⟨fun same => ?_, fun h => h ▸ rfl⟩
  have order := compare_bigEndian hm hn
  rw [same, Std.ReflOrd.compare_self] at order
  exact Nat.compare_eq_eq.1 order.symm

theorem cut_inj {l l' r r' : Bytes} (h : 0 ∉ l) (h' : 0 ∉ l') (same : l ++ 0 :: r = l' ++ 0 :: r') :
    l = l' ∧ r = r' := by
  induction l generalizing l' with
  | nil => cases l' <;> grind
  | cons b l ih => cases l' <;> grind

theorem cut_front {l l' p r : Bytes} (h : 0 ∉ l) (h' : 0 ∉ l') :
    l ++ 0 :: p <+: l' ++ 0 :: r ↔ l' = l ∧ p <+: r := by
  constructor
  · rintro ⟨rest, same⟩
    rw [List.append_assoc, List.cons_append] at same
    obtain ⟨rfl, rfl⟩ := cut_inj h h' same
    exact ⟨rfl, rest, rfl⟩
  · rintro ⟨rfl, rest, rfl⟩
    exact ⟨rest, by simp⟩

theorem cut_back {l l' p r : Bytes} (h : 0 ∉ l) (h' : 0 ∉ l') :
    p ++ 0 :: l <:+ r ++ 0 :: l' ↔ l' = l ∧ p <:+ r := by
  have turned (l p : Bytes) : (p ++ 0 :: l).reverse = l.reverse ++ 0 :: p.reverse := by simp
  rw [← List.reverse_prefix, turned, turned, cut_front (List.mem_reverse.not.2 h) (List.mem_reverse.not.2 h'),
    List.reverse_inj, List.reverse_prefix]

end Parts

end Saltator.Shard
