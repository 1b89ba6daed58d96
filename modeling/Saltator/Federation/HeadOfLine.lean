import Saltator.Federation.Delivery

/-!
# One destination holds another back

All destinations share the worker's floor, and a pass looks no more than a window ahead of it. A
destination that fails pins the floor. Others get their events up to the end of the window behind the
pinned floor, and none beyond it (`same_acked_iff`).
-/

namespace Saltator.Federation

open Std
open Room (Store SeqEntry)
open FedOut (FedOutStore)

/-! ## Passes over a timeline that stands still -/

/-- What is left of a pass: the cursors, the floor and, in order, what was acknowledged. -/
structure PassState where
  fedOut : FedOutStore
  floor : Nat
  acked : List (String × Nat)

/-- Whether a destination acknowledges a transaction, which goes by its last number. -/
abbrev Sends := String → Nat → Bool

namespace PassState

def ackedBy (st : PassState) (dest : String) : List Nat :=
  (st.acked.filter fun a => a.1 = dest).map Prod.snd

end PassState

section Model

variable (ruma : Ruma) (serverName : String) (roomShard fuel : Nat) (rooms : Store)

/-- The destinations of a row. -/
def addressees (entry : SeqEntry) : List String :=
  match entry with
  | .receipt .. => []
  | .event room id =>
    ((eventDestinations ruma serverName rooms fuel room id none).map Prod.snd).getD []

def examineEntry (durable : String → Option Nat) (scan : Scan) (row : Nat × SeqEntry) : Scan :=
  match row.2 with
  | .receipt .. => scan
  | .event room id =>
    match eventDestinations ruma serverName rooms fuel room id none with
    | none => scan
    | some (raw, dests) => dests.foldl (Scan.enqueue durable row.1 raw) scan

def scanWindow (durable : String → Option Nat) (rows : List (Nat × SeqEntry)) : Scan :=
  rows.foldl (examineEntry ruma serverName fuel rooms durable) .empty

def acknowledge (t : Sending) (st : PassState) : PassState :=
  { st with
    fedOut := FedOut.apply st.fedOut st.fedOut (.advancePduCursor roomShard t.dest t.last)
    acked := st.acked ++ t.chunk.map fun q => (t.dest, q.1) }

def deliverPdusTo (answers : Nat → Bool) : Nat → Sending → PassState → PassState × Option Nat
  | 0, _, st => (st, none)
  | n + 1, t, st =>
    if t.queued = [] then (st, none)
    else if answers t.last then deliverPdusTo answers n t.delivered (acknowledge roomShard t st)
    else (st, some t.acked)

def deliverTask (sends : Sends) (acc : PassState × Nat) (t : Sending) : PassState × Nat :=
  let r := deliverPdusTo roomShard (sends t.dest) t.queued.length t acc.1
  (r.1, match r.2 with
    | some pull => min acc.2 pull
    | none => acc.2)

def deliverPdus (sends : Sends) (st : PassState) : PassState :=
  let batch := timelineFrom rooms st.floor scanBatch
  match batch.getLast? with
  | none => st
  | some row =>
    let scan := scanWindow ruma serverName fuel rooms (st.fedOut.pduCursorOf roomShard) batch
    let r := scan.sendings.foldl (deliverTask roomShard sends) (st, row.1)
    { r.1 with floor := max r.2 st.floor }

/-- The first `k` passes. -/
def passes (sends : Nat → Sends) (st : PassState) : Nat → PassState
  | 0 => st
  | k + 1 => deliverPdus ruma serverName roomShard fuel rooms (sends k) (passes sends st k)

end Model

/-! ## What a scan queues -/

section Scan

variable {ruma : Ruma} {serverName : String} {fuel : Nat} {rooms : Store}
  {durable : String → Option Nat} {seq : Nat} {raw : JsonObject} {scan : Scan}
  {dests : List String} {d : String}

def numbersFor (ruma : Ruma) (serverName : String) (fuel : Nat) (rooms : Store) (d : String)
    (rows : List (Nat × SeqEntry)) : List Nat :=
  (rows.filter fun row => d ∈ addressees ruma serverName fuel rooms row.2).map Prod.fst

theorem Scan.cursorOf_enqueue_ne {e : String} {c : Option Nat} (other : d ≠ e) :
    (scan.enqueue durable seq raw e).cursorOf c seq d = scan.cursorOf c seq d := by
  simp only [Scan.cursorOf, Scan.cursors_enqueue, if_neg other]

theorem Scan.foldl_enqueue (durable : String → Option Nat) (seq : Nat) (raw : JsonObject)
    (scan : Scan) (d : String) (nodup : dests.Nodup) :
    (dests.foldl (Scan.enqueue durable seq raw) scan).cursors[d]? =
        (if d ∈ dests then some (scan.cursorOf (durable d) seq d) else scan.cursors[d]?) ∧
      (dests.foldl (Scan.enqueue durable seq raw) scan).queueOf d =
        if d ∈ dests ∧ scan.cursorOf (durable d) seq d < seq then scan.queueOf d ++ [(seq, raw)]
        else scan.queueOf d := by
  induction dests generalizing scan with
  | nil => simp
  | cons e dests ih =>
    obtain ⟨new, nodup⟩ := List.nodup_cons.1 nodup
    obtain ⟨cursors, queue⟩ := ih (scan.enqueue durable seq raw e) nodup
    rw [List.foldl_cons, cursors, queue]
    by_cases here : d = e
    · subst here
      simp [new, Scan.cursors_enqueue, Scan.queueOf_enqueue]
    · simp [here, Scan.cursors_enqueue, Scan.queueOf_enqueue, Scan.cursorOf_enqueue_ne here]

theorem nodup_addressees (ruma : Ruma) (serverName : String) (fuel : Nat) (rooms : Store)
    (entry : SeqEntry) : (addressees ruma serverName fuel rooms entry).Nodup := by
  unfold addressees
  split
  · exact List.nodup_nil
  · rename_i room id
    cases found : eventDestinations ruma serverName rooms fuel room id none with
    | none => exact List.nodup_nil
    | some answer =>
      obtain ⟨raw, dests⟩ := answer
      exact nodup_eventDestinations found

theorem examineEntry_spec {row : Nat × SeqEntry} :
    ((examineEntry ruma serverName fuel rooms durable scan row).cursors[d]? =
        if d ∈ addressees ruma serverName fuel rooms row.2 then
          some (scan.cursorOf (durable d) row.1 d)
        else scan.cursors[d]?) ∧
      ((examineEntry ruma serverName fuel rooms durable scan row).queueOf d).map Prod.fst =
        if d ∈ addressees ruma serverName fuel rooms row.2 ∧
            scan.cursorOf (durable d) row.1 d < row.1 then
          (scan.queueOf d).map Prod.fst ++ [row.1]
        else (scan.queueOf d).map Prod.fst := by
  obtain ⟨seq, entry⟩ := row
  cases entry with
  | receipt room user kind id ts => simp [examineEntry, addressees]
  | event room id =>
    have nodup := nodup_addressees ruma serverName fuel rooms (.event room id)
    cases found : eventDestinations ruma serverName rooms fuel room id none with
    | none => simp [examineEntry, addressees, found]
    | some answer =>
      obtain ⟨raw, dests⟩ := answer
      simp only [examineEntry, addressees, found, Option.map_some, Option.getD_some] at nodup ⊢
      obtain ⟨cursors, queue⟩ := Scan.foldl_enqueue durable seq raw scan d nodup
      refine ⟨cursors, ?_⟩
      rw [queue]
      split <;> simp

theorem scanWindow_spec {rows : List (Nat × SeqEntry)}
    (sorted : rows.Pairwise fun a b => a.1 < b.1) (positive : ∀ row ∈ rows, 0 < row.1) :
    ((scanWindow ruma serverName fuel rooms durable rows).cursors[d]? =
        (numbersFor ruma serverName fuel rooms d rows).head?.map fun first =>
          (durable d).getD (first - 1)) ∧
      ((scanWindow ruma serverName fuel rooms durable rows).queueOf d).map Prod.fst =
        (numbersFor ruma serverName fuel rooms d rows).filter fun n => (durable d).getD 0 < n := by
  induction rows using List.reverseRecOn with
  | nil => simp [scanWindow, numbersFor, Scan.empty, Scan.queueOf]
  | append_singleton rows row ih =>
    obtain ⟨front, -, below⟩ := List.pairwise_append.1 sorted
    obtain ⟨cursors, queue⟩ := ih front fun r mem => positive r (List.mem_append_left _ mem)
    have above : 0 < row.1 := positive row (by simp)
    have grown : numbersFor ruma serverName fuel rooms d (rows ++ [row]) =
        numbersFor ruma serverName fuel rooms d rows ++
          if d ∈ addressees ruma serverName fuel rooms row.2 then [row.1] else [] := by
      simp only [numbersFor, List.filter_append, List.map_append, List.filter_singleton]
      split <;> simp_all
    have next : scanWindow ruma serverName fuel rooms durable (rows ++ [row]) =
        examineEntry ruma serverName fuel rooms durable
          (scanWindow ruma serverName fuel rooms durable rows) row := by
      simp [scanWindow]
    have fresh : (scanWindow ruma serverName fuel rooms durable rows).cursorOf (durable d) row.1 d <
        row.1 ↔ (durable d).getD 0 < row.1 := by
      rw [Scan.cursorOf, cursors]
      cases first : (numbersFor ruma serverName fuel rooms d rows).head? with
      | none =>
        cases durable d with
        | none =>
          simp only [Option.map_none, Option.getD_none]
          omega
        | some c => simp
      | some n =>
        obtain ⟨r, mem, same⟩ := List.mem_map.1 (List.mem_of_head? first)
        have := below r (List.mem_filter.1 mem).1 row (by simp)
        cases durable d <;> simp
        omega
    rw [next, examineEntry_spec.1, examineEntry_spec.2, grown, queue]
    by_cases addressed : d ∈ addressees ruma serverName fuel rooms row.2
    · simp only [addressed, fresh, if_true, true_and, List.filter_append, List.filter_singleton]
      refine ⟨?_, by by_cases due : (durable d).getD 0 < row.1 <;> simp [due]⟩
      rw [Scan.cursorOf, cursors]
      cases numbersFor ruma serverName fuel rooms d rows <;> simp
    · simp [addressed, cursors]

end Scan

/-! ## What a delivery does -/

section Deliver

variable {roomShard : Nat} {answers : Nat → Bool} {t : Sending} {st : PassState} {n : Nat}
  {d : String} {q : Nat × JsonObject}

/-- The number up to which the destination has acknowledged, `0` where it has no cursor. -/
def PassState.cursor (roomShard : Nat) (st : PassState) (d : String) : Nat :=
  (st.fedOut.pduCursorOf roomShard d).getD 0

theorem pduCursorOf_acknowledge_ne (other : d ≠ t.dest) :
    (acknowledge roomShard t st).fedOut.pduCursorOf roomShard d = st.fedOut.pduCursorOf roomShard d := by
  simp only [acknowledge, FedOut.apply]
  split
  · simp only [FedOutStore.pduCursorOf, OrdMap.getElem?_insert']
    rw [if_neg fun same => other (Prod.mk.inj same).2]
  · rfl

theorem cursor_acknowledge : (acknowledge roomShard t st).cursor roomShard t.dest =
      max (st.cursor roomShard t.dest) t.last := by
  simp only [acknowledge, FedOut.apply, PassState.cursor, FedOutStore.pduCursorOf]
  split
  · rename_i less
    simp [Nat.max_eq_right less.le]
  · rename_i less
    exact (Nat.max_eq_left (Nat.le_of_not_lt less)).symm

theorem ackedBy_acknowledge : (acknowledge roomShard t st).ackedBy d =
      st.ackedBy d ++ if d = t.dest then t.chunk.map Prod.fst else [] := by
  simp only [acknowledge, PassState.ackedBy, List.filter_append, List.map_append]
  congr 1
  split
  · rename_i same
    subst same
    simp [List.filter_map, Function.comp_def]
  · rename_i other
    simp [List.filter_map, Function.comp_def, Ne.symm other]

theorem deliverPdusTo_other (other : d ≠ t.dest) :
    (deliverPdusTo roomShard answers n t st).1.fedOut.pduCursorOf roomShard d =
        st.fedOut.pduCursorOf roomShard d ∧
      (deliverPdusTo roomShard answers n t st).1.ackedBy d = st.ackedBy d := by
  induction n generalizing t st with
  | zero => exact ⟨rfl, rfl⟩
  | succ n ih =>
    unfold deliverPdusTo
    split
    · exact ⟨rfl, rfl⟩
    split
    · obtain ⟨cursor, acked⟩ := @ih t.delivered (acknowledge roomShard t st) other
      refine ⟨cursor.trans (pduCursorOf_acknowledge_ne other), acked.trans ?_⟩
      rw [ackedBy_acknowledge, if_neg other, List.append_nil]
    · exact ⟨rfl, rfl⟩

theorem Sending.le_last (sorted : t.queued.Pairwise fun a b => a.1 < b.1)
    (mem : q ∈ t.chunk) : q.1 ≤ t.last := by
  cases final : t.chunk.getLast? with
  | none => simp [List.getLast?_eq_none_iff.1 final] at mem
  | some last =>
    obtain ⟨front, same⟩ := List.getLast?_eq_some_iff.1 final
    have sorted : (front ++ [last]).Pairwise fun a b => a.1 < b.1 :=
      same ▸ sorted.sublist (List.take_sublist _ _)
    simp only [Sending.last, final, Option.map_some, Option.getD_some]
    rw [same] at mem
    obtain before | rfl := List.mem_append.1 mem |>.imp_right List.mem_singleton.1
    · exact ((List.pairwise_append.1 sorted).2.2 q before last (List.mem_singleton_self _)).le
    · exact le_rfl

theorem Sending.last_mem (nonempty : t.queued ≠ []) : ∃ q ∈ t.chunk, t.last = q.1 := by
  cases final : t.chunk.getLast? with
  | none =>
    have none := List.getLast?_eq_none_iff.1 final
    simp [Sending.chunk, maxPdusPerTxn] at none
    exact absurd none nonempty
  | some last => exact ⟨last, List.mem_of_getLast? final, by simp [Sending.last, final]⟩

@[simp] theorem Sending.delivered_dest : t.delivered.dest = t.dest := rfl

theorem Sending.queued_eq : t.queued = t.chunk ++ t.delivered.queued :=
  (List.take_append_drop _ _).symm

theorem Sending.length_delivered (nonempty : t.queued ≠ []) :
    t.delivered.queued.length < t.queued.length := by
  have := List.length_pos_iff.2 nonempty
  simp only [Sending.delivered, List.length_drop, maxPdusPerTxn]
  omega

theorem Sending.delivered_sorted (sorted : t.queued.Pairwise fun a b => a.1 < b.1) :
    t.delivered.queued.Pairwise fun a b => a.1 < b.1 :=
  sorted.sublist (List.drop_sublist _ _)

theorem Sending.last_lt (sorted : t.queued.Pairwise fun a b => a.1 < b.1) (nonempty : t.queued ≠ [])
    (mem : q ∈ t.delivered.queued) : t.last < q.1 := by
  obtain ⟨r, sent, same⟩ := Sending.last_mem nonempty
  rw [Sending.queued_eq] at sorted
  exact same ▸ (List.pairwise_append.1 sorted).2.2 r sent q mem

theorem deliverPdusTo_all (roomShard : Nat) (st : PassState) (all : ∀ n, answers n = true) (enough : t.queued.length ≤ n)
    (sorted : t.queued.Pairwise fun a b => a.1 < b.1) :
    (deliverPdusTo roomShard answers n t st).2 = none ∧
      (deliverPdusTo roomShard answers n t st).1.ackedBy t.dest =
        st.ackedBy t.dest ++ t.queued.map Prod.fst ∧
      ∀ m, (deliverPdusTo roomShard answers n t st).1.cursor roomShard t.dest < m ↔
        st.cursor roomShard t.dest < m ∧ ∀ q ∈ t.queued, q.1 < m := by
  induction n generalizing t st with
  | zero =>
    have none : t.queued = [] := List.eq_nil_of_length_eq_zero (Nat.le_zero.1 enough)
    simp [deliverPdusTo, none]
  | succ n ih =>
    unfold deliverPdusTo
    split
    · rename_i none
      simp [none]
    rename_i nonempty
    rw [if_pos (all _)]
    have shorter := Sending.length_delivered nonempty
    obtain ⟨done, acked, cursor⟩ := @ih t.delivered (acknowledge roomShard t st) (by omega)
      (Sending.delivered_sorted sorted)
    refine ⟨done, ?_, fun m => ?_⟩
    · refine acked.trans ?_
      rw [Sending.queued_eq (t := t), List.map_append, ← List.append_assoc]
      congr 1
      exact ackedBy_acknowledge.trans (by simp)
    · have whole : (∀ q ∈ t.queued, q.1 < m) ↔ t.last < m ∧ ∀ q ∈ t.delivered.queued, q.1 < m := by
        rw [Sending.queued_eq (t := t)]
        constructor
        · intro below
          obtain ⟨q, sent, same⟩ := Sending.last_mem nonempty
          exact ⟨same ▸ below q (List.mem_append_left _ sent),
            fun q left => below q (List.mem_append_right _ left)⟩
        · rintro ⟨last, rest⟩ q mem
          obtain sent | left := List.mem_append.1 mem
          · exact (Sending.le_last sorted sent).trans_lt last
          · exact rest q left
      refine (cursor m).trans ?_
      rw [Sending.delivered_dest, cursor_acknowledge, max_lt_iff, whole, and_assoc]

theorem le_deliverPdusTo_pull {a : Nat} (sorted : t.queued.Pairwise fun a b => a.1 < b.1)
    (ahead : ∀ q ∈ t.queued, t.acked < q.1)
    (stopped : (deliverPdusTo roomShard answers n t st).2 = some a) : t.acked ≤ a := by
  induction n generalizing t st with
  | zero => cases stopped
  | succ n ih =>
    unfold deliverPdusTo at stopped
    split at stopped
    · cases stopped
    rename_i nonempty
    split at stopped
    · have further := ih (Sending.delivered_sorted sorted)
        (fun q left => Sending.last_lt sorted nonempty left) stopped
      obtain ⟨q, sent, same⟩ := Sending.last_mem nonempty
      have := ahead q (List.mem_of_mem_take sent)
      exact (same ▸ this.le : t.acked ≤ t.last).trans further
    · cases stopped
      exact le_rfl

theorem deliverPdusTo_none (none : ∀ n, answers n = false) (nonempty : t.queued ≠ []) :
    deliverPdusTo roomShard answers t.queued.length t st = (st, some t.acked) := by
  obtain ⟨m, some⟩ := Nat.exists_eq_succ_of_ne_zero (List.length_pos_iff.2 nonempty).ne'
  rw [some, deliverPdusTo, if_neg nonempty, if_neg (by simp [none])]

end Deliver

/-! ## What the deliveries of a pass do -/

section Tasks

variable {roomShard : Nat} {sends : Sends} {tasks : List Sending} {t : Sending}
  {acc : PassState × Nat} {d : String}

/-- The queue is in order, and lies behind what was acknowledged. -/
structure InOrder (t : Sending) : Prop where
  sorted : t.queued.Pairwise fun a b => a.1 < b.1
  ahead : ∀ q ∈ t.queued, t.acked < q.1

theorem deliverTask_other (roomShard : Nat) (sends : Sends) (acc : PassState × Nat) (other : d ≠ t.dest) :
    (deliverTask roomShard sends acc t).1.fedOut.pduCursorOf roomShard d =
        acc.1.fedOut.pduCursorOf roomShard d ∧
      (deliverTask roomShard sends acc t).1.ackedBy d = acc.1.ackedBy d :=
  deliverPdusTo_other other

theorem deliverTasks_idle (roomShard : Nat) (sends : Sends) (acc : PassState × Nat)
    (idle : ∀ t ∈ tasks, t.dest = d → t.queued = []) :
    (tasks.foldl (deliverTask roomShard sends) acc).1.fedOut.pduCursorOf roomShard d =
        acc.1.fedOut.pduCursorOf roomShard d ∧
      (tasks.foldl (deliverTask roomShard sends) acc).1.ackedBy d = acc.1.ackedBy d := by
  refine List.foldlRecOn (motive := fun r : PassState × Nat =>
    r.1.fedOut.pduCursorOf roomShard d = acc.1.fedOut.pduCursorOf roomShard d ∧
      r.1.ackedBy d = acc.1.ackedBy d) _ _ ⟨rfl, rfl⟩ fun r ih t mem => ?_
  by_cases here : t.dest = d
  · have same : (deliverTask roomShard sends r t).1 = r.1 := by
      simp [deliverTask, idle t mem here, deliverPdusTo]
    rwa [same]
  · obtain ⟨cursor, acked⟩ := deliverTask_other roomShard sends r (Ne.symm here)
    exact ⟨cursor.trans ih.1, acked.trans ih.2⟩

theorem deliverTask_none (none : ∀ n, sends t.dest n = false) :
    (deliverTask roomShard sends acc t).1 = acc.1 := by
  by_cases nonempty : t.queued = []
  · simp [deliverTask, nonempty, deliverPdusTo]
  · simp [deliverTask, deliverPdusTo_none none nonempty]

theorem deliverTasks_none (none : ∀ n, sends d n = false) :
    (tasks.foldl (deliverTask roomShard sends) acc).1.fedOut.pduCursorOf roomShard d =
      acc.1.fedOut.pduCursorOf roomShard d := by
  refine List.foldlRecOn (motive := fun r : PassState × Nat =>
    r.1.fedOut.pduCursorOf roomShard d = acc.1.fedOut.pduCursorOf roomShard d) _ _ rfl
    fun r ih t mem => ?_
  by_cases here : d = t.dest
  · subst here
    rw [deliverTask_none none, ih]
  · rw [(deliverTask_other roomShard sends r here).1, ih]

theorem deliverTasks_all (roomShard : Nat) (acc : PassState × Nat) (all : ∀ n, sends t.dest n = true) (inOrder : InOrder t) (mem : t ∈ tasks)
    (nodup : (tasks.map Sending.dest).Nodup) :
    (tasks.foldl (deliverTask roomShard sends) acc).1.ackedBy t.dest =
        acc.1.ackedBy t.dest ++ t.queued.map Prod.fst ∧
      ∀ m, (tasks.foldl (deliverTask roomShard sends) acc).1.cursor roomShard t.dest < m ↔
        acc.1.cursor roomShard t.dest < m ∧ ∀ q ∈ t.queued, q.1 < m := by
  induction tasks generalizing acc with
  | nil => cases mem
  | cons u tasks ih =>
    obtain ⟨new, nodup⟩ := List.nodup_cons.1 nodup
    rw [List.foldl_cons]
    obtain rfl | later := List.mem_cons.1 mem
    · have others : ∀ u ∈ tasks, u.dest = t.dest → u.queued = [] :=
        fun u mem same => absurd (List.mem_map_of_mem mem) (same ▸ new)
      obtain ⟨cursor, acked⟩ := deliverTasks_idle roomShard sends (deliverTask roomShard sends acc t) others
      obtain ⟨-, acked', cursor'⟩ := deliverPdusTo_all roomShard acc.1 all le_rfl inOrder.sorted
      refine ⟨acked.trans acked', fun m => ?_⟩
      rw [PassState.cursor, cursor]
      exact cursor' m
    · have other : t.dest ≠ u.dest := fun same => new (same ▸ List.mem_map_of_mem later)
      obtain ⟨acked, cursor⟩ := ih (deliverTask roomShard sends acc u) later nodup
      obtain ⟨cursor', acked'⟩ := deliverTask_other roomShard sends acc other
      rw [acked'] at acked
      refine ⟨acked, fun m => ?_⟩
      rw [cursor, PassState.cursor, cursor']
      rfl

theorem deliverTasks_floor_le : (tasks.foldl (deliverTask roomShard sends) acc).2 ≤ acc.2 := by
  refine List.foldlRecOn (motive := fun r : PassState × Nat => r.2 ≤ acc.2) _ _ le_rfl
    fun r ih t mem => ?_
  unfold deliverTask
  dsimp only
  split
  · exact (min_le_left _ _).trans ih
  · exact ih

theorem le_deliverTasks_floor {q : Nat} (inOrder : ∀ t ∈ tasks, InOrder t) (start : q ≤ acc.2)
    (failing : ∀ t ∈ tasks, (∃ n, sends t.dest n = false) → t.queued ≠ [] → q ≤ t.acked) :
    q ≤ (tasks.foldl (deliverTask roomShard sends) acc).2 := by
  refine List.foldlRecOn (motive := fun r : PassState × Nat => q ≤ r.2) _ _ start
    fun r ih t mem => ?_
  unfold deliverTask
  dsimp only
  split
  · rename_i pull stopped
    refine le_min ih ((failing t mem ?_ ?_).trans
      (le_deliverPdusTo_pull (inOrder t mem).sorted (inOrder t mem).ahead stopped))
    · by_contra all
      rw [(deliverPdusTo_all roomShard r.1 (fun n => by simpa using not_exists.1 all n) le_rfl
        (inOrder t mem).sorted).1] at stopped
      cases stopped
    · intro none
      simp [none, deliverPdusTo] at stopped
  · exact ih

theorem deliverTasks_floor_le_acked (none : ∀ n, sends t.dest n = false) (nonempty : t.queued ≠ [])
    (mem : t ∈ tasks) : (tasks.foldl (deliverTask roomShard sends) acc).2 ≤ t.acked := by
  induction tasks generalizing acc with
  | nil => cases mem
  | cons u tasks ih =>
    rw [List.foldl_cons]
    obtain rfl | later := List.mem_cons.1 mem
    · refine deliverTasks_floor_le.trans ?_
      simp [deliverTask, deliverPdusTo_none none nonempty]
    · exact ih later

end Tasks

/-! ## What a pass does -/

/-- The end of the window behind a floor. -/
def reach (rooms : Store) (floor : Nat) : Nat :=
  ((timelineFrom rooms floor scanBatch).getLast?.map Prod.fst).getD floor

section Pass

variable (ruma : Ruma) (serverName : String) (roomShard fuel : Nat) (rooms : Store)

/-- The events of the window that have the server among their destinations and lie behind its
cursor. -/
def owed (st : PassState) (d : String) (floor : Nat) : List Nat :=
  (numbersFor ruma serverName fuel rooms d (timelineFrom rooms floor scanBatch)).filter fun n =>
    st.cursor roomShard d < n

/-- The cursor of a server, or the place before its first event in the window where it has none. -/
def standsAt (st : PassState) (d : String) (floor : Nat) : Nat :=
  (st.fedOut.pduCursorOf roomShard d).getD
    ((numbersFor ruma serverName fuel rooms d (timelineFrom rooms floor scanBatch)).head?.getD 0 - 1)

variable {ruma serverName roomShard fuel rooms} {st : PassState} {sends : Sends} {d : String}
  {floor n : Nat}

theorem windowNumbers_sorted : (numbersFor ruma serverName fuel rooms d
    (timelineFrom rooms floor scanBatch)).Pairwise fun a b => a < b :=
  List.pairwise_map.2 (timelineFrom_sorted.sublist List.filter_sublist)

theorem standsAt_lt (mem : n ∈ owed ruma serverName roomShard fuel rooms st d floor) :
    standsAt ruma serverName roomShard fuel rooms st d floor < n := by
  obtain ⟨listed, behind⟩ := List.mem_filter.1 mem
  have behind : (st.fedOut.pduCursorOf roomShard d).getD 0 < n := of_decide_eq_true behind
  unfold standsAt
  cases cursor : st.fedOut.pduCursorOf roomShard d with
  | some c =>
    rw [cursor] at behind
    exact behind
  | none =>
    have sorted : (numbersFor ruma serverName fuel rooms d
      (timelineFrom rooms floor scanBatch)).Pairwise fun a b => a < b := windowNumbers_sorted
    have positive : 0 < n := Nat.zero_lt_of_lt behind
    cases first : numbersFor ruma serverName fuel rooms d (timelineFrom rooms floor scanBatch) with
    | nil => simp [first] at listed
    | cons m rest =>
      rw [first] at listed sorted
      obtain rfl | later := List.mem_cons.1 listed
      · simp only [Option.getD_none, List.head?_cons, Option.getD_some]
        omega
      · have := (List.pairwise_cons.1 sorted).1 n later
        simp only [Option.getD_none, List.head?_cons, Option.getD_some]
        omega

def passTasks (ruma : Ruma) (serverName : String) (roomShard fuel : Nat) (rooms : Store)
    (st : PassState) : List Sending :=
  (scanWindow ruma serverName fuel rooms (st.fedOut.pduCursorOf roomShard)
    (timelineFrom rooms st.floor scanBatch)).sendings

theorem scanPass_spec (ruma : Ruma) (serverName : String) (roomShard fuel : Nat) (rooms : Store)
    (st : PassState) (d : String) :
    ((scanWindow ruma serverName fuel rooms (st.fedOut.pduCursorOf roomShard)
        (timelineFrom rooms st.floor scanBatch)).cursors[d]? =
      (numbersFor ruma serverName fuel rooms d
        (timelineFrom rooms st.floor scanBatch)).head?.map fun first =>
          (st.fedOut.pduCursorOf roomShard d).getD (first - 1)) ∧
    ((scanWindow ruma serverName fuel rooms (st.fedOut.pduCursorOf roomShard)
        (timelineFrom rooms st.floor scanBatch)).queueOf d).map Prod.fst =
      owed ruma serverName roomShard fuel rooms st d st.floor :=
  scanWindow_spec timelineFrom_sorted fun _ mem => Nat.zero_lt_of_lt (mem_timelineFrom mem).2

theorem passTask_spec {t : Sending} (mem : t ∈ passTasks ruma serverName roomShard fuel rooms st) :
    t.queued.map Prod.fst = owed ruma serverName roomShard fuel rooms st t.dest st.floor ∧
      (t.queued ≠ [] → t.acked = standsAt ruma serverName roomShard fuel rooms st t.dest st.floor) ∧
      InOrder t := by
  obtain ⟨⟨dest, queued⟩, listed, rfl⟩ := List.mem_map.1 mem
  obtain ⟨cursor, numbers⟩ := scanPass_spec ruma serverName roomShard fuel rooms st dest
  have queue : (scanWindow ruma serverName fuel rooms (st.fedOut.pduCursorOf roomShard)
      (timelineFrom rooms st.floor scanBatch)).queueOf dest = queued := by
    rw [Scan.queueOf, OrdMap.mem_toList.1 listed, Option.getD_some]
  rw [queue] at numbers
  have stands : queued ≠ [] → ((scanWindow ruma serverName fuel rooms
      (st.fedOut.pduCursorOf roomShard) (timelineFrom rooms st.floor scanBatch)).cursors[dest]?).getD
        0 = standsAt ruma serverName roomShard fuel rooms st dest st.floor := by
    intro nonempty
    rw [cursor, standsAt]
    cases first : numbersFor ruma serverName fuel rooms dest
      (timelineFrom rooms st.floor scanBatch) with
    | nil =>
      rw [owed, first, List.filter_nil] at numbers
      exact absurd (List.map_eq_nil_iff.1 numbers) nonempty
    | cons m rest => rfl
  refine ⟨numbers, stands, ⟨?_, fun q queued' => ?_⟩⟩
  · have sorted : (queued.map Prod.fst).Pairwise fun a b => a < b :=
      numbers ▸ windowNumbers_sorted.sublist List.filter_sublist
    exact List.pairwise_map.1 sorted
  · have due : q.1 ∈ owed ruma serverName roomShard fuel rooms st dest st.floor :=
      numbers ▸ List.mem_map_of_mem queued'
    exact (stands (List.ne_nil_of_mem queued')).trans_lt (standsAt_lt due)

theorem passTasks_nodup : ((passTasks ruma serverName roomShard fuel rooms st).map Sending.dest).Nodup := by
  unfold passTasks Scan.sendings
  rw [List.map_map]
  exact List.pairwise_map.2 (ExtTreeMap.distinct_keys_toList.imp ReflCmp.ne_of_cmp_ne_eq)

theorem exists_passTask (due : owed ruma serverName roomShard fuel rooms st d st.floor ≠ []) :
    ∃ t ∈ passTasks ruma serverName roomShard fuel rooms st, t.dest = d ∧ t.queued ≠ [] := by
  have numbers := (scanPass_spec ruma serverName roomShard fuel rooms st d).2
  cases found : (scanWindow ruma serverName fuel rooms (st.fedOut.pduCursorOf roomShard)
    (timelineFrom rooms st.floor scanBatch)).queues[d]? with
  | none =>
    simp [Scan.queueOf, found] at numbers
    exact absurd numbers due
  | some queued =>
    refine ⟨_, List.mem_map_of_mem (OrdMap.mem_toList.2 found), rfl, ?_⟩
    rintro rfl
    simp [Scan.queueOf, found] at numbers
    exact absurd numbers due

/-- What a pass does for the floor, for a destination that acknowledges everything and for one that
acknowledges nothing. -/
structure PassSpec (ruma : Ruma) (serverName : String) (roomShard fuel : Nat) (rooms : Store)
    (sends : Sends) (st st' : PassState) : Prop where
  up : st.floor ≤ st'.floor
  within : st'.floor ≤ reach rooms st.floor
  least : ∀ q ≤ reach rooms st.floor, (∀ d, (∃ n, sends d n = false) →
    owed ruma serverName roomShard fuel rooms st d st.floor ≠ [] →
      q ≤ standsAt ruma serverName roomShard fuel rooms st d st.floor) → q ≤ st'.floor
  most : ∀ d, (∀ n, sends d n = false) → owed ruma serverName roomShard fuel rooms st d st.floor ≠ [] →
      st'.floor ≤ max (standsAt ruma serverName roomShard fuel rooms st d st.floor) st.floor
  served : ∀ d, (∀ n, sends d n = true) →
    st'.ackedBy d = st.ackedBy d ++ owed ruma serverName roomShard fuel rooms st d st.floor ∧
      ∀ m, st'.cursor roomShard d < m ↔ st.cursor roomShard d < m ∧
        ∀ n ∈ owed ruma serverName roomShard fuel rooms st d st.floor, n < m
  stays : ∀ d, (∀ n, sends d n = false) ∨ owed ruma serverName roomShard fuel rooms st d st.floor = [] →
    st'.fedOut.pduCursorOf roomShard d = st.fedOut.pduCursorOf roomShard d

theorem deliverPdus_spec : PassSpec ruma serverName roomShard fuel rooms sends st
    (deliverPdus ruma serverName roomShard fuel rooms sends st) := by
  unfold deliverPdus
  dsimp only
  cases last : (timelineFrom rooms st.floor scanBatch).getLast? with
  | none =>
    have empty := List.getLast?_eq_none_iff.1 last
    have nothing : ∀ d, owed ruma serverName roomShard fuel rooms st d st.floor = [] := by
      intro d
      simp [owed, empty, numbersFor]
    have final : reach rooms st.floor = st.floor := by simp [reach, last]
    refine ⟨le_rfl, final.ge, fun q upto _ => upto.trans final.le, ?_, ?_, fun _ _ => rfl⟩
    · exact fun d _ due => absurd (nothing d) due
    · intro d _
      simp [nothing]
  | some row =>
    have final : reach rooms st.floor = row.1 := by simp [reach, last]
    have ahead := (mem_timelineFrom (List.mem_of_getLast? last)).2
    have queue : ∀ t ∈ passTasks ruma serverName roomShard fuel rooms st, t.queued = [] ↔
        owed ruma serverName roomShard fuel rooms st t.dest st.floor = [] := by
      intro t mem
      rw [← (passTask_spec mem).1, List.map_eq_nil_iff]
    have idle : ∀ d, owed ruma serverName roomShard fuel rooms st d st.floor = [] →
        ∀ t ∈ passTasks ruma serverName roomShard fuel rooms st, t.dest = d → t.queued = [] := by
      rintro d nothing t mem rfl
      exact (queue t mem).2 nothing
    refine ⟨le_max_right _ _, ?_, fun q upto failing => ?_, fun d none due => ?_, fun d all => ?_,
      fun d still => ?_⟩
    · exact final ▸ max_le deliverTasks_floor_le ahead.le
    · refine le_max_of_le_left (le_deliverTasks_floor (fun t mem => (passTask_spec mem).2.2)
        (final ▸ upto) fun t mem fails nonempty => ?_)
      rw [(passTask_spec mem).2.1 nonempty]
      exact failing t.dest fails fun none => nonempty ((queue t mem).2 none)
    · obtain ⟨t, mem, rfl, nonempty⟩ := exists_passTask due
      refine max_le_max ?_ le_rfl
      rw [← (passTask_spec mem).2.1 nonempty]
      exact deliverTasks_floor_le_acked none nonempty mem
    · by_cases due : owed ruma serverName roomShard fuel rooms st d st.floor = []
      · obtain ⟨cursor, acked⟩ := deliverTasks_idle roomShard sends (st, row.1) (idle d due)
        rw [due, List.append_nil]
        refine ⟨acked, fun m => ?_⟩
        simp only [List.not_mem_nil, false_imp_iff, implies_true, and_true]
        unfold PassState.cursor
        exact iff_of_eq (congrArg (fun c => Option.getD c 0 < m) cursor)
      · obtain ⟨t, mem, rfl, nonempty⟩ := exists_passTask due
        obtain ⟨numbers, -, inOrder⟩ := passTask_spec mem
        obtain ⟨acked, cursor⟩ := deliverTasks_all roomShard (st, row.1) all inOrder mem passTasks_nodup
        refine ⟨numbers ▸ acked, fun m => (cursor m).trans ?_⟩
        rw [← numbers]
        simp
    · rcases still with none | nothing
      · exact deliverTasks_none none
      · exact (deliverTasks_idle roomShard sends (st, row.1) (idle d nothing)).1

end Pass

/-! ## How far the windows reach -/

section Reach

variable {rooms : Store} {f g n : Nat} {entry : SeqEntry}

theorem le_reach (rooms : Store) (f : Nat) : f ≤ reach rooms f := by
  unfold reach
  cases last : (timelineFrom rooms f scanBatch).getLast? with
  | none => exact le_rfl
  | some row => exact (mem_timelineFrom (List.mem_of_getLast? last)).2.le

theorem mem_window_iff : (n, entry) ∈ timelineFrom rooms f scanBatch ↔
    rooms.timeline[n]? = some entry ∧ f < n ∧ n ≤ reach rooms f := by
  unfold reach
  cases last : (timelineFrom rooms f scanBatch).getLast? with
  | none =>
    rw [List.getLast?_eq_none_iff.1 last]
    simp only [List.not_mem_nil, Option.map_none, Option.getD_none, false_iff, not_and]
    exact fun _ above => Nat.not_le_of_lt above
  | some row =>
    constructor
    · intro mem
      obtain ⟨found, above⟩ := mem_timelineFrom mem
      exact ⟨found, above, timelineFrom_le_last last mem⟩
    · rintro ⟨found, above, upto⟩
      exact mem_timelineFrom_of_le last found above upto

theorem lt_reach (found : rooms.timeline[n]? = some entry) (above : f < n) : f < reach rooms f := by
  unfold reach
  cases last : (timelineFrom rooms f scanBatch).getLast? with
  | none =>
    have listed : (n, entry) ∈ rooms.timeline.rows fun seq => f < seq :=
      OrdMap.mem_rows.2 ⟨found, decide_eq_true above⟩
    have none := List.getLast?_eq_none_iff.1 last
    simp only [timelineFrom, List.take_eq_nil_iff, scanBatch] at none
    obtain zero | none := none
    · cases zero
    · rw [none] at listed
      cases listed
  | some row => exact (mem_timelineFrom (List.mem_of_getLast? last)).2

theorem window_nodup : (timelineFrom rooms f scanBatch).Nodup := by
  refine timelineFrom_sorted.imp ?_
  rintro a b less rfl
  exact Nat.lt_irrefl _ less

theorem reach_mono (le : f ≤ g) : reach rooms f ≤ reach rooms g := by
  by_contra shorter
  have shorter := Nat.lt_of_not_le shorter
  obtain inside | empty := (le_reach rooms f).lt_or_eq
  · obtain ⟨row, last, same⟩ : ∃ row, (timelineFrom rooms f scanBatch).getLast? = some row ∧
        row.1 = reach rooms f := by
      unfold reach at inside ⊢
      cases last : (timelineFrom rooms f scanBatch).getLast? with
      | none => simp [last] at inside
      | some row => exact ⟨row, rfl, rfl⟩
    have final := mem_timelineFrom (List.mem_of_getLast? last)
    -- The later window has fewer rows than the earlier, so all that lie behind its start.
    have subset : row :: timelineFrom rooms g scanBatch ⊆ timelineFrom rooms f scanBatch := by
      intro r mem
      obtain rfl | inside := List.mem_cons.1 mem
      · exact List.mem_of_getLast? last
      · obtain ⟨found, above, upto⟩ := mem_window_iff.1 inside
        exact mem_window_iff.2 ⟨found, by omega, by omega⟩
    have new : row ∉ timelineFrom rooms g scanBatch := by
      intro mem
      have := (mem_window_iff.1 mem).2.2
      omega
    have fewer := ((List.nodup_cons.2 ⟨new, window_nodup⟩).subperm subset).length_le
    have most : (timelineFrom rooms f scanBatch).length ≤ scanBatch := List.length_take_le _ _
    have listed : row ∈ rooms.timeline.rows fun seq => g < seq := by
      refine OrdMap.mem_rows.2 ⟨final.1, decide_eq_true ?_⟩
      have := le_reach rooms g
      omega
    refine new ?_
    rw [List.length_cons] at fewer
    have short : (rooms.timeline.rows fun seq => g < seq).length ≤ scanBatch := by
      have cut : (timelineFrom rooms g scanBatch).length =
          min scanBatch (rooms.timeline.rows fun seq => g < seq).length := List.length_take
      omega
    rw [timelineFrom, List.take_of_length_le short]
    exact listed
  · have := le_reach rooms g
    omega

theorem exists_reach (found : rooms.timeline[n]? = some entry) (f : Nat) :
    ∃ k, n ≤ (reach rooms)^[k] f := by
  induction left : n - f using Nat.strong_induction_on generalizing f with
  | h left ih =>
    by_cases above : f < n
    · have further := lt_reach found above
      obtain ⟨k, upto⟩ := ih (n - reach rooms f) (by omega) (reach rooms f) rfl
      exact ⟨k + 1, upto⟩
    · exact ⟨0, Nat.le_of_not_lt above⟩

end Reach

/-! ## One destination that acknowledges everything -/

section Served

variable {ruma : Ruma} {serverName : String} {roomShard fuel : Nat} {rooms : Store}
  {st st' base : PassState} {sends : Sends} {dest d : String} {e f n : Nat}

/-- The event at the number has the server among its destinations. -/
def Addressed (ruma : Ruma) (serverName : String) (fuel : Nat) (rooms : Store) (d : String)
    (n : Nat) : Prop :=
  ∃ entry, rooms.timeline[n]? = some entry ∧ d ∈ addressees ruma serverName fuel rooms entry

theorem mem_numbersFor {rows : List (Nat × SeqEntry)} : n ∈ numbersFor ruma serverName fuel rooms d rows ↔
      ∃ entry, (n, entry) ∈ rows ∧ d ∈ addressees ruma serverName fuel rooms entry := by
  simp [numbersFor]

theorem mem_owed_iff : n ∈ owed ruma serverName roomShard fuel rooms st d f ↔
    Addressed ruma serverName fuel rooms d n ∧ st.cursor roomShard d < n ∧ f < n ∧ n ≤ reach rooms f := by
  rw [owed, List.mem_filter, mem_numbersFor, decide_eq_true_iff]
  constructor
  · rintro ⟨⟨entry, inside, addressed⟩, behind⟩
    obtain ⟨found, above, upto⟩ := mem_window_iff.1 inside
    exact ⟨⟨entry, found, addressed⟩, behind, above, upto⟩
  · rintro ⟨⟨entry, found, addressed⟩, behind, above, upto⟩
    exact ⟨⟨entry, mem_window_iff.2 ⟨found, above, upto⟩, addressed⟩, behind⟩

theorem owed_congr (same : st'.fedOut.pduCursorOf roomShard d = st.fedOut.pduCursorOf roomShard d) :
    owed ruma serverName roomShard fuel rooms st' d f =
      owed ruma serverName roomShard fuel rooms st d f := by
  have cursor : st'.cursor roomShard d = st.cursor roomShard d :=
    congrArg (fun c => Option.getD c 0) same
  rw [owed, owed, cursor]

theorem standsAt_congr
    (same : st'.fedOut.pduCursorOf roomShard d = st.fedOut.pduCursorOf roomShard d) :
    standsAt ruma serverName roomShard fuel rooms st' d f =
      standsAt ruma serverName roomShard fuel rooms st d f := by
  simp only [standsAt, same]

/-- The events of the timeline that the destination is owed from the start, up to a number. -/
def dueUpto (ruma : Ruma) (serverName : String) (roomShard fuel : Nat) (rooms : Store)
    (base : PassState) (dest : String) (e : Nat) : List Nat :=
  (numbersFor ruma serverName fuel rooms dest
    (rooms.timeline.rows fun seq => base.floor < seq)).filter fun n =>
      base.cursor roomShard dest < n ∧ n ≤ e

theorem mem_dueUpto : n ∈ dueUpto ruma serverName roomShard fuel rooms base dest e ↔
    Addressed ruma serverName fuel rooms dest n ∧ base.cursor roomShard dest < n ∧ base.floor < n ∧
      n ≤ e := by
  rw [dueUpto, List.mem_filter, mem_numbersFor, decide_eq_true_iff]
  constructor
  · rintro ⟨⟨entry, listed, addressed⟩, behind, upto⟩
    obtain ⟨found, above⟩ := OrdMap.mem_rows.1 listed
    exact ⟨⟨entry, found, addressed⟩, behind, of_decide_eq_true above, upto⟩
  · rintro ⟨⟨entry, found, addressed⟩, behind, above, upto⟩
    exact ⟨⟨entry, OrdMap.mem_rows.2 ⟨found, decide_eq_true above⟩, addressed⟩, behind, upto⟩

theorem dueUpto_sorted : (dueUpto ruma serverName roomShard fuel rooms base dest e).Pairwise
    fun a b => a < b :=
  (List.pairwise_map.2 ((timelineRows_sorted rooms base.floor).sublist List.filter_sublist)).sublist
    List.filter_sublist

/-- The destination has acknowledged what it is owed up to a number, in order and once. -/
structure Served (ruma : Ruma) (serverName : String) (roomShard fuel : Nat) (rooms : Store)
    (base : PassState) (dest : String) (e : Nat) (st : PassState) : Prop where
  floor : base.floor ≤ st.floor
  upto : st.floor ≤ e
  acked : st.ackedBy dest = base.ackedBy dest ++ dueUpto ruma serverName roomShard fuel rooms base dest e
  cursor : ∀ n, Addressed ruma serverName fuel rooms dest n → base.floor < n →
    (st.cursor roomShard dest < n ↔ base.cursor roomShard dest < n ∧ e < n)

theorem Served.init : Served ruma serverName roomShard fuel rooms base dest base.floor base where
  floor := le_rfl
  upto := le_rfl
  acked := by
    have none : dueUpto ruma serverName roomShard fuel rooms base dest base.floor = [] := by
      refine List.eq_nil_iff_forall_not_mem.2 fun n mem => ?_
      obtain ⟨-, -, above, upto⟩ := mem_dueUpto.1 mem
      omega
    rw [none, List.append_nil]
  cursor n _ above := by simp [above]

theorem Served.pass (h : Served ruma serverName roomShard fuel rooms base dest e st)
    (spec : PassSpec ruma serverName roomShard fuel rooms sends st st')
    (all : ∀ n, sends dest n = true) :
    Served ruma serverName roomShard fuel rooms base dest (max e (reach rooms st.floor)) st' := by
  obtain ⟨acked, cursor⟩ := spec.served dest all
  have due : ∀ n, n ∈ owed ruma serverName roomShard fuel rooms st dest st.floor ↔
      Addressed ruma serverName fuel rooms dest n ∧ base.cursor roomShard dest < n ∧
        base.floor < n ∧ e < n ∧ n ≤ reach rooms st.floor := by
    intro n
    rw [mem_owed_iff]
    constructor
    · rintro ⟨addressed, behind, above, upto⟩
      have above := h.floor.trans_lt above
      obtain ⟨start, passed⟩ := (h.cursor n addressed above).1 behind
      exact ⟨addressed, start, above, passed, upto⟩
    · rintro ⟨addressed, start, above, passed, upto⟩
      exact ⟨addressed, (h.cursor n addressed above).2 ⟨start, passed⟩, h.upto.trans_lt passed, upto⟩
  refine ⟨h.floor.trans spec.up, spec.within.trans (le_max_right _ _), ?_, fun n addressed above => ?_⟩
  · rw [acked, h.acked, List.append_assoc]
    congr 1
    refine List.Pairwise.eq_of_mem_iff (r := fun a b => a < b) ?_ dueUpto_sorted fun n => ?_
    · refine List.pairwise_append.2 ⟨dueUpto_sorted,
        windowNumbers_sorted.sublist List.filter_sublist, fun a old b new => ?_⟩
      have := (mem_dueUpto.1 old).2.2.2
      have := ((due b).1 new).2.2.2.1
      omega
    · rw [List.mem_append, mem_dueUpto, mem_dueUpto, due, le_max_iff]
      constructor
      · rintro (⟨addressed, start, above, upto⟩ | ⟨addressed, start, above, -, upto⟩)
        · exact ⟨addressed, start, above, .inl upto⟩
        · exact ⟨addressed, start, above, .inr upto⟩
      · rintro ⟨addressed, start, above, upto⟩
        by_cases old : n ≤ e
        · exact .inl ⟨addressed, start, above, old⟩
        · exact .inr ⟨addressed, start, above, Nat.lt_of_not_le old, upto.resolve_left old⟩
  · rw [cursor, h.cursor n addressed above, max_lt_iff]
    constructor
    · rintro ⟨⟨start, passed⟩, behind⟩
      refine ⟨start, passed, ?_⟩
      by_contra inside
      exact Nat.lt_irrefl n (behind n ((due n).2
        ⟨addressed, start, above, passed, Nat.le_of_not_lt inside⟩))
    · rintro ⟨start, passed, beyond⟩
      exact ⟨⟨start, passed⟩, fun m mem => ((due m).1 mem).2.2.2.2.trans_lt beyond⟩

end Served

/-! ## Where the floor stays -/

section Stalls

variable (ruma : Ruma) (serverName : String) (roomShard fuel : Nat) (rooms : Store)
  (base : PassState) (dest : String)

/-- Another destination is owed an event of the window. -/
def Blocks (d : String) (f : Nat) : Prop :=
  d ≠ dest ∧ owed ruma serverName roomShard fuel rooms base d f ≠ []

def pulledTo (d : String) (f : Nat) : Nat :=
  max (standsAt ruma serverName roomShard fuel rooms base d f) f

/-- The floor goes from window to window until one has an event that another destination is owed. There
it stays, if they all fail, where the last of them stands. -/
inductive StallsAt : Nat → Nat → Prop
  | here {f q : Nat}
      (stands : ∃ d, Blocks ruma serverName roomShard fuel rooms base dest d f ∧
        q = pulledTo ruma serverName roomShard fuel rooms base d f)
      (least : ∀ d, Blocks ruma serverName roomShard fuel rooms base dest d f →
        q ≤ pulledTo ruma serverName roomShard fuel rooms base d f) : StallsAt f q
  | next {f q : Nat}
      (free : ∀ d, ¬ Blocks ruma serverName roomShard fuel rooms base dest d f)
      (more : f < reach rooms f) (rest : StallsAt (reach rooms f) q) : StallsAt f q

variable {ruma serverName roomShard fuel rooms base dest} {d : String} {f g q : Nat}

theorem StallsAt.le (h : StallsAt ruma serverName roomShard fuel rooms base dest f q) : f ≤ q := by
  induction h with
  | here stands least =>
    obtain ⟨d, -, rfl⟩ := stands
    exact le_max_right _ _
  | next free more rest ih => exact more.le.trans ih

theorem exists_stallsAt (blocked : Blocks ruma serverName roomShard fuel rooms base dest d f) :
    ∃ q, StallsAt ruma serverName roomShard fuel rooms base dest f q ∧
      ∀ d, Blocks ruma serverName roomShard fuel rooms base dest d f →
        q ≤ pulledTo ruma serverName roomShard fuel rooms base d f := by
  classical
  have some : ∃ q, ∃ d, Blocks ruma serverName roomShard fuel rooms base dest d f ∧
      q = pulledTo ruma serverName roomShard fuel rooms base d f := ⟨_, d, blocked, rfl⟩
  have least : ∀ d, Blocks ruma serverName roomShard fuel rooms base dest d f →
      Nat.find some ≤ pulledTo ruma serverName roomShard fuel rooms base d f :=
    fun d blocked => Nat.find_min' some ⟨d, blocked, rfl⟩
  exact ⟨Nat.find some, .here (Nat.find_spec some) least, least⟩

theorem Blocks.pinned (blocked : Blocks ruma serverName roomShard fuel rooms base dest d f) (above : f ≤ g)
    (upto : g ≤ pulledTo ruma serverName roomShard fuel rooms base d f) :
    Blocks ruma serverName roomShard fuel rooms base dest d g ∧
      pulledTo ruma serverName roomShard fuel rooms base d g ≤
        pulledTo ruma serverName roomShard fuel rooms base d f := by
  obtain ⟨other, due⟩ := blocked
  obtain ⟨n, rest, first⟩ := List.exists_cons_of_ne_nil due
  have mem : n ∈ owed ruma serverName roomShard fuel rooms base d f := by simp [first]
  obtain ⟨addressed, behind, beyond, inside⟩ := mem_owed_iff.1 mem
  have past : pulledTo ruma serverName roomShard fuel rooms base d f < n :=
    max_lt (standsAt_lt mem) beyond
  have still : n ∈ owed ruma serverName roomShard fuel rooms base d g :=
    mem_owed_iff.2 ⟨addressed, behind, upto.trans_lt past, inside.trans (reach_mono above)⟩
  refine ⟨⟨other, List.ne_nil_of_mem still⟩, max_le ?_ upto⟩
  cases cursor : base.fedOut.pduCursorOf roomShard d with
  | some c =>
    have here : ∀ f, standsAt ruma serverName roomShard fuel rooms base d f = c := by
      intro f
      simp [standsAt, cursor]
    rw [here, pulledTo, here]
    exact le_max_left _ _
  | none =>
    -- Without a cursor it is owed all its events of the window, and stands before the first.
    have all : owed ruma serverName roomShard fuel rooms base d f =
        numbersFor ruma serverName fuel rooms d (timelineFrom rooms f scanBatch) := by
      refine List.filter_eq_self.2 fun m mem => decide_eq_true ?_
      obtain ⟨entry, inside, -⟩ := mem_numbersFor.1 mem
      rw [PassState.cursor, cursor, Option.getD_none]
      exact Nat.zero_lt_of_lt (mem_timelineFrom inside).2
    rw [all] at first
    have here : standsAt ruma serverName roomShard fuel rooms base d f = n - 1 := by
      simp [standsAt, cursor, first]
    rw [pulledTo, here]
    exact (Nat.le_sub_one_of_lt (standsAt_lt still)).trans (le_max_left _ _)

/-! ## Two runs of passes -/

variable {sends : Nat → Sends} {k : Nat} {st st' : PassState}

/-- The end of the last of the first `k` windows. -/
def farthest (ruma : Ruma) (serverName : String) (roomShard fuel : Nat) (rooms : Store)
    (sends : Nat → Sends) (base : PassState) : Nat → Nat
  | 0 => base.floor
  | k + 1 => max (farthest ruma serverName roomShard fuel rooms sends base k)
      (reach rooms (passes ruma serverName roomShard fuel rooms sends base k).floor)

theorem passes_spec (ruma : Ruma) (serverName : String) (roomShard fuel : Nat) (rooms : Store)
    (sends : Nat → Sends) (base : PassState) (k : Nat) :
    PassSpec ruma serverName roomShard fuel rooms (sends k)
      (passes ruma serverName roomShard fuel rooms sends base k)
      (passes ruma serverName roomShard fuel rooms sends base (k + 1)) :=
  deliverPdus_spec

theorem passes_served (all : ∀ k n, sends k dest n = true) (k : Nat) :
    Served ruma serverName roomShard fuel rooms base dest
      (farthest ruma serverName roomShard fuel rooms sends base k)
      (passes ruma serverName roomShard fuel rooms sends base k) := by
  induction k with
  | zero => exact .init
  | succ k ih => exact ih.pass deliverPdus_spec (all k)

/-- The other destinations stand where they stood. -/
def OthersStay (roomShard : Nat) (dest : String) (base st : PassState) : Prop :=
  ∀ d, d ≠ dest → st.fedOut.pduCursorOf roomShard d = base.fedOut.pduCursorOf roomShard d

/-- The floor has gone from window to window, and not come to one that blocks. -/
structure InStep (ruma : Ruma) (serverName : String) (roomShard fuel : Nat) (rooms : Store)
    (base : PassState) (dest : String) (st : PassState) (e : Nat) : Prop where
  floor : st.floor = e
  others : OthersStay roomShard dest base st
  stalls : ∀ q, StallsAt ruma serverName roomShard fuel rooms base dest e q →
    StallsAt ruma serverName roomShard fuel rooms base dest base.floor q

/-- The floor has come to where it may stay. -/
def Past (ruma : Ruma) (serverName : String) (roomShard fuel : Nat) (rooms : Store)
    (base : PassState) (dest : String) (st : PassState) : Prop :=
  ∃ q ≤ st.floor, StallsAt ruma serverName roomShard fuel rooms base dest base.floor q

theorem owed_others {st : PassState} (others : OthersStay roomShard dest base st) (other : d ≠ dest) :
    owed ruma serverName roomShard fuel rooms st d f = owed ruma serverName roomShard fuel rooms base d f ∧
      standsAt ruma serverName roomShard fuel rooms st d f =
        standsAt ruma serverName roomShard fuel rooms base d f :=
  ⟨owed_congr (others d other), standsAt_congr (others d other)⟩

theorem ne_of_fails {sends : Sends} (all : ∀ n, sends dest n = true)
    (fails : ∃ n, sends d n = false) : d ≠ dest := by
  rintro rfl
  obtain ⟨n, fails⟩ := fails
  rw [all n] at fails
  cases fails

theorem PassSpec.free {sends : Sends} (spec : PassSpec ruma serverName roomShard fuel rooms sends st st')
    (all : ∀ n, sends dest n = true) (others : OthersStay roomShard dest base st)
    (free : ∀ d, ¬ Blocks ruma serverName roomShard fuel rooms base dest d st.floor) :
    st'.floor = reach rooms st.floor ∧ OthersStay roomShard dest base st' := by
  have nothing : ∀ d, d ≠ dest → owed ruma serverName roomShard fuel rooms st d st.floor = [] := by
    intro d other
    by_contra due
    exact free d ⟨other, (owed_others others other).1 ▸ due⟩
  refine ⟨Nat.le_antisymm spec.within (spec.least _ le_rfl fun d fails due => ?_), fun d other => ?_⟩
  · exact absurd (nothing d (ne_of_fails all fails)) due
  · exact (spec.stays d (.inr (nothing d other))).trans (others d other)

theorem InStep.pass {sends : Sends} {e : Nat}
    (h : InStep ruma serverName roomShard fuel rooms base dest st e)
    (spec : PassSpec ruma serverName roomShard fuel rooms sends st st')
    (all : ∀ n, sends dest n = true) :
    InStep ruma serverName roomShard fuel rooms base dest st' (reach rooms e) ∨
      Past ruma serverName roomShard fuel rooms base dest st' := by
  obtain ⟨rfl, others, stalls⟩ := h
  by_cases blocked : ∃ d, Blocks ruma serverName roomShard fuel rooms base dest d st.floor
  · obtain ⟨d, blocks⟩ := blocked
    obtain ⟨q, stall, least⟩ := exists_stallsAt blocks
    refine .inr ⟨q, ?_, stalls q stall⟩
    by_cases low : q ≤ st.floor
    · exact low.trans spec.up
    · have high := Nat.lt_of_not_le low
      have bound : ∀ d, Blocks ruma serverName roomShard fuel rooms base dest d st.floor →
          q ≤ standsAt ruma serverName roomShard fuel rooms base d st.floor := by
        intro d blocks
        exact (le_max_iff.1 (least d blocks)).resolve_right low
      refine spec.least q ?_ fun d fails due => ?_
      · obtain ⟨n, mem⟩ := List.exists_mem_of_ne_nil _ blocks.2
        exact (bound d blocks).trans ((standsAt_lt mem).le.trans (mem_owed_iff.1 mem).2.2.2)
      · have other := ne_of_fails all fails
        rw [(owed_others others other).1] at due
        rw [(owed_others others other).2]
        exact bound d ⟨other, due⟩
  · have free := not_exists.1 blocked
    obtain ⟨floor, others'⟩ := spec.free all others free
    refine .inl ⟨floor, others', fun q stall => stalls q ?_⟩
    obtain more | same := (le_reach rooms st.floor).lt_or_eq
    · exact .next free more stall
    · rwa [← same] at stall

theorem passes_le (k : Nat) : (passes ruma serverName roomShard fuel rooms sends base k).floor ≤
        (reach rooms)^[k] base.floor ∧
      farthest ruma serverName roomShard fuel rooms sends base k ≤ (reach rooms)^[k] base.floor := by
  induction k with
  | zero => exact ⟨le_rfl, le_rfl⟩
  | succ k ih =>
    rw [Function.iterate_succ_apply']
    have further : reach rooms _ ≤ reach rooms _ := reach_mono ih.1
    exact ⟨(PassSpec.within deliverPdus_spec).trans further, max_le (ih.2.trans (le_reach _ _)) further⟩

/-- The destination is owed the event from the start. -/
def Due (ruma : Ruma) (serverName : String) (roomShard fuel : Nat) (rooms : Store)
    (base : PassState) (dest : String) (n : Nat) : Prop :=
  Addressed ruma serverName fuel rooms dest n ∧ base.cursor roomShard dest < n ∧ base.floor < n

theorem due_le_farthest (all : ∀ k n, sends k dest n = true)
    (near : ∀ q, StallsAt ruma serverName roomShard fuel rooms base dest base.floor q →
      ∀ n, Due ruma serverName roomShard fuel rooms base dest n → n ≤ reach rooms q) (k : Nat) :
    (InStep ruma serverName roomShard fuel rooms base dest
        (passes ruma serverName roomShard fuel rooms sends base k) ((reach rooms)^[k] base.floor) ∨
      Past ruma serverName roomShard fuel rooms base dest
        (passes ruma serverName roomShard fuel rooms sends base k)) ∧
    ∀ n, Due ruma serverName roomShard fuel rooms base dest n → n ≤ (reach rooms)^[k] base.floor →
      n ≤ farthest ruma serverName roomShard fuel rooms sends base k := by
  induction k with
  | zero => exact ⟨.inl ⟨rfl, fun d _ => rfl, fun q stall => stall⟩, fun n _ upto => upto⟩
  | succ k ih =>
    have spec := passes_spec ruma serverName roomShard fuel rooms sends base k
    rw [Function.iterate_succ_apply']
    obtain ⟨inStep | past, -⟩ := ih
    · refine ⟨inStep.pass spec (all k), fun n due upto => le_max_of_le_right ?_⟩
      rwa [inStep.floor]
    · obtain ⟨q, low, stall⟩ := past
      refine ⟨.inr ⟨q, low.trans spec.up, stall⟩, fun n due upto => le_max_of_le_right ?_⟩
      exact (near q stall n due).trans (reach_mono low)

theorem dueUpto_farthest (all : ∀ k n, sends k dest n = true)
    (near : ∀ q, StallsAt ruma serverName roomShard fuel rooms base dest base.floor q →
      ∀ n, Due ruma serverName roomShard fuel rooms base dest n → n ≤ reach rooms q) (k : Nat) :
    dueUpto ruma serverName roomShard fuel rooms base dest
        (farthest ruma serverName roomShard fuel rooms sends base k) =
      dueUpto ruma serverName roomShard fuel rooms base dest ((reach rooms)^[k] base.floor) := by
  refine dueUpto_sorted.eq_of_mem_iff dueUpto_sorted fun n => ?_
  rw [mem_dueUpto, mem_dueUpto]
  constructor
  · rintro ⟨addressed, behind, above, upto⟩
    exact ⟨addressed, behind, above, upto.trans (passes_le k).2⟩
  · rintro ⟨addressed, behind, above, upto⟩
    exact ⟨addressed, behind, above, (due_le_farthest all near k).2 n ⟨addressed, behind, above⟩ upto⟩

def allSends : Nat → Sends := fun _ _ _ => true

def onlySends (dest : String) : Nat → Sends := fun _ d _ => decide (d = dest)

theorem passes_allSends (k : Nat) : (passes ruma serverName roomShard fuel rooms allSends base k).floor =
        (reach rooms)^[k] base.floor ∧
      farthest ruma serverName roomShard fuel rooms allSends base k = (reach rooms)^[k] base.floor := by
  induction k with
  | zero => exact ⟨rfl, rfl⟩
  | succ k ih =>
    have spec := passes_spec ruma serverName roomShard fuel rooms allSends base k
    have least := spec.least _ le_rfl fun d fails => by
      obtain ⟨n, fails⟩ := fails
      cases fails
    rw [Function.iterate_succ_apply', farthest, ih.2, ih.1, max_eq_right (le_reach _ _), ← ih.1]
    exact ⟨Nat.le_antisymm spec.within least, rfl⟩

theorem passes_onlySends {q : Nat}
    (stall : StallsAt ruma serverName roomShard fuel rooms base dest base.floor q) (k : Nat) :
    OthersStay roomShard dest base (passes ruma serverName roomShard fuel rooms (onlySends dest) base k) ∧
      (StallsAt ruma serverName roomShard fuel rooms base dest
          (passes ruma serverName roomShard fuel rooms (onlySends dest) base k).floor q ∨
        ∃ f d, Blocks ruma serverName roomShard fuel rooms base dest d f ∧
          q = pulledTo ruma serverName roomShard fuel rooms base d f ∧
          f ≤ (passes ruma serverName roomShard fuel rooms (onlySends dest) base k).floor ∧
          (passes ruma serverName roomShard fuel rooms (onlySends dest) base k).floor ≤ q) := by
  induction k with
  | zero => exact ⟨fun d _ => rfl, .inl stall⟩
  | succ k ih =>
    have spec := passes_spec ruma serverName roomShard fuel rooms (onlySends dest) base k
    obtain ⟨others, place⟩ := ih
    have fails : ∀ d, d ≠ dest → ∀ n, onlySends dest k d n = false := by
      intro d other n
      exact decide_eq_false other
    have others' : OthersStay roomShard dest base
        (passes ruma serverName roomShard fuel rooms (onlySends dest) base (k + 1)) :=
      fun d other => (spec.stays d (.inl (fails d other))).trans (others d other)
    -- A destination that blocks the window pulls the floor back.
    have pulled : ∀ d, Blocks ruma serverName roomShard fuel rooms base dest d
        (passes ruma serverName roomShard fuel rooms (onlySends dest) base k).floor →
        (passes ruma serverName roomShard fuel rooms (onlySends dest) base (k + 1)).floor ≤
          pulledTo ruma serverName roomShard fuel rooms base d
            (passes ruma serverName roomShard fuel rooms (onlySends dest) base k).floor := by
      rintro d ⟨other, due⟩
      obtain ⟨sameOwed, sameStands⟩ := owed_others others other
      rw [pulledTo, ← sameStands]
      exact spec.most d (fails d other) (sameOwed ▸ due)
    refine ⟨others', ?_⟩
    rcases place with stall | ⟨f, d, blocks, same, above, upto⟩
    · generalize start : (passes ruma serverName roomShard fuel rooms (onlySends dest) base k).floor =
        f at stall
      cases stall with
      | here stands least =>
        obtain ⟨d, blocks, rfl⟩ := stands
        subst start
        exact .inr ⟨_, d, blocks, rfl, spec.up, pulled d blocks⟩
      | next free more rest =>
        subst start
        have all : ∀ n, onlySends dest k dest n = true := fun n => decide_eq_true rfl
        rw [← (spec.free all others free).1] at rest
        exact .inl rest
    · obtain ⟨again, lower⟩ := blocks.pinned above (same ▸ upto)
      exact .inr ⟨f, d, blocks, same, above.trans spec.up, (pulled d again).trans (same ▸ lower)⟩

theorem farthest_onlySends {q : Nat}
    (stall : StallsAt ruma serverName roomShard fuel rooms base dest base.floor q) (k : Nat) :
    farthest ruma serverName roomShard fuel rooms (onlySends dest) base k ≤ reach rooms q := by
  have floors : ∀ k, (passes ruma serverName roomShard fuel rooms (onlySends dest) base k).floor ≤ q := by
    intro k
    obtain before | ⟨f, d, -, -, -, upto⟩ := (passes_onlySends stall k).2
    · exact before.le
    · exact upto
  induction k with
  | zero => exact (floors 0).trans (le_reach _ _)
  | succ k ih => exact max_le ih (reach_mono (floors k))

/-- What a destination that acknowledges everything gets, pass for pass, is the same whatever the others
do exactly if nothing it is owed lies beyond the window in which the floor may stay. -/
theorem same_acked_iff (ruma : Ruma) (serverName : String) (roomShard fuel : Nat) (rooms : Store)
    (base : PassState) (dest : String) :
    (∀ sends sends' : Nat → Sends, (∀ k n, sends k dest n = true) → (∀ k n, sends' k dest n = true) → ∀ k,
        (passes ruma serverName roomShard fuel rooms sends base k).ackedBy dest =
          (passes ruma serverName roomShard fuel rooms sends' base k).ackedBy dest) ↔
    ∀ q, StallsAt ruma serverName roomShard fuel rooms base dest base.floor q →
      ∀ n, Due ruma serverName roomShard fuel rooms base dest n → n ≤ reach rooms q := by
  constructor
  · rintro same q stall n ⟨addressed, behind, above⟩
    by_contra beyond
    obtain ⟨entry, found, -⟩ := id addressed
    obtain ⟨k, upto⟩ := exists_reach found base.floor
    have all : ∀ k n, allSends k dest n = true := fun _ _ => rfl
    have only : ∀ k n, onlySends dest k dest n = true := fun _ _ => decide_eq_true rfl
    have equal := same allSends (onlySends dest) all only k
    rw [(passes_served all k).acked, (passes_served only k).acked, List.append_cancel_left_eq] at equal
    have got : n ∈ dueUpto ruma serverName roomShard fuel rooms base dest
        (farthest ruma serverName roomShard fuel rooms allSends base k) :=
      mem_dueUpto.2 ⟨addressed, behind, above, (passes_allSends k).2 ▸ upto⟩
    rw [equal, mem_dueUpto] at got
    exact beyond (got.2.2.2.trans (farthest_onlySends stall k))
  · intro near sends sends' all all' k
    rw [(passes_served all k).acked, (passes_served all' k).acked, dueUpto_farthest all near k,
      dueUpto_farthest all' near k]

end Stalls

/-! ## A sample backlog -/

section Samples

open Room (Call Runs Serial)

def sampleInvite : JsonObject :=
  Ruma.samplePdu "i" "m.room.member" (some "@c:z") "@a:x" [("membership", .string "invite")]
    ["$c", "$j", "$k"] ["$n"] 7

def sampleReceipts : List Call :=
  (List.replicate 128 [.receipt ⟨"!r:x", "@a:x", "m.read", "$m", none, 0⟩,
    .receipt ⟨"!r:x", "@a:x", "m.read", "$n", none, 0⟩]).flatten

def sampleBacklog : List Call :=
  sampleOpening ++ sampleVisit ++ [.ingest sampleInvite false] ++ sampleReceipts ++
    [.ingest (sampleMessage "o" "$i" 8) false]

def sampleStart : PassState := ⟨.empty, 6, []⟩

/-- The message reaches `y` if all is well, and never does if `z` is dead. -/
theorem held_back : ∃ rooms, Runs (Serial Ruma.sample) Store.empty rooms ∧
    (∃ k, 264 ∈ (passes Ruma.sample "x" 0 9 rooms allSends sampleStart k).ackedBy "y") ∧
    ∀ k, 264 ∉ (passes Ruma.sample "x" 0 9 rooms (onlySends "y") sampleStart k).ackedBy "y" := by
  have found : (sampleServe Store.empty sampleBacklog).any (fun rooms =>
      decide (reach rooms 6 = 262) &&
      decide (rooms.timeline[7]? = some (.event "!r:x" "$i")) &&
      decide ("z" ∈ addressees Ruma.sample "x" 9 rooms (.event "!r:x" "$i")) &&
      decide (rooms.timeline[264]? = some (.event "!r:x" "$o")) &&
      decide ("y" ∈ addressees Ruma.sample "x" 9 rooms (.event "!r:x" "$o"))) = true := by
    decide +kernel
  simp only [Option.any_eq_true, Bool.and_eq_true, decide_eq_true_iff] at found
  obtain ⟨rooms, served, ⟨⟨⟨window, invite⟩, invited⟩, message⟩, addressed⟩ := found
  have cursor : ∀ d, sampleStart.cursor 0 d = 0 := by
    intro d
    simp [PassState.cursor, sampleStart, FedOutStore.pduCursorOf, FedOutStore.empty]
  have due : 7 ∈ owed Ruma.sample "x" 0 9 rooms sampleStart "z" 6 :=
    mem_owed_iff.2 ⟨⟨_, invite, invited⟩, by simp [cursor], by decide, by omega⟩
  have blocked : Blocks Ruma.sample "x" 0 9 rooms sampleStart "y" "z" 6 :=
    ⟨by decide, List.ne_nil_of_mem due⟩
  have pinned : pulledTo Ruma.sample "x" 0 9 rooms sampleStart "z" 6 = 6 :=
    max_eq_right (Nat.le_of_lt_succ (standsAt_lt due))
  have stall : StallsAt Ruma.sample "x" 0 9 rooms sampleStart "y" sampleStart.floor 6 :=
    .here ⟨"z", blocked, pinned.symm⟩ fun d _ => le_max_right _ _
  have owing : Due Ruma.sample "x" 0 9 rooms sampleStart "y" 264 :=
    ⟨⟨_, message, addressed⟩, by simp [cursor], by decide⟩
  refine ⟨rooms, sampleServe_runs served, ?_, fun k got => ?_⟩
  · obtain ⟨k, upto⟩ := exists_reach message sampleStart.floor
    refine ⟨k, ?_⟩
    rw [(passes_served (fun _ _ => rfl) k).acked]
    exact List.mem_append_right _ (mem_dueUpto.2 ⟨owing.1, owing.2.1, owing.2.2,
      (passes_allSends k).2 ▸ upto⟩)
  · rw [(passes_served (fun _ _ => decide_eq_true rfl) k).acked] at got
    have inside := (mem_dueUpto.1 (by simpa [PassState.ackedBy, sampleStart] using got)).2.2.2
    have := inside.trans (farthest_onlySends stall k)
    omega

end Samples

end Saltator.Federation
