import Saltator.Client.Walk

/-!
# Around an event

A context has the rows next to an event, and a token at either end of them from which pages go on. Where
the event is of the room's order, the token at the older end is one position too low; where it is of the
history and the newer end is too, that one is one index too low. The row there, if there is one, is on
neither side (`context_joins_iff`).
-/

namespace Saltator.Client

open Std
open Saltator.Outcome
open Room
open StateRes (Key StateIds)
open CsState (beforeLimit newestSeq)

/-! ## What joins up -/

def isWithin (cap : Option Nat) : Row → Bool
  | (.timeline n, _) => cap.all (n ≤ ·)
  | (.history _, _) => true

/-- The events before and after the row are those next to it, and pages from the tokens have exactly the
rows behind them. -/
def Joins (s : Store) (room : RoomId) (cap : Option Nat) (history : Bool) (pos : RowPos) (c : Context) :
    Prop :=
  let older := servedRows s (rowsAhead s room none history .backward pos.start)
  let newer := servedRows s (rowsAhead s room cap history .forward pos.start)
  ∃ i j,
    c.eventsBefore.map ClientEvent.eventId = (older.take i).map Prod.snd ∧
    c.eventsAfter.map ClientEvent.eventId = (newer.take j).map Prod.snd ∧
    servedRows s (rowsAhead s room cap history .backward c.startPos.start) =
      (older.drop i).filter (isWithin cap) ∧
    servedRows s (rowsAhead s room cap history .forward c.endPos.start) = newer.drop j

def placeOf (stored : StoredEvent) : RowPos :=
  if stored.seq = 0 then .history (stored.historyIdx.getD 0) else .timeline stored.seq

def positionsBelow (s : Store) (room : RoomId) (n : Nat) : List Nat :=
  (scanned s.roomSeq room 0 (some (n - 1))).reverse.map Prod.fst

def newerHistory (s : Store) (room : RoomId) (i : Nat) : List (Nat × EventId) :=
  (scanned s.history room 0 (some (i - 1))).reverse

/-- No row is left out at an end: the row next to the last one that is returned does not have the number
next to its own, and where the newer end is of the room's order, no history row is passed over. -/
def Unskipped (s : Store) (room : RoomId) (cap : Option Nat) (limit : Nat) : RowPos → Prop
  | .timeline n => ∀ a b, (n :: positionsBelow s room n)[beforeLimit limit]? = some a →
      (positionsBelow s room n)[beforeLimit limit]? = some b → cap.all (b ≤ ·) → b + 1 ≠ a
  | .history i =>
    let size := limit - beforeLimit limit
    let seen := (servedRows s (((newerHistory s room i).take size).map historyRow)).length
    let indices := ((newerHistory s room i).filter fun r => (rawEvent s r.2).isSome).map Prod.fst
    if seen < size ∧ scanned s.roomSeq room 0 cap ≠ [] then indices.length = seen
    else ∀ a b, (i :: indices)[seen]? = some a → indices[seen]? = some b → b + 1 ≠ a

/-! ## Served rows -/

section Served

variable {s : Store} {room : RoomId} {cap : Option Nat} {history : Bool} {dir : Direction} {p : PagePos}
  {rows : List Row}

theorem servedRows_ahead : servedRows s (rowsAhead s room cap history dir p) =
    dir.course.rest p (servedRows s (rowsFrom s room cap history dir)) := by
  simp only [servedRows, rowsAhead, Course.rest, List.filter_filter]
  exact List.filter_congr fun row _ => Bool.and_comm ..

theorem servedRows_ordered : dir.course.Ordered (servedRows s (rowsFrom s room cap history dir)) :=
  (rowsFrom_ordered dir).filter _

theorem rowsFrom_within : rowsFrom s room cap history .backward =
    (rowsFrom s room none history .backward).filter (isWithin cap) := by
  have narrow : scanned s.roomSeq room 0 cap =
      (scanned s.roomSeq room 0 none).filter fun r => cap.all (r.1 ≤ ·) := by
    refine scanned_filter fun r => ?_
    cases cap <;> simp
  have kept : (if history then (scanned s.history room 0 none).map historyRow else []).filter
      (isWithin cap) = if history then (scanned s.history room 0 none).map historyRow else [] := by
    refine List.filter_eq_self.2 fun row mem => ?_
    split at mem
    · obtain ⟨r, -, rfl⟩ := List.mem_map.1 mem
      rfl
    · cases mem
  rw [rowsFrom, rowsFrom, roomRows, roomRows, List.filter_append, kept, narrow, ← List.filter_reverse,
    List.filter_map]
  rfl

theorem older_pred (n : Nat) : backwards.rest (RowPos.timeline n).pred.start rows =
    (backwards.rest (RowPos.timeline n).start rows).filter fun row => row.1 ≠ (RowPos.timeline n).pred := by
  rw [Course.rest, Course.rest, List.filter_filter]
  refine List.filter_congr fun row _ => ?_
  obtain ⟨pos, id⟩ := row
  cases pos <;> simp [backwards, isOlder, RowPos.pred, RowPos.start, PaginationBound.upper]
  grind

theorem newer_pred (i : Nat) : forwards.rest (RowPos.history i).pred.start rows =
    (forwards.rest (RowPos.history i).start rows).filter fun row => row.1 ≠ (RowPos.history i).pred := by
  rw [Course.rest, Course.rest, List.filter_filter]
  refine List.filter_congr fun row _ => ?_
  obtain ⟨pos, id⟩ := row
  cases pos <;> simp [forwards, isNewer, RowPos.pred, RowPos.start]
  grind

theorem servedRows_timeline {P : Store → RoomCommand → Prop} (run : Runs P Store.empty s)
    {l : List (Nat × EventId)} {after : Nat} {upto : Option Nat}
    (listed : ∀ r ∈ l, r ∈ scanned s.roomSeq room after upto) :
    servedRows s (l.map timelineRow) = l.map timelineRow := by
  refine List.filter_eq_self.2 fun row mem => ?_
  obtain ⟨r, own, rfl⟩ := List.mem_map.1 mem
  obtain ⟨e, held, placed⟩ := (Option.any_eq_true _ _).1
    ((run_inOrder run).row room r.1 r.2 (mem_scanned.1 (listed r own)).1).2.2.2
  have accepted := run_placedAccepted run r.2 e held (of_decide_eq_true placed)
  simp [timelineRow, rawEvent, held, accepted]

end Served

/-! ## The rows of a context -/

section Shape

variable {s : Store} {room : RoomId} {cs : CsState} {w : Shards} {user : UserId} {target : EventId}
  {limit : Nat} {c : Context} {stored : StoredEvent} {view : StateIds × Option Nat}
  {P : Store → RoomCommand → Prop}

theorem newestSeq_timeline {l : List (Nat × EventId)} (sorted : l.Pairwise fun a b => a.1 < b.1) :
    newestSeq (l.map timelineRow) = l.getLast?.map Prod.fst := by
  have positions : newestSeq (l.map timelineRow) = (l.map Prod.fst).max? := by
    rw [newestSeq, List.filterMap_map]
    exact congrArg List.max? (congrFun List.filterMap_eq_map' l)
  rw [positions]
  cases last : l.getLast? with
  | none =>
    rw [List.getLast?_eq_none_iff.1 last]
    rfl
  | some a =>
    obtain ⟨l, rfl⟩ := List.getLast?_eq_some_iff.1 last
    refine List.max?_eq_some_iff.2 ⟨by simp, fun n mem => ?_⟩
    obtain ⟨b, own, rfl⟩ := List.mem_map.1 mem
    rcases List.mem_append.1 own with mem | mem
    · exact ((List.pairwise_append.1 sorted).2.2 b mem a (List.mem_singleton_self a)).le
    · rw [List.mem_singleton.1 mem]

theorem newestSeq_history {rows rows' : List Row} (old : ∀ row ∈ rows, ∃ i, row.1 = .history i) :
    newestSeq (rows ++ rows') = newestSeq rows' := by
  rw [newestSeq, newestSeq, List.filterMap_append, List.filterMap_eq_nil_iff.2, List.nil_append]
  intro row mem
  obtain ⟨i, place⟩ := old row mem
  rw [place]

theorem events_rows {near : List (RowPos × ClientEvent)} {rows : List Row}
    (h : near.map (fun r => (r.1, r.2.eventId)) = rows) :
    (near.map Prod.snd).map ClientEvent.eventId = rows.map Prod.snd ∧
      near.getLast?.map Prod.fst = rows.getLast?.map Prod.fst := by
  subst h
  simp only [List.map_map, List.getLast?_map, Option.map_map]
  exact ⟨rfl, rfl⟩

structure OrderContext (s : Store) (room : RoomId) (cap : Option Nat) (n limit : Nat) (c : Context)
    (older newer : List (Nat × EventId)) : Prop where
  below : (scanned s.roomSeq room 0 (some (n - 1))).reverse.take (beforeLimit limit) = older
  above : (scanned s.roomSeq room n cap).take (limit - beforeLimit limit) = newer
  before : c.eventsBefore.map ClientEvent.eventId = (older.map timelineRow).map Prod.snd
  after : c.eventsAfter.map ClientEvent.eventId = (newer.map timelineRow).map Prod.snd
  start : c.startPos = (((older.map timelineRow).getLast?.map Prod.fst).getD (.timeline n)).pred
  ends : c.endPos = ((newer.map timelineRow).getLast?.map Prod.fst).getD (.timeline n)

theorem getContext_timeline (run : Runs P Store.empty (cs.forRoom w room))
    (answered : cs.getContext w user room target limit = .ok c)
    (held : (cs.forRoom w room).event[target]? = some stored)
    (viewed : memberView (cs.forRoom w room) cs.fuel room user = .ok view) (placed : stored.seq ≠ 0) :
    ∃ older newer, OrderContext (cs.forRoom w room) room view.2 stored.seq (min limit 100) c older newer := by
  obtain ⟨stored', view', version, near, context⟩ := getContext_ok answered
  obtain rfl := some_unique held context.held
  obtain rfl := ok_unique viewed context.viewed
  obtain ⟨start, ends⟩ := context.placed placed
  obtain ⟨version', -, around⟩ := bind_eq_ok.1 context.around
  rw [if_neg placed] at around
  obtain ⟨before, first, around⟩ := bind_eq_ok.1 around
  obtain ⟨after, second, around⟩ := bind_eq_ok.1 around
  obtain rfl := pure_eq_ok.1 around
  have own := (clientRows_rows first).trans
    (servedRows_timeline run fun r mem => List.mem_reverse.1 (List.mem_of_mem_take mem))
  obtain ⟨newer, above⟩ : ∃ newer, (scanned (cs.forRoom w room).roomSeq room stored.seq view.2).take
    (min limit 100 - beforeLimit (min limit 100)) = newer := ⟨_, rfl⟩
  have own' : after.map (fun r => (r.1, r.2.eventId)) = newer.map timelineRow := above ▸
    (clientRows_rows second).trans (servedRows_timeline run fun r mem => List.mem_of_mem_take mem)
  obtain ⟨ids, last⟩ := events_rows own
  obtain ⟨ids', -⟩ := events_rows own'
  refine ⟨_, newer, rfl, above, context.older ▸ ids, context.newer ▸ ids', start.trans (by rw [last]; rfl),
    ends.trans ?_⟩
  have sorted : newer.Pairwise fun a b => a.1 < b.1 :=
    above ▸ (scanned_sorted _ _ _ _).sublist (List.take_sublist _ _)
  have newest : CsState.Neighbours.newest ⟨before, after⟩ = newer.getLast?.map Prod.fst :=
    (congrArg newestSeq own').trans (newestSeq_timeline sorted)
  rw [newest, List.getLast?_map]
  cases newer.getLast? <;> rfl

/-- A context in the history has the served rows next to the event's, and where the newer ones end, those at the
beginning of the room's order. -/
structure PastContext (s : Store) (room : RoomId) (cap : Option Nat) (i limit : Nat) (c : Context)
    (older seen newer : List Row) : Prop where
  past : servedRows s (((scanned s.history room i none).take (beforeLimit limit)).map historyRow) = older
  served : servedRows s (((newerHistory s room i).take (limit - beforeLimit limit)).map historyRow) = seen
  order : ((scanned s.roomSeq room 0 cap).take (limit - beforeLimit limit - seen.length)).map timelineRow = newer
  before : c.eventsBefore.map ClientEvent.eventId = older.map Prod.snd
  after : c.eventsAfter.map ClientEvent.eventId = (seen ++ newer).map Prod.snd
  start : c.startPos = (older.getLast?.map Prod.fst).getD (.history i)
  ends : c.endPos = (newer.getLast?.map Prod.fst).getD ((seen.getLast?.map Prod.fst).getD (.history i)).pred

theorem getContext_history (run : Runs P Store.empty (cs.forRoom w room))
    (answered : cs.getContext w user room target limit = .ok c)
    (held : (cs.forRoom w room).event[target]? = some stored)
    (viewed : memberView (cs.forRoom w room) cs.fuel room user = .ok view) (placed : stored.seq = 0) :
    historyReadable (cs.forRoom w room) cs.fuel room = .ok true ∧ ∃ older seen newer,
      PastContext (cs.forRoom w room) room view.2 (stored.historyIdx.getD 0) (min limit 100) c older seen newer := by
  obtain ⟨stored', view', version, near, context⟩ := getContext_ok answered
  obtain rfl := some_unique held context.held
  obtain rfl := ok_unique viewed context.viewed
  obtain ⟨may, start, ends⟩ := context.past placed
  obtain ⟨version', -, around⟩ := bind_eq_ok.1 context.around
  rw [if_pos placed] at around
  obtain ⟨before, first, around⟩ := bind_eq_ok.1 around
  obtain ⟨new, second, around⟩ := bind_eq_ok.1 around
  obtain ⟨onTimeline, third, around⟩ := bind_eq_ok.1 around
  obtain rfl := pure_eq_ok.1 around
  obtain ⟨ids, last⟩ := events_rows (clientRows_rows first)
  obtain ⟨seen, served⟩ : ∃ seen, servedRows (cs.forRoom w room) (((newerHistory (cs.forRoom w room) room
    (stored.historyIdx.getD 0)).take (min limit 100 - beforeLimit (min limit 100))).map historyRow) = seen :=
    ⟨_, rfl⟩
  have own : new.map (fun r => (r.1, r.2.eventId)) = seen := by
    rw [clientRows_rows second, ← served, roomHistory, scan, if_pos rfl, newerHistory]
  obtain ⟨newer, order⟩ : ∃ newer, (scanned (cs.forRoom w room).roomSeq room 0 view.2).take
    (min limit 100 - beforeLimit (min limit 100) - seen.length) = newer := ⟨_, rfl⟩
  have own' : onTimeline.map (fun r => (r.1, r.2.eventId)) = newer.map timelineRow := by
    rw [← order, ← own, List.length_map]
    exact (clientRows_rows third).trans (servedRows_timeline run fun r mem => List.mem_of_mem_take mem)
  have all : (new ++ onTimeline).map (fun r => (r.1, r.2.eventId)) = seen ++ newer.map timelineRow := by
    rw [List.map_append, own, own']
  obtain ⟨ids', last'⟩ := events_rows all
  refine ⟨may, _, seen, newer.map timelineRow, rfl, served, by rw [order], context.older ▸ ids,
    context.newer ▸ ids', start.trans (congrArg (Option.getD · _) last), ends.trans ?_⟩
  have old : ∀ row ∈ seen, ∃ i, row.1 = .history i := by
    intro row mem
    obtain ⟨r, -, rfl⟩ := List.mem_map.1 (List.mem_filter.1 (served ▸ mem)).1
    exact ⟨r.1, rfl⟩
  have sorted : newer.Pairwise fun a b => a.1 < b.1 :=
    order ▸ (scanned_sorted _ _ _ _).sublist (List.take_sublist _ _)
  have newest : CsState.Neighbours.newest ⟨before, new ++ onTimeline⟩ = newer.getLast?.map Prod.fst :=
    (congrArg newestSeq all).trans ((newestSeq_history old).trans (newestSeq_timeline sorted))
  dsimp only
  rw [newest, last', List.getLast?_append, List.getLast?_map]
  cases newer.getLast? <;> rfl

end Shape

/-! ## Where a context joins up -/

section Ends

variable {s : Store} {room : RoomId} {cap : Option Nat} {history : Bool} {P : Store → RoomCommand → Prop}
  {pos : RowPos} {rows : List Row}

theorem drop_of_length {α : Type} {l : List α} {a b : Nat} (same : (l.take a).length = b) :
    l.drop a = l.drop b := by
  rw [List.length_take] at same
  by_cases short : a ≤ l.length
  · rw [show a = b by omega]
  · rw [List.drop_of_length_le (by omega), List.drop_of_length_le (by omega)]

theorem start_end (dir : Direction) : ((rows.getLast?.map Prod.fst).getD pos).start =
      (rows.getLast?.map dir.course.on).getD pos.start := by
  cases rows.getLast? <;> cases dir <;> rfl

theorem filter_eq_iff : (rows.filter fun row => row.1 ≠ pos) = rows ↔ ∀ row ∈ rows, row.1 ≠ pos := by
  simp [List.filter_eq_self]

/-- In a list of numbers that go down, the one next below the `k`-th is right after it. -/
theorem next_iff {l : List Nat} {first k m : Nat} {p : Nat → Prop} (sorted : (first :: l).Pairwise (· > ·))
    (here : ((l.take k).getLast?).getD first = m) :
    (∀ x ∈ l.drop k, p x → x ≠ m - 1) ↔
      ∀ a b, (first :: l)[k]? = some a → l[k]? = some b → p b → b + 1 ≠ a := by
  induction k generalizing first l with
  | zero =>
    obtain rfl : first = m := here
    cases l with
    | nil => simp
    | cons b l =>
      obtain ⟨above, sorted⟩ := List.pairwise_cons.1 sorted
      have first_gt := above b List.mem_cons_self
      have below := (List.pairwise_cons.1 sorted).1
      simp only [List.drop_zero, List.mem_cons, forall_eq_or_imp, List.getElem?_cons_zero,
        Option.some.injEq]
      constructor
      · rintro ⟨h, -⟩ a b' rfl rfl held
        have := h held
        omega
      · intro h
        refine ⟨fun held => ?_, fun x mem held => ?_⟩
        · have := h first b rfl rfl held
          omega
        · have := below x mem
          omega
  | succ k ih =>
    cases l with
    | nil => simp
    | cons b l =>
      have here : ((l.take k).getLast?).getD b = m := by
        rw [List.take_succ_cons, List.getLast?_cons] at here
        exact here
      simpa using ih (List.pairwise_cons.1 sorted).2 here

theorem older_rows (run : Runs P Store.empty s) (n : Nat) :
    servedRows s (rowsAhead s room none history .backward (RowPos.timeline n).start) =
      (scanned s.roomSeq room 0 (some (n - 1))).reverse.map timelineRow ++
        servedRows s (if history then historyRows s room else []) := by
  rw [rowsAhead_backward]
  simp only [RowPos.start, older_timeline, older_timeline_history]
  rw [servedRows, List.filter_append]
  refine congrArg₂ _ (servedRows_timeline run fun r mem => List.mem_reverse.1 mem) ?_
  cases history <;> rfl

theorem older_within {p : PagePos} : servedRows s (rowsAhead s room cap history .backward p) =
    (servedRows s (rowsAhead s room none history .backward p)).filter (isWithin cap) := by
  rw [servedRows_ahead, servedRows_ahead, rowsFrom_within]
  simp only [servedRows, Course.rest, List.filter_filter]
  exact List.filter_congr fun row _ => by simp only [Bool.and_comm, Bool.and_assoc]

theorem numbers_sorted (room : RoomId) (table : OrdMap (RoomId × Nat) EventId) (n : Nat) :
    (n :: (scanned table room 0 (some (n - 1))).reverse.map Prod.fst).Pairwise (· > ·) := by
  refine List.pairwise_cons.2 ⟨fun m mem => ?_, ?_⟩
  · obtain ⟨r, own, rfl⟩ := List.mem_map.1 mem
    obtain ⟨-, positive, below⟩ := mem_scanned.1 (List.mem_reverse.1 own)
    have := below _ rfl
    omega
  · exact List.pairwise_map.2 (List.pairwise_reverse.2 (scanned_sorted table room 0 (some (n - 1))))

theorem served_end {dir : Direction} {l m : List Row}
    (parts : servedRows s (rowsAhead s room cap history dir pos.start) = l ++ m) :
    servedRows s (rowsAhead s room cap history dir ((l.getLast?.map Prod.fst).getD pos).start) = m := by
  rw [servedRows_ahead] at parts ⊢
  rw [start_end dir]
  exact Course.rest_end servedRows_ordered parts

theorem served_pred {n : Nat} {l : List Row}
    (behind : servedRows s (rowsAhead s room none history .backward (RowPos.timeline n).start) = l) :
    servedRows s (rowsAhead s room cap history .backward (RowPos.timeline n).pred.start) =
        l.filter (isWithin cap) ↔
      ∀ row ∈ l, isWithin cap row → row.1 ≠ (RowPos.timeline n).pred := by
  have same : servedRows s (rowsAhead s room cap history .backward (RowPos.timeline n).pred.start) =
      (l.filter (isWithin cap)).filter fun row => row.1 ≠ (RowPos.timeline n).pred := by
    rw [older_within, ← behind, servedRows_ahead, servedRows_ahead]
    refine (congrArg _ (older_pred n)).trans ?_
    rw [List.filter_filter, List.filter_filter]
    exact List.filter_congr fun row _ => Bool.and_comm ..
  rw [same, filter_eq_iff]
  simp only [List.mem_filter, and_imp]

theorem joins_iff {c : Context} {older oldest newer newest : List Row}
    (back : servedRows s (rowsAhead s room none history .backward pos.start) = older ++ oldest)
    (forth : servedRows s (rowsAhead s room cap history .forward pos.start) = newer ++ newest)
    (before : c.eventsBefore.map ClientEvent.eventId = older.map Prod.snd)
    (after : c.eventsAfter.map ClientEvent.eventId = newer.map Prod.snd) :
    Joins s room cap history pos c ↔
      servedRows s (rowsAhead s room cap history .backward c.startPos.start) = oldest.filter (isWithin cap) ∧
      servedRows s (rowsAhead s room cap history .forward c.endPos.start) = newest := by
  have rest {l m : List Row} {k : Nat} (ids : l.map Prod.snd = ((l ++ m).take k).map Prod.snd) :
      (l ++ m).drop k = m := by
    have := congrArg List.length ids.symm
    rw [drop_of_length (b := l.length) (by simpa only [List.length_map] using this), List.drop_left]
  simp only [Joins, back, forth, before, after]
  constructor
  · rintro ⟨i, j, ids, ids', behind, beyond⟩
    rw [rest ids] at behind
    rw [rest ids'] at beyond
    exact ⟨behind, beyond⟩
  · rintro ⟨behind, beyond⟩
    refine ⟨older.length, newer.length, ?_, ?_, ?_, ?_⟩
    · rw [List.take_left]
    · rw [List.take_left]
    · rw [List.drop_left, behind]
    · rw [List.drop_left, beyond]

/-- Where the numbers of the last row that is returned and of the next one behind it do not follow each other, no
row behind it is at the position that a token there names. -/
theorem skipped_iff (place : Nat → RowPos) (row : Nat × EventId → Row) (others : List Row)
    {l : List (Nat × EventId)} {first k m : Nat} (rows : ∀ r, (row r).1 = place r.1) (inj : ∀ a b, place a = place b → a = b)
    (pred : (place m).pred = place (m - 1)) (apart : ∀ r ∈ others, ∀ n, r.1 ≠ place n) {p : Row → Prop}
    {q : Nat → Prop} (same : ∀ r, p (row r) ↔ q r.1)
    (sorted : (first :: l.map Prod.fst).Pairwise (· > ·))
    (here : (((l.map Prod.fst).take k).getLast?).getD first = m) :
    (∀ r ∈ (l.drop k).map row ++ others, p r → r.1 ≠ (place m).pred) ↔
      ∀ a b, (first :: l.map Prod.fst)[k]? = some a → (l.map Prod.fst)[k]? = some b → q b → b + 1 ≠ a := by
  rw [← next_iff sorted here, ← List.map_drop, List.forall_mem_append, List.forall_mem_map, List.forall_mem_map, pred]
  simp only [rows, same]
  exact ⟨fun h r mem held own => h.1 r mem held (congrArg place own),
    fun h => ⟨fun r mem held own => h r mem held (inj _ _ own), fun r mem _ => apart r mem _⟩⟩

theorem joins_timeline (run : Runs P Store.empty s) {n limit : Nat} {c : Context}
    {older newer : List (Nat × EventId)} (h : OrderContext s room cap n limit c older newer) :
    Joins s room cap history (.timeline n) c ↔ Unskipped s room cap limit (.timeline n) := by
  obtain ⟨rfl, rfl, before, after, start, ends⟩ := h
  have sorted := numbers_sorted room s.roomSeq n
  have rows : servedRows s (rowsAhead s room none history .backward (RowPos.timeline n).start) = _ :=
    older_rows run n
  change _ ↔ ∀ a b, (n :: positionsBelow s room n)[beforeLimit limit]? = some a →
    (positionsBelow s room n)[beforeLimit limit]? = some b → cap.all (b ≤ ·) → b + 1 ≠ a
  unfold positionsBelow
  generalize beforeLimit limit = k at before start after ends
  generalize (scanned s.roomSeq room 0 (some (n - 1))).reverse = l at rows before start sorted
  -- the older side, in what is returned and what is behind that
  have parts : servedRows s (rowsAhead s room none history .backward (RowPos.timeline n).start) =
      (l.take k).map timelineRow ++ ((l.drop k).map timelineRow ++
        servedRows s (if history then historyRows s room else [])) := by
    rw [rows, ← List.append_assoc, ← List.map_append, List.take_append_drop]
  have behind := served_end parts
  obtain ⟨m, last⟩ : ∃ m, ((l.map Prod.fst).take k).getLast?.getD n = m := ⟨_, rfl⟩
  have place : ((((l.take k).map timelineRow).getLast?).map Prod.fst).getD (.timeline n) = .timeline m := by
    rw [← last, ← List.map_take, List.getLast?_map, List.getLast?_map]
    cases (l.take k).getLast? <;> rfl
  rw [place] at behind start
  have apart : ∀ r ∈ servedRows s (if history then historyRows s room else []), ∀ n, r.1 ≠ .timeline n := by
    intro row mem n same
    split at mem
    · obtain ⟨r, -, rfl⟩ := List.mem_map.1 (List.mem_filter.1 mem).1
      cases same
    · cases mem
  -- the newer side
  have beside : servedRows s (rowsAhead s room cap history .forward (RowPos.timeline n).start) =
      ((scanned s.roomSeq room n cap).take (limit - k)).map timelineRow ++
        ((scanned s.roomSeq room n cap).drop (limit - k)).map timelineRow := by
    rw [← List.map_append, List.take_append_drop, rowsAhead_forward (p := (RowPos.timeline n).start) trivial]
    simp only [RowPos.start, newer_timeline_history, newer_timeline, List.nil_append]
    exact servedRows_timeline run fun r mem => mem
  have beyond := served_end beside
  rw [← ends] at beyond
  rw [joins_iff parts beside before after, and_iff_left beyond, start, served_pred behind]
  exact skipped_iff .timeline _ _ (p := fun r => isWithin cap r = true) (q := fun b => cap.all (b ≤ ·) = true)
    (fun _ => rfl) (fun _ _ => RowPos.timeline.inj) rfl apart (fun _ => Iff.rfl) sorted last

theorem servedRows_history (l : List (Nat × EventId)) : servedRows s (l.map historyRow) =
    (l.filter fun r => (rawEvent s r.2).isSome).map historyRow := by
  rw [servedRows, List.filter_map]
  rfl

theorem newer_rows (run : Runs P Store.empty s) (i : Nat) :
    servedRows s (rowsAhead s room cap true .forward (RowPos.history i).start) =
      servedRows s ((newerHistory s room i).map historyRow) ++
        (scanned s.roomSeq room 0 cap).map timelineRow := by
  rw [rowsAhead_forward (p := (RowPos.history i).start) (Or.inl rfl)]
  simp only [RowPos.start, newer_history, newer_history_timeline]
  rw [servedRows, List.filter_append]
  exact congrArg _ (servedRows_timeline run fun r mem => mem)

theorem served_pred_history {m : Nat} {l : List Row}
    (beyond : servedRows s (rowsAhead s room cap history .forward (RowPos.history m).start) = l) :
    servedRows s (rowsAhead s room cap history .forward (RowPos.history m).pred.start) =
      l.filter fun row => row.1 ≠ (RowPos.history m).pred := by
  rw [← beyond, servedRows_ahead, servedRows_ahead]
  exact newer_pred m

/-- The served rows of the history that a context in it returns, and those newer ones that it does not. -/
def servedNewer (s : Store) (room : RoomId) (i : Nat) : List (Nat × EventId) :=
  (newerHistory s room i).filter fun r => (rawEvent s r.2).isSome

section Past

variable {i limit : Nat} {c : Context} {older seen newer : List Row}

theorem PastContext.older_parts (h : PastContext s room cap i limit c older seen newer) : ∃ oldest,
    servedRows s (rowsAhead s room none true .backward (RowPos.history i).start) = older ++ oldest ∧
      servedRows s (rowsAhead s room cap true .backward c.startPos.start) = oldest.filter (isWithin cap) := by
  have parts : servedRows s (rowsAhead s room none true .backward (RowPos.history i).start) = older ++
      servedRows s (((scanned s.history room i none).drop (beforeLimit limit)).map historyRow) := by
    rw [rowsAhead_backward, ← h.past, servedRows, servedRows, servedRows, ← List.filter_append,
      ← List.map_append, List.take_append_drop]
    simp only [RowPos.start, older_history_timeline, older_history, if_true, List.nil_append]
  refine ⟨_, parts, ?_⟩
  rw [h.start, older_within, served_end parts]

theorem PastContext.newer_parts (run : Runs P Store.empty s)
    (h : PastContext s room cap i limit c older seen newer) : ∃ rest,
    (servedNewer s room i).map historyRow = seen ++ rest ∧
      servedRows s (rowsAhead s room cap true .forward (RowPos.history i).start) =
        seen ++ rest ++ (scanned s.roomSeq room 0 cap).map timelineRow := by
  have whole : servedRows s ((newerHistory s room i).map historyRow) = seen ++
      servedRows s (((newerHistory s room i).drop (limit - beforeLimit limit)).map historyRow) := by
    rw [← h.served, servedRows, servedRows, servedRows, ← List.filter_append, ← List.map_append,
      List.take_append_drop]
  exact ⟨_, (servedRows_history _).symm.trans whole, (newer_rows run i).trans (by rw [whole])⟩

theorem PastContext.joins_order (run : Runs P Store.empty s)
    (h : PastContext s room cap i limit c older seen newer) (more : newer ≠ []) :
    (seen.length < limit - beforeLimit limit ∧ scanned s.roomSeq room 0 cap ≠ []) ∧
      (Joins s room cap true (.history i) c ↔ (servedNewer s room i).length = seen.length) := by
  obtain ⟨oldest, back, behind⟩ := h.older_parts
  obtain ⟨rest, indexed, forth⟩ := h.newer_parts run
  have counted : (servedNewer s room i).length = seen.length + rest.length := by
    rw [← List.length_map (f := historyRow), indexed, List.length_append]
  have own := h.order
  obtain ⟨row, last⟩ := Option.isSome_iff_exists.1 (List.getLast?_isSome.2 more)
  generalize scanned s.roomSeq room 0 cap = order at own forth ⊢
  generalize limit - beforeLimit limit = size at own ⊢
  obtain ⟨tail, order_rows⟩ : ∃ tail, order.map timelineRow = newer ++ tail := by
    refine ⟨(order.drop (size - seen.length)).map timelineRow, ?_⟩
    rw [← own, ← List.map_append, List.take_append_drop]
  rw [order_rows, ← List.append_assoc] at forth
  have beyond : servedRows s (rowsAhead s room cap true .forward c.endPos.start) = tail := by
    have ends := served_end forth
    rw [List.getLast?_append, last] at ends
    rw [h.ends, last]
    exact ends
  refine ⟨⟨?_, ?_⟩, ?_⟩
  · by_contra spent
    rw [Nat.sub_eq_zero_of_le (by omega)] at own
    exact more own.symm
  · rintro rfl
    rw [List.take_nil] at own
    exact more own.symm
  rw [counted]
  constructor
  · rintro ⟨-, j, -, ids, -, same⟩
    rw [forth, h.after] at ids
    rw [beyond, forth] at same
    have ids := congrArg List.length ids
    have same := congrArg List.length same
    simp only [List.length_map, List.length_take, List.length_drop, List.length_append] at ids same
    omega
  · intro none_left
    obtain rfl := List.length_eq_zero_iff.1 (by omega : rest.length = 0)
    rw [List.append_nil] at forth
    exact (joins_iff back forth h.before h.after).2 ⟨behind, beyond⟩

theorem PastContext.joins_past (run : Runs P Store.empty s)
    (h : PastContext s room cap i limit c older seen []) :
    ¬ (seen.length < limit - beforeLimit limit ∧ scanned s.roomSeq room 0 cap ≠ []) ∧
      (Joins s room cap true (.history i) c ↔ ∀ a b,
        (i :: (servedNewer s room i).map Prod.fst)[seen.length]? = some a →
          ((servedNewer s room i).map Prod.fst)[seen.length]? = some b → b + 1 ≠ a) := by
  obtain ⟨oldest, back, behind⟩ := h.older_parts
  obtain ⟨rest, indexed, forth⟩ := h.newer_parts run
  have sorted : (i :: (servedNewer s room i).map Prod.fst).Pairwise (· > ·) :=
    (numbers_sorted room s.history i).sublist ((List.filter_sublist.map _).cons_cons i)
  generalize servedNewer s room i = served at indexed sorted ⊢
  refine ⟨?_, ?_⟩
  · rintro ⟨room_left, some_row⟩
    rcases List.take_eq_nil_iff.1 (List.map_eq_nil_iff.1 h.order) with full | empty
    · omega
    · exact some_row empty
  have left : (served.drop seen.length).map historyRow = rest := by
    rw [List.map_drop, indexed, List.drop_left]
  obtain ⟨m, here⟩ : ∃ m, ((served.map Prod.fst).take seen.length).getLast?.getD i = m := ⟨_, rfl⟩
  have place : (seen.getLast?.map Prod.fst).getD (.history i) = .history m := by
    have taken : (served.take seen.length).map historyRow = seen := by
      rw [List.map_take, indexed, List.take_left]
    have newest : seen.getLast?.map Prod.fst =
        ((served.map Prod.fst).take seen.length).getLast?.map RowPos.history := by
      conv_lhs => rw [← taken]
      rw [← List.map_take, List.getLast?_map, List.getLast?_map, Option.map_map, Option.map_map]
      rfl
    rw [newest, ← here]
    cases ((served.map Prod.fst).take seen.length).getLast? <;> rfl
  rw [List.append_assoc] at forth
  have beyond := served_end forth
  rw [place] at beyond
  have ends : c.endPos = (RowPos.history m).pred := by rw [h.ends, List.getLast?_nil, ← place]; rfl
  have next := skipped_iff .history historyRow ((scanned s.roomSeq room 0 cap).map timelineRow)
    (p := fun _ => True) (q := fun _ => True) (fun _ => rfl) (fun _ _ => RowPos.history.inj) rfl
    (fun r mem n same => by
      obtain ⟨x, -, rfl⟩ := List.mem_map.1 mem
      cases same) (fun _ => Iff.rfl) sorted here
  simp only [true_implies, left] at next
  rw [joins_iff back forth h.before (h.after.trans (by rw [List.append_nil])), and_iff_right behind, ends,
    served_pred_history beyond, filter_eq_iff, next]

theorem joins_history (run : Runs P Store.empty s) (h : PastContext s room cap i limit c older seen newer) :
    Joins s room cap true (.history i) c ↔ Unskipped s room cap limit (.history i) := by
  change _ ↔ if (servedRows s (((newerHistory s room i).take (limit - beforeLimit limit)).map
    historyRow)).length < limit - beforeLimit limit ∧ scanned s.roomSeq room 0 cap ≠ [] then
      ((servedNewer s room i).map Prod.fst).length = _ else _
  rw [h.served, List.length_map]
  by_cases more : newer = []
  · subst more
    obtain ⟨full, joins⟩ := h.joins_past run
    rw [if_neg full]
    exact joins
  · obtain ⟨reached, joins⟩ := h.joins_order run more
    rw [if_pos reached]
    exact joins

end Past

end Ends

/-! ## The pages after a context -/

section Around

variable {cs : CsState} {w t : Shards} {room : RoomId} {user : UserId} {target : EventId} {limit : Nat}
  {c : Context} {stored : StoredEvent} {view : StateIds × Option Nat} {history : Bool}
  {permitted : Shards → PagePos → PageRequest → Prop} {url : Option Bool} {token : String}
  {events : List ClientEvent} {pos : RowPos}

theorem Walk.forward_same (walk : Walk cs room user .forward url permitted w token t events) : t = w := by
  have kept {w v : Shards} {r : PageRequest} {p : PagePos} {m : Messages}
      (answered : cs.getMessages r.fed w user room (.ok (r.query .forward url p)) = .ok (v, m)) :
      v = w := by
    obtain ⟨_, page, -, paged, rfl, -⟩ := getMessages_page answered
    obtain rfl := Except.ok.inj paged
    rfl
  induction walk with
  | last _ _ answered => exact kept answered
  | next _ _ answered _ _ ih => exact ih.trans (kept answered)

theorem Walk.token_read {dir : Direction} (walk : Walk cs room user dir url permitted w pos.token t events) :
    parsePagePos pos.token (cs.shard room) = .ok pos.start := by
  have read {p : PagePos} (read : parsePagePos pos.token (cs.shard room) = .ok p) :
      parsePagePos pos.token (cs.shard room) = .ok pos.start := parsePagePos_token read ▸ read
  cases walk with
  | last h => exact read h
  | next h => exact read h

/-- **When a context joins up.** The pages back from the older token of a context and forwards from its
newer one, where they are ready, return the events of the rows ahead of the tokens, and behind them what
was fetched on the way. The events around the target are the rows next to it, and the rows ahead of the
tokens those next to these, exactly if no end leaves a row out. -/
theorem context_joins_iff (run : Runs (Serial cs.ruma) Store.empty (cs.forRoom w room))
    (answered : cs.getContext w user room target limit = .ok c)
    (held : (cs.forRoom w room).event[target]? = some stored)
    (viewed : memberView (cs.forRoom w room) cs.fuel room user = .ok view)
    (readable : historyReadable (cs.forRoom w room) cs.fuel room = .ok history) :
    (∀ t events, Walk cs room user .backward none (Ready cs room user .backward none) w
      c.startPos.token t events → ∃ fetched,
        rowsAhead (cs.forRoom t room) room view.2 history .backward c.startPos.start =
          rowsAhead (cs.forRoom w room) room view.2 history .backward c.startPos.start ++ fetched ∧
        Shown none (cs.forRoom t room)
          (rowsAhead (cs.forRoom w room) room view.2 history .backward c.startPos.start ++ fetched) events) ∧
    (∀ t events, Walk cs room user .forward none (Ready cs room user .forward none) w
      c.endPos.token t events → t = w ∧ Shown none (cs.forRoom w room)
        (rowsAhead (cs.forRoom w room) room view.2 history .forward c.endPos.start) events) ∧
    (Joins (cs.forRoom w room) room view.2 history (placeOf stored) c ↔
      Unskipped (cs.forRoom w room) room view.2 (min limit 100) (placeOf stored)) := by
  refine ⟨fun t events walk => ?_, fun t events walk => ?_, ?_⟩
  · obtain ⟨-, grown, shows, -⟩ := walk.complete run walk.token_read viewed readable
    obtain ⟨fetched, same⟩ := Course.rest_le (C := Direction.backward.course)
      (p := c.startPos.start) grown
    exact ⟨fetched, same.symm, by rw [rowsAhead, same]; exact shows⟩
  · obtain rfl := walk.forward_same
    exact ⟨rfl, (walk.complete run walk.token_read viewed readable).2.2.1⟩
  · by_cases placed : stored.seq = 0
    · obtain ⟨may, _, _, _, context⟩ := getContext_history run answered held viewed placed
      obtain rfl := ok_unique may readable
      rw [placeOf, if_pos placed]
      exact joins_history run context
    · obtain ⟨_, _, context⟩ := getContext_timeline run answered held viewed placed
      rw [placeOf, if_neg placed]
      exact joins_timeline run context

def sampleNote : JsonObject :=
  Ruma.samplePdu "m" "m.room.message" none "@a:x" [] ["$c", "$j"] ["$j"] 3

/-- With one event on either side of it, a context for the creator's join reaches the room's beginning. -/
theorem context_joins_sample : ∃ (s : Store) (c : Context) (view : StateIds × Option Nat) (history : Bool),
    Runs (Serial Ruma.sample) Store.empty s ∧
    sampleCsState.getContext (sampleHolding s) "@a:x" "!r:x" "$j" 2 = .ok c ∧
    Joins s "!r:x" view.2 history (.timeline 2) c := by
  obtain ⟨s, run, h⟩ := exists_run (fun _ _ => True)
    [.ingest Ruma.sampleCreate false, .ingest Ruma.sampleJoin false, .ingest sampleNote false]
    (fun s : Store => (sampleCsState.getContext (sampleHolding s) "@a:x" "!r:x" "$j" 2).toOption.isSome &&
      (s.event["$j"]?).any (fun e : StoredEvent => decide (e.seq = 2)) &&
      decide (positionsBelow s "!r:x" 2 = [1]) &&
      (memberView s 9 "!r:x" "@a:x").toOption.isSome && (historyReadable s 9 "!r:x").toOption.isSome)
    (by decide +kernel)
  simp only [Bool.and_eq_true, Option.any_eq_true, decide_eq_true_eq, Option.isSome_iff_exists,
    toOption_eq_some] at h
  obtain ⟨⟨⟨⟨⟨c, answered⟩, stored, held, placed⟩, below⟩, view, viewed⟩, history, readable⟩ := h
  have run := run.mono fun _ _ h => h.1
  refine ⟨s, c, view, history, run, answered, ?_⟩
  have joins := (context_joins_iff (w := sampleHolding s) run answered held viewed readable).2.2
  rw [placeOf, placed] at joins
  refine joins.2 fun a b _ next => ?_
  rw [show sampleCsState.forRoom (sampleHolding s) "!r:x" = s from rfl, below] at next
  cases next

/-- The room has its create event, the join and a name. A context of the name with one event before it
ends at the join, and no page back from there has the create event. -/
theorem older_row_lost : ∃ (s : Store) (c : Context) (t : Shards),
    Runs (Serial Ruma.sample) Store.empty s ∧
    s.roomSeq[("!r:x", 1)]? = some "$c" ∧ s.roomSeq[("!r:x", 2)]? = some "$j" ∧
    sampleCsState.getContext (sampleHolding s) "@a:x" "!r:x" "$m" 1 = .ok c ∧
    c.eventsBefore.map ClientEvent.eventId = ["$j"] ∧
    Walk sampleCsState "!r:x" "@a:x" .backward none (Ready sampleCsState "!r:x" "@a:x" .backward none)
      (sampleHolding s) c.startPos.token t [] := by
  obtain ⟨s, run, h⟩ := exists_run (fun _ _ => True)
    [.ingest Ruma.sampleCreate false, .ingest Ruma.sampleJoin false, .ingest sampleNote false]
    (fun s : Store => decide (s.roomSeq[("!r:x", 1)]? = some "$c") &&
      decide (s.roomSeq[("!r:x", 2)]? = some "$j") &&
      (sampleCsState.getContext (sampleHolding s) "@a:x" "!r:x" "$m" 1).toOption.any (fun c : Context =>
        decide (c.eventsBefore.map ClientEvent.eventId = ["$j"]) && decide (c.startPos = .timeline 1)) &&
      samplePage s (.timeline ⟨1, true, none⟩) [] none [] && decide (s.frontier "!r:x" = []))
    (by decide +kernel)
  simp only [Bool.and_eq_true, Option.any_eq_true, decide_eq_true_eq, toOption_eq_some] at h
  obtain ⟨⟨⟨⟨create, join⟩, c, answered, before, start⟩, page⟩, closed⟩ := h
  obtain ⟨t, m, paged, ids, ends, -⟩ := samplePage_answered page
  refine ⟨s, c, t, run.mono fun _ _ h => h.1, create, join, answered, before, ?_⟩
  rw [start]
  exact List.map_eq_nil_iff.1 ids ▸ .last (parsePagePos_timeline (by decide))
    (fun _ _ _ _ => ⟨.inl closed, fun _ _ => .beginning closed⟩) paged ends

end Around

end Saltator.Client
