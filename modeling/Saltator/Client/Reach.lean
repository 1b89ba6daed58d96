import Saltator.Client.Reads

/-!
# The rows in reach of a request

Which rows of a room a page has, and which the neighbours of an event are, told from the rows themselves: by
the span of the request, and by how many rows of it come first. A page that comes to the end of the history
goes on with what other servers send.
-/

namespace Saltator.Client

open Std
open Saltator.Outcome
open Room

/-- The row is one of the `k` last ones of a span. -/
structure Latest (table : OrdMap (RoomId × Nat) EventId) (room : RoomId) (after : Nat) (upto : Option Nat)
    (k n : Nat) (id : EventId) : Prop where
  row : table[(room, n)]? = some id
  above : after < n
  below : ∀ m, upto = some m → n ≤ m
  first : (scanned table room n upto).length < k

/-- The row is one of the `k` first ones of a span. -/
structure Earliest (table : OrdMap (RoomId × Nat) EventId) (room : RoomId) (after : Nat) (upto : Option Nat)
    (k n : Nat) (id : EventId) : Prop where
  row : table[(room, n)]? = some id
  above : after < n
  below : ∀ m, upto = some m → n ≤ m
  first : (scanned table room after (some (n - 1))).length < k

section Spans

variable {table : OrdMap (RoomId × Nat) EventId} {room : RoomId} {after k n : Nat} {upto : Option Nat}
  {id : EventId}

theorem mem_take_iff {α : Type} {r : α → α → Prop} [DecidableRel r] (asymm : ∀ a b, r a b → ¬ r b a)
    {l : List α} {x : α} {k : Nat} (sorted : l.Pairwise r) :
    x ∈ l.take k ↔ x ∈ l ∧ (l.filter fun y => r y x).length < k := by
  induction l generalizing k with
  | nil => simp
  | cons a l ih =>
    obtain ⟨before, sorted⟩ := List.pairwise_cons.1 sorted
    cases k with
    | zero => simp
    | succ k =>
      rw [List.take_succ_cons, List.mem_cons, List.mem_cons, ih sorted]
      by_cases same : x = a
      · subst same
        have none : (x :: l).filter (fun y => decide (r y x)) = [] := by
          refine List.filter_eq_nil_iff.2 fun y mem => ?_
          rw [decide_eq_true_eq]
          rcases List.mem_cons.1 mem with rfl | mem
          · exact fun own => asymm _ _ own own
          · exact asymm _ _ (before y mem)
        simp [none]
      · simp only [same, false_or]
        refine and_congr_right fun mem => ?_
        rw [List.filter_cons_of_pos (by simpa using before x mem), List.length_cons]
        omega

theorem mem_scan_latest : (n, id) ∈ scan table room after upto k true ↔ Latest table room after upto k n id := by
  have later : ((scanned table room after upto).reverse.filter fun r : Nat × EventId => decide (n < r.1)).length =
      (scanned table room (max n after) upto).length := by
    rw [List.filter_reverse, List.length_reverse]
    refine congrArg List.length (scanned_filter fun r => ?_).symm
    rw [decide_eq_true_eq]
    exact ⟨fun ⟨past, below⟩ => ⟨⟨by omega, below⟩, by omega⟩, fun ⟨⟨past, below⟩, ahead⟩ => ⟨by omega, below⟩⟩
  rw [scan, if_pos rfl, mem_take_iff (r := fun a b : Nat × EventId => b.1 < a.1) (fun a b => by omega)
    (List.pairwise_reverse.2 (scanned_sorted table room after upto)), List.mem_reverse, mem_scanned, later]
  constructor
  · rintro ⟨⟨row, above, below⟩, first⟩
    exact ⟨row, above, below, by rwa [max_eq_left above.le] at first⟩
  · rintro ⟨row, above, below, first⟩
    exact ⟨⟨row, above, below⟩, by rwa [max_eq_left above.le]⟩

theorem mem_scan_earliest : (n, id) ∈ scan table room after upto k false ↔
    Earliest table room after upto k n id := by
  rw [scan, if_neg Bool.false_ne_true, mem_take_iff (r := fun a b : Nat × EventId => a.1 < b.1)
    (fun a b => by omega) (scanned_sorted table room after upto), mem_scanned]
  have earlier (above : after < n) (below : ∀ m, upto = some m → n ≤ m) :
      (scanned table room after upto).filter (fun r : Nat × EventId => decide (r.1 < n)) =
        scanned table room after (some (n - 1)) := by
    refine (scanned_filter fun r => ?_).symm
    rw [decide_eq_true_eq]
    constructor
    · rintro ⟨past, within⟩
      have := within _ rfl
      exact ⟨⟨past, fun m bound => by have := below m bound; omega⟩, by omega⟩
    · rintro ⟨⟨past, -⟩, less⟩
      refine ⟨past, fun m bound => ?_⟩
      obtain rfl := Option.some.inj bound
      omega
  constructor
  · rintro ⟨⟨row, above, below⟩, first⟩
    exact ⟨row, above, below, by rwa [earlier above below] at first⟩
  · rintro ⟨row, above, below, first⟩
    exact ⟨⟨row, above, below⟩, by rwa [earlier above below]⟩

end Spans

namespace CsState

variable (cs : CsState) (fed : Nat → Option FederationState) (room : RoomId)

/-- One of the next `k` rows of the history behind a cursor. Where these are fewer, and the other servers may
have more, the fetches that are left bring the rest. -/
inductive PastRow (upto : Option Nat) : Nat → Nat → Shards → Nat → Nat → EventId → Prop
  | held {fetches k cursor n : Nat} {w : Shards} {id : EventId}
      (row : Earliest (cs.forRoom w room).history room cursor upto k n id) :
      PastRow upto fetches k w cursor n id
  | fetched {fetches k cursor n indexed : Nat} {w v : Shards} {rows : List (Nat × EventId)} {id : EventId}
      (open_ : upto = none) (known : scanned (cs.forRoom w room).history room cursor upto = rows)
      (few : rows.length < k) {frontier : List EventId}
      (missing : ((cs.forRoom w room).room[room]?.map RoomMeta.historyFrontier).getD [] = frontier)
      (more : frontier ≠ []) (answer : cs.fetchHistory (fed fetches) w room frontier = .ok (v, indexed + 1))
      (next : PastRow upto fetches (k - rows.length) v ((rows.getLast?.map Prod.fst).getD cursor) n id) :
      PastRow upto (fetches + 1) k w cursor n id

variable (w : Shards) (cap : Option Nat) (q : MessagesQuery)

/-- How many rows of the room's order a backward page may have. -/
def orderCount : Nat :=
  match q.backwardSpan with
  | none => 0
  | some (lower, upper) => (scanned (cs.forRoom w room).roomSeq room lower (Option.merge min upper cap)).length

/-- How many rows of the history a forward page may have. -/
def pastCount : Nat :=
  match q.forwardHistory with
  | none => 0
  | some (after, upto) => (scanned (cs.forRoom w room).history room after (some upto)).length

/-- The rows of a page. Back, it goes down the room's order, and where that ends, on into a history that may be
read. Forward, it is the other way round. -/
inductive PageRow : RowPos → EventId → Prop
  | order {lower n : Nat} {upper : Option Nat} {id : EventId} (back : q.dir = .backward)
      (span : q.backwardSpan = some (lower, upper))
      (row : Latest (cs.forRoom w room).roomSeq room lower (Option.merge min upper cap) q.size n id) :
      PageRow (.timeline n) id
  | past {upto : Option Nat} {n : Nat} {id : EventId} (back : q.dir = .backward)
      (span : q.historyUntil = some upto) (short : cs.orderCount room w cap q < q.size)
      (readable : historyReadable (cs.forRoom w room) cs.fuel room = .ok true)
      (row : cs.PastRow fed room upto (q.size / 100 + 2) (q.size - cs.orderCount room w cap q) w q.historyCursor
        n id) : PageRow (.history n) id
  | pastForward {after upto n : Nat} {id : EventId} (forth : q.dir = .forward)
      (span : q.forwardHistory = some (after, upto))
      (row : Latest (cs.forRoom w room).history room after (some upto) q.size n id) : PageRow (.history n) id
  | orderForward {lower n : Nat} {upper : Option Nat} {id : EventId} (forth : q.dir = .forward)
      (span : q.forwardSpan cap = some (lower, upper))
      (row : Earliest (cs.forRoom w room).roomSeq room lower upper (q.size - cs.pastCount room w q) n id) :
      PageRow (.timeline n) id

end CsState

/-! ## Neighbours -/

def servedRows (s : Store) (rows : List Row) : List Row := rows.filter fun row => (rawEvent s row.2).isSome

namespace CsState

variable (cs : CsState) (w : Shards) (user : UserId) (room : RoomId)

def neighbours (stored : StoredEvent) (ceiling : Option Nat) (limit : Nat) :
    Except ApiError Neighbours := do
  let s := cs.forRoom w room
  let version ← versionOf s room
  if stored.seq = 0 then
    cs.historyNeighbours s room version user (stored.historyIdx.getD 0) ceiling limit
  else cs.timelineNeighbours s room version user stored.seq ceiling limit

def statePosition (stored : StoredEvent) (near : Neighbours) : Option Nat :=
  if stored.seq = 0 then near.newest else some (near.newest.getD stored.seq)

end CsState

inductive Older (s : Store) (room : RoomId) (stored : StoredEvent) (limit : Nat) : RowPos → EventId → Prop
  | order {n : Nat} {id : EventId} (placed : stored.seq ≠ 0)
      (row : Latest s.roomSeq room 0 (some (stored.seq - 1)) (CsState.beforeLimit limit) n id) :
      Older s room stored limit (.timeline n) id
  | past {n : Nat} {id : EventId} (placed : stored.seq = 0)
      (row : Earliest s.history room (stored.historyIdx.getD 0) none (CsState.beforeLimit limit) n id) :
      Older s room stored limit (.history n) id

def newerCount (s : Store) (room : RoomId) (stored : StoredEvent) (limit : Nat) : Nat :=
  (servedRows s (((scanned s.history room 0 (some (stored.historyIdx.getD 0 - 1))).reverse.take
    (limit - CsState.beforeLimit limit)).map historyRow)).length

inductive Newer (s : Store) (room : RoomId) (stored : StoredEvent) (ceiling : Option Nat) (limit : Nat) :
    RowPos → EventId → Prop
  | order {n : Nat} {id : EventId} (placed : stored.seq ≠ 0)
      (row : Earliest s.roomSeq room stored.seq ceiling (limit - CsState.beforeLimit limit) n id) :
      Newer s room stored ceiling limit (.timeline n) id
  | past {n : Nat} {id : EventId} (placed : stored.seq = 0)
      (row : Latest s.history room 0 (some (stored.historyIdx.getD 0 - 1)) (limit - CsState.beforeLimit limit)
        n id) : Newer s room stored ceiling limit (.history n) id
  | above {n : Nat} {id : EventId} (placed : stored.seq = 0)
      (row : Earliest s.roomSeq room 0 ceiling
        (limit - CsState.beforeLimit limit - newerCount s room stored limit) n id) :
      Newer s room stored ceiling limit (.timeline n) id

/-- The last position of the room's order among some rows. -/
def IsNewest (rows : RowPos → EventId → Prop) (n : Nat) : Prop :=
  (∃ id, rows (.timeline n) id) ∧ ∀ m id, rows (.timeline m) id → m ≤ n

section Pages

variable {cs : CsState} {fed : Nat → Option FederationState} {w : Shards} {room : RoomId} {cap upto : Option Nat}
  {q : MessagesQuery} {page : CsState.Page} {rows : List Row} {r : Row} {pos : RowPos} {id : EventId}

theorem mem_placedRows_iff (place : Nat → RowPos) {l : List (Nat × EventId)} :
    r ∈ l.map (fun x => (place x.1, x.2)) ↔ ∃ n id, r = (place n, id) ∧ (n, id) ∈ l := by
  rw [List.mem_map]
  exact ⟨fun ⟨x, mem, same⟩ => ⟨x.1, x.2, same.symm, mem⟩, fun ⟨n, id, same, mem⟩ => ⟨(n, id), mem, same.symm⟩⟩

theorem mem_historyRows_iff {l : List (Nat × EventId)} :
    r ∈ l.map historyRow ↔ ∃ n id, r = (.history n, id) ∧ (n, id) ∈ l := mem_placedRows_iff .history

theorem mem_orderRows_iff {l : List (Nat × EventId)} :
    r ∈ l.map timelineRow ↔ ∃ n id, r = (.timeline n, id) ∧ (n, id) ∈ l := mem_placedRows_iff .timeline

/-- Where the rows of a page run out and a fetch brings more, it goes on with these. -/
theorem pastRow_fetched_iff {fetches k cursor n indexed : Nat} {v : Shards} {l : List (Nat × EventId)}
    {frontier : List EventId} (known : scanned (cs.forRoom w room).history room cursor none = l)
    (few : l.length < k)
    (missing : ((cs.forRoom w room).room[room]?.map RoomMeta.historyFrontier).getD [] = frontier)
    (more : frontier ≠ []) (answer : cs.fetchHistory (fed fetches) w room frontier = .ok (v, indexed + 1)) :
    cs.PastRow fed room none (fetches + 1) k w cursor n id ↔
      Earliest (cs.forRoom w room).history room cursor none k n id ∨
        cs.PastRow fed room none fetches (k - l.length) v ((l.getLast?.map Prod.fst).getD cursor) n id := by
  constructor
  · intro comes
    cases comes with
    | held row => exact .inl row
    | fetched _ known' _ missing' _ answer' next =>
      subst known known' missing missing'
      obtain ⟨rfl, -⟩ := Prod.mk.inj (ok_unique answer answer')
      exact .inr next
  · rintro (row | next)
    · exact .held row
    · exact .fetched rfl known few missing more answer next

theorem mem_historyPage {size fetches cursor : Nat}
    (h : cs.historyPage fed room upto size fetches w cursor rows = .ok page) :
    r ∈ page.rows ↔ r ∈ rows ∨
      ∃ n id, r = (.history n, id) ∧ cs.PastRow fed room upto fetches (size - rows.length) w cursor n id := by
  -- what is there already, and that it is all where the page ends with it
  have here (w : Shards) (cursor : Nat) (rows : List Row) :
      r ∈ rows ++ (roomHistory (cs.forRoom w room) room cursor upto (size - rows.length) false).map historyRow ↔
        r ∈ rows ∨ ∃ n id, r = (.history n, id) ∧
          Earliest (cs.forRoom w room).history room cursor upto (size - rows.length) n id := by
    rw [List.mem_append, mem_historyRows_iff]
    simp only [roomHistory, mem_scan_earliest]
  have ends {fetches cursor : Nat} {w : Shards} {rows : List Row} (final : ∀ n id,
      cs.PastRow fed room upto fetches (size - rows.length) w cursor n id →
        Earliest (cs.forRoom w room).history room cursor upto (size - rows.length) n id) :
      r ∈ rows ++ (roomHistory (cs.forRoom w room) room cursor upto (size - rows.length) false).map historyRow ↔
        r ∈ rows ∨ ∃ n id, r = (.history n, id) ∧
          cs.PastRow fed room upto fetches (size - rows.length) w cursor n id :=
    (here w cursor rows).trans (or_congr_right (exists₂_congr fun n id => and_congr_right fun _ =>
      ⟨.held, final n id⟩))
  induction fetches generalizing w cursor rows with
  | zero =>
    have final : ∀ n id, cs.PastRow fed room upto 0 (size - rows.length) w cursor n id → Earliest
        (cs.forRoom w room).history room cursor upto (size - rows.length) n id := by
      intro n id comes
      cases comes with
      | held row => exact row
    unfold CsState.historyPage at h
    dsimp only at h
    split at h
    · cases h
      exact ends final
    split at h <;> cases h <;> exact ends final
  | succ fetches ih =>
    unfold CsState.historyPage at h
    dsimp only at h
    split at h
    · rename_i full
      cases h
      refine ends fun n id comes => ?_
      cases comes with
      | held row => exact row
      | fetched open_ known few _ _ _ _ =>
        subst open_ known
        simp [roomHistory, scan] at full
        omega
    rename_i unfilled
    split at h
    · rename_i closed
      cases h
      refine ends fun n id comes => ?_
      cases comes with
      | held row => exact row
      | fetched _ _ _ missing more => exact absurd (missing.symm.trans closed) more
    rename_i more
    obtain ⟨⟨v, indexed⟩, answer, h⟩ := bind_eq_ok.1 h
    dsimp only at h
    split at h
    · rename_i idle
      obtain rfl := pure_eq_ok.1 h
      refine ends fun n id comes => ?_
      cases comes with
      | held row => exact row
      | fetched _ _ _ missing _ answer' =>
        subst missing
        obtain ⟨-, same⟩ := Prod.mk.inj (ok_unique answer answer')
        omega
    · rename_i brought
      obtain ⟨short, open_⟩ := not_or.1 unfilled
      obtain rfl : upto = none := by simpa using open_
      obtain ⟨indexed, rfl⟩ := Nat.exists_eq_succ_of_ne_zero brought
      obtain ⟨l, known⟩ : ∃ l, scanned (cs.forRoom w room).history room cursor none = l := ⟨_, rfl⟩
      have found : roomHistory (cs.forRoom w room) room cursor none (size - rows.length) false =
          l.take (size - rows.length) := by rw [← known]; rfl
      rw [found, List.length_append, List.length_map, List.length_take] at short
      have few : l.length < size - rows.length := by omega
      have all := here w cursor rows
      rw [List.take_of_length_le few.le] at found
      rw [found] at h all
      have counts : size - (rows ++ l.map historyRow).length = size - rows.length - l.length := by
        rw [List.length_append, List.length_map, Nat.sub_sub]
      refine (ih h).trans ?_
      rw [all, counts, or_assoc]
      simp only [pastRow_fetched_iff known few rfl more answer, and_or_left, exists_or]

theorem mem_backwardRows_iff {s : Store} : (pos, id) ∈ CsState.backwardRows s room cap q ↔
    ∃ lower upper n, q.backwardSpan = some (lower, upper) ∧ pos = .timeline n ∧
      Latest s.roomSeq room lower (Option.merge min upper cap) q.size n id := by
  rw [CsState.backwardRows]
  cases span : q.backwardSpan with
  | none => simp
  | some bounds =>
    obtain ⟨lower, upper⟩ := bounds
    simp only [mem_orderRows_iff, roomTimeline, mem_scan_latest, Prod.mk.injEq]
    constructor
    · rintro ⟨n, id, ⟨rfl, rfl⟩, row⟩
      exact ⟨lower, upper, n, rfl, rfl, row⟩
    · rintro ⟨_, _, n, same, rfl, row⟩
      cases same
      exact ⟨n, id, ⟨rfl, rfl⟩, row⟩

theorem length_backwardRows : (CsState.backwardRows (cs.forRoom w room) room cap q).length =
    min q.size (cs.orderCount room w cap q) := by
  rw [CsState.backwardRows, CsState.orderCount]
  cases q.backwardSpan with
  | none => simp
  | some bounds => simp [roomTimeline, scan]

theorem mem_backwardPage (back : q.dir = .backward) (h : cs.backwardPage fed w room cap q = .ok page) :
    (pos, id) ∈ page.rows ↔ cs.PageRow fed room w cap q pos id := by
  have count : (CsState.backwardRows (cs.forRoom w room) room cap q).length = min q.size (cs.orderCount room w cap q) :=
    length_backwardRows
  -- the page ends with the room's order
  have ends (final : ∀ upto, q.historyUntil = some upto → cs.orderCount room w cap q < q.size →
      historyReadable (cs.forRoom w room) cs.fuel room ≠ .ok true) :
      (pos, id) ∈ CsState.backwardRows (cs.forRoom w room) room cap q ↔ cs.PageRow fed room w cap q pos id := by
    rw [mem_backwardRows_iff]
    constructor
    · rintro ⟨lower, upper, n, span, rfl, row⟩
      exact .order back span row
    · intro row
      cases row with
      | order _ span row => exact ⟨_, _, _, span, rfl, row⟩
      | past _ span short readable => exact absurd readable (final _ span short)
      | pastForward forth => exact absurd (back.symm.trans forth) (by decide)
      | orderForward forth => exact absurd (back.symm.trans forth) (by decide)
  unfold CsState.backwardPage at h
  dsimp only at h
  split at h
  · rename_i none
    cases h
    exact ends fun upto span => by rw [none] at span; cases span
  rename_i upto span
  split at h
  · rename_i short
    obtain ⟨readable, known, h⟩ := bind_eq_ok.1 h
    split at h
    · rename_i open_
      obtain rfl : readable = true := open_
      rw [mem_historyPage h, mem_backwardRows_iff, count]
      have short : cs.orderCount room w cap q < q.size := by omega
      rw [min_eq_right short.le]
      constructor
      · rintro (⟨lower, upper, n, span, rfl, row⟩ | ⟨n, _, same, comes⟩)
        · exact .order back span row
        · cases same
          exact .past back span short known comes
      · intro row
        cases row with
        | order _ span row => exact .inl ⟨_, _, _, span, rfl, row⟩
        | past _ span' _ _ comes =>
          obtain rfl := some_unique span span'
          exact .inr ⟨_, _, rfl, comes⟩
        | pastForward forth => exact absurd (back.symm.trans forth) (by decide)
        | orderForward forth => exact absurd (back.symm.trans forth) (by decide)
    · rename_i closed
      cases h
      exact ends fun _ _ _ open_ => closed (ok_unique known open_)
  · rename_i full
    cases h
    exact ends fun _ _ short => by omega

theorem mem_forwardHistoryRows {s : Store} : (pos, id) ∈ CsState.forwardHistoryRows s room q ↔
    ∃ after upto n, q.forwardHistory = some (after, upto) ∧ pos = .history n ∧
      Latest s.history room after (some upto) q.size n id := by
  rw [CsState.forwardHistoryRows]
  cases span : q.forwardHistory with
  | none => simp
  | some bounds =>
    obtain ⟨after, upto⟩ := bounds
    simp only [mem_historyRows_iff, roomHistory, mem_scan_latest, Prod.mk.injEq]
    constructor
    · rintro ⟨n, id, ⟨rfl, rfl⟩, row⟩
      exact ⟨after, upto, n, rfl, rfl, row⟩
    · rintro ⟨_, _, n, same, rfl, row⟩
      cases same
      exact ⟨n, id, ⟨rfl, rfl⟩, row⟩

theorem length_forwardHistoryRows : (CsState.forwardHistoryRows (cs.forRoom w room) room q).length =
    min q.size (cs.pastCount room w q) := by
  rw [CsState.forwardHistoryRows, CsState.pastCount]
  cases q.forwardHistory with
  | none => simp
  | some bounds => simp [roomHistory, scan]

theorem mem_forwardRows_iff (forth : q.dir = .forward) :
    (pos, id) ∈ CsState.forwardRows (cs.forRoom w room) room cap q ↔ cs.PageRow fed room w cap q pos id := by
  have past : (pos, id) ∈ CsState.forwardHistoryRows (cs.forRoom w room) room q ∨ (∃ lower upper n,
        q.forwardSpan cap = some (lower, upper) ∧ pos = .timeline n ∧ Earliest (cs.forRoom w room).roomSeq
          room lower upper (q.size - cs.pastCount room w q) n id) ↔ cs.PageRow fed room w cap q pos id := by
    rw [mem_forwardHistoryRows]
    constructor
    · rintro (⟨after, upto, n, span, rfl, row⟩ | ⟨lower, upper, n, span, rfl, row⟩)
      · exact .pastForward forth span row
      · exact .orderForward forth span row
    · intro row
      cases row with
      | order back => exact absurd (back.symm.trans forth) (by decide)
      | past back => exact absurd (back.symm.trans forth) (by decide)
      | pastForward _ span row => exact .inl ⟨_, _, _, span, rfl, row⟩
      | orderForward _ span row => exact .inr ⟨_, _, _, span, rfl, row⟩
  have count : (CsState.forwardHistoryRows (cs.forRoom w room) room q).length = min q.size (cs.pastCount room w q) :=
    length_forwardHistoryRows
  rw [← past, CsState.forwardRows]
  cases span : q.forwardSpan cap with
  | none => simp
  | some bounds =>
    obtain ⟨lower, upper⟩ := bounds
    have left : q.size - min q.size (cs.pastCount room w q) = q.size - cs.pastCount room w q := by omega
    simp only [List.mem_append, mem_orderRows_iff, roomTimeline, mem_scan_earliest, Prod.mk.injEq, count, left]
    refine or_congr_right ⟨?_, ?_⟩
    · rintro ⟨n, id, ⟨rfl, rfl⟩, row⟩
      exact ⟨lower, upper, n, rfl, rfl, row⟩
    · rintro ⟨_, _, n, same, rfl, row⟩
      cases same
      exact ⟨n, id, ⟨rfl, rfl⟩, row⟩

theorem le_merge_min {upper cap : Option Nat} {n : Nat} (h : ∀ k, Option.merge min upper cap = some k → n ≤ k) :
    ∀ c, cap = some c → n ≤ c := by
  cases upper <;> cases cap <;> simp_all

theorem CsState.PageRow.timeline {n : Nat} (h : cs.PageRow fed room w cap q (.timeline n) id) :
    (cs.forRoom w room).roomSeq[(room, n)]? = some id ∧ ∀ c, cap = some c → n ≤ c := by
  cases h with
  | order _ _ row => exact ⟨row.row, le_merge_min row.below⟩
  | orderForward _ span row =>
    refine ⟨row.row, fun c bound => ?_⟩
    unfold MessagesQuery.forwardSpan at span
    dsimp only at span
    split at span
    · cases span
    · cases span
      exact le_merge_min row.below c bound
    · cases span
      exact row.below c bound

theorem mem_pageOf (paged : cs.pageOf fed w room cap q = .ok page) :
    (pos, id) ∈ page.rows ↔ cs.PageRow fed room w cap q pos id := by
  unfold CsState.pageOf at paged
  split at paged
  · exact mem_backwardPage ‹_› paged
  · cases paged
    exact mem_forwardRows_iff ‹_›

end Pages

section Near

variable {cs : CsState} {w : Shards} {user : UserId} {room : RoomId} {s : Store} {version : RoomVersion}
  {stored : StoredEvent} {ceiling : Option Nat} {limit n : Nat} {near : CsState.Neighbours} {pos : RowPos}
  {id : EventId} {rows : List Row}

theorem clientEvent_shown {version : RoomVersion} {id : EventId} {ev : Option ClientEvent}
    (h : clientEvent s cs.fuel room cs.ruma version user id = .ok ev) :
    ev.map ClientEvent.eventId = if (rawEvent s id).isSome then some id else none := by
  cases raw : rawEvent s id with
  | none =>
    obtain ⟨served, own, h⟩ := bind_eq_ok.1 h
    rw [servedEvent, raw] at own
    obtain rfl := Except.ok.inj own
    obtain rfl := Except.ok.inj h
    rfl
  | some body =>
    obtain ⟨stored, kept, -⟩ := Option.map_eq_some_iff.1 raw
    obtain ⟨held, accepted⟩ := Option.filter_eq_some_iff.1 kept
    obtain ⟨e, rfl⟩ := clientEvent_accepted held (Option.isNone_iff_eq_none.1 accepted) h
    rw [Option.map_some, clientEvent_id h]
    rfl

theorem clientRows_rows {out : List (RowPos × ClientEvent)}
    (h : cs.clientRows s room version user rows = .ok out) :
    out.map (fun r => (r.1, r.2.eventId)) = servedRows s rows := by
  obtain ⟨found, each, h⟩ := bind_eq_ok.1 h
  obtain rfl := pure_eq_ok.1 h
  have pairs := mapM_forall₂ each
  clear * - pairs
  induction pairs with
  | nil => rfl
  | @cons row ev rows found here rest ih =>
    obtain ⟨shown, served, same⟩ := bind_eq_ok.1 here
    obtain rfl := pure_eq_ok.1 same
    have own := clientEvent_shown served
    unfold servedRows at ih ⊢
    cases shown with
    | none =>
      have off : (rawEvent s row.2).isSome = false := by
        by_contra on
        rw [if_pos (Bool.not_eq_false _ ▸ on)] at own
        cases own
      simp only [List.filter_cons, off, Bool.false_eq_true, if_false]
      exact ih
    | some e =>
      have on : (rawEvent s row.2).isSome = true := by
        by_contra off
        rw [if_neg off] at own
        cases own
      rw [if_pos on] at own
      simp only [List.filter_cons, on, if_true]
      rw [Option.map_some, List.reduceOption_cons_of_some, List.map_cons, ih, Option.some.inj own]

theorem newestSeq_eq_max (rows : List Row) : ∃ l : List Nat, CsState.newestSeq rows = l.max? ∧
    ∀ m, m ∈ l ↔ ∃ id, (.timeline m, id) ∈ rows := by
  refine ⟨_, rfl, fun m => ?_⟩
  rw [List.mem_filterMap]
  constructor
  · rintro ⟨⟨pos | idx, id⟩, mem, same⟩
    · cases same
      exact ⟨id, mem⟩
    · cases same
  · rintro ⟨id, mem⟩
    exact ⟨_, mem, rfl⟩

theorem newestSeq_eq_some : CsState.newestSeq rows = some n ↔ IsNewest (fun pos id => (pos, id) ∈ rows) n := by
  obtain ⟨l, same, listed⟩ := newestSeq_eq_max rows
  rw [same, List.max?_eq_some_iff, listed]
  exact and_congr_right fun _ => ⟨fun h m id mem => h m ((listed m).2 ⟨id, mem⟩),
    fun h m mem => ((listed m).1 mem).elim fun id row => h m id row⟩

theorem newestSeq_eq_none : CsState.newestSeq rows = none ↔ ∀ m id, (.timeline m, id) ∉ rows := by
  obtain ⟨l, same, listed⟩ := newestSeq_eq_max rows
  rw [same, List.max?_eq_none_iff, List.eq_nil_iff_forall_not_mem]
  simp only [listed, not_exists]

theorem mem_clientEvents_ids {ids : List EventId} {events : List ClientEvent}
    (h : clientEvents s cs.fuel room cs.ruma version user ids = .ok events) :
    (∃ e ∈ events, e.eventId = id) ↔ id ∈ ids ∧ (rawEvent s id).isSome := by
  have shown {ev : Option ClientEvent} (served : clientEvent s cs.fuel room cs.ruma version user id = .ok ev) :
      (∃ e, ev = some e ∧ e.eventId = id) ↔ (rawEvent s id).isSome := by
    have own := clientEvent_shown served
    split at own
    · rename_i held
      obtain ⟨e, rfl, same⟩ := Option.map_eq_some_iff.1 own
      exact ⟨fun _ => held, fun _ => ⟨e, rfl, same⟩⟩
    · rename_i off
      obtain rfl := Option.map_eq_none_iff.1 own
      exact ⟨nofun, fun held => absurd held off⟩
  constructor
  · rintro ⟨e, mem, rfl⟩
    obtain ⟨listed, served⟩ := (mem_clientEvents h).1 mem
    exact ⟨listed, (shown served).1 ⟨e, rfl, rfl⟩⟩
  · rintro ⟨listed, held⟩
    obtain ⟨found, each, -⟩ := bind_eq_ok.1 h
    obtain ⟨ev, served⟩ := ok_of_mapM each listed
    obtain ⟨e, rfl, own⟩ := (shown served).2 held
    subst own
    exact ⟨e, (mem_clientEvents h).2 ⟨listed, served⟩, rfl⟩

theorem mem_served_order {l : List (Nat × EventId)} : (pos, id) ∈ servedRows s (l.map timelineRow) ↔
    ∃ n, pos = .timeline n ∧ (n, id) ∈ l ∧ (rawEvent s id).isSome := by
  simp only [servedRows, List.mem_filter, mem_orderRows_iff, Prod.mk.injEq]
  constructor
  · rintro ⟨⟨n, id, ⟨rfl, rfl⟩, mem⟩, held⟩
    exact ⟨n, rfl, mem, held⟩
  · rintro ⟨n, rfl, mem, held⟩
    exact ⟨⟨n, id, ⟨rfl, rfl⟩, mem⟩, held⟩

theorem mem_served_past {l : List (Nat × EventId)} : (pos, id) ∈ servedRows s (l.map historyRow) ↔
    ∃ n, pos = .history n ∧ (n, id) ∈ l ∧ (rawEvent s id).isSome := by
  simp only [servedRows, List.mem_filter, mem_historyRows_iff, Prod.mk.injEq]
  constructor
  · rintro ⟨⟨n, id, ⟨rfl, rfl⟩, mem⟩, held⟩
    exact ⟨n, rfl, mem, held⟩
  · rintro ⟨n, rfl, mem, held⟩
    exact ⟨⟨n, id, ⟨rfl, rfl⟩, mem⟩, held⟩

theorem mem_neighbours (pos : RowPos) (id : EventId) (h : cs.neighbours w user room stored ceiling limit = .ok near) :
    ((pos, id) ∈ near.before.map (fun r => (r.1, r.2.eventId)) ↔
      Older (cs.forRoom w room) room stored limit pos id ∧ (rawEvent (cs.forRoom w room) id).isSome) ∧
    ((pos, id) ∈ near.after.map (fun r => (r.1, r.2.eventId)) ↔
      Newer (cs.forRoom w room) room stored ceiling limit pos id ∧
        (rawEvent (cs.forRoom w room) id).isSome) := by
  obtain ⟨version, -, h⟩ := bind_eq_ok.1 h
  split at h
  · rename_i placed
    obtain ⟨before, older, h⟩ := bind_eq_ok.1 h
    obtain ⟨newer, past, h⟩ := bind_eq_ok.1 h
    obtain ⟨above, order, h⟩ := bind_eq_ok.1 h
    obtain rfl := pure_eq_ok.1 h
    have count : newer.length = newerCount (cs.forRoom w room) room stored limit := by
      have lengths := congrArg List.length (clientRows_rows past)
      rwa [List.length_map] at lengths
    rw [List.map_append, List.mem_append, clientRows_rows older, clientRows_rows past, clientRows_rows order,
      mem_served_past, mem_served_past, mem_served_order, count]
    simp only [roomHistory, roomTimeline, mem_scan_latest, mem_scan_earliest]
    constructor
    · constructor
      · rintro ⟨n, rfl, row, held⟩
        exact ⟨.past placed row, held⟩
      · rintro ⟨row, held⟩
        cases row with
        | order elsewhere => exact absurd placed elsewhere
        | past _ row => exact ⟨_, rfl, row, held⟩
    · constructor
      · rintro (⟨n, rfl, row, held⟩ | ⟨n, rfl, row, held⟩)
        · exact ⟨.past placed row, held⟩
        · exact ⟨.above placed row, held⟩
      · rintro ⟨row, held⟩
        cases row with
        | order elsewhere => exact absurd placed elsewhere
        | past _ row => exact .inl ⟨_, rfl, row, held⟩
        | above _ row => exact .inr ⟨_, rfl, row, held⟩
  · rename_i placed
    obtain ⟨before, older, h⟩ := bind_eq_ok.1 h
    obtain ⟨after, newer, h⟩ := bind_eq_ok.1 h
    obtain rfl := pure_eq_ok.1 h
    rw [clientRows_rows older, clientRows_rows newer, mem_served_order, mem_served_order]
    simp only [roomTimeline, mem_scan_latest, mem_scan_earliest]
    constructor
    · constructor
      · rintro ⟨n, rfl, row, held⟩
        exact ⟨.order placed row, held⟩
      · rintro ⟨row, held⟩
        cases row with
        | order _ row => exact ⟨_, rfl, row, held⟩
        | past elsewhere => exact absurd elsewhere placed
    · constructor
      · rintro ⟨n, rfl, row, held⟩
        exact ⟨.order placed row, held⟩
      · rintro ⟨row, held⟩
        cases row with
        | order _ row => exact ⟨_, rfl, row, held⟩
        | past elsewhere => exact absurd elsewhere placed
        | above elsewhere => exact absurd elsewhere placed

theorem Newer.timeline (h : Newer s room stored ceiling limit (.timeline n) id) :
    s.roomSeq[(room, n)]? = some id ∧ ∀ c, ceiling = some c → n ≤ c := by
  cases h with
  | order _ row => exact ⟨row.row, row.below⟩
  | above _ row => exact ⟨row.row, row.below⟩

end Near

end Saltator.Client
