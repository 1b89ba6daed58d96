import Saltator.Client.Rows

/-!
# Walking through a room

A client reads a room page by page, from a token on and after the end token of every page, until a page
has none. Backwards, a page goes past the floor of the room's order into the history, of which more may be
fetched on the way.
-/

namespace Saltator.Client

open Std
open Saltator.Outcome
open Room
open StateRes (Key StateIds)

/-! ## One page -/

def historyRows (s : Store) (room : RoomId) : List Row := (scanned s.history room 0 none).map historyRow

/-- A request for the page that follows a token. What the other servers answer is up to them. -/
structure PageRequest where
  limit : Option Nat
  lazyLoadMembers : Bool
  fed : Nat → Option FederationState

def PageRequest.query (r : PageRequest) (dir : Direction) (url : Option Bool) (p : PagePos) : MessagesQuery :=
  ⟨dir, r.limit, some p, none, url, r.lazyLoadMembers⟩

section OnePage

variable {cs : CsState} {s : Store} {w : Shards} {room : RoomId} {cap : Option Nat} {history : Bool}
  {fed : Nat → Option FederationState} {size fetches cursor : Nat} {rows : List Row}

theorem older_timeline (b : PaginationBound) :
    backwards.rest (.timeline b) ((scanned s.roomSeq room 0 cap).reverse.map timelineRow) =
      (scanned s.roomSeq room 0 (Option.merge min (some b.upper) cap)).reverse.map timelineRow := by
  have narrow : scanned s.roomSeq room 0 (Option.merge min (some b.upper) cap) =
      (scanned s.roomSeq room 0 cap).filter fun r => 0 < r.1 && r.1 ≤ b.upper := by
    refine scanned_filter fun r => ?_
    rw [le_merge]
    simp only [Bool.and_eq_true, decide_eq_true_eq]
    tauto
  rw [narrow, ← List.filter_reverse, Course.rest, List.filter_map]
  rfl

theorem older_history_timeline (i : Nat) :
    backwards.rest (.history i) ((scanned s.roomSeq room 0 cap).reverse.map timelineRow) = [] := by
  refine List.filter_eq_nil_iff.2 fun row mem => ?_
  obtain ⟨r, -, rfl⟩ := List.mem_map.1 mem
  exact Bool.false_ne_true

theorem older_timeline_history (b : PaginationBound) :
    backwards.rest (.timeline b) (historyRows s room) = historyRows s room := by
  refine List.filter_eq_self.2 fun row mem => ?_
  obtain ⟨r, -, rfl⟩ := List.mem_map.1 mem
  rfl

theorem older_history (i : Nat) : backwards.rest (.history i) (historyRows s room) =
    (scanned s.history room i none).map historyRow := by
  have narrow : scanned s.history room i none =
      (scanned s.history room 0 none).filter fun r => i < r.1 := by
    refine scanned_filter fun r => ?_
    simp only [decide_eq_true_eq]
    constructor
    · exact fun h => ⟨⟨by omega, h.2⟩, h.1⟩
    · exact fun h => ⟨h.2, h.1.2⟩
  rw [narrow, Course.rest, historyRows, List.filter_map]
  rfl

theorem rest_append (p : PagePos) (l m : List Row) :
    backwards.rest p (l ++ m) = backwards.rest p l ++ backwards.rest p m := List.filter_append ..

theorem cursor_last {rows : List (Nat × EventId)} {r : Row}
    (last : (rows.map historyRow).getLast? = some r) (cursor : Nat) :
    backwards.on r = .history ((rows.getLast?.map Prod.fst).getD cursor) := by
  rw [List.getLast?_map, Option.map_eq_some_iff] at last
  obtain ⟨x, last, rfl⟩ := last
  rw [last]
  rfl

theorem historyPage_spec {page : CsState.Page}
    (h : cs.historyPage fed room none size fetches w cursor rows = .ok page)
    (numbered : (cs.forRoom w room).frontier room = [] ∨ Numbered (cs.forRoom w room) room)
    (fits : rows.length ≤ size) :
    Refilled cs room w page.shards ∧ page.rows.length ≤ size ∧ ∃ new, page.rows = rows ++ new ∧
        new <+: backwards.rest (.history cursor) (historyRows (cs.forRoom page.shards room) room) ∧
        (page.rows.length < size →
          new = backwards.rest (.history cursor) (historyRows (cs.forRoom page.shards room) room) ∧
          (page.moreHistory = false → (cs.forRoom page.shards room).frontier room = [])) := by
  -- One local page, and what is the same in every way to go on.
  have local_page (w : Shards) (cursor : Nat) (rows : List Row) (fits : rows.length ≤ size) :
      let found := (roomHistory (cs.forRoom w room) room cursor none (size - rows.length) false).map
        historyRow
      (rows ++ found).length ≤ size ∧
        found <+: backwards.rest (.history cursor) (historyRows (cs.forRoom w room) room) ∧
        ((rows ++ found).length < size →
          found = backwards.rest (.history cursor) (historyRows (cs.forRoom w room) room)) := by
    intro found
    have taken : found = (backwards.rest (.history cursor)
        (historyRows (cs.forRoom w room) room)).take (size - rows.length) := by
      rw [older_history, ← List.map_take]
      rfl
    rw [taken]
    refine ⟨?_, List.take_prefix .., fun short => List.take_of_length_le ?_⟩
    · rw [List.length_append, List.length_take]
      omega
    · rw [List.length_append, List.length_take] at short
      omega
  induction fetches generalizing w cursor rows with
  | zero =>
    obtain ⟨bounded, front, whole⟩ := local_page w cursor rows fits
    unfold CsState.historyPage at h
    dsimp only at h
    split at h
    · rename_i full
      cases h
      have full := full.resolve_right Bool.false_ne_true
      exact ⟨.refl cs room w, bounded, _, rfl, front, fun short => absurd full short.not_ge⟩
    split at h
    · rename_i closed
      cases h
      exact ⟨.refl cs room w, bounded, _, rfl, front, fun short => ⟨whole short, fun _ => closed⟩⟩
    · cases h
      exact ⟨.refl cs room w, bounded, _, rfl, front, fun short => ⟨whole short, by rintro ⟨⟩⟩⟩
  | succ fetches ih =>
    obtain ⟨bounded, front, whole⟩ := local_page w cursor rows fits
    unfold CsState.historyPage at h
    dsimp only at h
    split at h
    · rename_i full
      cases h
      have full := full.resolve_right Bool.false_ne_true
      exact ⟨.refl cs room w, bounded, _, rfl, front, fun short => absurd full short.not_ge⟩
    rename_i unfilled
    split at h
    · rename_i closed
      cases h
      exact ⟨.refl cs room w, bounded, _, rfl, front, fun short => ⟨whole short, fun _ => closed⟩⟩
    rename_i frontier
    obtain ⟨⟨v, indexed⟩, answer, h⟩ := bind_eq_ok.1 h
    have known := numbered.resolve_left frontier
    have fetched := fetchHistory_refilled answer
    obtain ⟨known', grown⟩ := fetched.extended.numbered known
    dsimp only at h
    split at h
    · rename_i idle
      obtain rfl := pure_eq_ok.1 h
      have same : historyRows (cs.forRoom v room) room = historyRows (cs.forRoom w room) room := by
        rw [historyRows, fetchHistory_idle (idle ▸ answer), historyRows]
      exact ⟨fetched, bounded, _, rfl, same ▸ front, fun short => ⟨same ▸ whole short, by rintro ⟨⟩⟩⟩
    · obtain ⟨later, bounded', new, joined, front', whole'⟩ := ih h (.inr known') bounded
      obtain ⟨-, grown'⟩ := later.extended.numbered known'
      have grown := (grown.trans grown').map historyRow
      refine ⟨fetched.trans later, bounded', _, by rw [joined, List.append_assoc], ?_⟩
      -- the rest of the page starts behind what the local page had
      generalize (roomHistory (cs.forRoom w room) room cursor none (size - rows.length) false) = found
        at front front' whole'
      cases last : (found.map historyRow).getLast? with
      | none =>
        rw [List.getLast?_eq_none_iff, List.map_eq_nil_iff] at last
        subst last
        exact ⟨front', whole'⟩
      | some r =>
        have joins := Course.page_append history_ordered front grown last
        rw [cursor_last last cursor] at joins
        constructor
        · rw [← historyRows] at joins
          rw [← joins]
          exact (List.prefix_append_right_inj _).2 front'
        · intro short
          obtain ⟨all, closed⟩ := whole' short
          exact ⟨(congrArg _ all).trans joins, closed⟩

/-- The servers' answers to the fetches of a page bring a row behind the cursor, or the beginning of the
room, if neither is there yet. -/
inductive Supplied (cs : CsState) (room : RoomId) (fed : Nat → Option FederationState) (cursor : Nat) :
    Nat → Shards → Prop
  | row {fetches : Nat} {w : Shards} {r : Nat × EventId} (behind : cursor < r.1)
      (held : (cs.forRoom w room).history[(room, r.1)]? = some r.2) : Supplied cs room fed cursor fetches w
  | beginning {fetches : Nat} {w : Shards} (closed : (cs.forRoom w room).frontier room = []) :
      Supplied cs room fed cursor fetches w
  | fetched {fetches indexed : Nat} {w v : Shards}
      (answer : cs.fetchHistory (fed fetches) w room ((cs.forRoom w room).frontier room) =
        .ok (v, indexed + 1))
      (supplied : Supplied cs room fed cursor fetches v) : Supplied cs room fed cursor (fetches + 1) w

theorem historyPage_closed {page : CsState.Page}
    (h : cs.historyPage fed room none size fetches w cursor rows = .ok page)
    (closed : (cs.forRoom w room).frontier room = []) :
    page.shards = w := by
  cases fetches <;> unfold CsState.historyPage at h <;> dsimp only at h <;> split at h
  · cases h
    rfl
  · split at h
    · cases h
      rfl
    · exact absurd closed ‹_›
  · cases h
    rfl
  · split at h
    · cases h
      rfl
    · exact absurd closed ‹_›

theorem historyPage_nothing {page : CsState.Page}
    (h : cs.historyPage fed room none size fetches w cursor [] = .ok page) (positive : 0 < size)
    (numbered : Numbered (cs.forRoom w room) room) (empty : page.rows = []) :
    scanned (cs.forRoom w room).history room cursor none = [] := by
  obtain ⟨fetched, -, new, joined, -, whole⟩ := historyPage_spec h (.inr numbered) (Nat.zero_le _)
  have nothing := (whole (by rw [empty]; exact positive)).1
  rw [← List.nil_append new, ← joined, empty] at nothing
  have grown := Course.rest_le (C := backwards) (p := .history cursor)
    ((fetched.extended.numbered numbered).2.map historyRow)
  rw [← historyRows, ← historyRows, ← nothing, List.prefix_nil, older_history] at grown
  exact List.map_eq_nil_iff.1 grown

theorem historyPage_supplied {page : CsState.Page} (supplied : Supplied cs room fed cursor fetches w)
    (h : cs.historyPage fed room none size fetches w cursor [] = .ok page) (positive : 0 < size)
    (numbered : (cs.forRoom w room).frontier room = [] ∨ Numbered (cs.forRoom w room) room) :
    page.rows ≠ [] ∨ (cs.forRoom page.shards room).frontier room = [] := by
  rw [or_iff_not_imp_left, not_not]
  intro empty
  by_cases closed : (cs.forRoom w room).frontier room = []
  · exact (historyPage_closed h closed).symm ▸ closed
  have nothing := historyPage_nothing h positive (numbered.resolve_left closed) empty
  induction supplied with
  | @row fetches w r behind held =>
    have listed : r ∈ scanned (cs.forRoom w room).history room cursor none :=
      mem_scanned.2 ⟨held, behind, nofun⟩
    rw [nothing] at listed
    cases listed
  | beginning closed' => exact absurd closed' closed
  | @fetched fetches indexed w v answer supplied ih =>
    have found : roomHistory (cs.forRoom w room) room cursor none size false = [] := by
      simp [roomHistory, scan, nothing]
    unfold CsState.historyPage at h
    dsimp only at h
    rw [List.length_nil, Nat.sub_zero, found, if_neg (by simp; omega)] at h
    split at h
    · rename_i closed'
      exact absurd closed' closed
    obtain ⟨⟨v', k⟩, answer', h⟩ := bind_eq_ok.1 h
    obtain ⟨rfl, rfl⟩ := Prod.mk.inj (ok_unique answer answer')
    rw [if_neg (Nat.succ_ne_zero _)] at h
    have known := ((fetchHistory_refilled answer).extended.numbered (numbered.resolve_left closed)).1
    by_cases closed' : (cs.forRoom v room).frontier room = []
    · exact (historyPage_closed h closed').symm ▸ closed'
    · exact ih h (.inr known) closed' (historyPage_nothing h positive known empty)

variable {r : PageRequest} {url : Option Bool} {p : PagePos} {page : CsState.Page}

theorem size_pos (q : MessagesQuery) : 0 < q.size := by
  unfold MessagesQuery.size
  omega

theorem backwardRows_eq : CsState.backwardRows s room cap (r.query .backward url p) =
    (backwards.rest p ((scanned s.roomSeq room 0 cap).reverse.map timelineRow)).take
      (r.query .backward url p).size := by
  cases p with
  | timeline b =>
    rw [older_timeline, ← List.map_take]
    rfl
  | history i =>
    rw [older_history_timeline, List.take_nil]
    rfl

theorem older_cursor : backwards.rest p (historyRows s room) =
    backwards.rest (.history (r.query .backward url p).historyCursor) (historyRows s room) := by
  cases p with
  | timeline b =>
    rw [older_timeline_history, older_history]
    rfl
  | history i => rfl

theorem rowsAhead_backward : rowsAhead s room cap history .backward p =
    backwards.rest p ((scanned s.roomSeq room 0 cap).reverse.map timelineRow) ++
      if history then backwards.rest p (historyRows s room) else [] := by
  refine (rest_append ..).trans (congrArg _ ?_)
  cases history <;> rfl

theorem backwardPage_spec (h : cs.backwardPage fed w room cap (r.query .backward url p) = .ok page)
    (readable : historyReadable (cs.forRoom w room) cs.fuel room = .ok history)
    (numbered : (cs.forRoom w room).frontier room = [] ∨ Numbered (cs.forRoom w room) room) :
    Refilled cs room w page.shards ∧ page.rows.length ≤ (r.query .backward url p).size ∧
      page.rows <+: rowsAhead (cs.forRoom page.shards room) room cap history .backward p ∧
      (page.rows.length < (r.query .backward url p).size →
        page.rows = rowsAhead (cs.forRoom page.shards room) room cap history .backward p ∧
        (history = true → page.moreHistory = false → (cs.forRoom page.shards room).frontier room = [])) := by
  obtain ⟨rows, own⟩ : ∃ rows, CsState.backwardRows (cs.forRoom w room) room cap
    (r.query .backward url p) = rows := ⟨_, rfl⟩
  have taken := own.symm.trans backwardRows_eq
  have bounded : rows.length ≤ (r.query .backward url p).size := by
    rw [taken, List.length_take]
    omega
  unfold CsState.backwardPage at h
  rw [own, show (r.query .backward url p).historyUntil = some none from rfl] at h
  dsimp only at h
  split at h
  · rename_i short
    have all : rows = backwards.rest p
        ((scanned (cs.forRoom w room).roomSeq room 0 cap).reverse.map timelineRow) := by
      rw [taken, List.length_take] at short
      exact taken.trans (List.take_of_length_le (by omega))
    rw [readable, ok_bind] at h
    cases history with
    | true =>
      rw [if_pos rfl] at h
      obtain ⟨fetched, bounded, new, joined, front, whole⟩ := historyPage_spec h numbered bounded
      rw [← older_cursor] at front whole
      have order := fetched.extended.order
      refine ⟨fetched, bounded, ?_, fun short => ?_⟩
      · rw [rowsAhead_backward, order, ← all, joined, if_pos rfl]
        exact (List.prefix_append_right_inj rows).2 front
      · obtain ⟨rest, closed⟩ := whole short
        refine ⟨?_, fun _ => closed⟩
        rw [rowsAhead_backward, order, ← all, joined, if_pos rfl, ← rest]
    | false =>
      rw [if_neg Bool.false_ne_true] at h
      obtain rfl := pure_eq_ok.1 h
      have same : rows = rowsAhead (cs.forRoom w room) room cap false .backward p := by
        rw [rowsAhead_backward, if_neg Bool.false_ne_true, List.append_nil, all]
      exact ⟨.refl cs room w, bounded, same ▸ List.prefix_refl _, fun _ => ⟨same, nofun⟩⟩
  · rename_i full
    obtain rfl := pure_eq_ok.1 h
    refine ⟨.refl cs room w, bounded, ?_, fun short => absurd short full⟩
    rw [rowsAhead_backward, taken]
    exact (List.take_prefix _ _).trans (List.prefix_append _ _)

/-- Nothing that may not be read is ahead. -/
def Covered (s : Store) (room : RoomId) (history : Bool) : PagePos → Prop
  | .timeline _ => True
  | .history i => history = true ∨ ∀ n id, 0 < n → s.history[(room, n)]? = some id → i ≤ n

theorem newer_history (i : Nat) : forwards.rest (.history i) (historyRows s room).reverse =
    (scanned s.history room 0 (some (i - 1))).reverse.map historyRow := by
  have narrow : scanned s.history room 0 (some (i - 1)) =
      (scanned s.history room 0 none).filter fun r => r.1 < i := by
    refine scanned_filter fun r => ?_
    simp only [decide_eq_true_eq, Option.some.injEq, forall_eq']
    constructor
    · exact fun h => ⟨⟨h.1, nofun⟩, by omega⟩
    · exact fun h => ⟨h.1.1, by omega⟩
  rw [narrow, Course.rest, historyRows, ← List.map_reverse, List.filter_map, List.filter_reverse]
  rfl

theorem newer_timeline (b : PaginationBound) :
    forwards.rest (.timeline b) ((scanned s.roomSeq room 0 cap).map timelineRow) =
      (scanned s.roomSeq room b.lower cap).map timelineRow := by
  have narrow : scanned s.roomSeq room b.lower cap =
      (scanned s.roomSeq room 0 cap).filter fun r => b.lower < r.1 := by
    refine scanned_filter fun r => ?_
    simp only [decide_eq_true_eq]
    constructor
    · exact fun h => ⟨⟨by omega, h.2⟩, h.1⟩
    · exact fun h => ⟨h.2, h.1.2⟩
  rw [narrow, Course.rest, List.filter_map]
  rfl

theorem newer_history_timeline (i : Nat) :
    forwards.rest (.history i) ((scanned s.roomSeq room 0 cap).map timelineRow) =
      (scanned s.roomSeq room 0 cap).map timelineRow := by
  refine List.filter_eq_self.2 fun row mem => ?_
  obtain ⟨r, -, rfl⟩ := List.mem_map.1 mem
  rfl

theorem newer_timeline_history (b : PaginationBound) :
    forwards.rest (.timeline b) (historyRows s room).reverse = [] := by
  refine List.filter_eq_nil_iff.2 fun row mem => ?_
  obtain ⟨r, -, rfl⟩ := List.mem_map.1 (List.mem_reverse.1 mem)
  exact Bool.false_ne_true

theorem rowsAhead_forward (covered : Covered s room history p) :
    rowsAhead s room cap history .forward p = forwards.rest p (historyRows s room).reverse ++
      forwards.rest p ((scanned s.roomSeq room 0 cap).map timelineRow) := by
  have parts : (roomRows s room cap history).reverse =
      (if history then historyRows s room else []).reverse ++
        (scanned s.roomSeq room 0 cap).map timelineRow := by
    rw [roomRows, List.reverse_append, ← List.map_reverse, List.reverse_reverse]
    rfl
  rw [rowsAhead, rowsFrom, parts, Course.rest, List.filter_append]
  refine congrArg (· ++ _) ?_
  cases history with
  | true => rfl
  | false =>
    symm
    cases p with
    | timeline b => exact newer_timeline_history b
    | history i =>
      refine List.filter_eq_nil_iff.2 fun row mem newer => ?_
      obtain ⟨⟨n, id⟩, held, rfl⟩ := List.mem_map.1 (List.mem_reverse.1 mem)
      obtain ⟨held, positive, -⟩ := mem_scanned.1 held
      have := (covered.resolve_left Bool.false_ne_true) n id positive held
      have : n < i := of_decide_eq_true newer
      omega

theorem forwardRows_eq (covered : Covered s room history p) :
    CsState.forwardRows s room cap (r.query .forward url p) =
      (rowsAhead s room cap history .forward p).take (r.query .forward url p).size := by
  generalize size : (r.query .forward url p).size = k
  rw [rowsAhead_forward covered, List.take_append]
  cases p with
  | timeline b =>
    rw [newer_timeline_history, newer_timeline, List.take_nil, List.length_nil, Nat.sub_zero,
      List.nil_append, ← List.map_take, ← size]
    simp [CsState.forwardRows, CsState.forwardHistoryRows, MessagesQuery.forwardHistory,
      MessagesQuery.forwardSpan, PageRequest.query, roomTimeline, scan]
  | history i =>
    rw [newer_history, newer_history_timeline, ← List.map_take, ← List.map_take, ← size]
    simp only [CsState.forwardRows, CsState.forwardHistoryRows, MessagesQuery.forwardHistory,
      MessagesQuery.forwardSpan, PageRequest.query, roomTimeline, roomHistory, scan, if_true,
      Bool.false_eq_true, if_false, List.length_map, List.length_take, List.length_reverse]
    congr 3
    omega

theorem backwardPage_closed (h : cs.backwardPage fed w room cap (r.query .backward url p) = .ok page)
    (closed : (cs.forRoom w room).frontier room = []) : page.shards = w := by
  unfold CsState.backwardPage at h
  rw [show (r.query .backward url p).historyUntil = some none from rfl] at h
  dsimp only at h
  split at h
  · obtain ⟨readable, -, h⟩ := bind_eq_ok.1 h
    split at h
    · exact historyPage_closed h closed
    · exact congrArg CsState.Page.shards (pure_eq_ok.1 h).symm
  · exact congrArg CsState.Page.shards (pure_eq_ok.1 h).symm

theorem backwardPage_supplied (h : cs.backwardPage fed w room cap (r.query .backward url p) = .ok page)
    (readable : historyReadable (cs.forRoom w room) cs.fuel room = .ok true)
    (numbered : (cs.forRoom w room).frontier room = [] ∨ Numbered (cs.forRoom w room) room)
    (supplied : Supplied cs room fed (r.query .backward url p).historyCursor
      ((r.query .backward url p).size / 100 + 2) w)
    (empty : page.rows = []) : (cs.forRoom page.shards room).frontier room = [] := by
  have positive := size_pos (r.query .backward url p)
  unfold CsState.backwardPage at h
  rw [show (r.query .backward url p).historyUntil = some none from rfl] at h
  dsimp only at h
  generalize CsState.backwardRows (cs.forRoom w room) room cap (r.query .backward url p) = rows at h
  split at h
  · rename_i short
    rw [readable, ok_bind, if_pos rfl] at h
    obtain ⟨-, -, new, joined, -⟩ := historyPage_spec h numbered short.le
    rw [empty] at joined
    obtain rfl := (List.append_eq_nil_iff.1 joined.symm).1
    exact (historyPage_supplied supplied h positive numbered).resolve_left fun some => some empty
  · rename_i full
    obtain rfl := pure_eq_ok.1 h
    rw [show rows = [] from empty] at full
    exact absurd positive full

end OnePage

/-! ## Page after page -/

section Walks

variable (cs : CsState) (room : RoomId) (user : UserId) (dir : Direction) (url : Option Bool)

/-- A page is readable and comes to a row, or to the room's beginning. Backwards, a page without a row of
its own needs the servers for that; forwards, the history is not checked to be readable. -/
def Ready (w : Shards) (p : PagePos) (r : PageRequest) : Prop :=
  ∀ view history, memberView (cs.forRoom w room) cs.fuel room user = .ok view →
    historyReadable (cs.forRoom w room) cs.fuel room = .ok history →
    match dir with
    | .forward => Covered (cs.forRoom w room) room history p
    | .backward =>
      ((cs.forRoom w room).frontier room = [] ∨ Numbered (cs.forRoom w room) room) ∧
      (history = true → rowsAhead (cs.forRoom w room) room view.2 false dir p = [] →
        Supplied cs room r.fed (r.query dir url p).historyCursor ((r.query dir url p).size / 100 + 2) w)

/-- Pages that follow one another, from a token on to the one without an end token, each requested in
one of the ways that are permitted: the shards after them, and the events that they return. -/
inductive Walk (permitted : Shards → PagePos → PageRequest → Prop) :
    Shards → String → Shards → List ClientEvent → Prop
  | last {w t : Shards} {token : String} {p : PagePos} {r : PageRequest} {page : Messages}
      (read : parsePagePos token (cs.shard room) = .ok p) (allowed : permitted w p r)
      (answered : cs.getMessages r.fed w user room (.ok (r.query dir url p)) = .ok (t, page))
      (ends : page.endPos = none) : Walk permitted w token t page.chunk
  | next {w t u : Shards} {token : String} {p : PagePos} {r : PageRequest} {page : Messages}
      {pos : RowPos} {events : List ClientEvent}
      (read : parsePagePos token (cs.shard room) = .ok p) (allowed : permitted w p r)
      (answered : cs.getMessages r.fed w user room (.ok (r.query dir url p)) = .ok (t, page))
      (ends : page.endPos = some pos) (more : Walk permitted t pos.token u events) :
      Walk permitted w token u (page.chunk ++ events)

/-- A page that another one follows: the shards and the token before, and after it. -/
def Follows (a b : Shards × String) : Prop :=
  ∃ (p : PagePos) (r : PageRequest) (m : Messages) (pos : RowPos),
    parsePagePos a.2 (cs.shard room) = .ok p ∧
    cs.getMessages r.fed a.1 user room (.ok (r.query dir url p)) = .ok (b.1, m) ∧
    m.endPos = some pos ∧ b.2 = pos.token

/-- The events are those of the rows that are held and were not rejected, one for each, less those that
the filter leaves out. -/
def Shown (s : Store) (rows : List Row) (events : List ClientEvent) : Prop :=
  ∃ shown : List (Option ClientEvent), List.Forall₂ (fun row ev => ev.map ClientEvent.eventId =
      if (rawEvent s row.2).isSome then some row.2 else none) rows shown ∧
    events = shown.reduceOption.filter (CsState.urlMatches url)

end Walks

section Walking

variable {cs : CsState} {room : RoomId} {user : UserId} {dir : Direction} {url : Option Bool}
  {s t : Store} {w v : Shards} {rows rows' : List Row} {events events' : List ClientEvent}
  {cap : Option Nat} {history : Bool} {p : PagePos} {r : PageRequest} {view : StateIds × Option Nat}
  {page : CsState.Page}

theorem Shown.append (h : Shown url s rows events) (h' : Shown url s rows' events') :
    Shown url s (rows ++ rows') (events ++ events') := by
  obtain ⟨shown, each, rfl⟩ := h
  obtain ⟨shown', each', rfl⟩ := h'
  refine ⟨shown ++ shown', List.rel_append each each', ?_⟩
  rw [List.reduceOption_append, List.filter_append]

theorem Shown.extended (h : Shown url s rows events) (extended : Extended room s t)
    (held : ∀ row ∈ rows, ∃ e, s.event[row.2]? = some e) : Shown url t rows events := by
  obtain ⟨shown, each, rfl⟩ := h
  refine ⟨shown, ?_, rfl⟩
  induction each with
  | nil => exact .nil
  | @cons row ev rows shown here rest ih =>
    obtain ⟨e, stored⟩ := held row List.mem_cons_self
    refine .cons ?_ (ih fun row mem => held row (List.mem_cons_of_mem _ mem))
    rw [here, extended.rawEvent stored]

theorem getMessages_page {m : Messages}
    (h : cs.getMessages r.fed w user room (.ok (r.query dir url p)) = .ok (v, m)) :
    ∃ view page, memberView (cs.forRoom w room) cs.fuel room user = .ok view ∧
      cs.pageOf r.fed w room view.2 (r.query dir url p) = .ok page ∧ v = page.shards ∧
      Shown url (cs.forRoom v room) page.rows m.chunk ∧
      m.endPos = if page.rows.length = (r.query dir url p).size ∨ page.moreHistory ∨ m.chunk ≠ [] then
        page.rows.getLast?.map Prod.fst else none := by
  obtain ⟨-, -, h⟩ := bind_eq_ok.1 h
  obtain ⟨view, viewed, h⟩ := bind_eq_ok.1 h
  rw [mapError_eq_ok] at viewed
  obtain ⟨version, -, h⟩ := bind_eq_ok.1 h
  obtain ⟨q, same, h⟩ := bind_eq_ok.1 h
  obtain rfl := Except.ok.inj same
  obtain ⟨page, paged, h⟩ := bind_eq_ok.1 h
  obtain ⟨all, listed, h⟩ := bind_eq_ok.1 h
  obtain ⟨state, -, h⟩ := bind_eq_ok.1 h
  obtain ⟨rfl, rfl⟩ := ok_pair h
  obtain ⟨shown, each, listed⟩ := bind_eq_ok.1 listed
  obtain rfl := pure_eq_ok.1 listed
  refine ⟨view, page, viewed, paged, rfl, ⟨shown, ?_, rfl⟩, rfl⟩
  have each := List.forall₂_map_left_iff.1 (mapM_forall₂ each)
  exact each.imp fun row ev served => clientEvent_shown served

theorem parsePagePos_token {pos : RowPos} {idx : UInt16} (read : parsePagePos pos.token idx = .ok p) :
    p = pos.start := by
  have body (n : Nat) : Decimal.splitOnce '_' (Decimal.digits n) = none :=
    Decimal.splitOnce_none (Decimal.not_mem_digits rfl)
  cases pos with
  | history i =>
    simp [-String.ofList_cons, parsePagePos, RowPos.token, afterLetter_ofList, parseSeq] at read
    split at read
    · rename_i found
      rw [Decimal.eq_of_parse_digits found] at read
      exact (Except.ok.inj read).symm
    · cases read
  | timeline n =>
    simp [-String.ofList_cons, parsePagePos, parseTopoToken, RowPos.token, afterLetter_ofList, body,
      parseSeq] at read
    split at read
    · rename_i found
      rw [Decimal.eq_of_parse_digits found] at read
      exact (Except.ok.inj read).symm
    · cases read

theorem rowsAhead_held {P : Store → RoomCommand → Prop} (run : Runs P Store.empty s) {row : Row}
    (mem : row ∈ rowsAhead s room cap history dir p) : ∃ e, s.event[row.2]? = some e := by
  have known : row ∈ roomRows s room cap history := by
    have mem := (List.mem_filter.1 mem).1
    cases dir with
    | backward => exact mem
    | forward => exact List.mem_reverse.1 mem
  obtain mem | mem := List.mem_append.1 known
  · obtain ⟨r, listed, rfl⟩ := List.mem_map.1 mem
    obtain ⟨e, held, -⟩ := (Option.any_eq_true _ _).1
      ((run_inOrder run).row room r.1 r.2 (mem_scanned.1 (List.mem_reverse.1 listed)).1).2.2.2
    exact ⟨e, held⟩
  · split at mem
    · obtain ⟨r, listed, rfl⟩ := List.mem_map.1 mem
      exact Option.isSome_iff_exists.1 (run_historyHeld run room r.1 r.2 (mem_scanned.1 listed).1)
    · cases mem

/-- A page has the first of the rows ahead, and if it is not full, all of them. Where it may end a walk
that goes back, the history has no open end, as far as it may be read. -/
theorem pageOf_spec (ready : Ready cs room user dir url w p r)
    (viewed : memberView (cs.forRoom w room) cs.fuel room user = .ok view)
    (readable : historyReadable (cs.forRoom w room) cs.fuel room = .ok history)
    (paged : cs.pageOf r.fed w room view.2 (r.query dir url p) = .ok page) :
    Refilled cs room w page.shards ∧ rowsFrom (cs.forRoom w room) room view.2 history dir <+:
        rowsFrom (cs.forRoom page.shards room) room view.2 history dir ∧
      page.rows <+: rowsAhead (cs.forRoom page.shards room) room view.2 history dir p ∧
      (page.rows.length ≠ (r.query dir url p).size →
        page.rows = rowsAhead (cs.forRoom page.shards room) room view.2 history dir p) ∧
      (dir = .backward → history = true → page.rows = [] ∨
          page.rows.length ≠ (r.query dir url p).size ∧ page.moreHistory = false →
        (cs.forRoom page.shards room).frontier room = []) := by
  have ready := ready view history viewed readable
  cases dir with
  | backward =>
    obtain ⟨numbered, supplied⟩ := ready
    obtain ⟨fetched, bounded, front, whole⟩ := backwardPage_spec paged readable numbered
    refine ⟨fetched, ?_, front, fun short => (whole (by omega)).1, ?_⟩
    · rcases numbered with closed | known
      · rw [backwardPage_closed paged closed]
      · rw [rowsFrom, roomRows, rowsFrom, roomRows, fetched.extended.order,
          List.prefix_append_right_inj]
        cases history with
        | true => exact (fetched.extended.numbered known).2.map _
        | false => exact List.prefix_refl _
    · rintro - rfl (empty | ⟨short, said⟩)
      · have positive := size_pos (r.query .backward url p)
        by_cases first : rowsAhead (cs.forRoom w room) room view.2 false .backward p = []
        · exact backwardPage_supplied paged readable numbered (supplied rfl first) empty
        · have all := (whole (by rw [empty]; exact positive)).1
          rw [empty, rowsAhead_backward, fetched.extended.order] at all
          rw [rowsAhead_backward, if_neg Bool.false_ne_true, List.append_nil] at first
          exact absurd (List.append_eq_nil_iff.1 all.symm).1 first
      · exact (whole (by omega)).2 rfl said
  | forward =>
    obtain rfl := (Except.ok.inj paged).symm
    have taken : CsState.forwardRows _ room view.2 (r.query .forward url _) = _ := forwardRows_eq ready
    refine ⟨.refl cs room w, List.prefix_refl _, ?_, fun short => ?_, fun back => Direction.noConfusion back⟩
    · exact taken ▸ List.take_prefix _ _
    · refine taken.trans (List.take_of_length_le ?_)
      rw [show CsState.forwardRows .. = _ from taken, List.length_take] at short
      omega

/-- A walk returns the events of the rows ahead, those among them that were fetched on the way, and going
back it comes to the beginning of the room. -/
theorem Walk.complete {token : String} {t : Shards}
    (walk : Walk cs room user dir url (Ready cs room user dir url) w token t events)
    (run : Runs (Serial cs.ruma) Store.empty (cs.forRoom w room))
    (read : parsePagePos token (cs.shard room) = .ok p)
    (viewed : memberView (cs.forRoom w room) cs.fuel room user = .ok view)
    (readable : historyReadable (cs.forRoom w room) cs.fuel room = .ok history) :
    Refilled cs room w t ∧ rowsFrom (cs.forRoom w room) room view.2 history dir <+:
        rowsFrom (cs.forRoom t room) room view.2 history dir ∧
      Shown url (cs.forRoom t room) (rowsAhead (cs.forRoom t room) room view.2 history dir p) events ∧
      (dir = .backward → history = true → (cs.forRoom t room).frontier room = []) := by
  induction walk generalizing p with
  | @last w t token p' r m read' allowed answered ends =>
    obtain rfl := ok_unique read' read
    obtain ⟨view', page, viewed', paged, rfl, shows, ending⟩ := getMessages_page answered
    obtain rfl := ok_unique viewed viewed'
    obtain ⟨fetched, grown, -, whole, closed⟩ := pageOf_spec allowed viewed readable paged
    rw [ends] at ending
    have final : page.rows = [] ∨
        page.rows.length ≠ (r.query dir url p').size ∧ page.moreHistory = false := by
      split at ending
      · exact .inl (List.getLast?_eq_none_iff.1 (Option.map_eq_none_iff.1 ending.symm))
      · rename_i spent
        simp only [not_or, Bool.not_eq_true] at spent
        exact .inr ⟨spent.1, spent.2.1⟩
    have all := whole (final.elim (fun empty => by rw [empty]; exact (size_pos _).ne) And.left)
    exact ⟨fetched, grown, all ▸ shows, fun back may => closed back may final⟩
  | @next w v t token p' r m pos events read' allowed answered ends more ih =>
    obtain rfl := ok_unique read' read
    obtain ⟨view', page, viewed', paged, rfl, shows, ending⟩ := getMessages_page answered
    obtain rfl := ok_unique viewed viewed'
    obtain ⟨fetched, grown, front, -, -⟩ := pageOf_spec allowed viewed readable paged
    have maps := run_mapsStored run
    have run' := run.trans fetched.run
    rw [ends] at ending
    obtain ⟨row, last, rfl⟩ : ∃ row, page.rows.getLast? = some row ∧ row.1 = pos := by
      split at ending
      · exact Option.map_eq_some_iff.1 ending.symm
      · cases ending
    obtain ⟨q, again⟩ : ∃ q, parsePagePos row.1.token (cs.shard room) = .ok q := by
      cases more with
      | last read => exact ⟨_, read⟩
      | next read => exact ⟨_, read⟩
    obtain rfl := parsePagePos_token again
    obtain ⟨later, grown', shows', closed⟩ := ih run' again
      ((fetched.extended.memberView maps).trans viewed)
      ((fetched.extended.historyReadable maps).trans readable)
    refine ⟨fetched.trans later, grown.trans grown', ?_, closed⟩
    -- the page, and what is ahead of its last row by the end
    have on : dir.course.on row = row.1.start := by cases dir <;> rfl
    have joined := Course.page_append (rowsFrom_ordered dir) front grown' last
    rw [on] at joined
    have shows := shows.extended later.extended fun row mem =>
      rowsAhead_held run' (front.subset mem)
    rw [rowsAhead, ← joined]
    exact shows.append shows'

theorem rowsAhead_nodup : (rowsAhead s room cap history dir p).Nodup := by
  refine ((rowsFrom_ordered dir).filter _).imp fun {a b} later same => ?_
  rw [same, Course.not_ahead_self] at later
  cases later

theorem pageOf_closed (closed : (cs.forRoom w room).frontier room = [])
    (back : dir = .backward → historyReadable (cs.forRoom w room) cs.fuel room = .ok history)
    (forth : dir = .forward → history = true)
    (paged : cs.pageOf r.fed w room view.2 (r.query dir url p) = .ok page) :
    page.shards = w ∧ page.rows <+: rowsAhead (cs.forRoom w room) room view.2 history dir p := by
  cases dir with
  | backward =>
    have same := backwardPage_closed paged closed
    obtain ⟨-, -, front, -⟩ := backwardPage_spec paged (back rfl) (.inl closed)
    exact ⟨same, same ▸ front⟩
  | forward =>
    obtain rfl := (Except.ok.inj paged).symm
    obtain rfl := forth rfl
    have covered : Covered (cs.forRoom w room) room true p := by
      cases p with
      | timeline b => trivial
      | history i => exact .inl rfl
    refine ⟨rfl, ?_⟩
    rw [show CsState.forwardRows .. = _ from forwardRows_eq covered]
    exact List.take_prefix _ _

theorem walk_ends (closed : (cs.forRoom w room).frontier room = []) (f : Nat → Shards × String)
    (first : (f 0).1 = w) : ∃ n, ¬ Follows cs room user dir url (f n) (f (n + 1)) := by
  by_contra never
  simp only [not_exists, not_not] at never
  obtain ⟨p₀, r₀, m₀, pos₀, read₀, answered₀, -⟩ := never 0
  obtain ⟨view, page₀, viewed, -⟩ := getMessages_page answered₀
  rw [first] at viewed
  obtain ⟨current, known, -⟩ := bind_eq_ok.1 viewed
  obtain ⟨history, back, forth⟩ : ∃ history,
      (dir = .backward → historyReadable (cs.forRoom w room) cs.fuel room = .ok history) ∧
        (dir = .forward → history = true) := by
    cases dir with
    | backward => exact ⟨_, fun _ => bind_eq_ok.2 ⟨current, known, rfl⟩, nofun⟩
    | forward => exact ⟨true, nofun, fun _ => rfl⟩
  -- every page leaves fewer rows ahead
  have shrinks : ∀ n, (f n).1 = w ∧ ∀ p, parsePagePos (f n).2 (cs.shard room) = .ok p →
      n + (rowsAhead (cs.forRoom w room) room view.2 history dir p).length ≤
        (rowsAhead (cs.forRoom w room) room view.2 history dir p₀).length := by
    intro n
    induction n with
    | zero =>
      refine ⟨first, fun p read => ?_⟩
      obtain rfl := ok_unique read₀ read
      omega
    | succ n ih =>
      obtain ⟨same, bound⟩ := ih
      obtain ⟨p, r, m, pos, read, answered, ends, token⟩ := never n
      have bound := bound p read
      rw [same] at answered
      obtain ⟨view', page, viewed', paged, next, -, ending⟩ := getMessages_page answered
      obtain rfl := ok_unique viewed viewed'
      obtain ⟨kept, front⟩ := pageOf_closed closed back forth paged
      refine ⟨next.trans kept, fun q again => ?_⟩
      rw [token] at again
      obtain rfl := parsePagePos_token again
      rw [ends] at ending
      split at ending
      · obtain ⟨row, last, rfl⟩ := Option.map_eq_some_iff.1 ending.symm
        have fewer := Course.length_rest_lt (rowsFrom_ordered dir) front last
        rw [show dir.course.on row = row.1.start by cases dir <;> rfl] at fewer
        unfold rowsAhead at bound ⊢
        omega
      · cases ending
  obtain ⟨p, r, m, pos, read, -⟩ :=
    never ((rowsAhead (cs.forRoom w room) room view.2 history dir p₀).length + 1)
  have := (shrinks _).2 p read
  omega

/-- **Reading a room is complete where its pages are ready.** A walk whose pages are ready, whatever their
limits and whatever the other servers answer, returns the events of all rows ahead of the token that it
starts from: those up to the position that the reader may read to, and where the history may be read, its
rows, also those that were fetched on the way; each row once, and in order. Going back it ends at the
room's beginning. And no walk goes on forever in a room whose beginning is known. -/
theorem walk_complete (run : Runs (Serial cs.ruma) Store.empty (cs.forRoom w room)) :
    (∀ token t events p view history,
      Walk cs room user dir url (Ready cs room user dir url) w token t events →
      parsePagePos token (cs.shard room) = .ok p →
      memberView (cs.forRoom w room) cs.fuel room user = .ok view →
      historyReadable (cs.forRoom w room) cs.fuel room = .ok history →
      (rowsAhead (cs.forRoom t room) room view.2 history dir p).Nodup ∧
      Shown url (cs.forRoom t room) (rowsAhead (cs.forRoom t room) room view.2 history dir p) events ∧
      (dir = .backward → history = true → (cs.forRoom t room).frontier room = [])) ∧
    ((cs.forRoom w room).frontier room = [] → ∀ f : Nat → Shards × String, (f 0).1 = w →
      ∃ n, ¬ Follows cs room user dir url (f n) (f (n + 1))) := by
  refine ⟨fun token t events p view history walk read viewed readable => ?_, walk_ends⟩
  obtain ⟨-, -, shows, closed⟩ := walk.complete run read viewed readable
  exact ⟨rowsAhead_nodup, shows, closed⟩

def samplePage (s : Store) (p : PagePos) (ids : List EventId) (ends : Option RowPos)
    (frontier : List EventId) : Bool :=
  (sampleCsState.getMessages sampleUnreachable (sampleHolding s) "@a:x" "!r:x"
    (.ok ((PageRequest.mk none false sampleUnreachable).query .backward none p))).toOption.any fun r =>
      decide (r.2.chunk.map ClientEvent.eventId = ids) && decide (r.2.endPos = ends) &&
        decide ((sampleCsState.forRoom r.1 "!r:x").frontier "!r:x" = frontier)

theorem samplePage_answered {ids : List EventId} {ends : Option RowPos} {frontier : List EventId}
    (h : samplePage s p ids ends frontier) : ∃ t m,
    sampleCsState.getMessages sampleUnreachable (sampleHolding s) "@a:x" "!r:x"
      (.ok ((PageRequest.mk none false sampleUnreachable).query .backward none p)) = .ok (t, m) ∧
    m.chunk.map ClientEvent.eventId = ids ∧ m.endPos = ends ∧
    (sampleCsState.forRoom t "!r:x").frontier "!r:x" = frontier := by
  obtain ⟨⟨t, m⟩, answered, h⟩ := (Option.any_eq_true _ _).1 h
  rw [toOption_eq_some] at answered
  simp only [Bool.and_eq_true, decide_eq_true_eq] at h
  exact ⟨t, m, answered, h.1.1, h.1.2, h.2⟩

theorem walk_complete_sample : ∃ (s : Store) (t : Shards) (events : List ClientEvent),
    Runs (Serial Ruma.sample) Store.empty s ∧ events.map ClientEvent.eventId = ["$j", "$c"] ∧
    Shown none (sampleCsState.forRoom t "!r:x")
      (rowsAhead (sampleCsState.forRoom t "!r:x") "!r:x" none true .backward (.timeline ⟨3, true, none⟩))
      events := by
  obtain ⟨s, run, h⟩ := exists_run (fun _ _ => True)
    [.ingest Ruma.sampleCreate false, .ingest Ruma.sampleJoin false]
    (fun s : Store => samplePage s (.timeline ⟨3, true, none⟩) ["$j", "$c"] (some (.timeline 1)) [] &&
      samplePage s (.timeline ⟨1, true, none⟩) [] none [] && decide (s.frontier "!r:x" = []) &&
      (memberView s 9 "!r:x" "@a:x").toOption.any (fun view : StateIds × Option Nat => decide (view.2 = none)) &&
      (historyReadable s 9 "!r:x").toOption.any id)
    (by decide +kernel)
  simp only [Bool.and_eq_true, Option.any_eq_true, decide_eq_true_eq, toOption_eq_some] at h
  obtain ⟨⟨⟨⟨first, second⟩, closed⟩, view, viewed, unbounded⟩, history, readable, rfl⟩ := h
  have run := run.mono fun _ _ h => h.1
  have ready (p : PagePos) (r : PageRequest) :
      Ready sampleCsState "!r:x" "@a:x" .backward none (sampleHolding s) p r :=
    fun _ _ _ _ => ⟨.inl closed, fun _ _ => .beginning closed⟩
  obtain ⟨t, m, answered, ids, ends, -⟩ := samplePage_answered first
  obtain ⟨u, m', answered', ids', ends', -⟩ := samplePage_answered second
  have same : t = sampleHolding s := by
    obtain ⟨_, page, -, paged, rfl, -⟩ := getMessages_page answered
    exact backwardPage_closed paged closed
  subst same
  have walk : Walk sampleCsState "!r:x" "@a:x" .backward none
      (Ready sampleCsState "!r:x" "@a:x" .backward none) (sampleHolding s) (RowPos.timeline 3).token u
      (m.chunk ++ m'.chunk) :=
    .next (parsePagePos_timeline (by decide)) (ready _ _) answered ends
      (.last (parsePagePos_timeline (by decide)) (ready _ _) answered' ends')
  refine ⟨s, u, m.chunk ++ m'.chunk, run, by rw [List.map_append, ids, ids']; rfl, ?_⟩
  obtain ⟨-, shows, -⟩ := (walk_complete (w := sampleHolding s) run).1 _ _ _ _ view true walk
    (parsePagePos_timeline (by decide)) viewed readable
  rw [unbounded] at shows
  exact shows

/-- The servers cannot be reached, and the page behind the one row of the history is empty. It has no end
token, although an older event is known to be missing. -/
theorem open_end_lost : ∃ (s : Store) (t : Shards), Runs (Serial Ruma.sample) Store.empty s ∧
    Walk sampleCsState "!r:x" "@a:x" .backward none (fun _ _ _ => True) (sampleHolding s) "h1" t [] ∧
    historyReadable s 9 "!r:x" = .ok true ∧
    (sampleCsState.forRoom t "!r:x").frontier "!r:x" = ["$c"] := by
  obtain ⟨s, run, h⟩ := exists_run (fun _ _ => True)
    [.importRoom .v11 sampleLateJoin [Ruma.sampleCreate] [], .importHistory "!r:x" [sampleBackfilled]]
    (fun s : Store => samplePage s (.history 1) [] none ["$c"] &&
      (historyReadable s 9 "!r:x").toOption.any id)
    (by decide +kernel)
  simp only [Bool.and_eq_true, Option.any_eq_true, toOption_eq_some] at h
  obtain ⟨page, history, readable, rfl⟩ := h
  obtain ⟨t, m, answered, ids, ends, frontier⟩ := samplePage_answered page
  refine ⟨s, t, run.mono fun _ _ h => h.1, ?_, readable, frontier⟩
  have read : parsePagePos "h1" (sampleCsState.shard "!r:x") = .ok (.history 1) :=
    parsePagePos_history (by decide : 1 < u64Bound)
  exact List.map_eq_nil_iff.1 ids ▸ .last read trivial answered ends

end Walking

end Saltator.Client
