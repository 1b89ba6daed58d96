import Saltator.Client.Pagination
import Saltator.Lib.Course
import Saltator.Room.Memberships

/-!
# The rows of a room

A room has its rows in one order: those of the shard's order, and below them the history that was
fetched from other servers. Fetching more of it puts rows below all others, and changes nothing of what
a reader may read.
-/

namespace Saltator.Client

open Std
open Saltator.Outcome
open Room
open StateRes (Key StateIds)

/-! ## The rows of a room -/

/-- The rows of a room that are read up to `cap`, the newest first: its order, and the history below. -/
def roomRows (s : Store) (room : RoomId) (cap : Option Nat) (history : Bool) : List Row :=
  (scanned s.roomSeq room 0 cap).reverse.map timelineRow ++
    if history then (scanned s.history room 0 none).map historyRow else []

def RowPos.start : RowPos → PagePos
  | .timeline seq => .timeline ⟨seq, true, none⟩
  | .history idx => .history idx

def isOlder : PagePos → Row → Bool
  | .timeline b, (.timeline n, _) => 0 < n && n ≤ b.upper
  | .timeline _, (.history _, _) => true
  | .history _, (.timeline _, _) => false
  | .history i, (.history j, _) => i < j

def isNewer : PagePos → Row → Bool
  | .timeline b, (.timeline n, _) => b.lower < n
  | .timeline _, (.history _, _) => false
  | .history _, (.timeline _, _) => true
  | .history i, (.history j, _) => j < i

def backwards : Course PagePos Row where
  on r := r.1.start
  ahead := isOlder
  asymm := by
    rintro ⟨_ | _, _⟩ ⟨_ | _, _⟩ <;> grind [isOlder, RowPos.start, PaginationBound.upper]
  trans := by
    rintro (_ | _) ⟨_ | _, _⟩ ⟨_ | _, _⟩ <;> grind [isOlder, RowPos.start, PaginationBound.upper]

def forwards : Course PagePos Row where
  on r := r.1.start
  ahead := isNewer
  asymm := by
    rintro ⟨_ | _, _⟩ ⟨_ | _, _⟩ <;> grind [isNewer, RowPos.start, PaginationBound.lower]
  trans := by
    rintro (_ | _) ⟨_ | _, _⟩ ⟨_ | _, _⟩ <;> grind [isNewer, RowPos.start, PaginationBound.lower]

def Direction.course : Direction → Course PagePos Row
  | .backward => backwards
  | .forward => forwards

def rowsFrom (s : Store) (room : RoomId) (cap : Option Nat) (history : Bool) : Direction → List Row
  | .backward => roomRows s room cap history
  | .forward => (roomRows s room cap history).reverse

def rowsAhead (s : Store) (room : RoomId) (cap : Option Nat) (history : Bool) (dir : Direction)
    (p : PagePos) : List Row := dir.course.rest p (rowsFrom s room cap history dir)

section Rows

variable {s : Store} {room : RoomId} {cap : Option Nat} {history : Bool}

theorem timeline_ordered : backwards.Ordered ((scanned s.roomSeq room 0 cap).reverse.map timelineRow) := by
  refine List.pairwise_map.2 (List.pairwise_reverse.2 ?_)
  refine (scanned_sorted s.roomSeq room 0 cap).imp_of_mem fun {a b} mem _ less => ?_
  have positive := (mem_scanned.1 mem).2.1
  simp [backwards, isOlder, timelineRow, RowPos.start, PaginationBound.upper]
  omega

theorem history_ordered : backwards.Ordered ((scanned s.history room 0 none).map historyRow) := by
  refine List.pairwise_map.2 ((scanned_sorted s.history room 0 none).imp fun {a b} less => ?_)
  simpa [backwards, isOlder, historyRow, RowPos.start] using less

theorem roomRows_ordered : backwards.Ordered (roomRows s room cap history) := by
  refine List.pairwise_append.2 ⟨timeline_ordered, ?_, ?_⟩
  · split
    · exact history_ordered
    · exact List.Pairwise.nil
  · intro a first b second
    obtain ⟨x, -, rfl⟩ := List.mem_map.1 first
    split at second
    · obtain ⟨y, -, rfl⟩ := List.mem_map.1 second
      rfl
    · cases second

theorem isNewer_of_isOlder {a b : Row} (older : isOlder a.1.start b) : isNewer b.1.start a := by
  obtain ⟨_ | _, _⟩ := a <;> obtain ⟨_ | _, _⟩ := b <;>
    grind [isOlder, isNewer, RowPos.start, PaginationBound.upper, PaginationBound.lower]

theorem rowsFrom_ordered (dir : Direction) : dir.course.Ordered (rowsFrom s room cap history dir) := by
  cases dir with
  | backward => exact roomRows_ordered
  | forward => exact List.pairwise_reverse.2 (roomRows_ordered.imp isNewer_of_isOlder)

end Rows

/-! ## What fetching does to a room -/

/-- The history of the room lies below the number that the next event of it gets. -/
def Numbered (s : Store) (room : RoomId) : Prop :=
  ∀ m, s.room[room]? = some m → ∀ n id, s.history[(room, n)]? = some id → n < m.nextHistoryIdx

def HistoryHeld (s : Store) : Prop :=
  ∀ (room : RoomId) (n : Nat) (id : EventId), s.history[(room, n)]? = some id → (s.event[id]?).isSome

/-- History has joined a room: below the rows that it had, if these were numbered. Nothing else of it has
changed. -/
structure Extended (room : RoomId) (s t : Store) : Prop where
  order : t.roomSeq = s.roomSeq
  groups : t.group = s.group
  version : (t.room[room]?).map (fun m => (m.version, m.currentGroup)) =
    (s.room[room]?).map fun m => (m.version, m.currentGroup)
  kept : ∀ (id : EventId) (e : StoredEvent), s.event[id]? = some e → ∃ idx, t.event[id]? = some { e with historyIdx := idx }
  numbered : Numbered s room → Numbered t room ∧
    scanned s.history room 0 none <+: scanned t.history room 0 none

section Fetches

variable {s t u : Store} {room : RoomId}

theorem Extended.refl (room : RoomId) (s : Store) : Extended room s s :=
  ⟨rfl, rfl, rfl, fun _ e held => ⟨e.historyIdx, held⟩, fun h => ⟨h, List.prefix_refl _⟩⟩

theorem Extended.trans (h : Extended room s t) (h' : Extended room t u) : Extended room s u where
  order := h'.order.trans h.order
  groups := h'.groups.trans h.groups
  version := h'.version.trans h.version
  kept id e held := by
    obtain ⟨_, held'⟩ := h.kept id e held
    obtain ⟨idx, held''⟩ := h'.kept id _ held'
    exact ⟨idx, held''⟩
  numbered numbered := by
    obtain ⟨numbered, grown⟩ := h.numbered numbered
    obtain ⟨numbered, grown'⟩ := h'.numbered numbered
    exact ⟨numbered, grown.trans grown'⟩

theorem scanned_prefix {table table' : OrdMap (RoomId × Nat) EventId} {first : Nat}
    (old : ∀ n id, table[(room, n)]? = some id → n < first)
    (same : ∀ n : Nat, n < first → table'[(room, n)]? = table[(room, n)]?) :
    scanned table room 0 none <+: scanned table' room 0 none := by
  refine ⟨(scanned table' room 0 none).filter fun r => first ≤ r.1, ?_⟩
  have sorted := (scanned_sorted table' room 0 none).imp fun less => Nat.compare_eq_lt.2 less
  refine OrdMap.eq_of_sorted (List.pairwise_append.2
    ⟨(scanned_sorted table room 0 none).imp fun less => Nat.compare_eq_lt.2 less, sorted.filter _, ?_⟩)
    sorted fun r => ?_
  · intro a first b second
    have := old a.1 a.2 (mem_scanned.1 first).1
    have := of_decide_eq_true (List.mem_filter.1 second).2
    exact Nat.compare_eq_lt.2 (by omega)
  · rw [List.mem_append, List.mem_filter, mem_scanned, mem_scanned, decide_eq_true_eq]
    by_cases low : r.1 < first
    · rw [same r.1 low]
      exact ⟨fun h => h.elim id fun h => absurd h.2 (by omega), .inl⟩
    · refine ⟨fun h => h.elim (fun h => absurd (old r.1 r.2 h.1) low) And.left, fun h => .inr ⟨h, ?_⟩⟩
      omega

theorem historyLoop_rows (events : List ImportEvent) {r : Machine.HistoryRun} {first : Nat}
    (later : first ≤ r.idx)
    (same : ∀ n : Nat, n < first → r.store.history[(room, n)]? = s.history[(room, n)]?)
    (below : ∀ n id, r.store.history[(room, n)]? = some id → n < r.idx) :
    let r' := events.foldl (Machine.historyStep room) r
    (∀ n : Nat, n < first → r'.store.history[(room, n)]? = s.history[(room, n)]?) ∧
      ∀ n id, r'.store.history[(room, n)]? = some id → n < r'.idx := by
  induction events generalizing r with
  | nil => exact ⟨same, below⟩
  | cons ev events ih =>
    rw [List.foldl_cons]
    obtain ⟨step, -⟩ | ⟨stored, step, -⟩ := historyStep_cases room r ev
    · rw [step]
      exact ih later same below
    · have table : (Machine.historyStep room r ev).store.history =
          r.store.history.insert (room, r.idx) ev.eventId := by rw [step]; rfl
      have next : (Machine.historyStep room r ev).idx = r.idx + 1 := by rw [step]; rfl
      refine ih (by omega) (fun n low => ?_) fun n id row => ?_
      · rw [table, OrdMap.getElem?_insert', if_neg (by grind)]
        exact same n low
      · rw [table, OrdMap.getElem?_insert'] at row
        split at row
        · grind
        · have := below n id row
          omega

theorem historyHeld_effect {cmd : RoomCommand} (h : HistoryHeld s) (heff : Machine.Effect s cmd t) :
    HistoryHeld t := by
  have kept : ∀ id : EventId, (s.event[id]?).isSome → (t.event[id]?).isSome :=
    fun _ => stored_effect heff
  have frame (same : t.history = s.history) : HistoryHeld t :=
    fun room n id row => kept id (h room n id (same ▸ row))
  cases heff with
  | idle => exact h
  | tick => exact h
  | rejected absent hrejected => exact frame (Machine.applyRejected_frame _ _ _).2.1
  | accepted absent hrejected happly => exact frame (Machine.applyAccepted_spec happly).history
  | importRoom fresh => exact frame rfl
  | importSegment known => exact frame (Machine.segmentRows_frame _ _ _).2.2.1
  | @importHistory cmd m known =>
    have loop : HistoryHeld (Machine.historyRows s m cmd).store := by
      refine List.foldlRecOn (motive := fun r : Machine.HistoryRun => HistoryHeld r.store) cmd.events _ h
        fun r held ev _ => ?_
      obtain ⟨step, -⟩ | ⟨stored, step, -⟩ := historyStep_cases cmd.roomId r ev
      · rw [step]
        exact held
      · rw [step]
        intro room n id row
        simp only [Machine.indexEvent, OrdMap.getElem?_insert'] at row ⊢
        grind [HistoryHeld]
    exact loop

theorem run_historyHeld {P : Store → RoomCommand → Prop} (run : Runs P Store.empty s) : HistoryHeld s :=
  Runs.invariant (fun _ => Iff.rfl) (fun _ _ _ h _ heff => historyHeld_effect h heff) run
    fun room n id row => by simp [Store.empty] at row

variable {cs : CsState} {fed : FederationState} {w v : Shards} {n : Nat} {frontier : List EventId}

/-- What a fetch may do to the shards. -/
structure Refilled (cs : CsState) (room : RoomId) (w v : Shards) : Prop where
  users : v.users = w.users
  run : Runs (Serial cs.ruma) (cs.forRoom w room) (cs.forRoom v room)
  extended : Extended room (cs.forRoom w room) (cs.forRoom v room)

theorem Refilled.refl (cs : CsState) (room : RoomId) (w : Shards) : Refilled cs room w w :=
  ⟨rfl, .refl, .refl room _⟩

theorem Refilled.trans {x : Shards} (h : Refilled cs room w v) (h' : Refilled cs room v x) :
    Refilled cs room w x :=
  ⟨h'.users.trans h.users, h.run.trans h'.run, h.extended.trans h'.extended⟩

theorem extended_import {cmd : ImportHistory} {m : RoomMeta} (known : s.room[cmd.roomId]? = some m) :
    Extended cmd.roomId s ((Machine.historyRows s m cmd).store.putMeta cmd.roomId
      { m with
        historyFrontier := Machine.stillMissing m (Machine.historyRows s m cmd)
        nextHistoryIdx := (Machine.historyRows s m cmd).idx }) := by
  obtain ⟨group, rooms, order, -, -⟩ := Machine.historyRows_frame s m cmd
  refine ⟨order, group, ?_, fun id e held => ?_, fun numbered => ?_⟩
  · simp [Store.putMeta, known]
  · obtain same | ⟨ev, -, rfl, absent, -⟩ | ⟨ev, -, rfl, e', idx, held', -, record⟩ :=
      (Machine.historyLoop_event_cases cmd.roomId cmd.events ⟨s, m.nextHistoryIdx, ∅, [], 0⟩ id).1
    · exact ⟨e.historyIdx, same.trans held⟩
    · simp [absent] at held
    · obtain rfl := some_unique held' held
      exact ⟨some idx, record⟩
  · obtain ⟨same, below⟩ := historyLoop_rows cmd.events (r := ⟨s, m.nextHistoryIdx, ∅, [], 0⟩) le_rfl
      (fun _ _ => rfl) (numbered m known)
    refine ⟨fun m' held => ?_, scanned_prefix (numbered m known) same⟩
    simp only [Store.putMeta, OrdMap.getElem?_insert', if_true, Option.some.injEq] at held
    subst held
    exact below

theorem importBackfill_refilled {pdus : List JsonObject}
    (h : cs.importBackfill fed w room pdus = .ok (v, n)) : Refilled cs room w v := by
  obtain ⟨cmd, m, computed, known, users, -, result⟩ := importBackfill_cases h
  obtain rfl : cmd.roomId = room := by
    unfold Server.importHistory at computed
    split at computed
    · cases computed
    · simp only [bind_eq_ok, pure_eq_ok] at computed
      obtain ⟨version, -, rfl⟩ := computed
      rfl
  refine ⟨users, ?_, result ▸ extended_import known⟩
  rw [result]
  generalize run : Machine.historyRows (cs.forRoom w cmd.roomId) m cmd = r
  refine .single ⟨cs.forRoom w cmd.roomId, .importHistory cmd,
    .history r.indexed (Machine.stillMissing m r).isEmpty, ?_, ?_⟩
  · exact ⟨(cs.node fed w cmd.roomId).server, cs.fuel, .importHistory cmd.roomId pdus, rfl,
      by simp [Call.prepare, computed]⟩
  · rw [Machine.apply, Machine.applyImportHistory, known, ← run]

theorem fetchHistory_refilled {fed : Option FederationState}
    (h : cs.fetchHistory fed w room frontier = .ok (v, n)) : Refilled cs room w v := by
  obtain ⟨u, users, same, result⟩ := fetchHistory_cases h
  have trusted : Refilled cs room w u := ⟨users, same ▸ .refl, same ▸ .refl room _⟩
  obtain rfl | ⟨fed, pdus, h⟩ := result
  · exact trusted
  · exact trusted.trans (importBackfill_refilled h)

theorem historyLoop_idle (events : List ImportEvent) (r : Machine.HistoryRun) :
    let r' := events.foldl (Machine.historyStep room) r
    r.indexed ≤ r'.indexed ∧ (r'.indexed = r.indexed → r'.store.history = r.store.history) := by
  induction events generalizing r with
  | nil => exact ⟨le_rfl, fun _ => rfl⟩
  | cons ev events ih =>
    rw [List.foldl_cons]
    obtain ⟨more, idle⟩ := ih (Machine.historyStep room r ev)
    obtain ⟨step, -⟩ | ⟨stored, step, -⟩ := historyStep_cases room r ev
    · have same : (Machine.historyStep room r ev).indexed = r.indexed := by rw [step]
      have table : (Machine.historyStep room r ev).store.history = r.store.history := by rw [step]
      exact ⟨by omega, fun none => (idle (by omega)).trans table⟩
    · have next : (Machine.historyStep room r ev).indexed = r.indexed + 1 := by rw [step]; rfl
      exact ⟨by omega, fun none => by omega⟩

theorem fetchHistory_idle {fed : Option FederationState}
    (h : cs.fetchHistory fed w room frontier = .ok (v, 0)) :
    (cs.forRoom v room).history = (cs.forRoom w room).history := by
  obtain ⟨u, -, same, rfl | ⟨fed, pdus, h⟩⟩ := fetchHistory_cases h
  · rw [same]
  · obtain ⟨cmd, m, -, -, -, none, result⟩ := importBackfill_cases h
    rw [result, ← same]
    exact (historyLoop_idle cmd.events ⟨cs.forRoom u room, m.nextHistoryIdx, ∅, [], 0⟩).2 none

end Fetches

/-! ## What a reader may read stays the same -/

section Views

variable {s t : Store} {fuel : Nat} {room : RoomId} {user : UserId} {current : StateIds}

theorem Extended.resolveGroup (h : Extended room s t) (r : RoomId) (group : Nat) :
    Client.resolveGroup t fuel r group = Client.resolveGroup s fuel r group := by
  have round : t.groupRound r = s.groupRound r := by
    funext ⟨next, chain⟩
    cases next <;> simp only [Store.groupRound, h.groups]
  simp only [Client.resolveGroup, Store.resolveGroup, round]

theorem Extended.currentState (h : Extended room s t) :
    Client.currentState t fuel room = Client.currentState s fuel room := by
  have version := h.version
  unfold Client.currentState roomMeta
  cases known : s.room[room]? with
  | none =>
    rw [known, Option.map_none, Option.map_eq_none_iff] at version
    rw [version]
    rfl
  | some m =>
    rw [known, Option.map_some, Option.map_eq_some_iff] at version
    obtain ⟨m', known', same⟩ := version
    rw [known', ok_bind, ok_bind, h.resolveGroup, (Prod.mk.inj same).2]

theorem currentState_held (maps : MapsStored s) (h : Client.currentState s fuel room = .ok current)
    {key : Key} {id : EventId} (mapped : current[key]? = some id) : ∃ e, s.event[id]? = some e := by
  obtain ⟨m, -, resolved⟩ := bind_eq_ok.1 h
  rw [Client.resolveGroup, mapError_eq_ok] at resolved
  exact Option.isSome_iff_exists.1 ((resolveGroup_materializes resolved).stored maps mapped)

theorem Extended.rawEvent (h : Extended room s t) {id : EventId} {e : StoredEvent}
    (held : s.event[id]? = some e) : Client.rawEvent t id = Client.rawEvent s id := by
  obtain ⟨idx, held'⟩ := h.kept id e held
  simp only [Client.rawEvent, held, held', Option.filter_some]
  split <;> rfl

theorem Extended.memberView (h : Extended room s t) (maps : MapsStored s) :
    Client.memberView t fuel room user = Client.memberView s fuel room user := by
  unfold Client.memberView
  rw [h.currentState]
  cases known : Client.currentState s fuel room with
  | error e => rfl
  | ok current =>
    -- the member event is stored, so neither its body nor its position changes
    have kept : ∀ id, current[memberKey user]? = some id →
        ∃ e idx, s.event[id]? = some e ∧ t.event[id]? = some { e with historyIdx := idx } := by
      intro id mapped
      obtain ⟨e, held⟩ := currentState_held maps known mapped
      obtain ⟨idx, held'⟩ := h.kept id e held
      exact ⟨e, idx, held, held'⟩
    have membership : membershipIn t current user = membershipIn s current user := by
      unfold membershipIn
      cases mapped : current[memberKey user]? with
      | none => rfl
      | some id =>
        obtain ⟨e, idx, held, held'⟩ := kept id mapped
        simp only [Option.bind_some, held, held']
        rfl
    have departed : departedView t fuel room current user = departedView s fuel room current user := by
      unfold departedView
      cases mapped : current[memberKey user]? with
      | none => rfl
      | some id =>
        obtain ⟨e, idx, held, held'⟩ := kept id mapped
        simp only [Option.bind_some, held, held', h.resolveGroup]
    rw [ok_bind, ok_bind, membership, departed]

theorem Extended.historyReadable (h : Extended room s t) (maps : MapsStored s) :
    Client.historyReadable t fuel room = Client.historyReadable s fuel room := by
  unfold Client.historyReadable
  rw [h.currentState]
  cases known : Client.currentState s fuel room with
  | error e => rfl
  | ok current =>
    have content : stateContentIn t current "m.room.history_visibility" =
        stateContentIn s current "m.room.history_visibility" := by
      unfold stateContentIn
      cases mapped : current[(("m.room.history_visibility", "") : Key)]? with
      | none => rfl
      | some id =>
        obtain ⟨e, held⟩ := currentState_held maps known mapped
        simp only [Option.bind_some, h.rawEvent held]
    simp only [ok_bind, visibilityIn, content]
    rfl

end Views

end Saltator.Client
