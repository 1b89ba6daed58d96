import Saltator.Client.Departed
import Saltator.Client.Sync

/-!
# History visibility

Whether a user may see an event is decided by the state after the event (`userCanSee_iff`). The
endpoints that return events in a timeline or a chunk do not ask: they return what the rows in reach of
the request name. So all of it may be seen if and only if the room was open to the user at every one of
these rows, and none is of the backfilled history (`guarded_iff`). Which rows are in reach is told from what
is stored.
-/

namespace Saltator.Client

open Std
open Saltator.Outcome
open Room
open StateRes (StateIds)
open User (MembershipEntry)

/-! ## Requests -/

/-- The requests that answer events of a room in a timeline or a chunk. -/
inductive TimelineRead where
  | sync (request : CsState.SyncRequest)
  | messages (query : Except ApiError MessagesQuery)
  | context (target : EventId) (limit : Nat)
  | relations (target : EventId) (query : CsState.RelationsQuery)

def MaySee (s : Store) (fuel : Nat) (room : RoomId) (user : UserId) (id : EventId) : Prop :=
  ∃ stored stateAt, s.event[id]? = some stored ∧ stored.rejected = none ∧
    stored.stateGroupAfter ≠ 0 ∧ resolveGroup s fuel room stored.stateGroupAfter = .ok stateAt ∧
    (membershipIn s stateAt user = "join" ∨ visibilityIn s stateAt = "world_readable" ∨
      visibilityIn s stateAt = "shared" ∧ JoinedNow s fuel room user ∨
      visibilityIn s stateAt = "invited" ∧ membershipIn s stateAt user = "invite")

namespace CsState

variable (cs : CsState) (fed : Nat → Option FederationState) (w : Shards) (user : UserId) (room : RoomId)

def shown : TimelineRead → Except ApiError (Shards × List ClientEvent)
  | .sync r => do
    let rooms ← cs.buildSync w { r with user }
    return (w, roomTimelines rooms room)
  | .messages query => do
    let (w, page) ← cs.getMessages fed w user room query
    return (w, page.chunk)
  | .context target limit => do
    let c ← cs.getContext w user room target limit
    return (w, c.eventsBefore ++ c.eventsAfter)
  | .relations target q => do return (w, ← cs.getRelations w user room target q)

def SyncRequest.windowStart (r : SyncRequest) (m : MembershipEntry) : Nat :=
  if r.roomInitial m then 0 else r.after.roomAt (cs.shard room)

inductive InWindow (r : SyncRequest) (id : EventId) : Prop
  | joined {m : MembershipEntry} {roomMeta : RoomMeta} {n : Nat}
      (member : w.users.membership[(user, room)]? = some m) (joined : m.membership = "join")
      (known : (cs.forRoom w room).room[room]? = some roomMeta)
      (row : Latest (cs.forRoom w room).roomSeq room (r.windowStart cs room m)
        (some (r.now.roomAt (cs.shard room))) r.filter.limit n id)
      (near : r.roomInitial m = true ∨ ∀ gap ∈ roomMeta.gapMarkers,
        r.windowStart cs room m < gap → gap ≤ r.now.roomAt (cs.shard room) → gap ≤ n)
  | left {m : MembershipEntry} {roomMeta : RoomMeta} {n : Nat}
      (member : w.users.membership[(user, room)]? = some m)
      (gone : m.membership = "leave" ∨ m.membership = "ban") (sent : r.sendsLeft m)
      (known : (cs.forRoom w room).room[room]? = some roomMeta)
      (row : Latest (cs.forRoom w room).roomSeq room
        (if r.since.isNone || r.fullState then 0 else r.after.roomAt (cs.shard room))
        (some (min m.roomSeq (r.now.roomAt (cs.shard room)))) r.filter.limit n id)

/-- The event at a position of the room's order answers a query of relations. -/
structure Related (cap : Option Nat) (target : EventId) (q : RelationsQuery) (n : Nat) (e : ClientEvent) :
    Prop where
  row : Earliest (cs.forRoom w room).roomSeq room 0 cap usizeMax n e.eventId
  served : cs.Serves w user room (cs.forRoom w room) e
  inSpan : q.inSpan n
  selected : q.selects target e

def RelationsQuery.Ahead (q : RelationsQuery) (m n : Nat) : Prop :=
  match q.dir with
  | .backward => n < m
  | .forward => m < n

/-- The events in reach of a request, whether or not the user may see them. `t` are the shards with what was
fetched. -/
inductive Takes (t : Shards) (id : EventId) : TimelineRead → Prop
  | window {r : SyncRequest} {e : ClientEvent} (row : cs.InWindow w user room { r with user } id)
      (own : e.eventId = id) (served : cs.Serves w user room (cs.forRoom w room) e)
      (typed : typeMatches r.filter.timelineTypes r.filter.timelineNotTypes
        ((strProp e.body "type").getD "")) : Takes t id (.sync r)
  | unhosted {r : SyncRequest} {m : MembershipEntry}
      (member : w.users.membership[(user, room)]? = some m)
      (gone : m.membership = "leave" ∨ m.membership = "ban")
      (sent : SyncRequest.sendsLeft { r with user } m)
      (unknown : (cs.forRoom w room).room[room]? = none) (own : m.eventId = id) : Takes t id (.sync r)
  | page {q : MessagesQuery} {view : StateIds × Option Nat} {pos : RowPos} {e : ClientEvent}
      (viewed : memberView (cs.forRoom w room) cs.fuel room user = .ok view)
      (row : cs.PageRow fed room w view.2 q pos id) (own : e.eventId = id)
      (served : cs.Serves w user room (cs.forRoom t room) e)
      (selected : urlMatches q.containsUrl e) : Takes t id (.messages (.ok q))
  | neighbour {target : EventId} {stored : StoredEvent} {view : StateIds × Option Nat} {limit : Nat}
      {pos : RowPos} (known : (cs.forRoom w room).event[target]? = some stored)
      (viewed : memberView (cs.forRoom w room) cs.fuel room user = .ok view)
      (row : Older (cs.forRoom w room) room stored (min limit 100) pos id ∨
        Newer (cs.forRoom w room) room stored view.2 (min limit 100) pos id)
      (held : (rawEvent (cs.forRoom w room) id).isSome) : Takes t id (.context target limit)
  | related {target : EventId} {q : RelationsQuery} {view : StateIds × Option Nat} {n : Nat} {e : ClientEvent}
      (viewed : memberView (cs.forRoom w room) cs.fuel room user = .ok view)
      (found : cs.Related w user room view.2 target q n e) (own : e.eventId = id)
      (first : ∀ ahead : List Nat, ahead.Nodup →
        (∀ m ∈ ahead, q.Ahead m n ∧ ∃ e', cs.Related w user room view.2 target q m e') →
          ahead.length < max 1 (min 100 q.limit)) : Takes t id (.relations target q)

/-- Nothing is answered that the user could not ask for by its id. -/
def Guarded (request : TimelineRead) : Prop :=
  ∀ t events, cs.shown fed w user room request = .ok (t, events) →
    ∀ e ∈ events, userCanSeeEvent (cs.forRoom t room) cs.fuel room e.eventId user = .ok true

end CsState

/-- The position of a row in its own table. -/
def RowPos.index : RowPos → Nat
  | .timeline n => n
  | .history n => n

/-! ## What the paths take -/

section Paths

variable {cs : CsState} {fed : Nat → Option FederationState} {w t : Shards} {user : UserId}
  {room : RoomId} {id : EventId} {r : CsState.SyncRequest} {events : List ClientEvent}
  {u : Option SyncedRoom} {roomMeta : RoomMeta} {m : MembershipEntry}

theorem userCanSee_iff {s : Store} {fuel : Nat} :
    userCanSeeEvent s fuel room id user = .ok true ↔ MaySee s fuel room user id := by
  unfold userCanSeeEvent
  constructor
  · intro h
    cases held : s.event[id]? with
    | none => simp [held] at h
    | some stored =>
      simp only [held] at h
      split at h
      · simp at h
      rename_i placed
      obtain ⟨accepted, grouped⟩ := not_or.1 placed
      obtain ⟨stateAt, resolved, h⟩ := bind_eq_ok.1 h
      refine ⟨stored, stateAt, held, by simpa using accepted, grouped, resolved, ?_⟩
      split at h
      · rename_i joined
        exact .inl joined
      split at h
      · rename_i worldReadable
        exact .inr (.inl worldReadable)
      split at h
      · rename_i shared
        obtain ⟨current, known, h⟩ := bind_eq_ok.1 h
        exact .inr (.inr (.inl ⟨shared, current, known, of_decide_eq_true (pure_eq_ok.1 h)⟩))
      · exact .inr (.inr (.inr (of_decide_eq_true (pure_eq_ok.1 h))))
  · rintro ⟨stored, stateAt, held, accepted, grouped, resolved, sees⟩
    simp only [held, accepted, Option.isSome_none, Bool.false_eq_true, false_or, if_neg grouped]
    refine bind_eq_ok.2 ⟨stateAt, resolved, ?_⟩
    split
    · rfl
    rename_i out
    split
    · rfl
    rename_i closed
    rcases (sees.resolve_left out).resolve_left closed with ⟨shared, current, known, joined⟩ |
      ⟨invited, invitee⟩
    · rw [if_pos shared]
      exact bind_eq_ok.2 ⟨current, known, pure_eq_ok.2 (decide_eq_true joined)⟩
    · rw [if_neg (by rw [invited]; decide)]
      exact pure_eq_ok.2 (decide_eq_true ⟨invited, invitee⟩)

theorem versionOf_known {s : Store} (known : s.room[room]? = some roomMeta) :
    CsState.versionOf s room = roomVersion roomMeta := by
  simp only [CsState.versionOf, Client.roomMeta, known, ok_bind]

theorem mem_newestWindow_iff {s : Store} {since upto limit n : Nat} :
    (n, id) ∈ (newestWindow s room since upto limit).rows ↔
      Latest s.roomSeq room since (some upto) limit n id := by
  have cut : (roomTimeline s room since (some upto) (limit + 1) true).take limit =
      scan s.roomSeq room since (some upto) limit true := by
    rw [roomTimeline, scan, scan, List.take_take, min_eq_left (by omega)]
  rw [newestWindow, List.mem_reverse, cut, mem_scan_latest]

theorem mem_joinedWindow_iff {s : Store} {since upto limit n : Nat} {initial : Bool} :
    (n, id) ∈ (joinedWindow s roomMeta room since upto limit initial).rows ↔
      Latest s.roomSeq room since (some upto) limit n id ∧ (initial = true ∨
        ∀ gap ∈ roomMeta.gapMarkers, since < gap → gap ≤ upto → gap ≤ n) := by
  rw [joinedWindow]
  cases initial with
  | true => simp [mem_newestWindow_iff]
  | false =>
    simp only [Bool.false_eq_true, if_false, false_or]
    -- the newest of the gaps in the span is at or before a row exactly if all of them are
    cases newest : newestGap roomMeta since upto with
    | none =>
      have no : ∀ gap ∈ roomMeta.gapMarkers, since < gap → ¬ gap ≤ upto := by
        simpa [newestGap] using newest
      exact mem_newestWindow_iff.trans
        (iff_self_and.2 fun _ gap mem above below => absurd below (no gap mem above))
    | some gap =>
      obtain ⟨held, last⟩ := List.max?_eq_some_iff.1 newest
      simp only [List.mem_filter, Bool.and_eq_true, decide_eq_true_eq] at held last
      dsimp only
      rw [List.mem_filter, mem_newestWindow_iff, decide_eq_true_eq]
      exact and_congr_right fun _ => ⟨fun h other mem above below => (last other ⟨mem, above, below⟩).trans h,
        fun h => h gap held.1 held.2.1 held.2.2⟩

theorem mem_window {device : User.DeviceId} {version : RoomVersion} {rows : List (Nat × EventId)}
    (known : (cs.forRoom w room).room[room]? = some roomMeta)
    (versioned : roomVersion roomMeta = .ok version)
    (h : cs.timelineEvents (cs.forRoom w room) room version user device r.filter rows = .ok events) :
    id ∈ events.map ClientEvent.eventId ↔ (∃ n, (n, id) ∈ rows) ∧ ∃ e : ClientEvent, e.eventId = id ∧
      cs.Serves w user room (cs.forRoom w room) e ∧
      typeMatches r.filter.timelineTypes r.filter.timelineNotTypes ((strProp e.body "type").getD "") := by
  rw [List.mem_map]
  constructor
  · rintro ⟨e, mem, rfl⟩
    obtain ⟨ev, row, served, typed, rfl⟩ := (mem_timelineEvents h).1 mem
    obtain ⟨⟨n, _⟩, row, rfl⟩ := List.mem_map.1 row
    rw [stampEcho_eventId]
    exact ⟨⟨n, row⟩, ev, rfl, ⟨version, (versionOf_known known).trans versioned, served⟩, typed⟩
  · rintro ⟨⟨n, row⟩, ev, rfl, ⟨version', versioned', served⟩, typed⟩
    rw [versionOf_known known] at versioned'
    obtain rfl := ok_unique versioned versioned'
    exact ⟨_, (mem_timelineEvents h).2 ⟨ev, List.mem_map_of_mem row, served, typed, rfl⟩, stampEcho_eventId⟩

theorem takes_joined (member : w.users.membership[(user, room)]? = some m) (joined : m.membership = "join")
    (h : cs.syncRoom w { r with user } room m = .ok u) :
    id ∈ (timelineOf u).map ClientEvent.eventId ↔ cs.Takes fed w user room t id (.sync r) := by
  have stays : ¬ (m.membership = "leave" ∨ m.membership = "ban") := by simp [joined]
  obtain ⟨update, built, sent⟩ := syncRoom_joined joined h
  have same : timelineOf u = update.timeline := by
    rcases sent with rfl | ⟨rfl, -, empty, -⟩
    · rfl
    · exact empty.symm
  rw [same]
  cases known : (cs.forRoom w room).room[room]? with
  | none =>
    simp only [CsState.buildJoinedRoom, known, Except.ok.injEq] at built
    subst built
    simp only [List.map_nil, List.not_mem_nil, false_iff]
    rintro (⟨row, -, -, -⟩ | ⟨member', gone, -⟩)
    · cases row with
      | joined _ _ known' => simp [known] at known'
      | left _ _ _ known' => simp [known] at known'
    · obtain rfl := some_unique member member'
      exact stays gone
  | some roomMeta =>
    obtain ⟨version, -, -, versioned, timeline, -⟩ := buildJoinedRoom_known known built
    refine (mem_window known versioned timeline).trans ⟨?_, ?_⟩
    · rintro ⟨⟨n, row⟩, e, own, served, typed⟩
      obtain ⟨row, near⟩ := mem_joinedWindow_iff.1 row
      exact .window (.joined member joined known row near) own served typed
    · rintro (⟨row, own, served, typed⟩ | ⟨-, -, -, unknown⟩)
      · refine ⟨?_, _, own, served, typed⟩
        cases row with
        | joined member' _ known' row near =>
          obtain rfl := some_unique member member'
          obtain rfl := some_unique known known'
          exact ⟨_, mem_joinedWindow_iff.2 ⟨row, near⟩⟩
        | left member' gone =>
          obtain rfl := some_unique member member'
          exact absurd gone stays
      · simp [known] at unknown

theorem takes_left (member : w.users.membership[(user, room)]? = some m) (out : m.membership ≠ "join")
    (h : cs.syncRoom w { r with user } room m = .ok u) :
    id ∈ (timelineOf u).map ClientEvent.eventId ↔ cs.Takes fed w user room t id (.sync r) := by
  obtain ⟨rfl, unsent⟩ | ⟨⟨gone, sent⟩, update, rfl, built⟩ := syncRoom_left out h
  · simp only [timelineOf, Option.map_none, Option.getD_none, List.map_nil, List.not_mem_nil,
      false_iff]
    rintro (⟨row, -, -, -⟩ | ⟨member', gone, sent, -⟩)
    · cases row with
      | joined member' joined =>
        obtain rfl := some_unique member member'
        exact out joined
      | left member' gone sent =>
        obtain rfl := some_unique member member'
        exact unsent ⟨gone, sent⟩
    · obtain rfl := some_unique member member'
      exact unsent ⟨gone, sent⟩
  unfold CsState.buildLeftRoom at built
  cases known : (cs.forRoom w room).room[room]? with
  | none =>
    simp only [known, Except.ok.injEq] at built
    subst built
    simp only [timelineOf, Option.map_some, Option.getD_some, SyncedRoom.update, List.map_cons,
      List.map_nil, List.mem_singleton]
    constructor
    · rintro rfl
      exact .unhosted member gone sent known rfl
    · rintro (⟨row, -, -, -⟩ | ⟨member', -, -, -, own⟩)
      · cases row with
        | joined _ _ known' => simp [known] at known'
        | left _ _ _ known' => simp [known] at known'
      · obtain rfl := some_unique member member'
        exact own.symm
  | some roomMeta =>
    rw [known] at built
    obtain ⟨version, versioned, built⟩ := bind_eq_ok.1 built
    obtain ⟨timeline, listed, built⟩ := bind_eq_ok.1 built
    obtain ⟨start, -, built⟩ := bind_eq_ok.1 built
    obtain ⟨base, -, built⟩ := bind_eq_ok.1 built
    obtain ⟨state, -, built⟩ := bind_eq_ok.1 built
    obtain rfl := pure_eq_ok.1 built
    refine (mem_window known versioned listed).trans ⟨?_, ?_⟩
    · rintro ⟨⟨n, row⟩, e, own, served, typed⟩
      exact .window (.left member gone sent known (mem_newestWindow_iff.1 row)) own served typed
    · rintro (⟨row, own, served, typed⟩ | ⟨-, -, -, unknown⟩)
      · refine ⟨?_, _, own, served, typed⟩
        cases row with
        | joined member' joined =>
          obtain rfl := some_unique member member'
          exact absurd joined out
        | left member' _ _ _ row =>
          obtain rfl := some_unique member member'
          exact ⟨_, mem_newestWindow_iff.2 row⟩
      · simp [known] at unknown

theorem length_lt_iff {l : List Nat} (nodup : l.Nodup) {k : Nat} {p : Nat → Prop} (listed : ∀ n, n ∈ l ↔ p n) :
    l.length < k ↔ ∀ ns : List Nat, ns.Nodup → (∀ n ∈ ns, p n) → ns.length < k := by
  constructor
  · intro few ns once within
    exact ((List.subperm_of_subset once fun n mem => (listed n).2 (within n mem)).length_le).trans_lt few
  · exact fun h => h l nodup fun n mem => (listed n).1 mem

instance {q : CsState.RelationsQuery} : DecidableRel q.Ahead := fun m n => by
  unfold CsState.RelationsQuery.Ahead
  split <;> infer_instance

theorem page_eq {cap : Option Nat} (target : EventId) (q : CsState.RelationsQuery)
    {found : List (RowPos × ClientEvent)} (h : cs.visibleEvents w user room cap = .ok found) :
    ∃ l : List (RowPos × ClientEvent),
      q.page target found = (l.take (max 1 (min 100 q.limit))).map Prod.snd ∧
      l.Pairwise (fun a b => q.Ahead a.1.index b.1.index) ∧
      ∀ pos e, (pos, e) ∈ l ↔ ∃ n, pos = .timeline n ∧ cs.Related w user room cap target q n e := by
  obtain ⟨version, versioned, rows⟩ := bind_eq_ok.1 h
  have sorted : found.Pairwise fun a b => a.1.index < b.1.index := by
    have inOrder : (servedRows (cs.forRoom w room)
        ((roomTimeline (cs.forRoom w room) room 0 cap usizeMax false).map timelineRow)).Pairwise
          fun a b => a.1.index < b.1.index := by
      refine List.Pairwise.filter _ (List.pairwise_map.2 ?_)
      exact (scanned_sorted (cs.forRoom w room).roomSeq room 0 cap).sublist (List.take_sublist usizeMax _)
    rw [← clientRows_rows rows, List.pairwise_map] at inOrder
    exact inOrder
  unfold CsState.RelationsQuery.page CsState.RelationsQuery.Ahead
  dsimp only
  set selected := found.filter _ with chosen
  replace sorted : selected.Pairwise fun a b => a.1.index < b.1.index := sorted.filter _
  have listed (pos : RowPos) (e : ClientEvent) : (pos, e) ∈ selected ↔
      ∃ n, pos = .timeline n ∧ cs.Related w user room cap target q n e := by
    simp only [chosen, List.mem_filter, mem_clientRows rows, Bool.and_eq_true, mem_orderRows_iff, Prod.mk.injEq,
      roomTimeline, mem_scan_earliest]
    constructor
    · rintro ⟨⟨⟨n, id, ⟨rfl, rfl⟩, row⟩, served⟩, inSpan, picked⟩
      exact ⟨n, rfl, row, ⟨version, versioned, served⟩, inSpan, picked⟩
    · rintro ⟨n, rfl, row, ⟨version', versioned', served⟩, inSpan, picked⟩
      obtain rfl := ok_unique versioned versioned'
      exact ⟨⟨⟨n, _, ⟨rfl, rfl⟩, row⟩, served⟩, inSpan, picked⟩
  cases q.dir with
  | backward =>
    refine ⟨selected.reverse, ?_, List.pairwise_reverse.2 sorted, fun pos e => ?_⟩
    · rw [← List.map_reverse, List.map_take]
    · rw [List.mem_reverse, listed]
  | forward => exact ⟨selected, by rw [List.map_take], sorted, listed⟩

theorem mem_relations {cap : Option Nat} {target : EventId} {q : CsState.RelationsQuery}
    {found : List (RowPos × ClientEvent)} (h : cs.visibleEvents w user room cap = .ok found) :
    id ∈ (q.page target found).map ClientEvent.eventId ↔ ∃ n e, cs.Related w user room cap target q n e ∧
      e.eventId = id ∧ ∀ ahead : List Nat, ahead.Nodup →
        (∀ m ∈ ahead, q.Ahead m n ∧ ∃ e', cs.Related w user room cap target q m e') →
          ahead.length < max 1 (min 100 q.limit) := by
  obtain ⟨l, same, sorted, listed⟩ := page_eq target q h
  have asymm (m n : Nat) : q.Ahead m n → ¬ q.Ahead n m := by
    unfold CsState.RelationsQuery.Ahead
    cases q.dir <;> exact fun first second => Nat.lt_asymm first second
  -- the events ahead of one, by their positions
  have ahead {n : Nat} {e : ClientEvent} : (l.filter fun r : RowPos × ClientEvent =>
        decide (q.Ahead r.1.index (RowPos.timeline n, e).1.index)).length < max 1 (min 100 q.limit) ↔
      ∀ ns : List Nat, ns.Nodup → (∀ m ∈ ns, q.Ahead m n ∧ ∃ e', cs.Related w user room cap target q m e') →
        ns.length < max 1 (min 100 q.limit) := by
    rw [← List.length_map (fun r : RowPos × ClientEvent => r.1.index)]
    refine length_lt_iff (List.pairwise_map.2 ((sorted.filter _).imp ?_)) fun m => ?_
    · intro a b before same
      rw [same] at before
      exact asymm _ _ before before
    · simp only [List.mem_map, List.mem_filter, decide_eq_true_eq]
      constructor
      · rintro ⟨⟨pos, e'⟩, ⟨mem, before⟩, rfl⟩
        obtain ⟨k, rfl, related⟩ := (listed pos e').1 mem
        exact ⟨before, e', related⟩
      · rintro ⟨before, e', related⟩
        exact ⟨_, ⟨(listed _ _).2 ⟨m, rfl, related⟩, before⟩, rfl⟩
  simp only [same, List.mem_map, mem_take_iff (r := fun a b : RowPos × ClientEvent =>
    q.Ahead a.1.index b.1.index) (fun a b => asymm _ _) sorted]
  constructor
  · rintro ⟨e, ⟨⟨pos, _⟩, ⟨mem, first⟩, rfl⟩, own⟩
    obtain ⟨n, rfl, related⟩ := (listed _ _).1 mem
    exact ⟨n, _, related, own, ahead.1 first⟩
  · rintro ⟨n, e, related, own, first⟩
    exact ⟨e, ⟨_, ⟨(listed _ _).2 ⟨n, rfl, related⟩, ahead.2 first⟩, rfl⟩, own⟩

theorem sync_takes (h : cs.shown fed w user room (.sync r) = .ok (t, events)) :
    id ∈ events.map ClientEvent.eventId ↔ cs.Takes fed w user room t id (.sync r) := by
  obtain ⟨rooms, synced, h⟩ := bind_eq_ok.1 h
  obtain ⟨-, rfl⟩ := ok_pair h
  have sent (m : MembershipEntry) (member : w.users.membership[(user, room)]? = some m) :
      id ∈ (roomTimelines rooms room).map ClientEvent.eventId ↔
        cs.Takes fed w user room t id (.sync r) := by
    obtain ⟨u, built⟩ := syncRoom_of_buildSync synced member
    have same : id ∈ (roomTimelines rooms room).map ClientEvent.eventId ↔
        id ∈ (timelineOf u).map ClientEvent.eventId := by
      simp only [List.mem_map, mem_roomTimelines synced member built]
    by_cases joined : m.membership = "join"
    · exact same.trans (takes_joined member joined built)
    · exact same.trans (takes_left member joined built)
  constructor
  · intro mem
    obtain ⟨e, listed, own⟩ := List.mem_map.1 mem
    obtain ⟨⟨r', u⟩, mine, within⟩ := List.mem_flatMap.1 listed
    obtain ⟨found, here⟩ := List.mem_filter.1 mine
    obtain rfl : r' = room := of_decide_eq_true here
    obtain ⟨m, member, -⟩ := (mem_buildSync synced).1 found
    exact (sent m member).1 (List.mem_map.2 ⟨e, listed, own⟩)
  · intro takes
    have held : ∃ m, w.users.membership[(user, room)]? = some m := by
      rcases takes with ⟨row, -, -, -⟩ | ⟨member, -⟩
      · cases row with
        | joined member => exact ⟨_, member⟩
        | left member => exact ⟨_, member⟩
      · exact ⟨_, member⟩
    obtain ⟨m, member⟩ := held
    exact (sent m member).2 takes

theorem messages_takes {query : Except ApiError MessagesQuery}
    (h : cs.shown fed w user room (.messages query) = .ok (t, events)) :
    id ∈ events.map ClientEvent.eventId ↔ cs.Takes fed w user room t id (.messages query) := by
  obtain ⟨⟨u, page⟩, answered, h⟩ := bind_eq_ok.1 h
  obtain ⟨rfl, rfl⟩ := ok_pair h
  obtain ⟨-, -, answered⟩ := bind_eq_ok.1 answered
  obtain ⟨view, viewed, answered⟩ := bind_eq_ok.1 answered
  rw [mapError_eq_ok] at viewed
  obtain ⟨version, versioned, answered⟩ := bind_eq_ok.1 answered
  obtain ⟨q, rfl, rest⟩ := bind_eq_ok.1 answered
  obtain ⟨rows, paged, rest⟩ := bind_eq_ok.1 rest
  obtain ⟨all, listed, rest⟩ := bind_eq_ok.1 rest
  obtain ⟨state, -, rest⟩ := bind_eq_ok.1 rest
  obtain ⟨rfl, rfl⟩ := ok_pair rest
  rw [List.mem_map]
  constructor
  · rintro ⟨e, mem, rfl⟩
    obtain ⟨mem, selected⟩ := List.mem_filter.1 mem
    obtain ⟨row, served⟩ := (mem_clientEvents listed).1 mem
    obtain ⟨⟨pos, _⟩, row, rfl⟩ := List.mem_map.1 row
    exact .page viewed ((mem_pageOf paged).1 row) rfl ⟨version, versioned, served⟩ selected
  · intro takes
    cases takes with
    | page viewed' row own served selected =>
      obtain ⟨version', versioned', served⟩ := served
      obtain rfl := ok_unique viewed viewed'
      obtain rfl := ok_unique versioned versioned'
      have named := List.mem_map_of_mem (f := Prod.snd) ((mem_pageOf paged).2 row)
      exact ⟨_, List.mem_filter.2 ⟨(mem_clientEvents listed).2 ⟨own.symm ▸ named, served⟩, selected⟩, own⟩

theorem context_takes {target : EventId} {limit : Nat} (h : cs.shown fed w user room (.context target limit) = .ok (t, events)) :
    id ∈ events.map ClientEvent.eventId ↔ cs.Takes fed w user room t id (.context target limit) := by
  obtain ⟨c, answered, h⟩ := bind_eq_ok.1 h
  obtain ⟨-, rfl⟩ := ok_pair h
  obtain ⟨stored, view, version, near, held, viewed, -, -, around, older, newer, -, -, -⟩ :=
    getContext_ok answered
  have rows {pos : RowPos} {id : EventId} := mem_neighbours pos id around
  have side {l : List (RowPos × ClientEvent)} : id ∈ (l.map Prod.snd).map ClientEvent.eventId ↔
      ∃ pos, (pos, id) ∈ l.map fun r => (r.1, r.2.eventId) := by
    simp only [List.mem_map, Prod.mk.injEq, Prod.exists, exists_eq_right]
    exact ⟨fun ⟨e, ⟨pos, mem⟩, own⟩ => ⟨pos, pos, e, mem, rfl, own⟩,
      fun ⟨_, pos, e, mem, _, own⟩ => ⟨e, ⟨pos, mem⟩, own⟩⟩
  rw [older, newer, List.map_append, List.mem_append, side, side]
  simp only [rows]
  constructor
  · rintro (⟨pos, row, served⟩ | ⟨pos, row, served⟩)
    · exact .neighbour held viewed (.inl row) served
    · exact .neighbour held viewed (.inr row) served
  · intro takes
    cases takes with
    | neighbour held' viewed' row served =>
      obtain rfl := some_unique held held'
      obtain rfl := ok_unique viewed viewed'
      exact row.imp (fun row => ⟨_, row, served⟩) fun row => ⟨_, row, served⟩

theorem relations_takes {target : EventId} {q : CsState.RelationsQuery}
    (h : cs.shown fed w user room (.relations target q) = .ok (t, events)) :
    id ∈ events.map ClientEvent.eventId ↔ cs.Takes fed w user room t id (.relations target q) := by
  obtain ⟨found, answered, h⟩ := bind_eq_ok.1 h
  obtain ⟨-, rfl⟩ := ok_pair h
  obtain ⟨-, -, answered⟩ := bind_eq_ok.1 answered
  obtain ⟨view, viewed, answered⟩ := bind_eq_ok.1 answered
  rw [mapError_eq_ok] at viewed
  obtain ⟨rows, scanned, answered⟩ := bind_eq_ok.1 answered
  obtain rfl := pure_eq_ok.1 answered
  rw [mem_relations scanned]
  constructor
  · rintro ⟨n, e, found, own, first⟩
    exact .related viewed found own first
  · intro takes
    cases takes with
    | related viewed' found own first =>
      obtain rfl := ok_unique viewed viewed'
      exact ⟨_, _, found, own, first⟩

theorem shown_takes {request : TimelineRead} (h : cs.shown fed w user room request = .ok (t, events)) :
    id ∈ events.map ClientEvent.eventId ↔ cs.Takes fed w user room t id request := by
  cases request with
  | sync => exact sync_takes h
  | messages => exact messages_takes h
  | context => exact context_takes h
  | relations => exact relations_takes h

/-- Nothing that may not be seen is answered if and only if at each row that the request takes the
room was open to the user. -/
theorem guarded_iff (request : TimelineRead) : cs.Guarded fed w user room request ↔
    ∀ t events, cs.shown fed w user room request = .ok (t, events) →
      ∀ id, cs.Takes fed w user room t id request → MaySee (cs.forRoom t room) cs.fuel room user id := by
  constructor
  · intro guarded t events answered id takes
    obtain ⟨e, mem, rfl⟩ := List.mem_map.1 ((shown_takes answered).2 takes)
    exact userCanSee_iff.1 (guarded t events answered e mem)
  · intro opened t events answered e mem
    exact userCanSee_iff.2
      (opened t events answered e.eventId ((shown_takes answered).1 (List.mem_map_of_mem mem)))

end Paths

/-! ## A late join -/

def sampleMembersOnly : List Call :=
  [.ingest Ruma.sampleCreate false, .ingest Ruma.sampleJoin false,
    .ingest (Ruma.samplePdu "r" "m.room.join_rules" (some "") "@a:x" [("join_rule", .string "public")]
      ["$c", "$j"] ["$j"] 3) false,
    .ingest (Ruma.samplePdu "v" "m.room.history_visibility" (some "") "@a:x"
      [("history_visibility", .string "joined")] ["$c", "$j"] ["$r"] 4) false,
    .ingest (Ruma.samplePdu "m" "m.room.message" none "@a:x" [] ["$c", "$j"] ["$v"] 5) false,
    .ingest (Ruma.samplePdu "b" "m.room.member" (some "@b:x") "@b:x" [("membership", .string "join")]
      ["$c", "$r"] ["$m"] 6) false]

def sampleProjected (s : Store) (changes : List User.MembershipChange) : Shards :=
  { sampleHolding s with
    users := (User.Machine.applyRoomChanges User.Store.empty "room/0" s.seq changes).1 }

def sampleSync (user : UserId) (since : Option SyncPos) (now : SyncPos) : CsState.SyncRequest :=
  ⟨user, "D", since, now, .default, false, fun _ => false⟩

/-- The initial sync of the user who joined last has the message from before the join. -/
theorem late_joiner_syncs : ∃ s : Store,
    Runs (fun s cmd => Serial Ruma.sample s cmd ∧ True) Store.empty s ∧
    userCanSeeEvent s 9 "!r:x" "$m" "@b:x" = .ok false ∧
    ¬ sampleCsState.Guarded sampleUnreachable
      (sampleProjected s [⟨"@b:x", "!r:x", "join", "$b", "@b:x", 6⟩]) "@b:x" "!r:x"
      (.sync (sampleSync "@b:x" none ⟨[6], 1⟩)) := by
  obtain ⟨s, run, h⟩ := exists_run (fun _ _ => True) sampleMembersOnly
    (fun s : Store => (sampleCsState.shown sampleUnreachable
        (sampleProjected s [⟨"@b:x", "!r:x", "join", "$b", "@b:x", 6⟩]) "@b:x" "!r:x"
        (.sync (sampleSync "@b:x" none ⟨[6], 1⟩))).toOption.any
          (fun r : Shards × List ClientEvent => r.2.any (fun e => e.eventId = "$m") &&
            decide ((userCanSeeEvent (sampleCsState.forRoom r.1 "!r:x") 9 "!r:x" "$m" "@b:x").toOption =
              some false)) &&
      decide ((userCanSeeEvent s 9 "!r:x" "$m" "@b:x").toOption = some false))
    (by decide +kernel)
  simp only [Bool.and_eq_true, Option.any_eq_true, decide_eq_true_eq, List.any_eq_true] at h
  obtain ⟨⟨⟨t, events⟩, answered, ⟨e, mem, own⟩, hidden⟩, unseen⟩ := h
  rw [toOption_eq_some] at answered hidden unseen
  refine ⟨s, run, unseen, fun guarded => ?_⟩
  have seen := guarded t events answered e mem
  rw [own] at seen
  cases hidden.symm.trans seen

end Saltator.Client
