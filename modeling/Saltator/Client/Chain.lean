import Saltator.Client.Visibility

/-!
# Chains of syncs

A client syncs with the token of the last response. The positions of a response are taken before it is
put together, so what lands in between belongs to the next one. A member event of the user that is
recorded after the token makes a room start from the beginning. As long as that sends nothing again, and
no sync that has something to send has a limit of zero, the responses of a chain have every event of a
joined room once, or it can be paged back to (`chain_once`).
-/

namespace Saltator.Client

open Std
open Saltator.Outcome
open Room
open User (MembershipEntry)
open CsState (SyncRequest)

/-- No type of event is filtered out. -/
structure SyncFilter.Untyped (f : SyncFilter) : Prop where
  timeline : f.timelineTypes = none ∧ f.timelineNotTypes = []
  state : f.stateTypes = none ∧ f.stateNotTypes = []

theorem typeMatches_untyped (ty : String) : typeMatches none [] ty = true := rfl

/-- One sync: what it asked for, the store of the room's shard when the positions were taken, the
shards when the response was put together, and the response. -/
structure Synced where
  request : SyncRequest
  taken : Store
  w : Shards
  answer : List (RoomId × SyncedRoom)

/-! ## Chains -/

section

variable (cs : CsState) (P : Store → RoomCommand → Prop) (user : UserId) (room : RoomId)

namespace Synced

def store (y : Synced) : Store := cs.forRoom y.w room

def since (y : Synced) : Nat := y.request.after.roomAt (cs.shard room)
def now (y : Synced) : Nat := y.request.now.roomAt (cs.shard room)

def events (y : Synced) : List EventId := (roomTimelines y.answer room).map ClientEvent.eventId

structure Joined (y : Synced) : Prop where
  asks : y.request.user = user
  untyped : y.request.filter.Untyped
  positions : y.now cs room = y.taken.seq
  later : Runs P y.taken (y.store cs room)
  answered : cs.buildSync y.w y.request = .ok y.answer
  member : ∃ m : MembershipEntry, y.w.users.membership[(user, room)]? = some m ∧ m.membership = "join"

end Synced

def lastOf (first : Synced) (later : List Synced) : Synced := later.head?.getD first

/-- A sync and those that follow on it, the newest one first: each has the token of the one before. -/
inductive Chain (first : Synced) : List Synced → Prop
  | start (run : Runs P Store.empty first.taken) (joined : first.Joined cs P user room) : Chain first []
  | next {y : Synced} {later : List Synced} (chain : Chain first later)
      (token : y.request.since = some (lastOf first later).request.now)
      (run : Runs P ((lastOf first later).store cs room) y.taken) (joined : y.Joined cs P user room) :
      Chain first (y :: later)

/-- Pages backwards from a position come to a row. -/
inductive Reaches (s : Store) (limit : Option Nat) : PaginationBound → Nat × EventId → Prop
  | listed {b : PaginationBound} {r : Nat × EventId}
      (mem : timelineRow r ∈ CsState.backwardRows s room none
        ⟨.backward, limit, some (.timeline b), none, none, false⟩) : Reaches s limit b r
  | further {b : PaginationBound} {k : Nat} {r : Nat × EventId}
      (last : ((CsState.backwardRows s room none
        ⟨.backward, limit, some (.timeline b), none, none, false⟩).getLast?.map Prod.fst) =
          some (.timeline k))
      (reaches : Reaches s limit ⟨k, true, none⟩ r) : Reaches s limit b r

/-- The row is before the window of a response that says so, and can be paged back to from there. -/
def Synced.Skips (y : Synced) (r : Nat × EventId) : Prop :=
  ∃ u b, (room, SyncedRoom.joined u) ∈ y.answer ∧ u.limited = true ∧ u.prevBatch = some b ∧ r.1 < b.seq ∧
    ∀ limit, Reaches room (y.store cs room) limit b r

/-- Every event of the room after the first response is in exactly one of those that follow, or before
the window of one. -/
def DeliveredOnce (first : Synced) (later : List Synced) : Prop :=
  ∀ r : Nat × EventId, ((lastOf first later).store cs room).roomSeq[(room, r.1)]? = some r.2 →
    first.now cs room < r.1 → r.1 ≤ (lastOf first later).now cs room →
    later.countP (fun y => r.2 ∈ y.events room) = 1 ∨ ∃ y ∈ later, y.Skips cs room r

/-- Where a member event of the user was recorded after the token, the window from the beginning has
no event from between the first response and the token. And the limit leaves room for what there is to
send. -/
structure Synced.Steady (y first : Synced) : Prop where
  fresh : ∀ m : MembershipEntry, y.w.users.membership[(user, room)]? = some m →
    y.request.after.user < m.seq → ∀ r ∈ (newestWindow (y.store cs room) room 0 (y.now cs room)
      y.request.filter.limit).rows, r.1 ≤ first.now cs room ∨ y.since cs room < r.1
  wide : y.request.filter.limit ≠ 0 ∨ ∀ (n : Nat) (id : EventId), y.since cs room < n →
    n ≤ y.now cs room → (y.store cs room).roomSeq[(room, n)]? ≠ some id

end

/-! ## One response -/

section Response

variable {cs : CsState} {P : Store → RoomCommand → Prop} {user : UserId} {room : RoomId} {y : Synced}
  {first : Synced} {id : EventId} {n : Nat} {s : Store}

theorem reaches_row {limit : Option Nat} {r : Nat × EventId}
    (row : s.roomSeq[(room, r.1)]? = some r.2) (positive : 0 < r.1) (b : PaginationBound)
    (anchored : b.atEvent = true) (older : r.1 < b.seq) : Reaches room s limit b r := by
  obtain ⟨seq, atEvent, stream⟩ := b
  induction seq using Nat.strong_induction_on generalizing atEvent stream with
  | _ seq ih =>
    dsimp only at anchored older
    subst anchored
    let q : MessagesQuery := ⟨.backward, limit, some (.timeline ⟨seq, true, stream⟩), none, none, false⟩
    have page : CsState.backwardRows s room none q =
        (scan s.roomSeq room 0 (some (seq - 1)) q.size true).map timelineRow := rfl
    have inReach : r ∈ scanned s.roomSeq room 0 (some (seq - 1)) :=
      mem_scanned.2 ⟨row, positive, fun k same => by rw [← Option.some.inj same]; omega⟩
    rcases scan_newest q.size inReach with mem | ⟨full, past⟩
    · exact .listed (page ▸ List.mem_map_of_mem mem)
    · have wide : 0 < q.size := Nat.lt_of_lt_of_le Nat.zero_lt_one (Nat.le_max_left ..)
      have filled : scan s.roomSeq room 0 (some (seq - 1)) q.size true ≠ [] := by
        intro none
        rw [none] at full
        exact wide.ne full
      have mem := List.getLast_mem filled
      obtain ⟨-, -, below⟩ := mem_scan mem
      refine .further (k := (List.getLast _ filled).1) ?_ (ih _ ?_ true none rfl (past _ mem))
      · rw [page, List.getLast?_map, List.getLast?_eq_some_getLast filled]
        rfl
      · have := below _ rfl
        omega

theorem Synced.Joined.built (joined : y.Joined cs P user room) :
    ∃ (m : MembershipEntry) (u : Option SyncedRoom) (update : RoomUpdate),
      y.w.users.membership[(user, room)]? = some m ∧ cs.syncRoom y.w y.request room m = .ok u ∧
      (u = some (.joined update) ∨ u = none ∧ update.timeline = [] ∧ update.state = []) ∧
      cs.buildJoinedRoom (y.store cs room) room user y.request.device
        (if y.request.roomInitial m then 0 else y.since cs room) (y.now cs room) y.request.filter
        y.request.fullState (y.request.roomInitial m) = .ok update := by
  obtain ⟨m, member, inRoom⟩ := joined.member
  have asked := member
  rw [← joined.asks] at asked
  obtain ⟨u, built⟩ := syncRoom_of_buildSync joined.answered asked
  obtain ⟨update, made, sent⟩ := syncRoom_joined inRoom built
  rw [joined.asks] at made
  exact ⟨m, u, update, member, built, sent.imp id fun quiet => ⟨quiet.1, quiet.2.2⟩, made⟩

theorem Synced.Joined.window (joined : y.Joined cs P user room) (token : y.request.since.isSome) :
    ∃ (m : MembershipEntry) (initial : Bool) (u : Option SyncedRoom) (update : RoomUpdate),
      y.w.users.membership[(user, room)]? = some m ∧ initial = decide (y.request.after.user < m.seq) ∧
      (∀ id, id ∈ y.events room ↔ id ∈ update.timeline.map ClientEvent.eventId) ∧
      (u = some (.joined update) ∧ (room, .joined update) ∈ y.answer ∨ u = none ∧ update.timeline = []) ∧
      cs.buildJoinedRoom (y.store cs room) room user y.request.device
        (if initial then 0 else y.since cs room) (y.now cs room) y.request.filter y.request.fullState
        initial = .ok update := by
  obtain ⟨m, u, update, member, built, sent, made⟩ := joined.built
  have initial : y.request.roomInitial m = decide (y.request.after.user < m.seq) := by
    obtain ⟨since, given⟩ := Option.isSome_iff_exists.1 token
    simp only [SyncRequest.roomInitial, given, Option.isNone_some, Bool.false_or]
  have asked := member
  rw [← joined.asks] at asked
  rw [initial] at made
  have listed (id : EventId) : id ∈ y.events room ↔ id ∈ update.timeline.map ClientEvent.eventId := by
    have same : timelineOf u = update.timeline := by
      rcases sent with rfl | ⟨rfl, empty, -⟩
      · rfl
      · exact empty.symm
    simp only [Synced.events, List.mem_map, mem_roomTimelines joined.answered asked built, same]
  refine ⟨m, _, u, update, member, rfl, listed, sent.imp (fun shown => ⟨shown, ?_⟩)
    fun quiet => ⟨quiet.1, quiet.2.1⟩, made⟩
  exact (mem_buildSync joined.answered).2 ⟨m, asked, shown ▸ built⟩

/-- What the shard of a room guarantees of its order. -/
structure Sound (s : Store) : Prop where
  ordered : InOrder s
  gaps : GapsPlaced s
  accepted : PlacedAccepted s

theorem run_sound (run : Runs P Store.empty s) : Sound s :=
  ⟨run_inOrder run, run_gapsPlaced run, run_placedAccepted run⟩

theorem Sound.row (h : Sound s) (row : s.roomSeq[(room, n)]? = some id) :
    0 < n ∧ (∃ m, s.room[room]? = some m) ∧ ∃ stored, s.event[id]? = some stored ∧
      stored.rejected = none := by
  obtain ⟨positive, -, known, on⟩ := h.ordered.row room n id row
  obtain ⟨stored, held, placed⟩ := Store.onTimeline_iff.1 on
  exact ⟨positive, known, stored, held, h.accepted id stored held placed⟩

theorem mem_timeline (sound : Sound s) {version : RoomVersion} {device : User.DeviceId}
    {filter : SyncFilter} (untyped : filter.Untyped) {rows : List (Nat × EventId)}
    (listed : ∀ r ∈ rows, s.roomSeq[(room, r.1)]? = some r.2) {events : List ClientEvent}
    (h : cs.timelineEvents s room version user device filter rows = .ok events) :
    id ∈ events.map ClientEvent.eventId ↔ id ∈ rows.map Prod.snd := by
  rw [List.mem_map]
  constructor
  · rintro ⟨e, mem, rfl⟩
    obtain ⟨ev, row, -, -, rfl⟩ := (mem_timelineEvents h).1 mem
    rw [stampEcho_eventId]
    exact row
  · intro mem
    obtain ⟨r, row, rfl⟩ := List.mem_map.1 mem
    obtain ⟨-, -, stored, held, accepted⟩ := sound.row (listed r row)
    obtain ⟨all, served, -⟩ := bind_eq_ok.1 h
    obtain ⟨found, each, -⟩ := bind_eq_ok.1 served
    obtain ⟨own, made⟩ := ok_of_mapM each mem
    obtain ⟨e, rfl⟩ := clientEvent_accepted held accepted made
    obtain same := clientEvent_id made
    refine ⟨_, (mem_timelineEvents h).2 ⟨e, same ▸ mem, same ▸ made, ?_, rfl⟩, stampEcho_eventId.trans same⟩
    rw [untyped.timeline.1, untyped.timeline.2]
    exact typeMatches_untyped _

/-- A response has events of its span, and otherwise none from after the first response. And an event
of the span is in it, or before its window. -/
theorem Synced.Joined.delivers (joined : y.Joined cs P user room) (token : y.request.since.isSome)
    (steady : y.Steady cs user room first) (sound : Sound (y.store cs room)) :
    (∀ id ∈ y.events room, ∃ n, (y.store cs room).roomSeq[(room, n)]? = some id ∧
      (n ≤ first.now cs room ∨ y.since cs room < n) ∧ n ≤ y.now cs room) ∧
    ∀ n id, (y.store cs room).roomSeq[(room, n)]? = some id → y.since cs room < n →
      n ≤ y.now cs room → id ∈ y.events room ∨ y.Skips cs room (n, id) := by
  obtain ⟨m, initial, u, update, member, replayed, listed, sent, made⟩ := joined.window token
  cases known : (y.store cs room).room[room]? with
  | none =>
    simp only [CsState.buildJoinedRoom, known, Except.ok.injEq] at made
    subst made
    refine ⟨fun id mem => absurd ((listed id).1 mem) List.not_mem_nil, fun n id row _ _ => ?_⟩
    obtain ⟨-, ⟨m, held⟩, -⟩ := sound.row row
    simp [known] at held
  | some roomMeta =>
    obtain ⟨version, -, -, -, timeline, -, -, -, limited, prevBatch⟩ := buildJoinedRoom_known known made
    generalize begins : (if initial then 0 else y.since cs room) = start at timeline limited prevBatch
    have start_le : start ≤ y.since cs room := by
      rw [← begins]
      split <;> omega
    have inWindow (id : EventId) : id ∈ y.events room ↔ id ∈ (joinedWindow (y.store cs room) roomMeta
        room start (y.now cs room) y.request.filter.limit initial).rows.map Prod.snd :=
      (listed id).trans (mem_timeline sound joined.untyped (fun r mem => (mem_joinedWindow mem).1) timeline)
    constructor
    · intro id mem
      obtain ⟨r, row, rfl⟩ := List.mem_map.1 ((inWindow id).1 mem)
      obtain ⟨held, above, below⟩ := mem_joinedWindow row
      refine ⟨r.1, held, ?_, below⟩
      cases initial with
      | false =>
        obtain rfl : y.since cs room = start := begins
        exact .inr above
      | true =>
        obtain rfl : 0 = start := begins
        exact steady.fresh m member (of_decide_eq_true replayed.symm) r row
    · intro n id row above below
      have wide := steady.wide.resolve_right fun quiet => quiet n id above below row
      have placed := fun gap => sound.gaps room roomMeta gap known
      rcases joinedWindow_missed initial placed wide row (start_le.trans_lt above) below with mem |
        ⟨marked, filled, older⟩
      · exact .inl ((inWindow id).2 (List.mem_map_of_mem mem))
      · right
        obtain ⟨oldest, rest, opening⟩ := List.exists_cons_of_ne_nil filled
        have head := older oldest (opening ▸ List.mem_cons_self)
        have shown : (room, SyncedRoom.joined update) ∈ y.answer := by
          rcases sent with ⟨-, shown⟩ | ⟨-, empty⟩
          · exact shown
          · have mem := (inWindow oldest.2).2 (List.mem_map_of_mem (opening ▸ List.mem_cons_self))
            rw [listed, empty] at mem
            cases mem
        refine ⟨update, ⟨oldest.1, true, some (y.now cs room)⟩, shown, limited.trans marked, ?_, head,
          fun limit => reaches_row row (sound.row row).1 _ rfl head⟩
        rw [prevBatch, SyncWindow.prevBatch, opening]
        rfl

end Response

/-! ## A whole chain -/

section Chains

variable {cs : CsState} {P : Store → RoomCommand → Prop} {user : UserId} {room : RoomId}
  {first : Synced} {later : List Synced}

theorem Chain.joined (chain : Chain cs P user room first later) :
    (lastOf first later).Joined cs P user room := by
  cases chain with
  | start _ joined => exact joined
  | next _ _ _ joined => exact joined

theorem Chain.run (chain : Chain cs P user room first later) :
    Runs P Store.empty ((lastOf first later).store cs room) := by
  induction chain with
  | start run joined => exact run.trans joined.later
  | next _ _ run joined ih => exact (ih.trans run).trans joined.later

theorem Chain.now_le (chain : Chain cs P user room first later) :
    (lastOf first later).now cs room ≤ ((lastOf first later).store cs room).seq := by
  have joined := chain.joined
  exact joined.positions.trans_le (run_kept joined.later).seq

/-- What a chain has sent, against the rows of the room. -/
structure Sent (cs : CsState) (room : RoomId) (first : Synced) (later : List Synced) : Prop where
  forward : first.now cs room ≤ (lastOf first later).now cs room
  named : ∀ y ∈ later, ∀ id ∈ y.events room,
    ∃ n, ((lastOf first later).store cs room).roomSeq[(room, n)]? = some id ∧
      n ≤ (lastOf first later).now cs room
  once : DeliveredOnce cs room first later

theorem Chain.sent (chain : Chain cs P user room first later)
    (steady : ∀ y ∈ later, y.Steady cs user room first) : Sent cs room first later := by
  induction chain with
  | start run joined =>
    refine ⟨le_rfl, fun y mem => absurd mem List.not_mem_nil, fun r _ above below => ?_⟩
    exact absurd (above.trans_le below) (Nat.lt_irrefl _)
  | @next y later chain token run joined ih =>
    obtain ⟨forward, named, once⟩ := ih fun x mem => steady x (List.mem_cons_of_mem _ mem)
    have sound : Sound (y.store cs room) := run_sound ((chain.run.trans run).trans joined.later)
    have kept : Kept ((lastOf first later).store cs room) (y.store cs room) :=
      (run_kept run).trans (run_kept joined.later)
    have since : y.since cs room = (lastOf first later).now cs room := by
      simp only [Synced.since, SyncRequest.after, token, Option.getD_some]
      rfl
    have onward : (lastOf first later).now cs room ≤ y.now cs room :=
      (chain.now_le.trans (run_kept run).seq).trans joined.positions.ge
    obtain ⟨within, covers⟩ := joined.delivers (by rw [token]; rfl) (steady y List.mem_cons_self) sound
    rw [since] at within covers
    -- The rows of the earlier responses are rows still, at positions before those of this one.
    have old : ∀ x ∈ later, ∀ id ∈ x.events room,
        ∃ n, (y.store cs room).roomSeq[(room, n)]? = some id ∧ n ≤ (lastOf first later).now cs room := by
      intro x mem id shown
      obtain ⟨n, row, below⟩ := named x mem id shown
      exact ⟨n, (kept.rows room n (below.trans chain.now_le)).trans row, below⟩
    refine ⟨forward.trans onward, ?_, ?_⟩
    · intro x mem id shown
      rcases List.mem_cons.1 mem with rfl | mem
      · obtain ⟨n, row, -, below⟩ := within id shown
        exact ⟨n, row, below⟩
      · obtain ⟨n, row, below⟩ := old x mem id shown
        exact ⟨n, row, below.trans onward⟩
    · rintro ⟨n, id⟩ row above below
      change (y.store cs room).roomSeq[(room, n)]? = some id at row
      change n ≤ y.now cs room at below
      by_cases earlier : n ≤ (lastOf first later).now cs room
      · -- The event was due before, and this response does not have it.
        have row' := (kept.rows room n (earlier.trans chain.now_le)).symm.trans row
        have absent : id ∉ y.events room := by
          intro shown
          obtain ⟨m, row'', outside, -⟩ := within id shown
          have := sound.ordered.once room n m id row row''
          change first.now cs room < n at above
          omega
        rcases once (n, id) row' above earlier with one | ⟨x, mem, skips⟩
        · exact .inl (by rw [List.countP_cons, one, if_neg (by simpa using absent)])
        · exact .inr ⟨x, List.mem_cons_of_mem _ mem, skips⟩
      · -- No earlier response has it.
        have absent : later.countP (fun x => id ∈ x.events room) = 0 := by
          rw [List.countP_eq_zero]
          intro x mem shown
          obtain ⟨m, row', before⟩ := old x mem id (of_decide_eq_true shown)
          have := sound.ordered.once room n m id row row'
          omega
        rcases covers n id row (Nat.lt_of_not_le earlier) below with shown | skips
        · exact .inl (by rw [List.countP_cons, absent, if_pos (decide_eq_true shown)])
        · exact .inr ⟨y, List.mem_cons_self, skips⟩

/-- In a chain whose responses are steady, every event of the room is in exactly one response, or before
the window of one. -/
theorem chain_once (chain : Chain cs P user room first later)
    (steady : ∀ y ∈ later, y.Steady cs user room first) : DeliveredOnce cs room first later :=
  (chain.sent steady).once

end Chains

/-! ## Two chains -/

section Samples

def sampleSynced (s : Store) (changes : List User.MembershipChange) (since : Option SyncPos)
    (now : SyncPos) (answer : List (RoomId × SyncedRoom)) : Synced :=
  ⟨sampleSync "@a:x" since now, s, sampleProjected s changes, answer⟩

def sampleJoining : User.MembershipChange := ⟨"@a:x", "!r:x", "join", "$j", "@a:x", 2⟩

def sampleMessage : JsonObject :=
  Ruma.samplePdu "m" "m.room.message" none "@a:x" [] ["$c", "$j"] ["$j"] 3

def sampleRename : JsonObject :=
  Ruma.samplePdu "p" "m.room.member" (some "@a:x") "@a:x"
    [("displayname", .string "A"), ("membership", .string "join")] ["$c", "$j"] ["$m"] 4

def sampleAnswers (s : Store) (changes : List User.MembershipChange) (since : Option SyncPos)
    (now : SyncPos) (seq : Nat) (ids : List EventId) (limited : Bool) : Bool :=
  decide (now.roomAt 0 = s.seq) &&
    (sampleProjected s changes).users.membership[("@a:x", "!r:x")]?.any (fun m =>
      decide (m.membership = "join") && decide (m.seq = seq)) &&
    (sampleCsState.buildSync (sampleProjected s changes) (sampleSync "@a:x" since now)).toOption.any
      fun answer => decide ((roomTimelines answer "!r:x").map ClientEvent.eventId = ids) &&
        answer.all fun r => decide (r.2.update.limited = limited)

theorem sample_synced {P : Store → RoomCommand → Prop} {s : Store}
    {changes : List User.MembershipChange} {since : Option SyncPos} {now : SyncPos} {seq : Nat}
    {ids : List EventId} {limited : Bool}
    (h : sampleAnswers s changes since now seq ids limited = true) :
    ∃ answer, (sampleSynced s changes since now answer).Joined sampleCsState P "@a:x" "!r:x" ∧
      (sampleSynced s changes since now answer).events "!r:x" = ids ∧
      (∀ r ∈ answer, r.2.update.limited = limited) ∧
      ∀ m, (sampleProjected s changes).users.membership[("@a:x", "!r:x")]? = some m → m.seq = seq := by
  simp only [sampleAnswers, Bool.and_eq_true, Option.any_eq_true, decide_eq_true_eq, List.all_eq_true] at h
  obtain ⟨⟨positions, m, member, joined, recorded⟩, answer, answered, shown, full⟩ := h
  rw [toOption_eq_some] at answered
  refine ⟨answer, ⟨rfl, ⟨⟨rfl, rfl⟩, rfl, rfl⟩, positions, .refl, answered, m, member, joined⟩, shown,
    full, fun m' member' => ?_⟩
  obtain rfl := some_unique member member'
  exact recorded

theorem chain_once_sample : ∃ first y : Synced,
    Chain sampleCsState (fun s cmd => Serial Ruma.sample s cmd ∧ True) "@a:x" "!r:x" first [y] ∧
    y.events "!r:x" = ["$m"] ∧ DeliveredOnce sampleCsState "!r:x" first [y] := by
  obtain ⟨s, run, h⟩ := exists_run (fun _ _ => True)
    [.ingest Ruma.sampleCreate false, .ingest Ruma.sampleJoin false]
    (fun s : Store => sampleAnswers s [sampleJoining] none ⟨[2], 1⟩ 1 ["$c", "$j"] false &&
      ((Server.sample ["x"]).serveAll (fun _ _ => True) 9 s [.ingest sampleMessage false]).any
        fun t : Store => sampleAnswers t [sampleJoining] (some ⟨[2], 1⟩) ⟨[3], 1⟩ 1 ["$m"] false)
    (by decide +kernel)
  rw [Bool.and_eq_true, Option.any_eq_true] at h
  obtain ⟨h, t, served, h'⟩ := h
  obtain ⟨answer, joined, -⟩ := sample_synced h
  obtain ⟨answer', joined', shown, -, recorded⟩ := sample_synced h'
  have chain := Chain.next (.start run joined) rfl (serveAll_runs served) joined'
  refine ⟨_, _, chain, shown, chain_once chain fun y mem => ?_⟩
  obtain rfl := List.mem_singleton.1 mem
  refine ⟨fun m member late => ?_, .inl (Nat.succ_ne_zero 9)⟩
  rw [recorded m member] at late
  exact absurd late (Nat.lt_irrefl 1)

/-- A change of name replays the room: the message is in two responses, and neither is limited. -/
theorem renamed_replays : ∃ first y z : Synced,
    Chain sampleCsState (fun s cmd => Serial Ruma.sample s cmd ∧ True) "@a:x" "!r:x" first [z, y] ∧
    ¬ DeliveredOnce sampleCsState "!r:x" first [z, y] := by
  obtain ⟨s, run, h⟩ := exists_run (fun _ _ => True)
    [.ingest Ruma.sampleCreate false, .ingest Ruma.sampleJoin false]
    (fun s : Store => sampleAnswers s [sampleJoining] none ⟨[2], 1⟩ 1 ["$c", "$j"] false &&
      ((Server.sample ["x"]).serveAll (fun _ _ => True) 9 s [.ingest sampleMessage false]).any
        fun t : Store => sampleAnswers t [sampleJoining] (some ⟨[2], 1⟩) ⟨[3], 1⟩ 1 ["$m"] false &&
          ((Server.sample ["x"]).serveAll (fun _ _ => True) 9 t [.ingest sampleRename false]).any
            fun u : Store => sampleAnswers u
                [sampleJoining, ⟨"@a:x", "!r:x", "join", "$p", "@a:x", 4⟩] (some ⟨[3], 1⟩) ⟨[4], 2⟩ 2
                ["$c", "$j", "$m", "$p"] false &&
              decide (u.roomSeq[("!r:x", 3)]? = some "$m"))
    (by decide +kernel)
  simp only [Bool.and_eq_true, Option.any_eq_true, decide_eq_true_eq] at h
  obtain ⟨h, t, served, h', u, served', h'', row⟩ := h
  obtain ⟨answer, joined, -⟩ := sample_synced h
  obtain ⟨answer', joined', shown, full, -⟩ := sample_synced h'
  obtain ⟨answer'', joined'', shown', full', -⟩ := sample_synced h''
  have chain := Chain.next (.start run joined) rfl (serveAll_runs served) joined'
  have chain' := Chain.next chain rfl (serveAll_runs served') joined''
  refine ⟨_, _, _, chain', fun once => ?_⟩
  have after : (2 : Nat) < 3 := by decide
  have upto : (3 : Nat) ≤ 4 := by decide
  rcases once (3, "$m") row after upto with one | ⟨y, mem, r, b, sent, limited, -⟩
  · simp only [List.countP_cons, List.countP_nil, shown, shown'] at one
    exact absurd one (by decide)
  · simp only [List.mem_cons, List.not_mem_nil, or_false] at mem
    rcases mem with rfl | rfl
    · cases limited.symm.trans (full' _ sent)
    · cases limited.symm.trans (full _ sent)

end Samples

end Saltator.Client
