import Saltator.Client.Reads

/-!
# Sync

What a sync sends of the rooms of a user: a window of the room's order past the since token, with the
newest events where there are too many, and what the state before the window has other than the client.
The membership index decides which rooms are sent, and from where on.
-/

namespace Saltator.Client

open Std
open Saltator.Outcome
open Room
open StateRes (Key StateIds)
open User (MembershipEntry DeviceId)

/-! ## Positions and filters -/

/-- The positions of the shards that back a response, one for each room shard. -/
structure SyncPos where
  room : List Nat
  user : Nat
  deriving DecidableEq

namespace SyncPos

def start : SyncPos := ⟨[], 0⟩

/-- A short vector reads as the beginning. -/
def roomAt (p : SyncPos) (idx : UInt16) : Nat := p.room.getD idx.toNat 0

end SyncPos

/-- What follows the first occurrence of a segment. -/
def findAfter (seg : List Char) : List Char → Option (List Char)
  | [] => if seg = [] then some [] else none
  | c :: rest =>
    if seg.isPrefixOf (c :: rest) then some ((c :: rest).drop seg.length) else findAfter seg rest

/-- The segments of a pattern one behind the other, the last of them at the end. -/
def globRest : List (List Char) → List Char → Bool
  | [], _ => true
  | [last], text => last.isSuffixOf text
  | seg :: segs, text =>
    match findAfter seg text with
    | none => false
    | some rest => globRest segs rest

/-- `*` stands for any characters. -/
def glob (pat text : String) : Bool :=
  if '*' ∉ pat.toList then pat = text
  else
    match pat.toList.splitOn '*' with
    | [] => false
    | first :: segs => first.isPrefixOf text.toList && globRest segs (text.toList.drop first.length)

def typeMatches (types : Option (List String)) (notTypes : List String) (ty : String) : Bool :=
  !notTypes.any (glob · ty) && types.all fun allow => allow.any (glob · ty)

structure SyncFilter where
  limit : Nat
  lazyMembers : Bool
  includeLeave : Bool
  timelineTypes : Option (List String)
  timelineNotTypes : List String
  stateTypes : Option (List String)
  stateNotTypes : List String

def SyncFilter.default : SyncFilter := ⟨10, false, false, none, [], none, []⟩

/-! ## One room -/

structure RoomUpdate where
  limited : Bool
  prevBatch : Option PaginationBound
  timeline : List ClientEvent
  state : List ClientEvent

/-- A joined room or one that was left. Invites and knocks come without a timeline. -/
inductive SyncedRoom where
  | joined (update : RoomUpdate)
  | left (update : RoomUpdate)

def SyncedRoom.update : SyncedRoom → RoomUpdate
  | joined update => update
  | left update => update

def timelineOf (u : Option SyncedRoom) : List ClientEvent :=
  (u.map fun u => u.update.timeline).getD []

/-- The rows that a timeline is made of, oldest first. -/
structure SyncWindow where
  rows : List (Nat × EventId)
  limited : Bool

def newestWindow (s : Store) (room : RoomId) (since upto limit : Nat) : SyncWindow :=
  let newest := roomTimeline s room since (some upto) (limit + 1) true
  ⟨(newest.take limit).reverse, limit < newest.length⟩

def newestGap (roomMeta : RoomMeta) (since upto : Nat) : Option Nat :=
  (roomMeta.gapMarkers.filter fun gap => since < gap && gap ≤ upto).max?

/-- The window of a joined room. Rows before a gap do not follow what the client has, and are left for
it to page back to. -/
def joinedWindow (s : Store) (roomMeta : RoomMeta) (room : RoomId) (since upto limit : Nat)
    (initial : Bool) : SyncWindow :=
  let win := newestWindow s room since upto limit
  match if initial then none else newestGap roomMeta since upto with
  | none => win
  | some gap => ⟨win.rows.filter fun r => gap ≤ r.1, true⟩

/-- The first row's position, with the one that the response was made at. -/
def SyncWindow.prevBatch (win : SyncWindow) (upto : Nat) : Option PaginationBound :=
  win.rows.head?.map fun r => ⟨r.1, true, some upto⟩

def stampEcho (s : Store) (user : UserId) (device : DeviceId) (ev : ClientEvent) : ClientEvent :=
  if strProp ev.body "sender" ≠ some user then ev
  else
    match s.txnEcho[ev.eventId]? with
    | none => ev
    | some (sender, sentBy, txn) =>
      if sender = user ∧ sentBy = device then
        { ev with body := insertUnsigned "transaction_id" (.string txn) ev.body }
      else ev

/-- The entries that the base has otherwise. -/
def stateDelta (start base : StateIds) (selected : Key → Bool) : List EventId :=
  (start.toList.filter fun r => base[r.1]? ≠ some r.2 && selected r.1).map Prod.snd

namespace CsState

variable (cs : CsState)

def timelineEvents (s : Store) (room : RoomId) (version : RoomVersion) (user : UserId)
    (device : DeviceId) (filter : SyncFilter) (rows : List (Nat × EventId)) :
    Except ApiError (List ClientEvent) := do
  let events ← clientEvents s cs.fuel room cs.ruma version user (rows.map Prod.snd)
  return (events.filter fun ev => typeMatches filter.timelineTypes filter.timelineNotTypes
    ((strProp ev.body "type").getD "")).map (stampEcho s user device)

/-- The state before a window, and with no rows the state at its end. Where nothing precedes the first
row, the room came with it: its state is the one after that event, without the event. -/
def timelineStart (s : Store) (room : RoomId) (rows : List (Nat × EventId)) (upto : Nat) :
    Except ApiError StateIds :=
  match rows.head? with
  | none => stateAtSeq s cs.fuel room upto
  | some (first, id) => do
    let atStart ← stateAtSeq s cs.fuel room (first - 1)
    match if atStart.isEmpty then s.event[id]? else none with
    | none => return atStart
    | some stored =>
      return (← resolveGroup s cs.fuel room stored.stateGroupAfter).filter fun _ entry => entry ≠ id

def baseState (s : Store) (room : RoomId) (since : Nat) (fresh : Bool) : Except ApiError StateIds :=
  if fresh then .ok ∅ else stateAtSeq s cs.fuel room since

def stateSelected (filter : SyncFilter) (timeline : List ClientEvent) (key : Key) : Bool :=
  typeMatches filter.stateTypes filter.stateNotTypes key.1 &&
    !(filter.lazyMembers && key.1 = "m.room.member" &&
      key.2 ∉ timeline.filterMap fun ev => strProp ev.body "sender")

def buildJoinedRoom (s : Store) (room : RoomId) (user : UserId) (device : DeviceId)
    (since now : Nat) (filter : SyncFilter) (fullState initial : Bool) : Except ApiError RoomUpdate :=
  match s.room[room]? with
  | none => .ok ⟨false, none, [], []⟩
  | some roomMeta => do
    let version ← roomVersion roomMeta
    let win := joinedWindow s roomMeta room since now filter.limit initial
    let timeline ← cs.timelineEvents s room version user device filter win.rows
    let start ← cs.timelineStart s room win.rows now
    let base ← cs.baseState s room since (initial || fullState)
    let state ← clientEvents s cs.fuel room cs.ruma version user
      (stateDelta start base (stateSelected filter timeline))
    return ⟨win.limited, win.prevBatch now, timeline, state⟩

def departure (room : RoomId) (user : UserId) (m : MembershipEntry) : ClientEvent where
  eventId := m.eventId
  body := [("content", .object [("membership", .string m.membership)]),
    ("event_id", .string m.eventId), ("origin_server_ts", .integer 0), ("room_id", .string room),
    ("sender", .string m.sender), ("state_key", .string user), ("type", .string "m.room.member")]

def buildLeftRoom (s : Store) (room : RoomId) (user : UserId) (device : DeviceId) (m : MembershipEntry)
    (since now : Nat) (filter : SyncFilter) (fresh : Bool) : Except ApiError RoomUpdate :=
  match s.room[room]? with
  | none => .ok ⟨false, none, [departure room user m], []⟩
  | some roomMeta => do
    let version ← roomVersion roomMeta
    let ceiling := min m.roomSeq now
    let win := newestWindow s room (if fresh then 0 else since) ceiling filter.limit
    let timeline ← cs.timelineEvents s room version user device filter win.rows
    let start ← stateAtSeq s cs.fuel room ((win.rows.head?.map fun r => r.1 - 1).getD ceiling)
    let base ← cs.baseState s room since fresh
    let state ← clientEvents s cs.fuel room cs.ruma version user (stateDelta start base fun key =>
      typeMatches filter.stateTypes filter.stateNotTypes key.1)
    return ⟨win.limited, win.prevBatch ceiling, timeline, state⟩

/-! ## All rooms -/

/-- A sync of a user's device. `ephemeral` tells the rooms that have receipts or typing to send. -/
structure SyncRequest where
  user : UserId
  device : DeviceId
  since : Option SyncPos
  now : SyncPos
  filter : SyncFilter
  fullState : Bool
  ephemeral : RoomId → Bool

namespace SyncRequest

def after (r : SyncRequest) : SyncPos := r.since.getD .start

def roomInitial (r : SyncRequest) (m : MembershipEntry) : Bool :=
  r.since.isNone || r.after.user < m.seq

/-- Whether a room that was left is sent: newly left, or on a fresh start where the user did not leave
of their own accord or wants to see those as well. -/
def sendsLeft (r : SyncRequest) (m : MembershipEntry) : Bool :=
  (r.since.isSome && r.after.user < m.seq) || (!m.forgotten && (r.since.isNone || r.fullState) &&
      (r.filter.includeLeave || m.membership = "ban" || m.sender ≠ r.user))

end SyncRequest

def hasAccountData (w : Shards) (r : SyncRequest) (room : RoomId) (initial : Bool) : Bool :=
  (w.users.accountData.rows fun k => k.1 = r.user ∧ k.2.1 = room).any fun row =>
    initial || r.after.user < row.2.seq

def syncRoom (w : Shards) (r : SyncRequest) (room : RoomId) (m : MembershipEntry) :
    Except ApiError (Option SyncedRoom) :=
  let s := cs.forRoom w room
  let now := r.now.roomAt (cs.shard room)
  if m.membership = "join" then do
    let initial := r.roomInitial m
    let since := if initial then 0 else r.after.roomAt (cs.shard room)
    let update ← cs.buildJoinedRoom s room r.user r.device since now r.filter r.fullState initial
    if !initial && update.timeline.isEmpty && update.state.isEmpty && !r.ephemeral room &&
        !hasAccountData w r room initial then
      return none
    else return some (.joined update)
  else if (m.membership = "leave" ∨ m.membership = "ban") ∧ r.sendsLeft m then do
    return some (.left (← cs.buildLeftRoom s room r.user r.device m (r.after.roomAt (cs.shard room)) now
      r.filter (r.since.isNone || r.fullState)))
  else .ok none

def buildSync (w : Shards) (r : SyncRequest) : Except ApiError (List (RoomId × SyncedRoom)) := do
  let rooms ← (w.users.membership.rows fun k => k.1 = r.user).mapM fun row => do
    return (← cs.syncRoom w r row.1.2 row.2).map fun room => (row.1.2, room)
  return rooms.reduceOption

end CsState

/-! ## Windows -/

section Windows

variable {s : Store} {room : RoomId} {roomMeta : RoomMeta} {since upto limit n : Nat}
  {initial : Bool} {id : EventId} {r : Nat × EventId}

theorem mem_newestWindow (h : r ∈ (newestWindow s room since upto limit).rows) :
    s.roomSeq[(room, r.1)]? = some r.2 ∧ since < r.1 ∧ r.1 ≤ upto := by
  obtain ⟨row, above, below⟩ := mem_scan (List.mem_of_mem_take (List.mem_reverse.1 h))
  exact ⟨row, above, below upto rfl⟩

theorem newestWindow_missed (limit : Nat) (row : s.roomSeq[(room, n)]? = some id) (above : since < n) (below : n ≤ upto) :
    (n, id) ∈ (newestWindow s room since upto limit).rows ∨
      (newestWindow s room since upto limit).limited = true ∧
        (newestWindow s room since upto limit).rows.length = limit ∧
        ∀ r ∈ (newestWindow s room since upto limit).rows, n < r.1 := by
  have inReach : (n, id) ∈ scanned s.roomSeq room since (some upto) :=
    mem_scanned.2 ⟨row, above, fun k same => by rwa [← Option.some.inj same]⟩
  have short : (roomTimeline s room since (some upto) (limit + 1) true).take limit =
      scan s.roomSeq room since (some upto) limit true := by
    simp only [roomTimeline, scan, List.take_take, Nat.min_eq_left (Nat.le_succ limit)]
  rcases scan_newest limit inReach with mem | ⟨full, older⟩
  · left
    rw [newestWindow, short, List.mem_reverse]
    exact mem
  · right
    have more : limit < (roomTimeline s room since (some upto) (limit + 1) true).length := by
      rcases scan_newest (limit + 1) inReach with mem | ⟨full', -⟩
      · by_contra few
        have all := List.take_of_length_le (Nat.not_lt.1 few)
        rw [short] at all
        exact absurd (older (n, id) (all ▸ mem)) (Nat.lt_irrefl n)
      · exact (Nat.lt_succ_self limit).trans_eq full'.symm
    refine ⟨decide_eq_true more, ?_, fun r mem => ?_⟩
    · rw [newestWindow, short, List.length_reverse, full]
    · rw [newestWindow, short, List.mem_reverse] at mem
      exact older r mem

theorem newestGap_mem {gap : Nat} (h : newestGap roomMeta since upto = some gap) :
    gap ∈ roomMeta.gapMarkers ∧ since < gap ∧ gap ≤ upto := by
  obtain ⟨mem, between⟩ := List.mem_filter.1 (List.max?_mem h)
  simpa [mem] using between

theorem joinedWindow_cases (s : Store) (roomMeta : RoomMeta) (room : RoomId)
    (since upto limit : Nat) (initial : Bool) :
    (joinedWindow s roomMeta room since upto limit initial = newestWindow s room since upto limit) ∨
      ∃ gap, initial = false ∧ newestGap roomMeta since upto = some gap ∧
        joinedWindow s roomMeta room since upto limit initial =
          ⟨(newestWindow s room since upto limit).rows.filter fun r => gap ≤ r.1, true⟩ := by
  unfold joinedWindow
  cases initial with
  | true => exact .inl rfl
  | false =>
    cases newest : newestGap roomMeta since upto with
    | none => exact .inl rfl
    | some gap => exact .inr ⟨gap, rfl, rfl, rfl⟩

theorem mem_joinedWindow (h : r ∈ (joinedWindow s roomMeta room since upto limit initial).rows) :
    s.roomSeq[(room, r.1)]? = some r.2 ∧ since < r.1 ∧ r.1 ≤ upto := by
  rcases joinedWindow_cases s roomMeta room since upto limit initial with same | ⟨gap, -, -, same⟩
  · exact mem_newestWindow (same ▸ h)
  · rw [same] at h
    exact mem_newestWindow (List.mem_of_mem_filter h)

theorem joinedWindow_missed (initial : Bool)
    (placed : ∀ gap ∈ roomMeta.gapMarkers, ∃ id, s.roomSeq[(room, gap)]? = some id) (wide : limit ≠ 0)
    (row : s.roomSeq[(room, n)]? = some id) (above : since < n) (below : n ≤ upto) :
    (n, id) ∈ (joinedWindow s roomMeta room since upto limit initial).rows ∨
      (joinedWindow s roomMeta room since upto limit initial).limited = true ∧
        (joinedWindow s roomMeta room since upto limit initial).rows ≠ [] ∧
        ∀ r ∈ (joinedWindow s roomMeta room since upto limit initial).rows, n < r.1 := by
  have nonempty : (newestWindow s room since upto limit).rows.length = limit →
      (newestWindow s room since upto limit).rows ≠ [] := by
    intro full none
    rw [none] at full
    exact wide full.symm
  rcases joinedWindow_cases s roomMeta room since upto limit initial with same | ⟨gap, -, newest, same⟩
  · rw [same]
    exact (newestWindow_missed limit row above below).imp (fun mem => mem) fun ⟨limited, full, older⟩ =>
      ⟨limited, nonempty full, older⟩
  · rw [same]
    obtain ⟨marked, pastSince, upToNow⟩ := newestGap_mem newest
    obtain ⟨first, gapRow⟩ := placed gap marked
    -- The row at the gap is in the window, or all of the window is past it.
    have behind : ((newestWindow s room since upto limit).rows.filter fun r => gap ≤ r.1) ≠ [] := by
      rcases newestWindow_missed limit gapRow pastSince upToNow with mem | ⟨-, full, older⟩
      · exact List.ne_nil_of_mem (List.mem_filter.2 ⟨mem, decide_eq_true le_rfl⟩)
      · obtain ⟨r, mem⟩ := List.exists_mem_of_ne_nil _ (nonempty full)
        exact List.ne_nil_of_mem (List.mem_filter.2 ⟨mem, decide_eq_true (older r mem).le⟩)
    rcases newestWindow_missed limit row above below with mem | ⟨-, -, older⟩
    · by_cases late : gap ≤ n
      · exact .inl (List.mem_filter.2 ⟨mem, decide_eq_true late⟩)
      · refine .inr ⟨rfl, behind, fun r mem => ?_⟩
        have := of_decide_eq_true (List.mem_filter.1 mem).2
        omega
    · exact .inr ⟨rfl, behind, fun r mem => older r (List.mem_of_mem_filter mem)⟩

end Windows

/-! ## What is sent -/

section

variable {cs : CsState} {w : Shards} {r : CsState.SyncRequest} {s : Store} {room : RoomId}
  {answer : List (RoomId × SyncedRoom)} {m : MembershipEntry} {u : Option SyncedRoom}
  {device : DeviceId} {user : UserId} {filter : SyncFilter} {e : ClientEvent}

theorem mem_buildSync (h : cs.buildSync w r = .ok answer)
    {u : SyncedRoom} : (room, u) ∈ answer ↔ ∃ m : MembershipEntry,
      w.users.membership[(r.user, room)]? = some m ∧ cs.syncRoom w r room m = .ok (some u) := by
  obtain ⟨rooms, each, h⟩ := bind_eq_ok.1 h
  obtain rfl := pure_eq_ok.1 h
  rw [List.reduceOption_mem_iff, mem_of_mapM each]
  constructor
  · rintro ⟨⟨⟨user, id⟩, m⟩, mem, sent⟩
    obtain ⟨held, own⟩ := OrdMap.mem_rows.1 mem
    obtain rfl := of_decide_eq_true own
    obtain ⟨found, synced, same⟩ := bind_eq_ok.1 sent
    cases found with
    | none => cases pure_eq_ok.1 same
    | some u' =>
      cases pure_eq_ok.1 same
      exact ⟨m, held, synced⟩
  · rintro ⟨m, held, synced⟩
    exact ⟨((r.user, room), m), OrdMap.mem_rows.2 ⟨held, decide_eq_true rfl⟩, bind_eq_ok.2 ⟨_, synced, rfl⟩⟩

def roomTimelines (answer : List (RoomId × SyncedRoom)) (room : RoomId) : List ClientEvent :=
  (answer.filter fun e => e.1 = room).flatMap fun e => e.2.update.timeline

theorem syncRoom_of_buildSync
    (h : cs.buildSync w r = .ok answer) (held : w.users.membership[(r.user, room)]? = some m) :
    ∃ u, cs.syncRoom w r room m = .ok u := by
  obtain ⟨rooms, each, -⟩ := bind_eq_ok.1 h
  obtain ⟨u, done⟩ := ok_of_mapM (a := ((r.user, room), m)) each (OrdMap.mem_rows.2 ⟨held, decide_eq_true rfl⟩)
  obtain ⟨u, synced, -⟩ := bind_eq_ok.1 done
  exact ⟨u, synced⟩

theorem mem_timelineEvents {version : RoomVersion} {rows : List (Nat × EventId)} {events : List ClientEvent}
    (h : cs.timelineEvents s room version user device filter rows = .ok events) :
    e ∈ events ↔ ∃ ev, ev.eventId ∈ rows.map Prod.snd ∧
      clientEvent s cs.fuel room cs.ruma version user ev.eventId = .ok (some ev) ∧
      typeMatches filter.timelineTypes filter.timelineNotTypes ((strProp ev.body "type").getD "") ∧
      stampEcho s user device ev = e := by
  obtain ⟨found, listed, h⟩ := bind_eq_ok.1 h
  obtain rfl := pure_eq_ok.1 h
  rw [List.mem_map]
  constructor
  · rintro ⟨ev, mem, rfl⟩
    obtain ⟨mem, typed⟩ := List.mem_filter.1 mem
    obtain ⟨row, served⟩ := (mem_clientEvents listed).1 mem
    exact ⟨ev, row, served, typed, rfl⟩
  · rintro ⟨ev, row, served, typed, rfl⟩
    exact ⟨ev, List.mem_filter.2 ⟨(mem_clientEvents listed).2 ⟨row, served⟩, typed⟩, rfl⟩

theorem mem_roomTimelines (h : cs.buildSync w r = .ok answer)
    (held : w.users.membership[(r.user, room)]? = some m) (built : cs.syncRoom w r room m = .ok u)
    : e ∈ roomTimelines answer room ↔ e ∈ timelineOf u := by
  constructor
  · intro mem
    obtain ⟨⟨r', u'⟩, mine, within⟩ := List.mem_flatMap.1 mem
    obtain ⟨found, here⟩ := List.mem_filter.1 mine
    obtain rfl : r' = room := of_decide_eq_true here
    obtain ⟨m', held', built'⟩ := (mem_buildSync h).1 found
    obtain rfl := some_unique held held'
    obtain rfl := ok_unique built built'
    exact within
  · intro within
    cases u with
    | none => cases within
    | some u =>
      exact List.mem_flatMap.2 ⟨(room, u), List.mem_filter.2
        ⟨(mem_buildSync h).2 ⟨m, held, built⟩, decide_eq_true rfl⟩, within⟩

@[simp] theorem stampEcho_eventId {ev : ClientEvent} :
    (stampEcho s user device ev).eventId = ev.eventId := by
  unfold stampEcho
  split
  · rfl
  split
  · rfl
  split
  · rfl
  · rfl

theorem buildJoinedRoom_known {since now : Nat}
    {fullState initial : Bool} {u : RoomUpdate} {roomMeta : RoomMeta}
    (known : s.room[room]? = some roomMeta)
    (h : cs.buildJoinedRoom s room user device since now filter fullState initial = .ok u) :
    ∃ version start base, roomVersion roomMeta = .ok version ∧
      cs.timelineEvents s room version user device filter
        (joinedWindow s roomMeta room since now filter.limit initial).rows = .ok u.timeline ∧
      cs.timelineStart s room (joinedWindow s roomMeta room since now filter.limit initial).rows now =
        .ok start ∧
      cs.baseState s room since (initial || fullState) = .ok base ∧
      clientEvents s cs.fuel room cs.ruma version user
        (stateDelta start base (CsState.stateSelected filter u.timeline)) = .ok u.state ∧
      u.limited = (joinedWindow s roomMeta room since now filter.limit initial).limited ∧
      u.prevBatch = (joinedWindow s roomMeta room since now filter.limit initial).prevBatch now := by
  unfold CsState.buildJoinedRoom at h
  rw [known] at h
  obtain ⟨version, versioned, h⟩ := bind_eq_ok.1 h
  obtain ⟨timeline, sent, h⟩ := bind_eq_ok.1 h
  obtain ⟨start, before, h⟩ := bind_eq_ok.1 h
  obtain ⟨base, had, h⟩ := bind_eq_ok.1 h
  obtain ⟨state, delta, h⟩ := bind_eq_ok.1 h
  obtain rfl := pure_eq_ok.1 h
  exact ⟨version, start, base, versioned, sent, before, had, delta, rfl, rfl⟩

theorem syncRoom_joined (joined : m.membership = "join") (h : cs.syncRoom w r room m = .ok u) : ∃ update,
      cs.buildJoinedRoom (cs.forRoom w room) room r.user r.device
        (if r.roomInitial m then 0 else r.after.roomAt (cs.shard room)) (r.now.roomAt (cs.shard room))
        r.filter r.fullState (r.roomInitial m) = .ok update ∧ (u = some (.joined update) ∨
        u = none ∧ r.roomInitial m = false ∧ update.timeline = [] ∧ update.state = []) := by
  unfold CsState.syncRoom at h
  rw [if_pos joined] at h
  obtain ⟨update, built, h⟩ := bind_eq_ok.1 h
  refine ⟨update, built, ?_⟩
  split at h
  · rename_i quiet
    simp only [Bool.and_eq_true, Bool.not_eq_true', List.isEmpty_iff] at quiet
    exact .inr ⟨(pure_eq_ok.1 h).symm, quiet.1.1.1.1, quiet.1.1.1.2, quiet.1.1.2⟩
  · exact .inl (pure_eq_ok.1 h).symm

theorem syncRoom_left (out : m.membership ≠ "join") (h : cs.syncRoom w r room m = .ok u) :
    (u = none ∧ ¬ ((m.membership = "leave" ∨ m.membership = "ban") ∧ r.sendsLeft m)) ∨
      ((m.membership = "leave" ∨ m.membership = "ban") ∧ r.sendsLeft m) ∧ ∃ update,
        u = some (.left update) ∧
        cs.buildLeftRoom (cs.forRoom w room) room r.user r.device m (r.after.roomAt (cs.shard room))
          (r.now.roomAt (cs.shard room)) r.filter (r.since.isNone || r.fullState) = .ok update := by
  unfold CsState.syncRoom at h
  rw [if_neg out] at h
  split at h
  · rename_i sent
    obtain ⟨update, built, h⟩ := bind_eq_ok.1 h
    exact .inr ⟨sent, update, (pure_eq_ok.1 h).symm, built⟩
  · rename_i unsent
    exact .inl ⟨(Except.ok.inj h).symm, unsent⟩

end

end Saltator.Client
