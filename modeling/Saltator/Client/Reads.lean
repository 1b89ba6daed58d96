import Saltator.Client.RemoteJoin

/-!
# Reading a room: state, members, pages and context

The endpoints that read a room the caller is, or was, a member of. Pages go back over the room's own
order and, past its floor, over history that is fetched from other servers on the way.
-/

namespace Saltator.Client

open Std
open Saltator.Outcome
open Room
open StateRes (Key StateIds)
open Federation (Request encodeSegment)

/-! ## Positions -/

/-- A position in the room's order. A sync token sits after the position, other tokens at it; some
carry the position at which they were made. -/
structure PaginationBound where
  seq : Nat
  atEvent : Bool
  stream : Option Nat
  deriving DecidableEq

namespace PaginationBound

def upper (b : PaginationBound) : Nat := if b.atEvent then b.seq - 1 else b.seq

def lower (b : PaginationBound) : Nat := b.seq

/-- The position whose state the token stands for. -/
def atSeq (b : PaginationBound) : Nat := b.stream.getD b.upper

end PaginationBound

/-- Where a page starts or ends: in the room's order, or in the history below it. -/
inductive PagePos where
  | timeline (bound : PaginationBound)
  | history (idx : Nat)
  deriving DecidableEq

/-- Where a row comes from. -/
inductive RowPos where
  | timeline (seq : Nat)
  | history (idx : Nat)
  deriving DecidableEq

def RowPos.pred : RowPos → RowPos
  | .timeline seq => .timeline (seq - 1)
  | .history idx => .history (idx - 1)

abbrev Row := RowPos × EventId

def timelineRow (r : Nat × EventId) : Row := (.timeline r.1, r.2)
def historyRow (r : Nat × EventId) : Row := (.history r.1, r.2)

/-- The greatest limit. -/
def usizeMax : Nat := 2 ^ 64 - 1

inductive Direction where
  | backward
  | forward
  deriving DecidableEq

structure MessagesQuery where
  dir : Direction
  limit : Option Nat
  start : Option PagePos
  stop : Option PagePos
  containsUrl : Option Bool
  lazyLoadMembers : Bool

namespace MessagesQuery

def size (q : MessagesQuery) : Nat := max 1 (min 1000 (q.limit.getD 10))

/-- The positions of the room's order that a backward page is taken from, above the one and up to the
other; none where the page starts in the history. -/
def backwardSpan (q : MessagesQuery) : Option (Nat × Option Nat) :=
  let lower := match q.stop with
    | some (.timeline b) => b.lower
    | _ => 0
  match q.start with
  | some (.history _) => none
  | some (.timeline b) => some (lower, some b.upper)
  | none => some (lower, none)

def historyUntil (q : MessagesQuery) : Option (Option Nat) :=
  match q.stop with
  | none => some none
  | some (.history idx) => some (some (idx - 1))
  | some (.timeline b) => if b.lower = 0 then some none else none

def historyCursor (q : MessagesQuery) : Nat :=
  match q.start with
  | some (.history idx) => idx
  | _ => 0

def forwardHistory (q : MessagesQuery) : Option (Nat × Nat) :=
  match q.start, q.stop with
  | some (.history idx), some (.history t) => some (t, idx - 1)
  | some (.history idx), _ => some (0, idx - 1)
  | _, _ => none

/-- The positions of a forward page, for a reader who may read up to `cap`. -/
def forwardSpan (q : MessagesQuery) (cap : Option Nat) : Option (Nat × Option Nat) :=
  let lower := match q.start with
    | some (.timeline b) => b.lower
    | _ => 0
  match q.stop with
  | some (.history _) => none
  | some (.timeline b) => some (lower, Option.merge min (some b.upper) cap)
  | none => some (lower, cap)

end MessagesQuery

/-- A page of events, and the member events of their senders. -/
structure Messages where
  chunk : List ClientEvent
  state : List ClientEvent
  endPos : Option RowPos

structure MembersQuery where
  pos : Option PaginationBound
  membership : Option String
  notMembership : Option String

/-- An event, its neighbours on either side, and the state at the last of them. -/
structure Context where
  event : ClientEvent
  eventsBefore : List ClientEvent
  eventsAfter : List ClientEvent
  state : List ClientEvent
  startPos : RowPos
  endPos : RowPos

/-! ## History -/

def queryEncode (s : String) : String :=
  String.join (s.toList.map fun c =>
    match c with
    | '%' => "%25"
    | '&' => "%26"
    | '+' => "%2B"
    | '#' => "%23"
    | '=' => "%3D"
    | '?' => "%3F"
    | c => c.toString)

/-- Up to a hundred events before the named ones. -/
def fetchBackfill (fed : FederationState) (destination : String) (room : RoomId)
    (v : List EventId) : Option (List JsonObject) :=
  (fed.answer (.get destination ("/_matrix/federation/v1/backfill/" ++ queryEncode room ++ "?limit=100" ++
    String.join (v.map fun id => "&v=" ++ queryEncode id)))).toOption.map fun resp =>
      Federation.asObjectArray ((Federation.members resp).lookup "pdus")

def historyReadable (s : Store) (fuel : Nat) (room : RoomId) : Except ApiError Bool := do
  return visibilityIn s (← currentState s fuel room) ∈ ["shared", "world_readable"]

namespace CsState

variable (cs : CsState)

def importBackfill (fed : FederationState) (w : Shards) (room : RoomId) (pdus : List JsonObject) :
    Except ApiError (Shards × Nat) := do
  let s := cs.forRoom w room
  let cmd ← ((cs.node fed w room).server.importHistory s room pdus).mapError
    fun e => .internal (reprStr e)
  let (s, response) ← (Machine.applyImportHistory s cmd).mapError internalFault
  return ({ w with rooms := Function.update w.rooms (cs.shard room) s },
    match response with
    | .history indexed _ => indexed
    | _ => 0)

/-- The first server that answers with something that verifies. -/
def fetchFrom (fed : FederationState) (room : RoomId) (v : List EventId) :
    Shards → List String → Except ApiError (Shards × Nat)
  | w, [] => .ok (w, 0)
  | w, destination :: rest =>
    let pdus := (fetchBackfill fed destination room v).getD []
    if pdus = [] then fetchFrom fed room v w rest
    else
      let w := cs.trustEventServers fed w pdus
      let verified := pdus.filter ((cs.node fed w room).verifyPdu room)
      if verified = [] then fetchFrom fed room v w rest
      else cs.importBackfill fed w room verified

def historyServers (w : Shards) (room : RoomId) : Except ApiError (List String) := do
  let resident := (residentOfRoom room).toList.filter (· ≠ cs.serverName)
  let servers ← (Serving.remoteServersInRoom cs.ruma (cs.forRoom w room) cs.fuel room
    cs.serverName).mapError fun e => .internal (reprStr e)
  return resident ++ servers.filter (· ∉ resident)

def fetchHistory (fed : Option FederationState) (w : Shards) (room : RoomId) (frontier : List EventId) :
    Except ApiError (Shards × Nat) :=
  match fed with
  | none => .ok (w, 0)
  | some fed => do cs.fetchFrom fed room (frontier.take 20) w (← cs.historyServers w room)

/-! ## Pages -/

/-- The rows of a page, whether more history is known to exist, and the shards after fetching. -/
structure Page where
  shards : Shards
  rows : List Row
  moreHistory : Bool

/-- Go on into the history, and fetch more of it a bounded number of times. `fed` has what the other
servers answer each time. -/
def historyPage (fed : Nat → Option FederationState) (room : RoomId) (upto : Option Nat)
    (size : Nat) : Nat → Shards → Nat → List Row → Except ApiError Page
  | fetches, w, cursor, rows =>
    let page := roomHistory (cs.forRoom w room) room cursor upto (size - rows.length) false
    let rows := rows ++ page.map historyRow
    let cursor := (page.getLast?.map Prod.fst).getD cursor
    if size ≤ rows.length ∨ upto.isSome then .ok ⟨w, rows, false⟩
    else
      let frontier := ((cs.forRoom w room).room[room]?.map RoomMeta.historyFrontier).getD []
      if frontier = [] then .ok ⟨w, rows, false⟩
      else
        match fetches with
        | 0 => .ok ⟨w, rows, true⟩
        | fetches + 1 => do
          let (w, indexed) ← cs.fetchHistory (fed fetches) w room frontier
          if indexed = 0 then return ⟨w, rows, true⟩
          else historyPage fed room upto size fetches w cursor rows

def backwardRows (s : Store) (room : RoomId) (cap : Option Nat) (q : MessagesQuery) : List Row :=
  match q.backwardSpan with
  | none => []
  | some (lower, upper) =>
    (roomTimeline s room lower (Option.merge min upper cap) q.size true).map timelineRow

def backwardPage (fed : Nat → Option FederationState) (w : Shards) (room : RoomId)
    (cap : Option Nat) (q : MessagesQuery) : Except ApiError Page := do
  let rows := backwardRows (cs.forRoom w room) room cap q
  match q.historyUntil with
  | none => return ⟨w, rows, false⟩
  | some upto =>
    if rows.length < q.size then
      if ← historyReadable (cs.forRoom w room) cs.fuel room then
        cs.historyPage fed room upto q.size (q.size / 100 + 2) w q.historyCursor rows
      else return ⟨w, rows, false⟩
    else return ⟨w, rows, false⟩

def forwardHistoryRows (s : Store) (room : RoomId) (q : MessagesQuery) : List Row :=
  match q.forwardHistory with
  | none => []
  | some (after, upto) => (roomHistory s room after (some upto) q.size true).map historyRow

def forwardRows (s : Store) (room : RoomId) (cap : Option Nat) (q : MessagesQuery) : List Row :=
  let rows := forwardHistoryRows s room q
  match q.forwardSpan cap with
  | none => rows
  | some (lower, upper) =>
    rows ++ (roomTimeline s room lower upper (q.size - rows.length) false).map timelineRow

def pageOf (fed : Nat → Option FederationState) (w : Shards) (room : RoomId) (cap : Option Nat)
    (q : MessagesQuery) : Except ApiError Page :=
  match q.dir with
  | .backward => cs.backwardPage fed w room cap q
  | .forward => .ok ⟨w, forwardRows (cs.forRoom w room) room cap q, false⟩

/-- The `contains_url` filter. -/
def urlMatches (containsUrl : Option Bool) (ev : ClientEvent) : Bool :=
  match containsUrl with
  | none => true
  | some want => ((objProp ev.body "content").bind (strProp · "url")).isSome == want

def newestSeq (rows : List Row) : Option Nat :=
  (rows.filterMap fun r =>
    match r.1 with
    | .timeline seq => some seq
    | .history _ => none).max?

def senderEvents (s : Store) (room : RoomId) (version : RoomVersion) (user : UserId) (lazyLoad : Bool)
    (rows : List Row) (chunk : List ClientEvent) : Except ApiError (List ClientEvent) :=
  match (newestSeq rows).filter fun _ => lazyLoad with
  | none => .ok []
  | some newest => do
    let snapshot ← stateAtSeq s cs.fuel room newest
    let senders := (chunk.filterMap fun ev => strProp ev.body "sender").eraseDups
    clientEvents s cs.fuel room cs.ruma version user
      (senders.filterMap fun sender => snapshot[memberKey sender]?)

/-! ## Endpoints -/

def ensureNotForgotten (w : Shards) (user : UserId) (room : RoomId) : Except ApiError Unit :=
  if w.users.membership[(user, room)]?.any (·.forgotten) then
    .error (.forbidden "You aren't a member of the room")
  else .ok ()

def versionOf (s : Store) (room : RoomId) : Except ApiError RoomVersion := do
  roomVersion (← roomMeta s room)

def getStateEvents (w : Shards) (user : UserId) (room : RoomId) : Except ApiError (List ClientEvent) := do
  let s := cs.forRoom w room
  ensureNotForgotten w user room
  let view ← memberView s cs.fuel room user
  let version ← versionOf s room
  clientEvents s cs.fuel room cs.ruma version user view.1.vals

def membersState (s : Store) (room : RoomId) (view : StateIds × Option Nat)
    (pos : Option PaginationBound) : Except ApiError StateIds :=
  match pos with
  | none => .ok view.1
  | some bound => stateAtSeq s cs.fuel room (min bound.atSeq (view.2.getD bound.atSeq))

/-- The `membership` and `not_membership` filters. -/
def membershipMatches (q : MembersQuery) (ev : ClientEvent) : Bool :=
  let membership := ((objProp ev.body "content").bind (strProp · "membership")).getD "leave"
  q.membership.all (membership = ·) && q.notMembership.all (membership ≠ ·)

def getMembers (w : Shards) (user : UserId) (room : RoomId) (query : Except ApiError MembersQuery) :
    Except ApiError (List ClientEvent) := do
  let s := cs.forRoom w room
  ensureNotForgotten w user room
  let view ← memberView s cs.fuel room user
  let q ← query
  let state ← cs.membersState s room view q.pos
  let version ← versionOf s room
  let members := (state.rows fun k => k.1 = "m.room.member").map Prod.snd
  return (← clientEvents s cs.fuel room cs.ruma version user members).filter (membershipMatches q)

def hideUnknown (e : ApiError) : ApiError :=
  if e.status = 404 then .forbidden "You aren't a member of the room" else e

def getMessages (fed : Nat → Option FederationState) (w : Shards) (user : UserId) (room : RoomId)
    (query : Except ApiError MessagesQuery) : Except ApiError (Shards × Messages) := do
  ensureNotForgotten w user room
  let view ← (memberView (cs.forRoom w room) cs.fuel room user).mapError hideUnknown
  let version ← versionOf (cs.forRoom w room) room
  let q ← query
  let page ← cs.pageOf fed w room view.2 q
  let s := cs.forRoom page.shards room
  let events ← clientEvents s cs.fuel room cs.ruma version user (page.rows.map Prod.snd)
  let chunk := events.filter (urlMatches q.containsUrl)
  let state ← cs.senderEvents s room version user q.lazyLoadMembers page.rows chunk
  return (page.shards, ⟨chunk, state,
    if page.rows.length = q.size ∨ page.moreHistory ∨ chunk ≠ [] then page.rows.getLast?.map Prod.fst
    else none⟩)

def clientRows (s : Store) (room : RoomId) (version : RoomVersion) (user : UserId) (rows : List Row) :
    Except ApiError (List (RowPos × ClientEvent)) := do
  return (← rows.mapM fun r => do
    return (← clientEvent s cs.fuel room cs.ruma version user r.2).map fun ev => (r.1, ev)).reduceOption

/-- The events around an event, from it outwards on either side. -/
structure Neighbours where
  before : List (RowPos × ClientEvent)
  after : List (RowPos × ClientEvent)

def Neighbours.newest (near : Neighbours) : Option Nat :=
  newestSeq (near.after.map fun r => (r.1, r.2.eventId))

/-- Half of the neighbours come before the event, the odd one among them. -/
def beforeLimit (limit : Nat) : Nat := limit / 2 + limit % 2

def timelineNeighbours (s : Store) (room : RoomId) (version : RoomVersion) (user : UserId) (seq : Nat)
    (ceiling : Option Nat) (limit : Nat) : Except ApiError Neighbours := do
  return {
    before := ← cs.clientRows s room version user
      ((roomTimeline s room 0 (some (seq - 1)) (beforeLimit limit) true).map timelineRow)
    after := ← cs.clientRows s room version user
      ((roomTimeline s room seq ceiling (limit - beforeLimit limit) false).map timelineRow) }

/-- The neighbours of a backfilled event: older ones in the history, newer ones there and then from the
floor of the room's order on. -/
def historyNeighbours (s : Store) (room : RoomId) (version : RoomVersion) (user : UserId) (idx : Nat)
    (ceiling : Option Nat) (limit : Nat) : Except ApiError Neighbours := do
  let afterLimit := limit - beforeLimit limit
  let before ← cs.clientRows s room version user
    ((roomHistory s room idx none (beforeLimit limit) false).map historyRow)
  let newer ← cs.clientRows s room version user
    ((roomHistory s room 0 (some (idx - 1)) afterLimit true).map historyRow)
  let onTimeline ← cs.clientRows s room version user
    ((roomTimeline s room 0 ceiling (afterLimit - newer.length) false).map timelineRow)
  return ⟨before, newer ++ onTimeline⟩

def stateAtNewest (s : Store) (room : RoomId) (version : RoomVersion) (user : UserId)
    (newest : Option Nat) : Except ApiError (List ClientEvent) :=
  match newest with
  | none => .ok []
  | some newest => do
    clientEvents s cs.fuel room cs.ruma version user (← stateAtSeq s cs.fuel room newest).vals

def contextInTimeline (s : Store) (room : RoomId) (version : RoomVersion) (user : UserId)
    (event : ClientEvent) (seq : Nat) (ceiling : Option Nat) (limit : Nat) : Except ApiError Context := do
  let near ← cs.timelineNeighbours s room version user seq ceiling limit
  let newest := near.newest.getD seq
  return {
    event
    eventsBefore := near.before.map Prod.snd
    eventsAfter := near.after.map Prod.snd
    state := ← cs.stateAtNewest s room version user (some newest)
    startPos := ((near.before.getLast?.map Prod.fst).getD (.timeline seq)).pred
    endPos := .timeline newest }

def contextInHistory (s : Store) (room : RoomId) (version : RoomVersion) (user : UserId)
    (event : ClientEvent) (idx : Nat) (ceiling : Option Nat) (limit : Nat) : Except ApiError Context := do
  let near ← cs.historyNeighbours s room version user idx ceiling limit
  return {
    event
    eventsBefore := near.before.map Prod.snd
    eventsAfter := near.after.map Prod.snd
    state := ← cs.stateAtNewest s room version user near.newest
    startPos := (near.before.getLast?.map Prod.fst).getD (.history idx)
    endPos := match near.newest with
      | some newest => .timeline newest
      | none => ((near.after.getLast?.map Prod.fst).getD (.history idx)).pred }

def eventNotFound : ApiError := .notFound "Event not found"

def getContext (w : Shards) (user : UserId) (room : RoomId) (target : EventId) (limit : Nat) :
    Except ApiError Context := do
  let s := cs.forRoom w room
  let view ← memberView s cs.fuel room user
  let version ← versionOf s room
  match s.event[target]? with
  | none => .error eventNotFound
  | some stored =>
    match ← clientEvent s cs.fuel room cs.ruma version user target with
    | none => .error eventNotFound
    | some event =>
      -- A backfilled event has no state for a check of its own.
      if stored.seq = 0 then
        match stored.historyIdx with
        | none => .error eventNotFound
        | some idx =>
          if ← historyReadable s cs.fuel room then
            cs.contextInHistory s room version user event idx view.2 (min limit 100)
          else .error eventNotFound
      else if ← userCanSeeEvent s cs.fuel room target user then
        cs.contextInTimeline s room version user event stored.seq view.2 (min limit 100)
      else .error eventNotFound

structure RelationsQuery where
  dir : Direction
  limit : Nat
  start : Option PaginationBound
  relType : Option String
  eventType : Option String

def relatesTo (ev : ClientEvent) : Option (EventId × Option String) := do
  let content ← objProp ev.body "content"
  let rel ← objProp content "m.relates_to"
  let target ← strProp rel "event_id"
  return (target, strProp rel "rel_type")

/-- Whether a row is behind the position that the page starts at. -/
def RelationsQuery.inSpan (q : RelationsQuery) (seq : Nat) : Bool :=
  q.start.all fun bound =>
    match q.dir with
    | .backward => seq ≤ bound.upper
    | .forward => bound.lower < seq

def RelationsQuery.selects (q : RelationsQuery) (target : EventId) (ev : ClientEvent) : Bool :=
  (relatesTo ev).any fun rel =>
    rel.1 = target && q.relType.all (rel.2 = some ·) && q.eventType.all (strProp ev.body "type" = some ·)

def RelationsQuery.page (q : RelationsQuery) (target : EventId) (events : List (RowPos × ClientEvent)) :
    List ClientEvent :=
  let found := (events.filter fun r =>
    (match r.1 with
      | .timeline seq => q.inSpan seq
      | .history _ => false) && q.selects target r.2).map Prod.snd
  (match q.dir with
    | .backward => found.reverse
    | .forward => found).take (max 1 (min 100 q.limit))

def visibleEvents (w : Shards) (user : UserId) (room : RoomId) (cap : Option Nat) :
    Except ApiError (List (RowPos × ClientEvent)) := do
  let s := cs.forRoom w room
  let version ← versionOf s room
  cs.clientRows s room version user ((roomTimeline s room 0 cap usizeMax false).map timelineRow)

def getRelations (w : Shards) (user : UserId) (room : RoomId) (target : EventId) (q : RelationsQuery) :
    Except ApiError (List ClientEvent) := do
  ensureNotForgotten w user room
  let view ← (memberView (cs.forRoom w room) cs.fuel room user).mapError hideUnknown
  return q.page target (← cs.visibleEvents w user room view.2)

end CsState

/-! ## What a page holds -/

section Pages

variable {cs : CsState} {w t : Shards} {room : RoomId} {user : UserId} {version : RoomVersion}
  {s : Store} {n : Nat} {q : MessagesQuery} {fed : Nat → Option FederationState} {cap : Option Nat}
  {frontier : List EventId} {page : CsState.Page} {upto : Option Nat} {rows : List Row}

theorem importBackfill_cases {fed : FederationState} {pdus : List JsonObject}
    (h : cs.importBackfill fed w room pdus = .ok (t, n)) :
    ∃ cmd m, (cs.node fed w room).server.importHistory (cs.forRoom w room) room pdus = .ok cmd ∧
      (cs.forRoom w room).room[cmd.roomId]? = some m ∧ t.users = w.users ∧
      (Machine.historyRows (cs.forRoom w room) m cmd).indexed = n ∧
      cs.forRoom t room = (Machine.historyRows (cs.forRoom w room) m cmd).store.putMeta cmd.roomId
        { m with historyFrontier := Machine.stillMissing m (Machine.historyRows (cs.forRoom w room) m cmd),
                 nextHistoryIdx := (Machine.historyRows (cs.forRoom w room) m cmd).idx } := by
  simp only [CsState.importBackfill, bind_eq_ok] at h
  obtain ⟨cmd, computed, ⟨s, response⟩, applied, h⟩ := h
  obtain ⟨rfl, rfl⟩ := ok_pair h
  rw [mapError_eq_ok] at computed applied
  unfold Machine.applyImportHistory at applied
  split at applied
  · cases applied
  · rename_i m known
    obtain ⟨rfl, rfl⟩ := ok_pair applied
    exact ⟨cmd, m, computed, known, rfl, rfl, Function.update_self ..⟩

theorem fetchHistory_cases {fed : Option FederationState}
    (h : cs.fetchHistory fed w room frontier = .ok (t, n)) :
    ∃ u, u.users = w.users ∧ cs.forRoom u room = cs.forRoom w room ∧
      (t = u ∨ ∃ fed pdus, cs.importBackfill fed u room pdus = .ok (t, n)) := by
  cases fed with
  | none =>
    cases h
    exact ⟨w, rfl, rfl, .inl rfl⟩
  | some fed =>
    obtain ⟨servers, -, h⟩ := bind_eq_ok.1 h
    clear * - h
    induction servers generalizing w with
    | nil =>
      cases h
      exact ⟨_, rfl, rfl, .inl rfl⟩
    | cons destination rest ih =>
      unfold CsState.fetchFrom at h
      dsimp only at h
      have rooms (pdus) : cs.forRoom (cs.trustEventServers fed w pdus) room = cs.forRoom w room :=
        congrFun (trustEventServers_rooms cs fed w pdus) _
      have users (pdus) := trustEventServers_users cs fed w pdus
      split at h
      · exact ih h
      split at h
      · obtain ⟨u, users', rooms', result⟩ := ih h
        exact ⟨u, users'.trans (users _), rooms'.trans (rooms _), result⟩
      · exact ⟨_, users _, rooms _, .inr ⟨fed, _, h⟩⟩

theorem fetchHistory_roomSeq {fed : Option FederationState}
    (h : cs.fetchHistory fed w room frontier = .ok (t, n)) :
    (cs.forRoom t room).roomSeq = (cs.forRoom w room).roomSeq := by
  obtain ⟨u, -, same, rfl | ⟨fed, pdus, h⟩⟩ := fetchHistory_cases h
  · rw [same]
  · obtain ⟨cmd, m, -, -, -, -, result⟩ := importBackfill_cases h
    rw [result, ← same]
    exact (Machine.historyRows_frame _ m cmd).2.2.1

theorem historyPage_roomSeq {size fetches : Nat} {cursor : Nat}
    (h : cs.historyPage fed room upto size fetches w cursor rows = .ok page) :
    (cs.forRoom page.shards room).roomSeq = (cs.forRoom w room).roomSeq := by
  induction fetches generalizing w cursor rows with
  | zero =>
    unfold CsState.historyPage at h
    dsimp only at h
    split at h
    · cases h
      rfl
    split at h <;> cases h <;> rfl
  | succ fetches ih =>
    unfold CsState.historyPage at h
    dsimp only at h
    split at h
    · cases h
      rfl
    split at h
    · cases h
      rfl
    obtain ⟨⟨u, indexed⟩, fetched, h⟩ := bind_eq_ok.1 h
    dsimp only at h
    split at h
    · obtain rfl := pure_eq_ok.1 h
      exact fetchHistory_roomSeq fetched
    · exact (ih h).trans (fetchHistory_roomSeq fetched)

theorem pageOf_roomSeq (h : cs.pageOf fed w room cap q = .ok page) :
    (cs.forRoom page.shards room).roomSeq = (cs.forRoom w room).roomSeq := by
  unfold CsState.pageOf at h
  split at h
  · unfold CsState.backwardPage at h
    dsimp only at h
    split at h
    · cases h
      rfl
    split at h
    · obtain ⟨readable, -, h⟩ := bind_eq_ok.1 h
      split at h
      · exact historyPage_roomSeq h
      · cases h
        rfl
    · cases h
      rfl
  · cases h
    rfl

theorem mem_clientRows {out : List (RowPos × ClientEvent)}
    (h : cs.clientRows s room version user rows = .ok out) {r : RowPos × ClientEvent} :
    r ∈ out ↔ (r.1, r.2.eventId) ∈ rows ∧
      clientEvent s cs.fuel room cs.ruma version user r.2.eventId = .ok (some r.2) := by
  obtain ⟨found, each, h⟩ := bind_eq_ok.1 h
  obtain rfl := pure_eq_ok.1 h
  rw [List.reduceOption_mem_iff, mem_of_mapM each]
  constructor
  · rintro ⟨row, listed, served⟩
    obtain ⟨found, own, same⟩ := bind_eq_ok.1 served
    replace same := pure_eq_ok.1 same
    cases found with
    | none => cases same
    | some ev =>
      cases same
      rw [clientEvent_id own]
      exact ⟨listed, own⟩
  · rintro ⟨listed, served⟩
    exact ⟨_, listed, bind_eq_ok.2 ⟨_, served, rfl⟩⟩

end Pages

end Saltator.Client
