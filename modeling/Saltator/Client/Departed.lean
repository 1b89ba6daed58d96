import Saltator.Client.Reach
import Saltator.Room.Extremities
import Saltator.Room.Order

/-!
# Who has left

A user who has left a room keeps reading it, up to the leave. Whether a user ever was in the room is
not looked at: the current membership decides alone. And the position of the leave bounds what is read
from the room's order, but not the history below it, nor the event that a context is asked for, nor
what a state names (`departed_iff`).
-/

namespace Saltator.Client

open Std
open Saltator.Outcome
open Room
open StateRes (Key StateIds)

/-! ## Requests -/

/-- The requests that a user may make of a room after leaving it. -/
inductive RoomRead where
  | state
  | members (query : Except ApiError MembersQuery)
  | messages (query : Except ApiError MessagesQuery)
  | context (target : EventId) (limit : Nat)

def Context.events (c : Context) : List ClientEvent :=
  c.event :: (c.eventsBefore ++ c.eventsAfter ++ c.state)

section

variable (s : Store) (fuel : Nat) (room : RoomId) (user : UserId)

def JoinedNow : Prop :=
  ∃ current, currentState s fuel room = .ok current ∧ membershipIn s current user = "join"

/-- The room's history has an accepted join of the user. -/
def PastJoin : Prop :=
  ∃ (id : EventId) (e : StoredEvent), s.event[id]? = some e ∧ e.rejected = none ∧
    strProp e.raw "type" = some "m.room.member" ∧ strProp e.raw "state_key" = some user ∧
    strProp e.raw "room_id" = some room ∧ membershipOf e = some "join"

structure Departure (leave : EventId) (stored : StoredEvent) : Prop where
  current : ∃ current, currentState s fuel room = .ok current ∧
    current[memberKey user]? = some leave ∧ membershipIn s current user ∈ ["leave", "ban"]
  held : s.event[leave]? = some stored

/-- The event comes after the leave: in the room's order, or as its descendant where it has no
position in that. -/
def After (leave : EventId) (position : Nat) (id : EventId) : Prop :=
  (∃ n : Nat, position < n ∧ s.roomSeq[(room, n)]? = some id) ∨
    (∀ n : Nat, s.roomSeq[(room, n)]? ≠ some id) ∧ Ancestor s id leave

end

namespace CsState

variable (cs : CsState) (fed : Nat → Option FederationState) (w : Shards) (user : UserId) (room : RoomId)

def read : RoomRead → Except ApiError (Shards × List ClientEvent)
  | .state => do return (w, ← cs.getStateEvents w user room)
  | .members query => do return (w, ← cs.getMembers w user room query)
  | .messages query => do
    let (w, page) ← cs.getMessages fed w user room query
    return (w, page.chunk ++ page.state)
  | .context target limit => do return (w, (← cs.getContext w user room target limit).events)

def Serves (s : Store) (e : ClientEvent) : Prop :=
  ∃ version, versionOf (cs.forRoom w room) room = .ok version ∧
    clientEvent s cs.fuel room cs.ruma version user e.eventId = .ok (some e)

/-- The last position among the newer neighbours of an event, or its own if they have none. -/
def LastAround (stored : StoredEvent) (ceiling : Option Nat) (limit n : Nat) : Prop :=
  let rows pos id := Newer (cs.forRoom w room) room stored ceiling limit pos id ∧
    (rawEvent (cs.forRoom w room) id).isSome
  IsNewest rows n ∨ (∀ m id, ¬ rows (.timeline m) id) ∧ stored.seq ≠ 0 ∧ n = stored.seq

/-- The events that a request of a user who has left takes from elsewhere than the room's order up to the leave.
These are events that the state at the leave, or at a position before it, names, the rows of the history that
are in reach, and around the event that a context is asked for all that is older. `t` are the shards with what
was fetched. -/
inductive Loose (leave : StoredEvent) (t : Shards) : RoomRead → EventId → Prop
  | state {frozen : StateIds} {id : EventId}
      (after : resolveGroup (cs.forRoom w room) cs.fuel room leave.stateGroupAfter = .ok frozen)
      (named : id ∈ frozen.vals) (held : (rawEvent (cs.forRoom w room) id).isSome) : Loose leave t .state id
  | member {q : MembersQuery} {state : StateIds} {other : UserId} {e : ClientEvent}
      (asOf : q.pos.elim (resolveGroup (cs.forRoom w room) cs.fuel room leave.stateGroupAfter) (fun bound =>
        stateAtSeq (cs.forRoom w room) cs.fuel room (min bound.atSeq leave.seq)) = .ok state)
      (named : state[memberKey other]? = some e.eventId) (served : cs.Serves w user room (cs.forRoom w room) e)
      (selected : membershipMatches q e) : Loose leave t (.members (.ok q)) e.eventId
  | history {q : MessagesQuery} {idx : Nat} {e : ClientEvent}
      (row : cs.PageRow fed room w (some leave.seq) q (.history idx) e.eventId)
      (served : cs.Serves w user room (cs.forRoom t room) e) (selected : urlMatches q.containsUrl e) :
      Loose leave t (.messages (.ok q)) e.eventId
  | sender {q : MessagesQuery} {n : Nat} {snapshot : StateIds} {pos : RowPos} {e : ClientEvent} {other : UserId}
      {id : EventId} (lazy : q.lazyLoadMembers = true)
      (newest : IsNewest (cs.PageRow fed room w (some leave.seq) q) n)
      (asOf : stateAtSeq (cs.forRoom t room) cs.fuel room n = .ok snapshot)
      (row : cs.PageRow fed room w (some leave.seq) q pos e.eventId)
      (served : cs.Serves w user room (cs.forRoom t room) e) (selected : urlMatches q.containsUrl e)
      (sent : strProp e.body "sender" = some other) (named : snapshot[memberKey other]? = some id)
      (held : (rawEvent (cs.forRoom t room) id).isSome) : Loose leave t (.messages (.ok q)) id
  | target {limit : Nat} {id : EventId} : Loose leave t (.context id limit) id
  | older {target id : EventId} {stored : StoredEvent} {limit : Nat} {pos : RowPos}
      (known : (cs.forRoom w room).event[target]? = some stored)
      (row : Older (cs.forRoom w room) room stored (min limit 100) pos id)
      (held : (rawEvent (cs.forRoom w room) id).isSome) : Loose leave t (.context target limit) id
  | newer {target id : EventId} {stored : StoredEvent} {limit idx : Nat}
      (known : (cs.forRoom w room).event[target]? = some stored)
      (row : Newer (cs.forRoom w room) room stored (some leave.seq) (min limit 100) (.history idx) id)
      (held : (rawEvent (cs.forRoom w room) id).isSome) : Loose leave t (.context target limit) id
  | around {target id : EventId} {stored : StoredEvent} {limit n : Nat} {state : StateIds}
      (known : (cs.forRoom w room).event[target]? = some stored)
      (newest : cs.LastAround w room stored (some leave.seq) (min limit 100) n)
      (asOf : stateAtSeq (cs.forRoom w room) cs.fuel room n = .ok state) (named : id ∈ state.vals)
      (held : (rawEvent (cs.forRoom w room) id).isSome) : Loose leave t (.context target limit) id

/-- Who is let in was in the room, and who has left gets nothing from after the leave. -/
structure Departs (request : RoomRead) : Prop where
  entered : ∀ view, memberView (cs.forRoom w room) cs.fuel room user = .ok view →
    JoinedNow (cs.forRoom w room) cs.fuel room user ∨ PastJoin (cs.forRoom w room) room user
  bounded : ∀ leave stored, Departure (cs.forRoom w room) cs.fuel room user leave stored →
    ∀ t events, cs.read fed w user room request = .ok (t, events) →
      ∀ e ∈ events, ¬ After (cs.forRoom t room) room leave stored.seq e.eventId

end CsState

/-! ## The view of a room -/

section View

variable {s : Store} {fuel : Nat} {room : RoomId} {user : UserId} {stored : StoredEvent} {leave : EventId}

theorem memberView_cases {view : StateIds × Option Nat} (h : memberView s fuel room user = .ok view) :
    (JoinedNow s fuel room user ∧ view.2 = none) ∨
      ∃ leave stored, Departure s fuel room user leave stored ∧ view.2 = some stored.seq ∧
        resolveGroup s fuel room stored.stateGroupAfter = .ok view.1 := by
  obtain ⟨current, known, h⟩ := bind_eq_ok.1 h
  split at h
  · rename_i joined
    obtain rfl := pure_eq_ok.1 h
    exact .inl ⟨⟨current, known, joined⟩, rfl⟩
  split at h
  · rename_i gone
    unfold departedView at h
    cases named : current[memberKey user]? with
    | none => simp [named] at h
    | some leave =>
      cases held : s.event[leave]? with
      | none => simp [named, held] at h
      | some stored =>
        simp only [named, Option.bind_some, held, bind_eq_ok, pure_eq_ok] at h
        obtain ⟨frozen, resolved, rfl⟩ := h
        exact .inr ⟨leave, stored, ⟨⟨current, known, named, gone⟩, held⟩, rfl, resolved⟩
  · cases h

theorem Departure.not_joined
    (gone : Departure s fuel room user leave stored) : ¬ JoinedNow s fuel room user := by
  rintro ⟨current', known', joined⟩
  obtain ⟨current, known, -, gone⟩ := gone.current
  obtain rfl := ok_unique known known'
  rw [joined] at gone
  simp at gone

theorem Departure.view {frozen : StateIds} (gone : Departure s fuel room user leave stored)
    (resolved : resolveGroup s fuel room stored.stateGroupAfter = .ok frozen) :
    memberView s fuel room user = .ok (frozen, some stored.seq) := by
  obtain ⟨current, known, named, left⟩ := gone.current
  refine bind_eq_ok.2 ⟨current, known, ?_⟩
  have out : membershipIn s current user ≠ "join" := by
    intro joined
    rw [joined] at left
    simp at left
  rw [if_neg out, if_pos left, departedView, named]
  simp only [Option.bind_some, gone.held, bind_eq_ok, pure_eq_ok]
  exact ⟨frozen, resolved, rfl⟩

theorem Departure.viewed (gone : Departure s fuel room user leave stored) {view : StateIds × Option Nat}
    (h : memberView s fuel room user = .ok view) :
    resolveGroup s fuel room stored.stateGroupAfter = .ok view.1 ∧ view.2 = some stored.seq := by
  rcases memberView_cases h with ⟨joined, -⟩ | ⟨leave', stored', other, bound, resolved⟩
  · exact absurd joined gone.not_joined
  · obtain ⟨current, known, named, -⟩ := gone.current
    obtain ⟨current', known', named', -⟩ := other.current
    obtain rfl := ok_unique known known'
    obtain rfl := some_unique named named'
    obtain rfl := some_unique gone.held other.held
    exact ⟨resolved, bound⟩

end View

/-! ## What the endpoints answer -/

section Answers

variable {cs : CsState} {fed : Nat → Option FederationState} {w t : Shards} {user : UserId}
  {room : RoomId} {events : List ClientEvent} {target : EventId}

/-- What a departed user is answered is what the request takes from elsewhere, and otherwise rows of the room's
order up to the leave. -/
structure Answers (cs : CsState) (fed : Nat → Option FederationState) (w : Shards) (user : UserId)
    (room : RoomId) (leave : StoredEvent) (request : RoomRead) (t : Shards) (events : List ClientEvent) : Prop where
  order : (cs.forRoom t room).roomSeq = (cs.forRoom w room).roomSeq
  source : ∀ e ∈ events, cs.Loose fed w user room leave t request e.eventId ∨
    ∃ n : Nat, (cs.forRoom w room).roomSeq[(room, n)]? = some e.eventId ∧ n ≤ leave.seq
  loose : ∀ id, cs.Loose fed w user room leave t request id → ∃ e ∈ events, e.eventId = id

section Departed

variable {leave : StoredEvent} {leaveId : EventId}

theorem state_answers (gone : Departure (cs.forRoom w room) cs.fuel room user leaveId leave)
    (h : cs.getStateEvents w user room = .ok events) : Answers cs fed w user room leave .state w events := by
  obtain ⟨-, -, h⟩ := bind_eq_ok.1 h
  obtain ⟨view, viewed, h⟩ := bind_eq_ok.1 h
  obtain ⟨version, versioned, h⟩ := bind_eq_ok.1 h
  obtain ⟨after, -⟩ := gone.viewed viewed
  refine ⟨rfl, fun e mem => ?_, fun id loose => ?_⟩
  · obtain ⟨named, held⟩ := (mem_clientEvents_ids h).1 ⟨e, mem, rfl⟩
    exact .inl (.state after named held)
  · cases loose with
    | state after' named held =>
      obtain rfl := ok_unique after after'
      exact (mem_clientEvents_ids h).2 ⟨named, held⟩

theorem mem_members {state : StateIds} {id : EventId} :
    id ∈ (state.rows fun k => k.1 = "m.room.member").map Prod.snd ↔ ∃ other, state[memberKey other]? = some id := by
  rw [List.mem_map]
  constructor
  · rintro ⟨⟨⟨type, other⟩, id⟩, mem, rfl⟩
    obtain ⟨held, own⟩ := OrdMap.mem_rows.1 mem
    obtain rfl : type = "m.room.member" := of_decide_eq_true own
    exact ⟨other, held⟩
  · rintro ⟨other, held⟩
    exact ⟨(memberKey other, id), OrdMap.mem_rows.2 ⟨held, decide_eq_true rfl⟩, rfl⟩

theorem members_answers (gone : Departure (cs.forRoom w room) cs.fuel room user leaveId leave)
    {query : Except ApiError MembersQuery} (h : cs.getMembers w user room query = .ok events) :
    Answers cs fed w user room leave (.members query) w events := by
  obtain ⟨-, -, h⟩ := bind_eq_ok.1 h
  obtain ⟨view, viewed, h⟩ := bind_eq_ok.1 h
  obtain ⟨q, rfl, rest⟩ := bind_eq_ok.1 h
  obtain ⟨state, asOf, h⟩ := bind_eq_ok.1 rest
  obtain ⟨version, versioned, h⟩ := bind_eq_ok.1 h
  obtain ⟨all, listed, h⟩ := bind_eq_ok.1 h
  obtain rfl := pure_eq_ok.1 h
  obtain ⟨after, bound⟩ := gone.viewed viewed
  have asOf : q.pos.elim (resolveGroup (cs.forRoom w room) cs.fuel room leave.stateGroupAfter) (fun bound =>
      stateAtSeq (cs.forRoom w room) cs.fuel room (min bound.atSeq leave.seq)) = .ok state := by
    unfold CsState.membersState at asOf
    cases pos : q.pos with
    | none =>
      rw [pos] at asOf
      obtain rfl := Except.ok.inj asOf
      exact after
    | some at_ =>
      rw [pos, bound] at asOf
      exact asOf
  refine ⟨rfl, fun e mem => ?_, fun id loose => ?_⟩
  · obtain ⟨mem, selected⟩ := List.mem_filter.1 mem
    obtain ⟨named, served⟩ := (mem_clientEvents listed).1 mem
    obtain ⟨other, named⟩ := mem_members.1 named
    exact .inl (.member asOf named ⟨version, versioned, served⟩ selected)
  · cases loose with
    | @member _ _ _ e asOf' named served selected =>
      obtain ⟨version', versioned', served⟩ := served
      obtain rfl := ok_unique asOf asOf'
      obtain rfl := ok_unique versioned versioned'
      exact ⟨e, List.mem_filter.2 ⟨(mem_clientEvents listed).2 ⟨mem_members.2 ⟨_, named⟩, served⟩, selected⟩, rfl⟩

theorem mem_senderEvents {s : Store} {version : RoomVersion} {lazy : Bool} {rows : List Row}
    {chunk state : List ClientEvent} (h : cs.senderEvents s room version user lazy rows chunk = .ok state)
    {id : EventId} : (∃ e ∈ state, e.eventId = id) ↔ lazy = true ∧ ∃ n snapshot e other,
      IsNewest (fun pos id => (pos, id) ∈ rows) n ∧ stateAtSeq s cs.fuel room n = .ok snapshot ∧ e ∈ chunk ∧
        strProp e.body "sender" = some other ∧ snapshot[memberKey other]? = some id ∧ (rawEvent s id).isSome := by
  have chosen : ((CsState.newestSeq rows).filter fun _ => lazy) = if lazy then CsState.newestSeq rows else none := by
    cases lazy <;> cases CsState.newestSeq rows <;> rfl
  rw [CsState.senderEvents, chosen] at h
  cases lazy with
  | false =>
    obtain rfl := Except.ok.inj h
    simp
  | true =>
    rw [if_pos rfl] at h
    cases newest : CsState.newestSeq rows with
    | none =>
      rw [newest] at h
      obtain rfl := Except.ok.inj h
      refine ⟨fun ⟨e, mem, _⟩ => absurd mem List.not_mem_nil, ?_⟩
      rintro ⟨-, n, _, _, _, last, -⟩
      rw [newestSeq_eq_some.2 last] at newest
      cases newest
    | some n =>
      rw [newest] at h
      obtain ⟨snapshot, asOf, h⟩ := bind_eq_ok.1 h
      rw [mem_clientEvents_ids h]
      simp only [List.mem_filterMap, List.mem_eraseDups, true_and]
      constructor
      · rintro ⟨⟨other, ⟨e, mem, sent⟩, named⟩, held⟩
        exact ⟨n, snapshot, e, other, newestSeq_eq_some.1 newest, asOf, mem, sent, named, held⟩
      · rintro ⟨n', snapshot', e, other, newest', asOf', mem, sent, named, held⟩
        obtain rfl := some_unique newest (newestSeq_eq_some.2 newest')
        obtain rfl := ok_unique asOf asOf'
        exact ⟨⟨other, ⟨e, mem, sent⟩, named⟩, held⟩

theorem messages_answers (gone : Departure (cs.forRoom w room) cs.fuel room user leaveId leave)
    {query : Except ApiError MessagesQuery} {page : Messages}
    (h : cs.getMessages fed w user room query = .ok (t, page)) :
    Answers cs fed w user room leave (.messages query) t (page.chunk ++ page.state) := by
  obtain ⟨-, -, h⟩ := bind_eq_ok.1 h
  obtain ⟨view, viewed, h⟩ := bind_eq_ok.1 h
  rw [mapError_eq_ok] at viewed
  obtain ⟨version, versioned, h⟩ := bind_eq_ok.1 h
  obtain ⟨q, rfl, rest⟩ := bind_eq_ok.1 h
  obtain ⟨rows, paged, h⟩ := bind_eq_ok.1 rest
  obtain ⟨all, listed, h⟩ := bind_eq_ok.1 h
  obtain ⟨state, members, h⟩ := bind_eq_ok.1 h
  obtain ⟨rfl, rfl⟩ := ok_pair h
  obtain ⟨-, bound⟩ := gone.viewed viewed
  rw [bound] at paged
  have row {pos : RowPos} {id : EventId} : (pos, id) ∈ rows.rows ↔
      cs.PageRow fed room w (some leave.seq) q pos id := mem_pageOf paged
  have chunk {e : ClientEvent} : e ∈ all.filter (CsState.urlMatches q.containsUrl) ↔
      (∃ pos, cs.PageRow fed room w (some leave.seq) q pos e.eventId) ∧
        cs.Serves w user room (cs.forRoom rows.shards room) e ∧ CsState.urlMatches q.containsUrl e := by
    rw [List.mem_filter, mem_clientEvents listed]
    constructor
    · rintro ⟨⟨named, served⟩, selected⟩
      obtain ⟨⟨pos, id⟩, mem, rfl⟩ := List.mem_map.1 named
      exact ⟨⟨pos, row.1 mem⟩, ⟨version, versioned, served⟩, selected⟩
    · rintro ⟨⟨pos, reached⟩, ⟨version', versioned', served⟩, selected⟩
      obtain rfl := ok_unique versioned versioned'
      exact ⟨⟨List.mem_map.2 ⟨_, row.2 reached, rfl⟩, served⟩, selected⟩
  have newest {n : Nat} : IsNewest (fun pos id => (pos, id) ∈ rows.rows) n ↔
      IsNewest (cs.PageRow fed room w (some leave.seq) q) n := by
    simp only [IsNewest, row]
  refine ⟨pageOf_roomSeq paged, fun e mem => ?_, fun id loose => ?_⟩
  · rcases List.mem_append.1 mem with mem | mem
    · obtain ⟨⟨pos, reached⟩, served, selected⟩ := chunk.1 mem
      cases pos with
      | timeline n =>
        obtain ⟨placed, within⟩ := reached.timeline
        exact .inr ⟨n, placed, within _ rfl⟩
      | history idx => exact .inl (.history reached served selected)
    · obtain ⟨lazy, n, snapshot, e', other, last, asOf, mem, sent, named, held⟩ :=
        (mem_senderEvents members).1 ⟨e, mem, rfl⟩
      obtain ⟨⟨pos, reached⟩, served, selected⟩ := chunk.1 mem
      exact .inl (.sender lazy (newest.1 last) asOf reached served selected sent named held)
  · cases loose with
    | @history _ _ e reached served selected =>
      exact ⟨e, List.mem_append_left _ (chunk.2 ⟨⟨_, reached⟩, served, selected⟩), rfl⟩
    | sender lazy last asOf reached served selected sent named held =>
      obtain ⟨e, mem, own⟩ := (mem_senderEvents members).2 ⟨lazy, _, _, _, _, newest.2 last, asOf,
        chunk.2 ⟨⟨_, reached⟩, served, selected⟩, sent, named, held⟩
      exact ⟨e, List.mem_append_right _ mem, own⟩

structure Surrounds (cs : CsState) (w : Shards) (user : UserId) (room : RoomId) (target : EventId) (limit : Nat)
    (c : Context) (stored : StoredEvent) (view : StateIds × Option Nat) (version : RoomVersion)
    (near : CsState.Neighbours) : Prop where
  held : (cs.forRoom w room).event[target]? = some stored
  viewed : memberView (cs.forRoom w room) cs.fuel room user = .ok view
  versioned : CsState.versionOf (cs.forRoom w room) room = .ok version
  served : clientEvent (cs.forRoom w room) cs.fuel room cs.ruma version user target = .ok (some c.event)
  around : cs.neighbours w user room stored view.2 (min limit 100) = .ok near
  older : c.eventsBefore = near.before.map Prod.snd
  newer : c.eventsAfter = near.after.map Prod.snd
  state : cs.stateAtNewest (cs.forRoom w room) room version user (CsState.statePosition stored near) = .ok c.state
  past : stored.seq = 0 → historyReadable (cs.forRoom w room) cs.fuel room = .ok true ∧
    c.startPos = (near.before.getLast?.map Prod.fst).getD (.history (stored.historyIdx.getD 0)) ∧
    c.endPos = (near.newest.map RowPos.timeline).getD
      ((near.after.getLast?.map Prod.fst).getD (.history (stored.historyIdx.getD 0))).pred
  placed : stored.seq ≠ 0 →
    c.startPos = ((near.before.getLast?.map Prod.fst).getD (.timeline stored.seq)).pred ∧
    c.endPos = .timeline (near.newest.getD stored.seq)

theorem getContext_ok {limit : Nat} {c : Context}
    (h : cs.getContext w user room target limit = .ok c) :
    ∃ stored view version near, Surrounds cs w user room target limit c stored view version near := by
  obtain ⟨view, viewed, h⟩ := bind_eq_ok.1 h
  obtain ⟨version, versioned, h⟩ := bind_eq_ok.1 h
  cases held : (cs.forRoom w room).event[target]? with
  | none => simp [held] at h
  | some stored =>
    simp only [held] at h
    obtain ⟨found, served, h⟩ := bind_eq_ok.1 h
    cases found with
    | none => cases h
    | some event =>
      dsimp only at h
      split at h
      · rename_i backfilled
        cases indexed : stored.historyIdx with
        | none => simp [indexed] at h
        | some idx =>
          simp only [indexed] at h
          obtain ⟨readable, may, h⟩ := bind_eq_ok.1 h
          split at h
          · rename_i open_
            obtain rfl : readable = true := open_
            obtain ⟨near, around, h⟩ := bind_eq_ok.1 h
            obtain ⟨state, asOf, h⟩ := bind_eq_ok.1 h
            obtain rfl := pure_eq_ok.1 h
            refine ⟨stored, view, version, near, held, viewed, versioned, served, ?_, rfl, rfl, ?_, ?_,
              fun placed => absurd backfilled placed⟩
            · refine bind_eq_ok.2 ⟨version, versioned, ?_⟩
              rw [if_pos backfilled, indexed]
              exact around
            · rw [CsState.statePosition, if_pos backfilled]
              exact asOf
            · refine fun _ => ⟨may, by rw [indexed]; rfl, ?_⟩
              rw [indexed]
              cases near.newest <;> rfl
          · cases h
      · rename_i placed
        obtain ⟨visible, -, h⟩ := bind_eq_ok.1 h
        split at h
        · obtain ⟨near, around, h⟩ := bind_eq_ok.1 h
          obtain ⟨state, asOf, h⟩ := bind_eq_ok.1 h
          obtain rfl := pure_eq_ok.1 h
          refine ⟨stored, view, version, near, held, viewed, versioned, served, ?_, rfl, rfl, ?_,
            fun backfilled => absurd backfilled placed, fun _ => ⟨rfl, rfl⟩⟩
          · refine bind_eq_ok.2 ⟨version, versioned, ?_⟩
            rw [if_neg placed]
            exact around
          · rw [CsState.statePosition, if_neg placed]
            exact asOf
        · cases h

theorem statePosition_eq_some {stored : StoredEvent} {ceiling : Option Nat} {limit n : Nat}
    {near : CsState.Neighbours} (around : cs.neighbours w user room stored ceiling limit = .ok near) :
    CsState.statePosition stored near = some n ↔ cs.LastAround w room stored ceiling limit n := by
  have row {pos : RowPos} {id : EventId} := (mem_neighbours pos id around).2
  have newest {n : Nat} : near.newest = some n ↔ IsNewest (fun pos id =>
      Newer (cs.forRoom w room) room stored ceiling limit pos id ∧ (rawEvent (cs.forRoom w room) id).isSome) n := by
    rw [CsState.Neighbours.newest, newestSeq_eq_some]
    simp only [IsNewest, row]
  have alone : near.newest = none ↔ ∀ m id, ¬ (Newer (cs.forRoom w room) room stored ceiling limit (.timeline m) id ∧
      (rawEvent (cs.forRoom w room) id).isSome) := by
    rw [CsState.Neighbours.newest, newestSeq_eq_none]
    simp only [row]
  unfold CsState.statePosition CsState.LastAround
  dsimp only
  rw [← newest, ← alone]
  by_cases placed : stored.seq = 0
  · simp [placed]
  · cases near.newest <;> simp [placed, eq_comm]

theorem mem_stateAtNewest {s : Store} {version : RoomVersion} {newest : Option Nat} {state : List ClientEvent}
    (h : cs.stateAtNewest s room version user newest = .ok state) {id : EventId} :
    (∃ e ∈ state, e.eventId = id) ↔ ∃ n ids, newest = some n ∧ stateAtSeq s cs.fuel room n = .ok ids ∧
      id ∈ ids.vals ∧ (rawEvent s id).isSome := by
  cases newest with
  | none =>
    obtain rfl := Except.ok.inj h
    simp
  | some n =>
    obtain ⟨ids, asOf, h⟩ := bind_eq_ok.1 h
    rw [mem_clientEvents_ids h]
    constructor
    · rintro ⟨named, held⟩
      exact ⟨n, ids, rfl, asOf, named, held⟩
    · rintro ⟨n', ids', same, asOf', named, held⟩
      cases same
      obtain rfl := ok_unique asOf asOf'
      exact ⟨named, held⟩

theorem context_answers (gone : Departure (cs.forRoom w room) cs.fuel room user leaveId leave) {limit : Nat}
    {c : Context} (h : cs.getContext w user room target limit = .ok c) :
    Answers cs fed w user room leave (.context target limit) w c.events := by
  obtain ⟨stored, view, version, near, known, viewed, versioned, served, around, older, newer, asOf, -⟩ :=
    getContext_ok h
  obtain ⟨-, bound⟩ := gone.viewed viewed
  rw [bound] at around
  have rows {pos : RowPos} {id : EventId} := mem_neighbours pos id around
  have own := clientEvent_id served
  simp only [Context.events, older, newer]
  refine ⟨rfl, fun e mem => ?_, fun id loose => ?_⟩
  · simp only [List.mem_cons, List.mem_append, List.mem_map] at mem
    rcases mem with rfl | (⟨⟨pos, e⟩, row, rfl⟩ | ⟨⟨pos, e⟩, row, rfl⟩) | mem
    · exact .inl (own ▸ .target)
    · obtain ⟨reached, held⟩ := rows.1.1 (List.mem_map_of_mem row)
      exact .inl (.older known reached held)
    · obtain ⟨reached, held⟩ := rows.2.1 (List.mem_map_of_mem row)
      cases pos with
      | timeline n =>
        obtain ⟨placed, within⟩ := reached.timeline
        exact .inr ⟨n, placed, within _ rfl⟩
      | history idx => exact .inl (.newer known reached held)
    · obtain ⟨n, ids, last, asOf, named, held⟩ := (mem_stateAtNewest asOf).1 ⟨e, mem, rfl⟩
      exact .inl (.around known ((statePosition_eq_some around).1 last) asOf named held)
  · have listed {l : List (RowPos × ClientEvent)} {pos : RowPos} {id : EventId}
        (mem : (pos, id) ∈ l.map fun r => (r.1, r.2.eventId)) : ∃ e ∈ l.map Prod.snd, e.eventId = id := by
      obtain ⟨⟨pos, e⟩, row, same⟩ := List.mem_map.1 mem
      cases same
      exact ⟨e, List.mem_map_of_mem row, rfl⟩
    cases loose with
    | target => exact ⟨c.event, List.mem_cons_self, own⟩
    | older known' reached held =>
      obtain rfl := some_unique known known'
      obtain ⟨e, mem, same⟩ := listed (rows.1.2 ⟨reached, held⟩)
      exact ⟨e, by simp [mem], same⟩
    | newer known' reached held =>
      obtain rfl := some_unique known known'
      obtain ⟨e, mem, same⟩ := listed (rows.2.2 ⟨reached, held⟩)
      exact ⟨e, by simp [mem], same⟩
    | around known' last asOf' named held =>
      obtain rfl := some_unique known known'
      obtain ⟨e, mem, same⟩ := (mem_stateAtNewest asOf).2 ⟨_, _, (statePosition_eq_some around).2 last, asOf',
        named, held⟩
      exact ⟨e, by simp [mem], same⟩

theorem read_answers (gone : Departure (cs.forRoom w room) cs.fuel room user leaveId leave) {request : RoomRead}
    (h : cs.read fed w user room request = .ok (t, events)) :
    Answers cs fed w user room leave request t events := by
  cases request with
  | state =>
    obtain ⟨found, answered, same⟩ := bind_eq_ok.1 h
    obtain ⟨rfl, rfl⟩ := ok_pair same
    exact state_answers gone answered
  | members query =>
    obtain ⟨found, answered, same⟩ := bind_eq_ok.1 h
    obtain ⟨rfl, rfl⟩ := ok_pair same
    exact members_answers gone answered
  | messages query =>
    obtain ⟨⟨u, page⟩, answered, same⟩ := bind_eq_ok.1 h
    obtain ⟨rfl, rfl⟩ := ok_pair same
    exact messages_answers gone answered
  | context target limit =>
    obtain ⟨c, answered, same⟩ := bind_eq_ok.1 h
    obtain ⟨rfl, rfl⟩ := ok_pair same
    exact context_answers gone answered

end Departed

/-- Who is let in was in the room if and only if every departure that has a state is of somebody who
joined. And nothing from after the leave is answered if and only if nothing of that is in reach of the request
elsewhere than in the room's order up to the leave. -/
theorem departed_iff {P : Store → RoomCommand → Prop} (request : RoomRead)
    (run : Runs P Store.empty (cs.forRoom w room)) :
    cs.Departs fed w user room request ↔
      (∀ leave stored frozen, Departure (cs.forRoom w room) cs.fuel room user leave stored →
        resolveGroup (cs.forRoom w room) cs.fuel room stored.stateGroupAfter = .ok frozen →
          PastJoin (cs.forRoom w room) room user) ∧
      ∀ leave stored, Departure (cs.forRoom w room) cs.fuel room user leave stored →
        ∀ t events, cs.read fed w user room request = .ok (t, events) →
          ∀ id, cs.Loose fed w user room stored t request id →
            ¬ After (cs.forRoom t room) room leave stored.seq id := by
  have ordered := run_inOrder run
  constructor
  · rintro ⟨entered, bounded⟩
    refine ⟨fun leave stored frozen gone resolved => ?_, fun leave stored gone t events answered id loose => ?_⟩
    · rcases entered _ (gone.view resolved) with joined | past
      · exact absurd joined gone.not_joined
      · exact past
    · obtain ⟨e, mem, rfl⟩ := (read_answers gone answered).loose id loose
      exact bounded leave stored gone t events answered e mem
  · rintro ⟨entered, bounded⟩
    constructor
    · intro view viewed
      rcases memberView_cases viewed with ⟨joined, -⟩ | ⟨leave, stored, gone, -, resolved⟩
      · exact .inl joined
      · exact .inr (entered leave stored _ gone resolved)
    · intro leave stored gone t events answered e mem
      obtain ⟨order, source, -⟩ := read_answers gone answered
      rcases source e mem with loose | ⟨n, row, below⟩
      · exact bounded leave stored gone t events answered e.eventId loose
      · rintro (⟨m, past, row'⟩ | ⟨off, -⟩)
        · rw [order] at row'
          have : n = m := ordered.once _ _ _ _ row row'
          omega
        · exact off n (order ▸ row)

end Answers

/-! ## Two departures -/

def sampleHolding (s : Store) : Shards := { sampleShards with rooms := fun _ => s }

def sampleUnreachable : Nat → Option FederationState := fun _ => none

def sampleLeave : JsonObject :=
  Ruma.samplePdu "l" "m.room.member" (some "@a:x") "@a:x" [("membership", .string "leave")]
    ["$c", "$j"] ["$j"] 3

def sampleBan : JsonObject :=
  Ruma.samplePdu "b" "m.room.member" (some "@b:x") "@a:x" [("membership", .string "ban")]
    ["$c", "$j"] ["$j"] 3

theorem departed_iff_sample : ∃ s : Store,
    Runs (fun s cmd => Serial Ruma.sample s cmd ∧ True) Store.empty s ∧
    (memberView s 9 "!r:x" "@a:x").toOption.isSome ∧
    sampleCsState.Departs sampleUnreachable (sampleHolding s) "@a:x" "!r:x" .state := by
  obtain ⟨s, run, h⟩ := exists_run (fun _ _ => True)
    [.ingest Ruma.sampleCreate false, .ingest Ruma.sampleJoin false, .ingest sampleLeave false]
    (fun s : Store => (memberView s 9 "!r:x" "@a:x").toOption.any (fun view : StateIds × Option Nat =>
        decide (view.1.vals = ["$c", "$l"]) && decide (view.2 = some 3)) &&
      (s.event["$j"]?).any (fun e : StoredEvent => e.rejected.isNone &&
        decide (strProp e.raw "type" = some "m.room.member") &&
        decide (strProp e.raw "state_key" = some "@a:x") &&
        decide (strProp e.raw "room_id" = some "!r:x") && decide (membershipOf e = some "join")) &&
      decide (s.roomSeq[("!r:x", 1)]? = some "$c") && decide (s.roomSeq[("!r:x", 3)]? = some "$l"))
    (by decide +kernel)
  simp only [Bool.and_eq_true, Option.any_eq_true, decide_eq_true_eq, Option.isNone_iff_eq_none] at h
  obtain ⟨⟨⟨⟨view, viewed, named, bound⟩, e, held, ⟨⟨⟨accepted, type⟩, key⟩, inRoom⟩, joined⟩, first⟩,
    third⟩ := h
  refine ⟨s, run, by rw [viewed]; rfl, (departed_iff .state run).2 ⟨fun _ _ _ _ _ =>
    ⟨"$j", e, held, accepted, type, key, inRoom, joined⟩, fun leave stored gone t events answered id loose =>
      ?_⟩⟩
  rw [toOption_eq_some] at viewed
  have same := (read_answers gone answered).order
  obtain ⟨after, ceiling⟩ := gone.viewed viewed
  have atThree : 3 = stored.seq := some_unique bound ceiling
  have placed : ∃ n ≤ 3, s.roomSeq[("!r:x", n)]? = some id := by
    cases loose with
    | state after' listed _ =>
      obtain rfl := ok_unique after after'
      rw [named] at listed
      rcases List.mem_pair.1 listed with own | own
      · exact ⟨1, by decide, by rw [own]; exact first⟩
      · exact ⟨3, by decide, by rw [own]; exact third⟩
  obtain ⟨n, early, row⟩ := placed
  rintro (⟨m, late, row'⟩ | ⟨off, -⟩)
  · rw [same] at row'
    have : n = m := (run_inOrder run).once _ _ _ _ row row'
    omega
  · exact off n (by rw [same]; exact row)

/-- The banned user never was in the room, and gets its state. -/
theorem banned_outsider_reads : ∃ s : Store,
    Runs (fun s cmd => Serial Ruma.sample s cmd ∧ True) Store.empty s ∧
    ((sampleCsState.getStateEvents (sampleHolding s) "@b:x" "!r:x").toOption.any fun events =>
      events.map ClientEvent.eventId = ["$c", "$j", "$b"]) ∧
    ¬ sampleCsState.Departs sampleUnreachable (sampleHolding s) "@b:x" "!r:x" .state := by
  obtain ⟨s, run, h⟩ := exists_run (fun _ _ => True)
    [.ingest Ruma.sampleCreate false, .ingest Ruma.sampleJoin false, .ingest sampleBan false]
    (fun s : Store => (sampleCsState.getStateEvents (sampleHolding s) "@b:x" "!r:x").toOption.any
        (fun events : List ClientEvent =>
        decide (events.map ClientEvent.eventId = ["$c", "$j", "$b"])) &&
      (memberView s 9 "!r:x" "@b:x").toOption.any (fun view : StateIds × Option Nat => decide (view.2 = some 3)) &&
      (s.event.rows fun _ => true).all (fun r : EventId × StoredEvent => decide (strProp r.2.raw "state_key" = some "@b:x" →
        membershipOf r.2 ≠ some "join")))
    (by decide +kernel)
  simp only [Bool.and_eq_true, Option.any_eq_true, decide_eq_true_eq, List.all_eq_true] at h
  obtain ⟨⟨⟨events, read, ids⟩, view, viewed, bound⟩, never⟩ := h
  refine ⟨s, run, ?_, fun departs => ?_⟩
  · rw [read, Option.any_some]
    exact decide_eq_true ids
  rw [toOption_eq_some] at viewed
  rcases departs.entered view viewed with joined | ⟨id, e, held, -, -, key, -, joined⟩
  · rcases memberView_cases viewed with ⟨-, unbounded⟩ | ⟨leave, stored, gone, -, -⟩
    · rw [bound] at unbounded
      cases unbounded
    · exact gone.not_joined joined
  · exact never (id, e) (OrdMap.mem_rows.2 ⟨held, rfl⟩) key joined

end Saltator.Client
