import Mathlib.Data.List.ReduceOption
import Saltator.Client.Error
import Saltator.Federation.JoinClient
import Saltator.Room.Serving

/-!
# Reading rooms

What the client endpoints read of a room, all from the store of the room's shard: scans of the room's
order, states, memberships, and events in the client format. Who may read a room at all is decided by
`memberView`, and who may see an event by `userCanSeeEvent`.
-/

namespace Saltator.Client

open Room
open StateRes (Key StateIds)
open Federation (insertMember)
open Saltator.Outcome

/-- An event in the client format, which has its id among its members. -/
structure ClientEvent where
  eventId : EventId
  body : JsonObject

def internalFault : StoreError → ApiError
  | .engine reason => .internal reason
  | .outOfFuel => .internal "out of fuel"

def memberKey (user : UserId) : Key := ("m.room.member", user)

/-! ## Scans -/

/-- The rows of a room with a number in `(after, upto]`, in order. -/
def scanned (table : OrdMap (RoomId × Nat) EventId) (room : RoomId) (after : Nat) (upto : Option Nat) :
    List (Nat × EventId) :=
  (table.rows fun k => k.1 = room ∧ after < k.2 ∧ upto.all fun n => k.2 ≤ n).map fun r => (r.1.2, r.2)

/-- These rows from the one end or the other, and no more than `limit` of them. -/
def scan (table : OrdMap (RoomId × Nat) EventId) (room : RoomId) (after : Nat) (upto : Option Nat)
    (limit : Nat) (descending : Bool) : List (Nat × EventId) :=
  let rows := scanned table room after upto
  (if descending then rows.reverse else rows).take limit

section

variable (s : Store) (fuel : Nat) (room : RoomId)

def roomTimeline (after : Nat) (upto : Option Nat) (limit : Nat) (newestFirst : Bool) :
    List (Nat × EventId) := scan s.roomSeq room after upto limit newestFirst

/-- The indexes of backfilled events grow with their age. -/
def roomHistory (after : Nat) (upto : Option Nat) (limit : Nat) (oldestFirst : Bool) :
    List (Nat × EventId) := scan s.history room after upto limit oldestFirst

/-! ## States -/

def roomMeta : Except ApiError RoomMeta :=
  match s.room[room]? with
  | none => .error (.notFound "Unknown room")
  | some roomMeta => .ok roomMeta

def roomVersion (roomMeta : RoomMeta) : Except ApiError RoomVersion :=
  match RoomVersion.parse roomMeta.version with
  | none => .error (.internal ("unsupported room version: " ++ roomMeta.version))
  | some version => .ok version

def resolveGroup (group : Nat) : Except ApiError StateIds :=
  (s.resolveGroup fuel room group).mapError internalFault

def currentState : Except ApiError StateIds := do
  resolveGroup s fuel room (← roomMeta s room).currentGroup

def stateAtSeq (pos : Nat) : Except ApiError StateIds :=
  match (roomTimeline s room 0 (some pos) 1 true).head? with
  | none => .ok ∅
  | some (_, id) =>
    match s.event[id]? with
    | none => .ok ∅
    | some stored => resolveGroup s fuel room stored.stateGroupAfter

/-- A user's membership in a state, `leave` where it has none. -/
def membershipIn (state : StateIds) (user : UserId) : String :=
  ((state[memberKey user]?.bind fun id => s.event[id]?).bind membershipOf).getD "leave"

/-- The users whose membership in a state is `join`. -/
def joinedIn (state : StateIds) : List UserId :=
  (state.toList.filter fun entry =>
    entry.1.1 = "m.room.member" && membershipIn s state entry.1.2 = "join").map (·.1.2)

def joinedMemberIds : List UserId :=
  match currentState s fuel room with
  | .error _ => []
  | .ok state => joinedIn s state

def rawEvent (id : EventId) : Option JsonObject :=
  (s.event[id]?.filter fun stored => stored.rejected.isNone).map StoredEvent.raw

def stateContentIn (state : StateIds) (eventType : String) : Option Json :=
  (state[((eventType, "") : Key)]?.bind (rawEvent s)).bind fun raw => raw.lookup "content"

/-! ## Who may read -/

def departedView (current : StateIds) (user : UserId) : Except ApiError (StateIds × Option Nat) :=
  match current[memberKey user]?.bind fun id => s.event[id]? with
  | none => .error (.forbidden "You are not in this room")
  | some stored => do
    return (← resolveGroup s fuel room stored.stateGroupAfter, some stored.seq)

/-- What a current or former member may read: a state, and for a user who has left the position of
the leave. -/
def memberView (user : UserId) : Except ApiError (StateIds × Option Nat) := do
  let current ← currentState s fuel room
  if membershipIn s current user = "join" then return (current, none)
  else if membershipIn s current user ∈ ["leave", "ban"] then departedView s fuel room current user
  else .error (.forbidden "You are not joined to this room")

def visibilityIn (state : StateIds) : String :=
  ((stateContentIn s state "m.room.history_visibility").bind fun content =>
    strProp (Federation.members content) "history_visibility").getD "shared"

def userCanSeeEvent (id : EventId) (user : UserId) : Except ApiError Bool :=
  match s.event[id]? with
  | none => .ok false
  | some stored =>
    if stored.rejected.isSome ∨ stored.stateGroupAfter = 0 then .ok false
    else do
      let stateAt ← resolveGroup s fuel room stored.stateGroupAfter
      if membershipIn s stateAt user = "join" then return true
      else if visibilityIn s stateAt = "world_readable" then return true
      -- Anyone who is a member now.
      else if visibilityIn s stateAt = "shared" then
        return membershipIn s (← currentState s fuel room) user = "join"
      else return visibilityIn s stateAt = "invited" ∧ membershipIn s stateAt user = "invite"

/-! ## Events in the client format -/

def insertUnsigned (key : String) (v : Json) (o : JsonObject) : JsonObject :=
  insertMember "unsigned" (.object (insertMember key v ((objProp o "unsigned").getD []))) o

def servedEvent (ruma : Ruma) (id : EventId) (version : RoomVersion) :
    Except ApiError (Option JsonObject) :=
  match rawEvent s id with
  | none => .ok none
  | some raw =>
    match (s.redactedBy id).bind fun redactor => s.event[redactor]? with
    | none => .ok (some raw)
    | some redactor => do
      let redacted ← (redact ruma raw version).mapError fun e => .internal ("redact: " ++ e.reason)
      return some (insertUnsigned "redacted_because" (.object redactor.raw) redacted)

def toClientFormat (raw : JsonObject) (id : EventId) : JsonObject :=
  insertMember "event_id" (.string id) (insertMember "room_id" (.string room) (raw.filter fun m =>
      m.1 ∈ ["content", "origin_server_ts", "sender", "state_key", "type", "unsigned"]))

def prevStateContent (id : EventId) : Option (Json × String) := do
  let stored ← s.event[id]?
  let eventType ← strProp stored.raw "type"
  let stateKey ← strProp stored.raw "state_key"
  let replaced ← ((authEventIds stored.raw).filterMap fun a => s.event[a]?).find? fun e =>
    strProp e.raw "type" = some eventType ∧ strProp e.raw "state_key" = some stateKey
  return ((replaced.raw.lookup "content").getD .null, (strProp replaced.raw "sender").getD "")

def annotate (raw : JsonObject) (id : EventId) (membership : String) (ev : JsonObject) : JsonObject :=
  match ev.lookup "unsigned" with
  | none | some (.object _) =>
    let ev := insertUnsigned "membership" (.string membership) ev
    match if (raw.lookup "state_key").isSome then prevStateContent s id else none with
    | none => ev
    | some (content, sender) =>
      insertUnsigned "prev_sender" (.string sender) (insertUnsigned "prev_content" content ev)
  | some _ => ev

def formatEvent (raw : JsonObject) (stored : StoredEvent) (id : EventId) (asUser : UserId) :
    Except ApiError JsonObject :=
  if stored.stateGroupAfter = 0 then .ok (toClientFormat room raw id)
  else do
    let stateAt ← resolveGroup s fuel room stored.stateGroupAfter
    return annotate s raw id (membershipIn s stateAt asUser) (toClientFormat room raw id)

def clientEvent (ruma : Ruma) (version : RoomVersion) (asUser : UserId) (id : EventId) :
    Except ApiError (Option ClientEvent) := do
  let served ← servedEvent s ruma id version
  match served, s.event[id]? with
  | some raw, some stored => return some ⟨id, ← formatEvent s fuel room raw stored id asUser⟩
  | _, _ => return none

def clientEvents (ruma : Ruma) (version : RoomVersion) (asUser : UserId) (ids : List EventId) :
    Except ApiError (List ClientEvent) := do
  return (← ids.mapM (clientEvent s fuel room ruma version asUser)).reduceOption

end

section

variable {s : Store} {fuel : Nat} {room : RoomId} {ruma : Ruma} {version : RoomVersion} {user : UserId}
  {table : OrdMap (RoomId × Nat) EventId} {upto : Option Nat} {id : EventId} {r : Nat × EventId}
  {e : ClientEvent}

theorem mem_scanned {after : Nat} : r ∈ scanned table room after upto ↔
      table[(room, r.1)]? = some r.2 ∧ after < r.1 ∧ ∀ n, upto = some n → r.1 ≤ n := by
  have range (n : Nat) : (upto.all fun m => n ≤ m) = true ↔ ∀ m, upto = some m → n ≤ m := by
    cases upto <;> simp
  rw [scanned, List.mem_map]
  constructor
  · rintro ⟨⟨⟨own, n⟩, id⟩, mem, rfl⟩
    obtain ⟨held, selected⟩ := OrdMap.mem_rows.1 mem
    simp only [decide_eq_true_eq] at selected
    obtain ⟨rfl, above, below⟩ := selected
    exact ⟨held, above, (range n).1 below⟩
  · rintro ⟨held, above, below⟩
    exact ⟨((room, r.1), r.2), OrdMap.mem_rows.2 ⟨held, decide_eq_true ⟨rfl, above, (range r.1).2 below⟩⟩,
      rfl⟩

theorem scanned_sorted (table : OrdMap (RoomId × Nat) EventId) (room : RoomId) (after : Nat)
    (upto : Option Nat) : (scanned table room after upto).Pairwise fun a b => a.1 < b.1 := by
  refine List.Pairwise.map _ (R := fun a b : (RoomId × Nat) × EventId => a.1.1 = b.1.1 ∧
    compare a.1 b.1 = .lt) ?_ ?_
  · rintro ⟨⟨own, n⟩, id⟩ ⟨⟨own', n'⟩, id'⟩ ⟨same, less⟩
    dsimp only at same less
    rw [same, compare_mk_left] at less
    exact Nat.compare_eq_lt.1 less
  · refine List.Pairwise.imp_of_mem ?_ (table.ordered_keys_toList.filter _)
    intro a b mem mem' less
    have own := of_decide_eq_true (List.mem_filter.1 mem).2
    have own' := of_decide_eq_true (List.mem_filter.1 mem').2
    exact ⟨own.1.trans own'.1.symm, less⟩

theorem scanned_filter {table : OrdMap (RoomId × Nat) EventId} {after after' : Nat}
    {upto upto' : Option Nat} {p : Nat × EventId → Bool}
    (range : ∀ r : Nat × EventId, after < r.1 ∧ (∀ n, upto = some n → r.1 ≤ n) ↔
      (after' < r.1 ∧ ∀ n, upto' = some n → r.1 ≤ n) ∧ p r = true) :
    scanned table room after upto = (scanned table room after' upto').filter p := by
  have sorted (after : Nat) (upto : Option Nat) : (scanned table room after upto).Pairwise
      fun a b => compare a.1 b.1 = .lt :=
    (scanned_sorted table room after upto).imp fun less => Nat.compare_eq_lt.2 less
  refine OrdMap.eq_of_sorted (sorted after upto) ((sorted after' upto').filter p) fun r => ?_
  rw [List.mem_filter, mem_scanned, mem_scanned, range r]
  tauto

theorem mem_scan {after limit : Nat}
    {descending : Bool} (h : r ∈ scan table room after upto limit descending) :
    table[(room, r.1)]? = some r.2 ∧ after < r.1 ∧ ∀ n, upto = some n → r.1 ≤ n := by
  rw [← mem_scanned]
  have taken := List.mem_of_mem_take h
  split at taken
  · exact List.mem_reverse.1 taken
  · exact taken

theorem scan_newest {after n : Nat} (limit : Nat) (row : (n, id) ∈ scanned table room after upto) :
    (n, id) ∈ scan table room after upto limit true ∨
      (scan table room after upto limit true).length = limit ∧
        ∀ r ∈ scan table room after upto limit true, n < r.1 := by
  have sorted := List.pairwise_reverse.2 (scanned_sorted table room after upto)
  have listed := List.mem_reverse.2 row
  rw [← List.take_append_drop limit (scanned table room after upto).reverse] at sorted listed
  refine (List.mem_append.1 listed).imp (fun taken => taken) fun dropped => ⟨?_, fun r mem => ?_⟩
  · have := List.length_pos_of_mem dropped
    rw [List.length_drop] at this
    simp only [scan, if_true, List.length_take]
    omega
  · exact (List.pairwise_append.1 sorted).2.2 r mem (n, id) dropped

theorem clientEvent_id
    (h : clientEvent s fuel room ruma version user id = .ok (some e)) : e.eventId = id := by
  simp only [clientEvent, bind_eq_ok] at h
  obtain ⟨served, -, h⟩ := h
  split at h
  · simp only [bind_eq_ok, pure_eq_ok] at h
    obtain ⟨_, -, h⟩ := h
    cases h
    rfl
  · cases h

theorem clientEvent_accepted {stored : StoredEvent} {found : Option ClientEvent}
    (held : s.event[id]? = some stored) (accepted : stored.rejected = none)
    (h : clientEvent s fuel room ruma version user id = .ok found) : ∃ e, found = some e := by
  obtain ⟨served, own, h⟩ := bind_eq_ok.1 h
  have raw : rawEvent s id = some stored.raw := by
    simp [rawEvent, held, accepted]
  have some : ∃ o, served = some o := by
    unfold servedEvent at own
    rw [raw] at own
    dsimp only at own
    split at own
    · exact ⟨_, (Except.ok.inj own).symm⟩
    · obtain ⟨redacted, -, own⟩ := bind_eq_ok.1 own
      exact ⟨_, (pure_eq_ok.1 own).symm⟩
  obtain ⟨o, rfl⟩ := some
  rw [held] at h
  obtain ⟨body, -, h⟩ := bind_eq_ok.1 h
  exact ⟨_, (pure_eq_ok.1 h).symm⟩

theorem mem_clientEvents {ids : List EventId} {events : List ClientEvent}
    (h : clientEvents s fuel room ruma version user ids = .ok events) :
    e ∈ events ↔ e.eventId ∈ ids ∧ clientEvent s fuel room ruma version user e.eventId = .ok (some e) := by
  simp only [clientEvents, bind_eq_ok, pure_eq_ok] at h
  obtain ⟨found, each, rfl⟩ := h
  rw [List.reduceOption_mem_iff, mem_of_mapM each]
  constructor
  · rintro ⟨id, listed, served⟩
    obtain rfl := clientEvent_id served
    exact ⟨listed, served⟩
  · rintro ⟨listed, served⟩
    exact ⟨_, listed, served⟩

end

end Saltator.Client
