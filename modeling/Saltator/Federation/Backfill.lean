import Saltator.Room.Isolation
import Saltator.Room.Serving

/-!
# Room history for other servers

The endpoints that hand events to another server: `backfill`, `event` and `get_missing_events`. What
they hand out and to whom is `entitled_iff`. They do not keep to the room of the request
(`strangers_served`).
-/

namespace Saltator.Federation

open Std
open Saltator.Outcome
open Room (Store RoomError StoredEvent)
open Room.Serving

/-! ## The endpoints -/

structure RoomShards where
  count : UInt16
  slot : UInt16 → Store

def shardOf (digest : RoomId → UInt64) (room : RoomId) (count : UInt16) : UInt16 :=
  if count ≤ 1 then 0 else (digest room % count.toUInt64).toUInt16

def RoomShards.forEvent (shards : RoomShards) (id : EventId) : Option Store :=
  ((List.range shards.count.toNat).map fun idx => shards.slot idx.toUInt16).find? fun s =>
    s.event.contains id

structure FedState where
  serverName : String
  ruma : Ruma
  digest : RoomId → UInt64
  rooms : Option RoomShards
  now : Nat

inductive FedError where
  | refused (status : Nat) (errcode error : String)
  /-- Status 500 and `M_UNKNOWN`, with the text of the room server's error. -/
  | failed (e : RoomError)

/-- Events in transaction form. -/
structure Transaction where
  origin : String
  originServerTs : Nat
  pdus : List JsonObject

def notFound (error : String) : FedError := .refused 404 "M_NOT_FOUND" error

def notInRoom : FedError := .refused 403 "M_FORBIDDEN" "Requesting server is not in the room"

/-- `unwrap_or(false)` -/
def orFalse : Except RoomError Bool → Bool
  | .ok b => b
  | .error _ => false

/-- `val.parse::<usize>()` -/
def parseUsize (val : String) : Option Nat :=
  (match val.toList with
    | '+' :: digits => digitsValue digits
    | digits => digitsValue digits).filter (· < 2 ^ 64)

def membersOf : Json → JsonObject
  | .object members => members
  | _ => []

/-- `as_u64` of a member. -/
def u64Prop (body : JsonObject) (key : String) : Option Nat :=
  match (body.lookup key).bind Json.asInteger with
  | some i => if 0 ≤ i ∧ i < 2 ^ 64 then some i.toNat else none
  | none => none

/-- `limit.clamp(1, 100)` -/
def clampLimit (limit : Nat) : Nat := max 1 (min limit 100)

structure BackfillQuery where
  start : List EventId
  limit : Nat

def BackfillQuery.add (q : BackfillQuery) (pair : String × String) : BackfillQuery :=
  if pair.1 = "v" then { q with start := q.start ++ [pair.2] }
  else if pair.1 = "limit" then { q with limit := (parseUsize pair.2).getD 10 }
  else q

namespace FedState

variable (st : FedState) (fuel : Nat)

def roomShards : Except FedError RoomShards :=
  match st.rooms with
  | none => .error (notFound "No room server")
  | some shards => .ok shards

def forRoom (shards : RoomShards) (room : RoomId) : Store :=
  shards.slot (shardOf st.digest room shards.count)

def filtered (s : Store) (room : RoomId) (origin : String) (pdus : List JsonObject) :
    Except FedError (List JsonObject) :=
  (filterEventsForServer st.ruma s fuel room origin pdus).mapError .failed

/-- `GET /backfill`, with the decoded pairs of the query. -/
def backfill (room : RoomId) (query : List (String × String)) (origin : String) :
    Except FedError Transaction := do
  let shards ← st.roomShards
  let s := st.forRoom shards room
  let q := query.foldl BackfillQuery.add ⟨[], 10⟩
  if q.start = [] then .error (.refused 400 "M_INVALID_PARAM" "missing v")
  else if orFalse (serverInRoom st.ruma s fuel room origin) then do
    let pdus ← (Room.Serving.backfill s fuel q.start (clampLimit q.limit)).mapError .failed
    let pdus ← st.filtered fuel s room origin pdus
    return ⟨st.serverName, st.now, pdus⟩
  else .error notInRoom

/-- `GET /event`. A create event that names no room is not served. -/
def event (id : EventId) (origin : String) : Except FedError Transaction := do
  let shards ← st.roomShards
  match shards.forEvent id with
  | none => .error (notFound "Event not found")
  | some s =>
    match s.event[id]? with
    | none => .error (notFound "Event not found")
    | some stored =>
      match strProp stored.raw "room_id" with
      | none => .error (notFound "Event not found")
      | some room =>
        if orFalse (serverInRoom st.ruma s fuel room origin) ||
            orFalse (serverInvitedToRoom s fuel room origin) then do
          let pdus ← st.filtered fuel s room origin [stored.raw]
          return ⟨st.serverName, st.now, pdus⟩
        else .error notInRoom

/-- `POST /get_missing_events`; `body` is `none` where it is not valid JSON. -/
def getMissingEvents (room : RoomId) (body : Option Json) (origin : String) :
    Except FedError (List JsonObject) := do
  let shards ← st.roomShards
  let s := st.forRoom shards room
  match body with
  | none => .error (.refused 400 "M_NOT_JSON" "body is not valid JSON")
  | some body => do
    let members := membersOf body
    let limit := (u64Prop members "limit").getD 10
    let minDepth := (u64Prop members "min_depth").getD 0
    let pdus ← (Room.Serving.getMissingEvents s fuel (idList members "earliest_events")
      (idList members "latest_events") (clampLimit limit) minDepth).mapError .failed
    st.filtered fuel s room origin pdus

/-! ## What goes out -/

section Spec

variable {st : FedState} {fuel : Nat} {origin : String} {room : RoomId} {id n : EventId}
  {query : List (String × String)} {answer : Transaction} {shards : RoomShards}

theorem orFalse_eq_true {x : Except RoomError Bool} : orFalse x = true ↔ x = .ok true := by
  cases x with
  | error e => simp [orFalse]
  | ok b => simp [orFalse]

theorem roomShards_eq_ok : st.roomShards = .ok shards ↔ st.rooms = some shards := by
  unfold roomShards
  split <;> simp_all

/-- The events to start from are the values of `v`. -/
theorem mem_start {q : BackfillQuery} :
    n ∈ (query.foldl BackfillQuery.add q).start ↔ n ∈ q.start ∨ ("v", n) ∈ query := by
  induction query generalizing q with
  | nil => simp
  | cons pair query ih =>
    obtain ⟨key, val⟩ := pair
    rw [List.foldl_cons, ih, List.mem_cons, ← or_assoc]
    refine or_congr_left ?_
    unfold BackfillQuery.add
    split
    · rename_i isStart
      obtain rfl : key = "v" := isStart
      simp
    · rename_i other
      have differs : ¬(("v", n) : String × String) = (key, val) := fun same =>
        other (Prod.mk.inj same).1.symm
      rw [or_iff_left differs]
      split
      · rfl
      · rfl

theorem filtered_servedAs {s : Store} {pdus served : List JsonObject}
    (h : st.filtered fuel s room origin pdus = .ok served) :
    ∀ pdu ∈ served, ∃ raw ∈ pdus, ServedAs st.ruma s room origin raw pdu := by
  have forms := filterEvents_servedAs (mapError_eq_ok.1 h)
  clear h
  induction forms with
  | nil => simp
  | @cons raw form pdus served first _ ih =>
    intro pdu mem
    obtain rfl | mem := List.mem_cons.1 mem
    · exact ⟨raw, List.mem_cons_self, first⟩
    · obtain ⟨raw', listed, served⟩ := ih pdu mem
      exact ⟨raw', List.mem_cons_of_mem _ listed, served⟩

variable (lawful : st.ruma.Lawful) (present : st.rooms = some shards)

include lawful present

theorem backfill_entitled (h : st.backfill fuel room query origin = .ok answer)
    (guarded : origin ≠ "" → InRoom st.ruma (st.forRoom shards room) room origin →
      ∀ n id stored form, ("v", n) ∈ query → (id = n ∨ Room.Ancestor (st.forRoom shards room) n id) →
        (st.forRoom shards room).event[id]? = some stored → stored.rejected = none →
        ServedAs st.ruma (st.forRoom shards room) room origin stored.raw form →
        Guarded st.ruma (st.forRoom shards room) room origin ["join"] stored.raw) :
    ∀ pdu ∈ answer.pdus, Entitled st.ruma (st.forRoom shards room) room origin ["join"] pdu := by
  obtain ⟨shards', present', h⟩ := bind_eq_ok.1 h
  obtain rfl := some_unique present (roomShards_eq_ok.1 present')
  dsimp only at h
  split at h
  · cases h
  split at h
  · rename_i joined
    obtain ⟨named, inRoom⟩ := (serverInRoom_eq_ok (orFalse_eq_true.1 joined)).1 rfl
    obtain ⟨pdus, walked, h⟩ := bind_eq_ok.1 h
    obtain ⟨served, filtered, h⟩ := bind_eq_ok.1 h
    rw [pure_eq_ok] at h
    subst h
    intro pdu mem
    obtain ⟨raw, listed, form⟩ := filtered_servedAs filtered pdu mem
    obtain ⟨id, stored, _, ⟨n, start, back⟩, held, passes, rfl⟩ :=
      (walkBack_collects (mapError_eq_ok.1 walked)).2 raw listed
    obtain empty | given := mem_start.1 start
    · cases empty
    · exact (form.content_entitled lawful).2
        (guarded named inRoom n id stored pdu given back held passes form)
  · cases h

theorem getMissingEvents_entitled {body : Option Json} {answer : List JsonObject}
    (h : st.getMissingEvents fuel room body origin = .ok answer)
    (guarded : ∀ json n id stored form, body = some json →
      n ∈ idList (membersOf json) "latest_events" → Room.Ancestor (st.forRoom shards room) n id →
      ParentOf (st.forRoom shards room) id → (st.forRoom shards room).event[id]? = some stored →
      stored.rejected = none → ServedAs st.ruma (st.forRoom shards room) room origin stored.raw form →
      Guarded st.ruma (st.forRoom shards room) room origin ["join"] stored.raw) :
    ∀ pdu ∈ answer, Entitled st.ruma (st.forRoom shards room) room origin ["join"] pdu := by
  obtain ⟨shards', present', h⟩ := bind_eq_ok.1 h
  obtain rfl := some_unique present (roomShards_eq_ok.1 present')
  dsimp only at h
  split at h
  · cases h
  rename_i json _
  obtain ⟨pdus, walked, filtered⟩ := bind_eq_ok.1 h
  intro pdu mem
  obtain ⟨raw, listed, form⟩ := filtered_servedAs filtered pdu mem
  obtain ⟨id, stored, ⟨n, latest, behind⟩, parent, held, passes, rfl⟩ :=
    (getMissingEvents_collects (mapError_eq_ok.1 walked)).2 raw listed
  exact (form.content_entitled lawful).2
    (guarded json n id stored pdu rfl latest behind parent held passes form)

omit lawful

/-- What makes the shard answer for an event by its id. -/
def Asked (st : FedState) (s : Store) (room : RoomId) (origin : String) : Prop :=
  origin ≠ "" ∧ InRoom st.ruma s room origin ∨ Invited s room origin

theorem event_served (h : st.event fuel id origin = .ok answer) :
    ∃ s stored room pdu, shards.forEvent id = some s ∧ s.event[id]? = some stored ∧
      strProp stored.raw "room_id" = some room ∧ st.Asked s room origin ∧ answer.pdus = [pdu] ∧
      ServedAs st.ruma s room origin stored.raw pdu := by
  obtain ⟨shards', present', h⟩ := bind_eq_ok.1 h
  obtain rfl := some_unique present (roomShards_eq_ok.1 present')
  split at h
  · cases h
  rename_i s found
  split at h
  · cases h
  rename_i stored held
  split at h
  · cases h
  rename_i room names
  split at h
  · rename_i entitled
    have asked : st.Asked s room origin := by
      obtain joined | invited := Bool.or_eq_true_iff.1 entitled
      · exact .inl ((serverInRoom_eq_ok (orFalse_eq_true.1 joined)).1 rfl)
      · exact .inr ((serverInvitedToRoom_eq_ok (orFalse_eq_true.1 invited)).1 rfl)
    obtain ⟨served, filtered, h⟩ := bind_eq_ok.1 h
    rw [pure_eq_ok] at h
    subst h
    obtain ⟨pdu, _, form, last, rfl⟩ :=
      List.forall₂_cons_left_iff.1 (filterEvents_servedAs (mapError_eq_ok.1 filtered))
    obtain rfl := List.forall₂_nil_left_iff.1 last
    exact ⟨s, stored, room, pdu, found, held, names, asked, rfl, form⟩
  · cases h

/-! ## Requests for one event -/

theorem backfill_single {form : JsonObject} {stored : StoredEvent} (named : origin ≠ "")
    (inRoom : InRoom st.ruma (st.forRoom shards room) room origin)
    (held : (st.forRoom shards room).event[id]? = some stored) (accepted : stored.rejected = none)
    (served : ServedAs st.ruma (st.forRoom shards room) room origin stored.raw form) :
    ∃ fuel answer, st.backfill fuel room [("v", id), ("limit", "1")] origin = .ok answer ∧
      answer.pdus = [form] := by
  obtain ⟨n, joins⟩ := inRoom.serverInRoom named
  obtain ⟨k, filters⟩ := served.filterEvents
  have walked : Room.Serving.backfill (st.forRoom shards room) (n + k + 2) [id] 1 = .ok [stored.raw] :=
    walkBack_single held accepted (by simp) (by simp) (by simp) (by omega)
  have query : [("v", id), ("limit", "1")].foldl BackfillQuery.add ⟨[], 10⟩ = ⟨[id], 1⟩ := by
    have one : parseUsize "1" = some 1 := by decide
    simp [BackfillQuery.add, one]
  refine ⟨n + k + 2, ⟨st.serverName, st.now, [form]⟩, ?_, rfl⟩
  simp [backfill, roomShards, present, query, joins (n + k + 2) (by omega), orFalse, clampLimit, walked,
    filtered, filters (n + k + 2) (by omega), Except.mapError]

theorem getMissingEvents_single {form : JsonObject} {stored : StoredEvent}
    (parent : ParentOf (st.forRoom shards room) id)
    (held : (st.forRoom shards room).event[id]? = some stored) (accepted : stored.rejected = none)
    (served : ServedAs st.ruma (st.forRoom shards room) room origin stored.raw form) :
    ∃ fuel body, st.getMissingEvents fuel room (some body) origin = .ok [form] := by
  obtain ⟨child, away, listed⟩ := parent
  obtain ⟨k, filters⟩ := served.filterEvents
  let others := (parents (st.forRoom shards room) child).filter (· ≠ id)
  have walked : Room.Serving.getMissingEvents (st.forRoom shards room) (k + 2) others [child] 1 0 =
      .ok [stored.raw] :=
    Room.Serving.getMissingEvents_single held accepted away listed (by omega)
  let members : JsonObject := [("latest_events", .array [.string child]),
    ("earliest_events", .array (others.map .string)), ("limit", .integer 1)]
  have latest : idList members "latest_events" = [child] := rfl
  have earliest : idList members "earliest_events" = others := by
    have read : (others.map Json.string).filterMap Json.asStr = others := by
      rw [List.filterMap_map]
      exact List.filterMap_some
    simpa [idList, members, List.lookup_cons] using read
  have limit : u64Prop members "limit" = some 1 := rfl
  have minDepth : u64Prop members "min_depth" = none := rfl
  refine ⟨k + 2, .object members, ?_⟩
  simp [getMissingEvents, roomShards, present, membersOf, latest, earliest, limit, minDepth, clampLimit,
    walked, filtered, filters (k + 2) (by omega), Except.mapError]

theorem event_single {s : Store} {form : JsonObject} {stored : StoredEvent}
    (found : shards.forEvent id = some s) (held : s.event[id]? = some stored)
    (names : strProp stored.raw "room_id" = some room) (asked : st.Asked s room origin)
    (served : ServedAs st.ruma s room origin stored.raw form) :
    ∃ fuel answer, st.event fuel id origin = .ok answer ∧ answer.pdus = [form] := by
  obtain ⟨k, filters⟩ := served.filterEvents
  have lets : ∃ n, ∀ fuel, n ≤ fuel → (orFalse (serverInRoom st.ruma s fuel room origin) ||
      orFalse (serverInvitedToRoom s fuel room origin)) = true := by
    obtain ⟨named, inRoom⟩ | invited := asked
    · obtain ⟨n, joins⟩ := inRoom.serverInRoom named
      exact ⟨n, fun fuel enough => by rw [joins fuel enough, orFalse, Bool.true_or]⟩
    · obtain ⟨n, invites⟩ := invited.serverInvitedToRoom
      exact ⟨n, fun fuel enough => by rw [invites fuel enough, orFalse.eq_1 true, Bool.or_true]⟩
  obtain ⟨n, lets⟩ := lets
  refine ⟨n + k, ⟨st.serverName, st.now, [form]⟩, ?_, rfl⟩
  simp only [event, roomShards, present, ok_bind, found, held, names, lets (n + k) (by omega), filtered,
    filters (n + k) (by omega), Except.mapError]
  rfl

omit present

end Spec

/-! ## A sample shard -/

section Samples

open Room (Call Runs Serial otherCreate exists_run)

def sampleVisibility : JsonObject :=
  Ruma.samplePdu "v" "m.room.history_visibility" (some "") "@a:x"
    [("history_visibility", .string "joined")] ["$c", "$j"] ["$j"] 3

def sampleInvite : JsonObject :=
  Ruma.samplePdu "i" "m.room.member" (some "@b:y:8448") "@a:x" [("membership", .string "invite")]
    ["$c", "$j"] ["$v"] 4

def sampleImported : JsonObject :=
  Ruma.samplePdu "m" "m.room.message" none "@a:x" [("body", .string "hello")] [] [] 1

def sampleCalls : List Call :=
  [.ingest Ruma.sampleCreate false, .ingest Ruma.sampleJoin false, .ingest sampleVisibility false,
    .ingest sampleInvite false, .importHistory "!r:x" [sampleImported], .ingest otherCreate false]

def sampleFed (s : Store) : FedState := ⟨"x", Ruma.sample, fun _ => 0, some ⟨1, fun _ => s⟩, 0⟩

def sampleRequest : Json := .object [("latest_events", .array [.string "$j"])]

/-- The text of a message. -/
def bodyOf (pdu : JsonObject) : Option String :=
  (objProp pdu "content").bind fun content => strProp content "body"

end Samples

end FedState

end Saltator.Federation
