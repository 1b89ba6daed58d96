import Saltator.Core.Termination
import Saltator.Room.Frontier
import Saltator.Room.Groups

/-!
# Serving a room to other servers

Who is in a room, which events are handed to another server, and in which form. The walk over prev
events goes by event ids alone, over all rooms of the shard. Membership and visibility are looked up
in one room.
-/

namespace Saltator.Room

open Std
open Saltator.Outcome
open StateRes (Key StateIds)

def membershipOf (stored : StoredEvent) : Option String :=
  (objProp stored.raw "content").bind fun content => strProp content "membership"

namespace Serving

open Pipeline

section Model

variable (ruma : Ruma) (s : Store) (fuel : Nat)

/-! ## Membership -/

def addServer (exclude : String) (servers : OrdSet String) (entry : Key × EventId) : OrdSet String :=
  if entry.1.1 ≠ "m.room.member" then servers
  else
    match s.event[entry.2]? with
    | none => servers
    | some stored =>
      if membershipOf stored ≠ some "join" then servers
      else if ruma.isUserId entry.1.2 then
        if Ruma.userServerName entry.1.2 ≠ exclude then
          servers.insert (Ruma.userServerName entry.1.2)
        else servers
      else servers

/-- The servers, other than `exclude`, of the users that are joined to the room. -/
def remoteServersInRoom (room : RoomId) (exclude : String) : Except RoomError (List String) :=
  match s.room[room]? with
  | none => .ok []
  | some roomMeta => do
    let state ← ofStore (s.resolveGroup fuel room roomMeta.currentGroup)
    return (state.toList.foldl (addServer ruma s exclude) ∅).toList

def serverInRoom (room : RoomId) (server : String) : Except RoomError Bool := do
  return (← remoteServersInRoom ruma s fuel room "").contains server

def invites (server : String) (entry : Key × EventId) : Bool :=
  entry.1.1 == "m.room.member" && (":" ++ server).toList.isSuffixOf entry.1.2.toList &&
    s.event[entry.2]?.any fun stored => membershipOf stored == some "invite"

def serverInvitedToRoom (room : RoomId) (server : String) : Except RoomError Bool :=
  match s.room[room]? with
  | none => .ok false
  | some roomMeta => do
    let state ← ofStore (s.resolveGroup fuel room roomMeta.currentGroup)
    return state.toList.any (invites s server)

/-! ## History visibility -/

def pduEventId (raw : JsonObject) : Option EventId :=
  match classify ruma s raw with
  | .error _ => none
  | .ok (version, _, _) => (ruma.eventId raw version).toOption

/-- The history visibility in a state, `shared` where none can be read. -/
def historyVisibility (state : StateIds) : String :=
  ((state[("m.room.history_visibility", "")]?.bind fun id => s.event[id]?).bind fun stored =>
    (objProp stored.raw "content").bind fun content => strProp content "history_visibility").getD "shared"

/-- The memberships that a visibility asks for, `none` where it asks for none. -/
def required : String → Option (List String)
  | "joined" => some ["join"]
  | "invited" => some ["join", "invite"]
  | _ => none

def belongs (server : String) (memberships : List String) (entry : Key × EventId) : Bool :=
  entry.1.1 == "m.room.member" && ruma.isUserId entry.1.2 && Ruma.userServerName entry.1.2 == server &&
      (s.event[entry.2]?.bind membershipOf).any memberships.contains

/-- Whether the server may see the whole event, going by the state of the room after it. Events whose
state is not known pass. -/
def visibleTo (room : RoomId) (server : String) (raw : JsonObject) : Except RoomError Bool :=
  match (pduEventId ruma s raw).bind fun id => s.event[id]? with
  | none => .ok true
  | some stored =>
    if stored.stateGroupAfter = 0 then .ok true
    else do
      let state ← ofStore (s.resolveGroup fuel room stored.stateGroupAfter)
      match required (historyVisibility s state) with
      | none => return true
      | some memberships => return state.toList.any (belongs ruma s server memberships)

def serveTo (room : RoomId) (server : String) (version : RoomVersion) (raw : JsonObject) :
    Except RoomError JsonObject := do
  if ← visibleTo ruma s fuel room server raw then return raw
  else (redact ruma raw version).mapError fun e =>
    .malformed ("event verification failed: " ++ e.reason)

def filterEventsForServer (room : RoomId) (server : String) (events : List JsonObject) :
    Except RoomError (List JsonObject) :=
  match s.room[room]? with
  | none => .ok events
  | some roomMeta => do
    let version ← parseVersion roomMeta.version
    events.mapM (serveTo ruma s fuel room server version)

/-! ## The walk over prev events -/

/-- The walk: the ids to pass over, the events ahead by their depth, and what was collected. -/
structure BackWalk where
  seen : OrdSet EventId
  frontier : OrdSet (Nat × EventId)
  out : List JsonObject

def pushEvent (seen : OrdSet EventId) (frontier : OrdSet (Nat × EventId)) (id : EventId) :
    OrdSet (Nat × EventId) :=
  if seen.contains id then frontier
  else
    match s.event[id]? with
    | none => frontier
    | some stored => if stored.rejected.isNone then frontier.insert (stored.depth, id) else frontier

/-- The deepest event ahead. -/
def walkRound (limit minDepth : Nat) (w : BackWalk) : Except RoomError (BackWalk ⊕ List JsonObject) :=
  if w.out.length < limit then
    match w.frontier.toList.getLast? with
    | none => .ok (.inr w.out)
    | some entry =>
      let w := { w with frontier := w.frontier.erase entry }
      if w.seen.contains entry.2 then .ok (.inl w)
      else
        let w := { w with seen := w.seen.insert entry.2 }
        match s.event[entry.2]? with
        | none => .ok (.inl w)
        | some stored =>
          if stored.rejected.isSome ∨ stored.depth < minDepth then .ok (.inl w)
          else .ok (.inl { w with
            frontier := (prevEventIds stored.raw).foldl (pushEvent s w.seen) w.frontier
            out := w.out ++ [stored.raw] })
  else .ok (.inr w.out)

/-- Up to `limit` events at `minDepth` or deeper, deepest first, from `seed` backward and around
`stop`. -/
def walkBack (seed : List EventId) (stop : OrdSet EventId) (limit minDepth : Nat) :
    Except RoomError (List JsonObject) :=
  Loop.run .outOfFuel (walkRound s limit minDepth) fuel ⟨stop, seed.foldl (pushEvent s stop) ∅, []⟩

def backfill (start : List EventId) (limit : Nat) : Except RoomError (List JsonObject) :=
  walkBack s fuel start ∅ limit 0

def parents (id : EventId) : List EventId :=
  match s.event[id]? with
  | none => []
  | some stored => prevEventIds stored.raw

/-- The ancestors of `latest`, up to `earliest`, oldest first. -/
def getMissingEvents (earliest latest : List EventId) (limit minDepth : Nat) :
    Except RoomError (List JsonObject) := do
  let stop := OrdSet.extend (OrdSet.extend ∅ earliest) latest
  let events ← walkBack s fuel (latest.flatMap (parents s)) stop limit minDepth
  return events.reverse

end Model

/-! ## Who may see what -/

def Belongs (ruma : Ruma) (s : Store) (state : StateIds) (server : String)
    (memberships : List String) : Prop :=
  ∃ (user : UserId) (id : EventId) (stored : StoredEvent) (membership : String),
    state[("m.room.member", user)]? = some id ∧ ruma.isUserId user ∧
    Ruma.userServerName user = server ∧ s.event[id]? = some stored ∧
    membershipOf stored = some membership ∧ membership ∈ memberships

def Current (s : Store) (room : RoomId) (state : StateIds) : Prop :=
  ∃ m : RoomMeta, s.room[room]? = some m ∧ Materializes s room m.currentGroup state

def Present (ruma : Ruma) (s : Store) (room : RoomId) (server : String) (memberships : List String) :
    Prop :=
  ∃ state, Current s room state ∧ Belongs ruma s state server memberships

def InRoom (ruma : Ruma) (s : Store) (room : RoomId) (server : String) : Prop :=
  Present ruma s room server ["join"]

def Invited (s : Store) (room : RoomId) (server : String) : Prop :=
  ∃ (state : StateIds) (user : UserId) (id : EventId) (stored : StoredEvent),
    Current s room state ∧ state[("m.room.member", user)]? = some id ∧
    (":" ++ server).toList <:+ user.toList ∧ s.event[id]? = some stored ∧
    membershipOf stored = some "invite"

def StateAfter (ruma : Ruma) (s : Store) (room : RoomId) (raw : JsonObject) (state : StateIds) : Prop :=
  ∃ id stored, pduEventId ruma s raw = some id ∧ s.event[id]? = some stored ∧
    stored.stateGroupAfter ≠ 0 ∧ Materializes s room stored.stateGroupAfter state

/-- The shard knows no state after the event. -/
def Stateless (ruma : Ruma) (s : Store) (raw : JsonObject) : Prop :=
  ∀ id stored, pduEventId ruma s raw = some id → s.event[id]? = some stored → stored.stateGroupAfter = 0

def Open (ruma : Ruma) (s : Store) (state : StateIds) (server : String) : Prop :=
  ∀ memberships, required (historyVisibility s state) = some memberships →
    Belongs ruma s state server memberships

/-- The server may see the whole event. -/
def Readable (ruma : Ruma) (s : Store) (room : RoomId) (server : String) (raw : JsonObject) : Prop :=
  Stateless ruma s raw ∨ ∃ state, StateAfter ruma s room raw state ∧ Open ruma s state server

/-- The form in which a server gets an event. Where the shard does not know the room, nothing is held
back. -/
inductive ServedAs (ruma : Ruma) (s : Store) (room : RoomId) (server : String) (raw : JsonObject) :
    JsonObject → Prop
  | unknown (unknown : s.room[room]? = none) : ServedAs ruma s room server raw raw
  | whole {m : RoomMeta} {version : RoomVersion} (known : s.room[room]? = some m)
      (parsed : RoomVersion.parse m.version = some version)
      (readable : Readable ruma s room server raw) : ServedAs ruma s room server raw raw
  | redacted {m : RoomMeta} {version : RoomVersion} {state : StateIds} {form : JsonObject}
      (known : s.room[room]? = some m) (parsed : RoomVersion.parse m.version = some version)
      (after : StateAfter ruma s room raw state) (hidden : ¬ Open ruma s state server)
      (h : redact ruma raw version = .ok form) : ServedAs ruma s room server raw form

def PduOf (ruma : Ruma) (s : Store) (room : RoomId) (pdu : JsonObject) : Prop :=
  match strProp pdu "room_id" with
  | some r => r = room
  | none => ∃ m version, s.room[room]? = some m ∧ RoomVersion.parse m.version = some version ∧
      ruma.eventId pdu version = .ok ("$" ++ withoutSigil room)

/-- The PDU shows no more than some event's redacted form. -/
def Bare (ruma : Ruma) (pdu : JsonObject) : Prop :=
  ∃ raw version, redact ruma raw version = .ok pdu

structure Entitled (ruma : Ruma) (s : Store) (room : RoomId) (server : String)
    (memberships : List String) (pdu : JsonObject) : Prop where
  pduOf : PduOf ruma s room pdu
  present : Present ruma s room server memberships
  visible : Bare ruma pdu ∨ ∃ state, StateAfter ruma s room pdu state ∧ Open ruma s state server

/-- The event is of the room, the server is there, and the room's state after the event is known
unless redaction takes nothing from it. -/
structure Guarded (ruma : Ruma) (s : Store) (room : RoomId) (server : String)
    (memberships : List String) (raw : JsonObject) : Prop where
  pduOf : PduOf ruma s room raw
  present : Present ruma s room server memberships
  stateless : Stateless ruma s raw → Bare ruma raw

def BackFrom (s : Store) (ids : List EventId) (id : EventId) : Prop :=
  ∃ start ∈ ids, id = start ∨ Ancestor s start id

section Spec

variable {ruma : Ruma} {s : Store} {fuel : Nat} {room : RoomId} {server : String}
  {state : StateIds} {raw : JsonObject} {exclude : String} {m : RoomMeta} {servers : OrdSet String}
  {b : Bool}

theorem belongs_iff {memberships : List String} :
    state.toList.any (belongs ruma s server memberships) = true ↔
      Belongs ruma s state server memberships := by
  rw [List.any_eq_true]
  constructor
  · rintro ⟨⟨⟨ty, user⟩, id⟩, mem, ok⟩
    simp only [belongs, Bool.and_eq_true, beq_iff_eq, Option.any_eq_true, Option.bind_eq_some_iff,
      List.contains_iff_mem] at ok
    obtain ⟨⟨⟨rfl, valid⟩, name⟩, membership, ⟨stored, held, states⟩, fits⟩ := ok
    have mapped := OrdMap.mem_toList.1 mem
    exact ⟨user, id, stored, membership, mapped, valid, name, held, states, fits⟩
  · rintro ⟨user, id, stored, membership, mapped, valid, name, held, states, fits⟩
    refine ⟨(("m.room.member", user), id), OrdMap.mem_toList.2 mapped, ?_⟩
    simp only [belongs, Bool.and_eq_true, beq_iff_eq, Option.any_eq_true, Option.bind_eq_some_iff,
      List.contains_iff_mem]
    exact ⟨⟨⟨trivial, valid⟩, name⟩, membership, ⟨stored, held, states⟩, fits⟩

theorem mem_addServer {entry : Key × EventId} : server ∈ addServer ruma s exclude servers entry ↔
      server ∈ servers ∨ server ≠ exclude ∧ belongs ruma s server ["join"] entry = true := by
  obtain ⟨⟨ty, user⟩, id⟩ := entry
  simp only [addServer, belongs, Bool.and_eq_true, beq_iff_eq, Option.any_eq_true,
    Option.bind_eq_some_iff, List.contains_iff_mem, List.mem_singleton, ne_eq]
  split
  · rename_i other
    simp [other]
  rename_i member
  split
  · rename_i unheld
    simp [unheld]
  rename_i stored held
  split
  · rename_i elsewhere
    simp [held, elsewhere]
  rename_i joined
  split
  · rename_i valid
    split
    · rename_i listed
      rw [OrdSet.mem_insert']
      constructor
      · rintro (rfl | old)
        · exact .inr ⟨listed, ⟨⟨not_not.1 member, valid⟩, rfl⟩, "join",
            ⟨stored, held, not_not.1 joined⟩, rfl⟩
        · exact .inl old
      · rintro (old | ⟨_, ⟨_, rfl⟩, _⟩)
        · exact .inr old
        · exact .inl rfl
    · rename_i excluded
      refine ⟨.inl, ?_⟩
      rintro (old | ⟨named, ⟨_, rfl⟩, _⟩)
      · exact old
      · exact absurd (not_not.1 excluded) named
  · rename_i invalid
    simp [invalid]

theorem mem_addServers {entries : List (Key × EventId)} :
    server ∈ entries.foldl (addServer ruma s exclude) servers ↔
      server ∈ servers ∨ server ≠ exclude ∧ entries.any (belongs ruma s server ["join"]) = true := by
  induction entries generalizing servers with
  | nil => simp
  | cons entry entries ih =>
    rw [List.foldl_cons, ih, mem_addServer, List.any_cons, Bool.or_eq_true, and_or_left, or_assoc]

theorem Current.unique {state' : StateIds} (h : Current s room state) (h' : Current s room state') :
    state = state' := by
  obtain ⟨m, known, current⟩ := h
  obtain ⟨m', known', current'⟩ := h'
  obtain rfl := some_unique known known'
  exact current.unique current'

theorem Current.of_resolved (known : s.room[room]? = some m)
    (resolved : ofStore (s.resolveGroup fuel room m.currentGroup) = .ok state) :
    Current s room state :=
  ⟨m, known, resolveGroup_materializes (mapError_eq_ok.1 resolved)⟩

theorem mem_remoteServersInRoom {servers : List String}
    (listed : remoteServersInRoom ruma s fuel room exclude = .ok servers) :
    server ∈ servers ↔ server ≠ exclude ∧ InRoom ruma s room server := by
  unfold remoteServersInRoom at listed
  split at listed
  · rename_i unknown
    cases listed
    refine ⟨fun mem => by simp at mem, ?_⟩
    rintro ⟨_, state, ⟨m, known, _⟩, _⟩
    rw [unknown] at known
    cases known
  · rename_i m known
    obtain ⟨state, resolved, listed⟩ := bind_eq_ok.1 listed
    rw [pure_eq_ok] at listed
    have current := Current.of_resolved known resolved
    rw [← listed, OrdSet.mem_toList', mem_addServers, belongs_iff,
      or_iff_right (by simp : server ∉ (∅ : OrdSet String))]
    refine and_congr_right fun _ => ⟨fun joined => ⟨state, current, joined⟩, ?_⟩
    rintro ⟨state', current', joined⟩
    obtain rfl := current.unique current'
    exact joined

theorem nodup_remoteServersInRoom {servers : List String}
    (listed : remoteServersInRoom ruma s fuel room exclude = .ok servers) : servers.Nodup := by
  unfold remoteServersInRoom at listed
  split at listed
  · cases listed
    exact List.nodup_nil
  · obtain ⟨state, -, listed⟩ := bind_eq_ok.1 listed
    rw [pure_eq_ok] at listed
    rw [← listed]
    exact ExtTreeSet.distinct_toList.imp ReflCmp.ne_of_cmp_ne_eq

theorem serverInRoom_eq_ok (h : serverInRoom ruma s fuel room server = .ok b) :
    b = true ↔ server ≠ "" ∧ InRoom ruma s room server := by
  obtain ⟨servers, listed, h⟩ := bind_eq_ok.1 h
  rw [pure_eq_ok] at h
  subst h
  rw [List.contains_iff_mem, mem_remoteServersInRoom listed]

theorem InRoom.serverInRoom (h : InRoom ruma s room server) (named : server ≠ "") :
    ∃ n, ∀ fuel, n ≤ fuel → serverInRoom ruma s fuel room server = .ok true := by
  obtain ⟨state, ⟨m, known, current⟩, _⟩ := id h
  obtain ⟨_, n, resolves⟩ := current.settles
  refine ⟨n, fun fuel enough => ?_⟩
  have answers : ∃ b, Serving.serverInRoom ruma s fuel room server = .ok b := by
    simp [Serving.serverInRoom, remoteServersInRoom, known, ofStore, resolves fuel enough, Except.mapError]
  obtain ⟨b, answers⟩ := answers
  rw [answers, (serverInRoom_eq_ok answers).2 ⟨named, h⟩]

theorem serverInvitedToRoom_eq_ok (h : serverInvitedToRoom s fuel room server = .ok b) :
    b = true ↔ Invited s room server := by
  unfold serverInvitedToRoom at h
  split at h
  · rename_i unknown
    cases h
    refine ⟨nofun, ?_⟩
    rintro ⟨_, _, _, _, ⟨m, known, _⟩, _⟩
    rw [unknown] at known
    cases known
  · rename_i m known
    obtain ⟨state, resolved, h⟩ := bind_eq_ok.1 h
    rw [pure_eq_ok] at h
    subst h
    have current := Current.of_resolved known resolved
    rw [List.any_eq_true]
    constructor
    · rintro ⟨⟨⟨ty, user⟩, id⟩, mem, ok⟩
      simp only [invites, Bool.and_eq_true, beq_iff_eq, Option.any_eq_true,
        List.isSuffixOf_iff_suffix] at ok
      obtain ⟨⟨rfl, ends⟩, stored, held, invited⟩ := ok
      have mapped := OrdMap.mem_toList.1 mem
      exact ⟨state, user, id, stored, current, mapped, ends, held, invited⟩
    · rintro ⟨state', user, id, stored, current', mapped, ends, held, invited⟩
      obtain rfl := current.unique current'
      refine ⟨(("m.room.member", user), id), OrdMap.mem_toList.2 mapped, ?_⟩
      simp only [invites, Bool.and_eq_true, beq_iff_eq, Option.any_eq_true, List.isSuffixOf_iff_suffix]
      exact ⟨⟨trivial, ends⟩, stored, held, invited⟩

theorem Invited.serverInvitedToRoom (h : Invited s room server) :
    ∃ n, ∀ fuel, n ≤ fuel → serverInvitedToRoom s fuel room server = .ok true := by
  obtain ⟨state, _, _, _, ⟨m, known, current⟩, _⟩ := id h
  obtain ⟨_, n, resolves⟩ := current.settles
  refine ⟨n, fun fuel enough => ?_⟩
  have answers : ∃ b, Serving.serverInvitedToRoom s fuel room server = .ok b := by
    simp [Serving.serverInvitedToRoom, known, ofStore, resolves fuel enough, Except.mapError]
  obtain ⟨b, answers⟩ := answers
  rw [answers, (serverInvitedToRoom_eq_ok answers).2 h]

theorem visibleTo_resolved (server : String) {id : EventId} {stored : StoredEvent} (named : pduEventId ruma s raw = some id)
    (held : s.event[id]? = some stored) (grouped : stored.stateGroupAfter ≠ 0)
    (resolved : s.resolveGroup fuel room stored.stateGroupAfter = .ok state) :
    ∃ b, visibleTo ruma s fuel room server raw = .ok b ∧ (b = true ↔ Open ruma s state server) := by
  unfold visibleTo
  simp only [named, Option.bind_some, held, if_neg grouped, ofStore, resolved, Except.mapError, ok_bind]
  split
  · rename_i free
    refine ⟨true, rfl, fun _ memberships asked => ?_, fun _ => rfl⟩
    rw [free] at asked
    cases asked
  · rename_i memberships asked
    refine ⟨_, rfl, ?_⟩
    rw [belongs_iff]
    refine ⟨fun has memberships' asked' => ?_, fun opens => opens memberships asked⟩
    obtain rfl := some_unique asked asked'
    exact has

theorem visibleTo_stateless (h : Stateless ruma s raw) :
    visibleTo ruma s fuel room server raw = .ok true := by
  unfold visibleTo
  split
  · rfl
  · rename_i stored found
    obtain ⟨id, named, held⟩ := Option.bind_eq_some_iff.1 found
    exact if_pos (h id stored named held)

theorem visibleTo_eq_ok (h : visibleTo ruma s fuel room server raw = .ok b) :
    b = true ∧ Readable ruma s room server raw ∨
      b = false ∧ ∃ state, StateAfter ruma s room raw state ∧ ¬ Open ruma s state server := by
  by_cases stateless : Stateless ruma s raw
  · rw [visibleTo_stateless stateless] at h
    exact .inl ⟨(Except.ok.inj h).symm, .inl stateless⟩
  simp only [Stateless, not_forall] at stateless
  obtain ⟨id, stored, named, held, grouped⟩ := stateless
  have resolves : ∃ state, s.resolveGroup fuel room stored.stateGroupAfter = .ok state := by
    unfold visibleTo at h
    simp only [named, Option.bind_some, held, if_neg grouped] at h
    obtain ⟨state, resolved, _⟩ := bind_eq_ok.1 h
    exact ⟨state, mapError_eq_ok.1 resolved⟩
  obtain ⟨state, resolved⟩ := resolves
  have after : StateAfter ruma s room raw state :=
    ⟨id, stored, named, held, grouped, resolveGroup_materializes resolved⟩
  obtain ⟨b', verdict, policy⟩ := visibleTo_resolved server named held grouped
    resolved
  obtain rfl : b' = b := Except.ok.inj (verdict.symm.trans h)
  cases b' with
  | true => exact .inl ⟨rfl, .inr ⟨state, after, policy.1 rfl⟩⟩
  | false => exact .inr ⟨rfl, state, after, fun opens => Bool.false_ne_true (policy.2 opens)⟩

theorem StateAfter.visibleTo (server : String) (after : StateAfter ruma s room raw state) :
    ∃ n b, (b = true ↔ Open ruma s state server) ∧ ∀ fuel, n ≤ fuel →
      visibleTo ruma s fuel room server raw = .ok b := by
  obtain ⟨id, stored, named, held, grouped, materializes⟩ := after
  obtain ⟨_, n, resolves⟩ := materializes.settles
  obtain ⟨b, verdict, policy⟩ := visibleTo_resolved server named held grouped
    (resolves n le_rfl)
  refine ⟨n, b, policy, fun fuel enough => ?_⟩
  obtain ⟨b', verdict', policy'⟩ := visibleTo_resolved server named held
    grouped (resolves fuel enough)
  rw [verdict', Bool.eq_iff_iff.2 (policy'.trans policy.symm)]

theorem StateAfter.not_stateless (h : StateAfter ruma s room raw state) : ¬ Stateless ruma s raw := by
  obtain ⟨id, stored, named, held, grouped, _⟩ := h
  exact fun stateless => grouped (stateless id stored named held)

theorem serveTo_servedAs {version : RoomVersion} {form : JsonObject}
    (known : s.room[room]? = some m) (parsed : RoomVersion.parse m.version = some version)
    (h : serveTo ruma s fuel room server version raw = .ok form) :
    ServedAs ruma s room server raw form := by
  obtain ⟨visible, verdict, h⟩ := bind_eq_ok.1 h
  obtain ⟨rfl, readable⟩ | ⟨rfl, state, after, hidden⟩ := visibleTo_eq_ok verdict
  · obtain rfl := Except.ok.inj h
    exact .whole known parsed readable
  · exact .redacted known parsed after hidden (mapError_eq_ok.1 h)

theorem filterEvents_servedAs {events served : List JsonObject}
    (h : filterEventsForServer ruma s fuel room server events = .ok served) :
    List.Forall₂ (ServedAs ruma s room server) events served := by
  unfold filterEventsForServer at h
  split at h
  · rename_i unknown
    obtain rfl := Except.ok.inj h
    exact List.forall₂_same.2 fun raw _ => .unknown unknown
  · rename_i m known
    obtain ⟨version, parsed, h⟩ := bind_eq_ok.1 h
    exact (mapM_forall₂ h).imp fun raw form => serveTo_servedAs known (parseVersion_eq_ok.1 parsed)

theorem ServedAs.filterEvents {form : JsonObject} (h : ServedAs ruma s room server raw form) :
    ∃ n, ∀ fuel, n ≤ fuel → filterEventsForServer ruma s fuel room server [raw] = .ok [form] := by
  have single : ∀ {m : RoomMeta} {version : RoomVersion} {b : Bool} (fuel : Nat),
      s.room[room]? = some m → RoomVersion.parse m.version = some version →
      visibleTo ruma s fuel room server raw = .ok b →
      (if b then .ok raw else (redact ruma raw version).mapError fun e =>
        RoomError.malformed ("event verification failed: " ++ e.reason)) = .ok form →
      filterEventsForServer ruma s fuel room server [raw] = .ok [form] := by
    intro m version b fuel known parsed verdict answer
    have served : serveTo ruma s fuel room server version raw = .ok form := by
      rw [serveTo, verdict, ok_bind]
      exact answer
    simp only [filterEventsForServer, known, parseVersion, parsed, ok_bind, List.mapM_cons, served,
      List.mapM_nil]
    rfl
  cases h with
  | unknown unknown => exact ⟨0, fun fuel _ => by simp only [filterEventsForServer, unknown]⟩
  | whole known parsed readable =>
    obtain stateless | ⟨state, after, opens⟩ := readable
    · exact ⟨0, fun fuel _ => single fuel known parsed (visibleTo_stateless stateless) rfl⟩
    · obtain ⟨n, b, policy, verdicts⟩ := after.visibleTo server
      obtain rfl := policy.2 opens
      exact ⟨n, fun fuel enough => single fuel known parsed (verdicts fuel enough) rfl⟩
  | redacted known parsed after hidden h =>
    obtain ⟨n, b, policy, verdicts⟩ := after.visibleTo server
    obtain rfl : b = false := Bool.eq_false_iff.2 fun sees => hidden (policy.1 sees)
    refine ⟨n, fun fuel enough => single fuel known parsed (verdicts fuel enough) ?_⟩
    rw [h]
    rfl

theorem pduOf_redact (lawful : ruma.Lawful) {version : RoomVersion} {form : JsonObject}
    (known : s.room[room]? = some m) (parsed : RoomVersion.parse m.version = some version)
    (h : redact ruma raw version = .ok form) : PduOf ruma s room form ↔ PduOf ruma s room raw := by
  have redacted : ruma.redact version raw = .ok form := by
    unfold redact at h
    split at h
    · rename_i eq
      rwa [← Except.ok.inj h]
    · cases h
  have same : strProp form "room_id" = strProp raw "room_id" := by
    simp only [strProp, lawful.redact_lookup _ _ _ redacted "room_id" (by decide)]
  have id : ruma.eventId form version = ruma.eventId raw version := by
    simp only [Ruma.eventId, lawful.redact_hash _ _ _ redacted]
  unfold PduOf
  rw [same]
  split
  · rfl
  · constructor
    · rintro ⟨m', version', known', parsed', own⟩
      obtain rfl := some_unique known known'
      obtain rfl := some_unique parsed parsed'
      exact ⟨m, version, known, parsed, id ▸ own⟩
    · rintro ⟨m', version', known', parsed', own⟩
      obtain rfl := some_unique known known'
      obtain rfl := some_unique parsed parsed'
      exact ⟨m, version, known, parsed, id ▸ own⟩

theorem Present.known {memberships : List String} (h : Present ruma s room server memberships) :
    ∃ m, s.room[room]? = some m := by
  obtain ⟨_, ⟨m, known, _⟩, _⟩ := h
  exact ⟨m, known⟩

/-- A server is entitled to what it gets of an event where the event is guarded. -/
theorem ServedAs.content_entitled (lawful : ruma.Lawful) {form : JsonObject} {memberships : List String}
    (h : ServedAs ruma s room server raw form) :
    Entitled ruma s room server memberships form ↔ Guarded ruma s room server memberships raw := by
  cases h with
  | unknown unknown =>
    have absent : ¬ Present ruma s room server memberships := by
      rintro present
      obtain ⟨m, known⟩ := present.known
      rw [unknown] at known
      cases known
    exact ⟨fun entitled => absurd entitled.present absent, fun safe => absurd safe.present absent⟩
  | whole known parsed readable =>
    constructor
    · rintro ⟨ours, present, visible⟩
      refine ⟨ours, present, fun stateless => visible.resolve_right ?_⟩
      rintro ⟨state, after, _⟩
      exact after.not_stateless stateless
    · rintro ⟨ours, present, bare⟩
      exact ⟨ours, present, readable.imp bare id⟩
  | @redacted m version state form known parsed after hidden h =>
    have ours := pduOf_redact lawful known parsed h
    constructor
    · rintro ⟨own, present, _⟩
      exact ⟨ours.1 own, present, fun stateless => absurd stateless after.not_stateless⟩
    · rintro ⟨own, present, _⟩
      exact ⟨ours.2 own, present, .inl ⟨raw, version, h⟩⟩

/-! ## A round of the walk -/

variable {seed : List EventId} {limit minDepth : Nat} {w w' : BackWalk} {seen : OrdSet EventId}
  {entry : Nat × EventId} {out : List JsonObject}

/-- The deepest event ahead was seen before, is passed over, or is collected. -/
inductive Visited (s : Store) (minDepth : Nat) (w : BackWalk) (entry : Nat × EventId) : BackWalk → Prop
  | again (old : entry.2 ∈ w.seen) :
      Visited s minDepth w entry { w with frontier := w.frontier.erase entry }
  | passed (new : entry.2 ∉ w.seen) (out : ∀ stored, s.event[entry.2]? = some stored →
        stored.rejected.isSome ∨ stored.depth < minDepth) :
      Visited s minDepth w entry
        { w with seen := w.seen.insert entry.2, frontier := w.frontier.erase entry }
  | collected {stored : StoredEvent} (new : entry.2 ∉ w.seen) (held : s.event[entry.2]? = some stored)
      (accepted : stored.rejected = none) (deep : minDepth ≤ stored.depth) :
      Visited s minDepth w entry
        { seen := w.seen.insert entry.2
          frontier := (prevEventIds stored.raw).foldl (pushEvent s (w.seen.insert entry.2))
            (w.frontier.erase entry)
          out := w.out ++ [stored.raw] }

theorem walkRound_cases {next : BackWalk ⊕ List JsonObject} (h : walkRound s limit minDepth w = .ok next) :
    (next = .inr w.out ∧ (w.out.length < limit → w.frontier.toList.getLast? = none)) ∨
      ∃ entry w', next = .inl w' ∧ w.out.length < limit ∧
        w.frontier.toList.getLast? = some entry ∧ Visited s minDepth w entry w' := by
  unfold walkRound at h
  split at h
  · rename_i more
    split at h
    · rename_i empty
      exact .inl ⟨(Except.ok.inj h).symm, fun _ => empty⟩
    rename_i entry deepest
    refine .inr ⟨entry, ?_⟩
    dsimp only at h
    split at h
    · rename_i old
      exact ⟨_, (Except.ok.inj h).symm, more, deepest, .again (ExtTreeSet.contains_iff_mem.1 old)⟩
    rename_i new
    rw [ExtTreeSet.contains_iff_mem] at new
    split at h
    · rename_i unheld
      refine ⟨_, (Except.ok.inj h).symm, more, deepest, .passed new fun stored held => ?_⟩
      rw [unheld] at held
      cases held
    rename_i stored held
    split at h
    · rename_i out
      refine ⟨_, (Except.ok.inj h).symm, more, deepest, .passed new fun stored' held' => ?_⟩
      obtain rfl := some_unique held held'
      exact out
    · rename_i passes
      obtain ⟨accepted, deep⟩ := not_or.1 passes
      exact ⟨_, (Except.ok.inj h).symm, more, deepest,
        .collected new held (by simpa using accepted) (Nat.le_of_not_lt deep)⟩
  · rename_i full
    exact .inl ⟨(Except.ok.inj h).symm, fun more => absurd more full⟩

/-! ## What the walk collects -/

/-- The walk has come back from `seed` around `stop` and collected held events. -/
structure Walks (s : Store) (seed : List EventId) (stop : OrdSet EventId) (limit : Nat) (w : BackWalk) :
    Prop where
  stopped : ∀ id ∈ stop, id ∈ w.seen
  ahead : ∀ entry ∈ w.frontier, BackFrom s seed entry.2
  collected : ∀ raw ∈ w.out, ∃ id stored, id ∉ stop ∧ BackFrom s seed id ∧ s.event[id]? = some stored ∧
    stored.rejected = none ∧ stored.raw = raw
  few : w.out.length ≤ limit

theorem pushEvents_back {frontier : OrdSet (Nat × EventId)}
    {ids : List EventId} (ahead : ∀ entry ∈ frontier, BackFrom s seed entry.2)
    (back : ∀ id ∈ ids, BackFrom s seed id) :
    ∀ entry ∈ ids.foldl (pushEvent s seen) frontier, BackFrom s seed entry.2 := by
  refine List.foldlRecOn (motive := fun frontier : OrdSet (Nat × EventId) =>
    ∀ entry ∈ frontier, BackFrom s seed entry.2) _ _ ahead fun frontier ih id mem => ?_
  unfold pushEvent
  split
  · exact ih
  split
  · exact ih
  split
  · intro entry pushed
    obtain rfl | old := OrdSet.mem_insert'.1 pushed
    · exact back id mem
    · exact ih entry old
  · exact ih

theorem BackFrom.parent {id p : EventId} {stored : StoredEvent} (h : BackFrom s seed id)
    (held : s.event[id]? = some stored) (listed : p ∈ prevEventIds stored.raw) : BackFrom s seed p := by
  obtain ⟨start, mem, rfl | behind⟩ := h
  · exact ⟨id, mem, .inr (.single ⟨stored, held, listed⟩)⟩
  · exact ⟨start, mem, .inr (behind.tail ⟨stored, held, listed⟩)⟩

theorem Walks.round {stop : OrdSet EventId} (h : Walks s seed stop limit w) (more : w.out.length < limit)
    (deepest : w.frontier.toList.getLast? = some entry) (visited : Visited s minDepth w entry w') :
    Walks s seed stop limit w' := by
  have ahead : entry ∈ w.frontier := OrdSet.mem_toList'.1 (List.mem_of_getLast? deepest)
  have rest : ∀ e ∈ w.frontier.erase entry, BackFrom s seed e.2 := fun e mem =>
    h.ahead e (ExtTreeSet.mem_of_mem_erase mem)
  have stopped : ∀ id ∈ stop, id ∈ w.seen.insert entry.2 := fun id mem =>
    OrdSet.mem_insert'.2 (.inr (h.stopped id mem))
  cases visited with
  | again old => exact ⟨h.stopped, rest, h.collected, h.few⟩
  | passed new out => exact ⟨stopped, rest, h.collected, h.few⟩
  | @collected stored new held accepted deep =>
    have back : BackFrom s seed entry.2 := h.ahead entry ahead
    refine ⟨stopped, pushEvents_back rest fun p listed => back.parent held listed, fun raw mem => ?_, ?_⟩
    · obtain before | last := List.mem_append.1 mem
      · exact h.collected raw before
      · obtain rfl := List.mem_singleton.1 last
        exact ⟨entry.2, stored, fun mem => new (h.stopped _ mem), back, held, accepted, rfl⟩
    · rw [List.length_append, List.length_singleton]
      exact more

/-- The walk answers at most `limit` held events that are not rejected, from among its seed and what
lies behind, around `stop`. -/
theorem walkBack_collects {stop : OrdSet EventId}
    (h : walkBack s fuel seed stop limit minDepth = .ok out) :
    out.length ≤ limit ∧ ∀ raw ∈ out, ∃ id stored, id ∉ stop ∧ BackFrom s seed id ∧
      s.event[id]? = some stored ∧ stored.rejected = none ∧ stored.raw = raw := by
  have start : Walks s seed stop limit ⟨stop, seed.foldl (pushEvent s stop) ∅, []⟩ :=
    ⟨fun id mem => mem, pushEvents_back (by simp) fun id mem => ⟨id, mem, .inl rfl⟩, by simp, by simp⟩
  refine (Loop.run_result (I := Walks s seed stop limit) (F := fun _ => True)
    (Q := fun out => out.length ≤ limit ∧ ∀ raw ∈ out, ∃ id stored, id ∉ stop ∧ BackFrom s seed id ∧
      s.event[id]? = some stored ∧ stored.rejected = none ∧ stored.raw = raw)
    (fun w w' inv again => ?_) (fun w out' inv left => ?_) (fun _ _ _ _ => trivial) fuel _ start).1 out h
  · obtain ⟨left, _⟩ | ⟨entry, w'', same, more, deepest, visited⟩ := walkRound_cases again
    · cases left
    · cases same
      exact inv.round more deepest visited
  · obtain ⟨same, _⟩ | ⟨entry, w'', again, _⟩ := walkRound_cases left
    · cases same
      exact ⟨inv.few, inv.collected⟩
    · cases again

def unseen (s : Store) (seen : OrdSet EventId) : Nat :=
  s.event.keys.countP fun id => !seen.contains id

theorem unseen_insert_held {id : EventId} (held : id ∈ s.event)
    (new : id ∉ seen) : unseen s (seen.insert id) < unseen s seen := by
  refine StateRes.countP_lt_countP (fun x left => ?_) (ExtTreeMap.mem_keys.2 held)
    (by simp [OrdSet.contains_eq_false.2 new]) (by simp)
  rw [Bool.not_eq_true', OrdSet.contains_eq_false] at left ⊢
  exact fun mem => left (OrdSet.mem_insert'.2 (.inr mem))

theorem unseen_insert_unheld {id : EventId} (unheld : id ∉ s.event) :
    unseen s (seen.insert id) = unseen s seen := by
  refine List.countP_congr fun x mem => ?_
  have other : x ≠ id := by
    rintro rfl
    exact unheld (ExtTreeMap.mem_keys.1 mem)
  rw [Bool.not_eq_true', Bool.not_eq_true', OrdSet.contains_eq_false, OrdSet.contains_eq_false,
    OrdSet.mem_insert', or_iff_right other]

theorem Visited.descends (ahead : entry ∈ w.frontier) (visited : Visited s minDepth w entry w') :
    Prod.Lex (· < ·) (· < ·) (unseen s w'.seen, w'.frontier.size) (unseen s w.seen, w.frontier.size) := by
  have smaller : (w.frontier.erase entry).size < w.frontier.size := OrdSet.size_erase_lt ahead
  cases visited with
  | again old => exact .right _ smaller
  | passed new out =>
    by_cases held : entry.2 ∈ s.event
    · exact .left _ _ (unseen_insert_held held new)
    · dsimp only
      rw [unseen_insert_unheld held]
      exact .right _ smaller
  | collected new held accepted deep =>
    exact .left _ _ (unseen_insert_held (OrdMap.mem_iff_getElem?.2 ⟨_, held⟩) new)

theorem walkRound_ne_error {e : RoomError} : walkRound s limit minDepth w ≠ .error e := by
  unfold walkRound
  split
  · split
    · simp
    dsimp only
    split
    · simp
    split
    · simp
    split <;> simp
  · simp

theorem walkBack_settles (stop : OrdSet EventId) :
    Loop.Settles .outOfFuel (fun fuel => walkBack s fuel seed stop limit minDepth) := by
  refine Loop.run_settles (I := fun _ => True)
    (InvImage.wf (fun w : BackWalk => (unseen s w.seen, w.frontier.size))
      (Prod.lex Nat.lt_wfRel Nat.lt_wfRel).wf)
    (fun w w' _ again => ⟨trivial, ?_⟩) (fun w _ => walkRound_ne_error) trivial
  obtain ⟨left, _⟩ | ⟨entry, w'', same, _, deepest, visited⟩ := walkRound_cases again
  · cases left
  · cases same
    exact visited.descends (OrdSet.mem_toList'.1 (List.mem_of_getLast? deepest))

theorem mem_parents {n p : EventId} :
    p ∈ parents s n ↔ ∃ stored, s.event[n]? = some stored ∧ p ∈ prevEventIds stored.raw := by
  unfold parents
  split
  · rename_i unheld
    simp [unheld]
  · rename_i stored held
    simp [held]

def ParentOf (s : Store) (id : EventId) : Prop := ∃ child, child ≠ id ∧ id ∈ parents s child

theorem parentOf_ancestor {n id : EventId} (h : Ancestor s n id) (away : n ≠ id) : ParentOf s id := by
  induction h using Relation.TransGen.head_induction_on with
  | @single n step => exact ⟨n, away, mem_parents.2 step⟩
  | @head n p step _ ih =>
    by_cases same : p = id
    · exact ⟨n, away, mem_parents.2 (same ▸ step)⟩
    · exact ih same

theorem getMissingEvents_collects {earliest latest : List EventId}
    (h : getMissingEvents s fuel earliest latest limit minDepth = .ok out) :
    out.length ≤ limit ∧ ∀ raw ∈ out, ∃ id stored, (∃ n ∈ latest, Ancestor s n id) ∧ ParentOf s id ∧
      s.event[id]? = some stored ∧ stored.rejected = none ∧ stored.raw = raw := by
  obtain ⟨events, walked, h⟩ := bind_eq_ok.1 h
  rw [pure_eq_ok] at h
  subst h
  obtain ⟨few, collected⟩ := walkBack_collects walked
  refine ⟨by rwa [List.length_reverse], fun raw mem => ?_⟩
  obtain ⟨id, stored, ahead, ⟨p, seeded, back⟩, held, passes, same⟩ :=
    collected raw (List.mem_reverse.1 mem)
  obtain ⟨n, named, parent⟩ := List.mem_flatMap.1 seeded
  have step := mem_parents.1 parent
  have behind : Ancestor s n id := by
    obtain rfl | behind := back
    · exact .single step
    · exact .head step behind
  refine ⟨id, stored, ⟨n, named, behind⟩, parentOf_ancestor behind ?_, held, passes, same⟩
  rintro rfl
  exact ahead (OrdSet.mem_extend.2 (.inl named))

theorem walkBack_single {id : EventId} {stored : StoredEvent} {stop : OrdSet EventId}
    (held : s.event[id]? = some stored) (accepted : stored.rejected = none) (ahead : id ∉ stop)
    (mem : id ∈ seed) (only : ∀ p ∈ seed, p = id ∨ p ∈ stop) (enough : 2 ≤ fuel) :
    walkBack s fuel seed stop 1 0 = .ok [stored.raw] := by
  have frontier : ∀ entry, entry ∈ seed.foldl (pushEvent s stop) ∅ ↔ entry = (stored.depth, id) := by
    have pushed : ∀ (seed : List EventId) (frontier : OrdSet (Nat × EventId)) (entry : Nat × EventId),
        (∀ p ∈ seed, p = id ∨ p ∈ stop) → (entry ∈ seed.foldl (pushEvent s stop) frontier ↔
          entry ∈ frontier ∨ id ∈ seed ∧ entry = (stored.depth, id)) := by
      intro seed
      induction seed with
      | nil => simp
      | cons p seed ih =>
        intro frontier entry only
        rw [List.foldl_cons, ih _ _ fun q mem => only q (List.mem_cons_of_mem _ mem)]
        obtain rfl | stopped := only p List.mem_cons_self
        · have push : pushEvent s stop frontier p = frontier.insert (stored.depth, p) := by
            simp [pushEvent, OrdSet.contains_eq_false.2 ahead, held, accepted]
          rw [push, OrdSet.mem_insert']
          tauto
        · have skip : pushEvent s stop frontier p = frontier := by
            rw [pushEvent, if_pos (ExtTreeSet.contains_iff_mem.2 stopped)]
          have other : id ≠ p := fun same => ahead (same ▸ stopped)
          rw [skip, List.mem_cons, or_iff_right other]
    intro entry
    rw [pushed seed ∅ entry only]
    simp [mem]
  obtain ⟨fuel, rfl⟩ : ∃ k, fuel = k + 2 := ⟨fuel - 2, by omega⟩
  unfold walkBack Loop.run
  cases round : walkRound s 1 0 ⟨stop, seed.foldl (pushEvent s stop) ∅, []⟩ with
  | error e => exact absurd round walkRound_ne_error
  | ok next =>
    obtain ⟨rfl, empty⟩ | ⟨entry, w', rfl, _, deepest, visited⟩ := walkRound_cases round
    · have none := List.getLast?_eq_none_iff.1 (empty (by simp))
      have first := OrdSet.mem_toList'.2 ((frontier (stored.depth, id)).2 rfl)
      rw [none] at first
      cases first
    · obtain rfl := (frontier entry).1 (OrdSet.mem_toList'.1 (List.mem_of_getLast? deepest))
      cases visited with
      | again old => exact absurd old ahead
      | passed new out =>
        obtain rejected | shallow := out stored held
        · rw [accepted] at rejected
          cases rejected
        · exact absurd shallow (Nat.not_lt_zero _)
      | collected new held' _ _ =>
        obtain rfl := some_unique held held'
        simp [Loop.run, walkRound]

theorem getMissingEvents_single {id child : EventId} {stored : StoredEvent}
    (held : s.event[id]? = some stored) (accepted : stored.rejected = none) (away : child ≠ id)
    (parent : id ∈ parents s child) (enough : 2 ≤ fuel) :
    getMissingEvents s fuel ((parents s child).filter (· ≠ id)) [child] 1 0 = .ok [stored.raw] := by
  have walked := @walkBack_single _ _ ([child].flatMap (parents s)) _ _
    (OrdSet.extend (OrdSet.extend ∅ ((parents s child).filter (· ≠ id))) [child]) held accepted
    (by simp [OrdSet.mem_extend, away.symm]) (by simpa using parent) (fun p mem => ?_) enough
  · rw [getMissingEvents, walked]
    rfl
  · rw [List.flatMap_singleton] at mem
    by_cases same : p = id
    · exact .inl same
    · exact .inr (OrdSet.mem_extend.2 (.inr (OrdSet.mem_extend.2 (.inl
        (List.mem_filter.2 ⟨mem, decide_eq_true same⟩)))))

end Spec

end Serving

end Saltator.Room
