import Saltator.Client.RoomUtil
import Saltator.Lib.Index
import Saltator.Room.Order
import Saltator.Room.Replay
import Saltator.User.Projection

/-!
# The membership index

The user server keeps a row for every user and room, with the membership that the user has there. A
projection writes the rows from the member events on the timeline of the room's shard. The members of a
room that was imported are written as well, from its current state. A row only gives way to a later
position.

The timeline does not tell all that happens to a room's current state. A member event may lose against
another one when the state is resolved, and an import changes members without their events. Such a
change is adrift until a member event of the user that counts, or until members that were read after it
are written to the row. As long as nothing is adrift, the row of a user has the membership of the
current state whenever the projection has caught up (`index_agrees`).
-/

namespace Saltator.Client

open Std
open Saltator.Outcome Saltator.Index
open Room
open StateRes (Key StateIds)
open User (MembershipChange MembershipEntry UserCommand)

/-! ## What is written to the index -/

section Changes

variable (ruma : Ruma) (s : Store)

def membershipChange (room : RoomId) (id : EventId) (roomSeq : Nat) : Option MembershipChange := do
  let stored ← s.event[id]?
  if strProp stored.raw "type" ≠ some "m.room.member" then none
  else
    let stateKey ← strProp stored.raw "state_key"
    if ruma.isUserId stateKey then
      return ⟨stateKey, room, ← membershipOf stored, id, (strProp stored.raw "sender").getD "", roomSeq⟩
    else none

def entryChange (n : Nat) : SeqEntry → Option MembershipChange
  | .event room id => membershipChange ruma s room id n
  | .receipt .. => none

def membershipChanges (after upto : Nat) : List MembershipChange :=
  (s.timeline.rows fun n => after < n ∧ n ≤ upto).filterMap fun r => entryChange ruma s r.1 r.2

def importedMember (room : RoomId) (upto : Nat) (entry : Key × EventId) : Option MembershipChange := do
  if entry.1.1 ≠ "m.room.member" then none
  else
    let raw ← rawEvent s entry.2
    let membership ← (objProp raw "content").bind fun content => strProp content "membership"
    return ⟨entry.1.2, room, membership, entry.2, (strProp raw "sender").getD "", upto⟩

def importedMembers (fuel : Nat) (room : RoomId) (upto : Nat) : Except ApiError (List MembershipChange) := do
  return (← currentState s fuel room).toList.filterMap (importedMember s room upto)

def roomSource (shard : Nat) : String := "room/" ++ toString shard
def importSource (room : RoomId) : String := "import/" ++ room

theorem roomSource_ne_importSource (shard : Nat) (room : RoomId) : importSource room ≠ roomSource shard := by
  intro same
  have first := congrArg (fun s : String => s.toList.head?) same
  simp [importSource, roomSource, String.toList_append] at first

end Changes

/-! ## The two shards -/

/-- Members of the current state that were read, to be written at a position. -/
structure Seed where
  upto : Nat
  changes : List MembershipChange

/-- The room's shard and the user shard, the members that were read, and the position of a change that
neither the timeline nor a row tells. -/
structure Indexing where
  rooms : Store
  users : User.Store
  seeds : List Seed
  adrift : Option Nat

def Indexing.init : Indexing := ⟨.empty, .empty, [], none⟩

section

variable (ruma : Ruma) (fuel : Nat) (room : RoomId) (user : UserId)

def memberOf (s : Store) : Option String :=
  (((currentState s fuel room).toOption.bind fun state => state[memberKey user]?).bind
    fun id => s.event[id]?).bind membershipOf

def changeOf (c : MembershipChange) : Option (Nat × String) :=
  if c.pair = (user, room) then some (c.roomSeq, c.membership) else none

def memberAt (s : Store) (n : Nat) : Option String :=
  (((s.timeline[n]?).bind (entryChange ruma s n)).bind (changeOf room user)).map Prod.snd

def rowOf (users : User.Store) : Option (Nat × String) :=
  (users.membership[(user, room)]?).map fun m => (m.roomSeq, m.membership)

/-- The last that the timeline says about the user past the positions of the first store. -/
def newestMember (s t : Store) : Option String :=
  (List.range' (s.seq + 1) (t.seq - s.seq)).reverse.findSome? (memberAt ruma room user t)

/-- Whether a change is adrift after a command of the room's shard: a member event that counts settles
everything, and without one the current state has to stay as it is. -/
def drift (s t : Store) (adrift : Option Nat) : Option Nat :=
  match newestMember ruma room user s t with
  | some m =>
    if memberOf fuel room user t = some m then none else some (max (s.seq + 1) t.seq)
  | none =>
    if memberOf fuel room user t = memberOf fuel room user s then adrift
    else some (max (s.seq + 1) t.seq)

/-- Nothing is known of the user in the room. -/
def Unheard (s : Store) : Prop :=
  memberOf fuel room user s = none ∧ ∀ n, memberAt ruma room user s n = none

/-- A user command that leaves the user's row to the projection. Memberships of remote rooms are
recorded for users that the room does not know. -/
def Spares (source : String) (s : Store) : UserCommand → Prop
  | .applyRoomChanges source' _ changes => source' ≠ source ∧ ∀ c ∈ changes, c.pair ≠ (user, room)
  | .recordRemoteInvite u r _ _ _ => (u, r) = (user, room) → Unheard ruma fuel room user s
  | .recordRemoteKnock u r _ _ _ => (u, r) = (user, room) → Unheard ruma fuel room user s
  | .recordRemoteLeave u r => (u, r) = (user, room) → Unheard ruma fuel room user s
  | _ => True

variable (serde : User.SerdeJson) (shard : Nat) (P : Store → RoomCommand → Prop)

/-- One step of the two shards. -/
inductive Indexes : Indexing → Indexing → Prop
  | commit (c : Indexing) {engine t : Store} {cmd : RoomCommand} {response : RoomResponse}
      (holds : P c.rooms cmd) (applied : Machine.apply engine c.rooms cmd = .ok (t, response)) :
      Indexes c { c with rooms := t, adrift := drift ruma fuel room user c.rooms t c.adrift }
  | project (c : Indexing) {after upto : Nat} (meets : after ≤ c.users.cursorOf (roomSource shard))
      (within : upto ≤ c.rooms.seq) :
      Indexes c { c with users := (User.Machine.applyRoomChanges c.users (roomSource shard) upto
        (membershipChanges ruma c.rooms after upto)).1 }
  | read (c : Indexing) {upto : Nat} {changes : List MembershipChange} (within : upto ≤ c.rooms.seq)
      (listed : importedMembers c.rooms fuel room upto = .ok changes) :
      Indexes c { c with seeds := ⟨upto, changes⟩ :: c.seeds }
  | seed (c : Indexing) {x : Seed} {users : User.Store} (mem : x ∈ c.seeds)
      (written : users = (User.Machine.applyRoomChanges c.users (importSource room) x.upto x.changes).1) :
      Indexes c { c with
        users := users
        adrift := if rowOf room user users = rowOf room user c.users then c.adrift
          else c.adrift.filter fun k => x.upto < k }
  | command (c : Indexing) {engine t : User.Store} {cmd : UserCommand} {response : User.UserResponse}
      (spares : Spares ruma fuel room user (roomSource shard) c.rooms cmd)
      (applied : User.Machine.apply serde engine c.users cmd = .ok (t, response)) :
      Indexes c { c with users := t }

/-- Any number of them. -/
def IndexRuns : Indexing → Indexing → Prop :=
  Relation.ReflTransGen (Indexes ruma fuel room user serde shard P)

end

/-! ## Rows -/

section Rows

variable {ruma : Ruma} {fuel : Nat} {room : RoomId} {user : UserId} {users : User.Store} {s : Store}
  {n : Nat} {a : String} {c : MembershipChange} {e : Nat × String}

def changesOf (room : RoomId) (user : UserId) (changes : List MembershipChange) : List (Nat × String) :=
  changes.filterMap (changeOf room user)

theorem rowOf_applyRoomChange (users : User.Store) (c : MembershipChange) :
    rowOf room user (User.Machine.applyRoomChange users c) =
      (changeOf room user c).elim (rowOf room user users) (put (rowOf room user users)) := by
  by_cases own : c.pair = (user, room)
  · have here : (c.userId, c.roomId) = (user, room) := own
    rw [changeOf, if_pos own, User.applyRoomChange_eq, here]
    cases found : users.membership[(user, room)]? with
    | none => simp [rowOf, found, put]
    | some row =>
      by_cases stale : c.roomSeq ≤ row.roomSeq
      · simp [rowOf, found, put, stale]
      · simp [rowOf, found, put, stale]
  · have other : (c.userId, c.roomId) ≠ (user, room) := own
    rw [changeOf, if_neg own, User.applyRoomChange_eq]
    split
    · rfl
    · simp [rowOf, OrdMap.getElem?_insert', Ne.symm other]

theorem rowOf_foldl (changes : List MembershipChange) (users : User.Store) :
    rowOf room user (changes.foldl User.Machine.applyRoomChange users) =
      (changesOf room user changes).foldl put (rowOf room user users) := by
  induction changes generalizing users with
  | nil => rfl
  | cons c changes ih =>
    rw [List.foldl_cons, ih, rowOf_applyRoomChange]
    simp only [changesOf, List.filterMap_cons]
    cases changeOf room user c with
    | none => rfl
    | some e => rfl

theorem applyRoomChanges_cases (users : User.Store) (source : String) (upto : Nat)
    (changes : List MembershipChange) :
    (upto ≤ users.cursorOf source ∧ (User.Machine.applyRoomChanges users source upto changes).1 = users) ∨
      users.cursorOf source < upto ∧
        rowOf room user (User.Machine.applyRoomChanges users source upto changes).1 =
          (changesOf room user changes).foldl put (rowOf room user users) ∧
        ∀ source', (User.Machine.applyRoomChanges users source upto changes).1.cursorOf source' =
          if source' = source then upto else users.cursorOf source' := by
  unfold User.Machine.applyRoomChanges
  split
  · rename_i stale
    exact .inl ⟨stale, rfl⟩
  · rename_i ahead
    refine .inr ⟨Nat.not_le.1 ahead, rowOf_foldl changes users, fun source' => ?_⟩
    simp only [User.Store.cursorOf, User.cursor_foldl, OrdMap.getElem?_insert']
    split <;> rfl

theorem membershipChange_named {r : RoomId} {id : EventId}
    (h : membershipChange ruma s r id n = some c) : c.roomId = r ∧ c.roomSeq = n := by
  obtain ⟨stored, -, h⟩ := Option.bind_eq_some_iff.1 h
  split at h
  · cases h
  · obtain ⟨stateKey, -, h⟩ := Option.bind_eq_some_iff.1 h
    split at h
    · obtain ⟨membership, -, h⟩ := Option.bind_eq_some_iff.1 h
      obtain rfl := Option.some.inj h
      exact ⟨rfl, rfl⟩
    · cases h

theorem entryChange_roomSeq {entry : SeqEntry}
    (h : entryChange ruma s n entry = some c) : c.roomSeq = n := by
  cases entry with
  | receipt => cases h
  | event r id => exact (membershipChange_named h).2

theorem changeOf_eq_some :
    changeOf room user c = some e ↔ c.pair = (user, room) ∧ (c.roomSeq, c.membership) = e := by
  unfold changeOf
  split
  · rename_i own
    simp [own]
  · rename_i other
    simp [other]

theorem memberAt_eq_some : memberAt ruma room user s n = some a ↔ ∃ entry c,
    s.timeline[n]? = some entry ∧ entryChange ruma s n entry = some c ∧
      changeOf room user c = some (n, a) := by
  simp only [memberAt, Option.map_eq_some_iff, Option.bind_eq_some_iff]
  constructor
  · rintro ⟨⟨n', a⟩, ⟨c, ⟨entry, held, made⟩, own⟩, rfl⟩
    obtain ⟨-, same⟩ := changeOf_eq_some.1 own
    rw [entryChange_roomSeq made] at same
    obtain ⟨rfl, rfl⟩ := Prod.mk.inj same
    exact ⟨entry, c, held, made, own⟩
  · rintro ⟨entry, c, held, made, own⟩
    exact ⟨(n, a), ⟨c, ⟨entry, held, made⟩, own⟩, rfl⟩

theorem mem_changesOf {after upto : Nat} : e ∈ changesOf room user (membershipChanges ruma s after upto) ↔
      memberAt ruma room user s e.1 = some e.2 ∧ after < e.1 ∧ e.1 ≤ upto := by
  rw [memberAt_eq_some, changesOf, List.mem_filterMap]
  simp only [membershipChanges, List.mem_filterMap]
  constructor
  · rintro ⟨c, ⟨⟨n, entry⟩, mem, made⟩, own⟩
    obtain ⟨held, within⟩ := OrdMap.mem_rows.1 mem
    obtain ⟨-, rfl⟩ := changeOf_eq_some.1 own
    obtain rfl := entryChange_roomSeq made
    exact ⟨⟨entry, c, held, made, own⟩, of_decide_eq_true within⟩
  · rintro ⟨⟨entry, c, held, made, own⟩, within⟩
    exact ⟨c, ⟨(e.1, entry), OrdMap.mem_rows.2 ⟨held, decide_eq_true within⟩, made⟩, own⟩

theorem changesOf_sorted (ruma : Ruma) (room : RoomId) (user : UserId) (s : Store) (after upto : Nat) :
    (changesOf room user (membershipChanges ruma s after upto)).Pairwise fun a b => a.1 < b.1 := by
  have rows : (s.timeline.rows fun n => after < n ∧ n ≤ upto).Pairwise fun a b => a.1 < b.1 :=
    (s.timeline.ordered_keys_toList.filter _).imp fun less => Nat.compare_eq_lt.1 less
  have changes : (membershipChanges ruma s after upto).Pairwise fun c c' => c.roomSeq < c'.roomSeq := by
    refine rows.filterMap _ fun a b less c made c' made' => ?_
    rw [entryChange_roomSeq made, entryChange_roomSeq made']
    exact less
  refine changes.filterMap _ fun c c' less e own e' own' => ?_
  obtain ⟨-, rfl⟩ := changeOf_eq_some.1 own
  obtain ⟨-, rfl⟩ := changeOf_eq_some.1 own'
  exact less

theorem changesOf_imported (user : UserId) {upto : Nat} {changes : List MembershipChange}
    (h : importedMembers s fuel room upto = .ok changes) :
    (changesOf room user changes).Pairwise (fun a b => a.1 < b.1) ∧
      ∀ e ∈ changesOf room user changes, e.1 = upto ∧ memberOf fuel room user s = some e.2 := by
  obtain ⟨state, current, h⟩ := bind_eq_ok.1 h
  obtain rfl := pure_eq_ok.1 h
  have own : ∀ entry c e, importedMember s room upto entry = some c → changeOf room user c = some e →
      entry.1 = memberKey user ∧ e.1 = upto ∧ (s.event[entry.2]?).bind membershipOf = some e.2 := by
    rintro ⟨⟨type, key⟩, id⟩ c e made own
    obtain ⟨same, rfl⟩ := changeOf_eq_some.1 own
    simp only [importedMember] at made
    split at made
    · cases made
    · rename_i type
      obtain ⟨raw, body, made⟩ := Option.bind_eq_some_iff.1 made
      obtain ⟨membership, content, made⟩ := Option.bind_eq_some_iff.1 made
      obtain rfl := Option.some.inj made
      obtain ⟨rfl, -⟩ := Prod.mk.inj same
      obtain ⟨stored, held, rfl⟩ := Option.map_eq_some_iff.1 body
      obtain ⟨held, -⟩ := Option.filter_eq_some_iff.1 held
      refine ⟨Prod.ext (not_not.1 type) rfl, rfl, ?_⟩
      rw [held]
      exact content
  constructor
  · rw [changesOf, List.filterMap_filterMap, List.pairwise_filterMap]
    refine ExtTreeMap.distinct_keys_toList.imp fun distinct e said e' said' => ?_
    obtain ⟨c, made, said⟩ := Option.bind_eq_some_iff.1 said
    obtain ⟨c', made', said'⟩ := Option.bind_eq_some_iff.1 said'
    have same := (own _ _ _ made said).1.trans (own _ _ _ made' said').1.symm
    exact absurd (ReflCmp.cmp_eq_of_eq same) distinct
  · intro e mem
    obtain ⟨c, listed, said⟩ := List.mem_filterMap.1 mem
    obtain ⟨entry, held, made⟩ := List.mem_filterMap.1 listed
    obtain ⟨key, position, content⟩ := own _ _ _ made said
    refine ⟨position, ?_⟩
    have held := OrdMap.mem_toList.1 held
    rw [memberOf, current]
    rw [key] at held
    simp only [Except.toOption, Option.bind_some, held]
    exact content

end Rows

/-! ## The shard's timeline -/

section Timeline

variable {ruma : Ruma} {room : RoomId} {user : UserId} {s t : Store}

/-- An event that was published has its row in its room's order. -/
def Ranked (s : Store) : Prop :=
  ∀ (n : Nat) (room : RoomId) (id : EventId), s.timeline[n]? = some (.event room id) →
    s.roomSeq[(room, n)]? = some id

theorem ranked_enrolled : Enrolled Ranked where
  congr h timeline _ _ rows := by
    intro n room id held
    rw [timeline] at held
    rw [rows]
    exact h n room id held
  event room id h timeline _ _ rows := by
    intro n room' id' held
    rw [timeline, OrdMap.getElem?_insert'] at held
    rw [rows, OrdMap.getElem?_insert']
    split at held
    · rename_i same
      obtain ⟨rfl, rfl⟩ := SeqEntry.event.inj (Option.some.inj held)
      rw [same, if_pos rfl]
    · rename_i other
      rw [if_neg fun same => other (Prod.mk.inj same).2]
      exact h n room' id' held
  other entry none h timeline _ _ rows := by
    intro n room id held
    rw [timeline, OrdMap.getElem?_insert'] at held
    rw [rows]
    split at held
    · exact absurd (Option.some.inj held) (none room id)
    · exact h n room id held

/-- What the room's shard guarantees. -/
structure Enumerated (s : Store) : Prop where
  ordered : InOrder s
  ranked : Ranked s
  journal : Journal s

theorem Enumerated.commit (ruma : Ruma) (user : UserId) (h : Enumerated s) {engine : Store} {cmd : RoomCommand}
    {response : RoomResponse} (own : (ownJoins room).Holds s cmd)
    (applied : Machine.apply engine s cmd = .ok (t, response)) :
    Enumerated t ∧ s.seq ≤ t.seq ∧
      ∀ n ≤ s.seq, memberAt ruma room user t n = memberAt ruma room user s n := by
  have run : Runs (ownJoins room).Holds s t := .single ⟨engine, cmd, response, own, applied⟩
  have extended := Machine.apply_extends h.journal applied
  have ordered : InOrder t :=
    Runs.invariant inOrder_onCore (fun _ _ _ h _ heff => inOrder_effect h heff) run h.ordered
  refine ⟨⟨ordered, Machine.apply_enrolled ranked_enrolled h.ranked applied, extended.journal⟩,
    extended.seq, fun n le => ?_⟩
  have rows := extended.rows n le
  unfold memberAt
  rw [rows]
  cases held : s.timeline[n]? with
  | none => rfl
  | some entry =>
    cases entry with
    | receipt => rfl
    | event r id =>
      by_cases here : r = room
      · subst here
        have same := run_records h.ordered (fun _ _ own => own) run n id (h.ranked n r id held)
        simp only [Option.bind_some, entryChange, membershipChange, same]
      · have elsewhere : ∀ s : Store, (entryChange ruma s n (.event r id)).bind (changeOf room user) =
            none := by
          intro s
          rw [Option.bind_eq_none_iff]
          intro c made
          refine if_neg fun pair => here ?_
          exact (membershipChange_named made).1.symm.trans (Prod.mk.inj pair).2
        simp only [Option.bind_some, elsewhere]

theorem Enumerated.quiet (h : Enumerated s) : Quiet (memberAt ruma room user s) s.seq := by
  intro n past
  have absent : s.timeline[n]? = none :=
    ExtTreeMap.getElem?_eq_none fun mem => Nat.not_lt.2 (h.journal.mem_le mem) past
  rw [memberAt, absent]
  rfl

theorem newestMember_some {m : String} (quiet : Quiet (memberAt ruma room user t) t.seq)
    (h : newestMember ruma room user s t = some m) :
    ∃ n, s.seq < n ∧ memberAt ruma room user t n = some m ∧ Quiet (memberAt ruma room user t) n := by
  obtain ⟨above, n, below, split, said, silent⟩ := List.findSome?_eq_some_iff.1 h
  have listed : ∀ k, k ∈ above ++ n :: below ↔ s.seq < k ∧ k ≤ t.seq := by
    intro k
    rw [← split, List.mem_reverse, List.mem_range'_1]
    omega
  have falling : (above ++ n :: below).Pairwise fun a b => b < a := by
    rw [← split, List.pairwise_reverse]
    exact List.pairwise_lt_range'
  refine ⟨n, ((listed n).1 (by simp)).1, said, fun k later => ?_⟩
  rcases Nat.lt_or_ge t.seq k with past | within
  · exact quiet k past
  · have start := ((listed n).1 (by simp)).1
    rcases List.mem_append.1 ((listed k).2 ⟨by omega, within⟩) with mem | mem
    · exact silent k mem
    · rcases List.mem_cons.1 mem with rfl | mem
      · exact absurd later (Nat.lt_irrefl k)
      · have less := (List.pairwise_cons.1 (List.pairwise_append.1 falling).2.1).1 k mem
        omega

theorem newestMember_none (quiet : Quiet (memberAt ruma room user t) t.seq)
    (quiet' : Quiet (memberAt ruma room user s) s.seq)
    (old : ∀ n ≤ s.seq, memberAt ruma room user t n = memberAt ruma room user s n)
    (h : newestMember ruma room user s t = none) :
    memberAt ruma room user t = memberAt ruma room user s := by
  funext n
  rcases Nat.lt_or_ge s.seq n with past | within
  · rw [quiet' n past]
    rcases Nat.lt_or_ge t.seq n with past' | within'
    · exact quiet n past'
    · refine List.findSome?_eq_none_iff.1 h n ?_
      rw [List.mem_reverse, List.mem_range'_1]
      omega
  · exact old n within

end Timeline

/-! ## What the index is going to have -/

section Invariant

variable (ruma : Ruma) (fuel : Nat) (room : RoomId) (user : UserId)

/-- Members that were read, and what they will do for the user's row if they are written. -/
structure Promises (c : Indexing) (x : Seed) : Prop where
  within : x.upto ≤ c.rooms.seq
  sorted : (changesOf room user x.changes).Pairwise fun a b => a.1 < b.1
  named : ∀ e ∈ changesOf room user x.changes, e.1 = x.upto
  tells : ∀ e ∈ changesOf room user x.changes, Behind (rowOf room user c.users) x.upto →
    (∀ k, c.adrift = some k → k ≤ x.upto) → ∀ m, memberOf fuel room user c.rooms = some m →
      Tells (memberAt ruma room user c.rooms) (some e) 0 m

/-- The row has what was delivered, and is going to have the membership of the current state, unless a
change is adrift. Nothing is said past a change that is. -/
structure Tracks (shard : Nat) (c : Indexing) : Prop where
  rooms : Enumerated c.rooms
  cursor : c.users.cursorOf (roomSource shard) ≤ c.rooms.seq
  row : ∀ r, rowOf room user c.users = some r → r.1 ≤ c.rooms.seq
  covers : Covers (memberAt ruma room user c.rooms) (rowOf room user c.users)
    (c.users.cursorOf (roomSource shard))
  tells : c.adrift = none → ∀ m, memberOf fuel room user c.rooms = some m →
    Tells (memberAt ruma room user c.rooms) (rowOf room user c.users)
      (c.users.cursorOf (roomSource shard)) m
  still : ∀ k, c.adrift = some k → Quiet (memberAt ruma room user c.rooms) k
  seeds : ∀ x ∈ c.seeds, Promises ruma fuel room user c x

end Invariant

section Steps

variable {ruma : Ruma} {fuel : Nat} {room : RoomId} {user : UserId} {shard : Nat} {c : Indexing}
  {serde : User.SerdeJson} {response : User.UserResponse} {pair : UserId × RoomId}
  {entry : MembershipEntry} {cmd : UserCommand}

theorem Tracks.commit (h : Tracks ruma fuel room user shard c) {engine t : Store} {cmd : RoomCommand}
    {response : RoomResponse} (own : (ownJoins room).Holds c.rooms cmd)
    (applied : Machine.apply engine c.rooms cmd = .ok (t, response)) :
    Tracks ruma fuel room user shard
      { c with rooms := t, adrift := drift ruma fuel room user c.rooms t c.adrift } := by
  obtain ⟨rooms, onward, old⟩ := h.rooms.commit ruma user own applied
  have quiet : Quiet (memberAt ruma room user t) t.seq := rooms.quiet
  have cursor := h.cursor.trans onward
  have row : ∀ r, rowOf room user c.users = some r → r.1 ≤ t.seq := fun r found =>
    (h.row r found).trans onward
  have covers : Covers (memberAt ruma room user t) (rowOf room user c.users)
      (c.users.cursorOf (roomSource shard)) := by
    intro n delivered said
    rw [old n (delivered.trans h.cursor)] at said
    exact h.covers n delivered said
  -- A change that is adrift now came after all that was read.
  have adrift : drift ruma fuel room user c.rooms t c.adrift = some (max (c.rooms.seq + 1) t.seq) →
      Tracks ruma fuel room user shard
        { c with rooms := t, adrift := drift ruma fuel room user c.rooms t c.adrift } := by
    intro lost
    refine ⟨rooms, cursor, row, covers, fun none => ?_, fun k same n past => ?_, fun x mem => ?_⟩
    · cases lost.symm.trans none
    · obtain rfl := some_unique lost same
      exact quiet n (Nat.lt_of_le_of_lt (Nat.le_max_right ..) past)
    · have promised := h.seeds x mem
      refine ⟨promised.within.trans onward, promised.sorted, promised.named, fun e _ _ covered => ?_⟩
      have := covered _ lost
      have := promised.within
      omega
  cases newest : newestMember ruma room user c.rooms t with
  | some m =>
    obtain ⟨n, past, said, last⟩ := newestMember_some quiet newest
    by_cases counts : memberOf fuel room user t = some m
    · have settled : drift ruma fuel room user c.rooms t c.adrift = none := by
        rw [drift, newest]
        exact if_pos counts
      refine ⟨rooms, cursor, row, covers, fun _ m' member => ?_, fun k same => ?_, fun x mem => ?_⟩
      · obtain rfl := some_unique counts member
        exact .of_last (fun r found => (h.row r found).trans_lt past) (h.cursor.trans_lt past) said last
      · cases settled.symm.trans same
      · have promised := h.seeds x mem
        refine ⟨promised.within.trans onward, promised.sorted, promised.named,
          fun e listed _ _ m' member => ?_⟩
        obtain rfl := some_unique counts member
        refine .of_last (fun r found => ?_) (Nat.zero_lt_of_lt past) said last
        obtain rfl := Option.some.inj found
        rw [promised.named _ listed]
        exact promised.within.trans_lt past
    · refine adrift ?_
      rw [drift, newest]
      exact if_neg counts
  | none =>
    have same := newestMember_none quiet h.rooms.quiet old newest
    by_cases stays : memberOf fuel room user t = memberOf fuel room user c.rooms
    · have kept : drift ruma fuel room user c.rooms t c.adrift = c.adrift := by
        rw [drift, newest]
        exact if_pos stays
      rw [kept]
      refine ⟨rooms, cursor, row, covers, fun none m member => ?_, fun k found => ?_, fun x mem => ?_⟩
      · rw [same]
        exact h.tells none m (stays.symm.trans member)
      · rw [same]
        exact h.still k found
      · have promised := h.seeds x mem
        refine ⟨promised.within.trans onward, promised.sorted, promised.named,
          fun e listed behind covered m member => ?_⟩
        rw [same]
        exact promised.tells e listed behind covered m (stays.symm.trans member)
    · refine adrift ?_
      rw [drift, newest]
      exact if_neg stays

theorem Tracks.users (h : Tracks ruma fuel room user shard c) {users : User.Store} {adrift : Option Nat}
    (cursor : users.cursorOf (roomSource shard) ≤ c.rooms.seq)
    (row : ∀ r, rowOf room user users = some r → r.1 ≤ c.rooms.seq)
    (covers : Covers (memberAt ruma room user c.rooms) (rowOf room user users)
      (users.cursorOf (roomSource shard)))
    (tells : adrift = none → ∀ m, memberOf fuel room user c.rooms = some m →
      Tells (memberAt ruma room user c.rooms) (rowOf room user users) (users.cursorOf (roomSource shard)) m)
    (still : ∀ k, adrift = some k → c.adrift = some k)
    (further : ∀ n, Behind (rowOf room user users) n → (∀ k, adrift = some k → k ≤ n) →
      Behind (rowOf room user c.users) n ∧ ∀ k, c.adrift = some k → k ≤ n) :
    Tracks ruma fuel room user shard { c with users := users, adrift := adrift } where
  rooms := h.rooms
  cursor := cursor
  row := row
  covers := covers
  tells := tells
  still k same := h.still k (still k same)
  seeds x mem := by
    have promised := h.seeds x mem
    refine ⟨promised.within, promised.sorted, promised.named, fun e listed behind covered => ?_⟩
    obtain ⟨behind, covered⟩ := further x.upto behind covered
    exact promised.tells e listed behind covered

theorem behind_of_foldl {l : List (Nat × String)} (sorted : l.Pairwise fun a b => a.1 < b.1)
    {row : Option (Nat × String)} {n : Nat} (h : Behind (l.foldl put row) n) : Behind row n := by
  rcases foldl_put sorted row with ⟨same, -⟩ | ⟨e, -, same, behind, -⟩
  · exact same ▸ h
  · rw [same] at h
    exact fun r found => (behind r found).trans (h e rfl)

theorem Tracks.project (h : Tracks ruma fuel room user shard c) {after upto : Nat}
    (meets : after ≤ c.users.cursorOf (roomSource shard)) (within : upto ≤ c.rooms.seq) :
    Tracks ruma fuel room user shard
      { c with users := (User.Machine.applyRoomChanges c.users (roomSource shard) upto
        (membershipChanges ruma c.rooms after upto)).1 } := by
  rcases applyRoomChanges_cases c.users (roomSource shard) upto
    (membershipChanges ruma c.rooms after upto) with ⟨-, same⟩ | ⟨ahead, row, cursors⟩
  · rw [same]
    exact h
  · have sorted := changesOf_sorted ruma room user c.rooms after upto
    have cursor := (cursors (roomSource shard)).trans (if_pos rfl)
    obtain ⟨covers, -⟩ := deliver (a := "") sorted (fun _ => mem_changesOf) meets ahead.le h.covers
    refine h.users ?_ ?_ ?_ ?_ (fun k same => same) ?_
    · rw [cursor]
      exact within
    · rw [row]
      intro r found
      rcases foldl_put sorted (rowOf room user c.users) with ⟨same, -⟩ | ⟨e, mem, same, -, -⟩
      · exact h.row r (same.symm.trans found)
      · obtain rfl := some_unique same found
        exact (mem_changesOf.1 mem).2.2.trans within
    · rw [row, cursor]
      exact covers
    · rw [row, cursor]
      intro none m member
      exact (deliver sorted (fun _ => mem_changesOf) meets ahead.le h.covers).2 (h.tells none m member)
    · rw [row]
      exact fun n behind covered => ⟨behind_of_foldl sorted behind, covered⟩

theorem Tracks.read (h : Tracks ruma fuel room user shard c) {upto : Nat}
    {changes : List MembershipChange} (within : upto ≤ c.rooms.seq)
    (listed : importedMembers c.rooms fuel room upto = .ok changes) :
    Tracks ruma fuel room user shard { c with seeds := ⟨upto, changes⟩ :: c.seeds } := by
  obtain ⟨sorted, named⟩ := changesOf_imported user listed
  refine ⟨h.rooms, h.cursor, h.row, h.covers, h.tells, h.still, fun x mem => ?_⟩
  rcases List.mem_cons.1 mem with rfl | mem
  · refine ⟨within, sorted, fun e mem => (named e mem).1, fun e mem behind covered m member => ?_⟩
    obtain ⟨n, v⟩ := e
    obtain ⟨rfl, own⟩ := named _ mem
    obtain rfl := some_unique member own
    cases lost : c.adrift with
    | none => exact (h.tells lost m member).read h.covers behind
    | some k =>
      -- Nothing is said past the change, so there is nothing to come.
      refine .inr ⟨fun q _ past => h.still k lost q ?_, rfl⟩
      exact (covered k lost).trans_lt (past _ rfl)
  · have promised := h.seeds x mem
    exact ⟨promised.within, promised.sorted, promised.named, promised.tells⟩

theorem Tracks.seed (h : Tracks ruma fuel room user shard c) {x : Seed} {users : User.Store}
    (mem : x ∈ c.seeds)
    (written : users = (User.Machine.applyRoomChanges c.users (importSource room) x.upto x.changes).1) :
    Tracks ruma fuel room user shard { c with
      users := users
      adrift := if rowOf room user users = rowOf room user c.users then c.adrift
        else c.adrift.filter fun k => x.upto < k } := by
  have promised := h.seeds x mem
  rcases applyRoomChanges_cases c.users (importSource room) x.upto x.changes with
    ⟨-, same⟩ | ⟨-, row, cursors⟩
  · obtain rfl := written.trans same
    rw [if_pos rfl]
    exact h
  · rw [← written] at row cursors
    have cursor := (cursors (roomSource shard)).trans
      (if_neg (Ne.symm (roomSource_ne_importSource shard room)))
    rcases foldl_put promised.sorted (rowOf room user c.users) with ⟨same, -⟩ | ⟨e, listed, same, behind, -⟩
    · have kept := row.trans same
      rw [if_pos kept]
      refine h.users ?_ ?_ ?_ ?_ (fun k same => same) ?_
      · rw [cursor]
        exact h.cursor
      · rw [kept]
        exact h.row
      · rw [kept, cursor]
        exact h.covers
      · rw [kept, cursor]
        exact h.tells
      · rw [kept]
        exact fun n behind covered => ⟨behind, covered⟩
    · have put := row.trans same
      obtain ⟨n, v⟩ := e
      obtain rfl : n = x.upto := promised.named _ listed
      have moved : rowOf room user users ≠ rowOf room user c.users := by
        intro same
        exact Nat.lt_irrefl _ (behind _ (same.symm.trans put))
      rw [if_neg moved]
      refine h.users ?_ ?_ ?_ ?_ ?_ ?_
      · rw [cursor]
        exact h.cursor
      · rw [put]
        exact fun r found => Option.some.inj found ▸ promised.within
      · rw [put, cursor]
        exact h.covers.replace behind
      · rw [put, cursor]
        intro settled m member
        refine (promised.tells _ listed behind (fun k lost => ?_) m member).replace behind h.covers
        simpa [lost, Option.filter] using settled
      · exact fun k same => (Option.filter_eq_some_iff.1 same).1
      · rw [put]
        intro n later covered
        have past : x.upto < n := later _ rfl
        refine ⟨fun r found => (behind r found).trans past, fun k lost => ?_⟩
        rcases Nat.lt_or_ge x.upto k with after | before
        · exact covered k (Option.filter_eq_some_iff.2 ⟨lost, decide_eq_true after⟩)
        · exact before.trans past.le

theorem rowOf_insert {users t : User.Store}
    (written : t.membership = users.membership.insert pair entry) : rowOf room user t =
      if pair = (user, room) then some (entry.roomSeq, entry.membership) else rowOf room user users := by
  rw [rowOf, written, OrdMap.getElem?_insert']
  by_cases own : pair = (user, room)
  · rw [if_pos own.symm, if_pos own]
    rfl
  · rw [if_neg (Ne.symm own), if_neg own]
    rfl

theorem recorded_row {users t : User.Store}
    {s : Store} (written : t.membership = users.membership.insert pair entry) (start : entry.roomSeq = 0)
    (unheard : pair = (user, room) → Unheard ruma fuel room user s) :
    rowOf room user t = rowOf room user users ∨
      Unheard ruma fuel room user s ∧ ∃ v, rowOf room user t = some (0, v) := by
  rw [rowOf_insert written]
  by_cases own : pair = (user, room)
  · rw [if_pos own, start]
    exact .inr ⟨unheard own, _, rfl⟩
  · exact .inl (if_neg own)

theorem spares_row {engine users t : User.Store} {source : String} {s : Store}
    (spares : Spares ruma fuel room user source s cmd)
    (applied : User.Machine.apply serde engine users cmd = .ok (t, response)) :
    t.cursorOf source = users.cursorOf source ∧ (rowOf room user t = rowOf room user users ∨
      Unheard ruma fuel room user s ∧ ∃ v, rowOf room user t = some (0, v)) := by
  have frame := User.Machine.apply_frame applied
  cases cmd with
  | applyRoomChanges source' upto changes =>
    obtain rfl : (User.Machine.applyRoomChanges users source' upto changes).1 = t :=
      congrArg Prod.fst (Except.ok.inj applied)
    obtain ⟨apart, others⟩ := spares
    have none : changesOf room user changes = [] :=
      List.filterMap_eq_nil_iff.2 fun c mem => if_neg (others c mem)
    rcases applyRoomChanges_cases users source' upto changes with ⟨-, same⟩ | ⟨-, row, cursors⟩
    · rw [same]
      exact ⟨rfl, .inl rfl⟩
    · rw [cursors, if_neg (Ne.symm apart), row, none]
      exact ⟨rfl, .inl rfl⟩
  | recordRemoteInvite u r sender id stripped =>
    obtain rfl := congrArg Prod.fst (Except.ok.inj applied)
    exact ⟨rfl, recorded_row rfl rfl spares⟩
  | recordRemoteKnock u r sender id stripped =>
    obtain rfl := congrArg Prod.fst (Except.ok.inj applied)
    exact ⟨rfl, recorded_row rfl rfl spares⟩
  | recordRemoteLeave u r =>
    obtain rfl : (User.Machine.recordRemoteLeave users u r).1 = t :=
      congrArg Prod.fst (Except.ok.inj applied)
    refine ⟨by rw [frame]; rfl, ?_⟩
    unfold User.Machine.recordRemoteLeave
    dsimp only
    split
    · exact recorded_row rfl rfl spares
    · exact recorded_row rfl rfl spares
  | forgetRoom u r =>
    obtain rfl : (User.Machine.forgetRoom users u r).1 = t := congrArg Prod.fst (Except.ok.inj applied)
    refine ⟨by rw [frame]; rfl, .inl ?_⟩
    unfold User.Machine.forgetRoom
    split
    · rfl
    · rename_i entry held
      rw [rowOf_insert rfl]
      split
      · rename_i own
        rw [rowOf, ← own, held]
        rfl
      · rfl
  | _ => exact ⟨by rw [frame]; rfl, .inl (by rw [frame]; rfl)⟩

theorem Tracks.command (h : Tracks ruma fuel room user shard c) {engine t : User.Store}
    (spares : Spares ruma fuel room user (roomSource shard) c.rooms cmd)
    (applied : User.Machine.apply serde engine c.users cmd = .ok (t, response)) :
    Tracks ruma fuel room user shard { c with users := t } := by
  obtain ⟨cursor, same | ⟨⟨outside, silent⟩, v, row⟩⟩ := spares_row spares applied
  · refine h.users ?_ ?_ ?_ ?_ (fun k same => same) ?_
    · rw [cursor]
      exact h.cursor
    · rw [same]
      exact h.row
    · rw [same, cursor]
      exact h.covers
    · rw [same, cursor]
      exact h.tells
    · rw [same]
      exact fun n behind covered => ⟨behind, covered⟩
  · refine ⟨h.rooms, cursor ▸ h.cursor, ?_, ?_, ?_, h.still, fun x mem => ?_⟩
    · rw [row]
      exact fun r found => Option.some.inj found ▸ Nat.zero_le _
    · exact fun n _ said => absurd (silent n) said
    · intro _ m member
      cases outside.symm.trans member
    · have promised := h.seeds x mem
      refine ⟨promised.within, promised.sorted, promised.named, fun _ _ _ _ m member => ?_⟩
      cases outside.symm.trans member

theorem Tracks.init : Tracks ruma fuel room user shard .init where
  rooms := ⟨inOrder_empty, fun n r id held => by simp [Indexing.init, Store.empty] at held, .empty⟩
  cursor := Nat.le_of_eq (by simp [Indexing.init, User.Store.cursorOf, User.Store.empty, Store.empty])
  row r found := by simp [Indexing.init, rowOf, User.Store.empty] at found
  covers n _ said := absurd (by simp [Indexing.init, memberAt, Store.empty]) said
  tells _ m member := by
    simp [Indexing.init, memberOf, currentState, roomMeta, Store.empty, Except.toOption] at member
  still k lost := by cases lost
  seeds x mem := by cases mem

theorem Tracks.run {P : Store → RoomCommand → Prop} (own : ∀ s cmd, P s cmd → (ownJoins room).Holds s cmd)
    (run : IndexRuns ruma fuel room user serde shard P .init c) :
    Tracks ruma fuel room user shard c := by
  induction run with
  | refl => exact .init
  | tail _ step ih =>
    cases step with
    | commit holds applied => exact ih.commit (own _ _ holds) applied
    | project meets within => exact ih.project meets within
    | read within listed => exact ih.read within listed
    | seed mem written => exact ih.seed mem written
    | command spares applied => exact ih.command spares applied

/-- When the projection has caught up and no change is adrift, the user's row has the membership of the
room's current state. -/
theorem index_agrees {serde : User.SerdeJson} {P : Store → RoomCommand → Prop}
    (own : ∀ s cmd, P s cmd → (ownJoins room).Holds s cmd)
    (run : IndexRuns ruma fuel room user serde shard P .init c) (settled : c.adrift = none)
    (caught : c.users.cursorOf (roomSource shard) = c.rooms.seq) {m : String}
    (member : memberOf fuel room user c.rooms = some m) :
    ∃ row : MembershipEntry, c.users.membership[(user, room)]? = some row ∧ row.membership = m := by
  have tracks := Tracks.run own run
  have row := (tracks.tells settled m member).value (caught ▸ tracks.rooms.quiet)
  rw [rowOf, Option.map_map] at row
  exact Option.map_eq_some_iff.1 row

end Steps

/-! ## A member that is taken in off the timeline -/

section Samples

def sampleServe (user : UserId) (c : Indexing) (call : Call) : Option Indexing :=
  ((Server.sample ["x"]).serve (ownJoins "!r:x").Holds 9 c.rooms call).map fun t =>
    { c with rooms := t, adrift := drift Ruma.sample 9 "!r:x" user c.rooms t c.adrift }

def sampleIndexed (user : UserId) (calls : List Call) : Option Indexing :=
  (calls.foldlM (sampleServe user) .init).map fun c =>
    { c with users := (User.Machine.applyRoomChanges c.users (roomSource 0) c.rooms.seq
      (membershipChanges Ruma.sample c.rooms 0 c.rooms.seq)).1 }

abbrev SampleRuns (user : UserId) : Indexing → Indexing → Prop :=
  IndexRuns Ruma.sample 9 "!r:x" user User.SerdeJson.sample 0
    fun s cmd => Serial Ruma.sample s cmd ∧ (ownJoins "!r:x").Holds s cmd

theorem drift_self {ruma : Ruma} {fuel : Nat} {room : RoomId} {user : UserId} (s : Store)
    (adrift : Option Nat) : drift ruma fuel room user s s adrift = adrift := by
  have none : newestMember ruma room user s s = none := by simp [newestMember]
  rw [drift, none]
  exact if_pos rfl

theorem sampleIndexed_runs {user : UserId} {calls : List Call} {c : Indexing}
    (h : sampleIndexed user calls = some c) : SampleRuns user .init c := by
  have served : ∀ (calls : List Call) (c c' : Indexing), calls.foldlM (sampleServe user) c = some c' →
      SampleRuns user c c' := by
    intro calls
    induction calls with
    | nil =>
      intro c c' h
      obtain rfl : c = c' := by simpa using h
      exact .refl
    | cons call calls ih =>
      intro c c' h
      rw [List.foldlM_cons] at h
      obtain ⟨c₁, first, h⟩ := Option.bind_eq_some_iff.1 h
      obtain ⟨t, served, rfl⟩ := Option.map_eq_some_iff.1 first
      refine Relation.ReflTransGen.trans ?_ (ih _ _ h)
      rcases serve_cases served with rfl | ⟨cmd, response, prepared, own, applied⟩
      · rw [drift_self]
      · exact .single (.commit c ⟨⟨_, _, call, rfl, prepared⟩, own⟩ applied)
  obtain ⟨c₁, all, rfl⟩ := Option.map_eq_some_iff.1 h
  exact (served calls .init c₁ all).tail (.project c₁ (Nat.zero_le _) le_rfl)

theorem index_agrees_sample : ∃ (c : Indexing) (row : MembershipEntry),
    SampleRuns "@a:x" .init c ∧ c.users.membership[("@a:x", "!r:x")]? = some row ∧
      row.membership = "join" := by
  have evaluated : (sampleIndexed "@a:x" [.ingest Ruma.sampleCreate false,
      .ingest Ruma.sampleJoin false]).any (fun c : Indexing => c.adrift.isNone &&
        decide (c.users.cursorOf (roomSource 0) = c.rooms.seq) &&
        decide (memberOf 9 "!r:x" "@a:x" c.rooms = some "join")) = true := by
    decide +kernel
  simp only [Option.any_eq_true, Bool.and_eq_true, decide_eq_true_eq,
    Option.isNone_iff_eq_none] at evaluated
  obtain ⟨c, indexed, ⟨settled, caught⟩, member⟩ := evaluated
  have run := sampleIndexed_runs indexed
  obtain ⟨row, found, same⟩ := index_agrees (fun s cmd holds => holds.2) run settled caught member
  exact ⟨c, row, run, found, same⟩

/-- A room that anyone may join, a chain that is recovered with the join of another user in the state
before it, and a message after that. -/
def sampleAdopting : List Call :=
  let rules := Ruma.samplePdu "r" "m.room.join_rules" (some "") "@a:x" [("join_rule", .string "public")]
    ["$c", "$j"] ["$j"] 3
  let join := Ruma.samplePdu "b" "m.room.member" (some "@b:x") "@b:x" [("membership", .string "join")]
    ["$c", "$r"] ["$r"] 4
  [.ingest Ruma.sampleCreate false, .ingest Ruma.sampleJoin false, .ingest rules false,
    .importSegment "!r:x" [Ruma.sampleCreate, Ruma.sampleJoin, rules, join] []
      [Ruma.samplePdu "m" "m.room.message" none "@a:x" [] ["$c", "$j"] ["$b"] 5],
    .ingest (Ruma.samplePdu "n" "m.room.message" none "@a:x" [] ["$c", "$j"] ["$m"] 6) false]

/-- The other user is joined in the current state, and has no row though the projection has caught up. -/
theorem adopted_member_unindexed : ∃ c : Indexing, SampleRuns "@b:x" .init c ∧
    c.users.cursorOf (roomSource 0) = c.rooms.seq ∧
    memberOf 9 "!r:x" "@b:x" c.rooms = some "join" ∧
    ¬ ∃ row : MembershipEntry, c.users.membership[("@b:x", "!r:x")]? = some row ∧
      row.membership = "join" := by
  have evaluated : (sampleIndexed "@b:x" sampleAdopting).any (fun c : Indexing =>
      decide (c.users.cursorOf (roomSource 0) = c.rooms.seq) &&
      decide (memberOf 9 "!r:x" "@b:x" c.rooms = some "join") &&
      (c.users.membership[("@b:x", "!r:x")]?).isNone) = true := by
    decide +kernel
  simp only [Option.any_eq_true, Bool.and_eq_true, decide_eq_true_eq,
    Option.isNone_iff_eq_none] at evaluated
  obtain ⟨c, indexed, ⟨caught, member⟩, absent⟩ := evaluated
  refine ⟨c, sampleIndexed_runs indexed, caught, member, ?_⟩
  rintro ⟨row, found, -⟩
  cases absent.symm.trans found

end Samples

end Saltator.Client
