import Saltator.Client.RemoteJoin
import Saltator.User.KeyLog

/-!
# Changes of the device lists

A sync tells a client whose keys it has to query again, and who shares no room with its user any more.
Both are read off the change log of a window, against the memberships of the moment of the request. So a
user who left a room that the caller has left too is not reported, and one who came and went in the window
is (`deltas_net_iff`).
-/

namespace Saltator.Client

open Std
open User (KeyChangeEntry UserApp EntryKeepsLog LogAgrees)

/-! ## The deltas -/

/-- The users whose keys must be queried again, and those whom the caller no longer shares any room with. -/
structure Deltas where
  changed : OrdSet UserId
  left : OrdSet UserId

def Deltas.change (d : Deltas) (user : UserId) : Deltas := ⟨d.changed.insert user, d.left.erase user⟩

def Deltas.leave (d : Deltas) (user : UserId) : Deltas := ⟨d.changed.erase user, d.left.insert user⟩

def joinedRooms (users : User.Store) (user : UserId) : OrdSet RoomId :=
  OrdSet.extend ∅ (((users.membership.rows fun k => k.1 = user).filter fun r =>
    r.2.membership = "join").map fun r => r.1.2)

def sharesRoom (users : User.Store) (mine : OrdSet RoomId) (other : UserId) : Bool :=
  (users.membership.rows fun k => k.1 = other).any fun r =>
    r.2.membership = "join" && mine.contains r.1.2

namespace CsState

variable (cs : CsState) (w : Shards) (me : UserId) (mine : OrdSet RoomId)

def membersOf (room : RoomId) : List UserId := joinedMemberIds (cs.forRoom w room) cs.fuel room

def replay (d : Deltas) (entry : KeyChangeEntry) : Deltas :=
  match entry.membership with
  | none =>
    if entry.userId = me ∨ sharesRoom w.users mine entry.userId then d.change entry.userId else d
  | some (room, true) =>
    -- The members of a room that the caller has joined are new to the caller, who is one of them.
    if entry.userId = me then (cs.membersOf w room).foldl Deltas.change d
    else if mine.contains room then d.change entry.userId else d
  | some (room, false) =>
    if entry.userId = me then
      (cs.membersOf w room).foldl (fun d member =>
        if member ≠ me ∧ ¬ sharesRoom w.users mine member then d.leave member else d) d
    else if mine.contains room ∧ ¬ sharesRoom w.users mine entry.userId then d.leave entry.userId
    else d

/-- The deltas of the window `(since, upto]`. -/
def deviceListDeltas (since upto : Nat) : Deltas :=
  (w.users.keyChanges since upto).foldl (cs.replay w me mine) ⟨∅, ∅⟩

end CsState

/-! ## What a window says about a user -/

def Shares (users : User.Store) (a b : UserId) : Prop :=
  ∃ room, users.joined a room ∧ users.joined b room

/-- The deltas are the net effect for a user: who shares a room at the end and has new keys or did not share
one at the beginning has changed, and exactly those who shared one and share none any more have left. -/
structure Net (first last : User.Store) (me user : UserId) (log : List KeyChangeEntry) (d : Deltas) :
    Prop where
  changed : Shares last me user → ⟨user, none⟩ ∈ log ∨ ¬ Shares first me user → user ∈ d.changed
  left : user ∈ d.left ↔ Shares first me user ∧ ¬ Shares last me user
  apart : ¬ (user ∈ d.changed ∧ user ∈ d.left)

section Moves

variable (cs : CsState) (w : Shards) (me : UserId) (mine : OrdSet RoomId) (user : UserId)

/-- An entry in which the caller joins or leaves a room that the user is in at the time of the request, or
the user one that the caller is in then. -/
def move (entry : KeyChangeEntry) : Option Bool :=
  entry.membership.bind fun m =>
    if if entry.userId = me then user ∈ cs.membersOf w m.1 else entry.userId = user ∧ m.1 ∈ mine then some m.2
    else none

/-- The moves of a window are as they must be for the net effect: with a shared room by the time of the
request nobody may have left, and otherwise the last of them decides. -/
def MovesTell (first last : User.Store) (log : List KeyChangeEntry) : Prop :=
  let moves := log.filterMap (move cs w me mine user)
  let due := Shares last me user ∧ (⟨user, none⟩ ∈ log ∨ ¬ Shares first me user)
  let gone := Shares first me user ∧ ¬ Shares last me user
  (Shares w.users me user → (due → ⟨user, none⟩ ∈ log ∨ true ∈ moves) ∧ ¬ gone) ∧
  (¬ Shares w.users me user → (due → moves.getLast? = some true) ∧ (gone ↔ moves.getLast? = some false))

end Moves

/-! ## The replay -/

section Replay

variable {cs : CsState} {w : Shards} {me user : UserId} {mine : OrdSet RoomId} {d d' d'' : Deltas}
  {m m' : Option Bool} {users : User.Store} {room : RoomId}

theorem mem_joinedRooms : room ∈ joinedRooms users me ↔ users.joined me room := by
  simp only [joinedRooms, OrdSet.mem_extend, List.mem_map, List.mem_filter, Prod.exists, OrdMap.mem_rows,
    User.Store.joined, Option.any_eq_true, decide_eq_true_eq, ExtTreeSet.not_mem_empty, or_false]
  constructor
  · rintro ⟨user, room', entry, ⟨⟨row, rfl⟩, joined⟩, rfl⟩
    exact ⟨entry, row, joined⟩
  · rintro ⟨entry, row, joined⟩
    exact ⟨me, room, entry, ⟨⟨row, rfl⟩, joined⟩, rfl⟩

theorem sharesRoom_iff : sharesRoom users (joinedRooms users me) user ↔ Shares users me user := by
  simp only [sharesRoom, List.any_eq_true, Prod.exists, OrdMap.mem_rows, decide_eq_true_eq,
    Bool.and_eq_true, ExtTreeSet.contains_iff_mem, mem_joinedRooms, Shares, User.Store.joined,
    Option.any_eq_true]
  constructor
  · rintro ⟨user', room, entry, ⟨row, rfl⟩, joined, mine⟩
    exact ⟨room, mine, entry, row, joined⟩
  · rintro ⟨room, mine, entry, row, joined⟩
    exact ⟨user, room, entry, ⟨row, rfl⟩, joined, mine⟩

/-- The user is put among the changed, or among those who have left, or stays where they are. -/
structure Marks (user : UserId) (m : Option Bool) (d d' : Deltas) : Prop where
  changed : user ∈ d'.changed ↔ m = some true ∨ m = none ∧ user ∈ d.changed
  left : user ∈ d'.left ↔ m = some false ∨ m = none ∧ user ∈ d.left

theorem Marks.refl : Marks user none d d := by
  constructor <;> simp

theorem Marks.trans (h : Marks user m d d') (h' : Marks user m' d' d'') : Marks user (m'.or m) d d'' := by
  cases m' with
  | none => exact ⟨by simpa using h'.changed.trans (by simpa using h.changed), by
      simpa using h'.left.trans (by simpa using h.left)⟩
  | some b => exact ⟨by simpa using h'.changed, by simpa using h'.left⟩

theorem change_marks (other : UserId) :
    Marks user (if other = user then some true else none) d (d.change other) := by
  by_cases same : other = user
  · constructor <;> simp [Deltas.change, same]
  · constructor <;> simp [Deltas.change, same, ExtTreeSet.mem_erase]

theorem leave_marks (other : UserId) :
    Marks user (if other = user then some false else none) d (d.leave other) := by
  by_cases same : other = user
  · constructor <;> simp [Deltas.leave, same]
  · constructor <;> simp [Deltas.leave, same, ExtTreeSet.mem_erase]

theorem Marks.guard {other : UserId} {b : Bool} (h : Marks user (if other = user then some b else none) d d')
    (c : Prop) [Decidable c] :
    Marks user (if other = user ∧ c then some b else none) d (if c then d' else d) := by
  by_cases passes : c
  · simpa only [passes, and_true, if_true] using h
  · simpa only [passes, and_false, if_false] using Marks.refl

theorem foldl_marks {ε : Type} {step : Deltas → ε → Deltas} {mark : ε → Option Bool}
    (each : ∀ d e, Marks user (mark e) d (step d e)) (log : List ε) (d : Deltas) :
    Marks user (log.filterMap mark).getLast? d (log.foldl step d) := by
  induction log using List.reverseRecOn with
  | nil => exact .refl
  | append_singleton log e ih =>
    rw [List.foldl_append, List.filterMap_append, List.getLast?_append]
    have here := ih.trans (each (log.foldl step d) e)
    cases marked : mark e <;> simpa [marked] using here

theorem members_marks {step : Deltas → UserId → Deltas} {b : Bool} {p : UserId → Prop} [DecidablePred p]
    (each : ∀ d other, Marks user (if other = user ∧ p other then some b else none) d (step d other))
    (members : List UserId) (d : Deltas) :
    Marks user (if user ∈ members ∧ p user then some b else none) d (members.foldl step d) := by
  have folded := foldl_marks each members d
  suffices last : (members.filterMap fun other => if other = user ∧ p other then some b else none).getLast? =
      if user ∈ members ∧ p user then some b else none by rwa [last] at folded
  clear * -
  induction members using List.reverseRecOn with
  | nil => simp
  | append_singleton members other ih =>
    rw [List.filterMap_append, List.getLast?_append, ih]
    by_cases same : other = user ∧ p other
    · obtain ⟨rfl, passes⟩ := same
      simp [passes]
    · have same_members : user ∈ members ++ [other] ∧ p user ↔ user ∈ members ∧ p user := by grind
      have quiet : ([other].filterMap fun other => if other = user ∧ p other then some b else none) = [] := by
        simp [same]
      simp only [same_members, quiet, List.getLast?_nil, Option.none_or]

def mark (cs : CsState) (w : Shards) (me : UserId) (mine : OrdSet RoomId) (user : UserId)
    (entry : KeyChangeEntry) : Option Bool :=
  match entry.membership with
  | none =>
    if entry.userId = user ∧ (user = me ∨ sharesRoom w.users mine user) then some true else none
  | some (_, true) => move cs w me mine user entry
  | some (_, false) =>
    if user ≠ me ∧ ¬ sharesRoom w.users mine user then move cs w me mine user entry else none

theorem replay_marks (d : Deltas) (entry : KeyChangeEntry) :
    Marks user (mark cs w me mine user entry) d (cs.replay w me mine d entry) := by
  obtain ⟨other, _ | ⟨room, _ | _⟩⟩ := entry
  · -- new keys
    have marked : mark cs w me mine user ⟨other, none⟩ =
        if other = user ∧ (other = me ∨ sharesRoom w.users mine other) then some true else none := by
      unfold mark
      grind
    rw [marked]
    exact (change_marks other).guard _
  · -- a departure
    by_cases own : other = me
    · subst own
      have marked : mark cs w other mine user ⟨other, some (room, false)⟩ =
          if user ∈ cs.membersOf w room ∧ user ≠ other ∧ ¬ sharesRoom w.users mine user then some false
          else none := by
        unfold mark move
        grind
      have replayed : cs.replay w other mine d ⟨other, some (room, false)⟩ = _ := if_pos rfl
      rw [marked, replayed]
      exact members_marks (p := fun member => member ≠ other ∧ ¬ sharesRoom w.users mine member)
        (fun d member => (leave_marks member).guard _) (cs.membersOf w room) d
    · have marked : mark cs w me mine user ⟨other, some (room, false)⟩ =
          if other = user ∧ mine.contains room ∧ ¬ sharesRoom w.users mine other then some false
          else none := by
        unfold mark move
        grind
      have replayed : cs.replay w me mine d ⟨other, some (room, false)⟩ = _ := if_neg own
      rw [marked, replayed]
      exact (leave_marks other).guard _
  · -- a join
    by_cases own : other = me
    · subst own
      have marked : mark cs w other mine user ⟨other, some (room, true)⟩ =
          if user ∈ cs.membersOf w room ∧ True then some true else none := by
        unfold mark move
        grind
      have replayed : cs.replay w other mine d ⟨other, some (room, true)⟩ = _ := if_pos rfl
      rw [marked, replayed]
      exact members_marks (p := fun _ => True)
        (fun d member => by simpa only [and_true] using change_marks member) (cs.membersOf w room) d
    · have marked : mark cs w me mine user ⟨other, some (room, true)⟩ =
          if other = user ∧ mine.contains room then some true else none := by
        unfold mark move
        grind
      have replayed : cs.replay w me mine d ⟨other, some (room, true)⟩ = _ := if_neg own
      rw [marked, replayed]
      exact (change_marks other).guard _

theorem deltas_marks (since upto : Nat) : (user ∈ (cs.deviceListDeltas w me mine since upto).changed ↔
      ((w.users.keyChanges since upto).filterMap (mark cs w me mine user)).getLast? = some true) ∧
    (user ∈ (cs.deviceListDeltas w me mine since upto).left ↔
      ((w.users.keyChanges since upto).filterMap (mark cs w me mine user)).getLast? = some false) := by
  have each : ∀ d e, Marks user (mark cs w me mine user e) d (cs.replay w me mine d e) := replay_marks
  obtain ⟨changed, left⟩ := foldl_marks each (w.users.keyChanges since upto) ⟨∅, ∅⟩
  exact ⟨changed.trans (by simp), left.trans (by simp)⟩

theorem mark_sharing (shares : sharesRoom w.users mine user) (entry : KeyChangeEntry) :
    mark cs w me mine user entry =
      if entry = ⟨user, none⟩ ∨ move cs w me mine user entry = some true then some true else none := by
  obtain ⟨other, _ | ⟨room, _ | _⟩⟩ := entry <;> unfold mark move <;> grind

theorem mark_apart (apart : ¬ sharesRoom w.users mine user) (other : user ≠ me) (entry : KeyChangeEntry) :
    mark cs w me mine user entry = move cs w me mine user entry := by
  obtain ⟨other, _ | ⟨room, _ | _⟩⟩ := entry <;> unfold mark <;> simp_all [move]

variable (cs) in
theorem deltas_sharing (shares : Shares w.users me user) (since upto : Nat) :
    let log := w.users.keyChanges since upto
    let d := cs.deviceListDeltas w me (joinedRooms w.users me) since upto
    (user ∈ d.changed ↔
      ⟨user, none⟩ ∈ log ∨ true ∈ log.filterMap (move cs w me (joinedRooms w.users me) user)) ∧
    user ∉ d.left := by
  intro log d
  obtain ⟨changed, left⟩ : (user ∈ d.changed ↔ _) ∧ (user ∈ d.left ↔ _) := deltas_marks since upto
  have marked : ∀ entry, mark cs w me (joinedRooms w.users me) user entry = _ :=
    mark_sharing (sharesRoom_iff.2 shares)
  rw [changed, left]
  have all : ∀ b ∈ log.filterMap (mark cs w me (joinedRooms w.users me) user), b = true := by
    intro b mem
    obtain ⟨entry, -, here⟩ := List.mem_filterMap.1 mem
    rw [marked] at here
    grind
  have some_mark : true ∈ log.filterMap (mark cs w me (joinedRooms w.users me) user) ↔
      ⟨user, none⟩ ∈ log ∨ true ∈ log.filterMap (move cs w me (joinedRooms w.users me) user) := by
    simp only [List.mem_filterMap, marked]
    constructor
    · rintro ⟨entry, mem, here⟩
      grind
    · rintro (mem | ⟨entry, mem, here⟩)
      · exact ⟨_, mem, by simp⟩
      · exact ⟨_, mem, by simp [here]⟩
  refine ⟨⟨fun last => some_mark.1 (List.mem_of_getLast? last), fun any => ?_⟩, fun last => ?_⟩
  · obtain ⟨b, last⟩ := Option.ne_none_iff_exists'.1
      (mt List.getLast?_eq_none_iff.1 (List.ne_nil_of_mem (some_mark.2 any)))
    rw [last, all b (List.mem_of_getLast? last)]
  · cases all false (List.mem_of_getLast? last)

variable (cs) in
theorem deltas_apart (apart : ¬ Shares w.users me user) (other : user ≠ me) (since upto : Nat) :
    let moves := (w.users.keyChanges since upto).filterMap (move cs w me (joinedRooms w.users me) user)
    let d := cs.deviceListDeltas w me (joinedRooms w.users me) since upto
    (user ∈ d.changed ↔ moves.getLast? = some true) ∧ (user ∈ d.left ↔ moves.getLast? = some false) := by
  intro moves d
  have same : moves = (w.users.keyChanges since upto).filterMap
      (mark cs w me (joinedRooms w.users me) user) :=
    List.filterMap_congr fun entry _ => (mark_apart (mt sharesRoom_iff.1 apart) other entry).symm
  rw [same]
  exact deltas_marks since upto

theorem not_left_self (since upto : Nat) : me ∉ (cs.deviceListDeltas w me mine since upto).left := by
  intro mem
  obtain ⟨⟨other, membership⟩, -, here⟩ :=
    List.mem_filterMap.1 (List.mem_of_getLast? ((deltas_marks since upto).2.1 mem))
  rcases membership with _ | ⟨room, _ | _⟩ <;> simp [mark, move] at here

theorem net_iff (other : user ≠ me) (first last : User.Store) (since upto : Nat) :
    Net first last me user (w.users.keyChanges since upto)
        (cs.deviceListDeltas w me (joinedRooms w.users me) since upto) ↔
      MovesTell cs w me (joinedRooms w.users me) user first last (w.users.keyChanges since upto) := by
  by_cases shares : Shares w.users me user
  · obtain ⟨changed, left⟩ := deltas_sharing cs shares since upto
    constructor
    · intro net
      refine ⟨fun _ => ⟨fun due => changed.1 (net.changed due.1 due.2), fun gone => left (net.left.2 gone)⟩,
        fun apart => absurd shares apart⟩
    · rintro ⟨told, -⟩
      obtain ⟨due, stays⟩ := told shares
      exact ⟨fun now why => changed.2 (due ⟨now, why⟩),
        ⟨fun h => absurd h left, fun gone => absurd gone stays⟩,
        fun both => left both.2⟩
  · obtain ⟨changed, left⟩ := deltas_apart cs shares other since upto
    constructor
    · intro net
      exact ⟨fun now => absurd now shares, fun _ =>
        ⟨fun due => changed.1 (net.changed due.1 due.2), net.left.symm.trans left⟩⟩
    · rintro ⟨-, told⟩
      obtain ⟨due, gone⟩ := told shares
      refine ⟨fun now why => changed.2 (due ⟨now, why⟩), left.trans gone.symm, fun both => ?_⟩
      have := (changed.1 both.1).symm.trans (left.1 both.2)
      cases this

end Replay

/-! ## Windows of a run -/

/-- The shard of the users at the ends of a window, and when it is read: no remote invite or knock is
recorded over a join up to the end of the window, all that the log has got since is behind it, and neither
of the two has joined or left a room since. -/
structure Spans {serde : User.SerdeJson} (me user : UserId) (first last read : Shard.State (UserApp serde))
    (upto : Nat) : Prop where
  start : Batch.Runs (Shard.applyEntry (UserApp serde)) (EntryKeepsLog serde) (.fresh .empty) first
  window : Batch.Runs (Shard.applyEntry (UserApp serde)) (EntryKeepsLog serde) first last
  later : Batch.Runs (Shard.applyEntry (UserApp serde)) (fun _ _ _ => True) last read
  sized : last.app.seq < 2 ^ 64 - 1
  reached : last.app.seq ≤ upto
  behind : ∀ n ∈ read.app.keyChange, last.app.seq < n → upto < n
  still : ∀ room, read.app.joined me room = last.app.joined me room ∧
    read.app.joined user room = last.app.joined user room

theorem transition_eq_some {entry : KeyChangeEntry} {user : UserId} {room : RoomId} {b : Bool} :
    entry.transition user room = some b ↔ entry = ⟨user, some (room, b)⟩ := by
  obtain ⟨other, _ | ⟨room', b'⟩⟩ := entry <;> simp [KeyChangeEntry.transition, Option.filter]

theorem getLast?_filterMap {ε β : Type} {f : ε → Option β} {l : List ε} {b : β}
    (last : (l.filterMap f).getLast? = some b) :
    ∃ l₁ e l₂, l = l₁ ++ e :: l₂ ∧ f e = some b ∧ ∀ e' ∈ l₂, f e' = none := by
  obtain ⟨_, last⟩ := List.getLast?_eq_some_iff.1 last
  obtain ⟨l₁, l₂, rfl, -, last⟩ := List.filterMap_eq_append_iff.1 last
  obtain ⟨l₃, e, l₄, rfl, -, here, none_left⟩ := List.filterMap_eq_cons_iff.1 last
  exact ⟨l₁ ++ l₃, e, l₄, by rw [List.append_assoc], here, List.filterMap_eq_nil_iff.1 none_left⟩

section Windows

variable {cs : CsState} {w : Shards} {me user other : UserId} {room : RoomId} {s t : User.Store}
  {log : List KeyChangeEntry}

/-- The log of a window says who is in a room at its end, where it says anything of that. -/
def Recounts (s t : User.Store) (log : List KeyChangeEntry) : Prop :=
  ∀ other room, t.joined other room =
    ((log.filterMap fun entry => entry.transition other room).getLast?).getD (s.joined other room)

/-- The rooms' own states have the user where the shard of the users does, in the rooms that the caller
joined or left. -/
def MembersAgree (cs : CsState) (w : Shards) (me user : UserId) (log : List KeyChangeEntry) : Prop :=
  ∀ room b, ⟨me, some (room, b)⟩ ∈ log → (user ∈ cs.membersOf w room ↔ w.users.joined user room)

theorem Recounts.join_mem (h : Recounts s t log) (before : ¬ s.joined other room)
    (after : t.joined other room) :
    (⟨other, some (room, true)⟩ : KeyChangeEntry) ∈ log := by
  rw [h other room] at after
  cases ends : (log.filterMap fun entry => entry.transition other room).getLast? with
  | none =>
    rw [ends] at after
    exact absurd after before
  | some b =>
    rw [ends] at after
    obtain rfl : b = true := after
    obtain ⟨entry, mem, here⟩ := List.mem_filterMap.1 (List.mem_of_getLast? ends)
    exact transition_eq_some.1 here ▸ mem

theorem Recounts.joined_of_last (h : Recounts s t log) {l₁ l₂ : List KeyChangeEntry}
    (parts : log = l₁ ++ ⟨other, some (room, true)⟩ :: l₂)
    (silent : ∀ entry ∈ l₂, entry.transition other room = none) : t.joined other room := by
  have here : KeyChangeEntry.transition ⟨other, some (room, true)⟩ other room = some true :=
    transition_eq_some.2 rfl
  have ends : (log.filterMap fun entry => entry.transition other room).getLast? = some true := by
    simp [parts, here, List.filterMap_eq_nil_iff.2 silent]
  rw [h other room, ends]
  rfl

variable (still : ∀ room, w.users.joined me room = t.joined me room ∧
  w.users.joined user room = t.joined user room)
include still

theorem shares_still : Shares w.users me user ↔ Shares t me user :=
  exists_congr fun room => by rw [(still room).1, (still room).2]

theorem Recounts.joins (h : Recounts s t log) (agree : MembersAgree cs w me user log)
    (apart : ¬ Shares s me user) (shares : Shares t me user) :
    true ∈ log.filterMap (move cs w me (joinedRooms w.users me) user) := by
  obtain ⟨room, own, theirs⟩ := shares
  by_cases here : s.joined me room
  · -- the other has joined
    have away : ¬ s.joined user room := fun there => apart ⟨room, here, there⟩
    have distinct : user ≠ me := fun same => away (same ▸ here)
    refine List.mem_filterMap.2 ⟨_, h.join_mem away theirs, ?_⟩
    simp [move, distinct, mem_joinedRooms, (still room).1, own]
  · have entry := h.join_mem here own
    refine List.mem_filterMap.2 ⟨_, entry, ?_⟩
    simp [move, (agree room true entry).2 ((still room).2 ▸ theirs)]

theorem Recounts.departs (h : Recounts s t log) (agree : MembersAgree cs w me user log) (distinct : user ≠ me)
    (apart : ¬ Shares t me user) :
    (log.filterMap (move cs w me (joinedRooms w.users me) user)).getLast? ≠ some true := by
  intro ends
  obtain ⟨l₁, entry, l₂, parts, here, silent⟩ := getLast?_filterMap ends
  have mem : entry ∈ log := parts ▸ List.mem_append_right l₁ List.mem_cons_self
  obtain ⟨mover, _ | ⟨room, b⟩⟩ := entry
  · cases here
  simp only [move, Option.bind_some, Option.ite_none_right_eq_some, Option.some.injEq] at here
  obtain ⟨here, rfl⟩ := here
  -- whoever moved into the room stays there, and the other is in it
  refine apart ⟨room, ?_⟩
  by_cases own : mover = me
  · subst own
    rw [if_pos rfl] at here
    have theirs := (agree room true mem).1 here
    refine ⟨h.joined_of_last parts fun e later => ?_, (still room).2 ▸ theirs⟩
    have quiet := silent e later
    by_contra said
    obtain ⟨b, said⟩ := Option.ne_none_iff_exists'.1 said
    rw [transition_eq_some.1 said] at quiet
    simp [move, here] at quiet
  · rw [if_neg own] at here
    obtain ⟨rfl, mine⟩ := here
    refine ⟨(still room).1 ▸ mem_joinedRooms.1 mine, h.joined_of_last parts fun e later => ?_⟩
    have quiet := silent e later
    by_contra said
    obtain ⟨b, said⟩ := Option.ne_none_iff_exists'.1 said
    rw [transition_eq_some.1 said] at quiet
    simp [move, own, mine] at quiet

theorem Recounts.moves_ne_nil (h : Recounts s t log) (agree : MembersAgree cs w me user log)
    (distinct : user ≠ me) (apart : ¬ Shares t me user) :
    log.filterMap (move cs w me (joinedRooms w.users me) user) ≠ [] ↔
      (log.filterMap (move cs w me (joinedRooms w.users me) user)).getLast? = some false := by
  refine ⟨fun some_move => ?_, fun ends => List.ne_nil_of_mem (List.mem_of_getLast? ends)⟩
  obtain ⟨b, ends⟩ := Option.ne_none_iff_exists'.1 (mt List.getLast?_eq_none_iff.1 some_move)
  cases b with
  | true => exact absurd ends (h.departs still agree distinct apart)
  | false => exact ends

/-- Read when nothing of the two has changed since the end of the window, the moves are as they must be
exactly if somebody who shares no room at the end shared one at the beginning where there is a move. -/
theorem Recounts.movesTell_iff (h : Recounts s t log) (agree : MembersAgree cs w me user log)
    (distinct : user ≠ me) :
    MovesTell cs w me (joinedRooms w.users me) user s t log ↔ (¬ Shares t me user →
        (Shares s me user ↔ log.filterMap (move cs w me (joinedRooms w.users me) user) ≠ [])) := by
  have same := shares_still still
  constructor
  · rintro ⟨-, told⟩ apart
    obtain ⟨-, gone⟩ := told (mt same.1 apart)
    rw [h.moves_ne_nil still agree distinct apart, ← gone]
    exact (and_iff_left apart).symm
  · intro told
    refine ⟨fun shares => ⟨fun due => ?_, fun gone => gone.2 (same.1 shares)⟩,
      fun apart => ⟨fun due => absurd (same.2 due.1) apart, ?_⟩⟩
    · rcases due.2 with keys | before
      · exact .inl keys
      · exact .inr (h.joins still agree before due.1)
    · have apart := mt same.2 apart
      rw [← h.moves_ne_nil still agree distinct apart, ← told apart]
      exact and_iff_left apart

end Windows

/-- **When the deltas are the net effect.** For another user, and whatever the stores at the ends of the
window, they are exactly if the last move of the window tells it. In a run of the shard, read when neither
of the two has moved since the window's end, this comes to one condition: of the users who share no room at
the end, those who did at the beginning are the ones with a move, that is, who moved in the window into or
out of a room that the caller is in at the end, or have the caller do so with a room that they are in. The
caller is reported whenever that is due, and never among those who have left. -/
theorem deltas_net_iff (cs : CsState) (w : Shards) (me user : UserId) :
    (user ≠ me → ∀ (s t : User.Store) (since upto : Nat), Net s t me user (w.users.keyChanges since upto)
          (cs.deviceListDeltas w me (joinedRooms w.users me) since upto) ↔
        MovesTell cs w me (joinedRooms w.users me) user s t (w.users.keyChanges since upto)) ∧
    ∀ {serde : User.SerdeJson} {first last read : Shard.State (UserApp serde)} {upto : Nat},
      Spans me user first last read upto → w.users = read.app →
      MembersAgree cs w me user (w.users.keyChanges first.app.seq upto) →
      let log := w.users.keyChanges first.app.seq upto
      let d := cs.deviceListDeltas w me (joinedRooms w.users me) first.app.seq upto
      (user ≠ me → (Net first.app last.app me user log d ↔
        (¬ Shares last.app me user → (Shares first.app me user ↔
          log.filterMap (move cs w me (joinedRooms w.users me) user) ≠ [])))) ∧
      (user = me → (Shares last.app me me → ⟨me, none⟩ ∈ log ∨ ¬ Shares first.app me me → me ∈ d.changed) ∧
        me ∉ d.left) := by
  refine ⟨fun distinct s t since upto => net_iff distinct s t since upto, ?_⟩
  intro serde first last read upto spans users agree log d
  have agrees := LogAgrees.empty.run spans.start
  have tells : Recounts first.app last.app log := fun other room => by
    have window := User.joined_window agrees (agrees.run spans.window) (User.run_extends spans.window)
      (User.run_extends spans.later) spans.sized spans.reached spans.behind other room
    rw [← users] at window
    exact window
  have still : ∀ room, w.users.joined me room = User.Store.joined last.app me room ∧
      w.users.joined user room = User.Store.joined last.app user room := fun room => users ▸ spans.still room
  refine ⟨fun distinct => (net_iff distinct _ _ _ _).trans (tells.movesTell_iff still agree distinct), ?_⟩
  rintro rfl
  refine ⟨fun shares due => ?_, not_left_self _ _⟩
  refine (deltas_sharing cs ((shares_still still).2 shares) _ _).1.2 (due.imp id fun before => ?_)
  exact tells.joins still agree before shares

/-! ## Two members of a room -/

section Samples

open Room (Call Runs Serial exists_run)
open User (SerdeJson MembershipChange)
open Saltator.Outcome

def sampleStay (leaves : List Call) : List Call :=
  [.ingest Ruma.sampleCreate false, .ingest Ruma.sampleJoin false,
    .ingest (Ruma.samplePdu "r" "m.room.join_rules" (some "") "@a:x" [("join_rule", .string "public")]
      ["$c", "$j"] ["$j"] 3) false,
    .ingest (Ruma.samplePdu "b" "m.room.member" (some "@b:x") "@b:x" [("membership", .string "join")]
      ["$c", "$r"] ["$r"] 4) false] ++ leaves

def sampleGoing (hash : String) (user : UserId) (auth : List EventId) (prev : EventId) (depth : Nat) : Call :=
  .ingest (Ruma.samplePdu hash "m.room.member" (some user) user [("membership", .string "leave")] auth
    [prev] depth) false

def sampleWindow (leaves : List MembershipChange) : List (Shard.Entry User.UserCommand) :=
  [⟨⟨1, 1, 1⟩, .normal (.applyRoomChanges "room/0" 4
      [⟨"@a:x", "!r:x", "join", "$j", "@a:x", 2⟩, ⟨"@b:x", "!r:x", "join", "$b", "@b:x", 4⟩])⟩,
    ⟨⟨1, 1, 2⟩, .normal (.applyRoomChanges "room/0" 9 leaves)⟩]

def sampleSpan (leaves : List MembershipChange) :
    Option (Shard.State (UserApp SerdeJson.sample) × Shard.State (UserApp SerdeJson.sample)) := do
  let (first, _) ← (Shard.apply (UserApp SerdeJson.sample) (.fresh .empty)
    ((sampleWindow leaves).take 1)).toOption
  let (last, _) ← (Shard.apply (UserApp SerdeJson.sample) first ((sampleWindow leaves).drop 1)).toOption
  return (first, last)

def sampleHosted (s : Room.Store) (users : User.Store) : Shards :=
  { sampleShards with rooms := fun _ => s, users := users }

def sampleAgree (w : Shards) (log : List KeyChangeEntry) : Bool :=
  log.all fun entry => entry.membership.all fun m =>
    entry.userId ≠ "@a:x" || decide ("@b:x" ∈ sampleCsState.membersOf w m.1) == w.users.joined "@b:x" m.1

theorem sampleAgree_agrees {w : Shards} {log : List KeyChangeEntry} (h : sampleAgree w log) :
    MembersAgree sampleCsState w "@a:x" "@b:x" log := by
  intro room b mem
  have here : (decide ("@a:x" ≠ "@a:x") ||
      decide ("@b:x" ∈ sampleCsState.membersOf w room) == w.users.joined "@b:x" room) = true :=
    List.all_eq_true.1 h _ mem
  rcases Bool.or_eq_true_iff.1 here with other | same
  · exact absurd rfl (of_decide_eq_true other)
  · exact (decide_eq_true_iff.symm).trans (Bool.eq_iff_iff.1 (beq_iff_eq.1 same))

theorem sampleSpan_spans {leaves : List MembershipChange}
    {first last : Shard.State (UserApp SerdeJson.sample)} (h : sampleSpan leaves = some (first, last))
    (sized : last.app.seq < 2 ^ 64 - 1) : Spans "@a:x" "@b:x" first last last last.app.seq := by
  unfold sampleSpan at h
  obtain ⟨⟨first', rs⟩, applied, h⟩ := Option.bind_eq_some_iff.1 h
  obtain ⟨⟨last', rs'⟩, applied', h⟩ := Option.bind_eq_some_iff.1 h
  obtain ⟨rfl, rfl⟩ := some_pair h
  have keeps (u e : Shard.State (UserApp SerdeJson.sample)) :
      ∀ entry ∈ sampleWindow leaves, EntryKeepsLog SerdeJson.sample e u entry := by
    intro entry mem
    obtain rfl | mem := List.mem_cons.1 mem
    · trivial
    · obtain rfl := List.mem_singleton.1 mem
      trivial
  exact {
    start := .batch .refl (toOption_eq_some.1 applied) fun u entry mem =>
      keeps u _ entry (List.mem_of_mem_take mem)
    window := .batch .refl (toOption_eq_some.1 applied') fun u entry mem =>
      keeps u _ entry (List.mem_of_mem_drop mem)
    later := .refl
    sized := sized
    reached := le_rfl
    behind := fun _ _ later => later
    still := fun _ => ⟨rfl, rfl⟩ }

def sampleParted (s : Room.Store) (first last : User.Store) : Bool :=
  sampleAgree (sampleHosted s last) (last.keyChanges first.seq last.seq) &&
    sharesRoom first (joinedRooms first "@a:x") "@b:x" && !sharesRoom last (joinedRooms last "@a:x") "@b:x" &&
    decide (last.seq < 2 ^ 64 - 1)

theorem sampleParted_spans {s : Room.Store} {leaves : List MembershipChange}
    {first last : Shard.State (UserApp SerdeJson.sample)} (h : sampleSpan leaves = some (first, last))
    (parted : sampleParted s first.app last.app) :
    Spans "@a:x" "@b:x" first last last last.app.seq ∧
      MembersAgree sampleCsState (sampleHosted s last.app) "@a:x" "@b:x"
        (User.Store.keyChanges last.app first.app.seq last.app.seq) ∧
      Shares first.app "@a:x" "@b:x" ∧ ¬ Shares last.app "@a:x" "@b:x" := by
  simp only [sampleParted, Bool.and_eq_true, Bool.not_eq_true', decide_eq_true_eq] at parted
  obtain ⟨⟨⟨agree, before⟩, after⟩, sized⟩ := parted
  refine ⟨sampleSpan_spans h sized, sampleAgree_agrees agree, sharesRoom_iff.1 before, fun shares => ?_⟩
  rw [sharesRoom_iff.2 shares] at after
  cases after

/-- A member leaves, and is reported to the one who stays. -/
theorem deltas_net_sample : ∃ (s : Room.Store) (first last : Shard.State (UserApp SerdeJson.sample)),
    Runs (Serial Ruma.sample) Room.Store.empty s ∧ Shares first.app "@a:x" "@b:x" ∧
    ¬ Shares last.app "@a:x" "@b:x" ∧
    Net first.app last.app "@a:x" "@b:x" (User.Store.keyChanges last.app first.app.seq last.app.seq)
      (sampleCsState.deviceListDeltas (sampleHosted s last.app) "@a:x" (joinedRooms last.app "@a:x")
        first.app.seq last.app.seq) := by
  obtain ⟨s, run, h⟩ := exists_run (fun _ _ => True)
    (sampleStay [sampleGoing "k" "@b:x" ["$c", "$b"] "$b" 5])
    (fun s : Room.Store => (sampleSpan [⟨"@b:x", "!r:x", "leave", "$k", "@b:x", 5⟩]).any fun ends =>
      sampleParted s ends.1.app ends.2.app &&
      decide ((User.Store.keyChanges ends.2.app
          (User.Store.seq ends.1.app) (User.Store.seq ends.2.app)).filterMap
        (move sampleCsState (sampleHosted s ends.2.app) "@a:x" (joinedRooms ends.2.app "@a:x") "@b:x") ≠ []))
    (by decide +kernel)
  simp only [Bool.and_eq_true, Option.any_eq_true, decide_eq_true_eq] at h
  obtain ⟨⟨first, last⟩, made, parted, moved⟩ := h
  obtain ⟨spans, agree, before, after⟩ := sampleParted_spans made parted
  refine ⟨s, first, last, run.mono fun _ _ h => h.1, before, after, ?_⟩
  have net := ((deltas_net_iff sampleCsState (sampleHosted s last.app) "@a:x" "@b:x").2 spans rfl agree).1
    (by decide)
  exact net.2 fun _ => iff_of_true before moved

/-- Both members leave, and the caller is not told of the other. -/
theorem both_left_unreported : ∃ (s : Room.Store) (first last : Shard.State (UserApp SerdeJson.sample)),
    Runs (Serial Ruma.sample) Room.Store.empty s ∧
    Spans "@a:x" "@b:x" first last last last.app.seq ∧
    MembersAgree sampleCsState (sampleHosted s last.app) "@a:x" "@b:x"
      (User.Store.keyChanges last.app first.app.seq last.app.seq) ∧
    ¬ Net first.app last.app "@a:x" "@b:x" (User.Store.keyChanges last.app first.app.seq last.app.seq)
      (sampleCsState.deviceListDeltas (sampleHosted s last.app) "@a:x" (joinedRooms last.app "@a:x")
        first.app.seq last.app.seq) := by
  obtain ⟨s, run, h⟩ := exists_run (fun _ _ => True)
    (sampleStay [sampleGoing "l" "@a:x" ["$c", "$j"] "$b" 5, sampleGoing "k" "@b:x" ["$c", "$b"] "$l" 6])
    (fun s : Room.Store => (sampleSpan [⟨"@a:x", "!r:x", "leave", "$l", "@a:x", 5⟩,
      ⟨"@b:x", "!r:x", "leave", "$k", "@b:x", 6⟩]).any fun ends =>
        sampleParted s ends.1.app ends.2.app &&
        decide ("@b:x" ∉ (sampleCsState.deviceListDeltas (sampleHosted s ends.2.app) "@a:x"
          (joinedRooms ends.2.app "@a:x") (User.Store.seq ends.1.app) (User.Store.seq ends.2.app)).left))
    (by decide +kernel)
  simp only [Bool.and_eq_true, Option.any_eq_true, decide_eq_true_eq] at h
  obtain ⟨⟨first, last⟩, made, parted, silent⟩ := h
  obtain ⟨spans, agree, before, after⟩ := sampleParted_spans made parted
  exact ⟨s, first, last, run.mono fun _ _ h => h.1, spans, agree,
    fun net => silent (net.left.2 ⟨before, after⟩)⟩

end Samples

end Saltator.Client
