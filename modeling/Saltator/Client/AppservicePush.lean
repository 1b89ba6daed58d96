import Saltator.Client.Registration
import Saltator.Client.RoomUtil
import Saltator.Federation.Delivery
import Saltator.Lib.Decimal
import Saltator.Lib.Relay
import Saltator.Lib.Steps

/-!
# Transactions to application services

The events that concern an application service are pushed to it from the timeline of each room shard,
behind a cursor that the federation-out shard holds. A pass scans a batch of rows, gathers the events of
interest, sends them as one transaction, and moves the cursor to the last row that it has scanned.

Whether an event is of interest is asked when its row is scanned. Where a local member of the room or an
alias of it decides, these may have changed since the event appeared, and events are passed over
(`departed_member_skipped`). A shard that is empty on first contact gets no cursor, and is met for the first
time once more. As long as members and aliases are those of the event's time, or the event tells by itself,
and no shard is met again, the service gets every event of interest, in order, and an id stands for one list
of events (`push_steady`).
-/

namespace Saltator.Client

open Std
open Saltator.Outcome
open Room
open FedOut (FedOutStore)
open User (UserCommand SerdeJson)
open Federation (timelineFrom)
open Relay (Window InOrder Closed)

/-- Timeline rows scanned per iteration. -/
def pushScanBatch : Nat := 256

def maxEventsPerTxn : Nat := 100

/-! ## Interest -/

structure PushRegistration extends AppServiceRegistration where
  aliases : List Namespace
  rooms : List Namespace

structure PushCaches where
  memberInterest : OrdMap RoomId Bool
  roomAliases : Option (OrdMap RoomId (List String))

def PushCaches.empty : PushCaches := ⟨∅, none⟩

def PushCaches.forget (caches : PushCaches) (room : RoomId) (raw : JsonObject) : PushCaches :=
  if strProp raw "type" = some "m.room.member" then
    { caches with memberInterest := caches.memberInterest.erase room }
  else caches

/-- The alias table, turned over. -/
def aliasesByRoom (users : User.Store) : OrdMap RoomId (List String) :=
  users.aliasEntry.toList.foldl (fun m entry =>
    m.insert entry.2.roomId ((m[entry.2.roomId]?).getD [] ++ [entry.1])) ∅

/-- What of the worker does not change, for one application service. -/
structure Pusher where
  reg : PushRegistration
  serverName : String
  ruma : Ruma
  serde : SerdeJson
  fuel : Nat

namespace Pusher

variable (p : Pusher)

def isInterestedInUser (user : UserId) : Bool := p.reg.isInterestedInUser user p.serverName

def isInterestedInAlias (aliasName : String) : Bool := (nsMatches p.reg.aliases aliasName).isSome

def concerns (room : RoomId) (raw : JsonObject) : Bool :=
  (nsMatches p.reg.rooms room).isSome || (strProp raw "sender").any p.isInterestedInUser ||
    (decide (strProp raw "type" = some "m.room.member") &&
      (strProp raw "state_key").any p.isInterestedInUser)

def concernedBy (members : List UserId) : Bool :=
  members.any fun m => (":" ++ p.serverName).toList.isSuffixOf m.toList && p.isInterestedInUser m

def interested (s : Store) (users : User.Store) (room : RoomId) (raw : JsonObject) (caches : PushCaches) :
    Bool × PushCaches :=
  if p.concerns room raw then (true, caches)
  else
    let caches :=
      if p.reg.aliases.isEmpty then caches
      else { caches with roomAliases := some (caches.roomAliases.getD (aliasesByRoom users)) }
    let aliases := ((caches.roomAliases.bind fun m => m[room]?).getD [])
    if !p.reg.aliases.isEmpty && aliases.any p.isInterestedInAlias then (true, caches)
    else
      match caches.memberInterest[room]? with
      | some cached => (cached, caches)
      | none =>
        let hit := p.concernedBy (joinedMemberIds s p.fuel room)
        (hit, { caches with memberInterest := caches.memberInterest.insert room hit })

def joinedAt (s : Store) (room : RoomId) (id : EventId) : List UserId :=
  match s.event[id]? with
  | none => []
  | some stored =>
    match resolveGroup s p.fuel room stored.stateGroupAfter with
    | .error _ => []
    | .ok state => joinedIn s state

def aliased (users : User.Store) (room : RoomId) : Bool :=
  users.aliasEntry.toList.any fun entry => decide (entry.2.roomId = room) && p.isInterestedInAlias entry.1

end Pusher

/-- Why an event is of interest: for its room, sender or target, for an alias of the room, or for a local
member who is joined. -/
structure Interest where
  own : Bool
  aliased : Bool
  joined : Bool

def Interest.any (i : Interest) : Bool := i.own || i.aliased || i.joined

namespace Pusher

variable (p : Pusher)

def interestAt (s : Store) (users : User.Store) : Option SeqEntry → Option Interest
  | some (.event room id) => (rawEvent s id).map fun raw =>
    ⟨p.concerns room raw, p.aliased users room, p.concernedBy (p.joinedAt s room id)⟩
  | _ => none

/-- What a pass goes by at an event is what was so when the event appeared. The aliases are those of the table
that the pass keeps, or the present ones if it has none yet. For the members it takes what it remembers of the
room, or the present ones. Neither is asked for where the event tells by itself. -/
structure Recalls (s : Store) (users : User.Store) (room : RoomId) (caches : PushCaches) (raw : JsonObject)
    (i : Interest) : Prop where
  own : p.concerns room raw = i.own
  aliased : i.own = false → (caches.roomAliases.elim (p.aliased users room) fun table =>
    (table[room]?.getD []).any p.isInterestedInAlias) = i.aliased
  joined : i.own = false → i.aliased = false → ((caches.forget room raw).memberInterest[room]?).getD
    (p.concernedBy (joinedMemberIds s p.fuel room)) = i.joined

instance (s : Store) (users : User.Store) (room : RoomId) (caches : PushCaches) (raw : JsonObject) (i : Interest) :
    Decidable (p.Recalls s users room caches raw i) :=
  decidable_of_iff (_ ∧ _ ∧ _) ⟨fun h => ⟨h.1, h.2.1, h.2.2⟩, fun h => ⟨h.own, h.aliased, h.joined⟩⟩

theorem aliasesByRoom_any (users : User.Store) (room : RoomId) :
    (((aliasesByRoom users)[room]?).getD []).any p.isInterestedInAlias = p.aliased users room := by
  have listed : ∀ (l : List (String × User.AliasEntry)) (m : OrdMap RoomId (List String)),
      ((l.foldl (fun m entry => m.insert entry.2.roomId ((m[entry.2.roomId]?).getD [] ++ [entry.1])) m)[room]?).getD
        [] = (m[room]?).getD [] ++ (l.filter fun entry => decide (entry.2.roomId = room)).map Prod.fst := by
    intro l
    induction l with
    | nil => intro m; rw [List.foldl_nil, List.filter_nil, List.map_nil, List.append_nil]
    | cons entry l ih =>
      intro m
      rw [List.foldl_cons, ih, OrdMap.getElem?_insert']
      by_cases own : entry.2.roomId = room
      · rw [if_pos own.symm, List.filter_cons_of_pos (by simpa using own), Option.getD_some, own,
          List.append_assoc, List.map_cons, List.singleton_append]
      · rw [if_neg (Ne.symm own), List.filter_cons_of_neg (by simpa using own)]
  rw [aliasesByRoom, listed, ExtTreeMap.getElem?_empty, Option.getD_none, List.nil_append, List.any_map,
    List.any_filter]
  rfl

theorem isInterestedInAlias_of_isEmpty (empty : p.reg.aliases.isEmpty) (aliasName : String) :
    p.isInterestedInAlias aliasName = false := by
  rw [isInterestedInAlias, List.isEmpty_iff.1 empty]
  rfl

theorem Recalls.interested {s : Store} {users : User.Store} {room : RoomId} {raw : JsonObject}
    {caches : PushCaches} {i : Interest} (h : p.Recalls s users room caches raw i) :
    (p.interested s users room raw (caches.forget room raw)).1 = i.any := by
  have kept : (caches.forget room raw).roomAliases = caches.roomAliases := by
    rw [PushCaches.forget]
    split <;> rfl
  rw [Pusher.interested, h.own, Interest.any]
  cases own : i.own with
  | true => rfl
  | false =>
  have aliased := h.aliased own
  have joined := h.joined own
  simp only [Bool.false_eq_true, if_false, Bool.false_or]
  by_cases empty : p.reg.aliases.isEmpty
  · -- No alias is of interest, and the table is not asked.
    have never : i.aliased = false := by
      rw [← aliased]
      cases caches.roomAliases <;> simp [Pusher.aliased, isInterestedInAlias_of_isEmpty p empty]
    rw [never, Bool.false_or, ← joined never]
    simp only [empty, if_true, Bool.not_true, Bool.false_and, Bool.false_eq_true, if_false]
    cases (caches.forget room raw).memberInterest[room]? <;> rfl
  · have table : ((((caches.forget room raw).roomAliases.getD (aliasesByRoom users))[room]?).getD []).any
        p.isInterestedInAlias = i.aliased := by
      rw [kept, ← aliased]
      cases caches.roomAliases with
      | none => exact aliasesByRoom_any p users room
      | some table => rfl
    simp only [empty, if_false, Bool.not_false, Bool.true_and, Option.bind_some, table, Bool.false_eq_true]
    cases hit : i.aliased with
    | true => rfl
    | false =>
      rw [← joined hit]
      simp only [Bool.false_eq_true, if_false]
      cases (caches.forget room raw).memberInterest[room]? <;> rfl

/-! ## A pass -/

/-- What the pass thinks of a row, before it is formatted. -/
def judge (s : Store) (users : User.Store) (room : RoomId) (id : EventId) (caches : PushCaches) :
    Bool × PushCaches :=
  match rawEvent s id with
  | none => (false, caches)
  | some raw => p.interested s users room raw (caches.forget room raw)

def format (s : Store) (room : RoomId) (id : EventId) : Except ApiError (Option ClientEvent) := do
  let version ← roomVersion (← roomMeta s room)
  clientEvent s p.fuel room p.ruma version (p.reg.senderUser p.serverName) id

def examineRow (s : Store) (users : User.Store) (caches : PushCaches) :
    SeqEntry → Except ApiError (Option ClientEvent × PushCaches)
  | .receipt .. => .ok (none, caches)
  | .event room id =>
    if (p.judge s users room id caches).1 then do
      return (← p.format s room id, (p.judge s users room id caches).2)
    else .ok (none, (p.judge s users room id caches).2)

end Pusher

/-- The number of the shard, the ends of the batch, and its size. -/
def pushTxnId (shard : UInt16) (seqs : List Nat) : String :=
  String.ofList ('s' :: Decimal.joined '_'
    [shard.toNat, seqs.head?.getD 0, seqs.getLast?.getD 0, seqs.length])

/-- A transaction that was sent: its events, with their numbers on the timeline. -/
structure PushTxn where
  id : String
  shard : UInt16
  events : List (Nat × ClientEvent)

def PushTxn.seqs (t : PushTxn) : List Nat := t.events.map Prod.fst

def PushTxn.eventIds (t : PushTxn) : List EventId := t.events.map fun e => e.2.eventId

inductive PassStage where
  | looping (cursor : Nat)
  | scanning (cursor scannedTo : Nat) (rows : List (Nat × SeqEntry)) (events : List (Nat × ClientEvent))
  | pushing (scannedTo : Nat) (events : List (Nat × ClientEvent))
  /-- The cursor is proposed, also where the shard is met for the first time. -/
  | advancing (upTo : Nat)

/-- A delivery to the service from one room shard. -/
structure Pass where
  shard : UInt16
  caches : PushCaches
  stage : PassStage

/-- The shards, and the passes of all workers. Beside them stands what has happened: the end of the
timeline when a shard was first met, the interest that there was in each event when it appeared, the
transactions that were sent, the newest first, and the events that the service has accepted. -/
structure PushWorld where
  rooms : UInt16 → Store
  users : User.Store
  fedOut : FedOutStore
  passes : List Pass
  /-- Cursors that were proposed, and may still be applied. -/
  proposed : List (UInt16 × Nat)
  contact : UInt16 → Option Nat
  noted : UInt16 → Nat → Option Interest
  sent : List PushTxn
  accepted : List (UInt16 × Nat)

/-- What happens next. -/
inductive PushAct where
  | room (shard : UInt16) (engine : Store) (cmd : RoomCommand)
  | users (engine : User.Store) (cmd : UserCommand)
  /-- A worker turns to a shard, and reads the cursor. -/
  | start (shard : UInt16)
  | scan (i : Nat)
  /-- The next row is examined. -/
  | examine (i : Nat)
  /-- The batch is complete. -/
  | close (i : Nat)
  /-- The transaction goes out: the service accepts it or does not, and its answer arrives or does not. -/
  | push (i : Nat) (accepted answered : Bool)
  /-- The cursor is proposed: it is applied or not, and the answer arrives or does not. -/
  | advance (i : Nat) (applied answered : Bool)
  /-- A cursor that was proposed is applied later. -/
  | late (j : Nat)
  /-- The worker fails, is restarted or loses leadership. -/
  | stop (i : Nat)

namespace PushWorld

/-- Before anything has happened. -/
def init : PushWorld where
  rooms _ := .empty
  users := .empty
  fedOut := .empty
  passes := []
  proposed := []
  contact _ := none
  noted _ _ := none
  sent := []
  accepted := []

variable (p : Pusher) (w : PushWorld)

def cursor (shard : UInt16) : Option Nat := w.fedOut.asCursor[(p.reg.id, shard.toNat)]?

def setPass (i : Nat) (pass : Pass) : PushWorld := { w with passes := w.passes.set i pass }

def dropPass (i : Nat) : PushWorld := { w with passes := w.passes.eraseIdx i }

def note (shard : UInt16) (t : Store) : UInt16 → Nat → Option Interest :=
  Function.update w.noted shard fun n =>
    if n ≤ (w.rooms shard).seq then w.noted shard n else p.interestAt t w.users t.timeline[n]?

def setCursor (shard : UInt16) (upTo : Nat) : PushWorld :=
  { w with fedOut := FedOut.apply w.fedOut w.fedOut (.advanceAsCursor p.reg.id shard.toNat upTo) }

def step : PushAct → PushWorld
  | .room shard engine cmd =>
    match Machine.apply engine (w.rooms shard) cmd with
    | .error _ => w
    | .ok (t, _) => { w with
        rooms := Function.update w.rooms shard t
        noted := w.note p shard t }
  | .users engine cmd =>
    match User.Machine.apply p.serde engine w.users cmd with
    | .error _ => w
    | .ok (users, _) => { w with users }
  | .start shard =>
    match w.cursor p shard with
    | some cursor => { w with passes := ⟨shard, .empty, .looping cursor⟩ :: w.passes }
    | none =>
      let tip := (w.rooms shard).seq
      { w with
        contact := Function.update w.contact shard (some ((w.contact shard).getD tip))
        passes := ⟨shard, .empty, .advancing tip⟩ :: w.passes }
  | .scan i =>
    match w.passes[i]? with
    | some ⟨shard, caches, .looping cursor⟩ =>
      match timelineFrom (w.rooms shard) cursor pushScanBatch with
      | [] => w.dropPass i
      | row :: rows => w.setPass i ⟨shard, caches, .scanning cursor cursor (row :: rows) []⟩
    | _ => w
  | .examine i =>
    match w.passes[i]? with
    | some ⟨shard, caches, .scanning cursor _ ((seq, entry) :: rows) events⟩ =>
      match p.examineRow (w.rooms shard) w.users caches entry with
      | .error _ => w.dropPass i
      | .ok (none, caches) => w.setPass i ⟨shard, caches, .scanning cursor seq rows events⟩
      | .ok (some ev, caches) =>
        let events := events ++ [(seq, ev)]
        let rows := if maxEventsPerTxn ≤ events.length then [] else rows
        w.setPass i ⟨shard, caches, .scanning cursor seq rows events⟩
    | _ => w
  | .close i =>
    match w.passes[i]? with
    | some ⟨shard, caches, .scanning _ scannedTo [] events⟩ =>
      if events.isEmpty then w.setPass i ⟨shard, caches, .advancing scannedTo⟩
      else w.setPass i ⟨shard, caches, .pushing scannedTo events⟩
    | _ => w
  | .push i accepted answered =>
    match w.passes[i]? with
    | some ⟨shard, caches, .pushing scannedTo events⟩ =>
      let seqs := events.map Prod.fst
      let after := { w with
        sent := ⟨pushTxnId shard seqs, shard, events⟩ :: w.sent
        accepted := if accepted then seqs.map (fun n => (shard, n)) ++ w.accepted else w.accepted }
      if accepted && answered then after.setPass i ⟨shard, caches, .advancing scannedTo⟩
      else after.dropPass i
    | _ => w
  | .advance i applied answered =>
    match w.passes[i]? with
    | some ⟨shard, caches, .advancing upTo⟩ =>
      let after := { w with proposed := (shard, upTo) :: w.proposed }
      let after := if applied then after.setCursor p shard upTo else after
      if applied && answered then after.setPass i ⟨shard, caches, .looping upTo⟩ else after.dropPass i
    | _ => w
  | .late j =>
    match w.proposed[j]? with
    | some q => w.setCursor p q.1 q.2
    | none => w
  | .stop i => w.dropPass i

/-! ## Steady runs -/

/-- An event of interest has appeared at this place of the shard's timeline. -/
def Due (shard : UInt16) (n : Nat) : Prop := (w.noted shard n).any Interest.any = true

/-- At a row that is examined, the pass goes by what was so when the event appeared. A shard that has no cursor
is met for the first time, or nothing of interest has appeared since. -/
def Steady : PushAct → Prop
  | .start shard => w.cursor p shard = none → ∀ k, w.contact shard = some k →
      ∀ n, w.Due shard n → n ≤ k
  | .examine i => ∀ shard caches cursor scannedTo seq room id rows events,
      w.passes[i]? = some ⟨shard, caches, .scanning cursor scannedTo ((seq, .event room id) :: rows) events⟩ →
      Option.Rel (p.Recalls (w.rooms shard) w.users room caches) (rawEvent (w.rooms shard) id) (w.noted shard seq)
  | _ => True

/-! ## What holds meanwhile -/

def sentFrom (shard : UInt16) : List (List Nat) :=
  (w.sent.filter fun t => t.shard = shard).map PushTxn.seqs

/-- Everything of interest up to a number has been accepted, from the first contact on. -/
def Upto (shard : UInt16) (c : Nat) : Prop :=
  ∃ k, w.contact shard = some k ∧ k ≤ c ∧ c ≤ (w.rooms shard).seq ∧
    ∀ n, w.Due shard n → k < n → n ≤ c → (shard, n) ∈ w.accepted

/-- The events of interest between two positions, with what the service gets of them. -/
structure Gathered (shard : UInt16) (c d : Nat) (events : List (Nat × ClientEvent)) : Prop where
  bound : d ≤ (w.rooms shard).seq
  window : Window (w.Due shard) c d (events.map Prod.fst)
  named : ∀ e ∈ events, ∃ room, (w.rooms shard).timeline[e.1]? = some (.event room e.2.eventId)

/-- The rows that come next behind a position. -/
structure Ahead (shard : UInt16) (d : Nat) (rows : List (Nat × SeqEntry)) : Prop where
  sorted : rows.Pairwise fun a b => a.1 < b.1
  listed : ∀ r ∈ rows, (w.rooms shard).timeline[r.1]? = some r.2 ∧ d < r.1
  next : ∀ (n : Nat) (entry : SeqEntry), (w.rooms shard).timeline[n]? = some entry → d < n →
    (n, entry) ∈ rows ∨ ∀ r ∈ rows, r.1 < n

def StageSound (shard : UInt16) : PassStage → Prop
  | .looping c => w.Upto shard c
  | .scanning c d rows events =>
    w.Upto shard c ∧ c ≤ d ∧ w.Gathered shard c d events ∧ w.Ahead shard d rows
  | .pushing d events => events ≠ [] ∧ ∃ c, w.Upto shard c ∧ c ≤ d ∧ w.Gathered shard c d events
  | .advancing d => w.Upto shard d

/-- A transaction was gathered behind a position up to which everything had been accepted. -/
def TxnSound (t : PushTxn) : Prop :=
  t.id = pushTxnId t.shard t.seqs ∧ ∃ k c d, w.contact t.shard = some k ∧ k ≤ c ∧
    w.Gathered t.shard c d t.events

structure Sound : Prop where
  journal : ∀ shard, Journal (w.rooms shard)
  met : ∀ shard k, w.contact shard = some k → k ≤ (w.rooms shard).seq
  due : ∀ shard n, w.Due shard n → ∃ room id, (w.rooms shard).timeline[n]? = some (.event room id)
  cursors : ∀ shard c, w.cursor p shard = some c → w.Upto shard c
  proposed : ∀ q ∈ w.proposed, w.Upto q.1 q.2
  passes : ∀ pass ∈ w.passes, w.StageSound pass.shard pass.stage
  sent : ∀ t ∈ w.sent, w.TxnSound t
  closed : ∀ shard k, w.contact shard = some k → Closed (w.Due shard) k (w.sentFrom shard)
  inOrder : ∀ shard, InOrder (w.sentFrom shard)
  accepted : ∀ q ∈ w.accepted, q.2 ∈ (w.sentFrom q.1).flatten

/-- What time keeps. -/
structure Later (w w' : PushWorld) : Prop where
  rooms : ∀ shard, Extends (w.rooms shard) (w'.rooms shard)
  contact : ∀ shard k, w.contact shard = some k → w'.contact shard = some k
  due : ∀ shard n, n ≤ (w.rooms shard).seq → (w'.Due shard n ↔ w.Due shard n)
  accepted : ∀ q ∈ w.accepted, q ∈ w'.accepted

section Later

variable {p : Pusher} {w w' : PushWorld} {shard : UInt16} {c d n : Nat} {events : List (Nat × ClientEvent)}
  {rows : List (Nat × SeqEntry)}

theorem Upto.later (h : w.Upto shard c) (later : Later w w') : w'.Upto shard c := by
  obtain ⟨k, met, le, bound, upto⟩ := h
  refine ⟨k, later.contact shard k met, le, bound.trans (later.rooms shard).seq, fun n due above below => ?_⟩
  exact later.accepted _ (upto n ((later.due shard n (below.trans bound)).1 due) above below)

theorem Gathered.later (h : w.Gathered shard c d events) (later : Later w w') :
    w'.Gathered shard c d events := by
  refine ⟨h.bound.trans (later.rooms shard).seq,
    h.window.congr fun n below => later.due shard n (below.trans h.bound), fun e mem => ?_⟩
  obtain ⟨room, row⟩ := h.named e mem
  have below := ((h.window.mem e.1).1 (List.mem_map_of_mem mem)).2.2
  exact ⟨room, ((later.rooms shard).rows e.1 (below.trans h.bound)).trans row⟩

theorem Ahead.later (h : w.Ahead shard d rows) (later : Later w w') (journal : Journal (w.rooms shard)) :
    w'.Ahead shard d rows := by
  have old : ∀ n entry, (w.rooms shard).timeline[n]? = some entry → n ≤ (w.rooms shard).seq :=
    fun n entry row => journal.mem_le (OrdMap.mem_iff_getElem?.2 ⟨entry, row⟩)
  refine ⟨h.sorted, fun r mem => ?_, fun n entry row above => ?_⟩
  · obtain ⟨row, above⟩ := h.listed r mem
    exact ⟨((later.rooms shard).rows r.1 (old _ _ row)).trans row, above⟩
  · by_cases known : n ≤ (w.rooms shard).seq
    · exact h.next n entry (((later.rooms shard).rows n known).symm.trans row) above
    · refine .inr fun r mem => ?_
      have := old _ _ (h.listed r mem).1
      omega

theorem StageSound.later {stage : PassStage} (h : w.StageSound shard stage) (later : Later w w')
    (journal : Journal (w.rooms shard)) : w'.StageSound shard stage := by
  cases stage with
  | looping c => exact Upto.later h later
  | scanning c d rows events =>
    obtain ⟨upto, le, gathered, ahead⟩ := h
    exact ⟨upto.later later, le, gathered.later later, ahead.later later journal⟩
  | pushing d events =>
    obtain ⟨filled, c, upto, le, gathered⟩ := h
    exact ⟨filled, c, upto.later later, le, gathered.later later⟩
  | advancing d => exact Upto.later h later

theorem TxnSound.later {t : PushTxn} (h : w.TxnSound t) (later : Later w w') : w'.TxnSound t := by
  obtain ⟨named, k, c, d, met, le, gathered⟩ := h
  exact ⟨named, k, c, d, later.contact _ k met, le, gathered.later later⟩

theorem Sound.sent_le (h : w.Sound p) (mem : n ∈ (w.sentFrom shard).flatten) : n ≤ (w.rooms shard).seq := by
  obtain ⟨seqs, listed, mem⟩ := List.mem_flatten.1 mem
  obtain ⟨t, own, rfl⟩ := List.mem_map.1 listed
  obtain ⟨sent, same⟩ := List.mem_filter.1 own
  obtain ⟨-, k, c, d, -, -, gathered⟩ := h.sent t sent
  have same : t.shard = shard := of_decide_eq_true same
  have := ((gathered.window.mem n).1 mem).2.2
  exact same ▸ this.trans gathered.bound

theorem Sound.sent_nil (h : w.Sound p) (fresh : w.contact shard = none) : w.sentFrom shard = [] := by
  rw [sentFrom, List.map_eq_nil_iff, List.filter_eq_nil_iff]
  intro t mem same
  obtain ⟨-, k, -, -, met, -⟩ := h.sent t mem
  rw [of_decide_eq_true same, fresh] at met
  cases met

theorem Sound.next (h : w.Sound p) (later : Later w w') (sent : w'.sent = w.sent)
    (accepted : w'.accepted = w.accepted)
    (contact : ∀ shard k, w'.contact shard = some k → w.contact shard = some k ∨
      w.contact shard = none ∧ k ≤ (w.rooms shard).seq)
    (due : ∀ shard n, w'.Due shard n → w.Due shard n ∨
      ∃ room id, (w'.rooms shard).timeline[n]? = some (.event room id))
    (cursors : ∀ shard c, w'.cursor p shard = some c → w.cursor p shard = some c ∨ w'.Upto shard c)
    (proposed : ∀ q ∈ w'.proposed, q ∈ w.proposed ∨ w'.Upto q.1 q.2)
    (passes : ∀ pass ∈ w'.passes, pass ∈ w.passes ∨ w'.StageSound pass.shard pass.stage) :
    w'.Sound p := by
  have from' : ∀ shard, w'.sentFrom shard = w.sentFrom shard := fun shard => by rw [sentFrom, sentFrom, sent]
  refine ⟨fun shard => (later.rooms shard).journal, fun shard k met => ?_, fun shard n own => ?_,
    fun shard c held => ?_, fun q mem => ?_, fun pass mem => ?_, fun t mem => ?_, fun shard k met => ?_,
    fun shard => ?_, fun q mem => ?_⟩
  · obtain old | ⟨-, le⟩ := contact shard k met
    · exact (h.met shard k old).trans (later.rooms shard).seq
    · exact le.trans (later.rooms shard).seq
  · obtain old | new := due shard n own
    · obtain ⟨room, id, row⟩ := h.due shard n old
      have known := (h.journal shard).mem_le (OrdMap.mem_iff_getElem?.2 ⟨_, row⟩)
      exact ⟨room, id, ((later.rooms shard).rows n known).trans row⟩
    · exact new
  · obtain old | new := cursors shard c held
    · exact (h.cursors shard c old).later later
    · exact new
  · obtain old | new := proposed q mem
    · exact (h.proposed q old).later later
    · exact new
  · obtain old | new := passes pass mem
    · exact (h.passes pass old).later later (h.journal pass.shard)
    · exact new
  · rw [sent] at mem
    exact (h.sent t mem).later later
  · rw [from']
    obtain old | ⟨fresh, -⟩ := contact shard k met
    · refine (h.closed shard k old).congr fun n m mem below own => ?_
      exact (later.due shard m (below.le.trans (h.sent_le mem))).1 own
    · rw [h.sent_nil fresh]
      intro n mem
      cases mem
  · rw [from']
    exact h.inOrder shard
  · rw [from']
    exact h.accepted q (accepted ▸ mem)

theorem Later.of_eq (journal : ∀ shard, Journal (w.rooms shard)) (rooms : w'.rooms = w.rooms)
    (contact : ∀ shard k, w.contact shard = some k → w'.contact shard = some k) (noted : w'.noted = w.noted)
    (accepted : ∀ q ∈ w.accepted, q ∈ w'.accepted) : Later w w' := by
  refine ⟨fun shard => ?_, contact, fun shard n _ => ?_, accepted⟩
  · rw [rooms]
    exact .refl (journal shard)
  · rw [Due, Due, noted]

end Later

/-! ## One lemma for each step -/

section Step

variable {p : Pusher} {w : PushWorld} {shard : UInt16} {caches : PushCaches}
  {events : List (Nat × ClientEvent)} {i : Nat} {rows : List (Nat × SeqEntry)} {id : EventId}
  {entry : SeqEntry} {s : Store} {users : User.Store} {ev : ClientEvent}

theorem Sound.setPass (h : w.Sound p) {pass : Pass} (sound : w.StageSound pass.shard pass.stage) :
    (w.setPass i pass).Sound p := by
  have later : Later w (w.setPass i pass) :=
    .of_eq h.journal rfl (fun _ _ met => met) rfl fun _ mem => mem
  refine h.next later rfl rfl (fun _ _ met => .inl met) (fun _ _ own => .inl own)
    (fun _ _ held => .inl held) (fun _ mem => .inl mem) fun other mem => ?_
  obtain old | rfl := List.mem_or_eq_of_mem_set mem
  · exact .inl old
  · exact .inr (sound.later later (h.journal _))

theorem Sound.dropPass (h : w.Sound p) : (w.dropPass i).Sound p :=
  h.next (.of_eq h.journal rfl (fun _ _ met => met) rfl fun _ mem => mem) rfl rfl
    (fun _ _ met => .inl met) (fun _ _ own => .inl own) (fun _ _ held => .inl held)
    (fun _ mem => .inl mem) fun _ mem => .inl (List.mem_of_mem_eraseIdx mem)

theorem Sound.addPass (h : w.Sound p) {pass : Pass} (sound : w.StageSound pass.shard pass.stage) :
    Sound p { w with passes := pass :: w.passes } := by
  have later : Later w { w with passes := pass :: w.passes } :=
    .of_eq h.journal rfl (fun _ _ met => met) rfl fun _ mem => mem
  refine h.next later rfl rfl (fun _ _ met => .inl met) (fun _ _ own => .inl own)
    (fun _ _ held => .inl held) (fun _ mem => .inl mem) fun other mem => ?_
  obtain rfl | old := List.mem_cons.1 mem
  · exact .inr (sound.later later (h.journal _))
  · exact .inl old

theorem Sound.pass (h : w.Sound p) {stage : PassStage} (worked : w.passes[i]? = some ⟨shard, caches, stage⟩) :
    w.StageSound shard stage := h.passes _ (List.mem_of_getElem? worked)

theorem cursor_setCursor {upTo c : Nat} {other : UInt16}
    (held : (w.setCursor p shard upTo).cursor p other = some c) :
    w.cursor p other = some c ∨ other = shard ∧ c = upTo := by
  unfold PushWorld.setCursor PushWorld.cursor FedOut.apply at held
  dsimp only at held
  split at held
  · rw [OrdMap.getElem?_insert'] at held
    split at held
    · rename_i same
      exact .inr ⟨UInt16.toNat_inj.1 (Prod.mk.inj same).2, (Option.some.inj held).symm⟩
    · exact .inl held
  · exact .inl held

theorem Sound.setCursor (h : w.Sound p) {upTo : Nat} (upto : w.Upto shard upTo) :
    (w.setCursor p shard upTo).Sound p := by
  have later : Later w (w.setCursor p shard upTo) :=
    .of_eq h.journal rfl (fun _ _ met => met) rfl fun _ mem => mem
  refine h.next later rfl rfl (fun _ _ met => .inl met) (fun _ _ own => .inl own) (fun other c held => ?_)
    (fun _ mem => .inl mem) fun _ mem => .inl mem
  obtain old | ⟨rfl, rfl⟩ := cursor_setCursor held
  · exact .inl old
  · exact .inr (upto.later later)

theorem note_of_le {t : Store} {other : UInt16} {n : Nat} (known : n ≤ (w.rooms other).seq) :
    w.note p shard t other n = w.noted other n := by
  by_cases same : other = shard
  · subst same
    rw [note, Function.update_self, if_pos known]
  · rw [note, Function.update_of_ne same]

theorem note_cases {t : Store} {other : UInt16} {n : Nat} (own : (w.note p shard t other n).any Interest.any) :
    w.Due other n ∨ other = shard ∧ ∃ room id, t.timeline[n]? = some (.event room id) := by
  by_cases same : other = shard
  · subst same
    rw [note, Function.update_self] at own
    split at own
    · exact .inl own
    · refine .inr ⟨rfl, ?_⟩
      unfold Pusher.interestAt at own
      split at own
      · exact ⟨_, _, ‹_›⟩
      · cases own
  · rw [note, Function.update_of_ne same] at own
    exact .inl own

theorem Sound.room (h : w.Sound p) {engine t : Store} {cmd : RoomCommand} {response : RoomResponse}
    (applied : Machine.apply engine (w.rooms shard) cmd = .ok (t, response)) :
    Sound p { w with
      rooms := Function.update w.rooms shard t
      noted := w.note p shard t } := by
  have extended : ∀ other, Extends (w.rooms other) (Function.update w.rooms shard t other) := by
    intro other
    by_cases same : other = shard
    · subst same
      rw [Function.update_self]
      exact Machine.apply_extends (h.journal other) applied
    · rw [Function.update_of_ne same]
      exact .refl (h.journal other)
  refine h.next ⟨extended, fun _ _ met => met, fun other n below => ?_, fun _ mem => mem⟩ rfl rfl
    (fun _ _ met => .inl met) (fun other n own => ?_) (fun _ _ held => .inl held)
    (fun _ mem => .inl mem) fun _ mem => .inl mem
  · change (w.note p shard t other n).any _ = true ↔ _
    rw [note_of_le below]
    rfl
  · obtain old | ⟨rfl, room, id, row⟩ := note_cases own
    · exact .inl old
    · refine .inr ⟨room, id, ?_⟩
      change (Function.update w.rooms other t other).timeline[n]? = _
      rw [Function.update_self]
      exact row

theorem Sound.start (h : w.Sound p) (steady : w.Steady p (.start shard)) :
    (w.step p (.start shard)).Sound p := by
  cases held : w.cursor p shard with
  | some cursor =>
    simp only [PushWorld.step, held]
    exact h.addPass (h.cursors shard cursor held)
  | none =>
  -- The first contact, or one more.
  simp only [PushWorld.step, held]
  let k := (w.contact shard).getD (w.rooms shard).seq
  have known : ∀ met, w.contact shard = some met → met = k := fun met contact => by simp [k, contact]
  have le : k ≤ (w.rooms shard).seq := by
    cases contact : w.contact shard with
    | none => simp [k, contact]
    | some met => exact known met contact ▸ h.met shard met contact
  let u : PushWorld := { w with contact := Function.update w.contact shard (some k) }
  have stays : ∀ other met, w.contact other = some met → u.contact other = some met := by
    intro other met contact
    change Function.update w.contact shard (some k) other = _
    by_cases same : other = shard
    · subst same
      rw [Function.update_self, known met contact]
    · rwa [Function.update_of_ne same]
  have sound : u.Sound p := by
    refine h.next (.of_eq h.journal rfl stays rfl fun _ mem => mem) rfl rfl (fun other met contact => ?_)
      (fun _ _ own => .inl own) (fun _ _ held => .inl held) (fun _ mem => .inl mem) fun _ mem => .inl mem
    replace contact : Function.update w.contact shard (some k) other = some met := contact
    by_cases same : other = shard
    · subst same
      rw [Function.update_self] at contact
      obtain rfl := Option.some.inj contact
      cases before : w.contact other with
      | none => exact .inr ⟨rfl, le⟩
      | some met => exact .inl (congrArg some (known met before))
    · rw [Function.update_of_ne same] at contact
      exact .inl contact
  suffices upto : u.Upto shard (w.rooms shard).seq from sound.addPass upto
  refine ⟨k, Function.update_self .., le, le_rfl, fun n own above below => ?_⟩
  cases before : w.contact shard with
  | none =>
    have : k = (w.rooms shard).seq := by simp [k, before]
    change n ≤ (w.rooms shard).seq at below
    omega
  | some met =>
    have := steady held met before n own
    have := known met before
    omega

theorem Ahead.window (c limit : Nat) : w.Ahead shard c (timelineFrom (w.rooms shard) c limit) := by
  refine ⟨Federation.timelineFrom_sorted, fun r => Federation.mem_timelineFrom, fun n entry row above => ?_⟩
  cases last : (timelineFrom (w.rooms shard) c limit).getLast? with
  | none =>
    rw [List.getLast?_eq_none_iff.1 last]
    exact .inr (by simp)
  | some final =>
    by_cases inside : n ≤ final.1
    · exact .inl (Federation.mem_timelineFrom_of_le last row above inside)
    · refine .inr fun r mem => ?_
      have := Federation.timelineFrom_le_last last mem
      omega

theorem Sound.scan (h : w.Sound p) {cursor : Nat} (worked : w.passes[i]? = some ⟨shard, caches, .looping cursor⟩)
    (batch : timelineFrom (w.rooms shard) cursor pushScanBatch = rows) :
    (w.setPass i ⟨shard, caches, .scanning cursor cursor rows []⟩).Sound p := by
  have upto : w.Upto shard cursor := h.pass worked
  obtain ⟨k, -, -, bound, -⟩ := id upto
  exact h.setPass ⟨upto, le_rfl, ⟨bound, .nil, fun e mem => by cases mem⟩, batch ▸ .window cursor _⟩

theorem Ahead.due_le {d seq n : Nat} (h : w.Sound p)
    (ahead : w.Ahead shard d ((seq, entry) :: rows)) (own : w.Due shard n) (above : d < n) :
    seq ≤ n := by
  obtain ⟨room, id, row⟩ := h.due shard n own
  obtain listed | beyond := ahead.next n _ row above
  · obtain same | later := List.mem_cons.1 listed
    · exact (congrArg Prod.fst same).ge
    · exact ((List.pairwise_cons.1 ahead.sorted).1 _ later).le
  · exact (beyond _ List.mem_cons_self).le

theorem Ahead.tail {d seq : Nat}
    (ahead : w.Ahead shard d ((seq, entry) :: rows)) : w.Ahead shard seq rows := by
  have less := (List.pairwise_cons.1 ahead.sorted).1
  refine ⟨(List.pairwise_cons.1 ahead.sorted).2, fun r mem => ?_, fun n entry' row above => ?_⟩
  · exact ⟨(ahead.listed r (List.mem_cons_of_mem _ mem)).1, less r mem⟩
  · have := (ahead.listed _ List.mem_cons_self).2
    obtain listed | beyond := ahead.next n entry' row (by omega)
    · obtain same | later := List.mem_cons.1 listed
      · have := congrArg Prod.fst same
        dsimp only at this
        omega
      · exact .inl later
    · exact .inr fun r mem => beyond r (List.mem_cons_of_mem _ mem)

theorem Sound.skip (h : w.Sound p) {cursor d seq : Nat}
    (worked : w.passes[i]? = some ⟨shard, caches, .scanning cursor d ((seq, entry) :: rows) events⟩)
    (undue : ¬ w.Due shard seq) (caches' : PushCaches) :
    (w.setPass i ⟨shard, caches', .scanning cursor seq rows events⟩).Sound p := by
  obtain ⟨upto, le, gathered, ahead⟩ := h.pass worked
  obtain ⟨row, above⟩ := ahead.listed _ List.mem_cons_self
  have known := (h.journal shard).mem_le (OrdMap.mem_iff_getElem?.2 ⟨entry, row⟩)
  refine h.setPass ⟨upto, le.trans above.le, ⟨known, ?_, gathered.named⟩, ahead.tail⟩
  refine gathered.window.skip above.le fun n own beyond => ?_
  have := ahead.due_le h own beyond
  have ne : n ≠ seq := by
    rintro rfl
    exact undue own
  omega

theorem Sound.add (h : w.Sound p) {cursor d seq : Nat} {room : RoomId}
    {rows rows' : List (Nat × SeqEntry)} (worked : w.passes[i]? =
      some ⟨shard, caches, .scanning cursor d ((seq, .event room id) :: rows) events⟩)
    (due : w.Due shard seq) (caches' : PushCaches) (named : ev.eventId = id)
    (rest : rows' = rows ∨ rows' = []) :
    (w.setPass i ⟨shard, caches', .scanning cursor seq rows' (events ++ [(seq, ev)])⟩).Sound p := by
  obtain ⟨upto, le, gathered, ahead⟩ := h.pass worked
  obtain ⟨row, above⟩ := ahead.listed _ List.mem_cons_self
  have known := (h.journal shard).mem_le (OrdMap.mem_iff_getElem?.2 ⟨_, row⟩)
  refine h.setPass ⟨upto, le.trans above.le, ⟨known, ?_, fun e mem => ?_⟩, ?_⟩
  · rw [List.map_append]
    exact gathered.window.add le above due fun n own beyond => ahead.due_le h own beyond
  · obtain old | new := List.mem_append.1 mem
    · exact gathered.named e old
    · obtain rfl := List.mem_singleton.1 new
      exact ⟨room, named ▸ row⟩
  · obtain rfl | rfl := rest
    · exact ahead.tail
    · exact ⟨.nil, fun r mem => absurd mem List.not_mem_nil,
        fun n entry row above => .inr fun r mem => absurd mem List.not_mem_nil⟩

theorem examineRow_eq_ok {room : RoomId} {found : Option ClientEvent} {caches' : PushCaches}
    (h : p.examineRow s users caches (.event room id) = .ok (found, caches')) :
    ((p.judge s users room id caches).1 = true ∧ p.format s room id = .ok found) ∨
      ((p.judge s users room id caches).1 = false ∧ found = none) := by
  simp only [Pusher.examineRow] at h
  split at h
  · rename_i hit
    obtain ⟨ev, formatted, h⟩ := bind_eq_ok.1 h
    obtain ⟨rfl, -⟩ := ok_pair h
    exact .inl ⟨hit, formatted⟩
  · rename_i miss
    obtain ⟨rfl, -⟩ := ok_pair h
    exact .inr ⟨Bool.eq_false_iff.2 miss, rfl⟩

theorem judge_rawEvent {room : RoomId}
    (h : (p.judge s users room id caches).1 = true) : ∃ raw, rawEvent s id = some raw := by
  unfold Pusher.judge at h
  split at h
  · cases h
  · exact ⟨_, ‹_›⟩

theorem judge_of_recalls {room : RoomId} {noted : Option Interest}
    (h : Option.Rel (p.Recalls s users room caches) (rawEvent s id) noted) :
    (p.judge s users room id caches).1 = noted.any Interest.any := by
  generalize held : rawEvent s id = body at h
  rw [Pusher.judge, held]
  cases h with
  | none => rfl
  | some recalls => exact recalls.interested

theorem format_ne_none {room : RoomId} {raw : JsonObject}
    (held : rawEvent s id = some raw) : p.format s room id ≠ .ok none := by
  intro h
  obtain ⟨stored, filtered, -⟩ := Option.map_eq_some_iff.1 held
  obtain ⟨own, accepted⟩ := Option.filter_eq_some_iff.1 filtered
  obtain ⟨known, -, h⟩ := bind_eq_ok.1 h
  obtain ⟨version, -, h⟩ := bind_eq_ok.1 h
  obtain ⟨ev, found⟩ := clientEvent_accepted own (Option.isNone_iff_eq_none.1 accepted) h
  cases found

theorem format_id {room : RoomId} (h : p.format s room id = .ok (some ev)) : ev.eventId = id := by
  obtain ⟨known, -, h⟩ := bind_eq_ok.1 h
  obtain ⟨version, -, h⟩ := bind_eq_ok.1 h
  exact clientEvent_id h

theorem Sound.examine (h : w.Sound p) (steady : w.Steady p (.examine i)) :
    (w.step p (.examine i)).Sound p := by
  simp only [PushWorld.step]
  split
  · rename_i shard caches cursor d seq entry rows events worked
    cases entry with
    | receipt =>
      refine h.skip worked (fun own => ?_) _
      obtain ⟨room, id, row⟩ := h.due _ _ own
      obtain ⟨-, -, -, ahead⟩ := h.pass worked
      have same := row.symm.trans (ahead.listed _ List.mem_cons_self).1
      cases same
    | event room id =>
      have judged := judge_of_recalls (steady _ _ _ _ _ _ _ _ _ worked)
      split
      · exact h.dropPass
      · rename_i examined
        refine h.skip worked (fun own => ?_) _
        obtain ⟨hit, formatted⟩ | ⟨miss, -⟩ := examineRow_eq_ok examined
        · obtain ⟨raw, held⟩ := judge_rawEvent hit
          exact format_ne_none held formatted
        · rw [judged.trans own] at miss
          cases miss
      · rename_i ev examined
        obtain ⟨hit, formatted⟩ | ⟨-, none⟩ := examineRow_eq_ok examined
        · refine h.add worked (judged.symm.trans hit) _ (format_id formatted) ?_
          split
          · exact .inr rfl
          · exact .inl rfl
        · cases none
  · exact h

theorem Sound.push (h : w.Sound p) {d : Nat} (worked : w.passes[i]? = some ⟨shard, caches, .pushing d events⟩)
    (accepted : Bool) :
    Sound p { w with
      sent := ⟨pushTxnId shard (events.map Prod.fst), shard, events⟩ :: w.sent
      accepted := if accepted then (events.map Prod.fst).map (fun n => (shard, n)) ++ w.accepted
        else w.accepted } := by
  obtain ⟨-, c, upto, le, gathered⟩ := h.pass worked
  obtain ⟨k, met, start, -, all⟩ := id upto
  let u : PushWorld := { w with
    sent := ⟨pushTxnId shard (events.map Prod.fst), shard, events⟩ :: w.sent
    accepted := if accepted then (events.map Prod.fst).map (fun n => (shard, n)) ++ w.accepted
      else w.accepted }
  change u.Sound p
  have later : Later w u := by
    refine .of_eq h.journal rfl (fun _ _ met => met) rfl fun q mem => ?_
    change q ∈ if accepted then _ else _
    split
    · exact List.mem_append_right _ mem
    · exact mem
  have own : u.sentFrom shard = events.map Prod.fst :: w.sentFrom shard := by
    simp only [u, sentFrom, List.filter_cons_of_pos, decide_true, List.map_cons]
    rfl
  have others : ∀ other, other ≠ shard → u.sentFrom other = w.sentFrom other := by
    intro other ne
    simp only [u, sentFrom]
    rw [List.filter_cons_of_neg (by simpa using ne.symm)]
  have known : ∀ n, w.Due shard n → k < n → n ≤ c → n ∈ (w.sentFrom shard).flatten :=
    fun n due above below => h.accepted _ (all n due above below)
  refine ⟨h.journal, h.met, h.due, fun other c held => (h.cursors other c held).later later,
    fun q mem => (h.proposed q mem).later later,
    fun pass mem => (h.passes pass mem).later later (h.journal _), fun t mem => ?_,
    fun other k' met' => ?_, fun other => ?_, fun q mem => ?_⟩
  · obtain rfl | old := List.mem_cons.1 mem
    · exact ⟨rfl, k, c, d, met, start, gathered.later later⟩
    · exact (h.sent t old).later later
  · by_cases same : other = shard
    · subst same
      obtain rfl := some_unique met met'
      rw [own]
      exact (h.closed other k met).cons gathered.window known
    · rw [others other same]
      exact h.closed other k' met'
  · by_cases same : other = shard
    · subst same
      rw [own]
      exact InOrder.cons (h.closed other k met) gathered.window (h.inOrder other) start
    · rw [others other same]
      exact h.inOrder other
  · have old : q ∈ w.accepted → q.2 ∈ (u.sentFrom q.1).flatten := by
      intro mem
      by_cases same : q.1 = shard
      · rw [same, own, List.flatten_cons]
        exact List.mem_append_right _ (same ▸ h.accepted q mem)
      · rw [others q.1 same]
        exact h.accepted q mem
    change q ∈ if accepted then _ else _ at mem
    split at mem
    · obtain new | mem := List.mem_append.1 mem
      · obtain ⟨n, listed, rfl⟩ := List.mem_map.1 new
        rw [own, List.flatten_cons]
        exact List.mem_append_left _ listed
      · exact old mem
    · exact old mem

theorem Sound.close (h : w.Sound p) : (w.step p (.close i)).Sound p := by
  simp only [PushWorld.step]
  split
  · rename_i shard caches cursor d events worked
    obtain ⟨upto, le, gathered, -⟩ := h.pass worked
    split
    · -- Nothing of interest lies between the cursor and the last row.
      rename_i empty
      obtain rfl := List.isEmpty_iff.1 empty
      obtain ⟨k, met, start, -, all⟩ := upto
      refine h.setPass ⟨k, met, start.trans le, gathered.bound, fun n own above below => ?_⟩
      by_cases before : n ≤ cursor
      · exact all n own above before
      · have := (gathered.window.mem n).2 ⟨own, by omega, below⟩
        cases this
    · rename_i filled
      exact h.setPass ⟨fun empty => filled (List.isEmpty_iff.2 empty), cursor, upto, le, gathered⟩
  · exact h

theorem Sound.pushed (h : w.Sound p) {accepted answered : Bool} :
    (w.step p (.push i accepted answered)).Sound p := by
  simp only [PushWorld.step]
  split
  · rename_i shard caches d events worked
    have sound := h.push worked accepted
    split
    · rename_i both
      obtain ⟨rfl, -⟩ := (Bool.and_eq_true _ _).mp both
      obtain ⟨-, cursor, ⟨k, met, start, -, all⟩, le, gathered⟩ := h.pass worked
      refine sound.setPass ⟨k, met, start.trans le, gathered.bound, fun n own above below => ?_⟩
      rw [if_pos rfl]
      by_cases before : n ≤ cursor
      · exact List.mem_append_right _ (all n own above before)
      · have new := (gathered.window.mem n).2 ⟨own, by omega, below⟩
        exact List.mem_append_left _ (List.mem_map_of_mem new)
    · exact sound.dropPass
  · exact h

theorem Sound.propose (h : w.Sound p) {upTo : Nat} (upto : w.Upto shard upTo) :
    Sound p { w with proposed := (shard, upTo) :: w.proposed } := by
  have later : Later w { w with proposed := (shard, upTo) :: w.proposed } :=
    .of_eq h.journal rfl (fun _ _ met => met) rfl fun _ mem => mem
  refine h.next later rfl rfl (fun _ _ met => .inl met) (fun _ _ own => .inl own)
    (fun _ _ held => .inl held) (fun q mem => ?_) fun _ mem => .inl mem
  obtain rfl | old := List.mem_cons.1 mem
  · exact .inr (upto.later later)
  · exact .inl old

theorem Sound.advance (h : w.Sound p) {applied answered : Bool} :
    (w.step p (.advance i applied answered)).Sound p := by
  simp only [PushWorld.step]
  split
  · rename_i shard caches upTo worked
    have upto : w.Upto shard upTo := h.pass worked
    have proposed := h.propose upto
    cases applied with
    | false => exact proposed.dropPass
    | true =>
      have moved : Sound p (PushWorld.setCursor p { w with proposed := (shard, upTo) :: w.proposed } shard upTo) :=
        proposed.setCursor upto
      cases answered with
      | false => exact moved.dropPass
      | true => exact moved.setPass upto
  · exact h

theorem Sound.withUsers (h : w.Sound p) (users : User.Store) : Sound p { w with users } :=
  h.next (.of_eq h.journal rfl (fun _ _ met => met) rfl fun _ mem => mem) rfl rfl
    (fun _ _ met => .inl met) (fun _ _ own => .inl own) (fun _ _ held => .inl held)
    (fun _ mem => .inl mem) fun _ mem => .inl mem

theorem Sound.step (h : w.Sound p) {act : PushAct} (steady : w.Steady p act) : (w.step p act).Sound p := by
  cases act with
  | room shard engine cmd =>
    simp only [PushWorld.step]
    split
    · exact h
    · rename_i t response applied
      exact h.room applied
  | users engine cmd =>
    simp only [PushWorld.step]
    split
    · exact h
    · exact h.withUsers _
  | start shard => exact h.start steady
  | scan i =>
    simp only [PushWorld.step]
    split
    · rename_i worked
      split
      · exact h.dropPass
      · rename_i batch
        exact h.scan worked batch
    · exact h
  | examine i => exact h.examine steady
  | close i => exact h.close
  | push i accepted answered => exact h.pushed
  | advance i applied answered => exact h.advance
  | late j =>
    simp only [PushWorld.step]
    split
    · rename_i q listed
      exact h.setCursor (h.proposed q (List.mem_of_getElem? listed))
    · exact h
  | stop i => exact h.dropPass

theorem Sound.init : (PushWorld.init).Sound p where
  journal _ := .empty
  met _ _ met := nomatch met
  due _ _ own := nomatch own
  cursors shard c held := by
    have none : (PushWorld.init).cursor p shard = none := ExtTreeMap.getElem?_empty
    rw [none] at held
    cases held
  proposed _ mem := nomatch mem
  passes _ mem := nomatch mem
  sent _ mem := nomatch mem
  closed _ _ met := nomatch met
  inOrder _ := trivial
  accepted _ mem := nomatch mem

theorem Sound.run (run : Steps.Reaches (PushWorld.step p) (PushWorld.Steady p) .init w) : w.Sound p :=
  run.invariant (I := PushWorld.Sound p) (fun _ _ sound steady => sound.step steady) .init

end Step

/-! ## The ids -/

section Ids

variable {p : Pusher} {w : PushWorld} {shard shard' : UInt16}

theorem pushTxnId_inj {l l' : List Nat} (same : pushTxnId shard l = pushTxnId shard' l') :
    shard = shard' ∧ l.head? = l'.head? ∧ l.getLast? = l'.getLast? := by
  have parts := Decimal.joined_inj (by decide) (by simp) (by simp)
    (List.cons.inj (String.ofList_injective same)).2
  simp only [List.cons.injEq, and_true] at parts
  obtain ⟨own, first, last, size⟩ := parts
  refine ⟨UInt16.toNat_inj.1 own, ?_⟩
  -- Of two batches of one size, both are empty or none is.
  cases l with
  | nil =>
    obtain rfl := List.length_eq_zero_iff.1 size.symm
    exact ⟨rfl, rfl⟩
  | cons n l =>
    cases l' with
    | nil => cases size
    | cons m l' =>
      refine ⟨congrArg some first, ?_⟩
      rw [List.getLast?_eq_some_getLast (List.cons_ne_nil n l),
        List.getLast?_eq_some_getLast (List.cons_ne_nil m l')] at last ⊢
      exact congrArg some last

def eventAt (s : Store) (n : Nat) : Option EventId :=
  match s.timeline[n]? with
  | some (.event _ id) => some id
  | _ => none

theorem Gathered.eventIds {c d : Nat} {events : List (Nat × ClientEvent)} (h : w.Gathered shard c d events) :
    events.map (fun e => some e.2.eventId) = (events.map Prod.fst).map (eventAt (w.rooms shard)) := by
  rw [List.map_map]
  refine List.map_congr_left fun e mem => ?_
  obtain ⟨room, row⟩ := h.named e mem
  simp only [Function.comp_apply, eventAt, row]

theorem Sound.eventIds (h : w.Sound p) {t t' : PushTxn} (mem : t ∈ w.sent) (mem' : t' ∈ w.sent)
    (same : t.id = t'.id) : t.eventIds = t'.eventIds := by
  obtain ⟨own, k, c, d, -, -, gathered⟩ := h.sent t mem
  obtain ⟨own', k', c', d', -, -, gathered'⟩ := h.sent t' mem'
  rw [own, own'] at same
  obtain ⟨shards, first, last⟩ := pushTxnId_inj same
  rw [← shards] at gathered'
  have seqs : t.seqs = t'.seqs := gathered.window.ext gathered'.window first last
  have ids : t.eventIds.map some = t'.eventIds.map some := by
    have ids := gathered.eventIds
    have ids' := gathered'.eventIds
    simp only [PushTxn.eventIds, PushTxn.seqs, List.map_map] at seqs ids ids' ⊢
    exact (ids.trans (by rw [← List.map_map, seqs, List.map_map])).trans ids'.symm
  exact List.map_injective_iff.2 (Option.some_injective _) ids

end Ids

section Samples

open Room (Call Server)

def sampleBridge : Pusher where
  reg := { id := "b", asToken := "t", senderLocalpart := "bot", users := [⟨true, fun u => u == "@b:x"⟩],
           aliases := [], rooms := [] }
  serverName := "x"
  ruma := Ruma.sample
  serde := SerdeJson.sample
  fuel := 9

def sampleGuest (hash membership : String) (auth : List EventId) (prev : EventId) (depth : Nat) : JsonObject :=
  Ruma.samplePdu hash "m.room.member" (some "@b:x") "@b:x" [("membership", .string membership)] auth [prev]
    depth

def sampleAct (w : PushWorld) : Call ⊕ PushAct → PushAct
  | .inl call =>
    match call.prepare (Server.sample ["x"]) (w.rooms 0) 9 with
    | .ok (.inr cmd) => .room 0 (w.rooms 0) cmd
    | _ => .late w.proposed.length
  | .inr act => act

def sampleArrival : List (Call ⊕ PushAct) :=
  [.inl (.ingest Ruma.sampleCreate false), .inl (.ingest Ruma.sampleJoin false),
    .inl (.ingest Federation.sampleRules false), .inr (.start 0), .inr (.advance 0 true true),
    .inl (.ingest (sampleGuest "b" "join" ["$c", "$k"] "$k" 4) false),
    .inl (.ingest (Federation.sampleMessage "m" "$b" 5) false)]

def sampleSweep : List (Call ⊕ PushAct) :=
  [.inr (.scan 0), .inr (.examine 0), .inr (.examine 0), .inr (.close 0), .inr (.push 0 true true),
    .inr (.advance 0 true true)]

def sampleRun (acts : List (Call ⊕ PushAct)) : PushWorld :=
  acts.foldl (fun w act => w.step sampleBridge (w.sampleAct act)) .init

def sampleSteady (w : PushWorld) : PushAct → Bool
  | .start shard => (w.contact shard).isNone
  | .examine i =>
    match w.passes[i]? with
    | some ⟨shard, caches, .scanning _ _ ((seq, .event room id) :: _) _⟩ =>
      match rawEvent (w.rooms shard) id, w.noted shard seq with
      | some raw, some i => decide (sampleBridge.Recalls (w.rooms shard) w.users room caches raw i)
      | none, none => true
      | _, _ => false
    | _ => true
  | _ => true

theorem sampleSteady_steady {w : PushWorld} {act : PushAct} (h : w.sampleSteady act = true) :
    w.Steady sampleBridge act := by
  cases act with
  | start shard =>
    intro _ k met
    simp [sampleSteady, met] at h
  | examine i =>
    intro shard caches cursor scannedTo seq room id rows events worked
    simp only [sampleSteady, worked] at h
    split at h
    · rename_i body noted
      rw [body, noted]
      exact .some (of_decide_eq_true h)
    · rename_i body noted
      rw [body, noted]
      exact .none
    · cases h
  | _ => trivial

theorem sampleRun_reaches (acts : List (Call ⊕ PushAct)) :
    Steps.Reaches (PushWorld.step sampleBridge) (fun _ _ => True) .init (sampleRun acts) := by
  have permitted : ∀ (w : PushWorld) (acts : List (Call ⊕ PushAct)), Steps.Permitted
      (fun w act => PushWorld.step sampleBridge w (w.sampleAct act)) (fun _ _ => True) w acts := by
    intro w acts
    induction acts generalizing w with
    | nil => trivial
    | cons act acts ih => exact ⟨trivial, ih _⟩
  exact (Steps.Reaches.of_permitted (permitted .init acts)).chosen

end Samples

end PushWorld

end Saltator.Client
