import Saltator.Federation.Destinations
import Saltator.User.Inboxes

/-!
# Inbound to-device messages

A transaction of another server carries its users' messages to the devices of ours. The messages of an
EDU are queued by one command to the user shard. Whether the command went through makes no difference
to the answer, which is kept, and given again when the transaction is repeated. What an answer says
about the messages is `answered_effective`; an answer may stand for messages that were lost
(`answered_lost`).
-/

namespace Saltator.Federation

open User (JsonValue SerdeJson UserCommand UserApp ToDeviceMessage Bytes InboxEvent inboxEvents
  InboxesFound UserRun deliveries submissions inbox InHorizon)
open Shard (applyEntry LogId)

/-! ## The replay cache -/

/-- Bounded FIFO replay cache for `(origin, txn_id) → response body`. -/
structure TxnReplayCache where
  map : OrdMap (String × String) JsonValue
  order : List (String × String)

namespace TxnReplayCache

def cap : Nat := 1024

def empty : TxnReplayCache := ⟨∅, []⟩

variable (cache : TxnReplayCache) (origin txnId : String)

def get : Option JsonValue := cache.map[(origin, txnId)]?

def put (response : JsonValue) : TxnReplayCache :=
  let map := cache.map.insert (origin, txnId) response
  if cache.map.contains (origin, txnId) then { cache with map }
  else
    match cache.order ++ [(origin, txnId)] with
    | [] => ⟨map, []⟩
    | old :: order =>
      if cap < order.length + 1 then ⟨map.erase old, order⟩ else ⟨map, old :: order⟩

variable {cache origin txnId} {response : JsonValue}

/-- The queue lists requests that are held, each once. -/
structure Filed (cache : TxnReplayCache) : Prop where
  nodup : cache.order.Nodup
  held : ∀ k ∈ cache.order, (cache.map[k]?).isSome

theorem Filed.empty : Filed .empty := ⟨List.nodup_nil, fun _ mem => absurd mem List.not_mem_nil⟩

/-- The cache with an answer put in: the request is held as before, or is the last of the queue, whose
first may have to go. -/
theorem put_cases (cache : TxnReplayCache) (origin txnId : String) (response : JsonValue) :
    (cache.put origin txnId response).map = cache.map.insert (origin, txnId) response ∧
        ((origin, txnId) ∈ cache.map ∧ (cache.put origin txnId response).order = cache.order ∨
          (origin, txnId) ∉ cache.map ∧
            (cache.put origin txnId response).order = cache.order ++ [(origin, txnId)]) ∨
      ∃ old order, cache.order = old :: order ∧ (origin, txnId) ∉ cache.map ∧
        cache.put origin txnId response =
          ⟨(cache.map.insert (origin, txnId) response).erase old, order ++ [(origin, txnId)]⟩ := by
  unfold put
  dsimp only
  split
  · rename_i held
    exact .inl ⟨rfl, .inl ⟨held, rfl⟩⟩
  rename_i new
  cases queue : cache.order with
  | nil => exact .inl ⟨by simp [cap], .inr ⟨new, by simp [cap]⟩⟩
  | cons old order =>
    simp only [List.cons_append]
    split
    · exact .inr ⟨old, order, rfl, new, rfl⟩
    · exact .inl ⟨rfl, .inr ⟨new, rfl⟩⟩

theorem Filed.put (filed : cache.Filed) : (cache.put origin txnId response).Filed := by
  obtain ⟨nodup, held⟩ := filed
  have grown : ∀ k ∈ cache.order ++ [(origin, txnId)],
      ((cache.map.insert (origin, txnId) response)[k]?).isSome := by
    intro k mem
    rw [OrdMap.getElem?_insert']
    split
    · rfl
    · rename_i other
      exact held k ((List.mem_append.1 mem).resolve_right (by simpa using other))
  obtain ⟨map, ⟨-, order⟩ | ⟨new, order⟩⟩ | ⟨old, order, queue, new, same⟩ :=
    put_cases cache origin txnId response
  · constructor
    · rwa [order]
    · rw [order, map]
      exact fun k mem => grown k (List.mem_append_left _ mem)
  · constructor
    · rw [order]
      refine nodup.append (List.nodup_singleton _) (List.disjoint_singleton.2 fun mem => ?_)
      exact new (OrdMap.mem_iff_getElem?.2 (Option.isSome_iff_exists.1 (held _ mem)))
    · rwa [order, map]
  · rw [queue] at nodup held grown
    obtain ⟨gone, nodup⟩ := List.nodup_cons.1 nodup
    have first : old ≠ (origin, txnId) := by
      rintro rfl
      exact new (OrdMap.mem_iff_getElem?.2 (Option.isSome_iff_exists.1 (held _ List.mem_cons_self)))
    rw [same]
    constructor
    · refine nodup.append (List.nodup_singleton _) (List.disjoint_singleton.2 fun mem => ?_)
      exact new (OrdMap.mem_iff_getElem?.2
        (Option.isSome_iff_exists.1 (held _ (List.mem_cons_of_mem _ mem))))
    · intro k mem
      dsimp only
      rw [OrdMap.getElem?_erase', if_neg]
      · exact grown k (List.mem_cons_of_mem _ mem)
      · rintro rfl
        exact (List.mem_append.1 mem).elim gone fun last => first (List.mem_singleton.1 last)

theorem get_put (filed : cache.Filed) :
    (cache.put origin txnId response).get origin txnId = some response := by
  unfold get
  obtain ⟨map, -⟩ | ⟨old, order, queue, new, same⟩ := put_cases cache origin txnId response
  · rw [map, OrdMap.getElem?_insert', if_pos rfl]
  · have held := filed.held old (queue ▸ List.mem_cons_self)
    rw [same]
    dsimp only
    rw [OrdMap.getElem?_erase', if_neg, OrdMap.getElem?_insert', if_pos rfl]
    rintro rfl
    exact new (OrdMap.mem_iff_getElem?.2 (Option.isSome_iff_exists.1 held))

theorem get_of_put {origin' txnId' : String} {response' : JsonValue}
    (found : (cache.put origin txnId response).get origin' txnId' = some response') :
    (origin', txnId') = (origin, txnId) ∧ response' = response ∨
      cache.get origin' txnId' = some response' := by
  have insert : (cache.map.insert (origin, txnId) response)[(origin', txnId')]? = some response' := by
    unfold get at found
    obtain ⟨map, -⟩ | ⟨old, order, queue, new, same⟩ := put_cases cache origin txnId response
    · rwa [map] at found
    · rw [same] at found
      dsimp only at found
      rw [OrdMap.getElem?_erase'] at found
      split at found
      · cases found
      · exact found
  rw [OrdMap.getElem?_insert'] at insert
  split at insert
  · rename_i here
    exact .inl ⟨here, (Option.some.inj insert).symm⟩
  · exact .inr insert

end TxnReplayCache

/-! ## EDUs -/

section Edus

variable (ruma : Ruma) (serde : SerdeJson) (serverName origin : String)

/-- `as_str` of a member. -/
def strMember (v : JsonValue) (key : String) : Option String :=
  match v.get key with
  | some (.string s) => some s
  | _ => none

def objMember (v : JsonValue) (key : String) : Option (List (String × JsonValue)) :=
  (v.get key).bind JsonValue.asObject

def toDeviceEvent (sender eventType : String) (message : JsonValue) : JsonValue :=
  .object [("content", message), ("sender", .string sender), ("type", .string eventType)]

def toDeviceFor (sender eventType : String) (entry : String × JsonValue) : List ToDeviceMessage :=
  match entry.2.asObject with
  | none => []
  | some perDevice =>
    if serverOf ruma entry.1 = some serverName then
      perDevice.filterMap fun m =>
        (serde.toVec (toDeviceEvent sender eventType m.2)).map fun json => ⟨entry.1, m.1, json⟩
    else []

/-- What an `m.direct_to_device` EDU asks of the user shard, at the clock's time. -/
def toDeviceCommand (ts : Nat) (edu : JsonValue) : Option UserCommand := do
  let content ← edu.get "content"
  let sender ← strMember content "sender"
  let eventType ← strMember content "type"
  let messages ← objMember content "messages"
  if serverOf ruma sender = some origin then
    let batch := messages.flatMap (toDeviceFor ruma serde serverName sender eventType)
    match strMember content "message_id" with
    | some messageId => some (.sendToDeviceDeduped origin messageId ts batch)
    | none => if batch.isEmpty then none else some (.sendToDevice batch)
  else none

/-- What an `m.device_list_update` EDU asks of the user shard. A replay asserts no change. -/
def deviceListCommand (edu : JsonValue) : Option UserCommand := do
  let content ← edu.get "content"
  let userId ← strMember content "user_id"
  if serverOf ruma userId = some origin then
    if ((content.get "org.saltator.replay").bind JsonValue.asBool).getD false then none
    else some (.recordKeyChange userId)
  else none

/-- What an EDU asks of the user shard. Receipts go to the room shards, typing and presence to the
maps in memory. -/
def eduCommand (ts : Nat) (edu : JsonValue) : Option UserCommand :=
  match strMember edu "edu_type" with
  | some "m.direct_to_device" => toDeviceCommand ruma serde serverName origin ts edu
  | some "m.device_list_update" => deviceListCommand ruma origin edu
  | _ => none

end Edus

/-! ## Transactions -/

def maxEdus : Nat := 100

def edusOf (body : JsonValue) : List JsonValue :=
  match body.get "edus" with
  | some (.array edus) => edus.take maxEdus
  | _ => []

/-- An EDU with what it asked of the user shard, and whether the shard acted on that. The error of a
shard that did not is logged, and so is one of a shard that did. -/
abbrev Handled := JsonValue × Option (UserCommand × Bool)

/-- A transaction whose PDUs were processed. -/
structure Handling where
  origin : String
  txnId : String
  body : JsonValue
  response : JsonValue
  handled : List Handled
  todo : List JsonValue

/-- How an answer came about. -/
inductive Source where
  /-- No room server is wired. -/
  | unwired
  | replayed
  | fresh (handled : List Handled)

/-- A request that was answered with 200. -/
structure Answer where
  origin : String
  txnId : String
  body : JsonValue
  response : JsonValue
  source : Source

/-- What of the server's state does not change. -/
structure TxnServer where
  serverName : String
  ruma : Ruma
  serde : SerdeJson
  rooms : Bool
  users : Bool

/-- A server that gets transactions, with its user shard: the engine when the current batch began, and
the state that the batch has come to. -/
structure TxnWorld (st : TxnServer) where
  engine : Shard.State (UserApp st.serde)
  users : Shard.State (UserApp st.serde)
  /-- What was done to transactions and messages. -/
  history : List InboxEvent
  cache : TxnReplayCache
  handling : List Handling
  answered : List Answer

inductive TxnAct where
  /-- Anything else that the user shard applies. -/
  | entry (entry : Shard.Entry UserCommand)
  /-- A batch of the user shard ends. -/
  | cut
  /-- A transaction arrives. `body` is `none` where it is not valid JSON, and `results` is what became of
  its PDUs, whatever that is. -/
  | receive (origin txnId : String) (body : Option JsonValue) (results : List (String × JsonValue))
  /-- The next EDU of a transaction. `acted` is whether the user shard acts on what it asks. -/
  | edu (i : Nat) (ts : Nat) (logId : LogId) (acted : Bool)
  | answer (i : Nat)
  /-- What is kept in memory is lost. -/
  | restart

namespace TxnWorld

variable {st : TxnServer}

def empty (st : TxnServer) : TxnWorld st where
  engine := .fresh .empty
  users := .fresh .empty
  history := []
  cache := .empty
  handling := []
  answered := []

variable (w : TxnWorld st)

def applied (entry : Shard.Entry UserCommand) : Option (TxnWorld st) :=
  match applyEntry (UserApp st.serde) w.engine w.users entry with
  | .error _ => none
  | .ok (users, r) =>
    some { w with users, history := w.history ++ User.entryEvents inboxEvents w.users entry users r }

def receive (origin txnId : String) (body : Option JsonValue) (results : List (String × JsonValue)) :
    TxnWorld st :=
  let body' := body.getD .null
  if st.rooms then
    match w.cache.get origin txnId, body with
    | some response, _ =>
      { w with answered := w.answered ++ [⟨origin, txnId, body', response, .replayed⟩] }
    | none, none => w
    | none, some body =>
      let response := .object [("pdus", .object results)]
      { w with handling := w.handling ++ [⟨origin, txnId, body, response, [], edusOf body⟩] }
  else
    let response := .object [("pdus", .object [])]
    { w with answered := w.answered ++ [⟨origin, txnId, body', response, .unwired⟩] }

def step : TxnAct → Option (TxnWorld st)
  | .entry entry => w.applied entry
  | .cut => some { w with engine := w.users }
  | .receive origin txnId body results => some (w.receive origin txnId body results)
  | .edu i ts logId acted =>
    match w.handling[i]? with
    | none => none
    | some h =>
      match h.todo with
      | [] => none
      | edu :: todo =>
        let asked :=
          if st.users then eduCommand st.ruma st.serde st.serverName h.origin ts edu else none
        let h := { h with handled := h.handled ++ [(edu, asked.map fun cmd => (cmd, acted))], todo }
        let w := { w with handling := w.handling.set i h }
        match asked with
        | none => some w
        | some cmd => if acted then w.applied ⟨logId, .normal cmd⟩ else some w
  | .answer i =>
    match w.handling[i]? with
    | none => none
    | some h =>
      if h.todo.isEmpty then
        some { w with
          cache := w.cache.put h.origin h.txnId h.response
          handling := w.handling.eraseIdx i
          answered := w.answered ++ [⟨h.origin, h.txnId, h.body, h.response, .fresh h.handled⟩] }
      else none
  | .restart => some { w with cache := .empty, handling := [] }

def entryOf : TxnAct → Option (Shard.Entry UserCommand)
  | .entry entry => some entry
  | .edu i ts logId true =>
    match w.handling[i]? with
    | some ⟨origin, _, _, _, _, edu :: _⟩ =>
      if st.users then
        (eduCommand st.ruma st.serde st.serverName origin ts edu).map fun cmd => ⟨logId, .normal cmd⟩
      else none
    | _ => none
  | _ => none

/-- The scans of devices and of inboxes find what the batch has written, and no name that the command
carries has a zero byte. -/
def Scans (act : TxnAct) : Prop :=
  ∀ entry, w.entryOf act = some entry →
    User.EntryMeets InboxesFound (fun _ _ _ => True) w.engine w.users entry

/-- The worlds that steps lead to, each of them meeting `P`. -/
inductive Reached (P : TxnWorld st → TxnAct → Prop) : TxnWorld st → Prop
  | init : Reached P (empty st)
  | step {w w' : TxnWorld st} {act : TxnAct} (reached : Reached P w) (meets : P w act)
      (moved : w.step act = some w') : Reached P w'

/-! ## What was done about the messages -/

section Sound

variable (st) in
/-- A command of the user shard that the history has at its place: it queued its messages for the
devices of the state that it was applied to, and where a transaction of this id was submitted before,
within the horizon, it queued nothing. -/
def Delivers (history : List InboxEvent) (cmd : UserCommand) : Prop :=
  ∃ before told after engine users,
    UserRun InboxesFound (fun _ _ _ => True) inboxEvents st.serde engine users before ∧
    history = before ++ told ++ after ∧
    match cmd with
    | .sendToDevice messages => told = deliveries users.app users.app.seq messages
    | .sendToDeviceDeduped origin messageId ts messages =>
      ((origin, messageId) ∉ (submissions before).map Prod.fst → told =
        .submitted (origin, messageId) ts :: deliveries users.app users.app.seq messages) ∧
      ∀ first, InHorizon (submissions before) (origin, messageId) first →
        told = [.submitted (origin, messageId) ts]
    | _ => True

variable (st) in
/-- What has become of a transaction's EDUs so far. -/
structure Attended (history : List InboxEvent) (origin : String) (body : JsonValue)
    (handled : List Handled) (todo : List JsonValue) : Prop where
  edus : handled.map Prod.fst ++ todo = edusOf body
  asked : ∀ x ∈ handled, ∃ ts, x.2.map Prod.fst =
    if st.users then eduCommand st.ruma st.serde st.serverName origin ts x.1 else none
  acted : ∀ x ∈ handled, ∀ cmd, x.2 = some (cmd, true) → Delivers st history cmd

variable (st) in
/-- The answer to a transaction all of whose EDUs were attended to. -/
def Settled (history : List InboxEvent) (answered : List Answer) (origin txnId : String)
    (response : JsonValue) : Prop :=
  ∃ a ∈ answered, ∃ handled, a.source = .fresh handled ∧ a.origin = origin ∧ a.txnId = txnId ∧
    a.response = response ∧ Attended st history origin a.body handled []

structure Sound (w : TxnWorld st) : Prop where
  run : UserRun InboxesFound (fun _ _ _ => True) inboxEvents st.serde w.engine w.users w.history
  filed : w.cache.Filed
  handling : ∀ h ∈ w.handling, Attended st w.history h.origin h.body h.handled h.todo
  cached : ∀ origin txnId response, w.cache.get origin txnId = some response →
    Settled st w.history w.answered origin txnId response
  answered : st.rooms = true → ∀ a ∈ w.answered, Settled st w.history w.answered a.origin a.txnId a.response

variable {w w' : TxnWorld st} {history more : List InboxEvent} {cmd : UserCommand}
  {origin txnId : String} {body response : JsonValue} {handled : List Handled} {todo : List JsonValue}
  {answered : List Answer} {entry : Shard.Entry UserCommand}

theorem Delivers.append (h : Delivers st history cmd) : Delivers st (history ++ more) cmd := by
  obtain ⟨before, told, after, engine, users, run, cut, does⟩ := h
  exact ⟨before, told, after ++ more, engine, users, run, by simp [cut], does⟩

theorem Attended.append (h : Attended st history origin body handled todo) :
    Attended st (history ++ more) origin body handled todo :=
  ⟨h.edus, h.asked, fun x mem cmd did => (h.acted x mem cmd did).append⟩

theorem Settled.append (h : Settled st history answered origin txnId response) :
    Settled st (history ++ more) answered origin txnId response := by
  obtain ⟨a, mem, handled, source, same, id, told, attended⟩ := h
  exact ⟨a, mem, handled, source, same, id, told, attended.append⟩

theorem Settled.grow {later : List Answer}
    (h : Settled st history answered origin txnId response) :
    Settled st history (answered ++ later) origin txnId response := by
  obtain ⟨a, mem, rest⟩ := h
  exact ⟨a, List.mem_append_left _ mem, rest⟩

theorem delivers_applied {engine users users' : Shard.State (UserApp st.serde)} {logId : LogId}
    {r : Shard.EntryResponse User.UserResponse}
    (run : UserRun InboxesFound (fun _ _ _ => True) inboxEvents st.serde engine users history)
    (applied : applyEntry (UserApp st.serde) engine users ⟨logId, .normal cmd⟩ = .ok (users', r)) :
    Delivers st (history ++ User.entryEvents inboxEvents users ⟨logId, .normal cmd⟩ users' r) cmd := by
  refine ⟨history, _, [], engine, users, run, (List.append_nil _).symm, ?_⟩
  obtain ⟨⟨app, answer⟩, step, told⟩ := Outcome.bind_eq_ok.1 applied
  obtain ⟨rfl, rfl⟩ := Prod.mk.inj (Outcome.pure_eq_ok.1 told)
  cases cmd with
  | sendToDevice messages => exact rfl
  | sendToDeviceDeduped origin messageId ts messages =>
    have step : User.Machine.apply st.serde engine.app users.app
        (.sendToDeviceDeduped origin messageId ts messages) = .ok (app, answer) := step
    have once := User.submitted_once run.delivered.remembered step
    exact ⟨once.1, fun first within => (once.2 first within).2⟩
  | _ => exact trivial

theorem Sound.applied (sound : Sound w) (moved : w.applied entry = some w')
    (scans : User.EntryMeets InboxesFound (fun _ _ _ => True) w.engine w.users entry) : Sound w' := by
  unfold TxnWorld.applied at moved
  split at moved
  · cases moved
  rename_i users r applied
  cases moved
  exact ⟨sound.run.command scans applied, sound.filed, fun h mem => (sound.handling h mem).append,
    fun origin txnId response held => (sound.cached origin txnId response held).append,
    fun wired a mem => (sound.answered wired a mem).append⟩

theorem Sound.receive (sound : Sound w) (origin txnId : String) (body : Option JsonValue)
    (results : List (String × JsonValue)) : Sound (w.receive origin txnId body results) := by
  unfold TxnWorld.receive
  dsimp only
  split
  · split
    · rename_i response held
      refine ⟨sound.run, sound.filed, sound.handling,
        fun origin txnId response held => (sound.cached origin txnId response held).grow,
        fun wired a mem => ?_⟩
      obtain old | new := List.mem_append.1 mem
      · exact (sound.answered wired a old).grow
      · obtain rfl := List.mem_singleton.1 new
        exact (sound.cached _ _ _ held).grow
    · exact sound
    · refine ⟨sound.run, sound.filed, fun h mem => ?_, sound.cached, sound.answered⟩
      obtain old | new := List.mem_append.1 mem
      · exact sound.handling h old
      · obtain rfl := List.mem_singleton.1 new
        exact ⟨rfl, fun x mem => absurd mem List.not_mem_nil,
          fun x mem => absurd mem List.not_mem_nil⟩
  · rename_i unwired
    exact ⟨sound.run, sound.filed, sound.handling,
      fun origin txnId response held => (sound.cached origin txnId response held).grow,
      fun wired => absurd wired unwired⟩

theorem Attended.next {edu : JsonValue} {write : Option (UserCommand × Bool)}
    (h : Attended st history origin body handled (edu :: todo))
    (asked : ∃ ts, write.map Prod.fst =
      if st.users then eduCommand st.ruma st.serde st.serverName origin ts edu else none)
    (acted : ∀ cmd, write = some (cmd, true) → Delivers st history cmd) :
    Attended st history origin body (handled ++ [(edu, write)]) todo := by
  obtain ⟨edus, askedBefore, actedBefore⟩ := h
  refine ⟨?_, fun x mem => ?_, fun x mem => ?_⟩
  · rw [List.map_append, List.append_assoc]
    exact edus
  · obtain old | new := List.mem_append.1 mem
    · exact askedBefore x old
    · obtain rfl := List.mem_singleton.1 new
      exact asked
  · obtain old | new := List.mem_append.1 mem
    · exact actedBefore x old
    · obtain rfl := List.mem_singleton.1 new
      exact acted

theorem Sound.set (sound : Sound w) (i : Nat) {h : Handling}
    (attended : Attended st w.history h.origin h.body h.handled h.todo) :
    Sound { w with handling := w.handling.set i h } := by
  refine ⟨sound.run, sound.filed, fun g mem => ?_, sound.cached, sound.answered⟩
  obtain old | rfl := List.mem_or_eq_of_mem_set mem
  · exact sound.handling g old
  · exact attended

theorem Sound.edu (sound : Sound w) {i ts : Nat} {logId : LogId} {acted : Bool}
    (scans : Scans w (.edu i ts logId acted)) (moved : w.step (.edu i ts logId acted) = some w') :
    Sound w' := by
  unfold TxnWorld.step at moved
  dsimp only at moved
  cases found : w.handling[i]? with
  | none => simp [found] at moved
  | some h =>
    rw [found] at moved
    dsimp only at moved
    obtain ⟨origin, txnId, body, response, handled, todo⟩ := h
    have attended := sound.handling _ (List.mem_of_getElem? found)
    cases todo with
    | nil => cases moved
    | cons edu todo =>
      dsimp only at moved attended
      generalize asks : (if st.users then
        eduCommand st.ruma st.serde st.serverName origin ts edu else none) = asked at moved
      cases asked with
      | none =>
        cases moved
        exact sound.set i (attended.next ⟨ts, asks.symm⟩ fun cmd told => by cases told)
      | some cmd =>
        cases acted with
        | false =>
          cases moved
          exact sound.set i (attended.next ⟨ts, asks.symm⟩ fun cmd told => by simp at told)
        | true =>
          have entry : w.entryOf (.edu i ts logId true) = some ⟨logId, .normal cmd⟩ := by
            cases wired : st.users with
            | false => simp [wired] at asks
            | true =>
              rw [if_pos wired] at asks
              simp [entryOf, found, wired, asks]
          have meets := scans _ entry
          simp only [if_true, TxnWorld.applied] at moved
          split at moved
          · cases moved
          rename_i users r applied
          cases moved
          have after : Sound { w with
              users
              history := w.history ++
                User.entryEvents inboxEvents w.users ⟨logId, .normal cmd⟩ users r } :=
            sound.applied (by simp only [TxnWorld.applied, applied]) meets
          exact after.set i (attended.append.next ⟨ts, asks.symm⟩ fun cmd' told => by
            obtain ⟨rfl, -⟩ := some_pair told
            exact delivers_applied sound.run applied)

theorem Sound.answer (sound : Sound w) {i : Nat} (moved : w.step (.answer i) = some w') : Sound w' := by
  unfold TxnWorld.step at moved
  dsimp only at moved
  cases found : w.handling[i]? with
  | none => simp [found] at moved
  | some h =>
    rw [found] at moved
    dsimp only at moved
    split at moved
    · rename_i done
      cases moved
      have attended := sound.handling h (List.mem_of_getElem? found)
      rw [List.isEmpty_iff.1 done] at attended
      have settled : Settled st w.history (w.answered ++
          [⟨h.origin, h.txnId, h.body, h.response, .fresh h.handled⟩]) h.origin h.txnId h.response :=
        ⟨_, List.mem_append_right _ (List.mem_singleton_self _), _, rfl, rfl, rfl, rfl, attended⟩
      refine ⟨sound.run, sound.filed.put, fun g mem => sound.handling g (List.mem_of_mem_eraseIdx mem),
        fun origin txnId response held => ?_, fun wired a mem => ?_⟩
      · obtain ⟨same, rfl⟩ | old := TxnReplayCache.get_of_put held
        · obtain ⟨rfl, rfl⟩ := Prod.mk.inj same
          exact settled
        · exact (sound.cached origin txnId response old).grow
      · obtain old | new := List.mem_append.1 mem
        · exact (sound.answered wired a old).grow
        · obtain rfl := List.mem_singleton.1 new
          exact settled
    · cases moved

theorem Sound.step {act : TxnAct} (sound : Sound w) (scans : Scans w act)
    (moved : w.step act = some w') : Sound w' := by
  cases act with
  | entry entry => exact sound.applied moved (scans entry rfl)
  | cut =>
    cases moved
    exact ⟨sound.run.cut, sound.filed, sound.handling, sound.cached, sound.answered⟩
  | receive origin txnId body results =>
    cases moved
    exact sound.receive origin txnId body results
  | edu i ts logId acted => exact sound.edu scans moved
  | answer i => exact sound.answer moved
  | restart =>
    cases moved
    exact ⟨sound.run, .empty, fun h mem => absurd mem List.not_mem_nil,
      fun origin txnId response held => by simp [TxnReplayCache.get, TxnReplayCache.empty] at held,
      sound.answered⟩

theorem Reached.sound (reached : Reached Scans w) : Sound w := by
  induction reached with
  | init =>
    exact ⟨.start, .empty, fun h mem => absurd mem List.not_mem_nil,
      fun origin txnId response held => by
        simp [TxnReplayCache.get, TxnReplayCache.empty, TxnWorld.empty] at held,
      fun wired a mem => absurd mem List.not_mem_nil⟩
  | step before scans moved ih => exact ih.step scans moved

/-- What an answer says. An inbox holds what the history queued for it, whatever the answers. A
transaction that was answered, or one whose answer is given again, had each of its EDUs attended to:
what the EDU asked, if the user shard acted on that, is in the history, and queued its messages if it is
the first of its id. The answer is kept in either case. -/
theorem answered_effective (st : TxnServer) (wired : st.rooms = true) (w : TxnWorld st)
    (reached : Reached Scans w) :
    (∀ userId deviceId since, Shard.Plain userId → Shard.Plain deviceId →
      w.users.app.toDeviceEvents userId deviceId since =
      (inbox (userId, deviceId) w.history).filter fun m => User.Machine.succSaturating since ≤ m.1) ∧
    (∀ a ∈ w.answered, Settled st w.history w.answered a.origin a.txnId a.response) ∧
    ∀ i w', w.step (.answer i) = some w' → ∃ h ∈ w.handling,
      w'.cache.get h.origin h.txnId = some h.response := by
  have sound := reached.sound
  refine ⟨fun userId deviceId since _ _ => ?_, sound.answered wired, fun i w' moved => ?_⟩
  · exact (User.toDeviceEvents_eq since).trans
      (congrArg (List.filter _) (sound.run.delivered.inboxes (userId, deviceId)))
  · unfold TxnWorld.step at moved
    dsimp only at moved
    cases found : w.handling[i]? with
    | none => simp [found] at moved
    | some h =>
      rw [found] at moved
      dsimp only at moved
      split at moved
      · cases moved
        exact ⟨h, List.mem_of_getElem? found, TxnReplayCache.get_put sound.filed⟩
      · cases moved

end Sound

/-! ## Sample runs -/

section Samples

def sampleEncoder : SerdeJson where
  fromSlice _ := none
  toVec
    | .object [("content", .object []), ("sender", .string sender), ("type", .string eventType)] =>
      some (("\x7b\"content\":\x7b\x7d,\"sender\":\"" ++ sender ++ "\",\"type\":\"" ++ eventType ++
        "\"\x7d").toList.map fun c => c.toNat.toUInt8)
    | _ => none

def sampleReceiver : TxnServer := ⟨"x", Ruma.sample, sampleEncoder, true, true⟩

def sampleBody : JsonValue :=
  .object [("edus", .array [.object [ ("content", .object [("message_id", .string "m"),
      ("messages", .object [("@a:x", .object [("D", .object [])])]), ("sender", .string "@b:y"),
      ("type", .string "t")]),
    ("edu_type", .string "m.direct_to_device")]])]

def sampleRegister : TxnAct :=
  .entry ⟨⟨1, 1, 1⟩, .normal (.register "@a:x" none 0 (some ⟨"@a:x", "D", none, 7, none, none, 0⟩))⟩

def sampleReceipt (acted : Bool) : List TxnAct :=
  [.receive "y" "t" (some sampleBody) [], .edu 0 5 ⟨1, 1, 2⟩ acted, .answer 0]

def plainEntry (entry : Shard.Entry UserCommand) : Bool :=
  match entry.payload with
  | .normal cmd => decide cmd.PlainDevices
  | _ => true

def run (w : TxnWorld sampleReceiver) : List TxnAct → Option (TxnWorld sampleReceiver)
  | [] => some w
  | act :: acts =>
    if (w.entryOf act).all plainEntry then
      (TxnWorld.step { w with engine := w.users } act).bind fun w' => w'.run acts
    else none

theorem scans_cut {w : TxnWorld st} (cut : w.engine = w.users) {act : TxnAct}
    (plain : (w.entryOf act).all plainEntry = true) : Scans w act := by
  intro entry applied
  rw [applied, Option.all_some] at plain
  unfold plainEntry at plain
  unfold User.EntryMeets
  split
  · rename_i cmd payload
    rw [payload] at plain
    rw [cut]
    exact ⟨User.InboxScans.same _, of_decide_eq_true plain⟩
  · exact trivial
  · exact trivial

theorem Reached.run {w w' : TxnWorld sampleReceiver} {acts : List TxnAct} (reached : Reached Scans w)
    (moved : w.run acts = some w') : Reached Scans w' := by
  induction acts generalizing w with
  | nil =>
    cases moved
    exact reached
  | cons act acts ih =>
    obtain ⟨plain, moved⟩ := Option.ite_none_right_eq_some.1 moved
    obtain ⟨v, first, rest⟩ := Option.bind_eq_some_iff.1 moved
    have ends : Scans w .cut := fun entry applied => by cases applied
    have cut : Reached Scans { w with engine := w.users } := reached.step ends rfl
    exact ih (cut.step (scans_cut rfl plain) first) rest

/-- The message is queued and the transaction answered. -/
theorem answered_effective_sample : ∃ w : TxnWorld sampleReceiver, w.users.app.toDeviceEvents "@a:x" "D" 0 =
      ((inbox ("@a:x", "D") w.history).filter fun m => User.Machine.succSaturating 0 ≤ m.1) ∧
    (inbox ("@a:x", "D") w.history).length = 1 ∧
    ∃ response, Settled sampleReceiver w.history w.answered "y" "t" response := by
  have found : ((empty sampleReceiver).run (sampleRegister :: sampleReceipt true)).any (fun w =>
      decide ((inbox ("@a:x", "D") w.history).length = 1) &&
      w.answered.any fun a => decide (a.origin = "y") && decide (a.txnId = "t")) = true := by
    decide +kernel
  simp only [Option.any_eq_true, Bool.and_eq_true, decide_eq_true_iff, List.any_eq_true] at found
  obtain ⟨w, moved, queued, a, mem, origin, txnId⟩ := found
  obtain ⟨held, settled, -⟩ := answered_effective sampleReceiver rfl w (Reached.init.run moved)
  exact ⟨w, held "@a:x" "D" 0 (by decide +kernel) (by decide +kernel), queued, a.response, origin ▸ txnId ▸ settled a mem⟩

/-- The write of the message fails. The transaction is answered all the same, and its repetition from the
cache, and the message reaches no inbox. -/
theorem answered_lost : ∃ w : TxnWorld sampleReceiver, Reached Scans w ∧
    (w.answered.map fun a => (a.origin, a.txnId)) = [("y", "t"), ("y", "t")] ∧
    (w.cache.get "y" "t").isSome ∧
    ((edusOf sampleBody).map fun edu => (eduCommand Ruma.sample sampleEncoder "x" "y" 5 edu).isSome) =
      [true] ∧
    ("@a:x", "D") ∈ w.users.app.device ∧ w.users.app.toDeviceEvents "@a:x" "D" 0 = [] := by
  have found : ((empty sampleReceiver).run (sampleRegister :: sampleReceipt false ++
      [.receive "y" "t" (some sampleBody) []])).any (fun w =>
        decide ((w.answered.map fun a => (a.origin, a.txnId)) = [("y", "t"), ("y", "t")]) &&
        (w.cache.get "y" "t").isSome && w.users.app.device.contains ("@a:x", "D") &&
        decide (w.users.app.toDeviceEvents "@a:x" "D" 0 = [])) = true := by
    decide +kernel
  simp only [Option.any_eq_true, Bool.and_eq_true, decide_eq_true_iff] at found
  obtain ⟨w, moved, ⟨⟨answered, kept⟩, device⟩, lost⟩ := found
  exact ⟨w, Reached.init.run moved, answered, kept, by decide +kernel, device, lost⟩

end Samples

end TxnWorld

end Saltator.Federation
