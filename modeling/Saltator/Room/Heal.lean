import Saltator.Lib.Stateful
import Saltator.Room.Runs

/-!
# Healing

When an event cites prev or auth events that are not held, they are fetched from the server that sent
it. The transport is a parameter (`EventFetcher`): a state of its own and any answers at all. What a
node proposes to its shard meanwhile is kept in order, with the keys it trusted and the store it read.
-/

namespace Saltator.Room

open Std
open Saltator.Outcome
open Saltator.Stateful
open Pipeline

/-- The fetch budget of one healing pass. -/
def gapFillLimit : Nat := 50

structure EventFetcher (σ : Type) where
  /-- The timeline events between `earliest` and `latest`, oldest first. -/
  getMissingEvents (origin : String) (room : RoomId) (earliest : List EventId) (latest : EventId)
    (limit : Nat) : StateM σ (Except String (List JsonObject))
  /-- The ids of the state before the event, and of its auth chain. -/
  stateIds (origin : String) (room : RoomId) (eventId : EventId) :
    StateM σ (Except String (List EventId × List EventId))
  /-- The state before the event, and its auth chain. -/
  state (origin : String) (room : RoomId) (eventId : EventId) :
    StateM σ (Except String (List JsonObject × List JsonObject))
  event (origin : String) (eventId : EventId) : StateM σ (Except String (Option JsonObject))
  /-- Load the origin's signing keys into the trusted set. -/
  trustOriginKeys (origin : String) : StateM (PublicKeyMap × σ) Unit
  /-- Load the keys of every server that authored one of the events. -/
  trustEventServers (events : List JsonObject) : StateM (PublicKeyMap × σ) Unit

/-- A command that was proposed and applied: the server with the keys it trusted then, the call, and
the store before and after. -/
structure Proposal where
  server : Server
  call : Call
  before : Store
  after : Store

structure Node (σ : Type) where
  server : Server
  store : Store
  remote : σ
  /-- What was applied so far. -/
  proposals : List Proposal

abbrev Heal (σ : Type) := StateM (Node σ)

namespace Heal

variable {σ : Type}

def ask {α : Type} (request : StateM σ α) : Heal σ α := fun n =>
  let (answer, remote) := request n.remote
  (answer, { n with remote })

def trust (request : StateM (PublicKeyMap × σ) Unit) : Heal σ Unit := fun n =>
  let (keys, remote) := (request (n.server.keys, n.remote)).2
  ((), { n with server := { n.server with keys }, remote })

def propose (call : Call) (cmd : RoomCommand) : Heal σ (Except RoomError RoomResponse) := fun n =>
  match Machine.apply n.store n.store cmd with
  | .error e => (ofStore (.error e), n)
  | .ok (after, response) =>
    (.ok response, { n with
      store := after
      proposals := n.proposals ++ [⟨n.server, call, n.store, after⟩] })

def outcomeOf : RoomResponse → Except RoomError Outcome
  | .accepted eventId seq => .ok (.accepted eventId seq)
  | .rejected eventId reason => .ok (.rejected eventId reason)
  | .duplicate eventId => .ok (.duplicate eventId)
  | _ => .error (.codec "unexpected non-event response to append")

/-- Ingest one event; with `rejectMissingAuth`, unfetchable auth events settle as a rejection. -/
def ingestPdu (fuel : Nat) (raw : JsonObject) (rejectMissingAuth : Bool) :
    Heal σ (Except RoomError Outcome) := do
  let n ← get
  match n.server.ingestPdu n.store fuel raw rejectMissingAuth with
  | .error e => return .error e
  | .ok (.inl id) => return .ok (.duplicate id)
  | .ok (.inr d) =>
    let response ← propose (.ingest raw rejectMissingAuth) (.append d.cmd)
    return response >>= outcomeOf

/-- Append a recovered chain; returns how many events joined the timeline. -/
def importSegment (fuel : Nat) (room : RoomId) (state authChain chain : List JsonObject) :
    Heal σ (Except RoomError Nat) := do
  let n ← get
  match n.server.importSegment n.store fuel room state authChain chain with
  | .error e => return .error e
  | .ok cmd =>
    match ← propose (.importSegment room state authChain chain) (.importSegment cmd) with
    | .ok (.segment appended) => return .ok appended
    | .ok other => return .error (.codec ("unexpected segment response: " ++ reprStr other))
    | .error e => return .error e

end Heal

namespace Node

variable {σ : Type} (n : Node σ)

def pduEventId (raw : JsonObject) : Option EventId :=
  match classify n.server.ruma n.store raw with
  | .error _ => none
  | .ok (version, _, _) => (n.server.ruma.eventId raw version).toOption

def roomExtremities (room : RoomId) : List EventId :=
  (n.store.room[room]?.map RoomMeta.extremities).getD []

/-- Whether an event is well formed and carries valid signatures and a matching hash. -/
def verifyPduAt (version : RoomVersion) (raw : JsonObject) : Bool :=
  (validatePdu n.server.ruma raw version).isOk &&
    verifyEvent n.server.ruma raw version n.server.keys = .ok .verified

def verifyPdu (room : RoomId) (raw : JsonObject) : Bool :=
  match n.store.room[room]?.bind fun m => RoomVersion.parse m.version with
  | none => false
  | some version => n.verifyPduAt version raw

end Node

def firstPrev (obj : JsonObject) : Option EventId :=
  match obj.lookup "prev_events" with
  | some (.array (.string prev :: _)) => some prev
  | _ => none

/-! ## The healing sequences -/

section Sequences

variable {σ : Type} (fetcher : EventFetcher σ) (fuel : Nat) (origin : String)

def resolveIds (ids : List EventId) : Heal σ (List JsonObject) :=
  ids.foldlM (fun out id => do
    let n ← get
    match n.store.event[id]? with
    | some stored => return out ++ [stored.raw]
    | none =>
      match ← Heal.ask (fetcher.event origin id) with
      | .ok (some obj) => return out ++ [obj]
      | _ => return out) []

def fetchStateByIds (room : RoomId) (eventId : EventId) :
    Heal σ (Option (List JsonObject × List JsonObject)) := do
  match ← Heal.ask (fetcher.stateIds origin room eventId) with
  | .error _ => return none
  | .ok (pduIds, authChainIds) =>
    if pduIds.isEmpty then return none
    else
      let stateEvents ← resolveIds fetcher origin pduIds
      let authChain ← resolveIds fetcher origin authChainIds
      if stateEvents.isEmpty then return none else return some (stateEvents, authChain)

/-- Put the event before the chain in front of it, when it is not held and can be verified. -/
def addBreach (room : RoomId) (prev : EventId) (chain : List JsonObject) :
    Heal σ (List JsonObject) := do
  let n ← get
  if n.store.event.contains prev then return chain
  else
    match ← Heal.ask (fetcher.event origin prev) with
    | .ok (some obj) =>
      Heal.trust (fetcher.trustEventServers [obj])
      let n ← get
      if n.verifyPdu room obj then return obj :: chain else return chain
    | _ => return chain

def importAnchored (room : RoomId) (ingested : Nat) (stateEvents authChain chain : List JsonObject) :
    Heal σ Bool := do
  if stateEvents.isEmpty then return 0 < ingested
  else
    Heal.trust (fetcher.trustEventServers (stateEvents ++ authChain))
    let n ← get
    if (stateEvents ++ authChain).all (n.verifyPdu room) then
      match ← Heal.importSegment fuel room stateEvents authChain chain with
      | .ok appended => return 0 < appended || 0 < ingested
      | .error _ => return 0 < ingested
    else return 0 < ingested

def anchorChain (room : RoomId) (ingested : Nat) (chain : List JsonObject) : Heal σ Bool := do
  let n ← get
  match chain.head?.bind n.pduEventId with
  | none => return 0 < ingested
  | some anchor =>
    match chain.head?.bind firstPrev with
    | none => wholeState anchor
    | some prev =>
      match ← fetchStateByIds fetcher origin room prev with
      | none => wholeState anchor
      | some (stateEvents, authChain) =>
        let chain ← addBreach fetcher origin room prev chain
        importAnchored fetcher fuel room ingested stateEvents authChain chain
where
  /-- The fallback: the whole state at the oldest event itself. -/
  wholeState (anchor : EventId) : Heal σ Bool := do
    match ← Heal.ask (fetcher.state origin room anchor) with
    | .error _ => return 0 < ingested
    | .ok (stateEvents, authChain) =>
      importAnchored fetcher fuel room ingested stateEvents authChain chain

def ingestChain (chain : List JsonObject) : Heal σ (Nat × Bool) :=
  chain.foldlM (fun (ingested, stillMissing) obj => do
    match ← Heal.ingestPdu fuel obj false with
    | .ok (.accepted _ _) | .ok (.duplicate _) => return (ingested + 1, stillMissing)
    | .error (.missingEvents _) | .error (.missingAuthEvents _) => return (ingested, true)
    | _ => return (ingested, stillMissing)) (0, false)

/-- Fetch the events between what is held and the event, and ingest them. Returns whether a retry is
worth it. -/
def healGap (pdu : JsonObject) : Heal σ Bool := do
  let n ← get
  match n.pduEventId pdu, strProp pdu "room_id" with
  | some pduId, some room =>
    let earliest := n.roomExtremities room
    if earliest.isEmpty then return false
    else
      Heal.trust (fetcher.trustOriginKeys origin)
      match ← Heal.ask (fetcher.getMissingEvents origin room earliest pduId gapFillLimit) with
      | .error _ => return false
      | .ok chain =>
        let (ingested, stillMissing) ← ingestChain fuel chain
        if stillMissing then anchorChain fetcher fuel origin room ingested chain
        else return 0 < ingested
  | _, _ => return false

def fetchLoop : Nat → List EventId → OrdSet EventId → Bool → Heal σ Bool
  | 0, _, _, ingested => return ingested
  | _ + 1, [], _, ingested => return ingested
  | budget + 1, id :: queue, retried, ingested => do
    match ← Heal.ask (fetcher.event origin id) with
    | .ok (some obj) =>
      match ← Heal.ingestPdu fuel obj false with
      | .ok _ => fetchLoop budget queue retried true
      | .error (.missingEvents more) =>
        if retried.contains id then fetchLoop budget queue retried ingested
        else fetchLoop budget (more.reverse ++ id :: queue) (retried.insert id) ingested
      | .error (.missingAuthEvents more) =>
        if retried.contains id then
          -- Tried before: the auth events are unfetchable.
          match ← Heal.ingestPdu fuel obj true with
          | .ok _ => fetchLoop budget queue retried true
          | .error _ => fetchLoop budget queue retried ingested
        else fetchLoop budget (more.reverse ++ id :: queue) (retried.insert id) ingested
      | .error _ => fetchLoop budget queue retried ingested
    | _ => fetchLoop budget queue retried ingested

def fetchMissingById (missing : List EventId) : Heal σ Bool := do
  Heal.trust (fetcher.trustOriginKeys origin)
  fetchLoop fetcher fuel origin gapFillLimit missing.reverse ∅ false

/-- The rounds of `ingestPduHealing`: each kind of hole is tried once. -/
def healRounds (raw : JsonObject) : Nat → Bool → Bool → Heal σ (Except RoomError Outcome)
  | 0, _, _ => return .error .outOfFuel
  | rounds + 1, triedGap, triedAuth => do
    match ← Heal.ingestPdu fuel raw false with
    | .error (.missingEvents missing) =>
      if triedGap then return .error (.missingEvents missing)
      else if ← healGap fetcher fuel origin raw then healRounds raw rounds true triedAuth
      else if ← fetchMissingById fetcher fuel origin missing then healRounds raw rounds true triedAuth
      else return .error (.missingEvents missing)
    | .error (.missingAuthEvents missing) =>
      if triedAuth then Heal.ingestPdu fuel raw true
      else
        let _ ← fetchMissingById fetcher fuel origin missing
        healRounds raw rounds triedGap true
    | other => return other

def ingestPduHealing (raw : JsonObject) : Heal σ (Except RoomError Outcome) :=
  healRounds fetcher fuel origin raw 3 false false

end Sequences

end Saltator.Room
