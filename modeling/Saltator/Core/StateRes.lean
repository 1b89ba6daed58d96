import Mathlib.Data.List.Sort
import Saltator.Core.Auth
import Saltator.Lib.Loop

/-!
# State resolution

State resolution v2 and v2.1. The two differ in where the iterative auth checks start from and in
the conflicted state subgraph, both gated by `RoomVersion.stateRes`.

Every `while` loop takes a `fuel` argument and raises `outOfFuel` when it runs short; a store whose
auth graph has a cycle would keep some of them running for ever. `panic` stands for an `expect`
whose expectation fails.
-/

namespace Saltator.StateRes

open Std

/-- A state map key: `(event type, state key)`. -/
abbrev Key := String × String

abbrev StateIds := OrdMap Key EventId

/-- Auth chains computed so far. -/
abbrev ChainCache := OrdMap EventId (OrdSet EventId)

inductive StateResError where
  | missingEvent (id : EventId)
  | missingCreate
  | panic
  | outOfFuel
  deriving DecidableEq, Repr

def createKey : Key := ("m.room.create", "")

def plKey : Key := ("m.room.power_levels", "")

variable {E : Type} [Event E]

def require (fetch : EventId → Option E) (id : EventId) : Except StateResError E :=
  match fetch id with
  | some e => .ok e
  | none => .error (.missingEvent id)

/-! ## Conflicted and unconflicted state -/

def allKeys (stateSets : List StateIds) : OrdSet Key :=
  stateSets.foldl (fun keys set => OrdSet.extend keys set.keys) ∅

def agreedValue (stateSets : List StateIds) (key : Key) : Option EventId :=
  match stateSets with
  | [] => none
  | first :: _ => first[key]?.filter fun _ => stateSets.all fun s => s[key]? == first[key]?

/-- Split the sets into the unconflicted map (the same value in every set) and the conflicted set
(all other values, keys missing from some sets included). -/
def partition (stateSets : List StateIds) : StateIds × OrdSet EventId :=
  (allKeys stateSets).toList.foldl (fun (unconflicted, conflicted) key =>
    match agreedValue stateSets key with
    | some value => (unconflicted.insert key value, conflicted)
    | none =>
      (unconflicted, OrdSet.extend conflicted (stateSets.filterMap fun s => s[key]?))) (∅, ∅)

/-! ## Auth chains -/

/-- The post-order walk over the auth graph: nodes to visit (`true` marks one whose auth events
were pushed above it), and the nodes finished so far, as a set and in order. -/
structure ChainWalk where
  stack : List (EventId × Bool)
  finished : OrdSet EventId
  order : List EventId

def walkRound (fetch : EventId → Option E) (cache : ChainCache) (w : ChainWalk) :
    Except StateResError (ChainWalk ⊕ List EventId) :=
  match w.stack with
  | [] => .ok (.inr w.order)
  | (node, true) :: rest =>
    if w.finished.contains node then .ok (.inl { w with stack := rest })
    else .ok (.inl ⟨rest, w.finished.insert node, w.order ++ [node]⟩)
  | (node, false) :: rest =>
    if w.finished.contains node || cache.contains node then .ok (.inl { w with stack := rest })
    else do
      let event ← require fetch node
      let fresh := (Event.authEvents event).filter fun a =>
        !w.finished.contains a && !cache.contains a
      return .inl { w with stack := (fresh.map fun a => (a, false)).reverse ++ (node, true) :: rest }

def assemble (fetch : EventId → Option E) (cache : ChainCache) (node : EventId) :
    Except StateResError ChainCache := do
  let event ← require fetch node
  let chain := (Event.authEvents event).foldl (fun chain a =>
    OrdSet.extend (chain.insert a) ((cache[a]?.map ExtTreeSet.toList).getD [])) ∅
  return cache.insert node chain

def authChain (fetch : EventId → Option E) (fuel : Nat) (id : EventId) (cache : ChainCache) :
    Except StateResError (OrdSet EventId × ChainCache) :=
  match cache[id]? with
  | some chain => .ok (chain, cache)
  | none => do
    let order ← Loop.run .outOfFuel (walkRound fetch cache) fuel ⟨[(id, false)], ∅, []⟩
    let cache ← order.foldlM (assemble fetch) cache
    return (cache[id]?.getD ∅, cache)

def setChain (fetch : EventId → Option E) (fuel : Nat) (set : StateIds) (cache : ChainCache) :
    Except StateResError (OrdSet EventId × ChainCache) :=
  set.vals.foldlM (fun (chain, cache) id => do
    let (more, cache) ← authChain fetch fuel id cache
    return (OrdSet.extend chain more.toList, cache)) (∅, cache)

def setChains (fetch : EventId → Option E) (fuel : Nat) (stateSets : List StateIds) :
    Except StateResError (List (OrdSet EventId) × ChainCache) :=
  stateSets.foldlM (fun (chains, cache) set => do
    let (chain, cache) ← setChain fetch fuel set cache
    return (chains ++ [chain], cache)) ([], ∅)

def authDifference (chains : List (OrdSet EventId)) : OrdSet EventId :=
  (chains.foldl (fun union chain => OrdSet.extend union chain.toList) ∅).filter fun id =>
    !chains.all fun c => c.contains id

/-! ## The conflicted state subgraph -/

def edgesRound (fetch : EventId → Option E) : List EventId × OrdMap EventId (List EventId) →
      Except StateResError ((List EventId × OrdMap EventId (List EventId)) ⊕ OrdMap EventId (List EventId))
  | ([], edges) => .ok (.inr edges)
  | (id :: stack, edges) =>
    if edges.contains id then .ok (.inl (stack, edges))
    else do
      let event ← require fetch id
      let auth := Event.authEvents event
      return .inl (auth.reverse ++ stack, edges.insert id auth)

def reachesPass (edges : OrdMap EventId (List EventId)) (reaches : OrdMap EventId Bool) :
    OrdMap EventId Bool × Bool :=
  edges.toList.foldl (fun (reaches, changed) (node, auth) =>
    if !(reaches[node]?.getD false) && auth.any (fun a => reaches[a]?.getD false) then
      (reaches.insert node true, true)
    else (reaches, changed)) (reaches, false)

/-- Passes until nothing changes. -/
def reachesRound (edges : OrdMap EventId (List EventId)) (reaches : OrdMap EventId Bool) :
    Except StateResError (OrdMap EventId Bool ⊕ OrdMap EventId Bool) :=
  let (reaches, changed) := reachesPass edges reaches
  .ok (if changed then .inl reaches else .inr reaches)

/-- v2.1: every event on an `auth_events` path between two events of the conflicted set. -/
def conflictedSubgraph (fetch : EventId → Option E) (fuel : Nat) (conflicted : OrdSet EventId) :
    Except StateResError (OrdSet EventId) := do
  let edges ← Loop.run .outOfFuel (edgesRound fetch) fuel (conflicted.toList.reverse, ∅)
  let initial : OrdMap EventId Bool :=
    edges.keys.foldl (fun m k => m.insert k (conflicted.contains k)) ∅
  let reaches ← Loop.run .outOfFuel (reachesRound edges) fuel initial
  return OrdSet.extend ∅ (edges.keys.filter fun id =>
    conflicted.contains id || (edges[id]?.getD []).any fun a => reaches[a]?.getD false)

/-! ## The power ordering -/

def isPowerEvent (event : E) : Bool :=
  if Event.eventType event = "m.room.power_levels" ∨ Event.eventType event = "m.room.join_rules" then
    Event.stateKey event = some ""
  else if Event.eventType event = "m.room.member" then
    match strProp (Event.content event) "membership" with
    | some membership =>
      (membership = "leave" ∨ membership = "ban") ∧ Event.stateKey event ≠ some (Event.sender event)
    | none => false
  else false

def defaultUserLevel (plContent : JsonObject) : Int :=
  ((plContent.lookup "users_default").bind Json.asInteger).getD 0

def userLevelIn (plContent : JsonObject) (user : UserId) : Int :=
  match objProp plContent "users" with
  | none => defaultUserLevel plContent
  | some users => ((users.lookup user).bind Json.asInteger).getD (defaultUserLevel plContent)

def firstPowerLevels (fetch : EventId → Option E) :
    List EventId → Except StateResError (Option (EventId × E))
  | [] => .ok none
  | id :: rest => do
    let auth ← require fetch id
    if Event.eventType auth = "m.room.power_levels" ∧ Event.stateKey auth = some "" then
      return some (id, auth)
    else firstPowerLevels fetch rest

def senderPowerAt (fetch : EventId → Option E) (version : RoomVersion) (event : E)
    (creators : OrdSet UserId) : Except StateResError PowerLevel :=
  if version.privilegedCreators && creators.contains (Event.sender event) then .ok .infinite
  else do
    match ← firstPowerLevels fetch (Event.authEvents event) with
    | some (_, auth) => return .int (userLevelIn (Event.content auth) (Event.sender event))
    | none => return .int (if creators.contains (Event.sender event) then 100 else 0)

/-- Greater power first, then the smaller timestamp, then the smaller id. -/
abbrev SortKey := (Nat × Int) × Nat × EventId

instance instTransOrdKeyed : Std.TransOrd (SortKey × EventId) := inferInstance

/-- The tables of Kahn's algorithm. -/
structure PowerTables where
  keys : OrdMap EventId SortKey
  /-- An event's ancestors inside the set that are not yet output. -/
  pending : OrdMap EventId (OrdSet EventId)
  dependents : OrdMap EventId (List EventId)

def tabulate (fetch : EventId → Option E) (fuel : Nat) (version : RoomVersion)
    (events : OrdSet EventId) (creators : OrdSet UserId) (acc : PowerTables × ChainCache)
    (id : EventId) : Except StateResError (PowerTables × ChainCache) := do
  let (tables, cache) := acc
  let event ← require fetch id
  let power ← senderPowerAt fetch version event creators
  let (chain, cache) ← authChain fetch fuel id cache
  let deps := chain.filter fun a => events.contains a
  let dependents := deps.toList.foldl (fun dependents d =>
    dependents.insert d (dependents[d]?.getD [] ++ [id])) tables.dependents
  return (⟨tables.keys.insert id (power.reverseKey, Event.originServerTs event, id),
    tables.pending.insert id deps, dependents⟩, cache)

/-- Kahn's algorithm in progress. -/
structure Kahn where
  ready : OrdSet (SortKey × EventId)
  pending : OrdMap EventId (OrdSet EventId)
  dependents : OrdMap EventId (List EventId)
  out : List EventId

/-- A dependency of `dependent` has been output. -/
def release (keys : OrdMap EventId SortKey) (id : EventId) (k : Kahn) (dependent : EventId) :
    Except StateResError Kahn :=
  match k.pending[dependent]?, keys[dependent]? with
  | some deps, some key =>
    let deps := deps.erase id
    .ok { k with
      pending := k.pending.insert dependent deps
      ready := if deps.isEmpty then k.ready.insert (key, dependent) else k.ready }
  | _, _ => .error .panic

def kahnRound (keys : OrdMap EventId SortKey) (k : Kahn) : Except StateResError (Kahn ⊕ List EventId) :=
  match k.ready.toList.head? with
  | none => .ok (.inr k.out)
  | some (key, id) => do
    let k' ← (k.dependents[id]?.getD []).foldlM (release keys id)
      { k with
        ready := k.ready.erase (key, id)
        dependents := k.dependents.erase id
        out := k.out ++ [id] }
    return .inl k'

/-- Kahn's algorithm, selecting the smallest candidate under the power ordering at each step. -/
def reverseTopologicalPowerOrder (fetch : EventId → Option E) (fuel : Nat) (version : RoomVersion)
    (events : OrdSet EventId) (creators : OrdSet UserId) (cache : ChainCache) :
    Except StateResError (List EventId) := do
  let (tables, _) ← events.toList.foldlM (tabulate fetch fuel version events creators)
    (⟨∅, ∅, ∅⟩, cache)
  let ready ← tables.pending.toList.foldlM (fun ready (id, deps) =>
    if deps.isEmpty then
      match tables.keys[id]? with
      | some key => .ok (ready.insert (key, id))
      | none => .error .panic
    else .ok ready) (∅ : OrdSet (SortKey × EventId))
  Loop.run .outOfFuel (kahnRound tables.keys) fuel ⟨ready, tables.pending, tables.dependents, []⟩

/-! ## Iterative auth checks -/

/-- The event that plays `key` for `event`: from the working state, else from the event's own auth
events (a version-12 create event: from the room id). -/
def effectiveEntry (ruma : Ruma) (fetch : EventId → Option E) (version : RoomVersion) (event : E)
    (state : StateIds) (key : Key) : Except StateResError (Option E) :=
  match state[key]? with
  | some existing => (require fetch existing).map some
  | none =>
    if key.1 = "m.room.create" ∧ version.roomIdIsCreateEventId then
      .ok ((Event.roomId event).bind fun roomId =>
        let createId := "$" ++ withoutSigil roomId
        if ruma.isEventId createId then fetch createId else none)
    else
      .ok ((Event.authEvents event).findSome? fun a =>
        (fetch a).filter fun authEvent => Event.key authEvent == key)

def neededKeys (version : RoomVersion) (event : E) : OrdSet Key :=
  (Auth.authTypesOf version event).insert createKey

/-- The working state as the auth rules see it for `event`. -/
def effectiveState (ruma : Ruma) (fetch : EventId → Option E) (version : RoomVersion) (event : E)
    (state : StateIds) : Except StateResError (OrdMap Key E) :=
  (neededKeys version event).toList.foldlM (fun effective key => do
    match ← effectiveEntry ruma fetch version event state key with
    | some e => return effective.insert key e
    | none => return effective) ∅

def iterativeAuthCheck (ruma : Ruma) (fetch : EventId → Option E) (version : RoomVersion)
    (state : StateIds) (id : EventId) : Except StateResError StateIds := do
  let event ← require fetch id
  let effective ← effectiveState ruma fetch version event state
  match Auth.checkStateDependent ruma version event fun t sk => effective[(t, sk)]? with
  | .ok () => return state.insert (Event.key event) id
  | .error _ => return state

def iterativeAuthChecks (ruma : Ruma) (fetch : EventId → Option E) (version : RoomVersion)
    (order : List EventId) (initial : StateIds) : Except StateResError StateIds :=
  order.foldlM (iterativeAuthCheck ruma fetch version) initial

/-! ## The mainline ordering -/

/-- `usize::MAX`. -/
def usizeMax : Nat := 2 ^ 64 - 1

def plInAuthEvents (fetch : EventId → Option E) (event : E) :
    Except StateResError (Option EventId) := do
  return (← firstPowerLevels fetch (Event.authEvents event)).map Prod.fst

/-- One step along the power-levels events. -/
def mainlineRound (fetch : EventId → Option E) : Option EventId × Nat × OrdMap EventId Nat →
      Except StateResError ((Option EventId × Nat × OrdMap EventId Nat) ⊕ OrdMap EventId Nat)
  | (none, _, mainline) => .ok (.inr mainline)
  | (some id, index, mainline) => do
    let event ← require fetch id
    let next ← plInAuthEvents fetch event
    return .inl (next, index + 1, mainline.insert id index)

/-- The mainline of a power-levels event: each next one is the power-levels event in the previous
one's auth events. -/
def buildMainline (fetch : EventId → Option E) (fuel : Nat) (start : Option EventId) :
    Except StateResError (OrdMap EventId Nat) :=
  Loop.run .outOfFuel (mainlineRound fetch) fuel (start, 0, ∅)

def positionRound (fetch : EventId → Option E) (mainline cache : OrdMap EventId Nat) :
    Option EventId × List EventId →
      Except StateResError ((Option EventId × List EventId) ⊕ (Nat × List EventId))
  | (none, walked) => .ok (.inr (usizeMax, walked))
  | (some id, walked) =>
    match mainline[id]? with
    | some i => .ok (.inr (i, walked))
    | none =>
      match cache[id]? with
      | some i => .ok (.inr (i, walked))
      | none => do
        let e ← require fetch id
        let next ← plInAuthEvents fetch e
        return .inl (next, walked ++ [id])

def mainlinePosition (fetch : EventId → Option E) (fuel : Nat) (mainline : OrdMap EventId Nat)
    (event : E) (cache : OrdMap EventId Nat) :
    Except StateResError (Nat × OrdMap EventId Nat) :=
  match cache[Event.eventId event]? with
  | some pos => .ok (pos, cache)
  | none => do
    let current ← plInAuthEvents fetch event
    let (pos, walked) ← Loop.run .outOfFuel (positionRound fetch mainline cache) fuel
      (current, [Event.eventId event])
    return (pos, walked.foldl (fun cache id => cache.insert id pos) cache)

/-- An event with its mainline position and timestamp. -/
abbrev Placed := Nat × Nat × EventId

/-- Greater mainline position first, then the smaller timestamp, then the smaller id. -/
def placedLe (a b : Placed) : Bool :=
  ((compare b.1 a.1).then ((compare a.2.1 b.2.1).then (compare a.2.2 b.2.2))).isLE

def placeAll (fetch : EventId → Option E) (fuel : Nat) (mainline : OrdMap EventId Nat)
    (remaining : List EventId) : Except StateResError (List Placed) := do
  let (ordered, _) ← remaining.foldlM (fun (ordered, cache) id => do
    let event ← require fetch id
    let (pos, cache) ← mainlinePosition fetch fuel mainline event cache
    return (ordered ++ [(pos, Event.originServerTs event, id)], cache))
    (([], ∅) : List Placed × OrdMap EventId Nat)
  return ordered

/-! ## Resolution -/

def powerSet (fetch : EventId → Option E) (fuel : Nat) (fullConflicted : OrdSet EventId)
    (cache : ChainCache) : Except StateResError (OrdSet EventId × ChainCache) :=
  fullConflicted.toList.foldlM (fun (powerSet, cache) id => do
    let event ← require fetch id
    if isPowerEvent event then
      let (chain, cache) ← authChain fetch fuel id cache
      return (OrdSet.extend (powerSet.insert id)
        (chain.toList.filter fun a => fullConflicted.contains a), cache)
    else return (powerSet, cache)) (∅, cache)

def fullConflictedSet (fetch : EventId → Option E) (fuel : Nat) (version : RoomVersion)
    (conflicted difference : OrdSet EventId) : Except StateResError (OrdSet EventId) := do
  let base := OrdSet.extend conflicted difference.toList
  match version.stateRes with
  | .v2_1 =>
    let subgraph ← conflictedSubgraph fetch fuel conflicted
    return OrdSet.extend base subgraph.toList
  | .v2 => return base

def resolveConflicted (ruma : Ruma) (fetch : EventId → Option E) (fuel : Nat)
    (version : RoomVersion) (unconflicted : StateIds) (fullConflicted : OrdSet EventId)
    (creators : OrdSet UserId) (cache : ChainCache) : Except StateResError StateIds := do
  let (powerSet, cache) ← powerSet fetch fuel fullConflicted cache
  let sortedPower ←
    reverseTopologicalPowerOrder fetch fuel version powerSet creators cache
  let initial : StateIds :=
    match version.stateRes with
    | .v2 => unconflicted
    | .v2_1 => ∅
  let partialState ← iterativeAuthChecks ruma fetch version sortedPower initial
  let remaining := fullConflicted.toList.filter fun id => !powerSet.contains id
  let mainline ← buildMainline fetch fuel partialState[plKey]?
  let ordered ← placeAll fetch fuel mainline remaining
  let sortedRemaining := (ordered.insertionSort fun a b => placedLe a b).map fun p => p.2.2
  let resolved ← iterativeAuthChecks ruma fetch version sortedRemaining partialState
  return unconflicted.toList.foldl (fun resolved (k, v) => resolved.insert k v) resolved

def createId (unconflicted : StateIds) (stateSets : List StateIds) : Except StateResError EventId :=
  match unconflicted[createKey]? with
  | some id => .ok id
  | none =>
    match stateSets.findSome? fun s => s[createKey]? with
    | some id => .ok id
    | none => .error .missingCreate

def resolve (ruma : Ruma) (version : RoomVersion) (fetch : EventId → Option E) (fuel : Nat)
    (stateSets : List StateIds) : Except StateResError StateIds :=
  if stateSets.isEmpty then .ok ∅
  else
    let (unconflicted, conflicted) := partition stateSets
    if conflicted.isEmpty then .ok unconflicted
    else do
      let (chains, cache) ← setChains fetch fuel stateSets
      let fullConflicted ←
        fullConflictedSet fetch fuel version conflicted (authDifference chains)
      let create ← require fetch (← createId unconflicted stateSets)
      resolveConflicted ruma fetch fuel version unconflicted fullConflicted
        (creators ruma version create) cache

end Saltator.StateRes
