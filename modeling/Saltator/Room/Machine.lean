import Saltator.Room.Store

/-!
# The room state machine

A deterministic interpreter for precomputed commands. Reads see what the same command has already
written, except the range read behind the transaction prune, which sees the engine as it was when
the write batch began (`engine`).
-/

namespace Saltator.Room.Machine

open Std

/-! ## Receipts -/

def applyReceipt (s : Store) (cmd : ReceiptCmd) : Store × RoomResponse :=
  let key := (cmd.roomId, cmd.userId, cmd.receiptType, cmd.threadId.getD "")
  -- Acknowledging the same event again is a no-op.
  if s.receipt[key]?.any (fun r => r.eventId = cmd.eventId) then (s, .receipt 0)
  else
    let (s, seq) := s.emit (.receipt cmd.roomId)
    ({ s with
        timeline := s.timeline.insert seq
          (.receipt cmd.roomId cmd.userId cmd.receiptType cmd.eventId cmd.ts)
        receipt := s.receipt.insert key ⟨cmd.eventId, cmd.threadId, cmd.ts, seq⟩ },
      .receipt seq)

/-! ## Append -/

def putRedact (table : OrdMap EventId String) (directive : String) (redactorId : EventId) :
    OrdMap EventId String :=
  match RedactDirective.decode directive with
  | .applies target => table.insert target (RedactDirective.applies redactorId).encode
  | .pending id mayRedact =>
    -- One that can only turn out to be the target's own sender displaces nothing.
    if !mayRedact && table.contains id then table
    else table.insert id (RedactDirective.pending redactorId mayRedact).encode

def redactTable (s : Store) (cmd : AppendEvent) : OrdMap EventId String :=
  match cmd.redacts with
  | some directive => putRedact s.redact directive cmd.eventId
  | none => s.redact

def rejectedRecord (cmd : AppendEvent) (rejected : Rejected) : StoredEvent where
  raw := cmd.raw
  seq := 0
  stateGroupAfter := cmd.stateGroupAfter
  depth := cmd.depth
  rejected := some rejected
  historyIdx := none
  imported := false
  relay := false

def acceptedRecord (cmd : AppendEvent) (seq : Nat) : StoredEvent where
  raw := cmd.raw
  seq := seq
  stateGroupAfter := cmd.stateGroupAfter
  depth := cmd.depth
  rejected := none
  historyIdx := none
  imported := false
  relay := cmd.relay

def applyRejected (s : Store) (cmd : AppendEvent) (rejected : Rejected) : Store :=
  let s := { s with event := s.event.insert cmd.eventId (rejectedRecord cmd rejected) }
  let s := s.putGroups cmd.roomId cmd.newGroups
  match s.room[cmd.roomId]? with
  | none => s
  | some roomMeta =>
    if cmd.nextGroup > roomMeta.nextGroup then
      s.putMeta cmd.roomId { roomMeta with nextGroup := cmd.nextGroup }
    else s

def acceptedMeta (s : Store) (cmd : AppendEvent) : Except StoreError RoomMeta :=
  match cmd.createVersion with
  | some version => .ok
      { version, createEventId := cmd.eventId, currentGroup := cmd.newCurrentGroup,
        nextGroup := cmd.nextGroup, extremities := cmd.newExtremities, historyFrontier := [],
        nextHistoryIdx := 1, gapMarkers := [] }
  | none =>
    match s.room[cmd.roomId]? with
    | none => .error (.engine ("append to unknown room " ++ cmd.roomId ++ " (non-create)"))
    | some roomMeta => .ok
        { roomMeta with
          currentGroup := cmd.newCurrentGroup
          nextGroup := cmd.nextGroup
          extremities := cmd.newExtremities }

def applyAccepted (s : Store) (cmd : AppendEvent) : Except StoreError (Store × Nat) := do
  let (s, seq) := s.putTimeline cmd.roomId cmd.eventId (acceptedRecord cmd)
  let s := { s with redact := redactTable s cmd }
  let s := s.putGroups cmd.roomId cmd.newGroups
  let roomMeta ← acceptedMeta s cmd
  return (s.putMeta cmd.roomId roomMeta, seq)

def applyAppend (s : Store) (cmd : AppendEvent) : Except StoreError (Store × RoomResponse) :=
  -- Applying a persisted event again is a no-op.
  if s.event.contains cmd.eventId then .ok (s, .duplicate cmd.eventId)
  else
    match cmd.rejected with
    | some rejected => .ok (applyRejected s cmd rejected, .rejected cmd.eventId rejected.reason)
    | none => do
      let (s, seq) ← applyAccepted s cmd
      return (s, .accepted cmd.eventId seq)

/-! ## Client transactions -/

/-- How long a client transaction stays deduplicated. -/
def txnHorizonMs : Nat := 24 * 60 * 60 * 1000

def txnKey (userId : UserId) (deviceId scope txnId : String) : TxnKey :=
  userId ++ "\x00" ++ deviceId ++ "\x00" ++ scope ++ "\x00" ++ txnId

def dropTxn (s : Store) (entry : Nat × TxnKey) : Store :=
  let s := { s with txnIdx := s.txnIdx.erase entry }
  let s :=
    match s.txn[entry.2]? with
    | some stale => { s with txnEcho := s.txnEcho.erase stale }
    | none => s
  { s with txn := s.txn.erase entry.2 }

/-- Record a transaction and the event it produced, and prune past the horizon. -/
def putTxn (engine s : Store) (txn : TxnStamp) (eventId : EventId) : Store :=
  let key := txnKey txn.userId txn.deviceId txn.scope txn.txnId
  let s := { s with
    txn := s.txn.insert key eventId
    txnIdx := s.txnIdx.insert (txn.ts, key) ()
    txnEcho := s.txnEcho.insert eventId (txn.userId, txn.deviceId, txn.txnId) }
  let cutoff := txn.ts - txnHorizonMs
  (engine.txnIdx.keys.filter fun k => k.1 < cutoff).foldl dropTxn s

def applyAppendStamped (engine s : Store) (cmd : AppendEvent) (txn : TxnStamp) :
    Except StoreError (Store × RoomResponse) := do
  let (s, response) ← applyAppend s cmd
  -- Only an event that landed earns a record.
  match response with
  | .accepted eventId _ => return (putTxn engine s txn eventId, response)
  | _ => return (s, response)

/-! ## Import of a room -/

def importGroup (s : Store) (cmd : ImportRoom) : Nat :=
  (s.room[cmd.roomId]?.map RoomMeta.nextGroup).getD 1

def joinRecord (cmd : ImportRoom) (group seq : Nat) : StoredEvent where
  raw := cmd.joinRaw
  seq := seq
  stateGroupAfter := group
  depth := cmd.joinDepth
  rejected := none
  historyIdx := none
  imported := true
  relay := false

def importRows (s : Store) (cmd : ImportRoom) : Store × Nat :=
  let group := importGroup s cmd
  let s := s.putSupport cmd.events
  let s := s.putGroups cmd.roomId [(group, ⟨none, 0, cmd.state⟩)]
  s.putTimeline cmd.roomId cmd.joinEventId (joinRecord cmd group)

def importMeta (s rows : Store) (cmd : ImportRoom) : RoomMeta :=
  let existing := s.room[cmd.roomId]?
  let group := importGroup s cmd
  let held : OrdSet EventId := OrdSet.extend ∅ ((existing.map RoomMeta.historyFrontier).getD [])
  -- An already visible event needs no backfill.
  let frontier := OrdSet.extend held (cmd.historyFrontier.filter fun id => !rows.visible id)
  { version := cmd.version, createEventId := cmd.createEventId, currentGroup := group,
    nextGroup := group + 1, extremities := [cmd.joinEventId],
    historyFrontier := frontier.toList,
    nextHistoryIdx := (existing.map RoomMeta.nextHistoryIdx).getD 1,
    gapMarkers := (existing.map RoomMeta.gapMarkers).getD [] }

def applyImport (s : Store) (cmd : ImportRoom) : Store × RoomResponse :=
  -- Applying the same join again is a no-op; a fresh join into a known room is a re-import, whose
  -- state dump supersedes what is held.
  if s.room[cmd.roomId]?.isSome && s.onTimeline cmd.joinEventId then (s, .duplicate cmd.joinEventId)
  else
    let (rows, seq) := importRows s cmd
    (rows.putMeta cmd.roomId (importMeta s rows cmd), .accepted cmd.joinEventId seq)

/-! ## Import of a segment -/

def maxGapMarkers : Nat := 1024

/-- The timeline loop: the store, how many events joined, the first position and the last id. -/
structure SegmentRun where
  store : Store
  appended : Nat
  firstSeq : Option Nat
  lastId : Option EventId

def chainRecord (ev : ImportEvent) (group seq : Nat) : StoredEvent where
  raw := ev.raw
  seq := seq
  stateGroupAfter := group
  depth := ev.depth
  rejected := none
  historyIdx := none
  imported := false
  relay := false

def segmentEvent (room : RoomId) (groupId : Nat) (r : SegmentRun) (ev : ImportEvent) : SegmentRun :=
  if r.store.onTimeline ev.eventId then r
  else
    let (s, seq) := r.store.putTimeline room ev.eventId (chainRecord ev groupId)
    ⟨s, r.appended + 1, r.firstSeq.or (some seq), some ev.eventId⟩

def addFrontier (s : Store) (frontier : List EventId) (ids : List EventId) : List EventId :=
  ids.foldl (fun frontier id =>
    if !s.visible id && !frontier.contains id then frontier ++ [id] else frontier) frontier

def pushMarker (markers : List Nat) (first : Nat) : List Nat :=
  let markers := markers ++ [first]
  markers.drop (markers.length - maxGapMarkers)

/-- Supporting events, the anchor snapshot, and the recovered chain. -/
def segmentRows (s : Store) (roomMeta : RoomMeta) (cmd : ImportSegment) : SegmentRun :=
  let group := roomMeta.nextGroup
  let s := s.putSupport cmd.events
  let s := s.putGroups cmd.roomId [(group, ⟨none, 0, cmd.state⟩)]
  cmd.timeline.foldl (segmentEvent cmd.roomId group) ⟨s, 0, none, none⟩

def pushExtremity (extremities : List EventId) (last : Option EventId) : List EventId :=
  match last with
  | some last => if extremities.contains last then extremities else extremities ++ [last]
  | none => extremities

def segmentMeta (roomMeta : RoomMeta) (r : SegmentRun) (cmd : ImportSegment) : RoomMeta :=
  { roomMeta with
    nextGroup := roomMeta.nextGroup + 1
    gapMarkers :=
      match r.firstSeq with
      | some first => pushMarker roomMeta.gapMarkers first
      | none => roomMeta.gapMarkers
    extremities := pushExtremity roomMeta.extremities r.lastId
    historyFrontier := addFrontier r.store roomMeta.historyFrontier cmd.frontierAdd }

def applyImportSegment (s : Store) (cmd : ImportSegment) : Except StoreError (Store × RoomResponse) :=
  match s.room[cmd.roomId]? with
  | none => .error (.engine ("segment import to unknown room " ++ cmd.roomId))
  | some roomMeta =>
    let r := segmentRows s roomMeta cmd
    .ok (r.store.putMeta cmd.roomId (segmentMeta roomMeta r cmd), .segment r.appended)

/-! ## Import of history -/

/-- The indexing loop: the store, the next index, the ids made visible and the prevs met. -/
structure HistoryRun where
  store : Store
  idx : Nat
  batchIds : OrdSet EventId
  newPrevs : List EventId
  indexed : Nat

def historyEvent (ev : ImportEvent) (idx : Nat) : StoredEvent where
  raw := ev.raw
  seq := 0
  stateGroupAfter := 0
  depth := ev.depth
  rejected := none
  historyIdx := some idx
  imported := true
  relay := false

def indexEvent (room : RoomId) (r : HistoryRun) (id : EventId) (stored : StoredEvent) : HistoryRun :=
  { store := { r.store with
      event := r.store.event.insert id stored
      history := r.store.history.insert (room, r.idx) id }
    idx := r.idx + 1
    batchIds := r.batchIds.insert id
    newPrevs := r.newPrevs ++ prevEventIds stored.raw
    indexed := r.indexed + 1 }

def historyStep (room : RoomId) (r : HistoryRun) (ev : ImportEvent) : HistoryRun :=
  match r.store.event[ev.eventId]? with
  | some held =>
    -- Already on the timeline or in the history: nothing to do.
    if held.visible then { r with batchIds := r.batchIds.insert ev.eventId }
    -- Held off the timeline: it joins the history and keeps its body.
    else indexEvent room r ev.eventId { held with historyIdx := some r.idx }
  | none => indexEvent room r ev.eventId (historyEvent ev r.idx)

def historyRows (s : Store) (roomMeta : RoomMeta) (cmd : ImportHistory) : HistoryRun :=
  cmd.events.foldl (historyStep cmd.roomId) ⟨s, roomMeta.nextHistoryIdx, ∅, [], 0⟩

def stillMissing (roomMeta : RoomMeta) (r : HistoryRun) : List EventId :=
  let frontier : OrdSet EventId :=
    OrdSet.extend (OrdSet.extend ∅ roomMeta.historyFrontier) r.newPrevs
  frontier.toList.filter fun id => !r.batchIds.contains id && !r.store.visible id

def applyImportHistory (s : Store) (cmd : ImportHistory) : Except StoreError (Store × RoomResponse) :=
  match s.room[cmd.roomId]? with
  | none => .error (.engine ("history import to unknown room " ++ cmd.roomId))
  | some roomMeta =>
    let r := historyRows s roomMeta cmd
    let missing := stillMissing roomMeta r
    .ok (r.store.putMeta cmd.roomId
      { roomMeta with historyFrontier := missing, nextHistoryIdx := r.idx },
      .history r.indexed missing.isEmpty)

/-! ## The interpreter -/

def apply (engine s : Store) : RoomCommand → Except StoreError (Store × RoomResponse)
  | .append cmd => applyAppend s cmd
  | .receipt cmd => .ok (applyReceipt s cmd)
  | .importRoom cmd => .ok (applyImport s cmd)
  | .importHistory cmd => applyImportHistory s cmd
  | .importSegment cmd => applyImportSegment s cmd
  | .appendStamped cmd txn => applyAppendStamped engine s cmd txn

end Saltator.Room.Machine
