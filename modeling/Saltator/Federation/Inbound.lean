import Saltator.Core.Acl
import Saltator.Federation.Backfill
import Saltator.Federation.Destinations
import Saltator.Room.Hosted
import Saltator.User.Machine

/-!
# Inbound PDUs

The PDUs of a transaction go through the room pipeline one by one, after the room's access control list
was asked about the server that sends them. A PDU of a room that is not hosted may still take back an
invite that one of our users has. Nothing about such a PDU has been verified, so the invite may be taken
back by anyone (`rescission_authentic_iff`).
-/

namespace Saltator.Federation

open Std
open Room (Store RoomError Heal Node EventFetcher Unhosted)
open Saltator.Stateful
open User (JsonValue MembershipEntry)

/-! ## Values -/

mutual

/-- `CanonicalJsonValue::try_from`: a number has to be an integer in the range of canonical JSON. -/
def canonicalValue : JsonValue → Option Json
  | .null => some .null
  | .bool b => some (.bool b)
  | .number n =>
    match n.asI64 with
    | some i => if -(2 ^ 53) < i ∧ i < 2 ^ 53 then some (.integer i) else none
    | none => none
  | .string s => some (.string s)
  | .array items => (canonicalItems items).map .array
  | .object members => (canonicalMembers members).map .object

def canonicalItems : List JsonValue → Option (List Json)
  | [] => some []
  | item :: items => do return (← canonicalValue item) :: (← canonicalItems items)

def canonicalMembers : List (String × JsonValue) → Option JsonObject
  | [] => some []
  | member :: members => do return (← canonicalMember member) :: (← canonicalMembers members)

def canonicalMember : String × JsonValue → Option (String × Json)
  | (key, value) => (canonicalValue value).map fun value => (key, value)

end

def canonicalObject (v : JsonValue) : Option JsonObject :=
  match canonicalValue v with
  | some (.object raw) => some raw
  | _ => none

/-! ## Access control -/

section Acl

variable (s : Store) (fuel : Nat) (room : RoomId)

/-- The room's current `m.room.server_acl`, if any is set. -/
def serverAcl : Except RoomError (Option ServerAcl) :=
  match s.room[room]? with
  | none => .ok none
  | some roomMeta => do
    let current ← Room.Pipeline.ofStore (s.resolveGroup fuel room roomMeta.currentGroup)
    match (current[("m.room.server_acl", "")]?).bind fun id => s.event[id]? with
    | none => return none
    | some stored => return (objProp stored.raw "content").map ServerAcl.fromContent

def serverAclDenies (server : String) : Bool :=
  match serverAcl s fuel room with
  | .ok (some acl) => !acl.isAllowed server
  | _ => false

end Acl

/-! ## The server -/

/-- What of the server does not change: its room shards, its user shard, if it has one, and the
transport. -/
structure InboundServer (σ : Type) where
  serverName : String
  ruma : Ruma
  sign : RoomVersion → JsonObject → Except String JsonObject
  txnRecords : Bool
  digest : RoomId → UInt64
  count : UInt16
  users : Bool
  fetcher : EventFetcher σ
  fuel : Nat

/-- The shards, with the keys that each trusts, and the remote servers. -/
structure Inbound (σ : Type) where
  rooms : UInt16 → Store
  keys : UInt16 → PublicKeyMap
  users : User.Store
  remote : σ

/-- What goes wrong when an invite is taken back: the invite cannot be read, or the user shard does not
act on the command, or acts on it and does not answer. -/
inductive LeaveFault where
  | read
  | lost
  | unanswered
  deriving DecidableEq

/-- The result of a PDU that was not processed. -/
inductive PduError where
  | refused (error : String)
  /-- The text of the room server's error. -/
  | failed (e : RoomError)

/-- One PDU of a transaction: the state in which it is processed, and what goes wrong meanwhile. -/
structure PduStep (σ : Type) where
  before : Inbound σ
  pdu : JsonValue
  fault : Option LeaveFault

def pduRoomId (ruma : Ruma) (raw : JsonObject) : Option RoomId :=
  match raw.lookup "room_id" with
  | some (.string room) => some room
  | _ =>
    if Room.Pipeline.createShaped raw then do
      let content ← objProp raw "content"
      let version ← (strProp content "room_version").bind RoomVersion.parse
      if version.roomIdIsCreateEventId then (ruma.roomIdForCreate raw version).toOption else none
    else none

namespace InboundServer

variable {σ : Type} (st : InboundServer σ)

def shard (room : RoomId) : UInt16 := shardOf st.digest room st.count

def node (w : Inbound σ) (idx : UInt16) : Node σ where
  server := ⟨st.ruma, w.keys idx, st.sign, st.txnRecords⟩
  store := w.rooms idx
  remote := w.remote
  proposals := []

def onShard {α : Type} (idx : UInt16) (m : Heal σ α) : StateM (Inbound σ) α := fun w =>
  let (a, n) := m (st.node w idx)
  (a, { w with
    rooms := Function.update w.rooms idx n.store
    keys := Function.update w.keys idx n.server.keys
    remote := n.remote })

def trustAll (request : StateM (PublicKeyMap × σ) Unit) : StateM (Inbound σ) Unit :=
  (List.range st.count.toNat).forM fun idx => st.onShard idx.toUInt16 (Heal.trust request)

/-- Take an invite of one of our users back, for a room that is not hosted. The event's fields are read
as they came. -/
def applyOutOfBandLeave (raw : JsonObject) (fault : Option LeaveFault) (users : User.Store) :
    Bool × User.Store :=
  if !st.users then (false, users)
  else if strProp raw "type" ≠ some "m.room.member" then (false, users)
  else if (objProp raw "content").bind (strProp · "membership") ∉ [some "leave", some "ban"] then
    (false, users)
  else
    match strProp raw "state_key", strProp raw "room_id" with
    | some target, some room =>
      if serverOf st.ruma target ≠ some st.serverName then (false, users)
      else if fault = some .read then (false, users)
      else
        match (users.membership[(target, room)]?).filter fun entry => entry.membership = "invite" with
        | none => (false, users)
        | some entry =>
          if strProp raw "sender" ≠ some entry.sender then (false, users)
          else if fault = some .lost then (false, users)
          else (fault.isNone, (User.Machine.recordRemoteLeave users target room).1)
    | _, _ => (false, users)

/-- `outcome_result`: a rejected event is a processed event. -/
def outcomeResult : Room.Outcome → EventId
  | .accepted id _ | .duplicate id | .rejected id _ => id

def processPdu (origin : String) (pdu : JsonValue) (fault : Option LeaveFault) :
    StateM (Inbound σ) (Option EventId × Except PduError Unit) := fun w =>
  match canonicalObject pdu with
  | none => ((none, .error (.refused "PDU is not a JSON object")), w)
  | some raw =>
    match pduRoomId st.ruma raw with
    | none => ((none, .error (.refused "PDU names no room")), w)
    | some room =>
      let idx := st.shard room
      let precomputed := (st.node w idx).pduEventId raw
      if (strProp raw "room_id").any fun room =>
          serverAclDenies (w.rooms (st.shard room)) st.fuel room origin then
        ((precomputed, .error (.refused "denied by server ACL")), w)
      else
        match st.onShard idx (Room.ingestPduHealing st.fetcher st.fuel origin raw) w with
        | (.ok outcome, w) => ((some (outcomeResult outcome), .ok ()), w)
        | (.error (.missingEvents _), w) =>
          ((precomputed, .error (.refused "missing prev events")), w)
        | (.error (.unknownRoom _), w) =>
          let (done, users) := st.applyOutOfBandLeave raw fault w.users
          ((precomputed, if done then .ok () else .error (.refused "unknown room")), { w with users })
        | (.error e, w) => ((precomputed, .error (.failed e)), w)

def maxPdus : Nat := 50

/-- PDUs one after another, each with what goes wrong in the user shard meanwhile. -/
def processPdus (origin : String) (pdus : List (JsonValue × Option LeaveFault)) :
    StateM (Inbound σ) (OrdMap EventId (Except PduError Unit)) :=
  pdus.foldlM (fun results pdu => do
    match ← st.processPdu origin pdu.1 pdu.2 with
    | (some id, result) => return results.insert id result
    | (none, _) => return results) ∅

def trustAuthors (origin : String) (pdus : List JsonValue) : StateM (Inbound σ) Unit :=
  if pdus.isEmpty then return ()
  else do
    st.trustAll (st.fetcher.trustOriginKeys origin)
    st.trustAll (st.fetcher.trustEventServers (pdus.filterMap canonicalObject))

def ingestTransaction (origin : String) (pdus : List (JsonValue × Option LeaveFault)) :
    StateM (Inbound σ) (OrdMap EventId (Except PduError Unit)) := do
  st.trustAuthors origin (pdus.map Prod.fst)
  st.processPdus origin (pdus.take maxPdus)

/-! ## Rescinded invites -/

def after (origin : String) (step : PduStep σ) : Inbound σ :=
  (st.processPdu origin step.pdu step.fault step.before).2

def pduSteps (origin : String) : List (JsonValue × Option LeaveFault) → Inbound σ → List (PduStep σ)
  | [], _ => []
  | pdu :: pdus, w =>
    ⟨w, pdu.1, pdu.2⟩ :: pduSteps origin pdus (st.after origin ⟨w, pdu.1, pdu.2⟩)

def transactionSteps (origin : String) (pdus : List (JsonValue × Option LeaveFault))
    (w : Inbound σ) : List (PduStep σ) :=
  st.pduSteps origin (pdus.take maxPdus) (st.trustAuthors origin (pdus.map Prod.fst) w).2

/-- The PDU takes back an invite that a user of ours has, as far as the code looks at it: it is a leave
or a ban of the invited user, and it claims to be from the user who sent the invite. -/
structure Rescission (users : User.Store) (raw : JsonObject) (target : UserId) (room : RoomId)
    (entry : MembershipEntry) : Prop where
  member : strProp raw "type" = some "m.room.member"
  removes : (objProp raw "content").bind (strProp · "membership") ∈ [some "leave", some "ban"]
  addressed : strProp raw "state_key" = some target
  named : strProp raw "room_id" = some room
  ours : serverOf st.ruma target = some st.serverName
  pending : users.membership[(target, room)]? = some entry
  invited : entry.membership = "invite"
  inviter : strProp raw "sender" = some entry.sender

/-- The rescission gets through to the user shard, if there is one. -/
def Reaches (fault : Option LeaveFault) : Prop :=
  st.users = true ∧ fault ≠ some .read ∧ fault ≠ some .lost

section Leave

variable {st} {users : User.Store} {raw : JsonObject} {target : UserId} {room : RoomId}
  {entry : MembershipEntry} {fault : Option LeaveFault}

theorem applyOutOfBandLeave_rescinds (h : st.Rescission users raw target room entry)
    (reaches : st.Reaches fault) : (st.applyOutOfBandLeave raw fault users).2 =
      (User.Machine.recordRemoteLeave users target room).1 := by
  obtain ⟨wired, readable, sent⟩ := reaches
  have pending : (users.membership[(target, room)]?).filter (fun entry => entry.membership = "invite") =
      some entry := by
    rw [h.pending, Option.filter_some, if_pos (by simpa using h.invited)]
  unfold applyOutOfBandLeave
  rw [if_neg (by simp [wired]), if_neg (not_not.2 h.member), if_neg (not_not.2 h.removes), h.addressed,
    h.named]
  dsimp only
  rw [if_neg (not_not.2 h.ours), if_neg readable, pending]
  dsimp only
  rw [if_neg (not_not.2 h.inviter), if_neg sent]

theorem applyOutOfBandLeave_other
    (h : (st.applyOutOfBandLeave raw fault users).2 ≠ users) :
    st.Reaches fault ∧ ∃ target room entry, st.Rescission users raw target room entry := by
  unfold applyOutOfBandLeave at h
  split at h
  · exact absurd rfl h
  rename_i wired
  split at h
  · exact absurd rfl h
  rename_i member
  split at h
  · exact absurd rfl h
  rename_i removes
  split at h
  · rename_i target room isTarget named
    split at h
    · exact absurd rfl h
    rename_i ours
    split at h
    · exact absurd rfl h
    rename_i readable
    split at h
    · exact absurd rfl h
    rename_i entry pending
    split at h
    · exact absurd rfl h
    rename_i inviter
    split at h
    · exact absurd rfl h
    rename_i sent
    obtain ⟨pending, invited⟩ := Option.filter_eq_some_iff.1 pending
    exact ⟨⟨by simpa using wired, readable, sent⟩, target, room, entry, not_not.1 member,
      not_not.1 removes, isTarget, named, not_not.1 ours, pending, by simpa using invited,
      not_not.1 inviter⟩
  · exact absurd rfl h

theorem recordRemoteLeave_membership (users : User.Store) (target : UserId) (room : RoomId) :
    (User.Machine.recordRemoteLeave users target room).1.membership =
      users.membership.insert (target, room) ⟨"leave", "", target, 0, users.seq + 1, false⟩ := by
  unfold User.Machine.recordRemoteLeave User.Store.emitUserChange
  dsimp only
  split <;> rfl

end Leave

/-- The code acts on the PDU: it is a rescission, in a room that is not hosted. -/
structure Rescinds (step : PduStep σ) (raw : JsonObject) (target : UserId) (room : RoomId)
    (entry : MembershipEntry) : Prop where
  parsed : canonicalObject step.pdu = some raw
  unhosted : Unhosted st.ruma (step.before.rooms (st.shard room)) raw room
  rescission : st.Rescission step.before.users raw target room entry
  reaches : st.Reaches step.fault

structure Ends (origin : String) (step : PduStep σ) (target : UserId) (room : RoomId)
    (entry : MembershipEntry) : Prop where
  pending : step.before.users.membership[(target, room)]? = some entry
  invited : entry.membership = "invite"
  left : ((st.after origin step).users.membership[(target, room)]?).any fun entry =>
    entry.membership = "leave"

section Step

variable {st} {origin : String} {step : PduStep σ} {raw : JsonObject} {target : UserId} {room : RoomId}
  {entry : MembershipEntry}

theorem pduRoomId_named {ruma : Ruma} (named : strProp raw "room_id" = some room) :
    pduRoomId ruma raw = some room := by
  obtain ⟨v, held, text⟩ := Option.bind_eq_some_iff.1 named
  cases v <;> cases text
  unfold pduRoomId
  rw [held]

theorem serverAclDenies_absent {s : Store} {fuel : Nat} (absent : s.room[room]? = none)
    (server : String) : serverAclDenies s fuel room server = false := by
  unfold serverAclDenies serverAcl
  rw [absent]

theorem after_unhosted (parsed : canonicalObject step.pdu = some raw)
    (unhosted : Unhosted st.ruma (step.before.rooms (st.shard room)) raw room) :
    (st.after origin step).users = (st.applyOutOfBandLeave raw step.fault step.before.users).2 := by
  have allowed : serverAclDenies (step.before.rooms (st.shard room)) st.fuel room origin = false :=
    serverAclDenies_absent unhosted.absent origin
  have unknown : (st.onShard (st.shard room) (Room.ingestPduHealing st.fetcher st.fuel origin raw)
      step.before).1 = .error (.unknownRoom room) :=
    (Room.healing_unknownRoom st.fetcher origin (st.node step.before (st.shard room))).1.2 unhosted
  unfold after processPdu
  rw [parsed]
  dsimp only
  rw [pduRoomId_named unhosted.named]
  dsimp only
  rw [unhosted.named, Option.any_some, allowed, if_neg Bool.false_ne_true]
  rcases answered : st.onShard (st.shard room)
    (Room.ingestPduHealing st.fetcher st.fuel origin raw) step.before with ⟨result, w⟩
  rw [answered] at unknown
  subst unknown
  have same : step.before.users = w.users := congrArg (Inbound.users ∘ Prod.snd) answered
  dsimp only
  rw [same]

theorem after_hosted (h : (st.after origin step).users ≠ step.before.users) :
    ∃ raw room, canonicalObject step.pdu = some raw ∧
      Unhosted st.ruma (step.before.rooms (st.shard room)) raw room := by
  by_contra other
  refine h ?_
  unfold after processPdu
  split
  · rfl
  rename_i raw parsed
  split
  · rfl
  rename_i room routed
  dsimp only
  split
  · rfl
  have same : (st.onShard (st.shard room) (Room.ingestPduHealing st.fetcher st.fuel origin raw)
      step.before).2.users = step.before.users := rfl
  split <;> rename_i answered <;> rw [answered] at same <;> try exact same
  rename_i room' _
  have unknown : (Room.ingestPduHealing st.fetcher st.fuel origin raw
      (st.node step.before (st.shard room))).1 = .error (.unknownRoom room') :=
    congrArg Prod.fst answered
  have unhosted := (Room.healing_unknownRoom st.fetcher origin _).1.1 unknown
  obtain rfl := some_unique (pduRoomId_named unhosted.named) routed
  exact absurd ⟨raw, room', parsed, unhosted⟩ other

theorem ends_iff : st.Ends origin step target room entry ↔
    ∃ raw, st.Rescinds step raw target room entry := by
  constructor
  · intro h
    have changed : (st.after origin step).users ≠ step.before.users := by
      intro same
      have left := h.left
      rw [same, h.pending, Option.any_some, h.invited] at left
      exact absurd left (by decide)
    obtain ⟨raw, room', parsed, unhosted⟩ := after_hosted changed
    rw [after_unhosted parsed unhosted] at changed
    obtain ⟨reaches, target', room'', entry', rescission⟩ := applyOutOfBandLeave_other changed
    obtain rfl := some_unique unhosted.named rescission.named
    have left := h.left
    rw [after_unhosted parsed unhosted, applyOutOfBandLeave_rescinds rescission reaches,
      recordRemoteLeave_membership, OrdMap.getElem?_insert'] at left
    split at left
    · rename_i same
      obtain ⟨rfl, rfl⟩ := Prod.mk.inj same
      obtain rfl := some_unique h.pending rescission.pending
      exact ⟨raw, parsed, unhosted, rescission, reaches⟩
    · rw [h.pending, Option.any_some, h.invited] at left
      exact absurd left (by decide)
  · rintro ⟨raw, h⟩
    refine ⟨h.rescission.pending, h.rescission.invited, ?_⟩
    rw [after_unhosted h.parsed h.unhosted, applyOutOfBandLeave_rescinds h.rescission h.reaches,
      recordRemoteLeave_membership, OrdMap.getElem?_insert', if_pos rfl]
    rfl

end Step

/-- The sender's server sent the transaction, or signed the PDU: it is signed as an event of some room
version, by the keys that the room's shard trusts. -/
def Authentic (origin : String) (step : PduStep σ) (raw : JsonObject) (room : RoomId) : Prop :=
  (strProp raw "sender").bind (serverOf st.ruma) = some origin ∨ ∃ version outcome,
      st.ruma.verifyEvent (step.before.keys (st.shard room)) raw version = .ok outcome

/-- The invites that the PDU ends are ended by their senders. -/
def Founded (origin : String) (step : PduStep σ) : Prop :=
  ∀ target room entry, st.Ends origin step target room entry →
    ∃ raw, canonicalObject step.pdu = some raw ∧ strProp raw "sender" = some entry.sender ∧
      st.Authentic origin step raw room

/-- The code acts on the PDU, though it is not from the server that it claims to be from. -/
def Forged (origin : String) (step : PduStep σ) : Prop :=
  ∃ raw target room entry, st.Rescinds step raw target room entry ∧ ¬ st.Authentic origin step raw room

theorem founded_iff {origin : String} {step : PduStep σ} :
    st.Founded origin step ↔ ¬ st.Forged origin step := by
  constructor
  · rintro founded ⟨raw, target, room, entry, rescinds, forged⟩
    obtain ⟨raw', parsed, -, authentic⟩ := founded target room entry (ends_iff.2 ⟨raw, rescinds⟩)
    obtain rfl := some_unique parsed rescinds.parsed
    exact forged authentic
  · intro genuine target room entry ends
    obtain ⟨raw, rescinds⟩ := ends_iff.1 ends
    refine ⟨raw, rescinds.parsed, rescinds.rescission.inviter, ?_⟩
    by_contra forged
    exact genuine ⟨raw, target, room, entry, rescinds, forged⟩

/-- A transaction takes invites back for their senders only, if none of its PDUs is forged. The code
itself asks neither for the server nor for the signature. -/
theorem rescission_authentic_iff (origin : String) (pdus : List (JsonValue × Option LeaveFault))
    (w : Inbound σ) :
    (∀ step ∈ st.transactionSteps origin pdus w, st.Founded origin step) ↔
      ∀ step ∈ st.transactionSteps origin pdus w, ¬ st.Forged origin step :=
  forall₂_congr fun _ _ => st.founded_iff

end InboundServer

/-! ### A forged rescission -/

def sampleInboundServer : InboundServer Unit where
  serverName := "x"
  ruma := Ruma.sample
  sign _ raw := .ok raw
  txnRecords := false
  digest _ := 0
  count := 1
  users := true
  fetcher := Room.sampleFetcher []
  fuel := 9

def sampleInvited : Inbound Unit where
  rooms _ := Store.empty
  keys _ := ∅
  users := (User.Machine.recordRemoteInvite User.Store.empty "@a:x" "!r:y" "@b:y" "$i" []).1
  remote := ()

def sampleRescission : JsonValue :=
  .object [("content", .object [("membership", .string "leave")]), ("room_id", .string "!r:y"),
    ("sender", .string "@b:y"), ("state_key", .string "@a:x"), ("type", .string "m.room.member")]

def sampleRescissionRaw : JsonObject :=
  [("content", .object [("membership", .string "leave")]), ("room_id", .string "!r:y"),
    ("sender", .string "@b:y"), ("state_key", .string "@a:x"), ("type", .string "m.room.member")]

/-- `z` takes the invite back in the name of `@b:y`, without a signature. -/
theorem rescission_forged : ¬ ∀ step ∈ sampleInboundServer.transactionSteps "z"
    [(sampleRescission, none)] sampleInvited, sampleInboundServer.Founded "z" step := by
  intro founded
  let step : PduStep Unit := ⟨(sampleInboundServer.trustAuthors "z" [sampleRescission] sampleInvited).2,
    sampleRescission, none⟩
  have rescinds : sampleInboundServer.Rescinds step sampleRescissionRaw "@a:x" "!r:y"
      ⟨"invite", "$i", "@b:y", 0, 1, false⟩ := by
    refine ⟨rfl, ⟨?_, ?_, ?_, ?_, ?_⟩, ⟨?_, ?_, ?_, ?_, ?_, ?_, ?_, ?_⟩, rfl, ?_, ?_⟩
    all_goals decide +kernel
  refine (sampleInboundServer.founded_iff.1 (founded step (List.mem_singleton.2 rfl)))
    ⟨_, _, _, _, rescinds, ?_⟩
  rintro (same | ⟨version, outcome, signed⟩)
  · exact absurd same (by decide +kernel)
  · exact absurd (Ruma.sample_signatures signed) (by decide)

/-! ### Routing -/

section Routing

open Room.Pipeline (createShaped createRoomId classify classifyCreate classify_cases roomIdOf_eq_ok)
open Outcome (bind_eq_ok pure_eq_ok mapError_eq_ok)
open InboundServer (pduRoomId_named)

variable {ruma : Ruma} {s : Store} {raw : JsonObject} {version : RoomVersion} {room : RoomId}
  {isCreate : Bool} {pdu : Pdu}

theorem classify_version (classified : classify ruma s raw = .ok (version, room, isCreate))
    (create : createShaped raw = true) : ∃ content, objProp raw "content" = some content ∧
      (strProp content "room_version").bind RoomVersion.parse = some version := by
  rw [classify, bind_eq_ok] at classified
  obtain ⟨_, _, classified⟩ := classified
  rw [if_pos create, bind_eq_ok] at classified
  obtain ⟨⟨version', room'⟩, named, same⟩ := classified
  obtain ⟨rfl, -⟩ := ok_pair same
  unfold classifyCreate at named
  split at named
  · cases named
  next content held =>
    split at named
    · cases named
    next v text =>
      obtain ⟨parsed, reads, rest⟩ := bind_eq_ok.1 named
      obtain ⟨_, _, same⟩ := bind_eq_ok.1 rest
      obtain ⟨rfl, -⟩ := ok_pair same
      exact ⟨content, held, by rw [text]; exact Room.Pipeline.parseVersion_eq_ok.1 reads⟩

theorem pduRoomId_create (nameless : strProp raw "room_id" = none) (create : createShaped raw = true)
    {content : JsonObject} (held : objProp raw "content" = some content)
    (reads : (strProp content "room_version").bind RoomVersion.parse = some version)
    (founds : version.roomIdIsCreateEventId = true)
    (named : ruma.roomIdForCreate raw version = .ok room) : pduRoomId ruma raw = some room := by
  unfold pduRoomId
  split
  · next text => simp [strProp, text, Json.asStr] at nameless
  · rw [if_pos create, held, Option.bind_eq_bind, Option.bind_some, reads]
    simp [founds, named]

theorem pduRoomId_of_valid (classified : classify ruma s raw = .ok (version, room, isCreate))
    (valid : validatePdu ruma raw version = .ok pdu) : pduRoomId ruma raw = some room := by
  obtain ⟨create, -, founds⟩ | ⟨-, -, named, -⟩ := classify_cases classified
  · by_cases after : version.roomIdIsCreateEventId = true
    · obtain ⟨parsed, checked⟩ := validatePdu_eq_ok valid
      have views := Pdu.fromCanonical_views parsed
      have isCreate : pdu.isCreate = true := by
        simp only [createShaped, Bool.and_eq_true, beq_iff_eq] at create
        have type := some_unique views.eventType create.1
        simp [Pdu.isCreate, type, views.stateKey, create.2]
      have nameless := roomId_of_checkPdu checked
      rw [after, isCreate, views.roomId] at nameless
      obtain ⟨content, held, reads⟩ := classify_version classified create
      rw [createRoomId, if_pos after, Room.Pipeline.ofFormat, mapError_eq_ok] at founds
      exact pduRoomId_create (by simpa using nameless) create held reads after founds
    · rw [createRoomId, if_neg after] at founds
      exact pduRoomId_named (roomIdOf_eq_ok founds)
  · exact pduRoomId_named named

/-- What is classified and valid is routed to the room that it is of, in every room version, so it
changes no shard but the one that owns the room. -/
theorem InboundServer.routed_to_owner {σ : Type} {st : InboundServer σ}
    (classified : classify st.ruma s raw = .ok (version, room, isCreate))
    (valid : validatePdu st.ruma raw version = .ok pdu) :
    pduRoomId st.ruma raw = some room ∧
    ∀ sent, canonicalObject sent = some raw → ∀ origin fault w idx, idx ≠ st.shard room →
      (st.processPdu origin sent fault w).2.rooms idx = w.rooms idx := by
  have routed := pduRoomId_of_valid classified valid
  refine ⟨routed, fun sent parsed origin fault w idx other => ?_⟩
  unfold processPdu
  rw [parsed]
  dsimp only
  rw [routed]
  dsimp only
  split
  · rfl
  have same : (st.onShard (st.shard room) (Room.ingestPduHealing st.fetcher st.fuel origin raw)
      w).2.rooms idx = w.rooms idx := Function.update_of_ne other ..
  split <;> rename_i answered <;> rw [answered] at same <;> exact same

def sampleFounding : JsonObject :=
  [("auth_events", .array []), ("content", .object [("room_version", .string "12")]),
    ("depth", .integer 1), ("hashes", .object [("sha256", .string "r")]),
    ("origin_server_ts", .integer 1), ("prev_events", .array []), ("sender", .string "@b:y"),
    ("signatures", .object [("y", .object [("ed25519:1", .string "s")])]), ("state_key", .string ""),
    ("type", .string "m.room.create")]

theorem InboundServer.routed_to_owner_create : ∃ pdu,
    validatePdu Ruma.sample sampleFounding .v12 = .ok pdu ∧
      pduRoomId Ruma.sample sampleFounding = some "!r" := by
  have accepted : (validatePdu Ruma.sample sampleFounding .v12).toOption.isSome = true := by
    decide +kernel
  obtain ⟨pdu, valid⟩ := Option.isSome_iff_exists.1 accepted
  have classified : classify sampleInboundServer.ruma Store.empty sampleFounding =
    .ok (.v12, "!r", true) := by decide +kernel
  exact ⟨pdu, Outcome.toOption_eq_some.1 valid,
    (routed_to_owner classified (Outcome.toOption_eq_some.1 valid)).1⟩

end Routing

end Saltator.Federation
