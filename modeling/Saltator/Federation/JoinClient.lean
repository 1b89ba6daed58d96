import Saltator.Core.Event
import Saltator.Lib.Task

/-!
# The joining side of the handshakes

For a local user to join, leave or knock on a room that another server is a resident of, the resident
is asked for a template of the membership event, the template is completed and signed, and the event is
submitted to the resident. The template may be anything. What is checked of it is not the same in the
three handshakes, and in none of them is it the membership.
-/

namespace Saltator.Federation

open Saltator.Outcome

/-! ## The client and the signer -/

inductive OutboundError where
  | http (reason : String)
  | status (code : UInt16) (body : Json)
  | sign (reason : String)
  | encode (reason : String)
  | badMethod
  | tooLarge
  | ssrf (reason : String)

/-- `JoinError`, and `KnockError` with the same variants. -/
inductive JoinError where
  | transport (e : OutboundError)
  | malformed (reason : String)
  | unsupportedVersion (v : String)
  | sign (reason : String)

/-- A request to another server. -/
inductive Request where
  | get (destination path : String)
  | put (destination path : String) (body : Json)

/-- A handshake asks the resident, and goes on with its answers. -/
abbrev Handshake (ρ : Type) := Task Request (fun _ => Except OutboundError Json) JoinError ρ

structure Signer where
  ruma : Ruma
  /-- `hash_and_sign_event` -/
  sign : RoomVersion → JsonObject → Except String JsonObject
  /-- `now_ms` -/
  now : Nat

/-- A signature adds a hash and itself, and changes nothing else. -/
def Signer.Lawful (s : Signer) : Prop :=
  ∀ version raw signed, s.sign version raw = .ok signed →
    ∀ key, key ≠ "hashes" → key ≠ "signatures" → signed.lookup key = raw.lookup key

def insertMember (key : String) (v : Json) : JsonObject → JsonObject
  | [] => [(key, v)]
  | (k, w) :: rest =>
    if key = k then (key, v) :: rest
    else if key < k then (key, v) :: (k, w) :: rest
    else (k, w) :: insertMember key v rest

def hexDigit (n : Nat) : Char := "0123456789ABCDEF".toList.getD n '0'

def encodeSegment (s : String) : String :=
  String.ofList (s.toUTF8.toList.flatMap fun b =>
    let c := Char.ofNat b.toNat
    if c.isAlphanum || c ∈ ['-', '_', '.', '~'] then [c]
    else ['%', hexDigit (b.toNat / 16), hexDigit (b.toNat % 16)])

def verQuery : String := "ver=11&ver=12"

def makePath (endpoint : String) (room : RoomId) (user : UserId) : String :=
  "/_matrix/federation/v1/" ++ endpoint ++ "/" ++ encodeSegment room ++ "/" ++ encodeSegment user

def sendPath (endpoint : String) (room : RoomId) (eventId : EventId) : String :=
  "/_matrix/federation/" ++ endpoint ++ "/" ++ encodeSegment room ++ "/" ++ encodeSegment eventId

def members : Json → JsonObject
  | .object members => members
  | _ => []

/-! ## The handshakes -/

def templateOf (what : String) (make : Json) : Except JoinError (RoomVersion × JsonObject) :=
  match strProp (members make) "room_version" with
  | none => .error (.malformed (what ++ " without room_version"))
  | some v =>
    match RoomVersion.parse v with
    | none => .error (.unsupportedVersion v)
    | some version =>
      match objProp (members make) "event" with
      | none => .error (.malformed (what ++ " without event template"))
      | some template =>
        -- A number outside the range of canonical JSON has no canonical form.
        if Json.membersInRange template then .ok (version, template)
        else .error (.malformed "event template is not an object")

def expectStr (o : JsonObject) (key want : String) : Except JoinError Unit :=
  if strProp o key = some want then .ok () else .error (.malformed "template field mismatch")

def expectRoom (o : JsonObject) (room : RoomId) : Except JoinError Unit :=
  if strProp o "room_id" = some room then .ok ()
  else .error (.malformed "template room_id mismatch")

namespace Signer

variable (s : Signer)

/-- The server that sends the event owns its timestamp. -/
def stampOriginTs (o : JsonObject) : JsonObject :=
  let ts := (BitVec.ofNat 64 s.now).toInt
  insertMember "origin_server_ts" (.integer (if -(2 ^ 53) < ts ∧ ts < 2 ^ 53 then ts else 2 ^ 53 - 1)) o

def complete (version : RoomVersion) (event : JsonObject) :
    Except JoinError (RoomVersion × JsonObject × EventId) := do
  let event ← (s.sign version event).mapError .sign
  let id ← (s.ruma.eventId event version).mapError fun e =>
    .sign ("event id: " ++ match e with | .shape reason | .canonical reason => reason)
  return (version, event, id)

/-- The join to submit, from the answer to `make_join`. -/
def joinEvent (room : RoomId) (user : UserId) (make : Json) :
    Except JoinError (RoomVersion × JsonObject × EventId) := do
  let (version, join) ← templateOf "make_join" make
  expectStr join "type" "m.room.member"
  expectStr join "sender" user
  expectStr join "state_key" user
  expectRoom join room
  s.complete version (s.stampOriginTs join)

def leaveEvent (user : UserId) (make : Json) :
    Except JoinError (RoomVersion × JsonObject × EventId) := do
  let (version, leave) ← templateOf "make_leave" make
  expectStr leave "type" "m.room.member"
  expectStr leave "sender" user
  expectStr leave "state_key" user
  s.complete version (s.stampOriginTs leave)

def withReason (reason : Option String) (o : JsonObject) : JsonObject :=
  match reason, objProp o "content" with
  | some reason, some content =>
    insertMember "content" (.object (insertMember "reason" (.string reason) content)) o
  | _, _ => o

def knockEvent (room : RoomId) (user : UserId) (reason : Option String) (make : Json) :
    Except JoinError (RoomVersion × JsonObject × EventId) := do
  let (version, knock) ← templateOf "make_knock" make
  expectStr knock "type" "m.room.member"
  expectStr knock "sender" user
  expectStr knock "state_key" user
  expectRoom knock room
  s.complete version (withReason reason (s.stampOriginTs knock))

end Signer

def request (q : Request) : Handshake Json :=
  .ask q fun answer => .done (answer.mapError .transport)

structure JoinResponse where
  /-- Our membership event, co-signed by the resident. -/
  event : JsonObject
  state : List JsonObject
  authChain : List JsonObject
  roomVersion : RoomVersion

def asObject (v : Option Json) : Except JoinError JsonObject :=
  match v with
  | some (.object o) =>
    if Json.membersInRange o then .ok o
    else .error (.malformed "send_join response missing event")
  | _ => .error (.malformed "send_join response missing event")

def asObjectArray (v : Option Json) : List JsonObject :=
  match v with
  | some (.array items) => items.filterMap fun item => (asObject (some item)).toOption
  | _ => []

/-- The resident's copy of the event, or ours where it sent none. -/
def joinResponse (version : RoomVersion) (join : JsonObject) (resp : Json) :
    Except JoinError JoinResponse := do
  let event ← (match (members resp).lookup "event" with
    | some (.object o) => asObject (some (.object o))
    | _ => .ok join)
  return ⟨event, asObjectArray ((members resp).lookup "state"),
    asObjectArray ((members resp).lookup "auth_chain"), version⟩

def joinRemoteRoom (s : Signer) (destination : String) (room : RoomId) (user : UserId) :
    Handshake JoinResponse := do
  let make ← request (.get destination (makePath "make_join" room user ++ "?" ++ verQuery))
  let (version, join, id) ← Task.done (s.joinEvent room user make)
  let resp ← request (.put destination (sendPath "v2/send_join" room id) (.object join))
  .done (joinResponse version join resp)

def leaveRemoteRoom (s : Signer) (destination : String) (room : RoomId) (user : UserId) :
    Handshake Unit := do
  let make ← request (.get destination (makePath "make_leave" room user))
  let (_, leave, id) ← Task.done (s.leaveEvent user make)
  let _ ← request (.put destination (sendPath "v2/send_leave" room id) (.object leave))
  return ()

structure KnockResponse where
  knockRoomState : List Json
  event : JsonObject
  roomVersion : RoomVersion

def knockRemoteRoom (s : Signer) (destination : String) (room : RoomId) (user : UserId)
    (reason : Option String) : Handshake KnockResponse := do
  let make ← request (.get destination (makePath "make_knock" room user ++ "?" ++ verQuery))
  let (version, knock, id) ← Task.done (s.knockEvent room user reason make)
  let resp ← request (.put destination (sendPath "v1/send_knock" room id) (.object knock))
  return ⟨(((members resp).lookup "knock_room_state").bind Json.asArray).getD [], knock, version⟩

/-! ## What a handshake submits -/

def Request.submission : Request → Option JsonObject
  | .put _ _ (.object event) => some event
  | _ => none

/-- The events that a handshake signs and sends to the resident. -/
def submitted {ρ : Type} (answer : Request → Except OutboundError Json) (t : Handshake ρ) :
    List JsonObject :=
  (t.asked answer).filterMap Request.submission

def contentMembership (event : JsonObject) : Option String :=
  (objProp event "content").bind fun content => strProp content "membership"

structure AsksFor (room : RoomId) (user : UserId) (membership : String) (event : JsonObject) :
    Prop where
  type : strProp event "type" = some "m.room.member"
  sender : strProp event "sender" = some user
  stateKey : strProp event "state_key" = some user
  room : strProp event "room_id" = some room
  membership : contentMembership event = some membership

instance AsksFor.instDecidable (room : RoomId) (user : UserId) (membership : String)
    (event : JsonObject) : Decidable (AsksFor room user membership event) :=
  decidable_of_iff (strProp event "type" = some "m.room.member" ∧
      strProp event "sender" = some user ∧ strProp event "state_key" = some user ∧
      strProp event "room_id" = some room ∧ contentMembership event = some membership)
    ⟨fun h => ⟨h.1, h.2.1, h.2.2.1, h.2.2.2.1, h.2.2.2.2⟩,
      fun h => ⟨h.type, h.sender, h.stateKey, h.room, h.membership⟩⟩

/-- The checks that all three handshakes make of a template. -/
structure Named (user : UserId) (template : JsonObject) : Prop where
  type : strProp template "type" = some "m.room.member"
  sender : strProp template "sender" = some user
  stateKey : strProp template "state_key" = some user

def Signer.CanSign (s : Signer) (version : RoomVersion) (event : JsonObject) : Prop :=
  ∃ done, s.complete version event = .ok done

section Members

variable {key k : String} {v : Json} {o template event : JsonObject} {reason : Option String}

theorem lookup_insertMember : (insertMember key v o).lookup k = if k = key then some v else o.lookup k := by
  induction o with
  | nil =>
    by_cases h : k = key <;> simp [insertMember, h]
  | cons entry rest ih =>
    obtain ⟨k', w⟩ := entry
    unfold insertMember
    split
    · rename_i same
      subst same
      by_cases h : k = key <;> simp [h, List.lookup_cons, beq_false_of_ne]
    · split
      · by_cases h : k = key <;> simp [h, List.lookup_cons, beq_false_of_ne]
      · rename_i other _
        by_cases h : k = k'
        · subst h
          simp [Ne.symm other]
        · have differs : (k == k') = false := by simpa using h
          simp only [List.lookup_cons, differs, ih]

theorem lookup_insertMember_ne (ne : k ≠ key) : (insertMember key v o).lookup k = o.lookup k := by
  simp [lookup_insertMember, ne]

theorem contentMembership_congr (same : event.lookup "content" = template.lookup "content") :
    contentMembership event = contentMembership template := by
  simp [contentMembership, objProp, same]

theorem lookup_withReason (ne : k ≠ "content") : (Signer.withReason reason o).lookup k = o.lookup k := by
  unfold Signer.withReason
  split
  · exact lookup_insertMember_ne ne
  · rfl

theorem contentMembership_withReason :
    contentMembership (Signer.withReason reason o) = contentMembership o := by
  unfold Signer.withReason
  split
  · rename_i reason content found
    simp [contentMembership, objProp, lookup_insertMember, strProp] at found ⊢
    simp [found]
  · rfl

end Members

section Events

variable {s : Signer} {room : RoomId} {user : UserId} {reason : Option String} {make : Json}
  {version : RoomVersion} {template event : JsonObject}
  {result : RoomVersion × JsonObject × EventId}

theorem expectStr_eq_ok {key want : String} {u : Unit} :
    expectStr template key want = .ok u ↔ strProp template key = some want := by
  unfold expectStr
  split <;> simp_all

theorem expectRoom_eq_ok {u : Unit} :
    expectRoom template room = .ok u ↔ strProp template "room_id" = some room := by
  unfold expectRoom
  split <;> simp_all

theorem named_iff : Named user template ↔
    strProp template "type" = some "m.room.member" ∧ strProp template "sender" = some user ∧
      strProp template "state_key" = some user :=
  ⟨fun h => ⟨h.type, h.sender, h.stateKey⟩, fun h => ⟨h.1, h.2.1, h.2.2⟩⟩

namespace Signer

theorem joinEvent_eq_ok : s.joinEvent room user make = .ok result ↔
    ∃ version template, templateOf "make_join" make = .ok (version, template) ∧
      Named user template ∧ strProp template "room_id" = some room ∧
      s.complete version (s.stampOriginTs template) = .ok result := by
  simp [joinEvent, bind_eq_ok, expectStr_eq_ok, expectRoom_eq_ok, named_iff, and_assoc]

theorem leaveEvent_eq_ok : s.leaveEvent user make = .ok result ↔
    ∃ version template, templateOf "make_leave" make = .ok (version, template) ∧
      Named user template ∧ s.complete version (s.stampOriginTs template) = .ok result := by
  simp [leaveEvent, bind_eq_ok, expectStr_eq_ok, named_iff, and_assoc]

theorem knockEvent_eq_ok : s.knockEvent room user reason make = .ok result ↔
    ∃ version template, templateOf "make_knock" make = .ok (version, template) ∧
      Named user template ∧ strProp template "room_id" = some room ∧
      s.complete version (withReason reason (s.stampOriginTs template)) = .ok result := by
  simp [knockEvent, bind_eq_ok, expectStr_eq_ok, expectRoom_eq_ok, named_iff, and_assoc]

theorem Lawful.complete (lawful : s.Lawful)
    (completed : s.complete version event = .ok result) {key : String}
    (h : key ≠ "hashes") (h' : key ≠ "signatures") :
    result.2.1.lookup key = event.lookup key := by
  simp only [Signer.complete, bind_eq_ok, mapError_eq_ok, pure_eq_ok] at completed
  obtain ⟨signed, ran, id, -, rfl⟩ := completed
  exact lawful version event _ ran key h h'

end Signer

variable {membership : String}

theorem asksFor_congr (same : ∀ key ∈ ["type", "sender", "state_key", "room_id"],
      event.lookup key = template.lookup key)
    (content : contentMembership event = contentMembership template) :
    AsksFor room user membership event ↔ AsksFor room user membership template := by
  have type := strProp_congr (same "type" (by simp))
  have sender := strProp_congr (same "sender" (by simp))
  have stateKey := strProp_congr (same "state_key" (by simp))
  have roomId := strProp_congr (same "room_id" (by simp))
  constructor
  · intro h
    exact ⟨type ▸ h.type, sender ▸ h.sender, stateKey ▸ h.stateKey, roomId ▸ h.room, content ▸ h.membership⟩
  · intro h
    exact ⟨type ▸ h.type, sender ▸ h.sender, stateKey ▸ h.stateKey, roomId ▸ h.room, content ▸ h.membership⟩

theorem asksFor_completed (lawful : s.Lawful) (completed : s.complete version event = .ok result) :
    AsksFor room user membership result.2.1 ↔ AsksFor room user membership event := by
  refine asksFor_congr (fun key listed => ?_) (contentMembership_congr ?_)
  · simp only [List.mem_cons, List.not_mem_nil, or_false] at listed
    rcases listed with rfl | rfl | rfl | rfl <;> exact lawful.complete completed (by decide) (by decide)
  · exact lawful.complete completed (by decide) (by decide)

theorem asksFor_stampOriginTs :
    AsksFor room user membership (s.stampOriginTs event) ↔ AsksFor room user membership event := by
  refine asksFor_congr (fun key listed => lookup_insertMember_ne ?_)
    (contentMembership_congr (lookup_insertMember_ne (by decide)))
  rintro rfl
  simp at listed

theorem asksFor_withReason : AsksFor room user membership (Signer.withReason reason event) ↔
      AsksFor room user membership event := by
  refine asksFor_congr (fun key listed => lookup_withReason ?_) contentMembership_withReason
  rintro rfl
  simp at listed

theorem asksFor_iff (named : Named user event) : AsksFor room user membership event ↔
    strProp event "room_id" = some room ∧ contentMembership event = some membership :=
  ⟨fun h => ⟨h.room, h.membership⟩,
    fun h => ⟨named.type, named.sender, named.stateKey, h.1, h.2⟩⟩

end Events

section Submitted

variable {ρ : Type} {answer : Request → Except OutboundError Json} {event : JsonObject}
  {destination getPath : String}

theorem mem_submitted {make : Json → Except JoinError (RoomVersion × JsonObject × EventId)}
    {putPath : EventId → String}
    {last : RoomVersion × JsonObject × EventId → Json → Except JoinError ρ} :
    event ∈ submitted answer (request (.get destination getPath) >>= fun resp =>
        Task.done (make resp) >>= fun made =>
          request (.put destination (putPath made.2.2) (.object made.2.1)) >>= fun resp =>
            .done (last made resp)) ↔
      ∃ resp version id, answer (.get destination getPath) = .ok resp ∧
        make resp = .ok (version, event, id) := by
  cases answered : answer (.get destination getPath) with
  | error e =>
    simp [submitted, request, bind, Task.bind, answered, Except.mapError, Request.submission]
  | ok resp =>
    cases made : make resp with
    | error e =>
      simp [submitted, request, bind, Task.bind, answered, made, Except.mapError, Request.submission]
    | ok result =>
      obtain ⟨version, signed, id⟩ := result
      simp only [submitted, request, bind, Task.bind, Task.asked_ask, answered, Except.mapError, made]
      cases answer (.put destination (putPath id) (.object signed)) <;>
        simp [Task.bind, Request.submission, made, eq_comm]

end Submitted

/-! ## What is signed is what was asked for -/

variable (s : Signer) (answer : Request → Except OutboundError Json) (destination : String)
  (room : RoomId) (user : UserId) (reason : Option String)

/-- Every event submitted is the one the user asked for exactly where the resident's template, once it
has passed the checks of its handshake and can be signed, has the membership asked for, and in a leave
the room as well: none of the handshakes checks the one, and the leave not the other. -/
theorem submitted_asked_for_iff (lawful : s.Lawful) :
    ((∀ event ∈ submitted answer (joinRemoteRoom s destination room user), AsksFor room user "join" event) ↔
      ∀ make version template,
        answer (.get destination (makePath "make_join" room user ++ "?" ++ verQuery)) = .ok make →
        templateOf "make_join" make = .ok (version, template) →
        Named user template → strProp template "room_id" = some room →
        s.CanSign version (s.stampOriginTs template) →
        contentMembership template = some "join") ∧
    ((∀ event ∈ submitted answer (leaveRemoteRoom s destination room user),
        AsksFor room user "leave" event) ↔
      ∀ make version template,
        answer (.get destination (makePath "make_leave" room user)) = .ok make →
        templateOf "make_leave" make = .ok (version, template) → Named user template →
        s.CanSign version (s.stampOriginTs template) →
        strProp template "room_id" = some room ∧ contentMembership template = some "leave") ∧
    ((∀ event ∈ submitted answer (knockRemoteRoom s destination room user reason),
        AsksFor room user "knock" event) ↔
      ∀ make version template,
        answer (.get destination (makePath "make_knock" room user ++ "?" ++ verQuery)) = .ok make →
        templateOf "make_knock" make = .ok (version, template) →
        Named user template → strProp template "room_id" = some room →
        s.CanSign version (Signer.withReason reason (s.stampOriginTs template)) →
        contentMembership template = some "knock") := by
  refine ⟨⟨?_, ?_⟩, ⟨?_, ?_⟩, ⟨?_, ?_⟩⟩
  · rintro asked make version template answered parsed named inRoom ⟨result, completed⟩
    have made := Signer.joinEvent_eq_ok.2 ⟨version, template, parsed, named, inRoom, completed⟩
    have h := asked _ (mem_submitted.2 ⟨make, result.1, result.2.2, answered, made⟩)
    rw [asksFor_completed lawful completed, asksFor_stampOriginTs] at h
    exact h.membership
  · intro right event sent
    obtain ⟨make, version, id, answered, made⟩ := mem_submitted.1 sent
    obtain ⟨v, template, parsed, named, inRoom, completed⟩ := Signer.joinEvent_eq_ok.1 made
    have membership := right make v template answered parsed named inRoom ⟨_, completed⟩
    exact (asksFor_completed lawful completed).2
      (asksFor_stampOriginTs.2 ((asksFor_iff named).2 ⟨inRoom, membership⟩))
  · rintro asked make version template answered parsed named ⟨result, completed⟩
    have made := Signer.leaveEvent_eq_ok.2 ⟨version, template, parsed, named, completed⟩
    have h := asked _ (mem_submitted.2 ⟨make, result.1, result.2.2, answered, made⟩)
    rw [asksFor_completed lawful completed, asksFor_stampOriginTs] at h
    exact ⟨h.room, h.membership⟩
  · intro right event sent
    obtain ⟨make, version, id, answered, made⟩ := mem_submitted.1 sent
    obtain ⟨v, template, parsed, named, completed⟩ := Signer.leaveEvent_eq_ok.1 made
    have fields := right make v template answered parsed named ⟨_, completed⟩
    exact (asksFor_completed lawful completed).2 (asksFor_stampOriginTs.2 ((asksFor_iff named).2 fields))
  · rintro asked make version template answered parsed named inRoom ⟨result, completed⟩
    have made := Signer.knockEvent_eq_ok.2 ⟨version, template, parsed, named, inRoom, completed⟩
    have h := asked _ (mem_submitted.2 ⟨make, result.1, result.2.2, answered, made⟩)
    rw [asksFor_completed lawful completed, asksFor_withReason, asksFor_stampOriginTs] at h
    exact h.membership
  · intro right event sent
    obtain ⟨make, version, id, answered, made⟩ := mem_submitted.1 sent
    obtain ⟨v, template, parsed, named, inRoom, completed⟩ := Signer.knockEvent_eq_ok.1 made
    have membership := right make v template answered parsed named inRoom ⟨_, completed⟩
    exact (asksFor_completed lawful completed).2
      (asksFor_withReason.2 (asksFor_stampOriginTs.2 ((asksFor_iff named).2 ⟨inRoom, membership⟩)))

def Signer.sample : Signer where
  ruma := Ruma.sample
  sign _ raw := .ok (insertMember "signatures" (.object [("x", .object [])])
    (insertMember "hashes" (.object [("sha256", .string "h")]) raw))
  now := 1

theorem Signer.sample_lawful : Signer.sample.Lawful := by
  intro version raw signed completed key h h'
  cases completed
  exact (lookup_insertMember_ne h').trans (lookup_insertMember_ne h)

def sampleMake (room : RoomId) (membership : String) : Json :=
  .object [("room_version", .string "11"), ("event", .object
    [("content", .object [("membership", .string membership)]), ("room_id", .string room),
      ("sender", .string "@a:x"), ("state_key", .string "@a:x"), ("type", .string "m.room.member")])]

theorem submitted_asked_for_sample : submitted (fun _ => .ok (sampleMake "!r:y" "join"))
      (joinRemoteRoom Signer.sample "y" "!r:y" "@a:x") ≠ [] ∧
    ∀ event ∈ submitted (fun _ => .ok (sampleMake "!r:y" "join"))
      (joinRemoteRoom Signer.sample "y" "!r:y" "@a:x"), AsksFor "!r:y" "@a:x" "join" event := by
  refine ⟨?_, (submitted_asked_for_iff Signer.sample (fun _ => .ok (sampleMake "!r:y" "join")) "y" "!r:y"
    "@a:x" none Signer.sample_lawful).1.2 ?_⟩
  · have sent : (submitted (fun _ => .ok (sampleMake "!r:y" "join"))
        (joinRemoteRoom Signer.sample "y" "!r:y" "@a:x")).length = 1 := by
      decide +kernel
    intro none
    simp [none] at sent
  rintro _ version template ⟨⟩ parsed - - -
  have offered : (templateOf "make_join" (sampleMake "!r:y" "join")).toOption.any
      (fun t => contentMembership t.2 = some "join") = true := by
    decide +kernel
  rw [parsed] at offered
  simpa [Except.toOption] using offered

/-- A user who rejects an invite signs a join of another room, and one who joins a room signs to leave
it, where the resident has put that in the template. -/
theorem unasked_submitted : (∃ event ∈ submitted (fun _ => .ok (sampleMake "!s:z" "join"))
        (leaveRemoteRoom Signer.sample "y" "!r:y" "@a:x"),
      AsksFor "!s:z" "@a:x" "join" event ∧ ¬ AsksFor "!r:y" "@a:x" "leave" event) ∧
    ∃ event ∈ submitted (fun _ => .ok (sampleMake "!r:y" "leave"))
        (joinRemoteRoom Signer.sample "y" "!r:y" "@a:x"),
      AsksFor "!r:y" "@a:x" "leave" event ∧ ¬ AsksFor "!r:y" "@a:x" "join" event := by
  have leaves : (submitted (fun _ => .ok (sampleMake "!s:z" "join"))
      (leaveRemoteRoom Signer.sample "y" "!r:y" "@a:x")).any (fun event =>
        decide (AsksFor "!s:z" "@a:x" "join" event ∧ ¬ AsksFor "!r:y" "@a:x" "leave" event)) =
      true := by
    decide +kernel
  have joins : (submitted (fun _ => .ok (sampleMake "!r:y" "leave"))
      (joinRemoteRoom Signer.sample "y" "!r:y" "@a:x")).any (fun event =>
        decide (AsksFor "!r:y" "@a:x" "leave" event ∧ ¬ AsksFor "!r:y" "@a:x" "join" event)) =
      true := by
    decide +kernel
  obtain ⟨left, sent, asked⟩ := List.any_eq_true.1 leaves
  obtain ⟨joined, sent', asked'⟩ := List.any_eq_true.1 joins
  exact ⟨⟨left, sent, of_decide_eq_true asked⟩, joined, sent', of_decide_eq_true asked'⟩

end Saltator.Federation
