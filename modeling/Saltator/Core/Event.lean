import Saltator.Core.Json
import Saltator.Core.RoomVersion

/-!
# Events

`Ruma` collects what the server takes from its identifier, hashing and signature library; the model
is parametric in it. `Event` is the view of an event that the auth rules and state resolution work
on, `Pdu` the typed form parsed out of the raw canonical object, and `IdentifiedPdu` a `Pdu` paired
with its event id.
-/

namespace Saltator

abbrev EventId := String
abbrev RoomId := String
abbrev UserId := String

abbrev PublicKeyMap := OrdMap String (OrdMap String String)

/-- Which parts of an event a signature check vouched for. -/
inductive Verified where
  | all
  | signatures
  deriving DecidableEq

/-- The external library: identifier grammars, reference hashes, redaction, signatures and the
canonical text form. -/
structure Ruma where
  isUserId : String → Bool
  isRoomId : String → Bool
  isEventId : String → Bool
  isServerName : String → Bool
  /-- Reference hash of a raw event, URL-safe unpadded base64. -/
  referenceHash : RoomVersion → JsonObject → Except String String
  verifyEvent : PublicKeyMap → JsonObject → RoomVersion → Except String Verified
  redact : RoomVersion → JsonObject → Except String JsonObject
  /-- The canonical text of an object. -/
  toText : JsonObject → Except String String
  /-- The text of an object that signatures are made over. -/
  signingText : JsonObject → Except String String
  base64 : String → Option (List UInt8)
  /-- Ed25519 verification of a message under a key. -/
  ed25519 : List UInt8 → List UInt8 → String → Bool

namespace Ruma

def userServerName (user : UserId) : String := (afterColon user).getD ""

def roomServerName (ruma : Ruma) (room : RoomId) : Option String :=
  (afterColon room).filter ruma.isServerName

end Ruma

/-- What the auth rules and state resolution need to know about an event. -/
class Event (E : Type) where
  eventId : E → EventId
  /-- `none` only for create events of rooms named after them. -/
  roomId : E → Option RoomId
  sender : E → UserId
  eventType : E → String
  stateKey : E → Option String
  content : E → JsonObject
  originServerTs : E → Nat
  authEvents : E → List EventId
  prevEvents : E → List EventId

namespace Event

variable {E : Type} [Event E]

def isState (e : E) : Bool := (stateKey e).isSome

/-- `(type, state_key)`, with the empty key for an event without one. -/
def key (e : E) : String × String := (eventType e, (stateKey e).getD "")

end Event

/-- Typed view of the federation event format. -/
structure Pdu where
  roomId : Option RoomId
  sender : UserId
  originServerTs : Nat
  eventType : String
  stateKey : Option String
  content : JsonObject
  authEvents : List EventId
  prevEvents : List EventId
  depth : Nat
  /-- The `sha256` of the `hashes` property. -/
  hashes : Option String
  signatures : JsonObject
  unsigned : Option JsonObject

inductive EventFormatError where
  | shape (reason : String)
  | canonical (reason : String)
  deriving DecidableEq, Repr

/-! ## Reading typed fields out of a raw object -/

namespace Field

def shapeError {α : Type} (key : String) : Except EventFormatError α :=
  .error (.shape ("invalid or missing field " ++ key))

/-- A required string that satisfies `ok`. -/
def str (raw : JsonObject) (key : String) (ok : String → Bool) : Except EventFormatError String :=
  match raw.lookup key with
  | some (.string s) => if ok s then .ok s else shapeError key
  | _ => shapeError key

/-- An optional string: an absent or null member is `none`. -/
def optStr (raw : JsonObject) (key : String) (ok : String → Bool) :
    Except EventFormatError (Option String) :=
  match raw.lookup key with
  | none | some .null => .ok none
  | some (.string s) => if ok s then .ok (some s) else shapeError key
  | some _ => shapeError key

/-- A non-negative integer inside the canonical JSON range. -/
def uint (raw : JsonObject) (key : String) : Except EventFormatError Nat :=
  match raw.lookup key with
  | some (.integer i) => if 0 ≤ i ∧ i < 2 ^ 53 then .ok i.toNat else shapeError key
  | _ => shapeError key

def object (raw : JsonObject) (key : String) : Except EventFormatError JsonObject :=
  match raw.lookup key with
  | some (.object o) => .ok o
  | _ => shapeError key

/-- An array of strings that all satisfy `ok`. -/
def ids (raw : JsonObject) (key : String) (ok : String → Bool) : Except EventFormatError (List String) :=
  match raw.lookup key with
  | some (.array items) => items.mapM fun item =>
      match item with
      | .string s => if ok s then .ok s else shapeError key
      | _ => shapeError key
  | _ => shapeError key

/-- The optional `hashes`, read down to its `sha256`. -/
def hashes (raw : JsonObject) : Except EventFormatError (Option String) :=
  match raw.lookup "hashes" with
  | none | some .null => .ok none
  | some (.object o) => (str o "sha256" fun _ => true).map some
  | some _ => shapeError "hashes"

/-- The `signatures`, empty when absent. -/
def signatures (raw : JsonObject) : Except EventFormatError JsonObject :=
  match raw.lookup "signatures" with
  | none => .ok []
  | some (.object o) => .ok o
  | some _ => shapeError "signatures"

/-- The optional `unsigned`. -/
def unsigned (raw : JsonObject) : Except EventFormatError (Option JsonObject) :=
  match raw.lookup "unsigned" with
  | none | some .null => .ok none
  | some (.object o) => .ok (some o)
  | some _ => shapeError "unsigned"

variable {ok : String → Bool} {raw : JsonObject}

theorem str_eq {key v : String} (h : str raw key ok = .ok v) : strProp raw key = some v := by
  unfold str at h
  split at h
  · rename_i s hk
    split at h
    · simpa [strProp, hk, Json.asStr] using h
    · simp [shapeError] at h
  · simp [shapeError] at h

variable {key : String}

theorem optStr_eq {v : Option String} (h : optStr raw key ok = .ok v) : v = strProp raw key := by
  unfold optStr at h
  split at h
  · rename_i hk
    simpa [strProp, hk] using h.symm
  · rename_i hk
    simpa [strProp, hk, Json.asStr] using h.symm
  · rename_i s hk
    split at h
    · simpa [strProp, hk, Json.asStr] using h.symm
    · simp [shapeError] at h
  · simp [shapeError] at h

theorem ids_eq_ok {l : List String} : ids raw key ok = .ok l ↔
      raw.lookup key = some (.array (l.map Json.string)) ∧ ∀ id ∈ l, ok id = true := by
  unfold ids
  cases hk : raw.lookup key with
  | none => simp [shapeError]
  | some v =>
    cases v with
    | array items =>
      simp only [Option.some.injEq, Json.array.injEq]
      clear hk
      induction items generalizing l with
      | nil => cases l <;> simp [pure, Except.pure]
      | cons item items ih =>
        simp only [List.mapM_cons, Outcome.bind_eq_ok, Outcome.pure_eq_ok, ih]
        constructor
        · rintro ⟨s, hs, rest, ⟨rfl, valid⟩, rfl⟩
          split at hs
          · split at hs
            · rename_i hok
              obtain rfl := Except.ok.inj hs
              exact ⟨rfl, List.forall_mem_cons.2 ⟨hok, valid⟩⟩
            · simp [shapeError] at hs
          · simp [shapeError] at hs
        · rintro ⟨same, valid⟩
          cases l with
          | nil => simp at same
          | cons id l =>
            obtain ⟨rfl, rfl⟩ := List.cons.inj same
            obtain ⟨hok, valid⟩ := List.forall_mem_cons.1 valid
            exact ⟨id, if_pos hok, l, ⟨rfl, valid⟩, rfl⟩
    | _ => simp [shapeError]

theorem ids_eq {l : List String} (h : ids raw key ok = .ok l) : l = idList raw key := by
  obtain ⟨hk, -⟩ := ids_eq_ok.1 h
  rw [idList, hk]
  simp [Function.comp_def, Json.asStr]

end Field

namespace Pdu

/-- Parse the typed view out of a raw event. Unknown members are dropped. -/
def fromCanonical (ruma : Ruma) (raw : JsonObject) : Except EventFormatError Pdu := do
  let roomId ← Field.optStr raw "room_id" ruma.isRoomId
  let sender ← Field.str raw "sender" ruma.isUserId
  let originServerTs ← Field.uint raw "origin_server_ts"
  let eventType ← Field.str raw "type" fun _ => true
  let stateKey ← Field.optStr raw "state_key" fun _ => true
  let content ← Field.object raw "content"
  let authEvents ← Field.ids raw "auth_events" ruma.isEventId
  let prevEvents ← Field.ids raw "prev_events" ruma.isEventId
  let depth ← Field.uint raw "depth"
  let hashes ← Field.hashes raw
  let signatures ← Field.signatures raw
  let unsigned ← Field.unsigned raw
  return { roomId, sender, originServerTs, eventType, stateKey, content, authEvents, prevEvents,
           depth, hashes, signatures, unsigned }

/-- The typed view agrees with the accessors on the raw event. -/
structure Views (raw : JsonObject) (pdu : Pdu) : Prop where
  roomId : pdu.roomId = strProp raw "room_id"
  sender : strProp raw "sender" = some pdu.sender
  eventType : strProp raw "type" = some pdu.eventType
  stateKey : pdu.stateKey = strProp raw "state_key"
  authEvents : pdu.authEvents = authEventIds raw
  prevEvents : pdu.prevEvents = prevEventIds raw

theorem fromCanonical_views {ruma : Ruma} {raw : JsonObject} {pdu : Pdu}
    (h : fromCanonical ruma raw = .ok pdu) : Views raw pdu := by
  simp only [fromCanonical, Outcome.bind_eq_ok, Outcome.pure_eq_ok] at h
  obtain ⟨roomId, hroom, sender, hsender, _, _, eventType, htype, stateKey, hkey, _, _, auth, hauth,
    prev, hprev, _, _, _, _, _, _, _, _, rfl⟩ := h
  exact ⟨Field.optStr_eq hroom, Field.str_eq hsender, Field.str_eq htype, Field.optStr_eq hkey,
    Field.ids_eq hauth, Field.ids_eq hprev⟩

theorem fromCanonical_cites {ruma : Ruma} {raw : JsonObject} {pdu : Pdu}
    (h : fromCanonical ruma raw = .ok pdu) : ∀ id ∈ pdu.authEvents, ruma.isEventId id = true := by
  simp only [fromCanonical, Outcome.bind_eq_ok, Outcome.pure_eq_ok] at h
  obtain ⟨_, _, _, _, _, _, _, _, _, _, _, _, auth, hauth, _, _, _, _, _, _, _, _, _, _, rfl⟩ := h
  exact (Field.ids_eq_ok.1 hauth).2

end Pdu

/-- A `Pdu` paired with its computed event id. -/
structure IdentifiedPdu where
  eventId : EventId
  pdu : Pdu

instance : Event IdentifiedPdu where
  eventId e := e.eventId
  roomId e := e.pdu.roomId
  sender e := e.pdu.sender
  eventType e := e.pdu.eventType
  stateKey e := e.pdu.stateKey
  content e := e.pdu.content
  originServerTs e := e.pdu.originServerTs
  authEvents e := e.pdu.authEvents
  prevEvents e := e.pdu.prevEvents

namespace Ruma

variable (ruma : Ruma)

/-- `event_id`: the reference hash with the `$` sigil. -/
def eventId (raw : JsonObject) (version : RoomVersion) : Except EventFormatError EventId :=
  match ruma.referenceHash version raw with
  | .error e => .error (.canonical e)
  | .ok hash =>
    if ruma.isEventId ("$" ++ hash) then .ok ("$" ++ hash)
    else .error (.shape "reference hash not a valid event ID")

/-- `room_id_for_create`: the create event's reference hash with the `!` sigil. -/
def roomIdForCreate (createRaw : JsonObject) (version : RoomVersion) : Except EventFormatError RoomId :=
  match ruma.referenceHash version createRaw with
  | .error e => .error (.canonical e)
  | .ok hash =>
    if ruma.isRoomId ("!" ++ hash) then .ok ("!" ++ hash)
    else .error (.shape "reference hash not a valid room ID")

variable {ruma} {version : RoomVersion} {raw : JsonObject}

theorem eventId_eq_ok {id : EventId} : ruma.eventId raw version = .ok id ↔
      ∃ hash, ruma.referenceHash version raw = .ok hash ∧ id = "$" ++ hash ∧ ruma.isEventId id := by
  unfold eventId
  split
  · simp_all
  · rename_i hash hh
    split
    · rename_i valid
      simp only [hh, Except.ok.injEq, exists_eq_left']
      exact ⟨fun h => ⟨h.symm, h ▸ valid⟩, fun h => h.1.symm⟩
    · simp_all

theorem roomIdForCreate_eq_ok {id : RoomId} : ruma.roomIdForCreate raw version = .ok id ↔
      ∃ hash, ruma.referenceHash version raw = .ok hash ∧ id = "!" ++ hash ∧ ruma.isRoomId id := by
  unfold roomIdForCreate
  split
  · simp_all
  · rename_i hash hh
    split
    · rename_i valid
      simp only [hh, Except.ok.injEq, exists_eq_left']
      exact ⟨fun h => ⟨h.symm, h ▸ valid⟩, fun h => h.1.symm⟩
    · simp_all

end Ruma

def protectedMembers : List String :=
  ["type", "room_id", "sender", "state_key", "prev_events", "auth_events"]

/-- What the room server relies on in the external library: redaction keeps the protected members
and the reference hash, which is base64 and so has no colon, and event ids start with their sigil. -/
structure Ruma.Lawful (ruma : Ruma) : Prop where
  redact_lookup : ∀ version raw redacted, ruma.redact version raw = .ok redacted →
    ∀ key ∈ protectedMembers, redacted.lookup key = raw.lookup key
  redact_hash : ∀ version raw redacted, ruma.redact version raw = .ok redacted →
    ruma.referenceHash version redacted = ruma.referenceHash version raw
  hash_colon : ∀ version raw hash, ruma.referenceHash version raw = .ok hash → ':' ∉ hash.toList
  event_id_sigil : ∀ id, ruma.isEventId id → id.toList.head? = some '$'

/-! ## A small instance

A stand-in for the external library on which runs can be evaluated: the hash of an event is the one
its `hashes` property states, and a signature is present or not. -/

namespace Ruma

def keptContent (eventType : String) (content : JsonObject) : JsonObject :=
  let keep (keys : List String) : JsonObject := content.filter fun (k, _) => keys.contains k
  if eventType = "m.room.create" then content
  else if eventType = "m.room.member" then keep ["membership", "join_authorised_via_users_server"]
  else if eventType = "m.room.join_rules" then keep ["join_rule", "allow"]
  else if eventType = "m.room.power_levels" then
    keep ["ban", "events", "events_default", "invite", "kick", "redact", "state_default", "users",
      "users_default"]
  else if eventType = "m.room.history_visibility" then keep ["history_visibility"]
  else if eventType = "m.room.redaction" then keep ["redacts"]
  else []

/-- The members that redaction keeps. -/
def keptKeys : List String :=
  ["type", "room_id", "sender", "state_key", "content", "hashes", "signatures", "depth",
    "prev_events", "auth_events", "origin_server_ts"]

def redactMember (eventType key : String) (value : Json) : Json :=
  if key = "content" then
    match value with
    | .object content => .object (keptContent eventType content)
    | value => value
  else value

def sample : Ruma where
  isUserId s := s.startsWith "@" && (afterColon s).isSome
  isRoomId s := s.startsWith "!"
  isEventId s := s.toList.head? == some '$'
  isServerName s := s ≠ ""
  referenceHash _ raw :=
    match (objProp raw "hashes").bind fun h => strProp h "sha256" with
    | some hash => if ':' ∈ hash.toList then .error "not base64" else .ok hash
    | none => .error "no hash"
  verifyEvent keys raw _ :=
    let server := userServerName ((strProp raw "sender").getD "")
    if keys.contains server && ((objProp raw "signatures").bind (·.lookup server)).isSome then .ok .all
    else .error "signature missing"
  redact _ raw :=
    .ok ((raw.filter fun m => keptKeys.contains m.1).map fun m =>
      (m.1, redactMember ((strProp raw "type").getD "") m.1 m.2))
  toText _ := .ok ""
  signingText _ := .ok ""
  base64 _ := none
  ed25519 _ _ _ := false

theorem lookup_filterMap_members (keep : String → Bool) (f : String → Json → Json)
    (raw : JsonObject) (key : String) (hkeep : keep key = true) (hf : ∀ v, f key v = v) :
    ((raw.filter fun m => keep m.1).map fun m => (m.1, f m.1 m.2)).lookup key = raw.lookup key := by
  induction raw with
  | nil => rfl
  | cons m raw ih =>
    obtain ⟨k, v⟩ := m
    rw [List.filter_cons, List.lookup_cons]
    by_cases hk : key = k
    · subst hk
      simp [hkeep, hf]
    · have hk' : (key == k) = false := by simpa using hk
      simp only [hk']
      split
      · rw [List.map_cons, List.lookup_cons, hk']
        exact ih
      · exact ih

theorem sample_lawful : sample.Lawful where
  redact_lookup version raw redacted h key hkey := by
    obtain rfl := Except.ok.inj h
    refine lookup_filterMap_members (fun k => keptKeys.contains k) _ raw key ?_ fun v => if_neg ?_
    · revert key
      decide
    · rintro rfl
      revert hkey
      decide
  redact_hash version raw redacted h := by
    obtain rfl := Except.ok.inj h
    have := lookup_filterMap_members (fun k => keptKeys.contains k)
      (redactMember ((strProp raw "type").getD "")) raw "hashes" (by decide) fun v => rfl
    simp only [sample, objProp, this]
  hash_colon version raw hash h := by
    simp only [sample] at h
    split at h
    · split at h
      · simp at h
      · rename_i hcolon
        exact Except.ok.inj h ▸ hcolon
    · simp at h
  event_id_sigil id h := by simpa [sample] using h

theorem sample_signatures {keys : PublicKeyMap} {raw : JsonObject} {version : RoomVersion}
    {outcome : Verified} (h : sample.verifyEvent keys raw version = .ok outcome) :
    ((objProp raw "signatures").bind
      (·.lookup (userServerName ((strProp raw "sender").getD "")))).isSome := by
  simp only [sample] at h
  split at h
  · rename_i held
    exact (Bool.and_eq_true _ _ ▸ held).2
  · cases h

def samplePdu (hash eventType : String) (stateKey : Option String) (sender : UserId)
    (content : JsonObject) (authEvents prevEvents : List EventId) (depth : Nat) : JsonObject :=
  [("auth_events", .array (authEvents.map Json.string)), ("content", .object content),
    ("depth", .integer depth), ("hashes", .object [("sha256", .string hash)]),
    ("origin_server_ts", .integer depth), ("prev_events", .array (prevEvents.map Json.string)),
    ("room_id", .string "!r:x"), ("sender", .string sender),
    ("signatures", .object [("x", .object [("ed25519:1", .string "sig")])])] ++
  (match stateKey with
    | some sk => [("state_key", .string sk)]
    | none => []) ++
  [("type", .string eventType)]

/-- The event, with a signature of the server beside that of `x`. -/
def signedBy (server : String) (raw : JsonObject) : JsonObject :=
  raw.map fun m =>
    if m.1 = "signatures" then
      (m.1, .object [("x", .object [("ed25519:1", .string "sig")]),
        (server, .object [("ed25519:1", .string "sig")])])
    else m

def sampleCreate : JsonObject :=
  samplePdu "c" "m.room.create" (some "") "@a:x" [("room_version", .string "11")] [] [] 1

def sampleJoin : JsonObject :=
  samplePdu "j" "m.room.member" (some "@a:x") "@a:x" [("membership", .string "join")] ["$c"] ["$c"] 2

end Ruma

end Saltator
