import Saltator.Core.Event

/-!
# Event validation

The format and size checks an event must pass before it reaches the auth rules, and the wrappers
around signature verification and redaction.
-/

namespace Saltator

/-- The complete event, canonical-JSON encoded, must not exceed this. -/
def maxPduBytes : Nat := 65536

def maxTypeBytes : Nat := 255

def maxStateKeyBytes : Nat := 255

def maxAuthEvents : Nat := 10

def maxPrevEvents : Nat := 20

inductive ValidationError where
  | tooLarge (bytes : Nat)
  | malformed (reason : String)
  | fieldTooLong (field : String) (limit : Nat)
  | tooManyRefs (field : String) (count limit : Nat)
  | missingField (field : String)
  | createWithRoomId
  deriving DecidableEq, Repr

def EventFormatError.toText : EventFormatError → String
  | .shape reason => "not a valid PDU: " ++ reason
  | .canonical reason => "canonical JSON: " ++ reason

def fieldLen (version : RoomVersion) (s : String) : Nat :=
  if version.strictByteLimits then s.utf8ByteSize else s.length

def Pdu.isCreate (pdu : Pdu) : Bool :=
  pdu.eventType == "m.room.create" && pdu.stateKey == some ""

/-- The limits and required properties of a complete event. -/
def checkPdu (version : RoomVersion) (pdu : Pdu) : Except ValidationError Unit :=
  if fieldLen version pdu.eventType > maxTypeBytes then
    .error (.fieldTooLong "type" maxTypeBytes)
  else if pdu.stateKey.any (fun sk => fieldLen version sk > maxStateKeyBytes) then
    .error (.fieldTooLong "state_key" maxStateKeyBytes)
  else if pdu.authEvents.length > maxAuthEvents then
    .error (.tooManyRefs "auth_events" pdu.authEvents.length maxAuthEvents)
  else if pdu.prevEvents.length > maxPrevEvents then
    .error (.tooManyRefs "prev_events" pdu.prevEvents.length maxPrevEvents)
  -- Complete events carry hashes and signatures.
  else if pdu.hashes.isNone then .error (.missingField "hashes")
  else if pdu.signatures.isEmpty then .error (.missingField "signatures")
  -- `room_id` is required, except on version-12 create events, where it must be absent.
  else if version.roomIdIsCreateEventId && pdu.isCreate then
    if pdu.roomId.isSome then .error .createWithRoomId else .ok ()
  else if pdu.roomId.isNone then .error (.missingField "room_id")
  else .ok ()

/-- Validate the format of a complete event and return its typed view. -/
def validatePdu (ruma : Ruma) (raw : JsonObject) (version : RoomVersion) : Except ValidationError Pdu :=
  match ruma.toText raw with
  | .error e => .error (.malformed ("unserializable: " ++ e))
  | .ok canonical =>
    if canonical.utf8ByteSize > maxPduBytes then .error (.tooLarge canonical.utf8ByteSize)
    else
      match Pdu.fromCanonical ruma raw with
      | .error e => .error (.malformed e.toText)
      | .ok pdu => (checkPdu version pdu).map fun _ => pdu

theorem validatePdu_eq_ok {ruma : Ruma} {raw : JsonObject} {version : RoomVersion} {pdu : Pdu}
    (h : validatePdu ruma raw version = .ok pdu) :
    Pdu.fromCanonical ruma raw = .ok pdu ∧ checkPdu version pdu = .ok () := by
  unfold validatePdu at h
  split at h
  · simp at h
  split at h
  · simp at h
  split at h
  · simp at h
  rename_i pdu' hp
  cases hc : checkPdu version pdu' with
  | error e => simp [hc, Except.map] at h
  | ok _ =>
    obtain rfl : pdu' = pdu := by simpa [hc, Except.map] using h
    exact ⟨hp, hc⟩

theorem roomId_of_checkPdu {version : RoomVersion} {pdu : Pdu} (h : checkPdu version pdu = .ok ()) :
    pdu.roomId.isNone = (version.roomIdIsCreateEventId && pdu.isCreate) := by
  unfold checkPdu at h
  iterate 6
    split at h
    · simp at h
  split at h
  · rename_i hcreate
    rw [hcreate]
    split at h
    · simp at h
    · rename_i hroom
      simpa using hroom
  · rename_i hcreate
    rw [Bool.not_eq_true] at hcreate
    rw [hcreate]
    split at h
    · simp at h
    · rename_i hroom
      rwa [Bool.not_eq_true] at hroom

inductive VerifyOutcome where
  | verified
  /-- Signatures valid, content hash not: such an event is processed in its redacted form. -/
  | signedButHashMismatch
  deriving DecidableEq

structure VerificationError where
  reason : String
  deriving DecidableEq, Repr

def verifyEvent (ruma : Ruma) (raw : JsonObject) (version : RoomVersion) (keys : PublicKeyMap) :
    Except VerificationError VerifyOutcome :=
  match ruma.verifyEvent keys raw version with
  | .ok .all => .ok .verified
  | .ok .signatures => .ok .signedButHashMismatch
  | .error e => .error ⟨e⟩

def redact (ruma : Ruma) (raw : JsonObject) (version : RoomVersion) : Except VerificationError JsonObject :=
  match ruma.redact version raw with
  | .ok redacted => .ok redacted
  | .error e => .error ⟨e⟩

end Saltator
