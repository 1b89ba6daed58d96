import Saltator.Core.Event

/-!
# User-shard records and commands

Everything secret enters the state machine hashed, and every clock reading rides in a command. Raw
JSON bodies are kept as bytes. Account and token rows exist in an old shape as well, which the
schema migrations rewrite.
-/

namespace Saltator.User

abbrev DeviceId := String

/-- A 32-byte digest; the byte order of two digests is their numeric order. -/
abbrev Hash := BitVec 256

instance instTransOrdHash : Std.TransOrd Hash := inferInstanceAs (Std.TransOrd (BitVec 256))

abbrev Bytes := List UInt8

/-! ## Records -/

/-- Account lifecycle. -/
inductive AccountState where
  | active
  /-- Reversible: tokens are refused, data and rooms stay. -/
  | locked
  /-- Irreversible: the password is cleared and every device deleted. -/
  | deactivated
  deriving DecidableEq

/-- Anything but `active` is refused. -/
def AccountState.canAuthenticate : AccountState → Bool
  | .active => true
  | _ => false

structure Account where
  passwordHash : Option String
  createdTs : Nat
  state : AccountState
  admin : Bool
  erased : Bool
  deriving DecidableEq

/-- `Account` before schema 3. -/
structure AccountV2 where
  passwordHash : Option String
  createdTs : Nat
  deactivated : Bool
  deriving DecidableEq

inductive TokenKind where
  | access
  | refresh
  deriving DecidableEq

structure TokenEntry where
  userId : UserId
  deviceId : DeviceId
  kind : TokenKind
  createdTs : Nat
  expiresTs : Option Nat
  /-- The owning account's state, mirrored so that authenticating a request is one read. -/
  state : AccountState
  deriving DecidableEq

/-- `TokenEntry` before schema 5. -/
structure TokenEntryV4 where
  userId : UserId
  deviceId : DeviceId
  kind : TokenKind
  createdTs : Nat
  expiresTs : Option Nat
  deriving DecidableEq

structure Device where
  displayName : Option String
  createdTs : Nat
  accessTokenHash : Option Hash
  refreshTokenHash : Option Hash
  deriving DecidableEq

def Device.hashes (d : Device) : List Hash := d.accessTokenHash.toList ++ d.refreshTokenHash.toList

structure Profile where
  displayname : Option String
  avatarUrl : Option String
  deriving DecidableEq

structure AccountDataEntry where
  json : Bytes
  seq : Nat
  deriving DecidableEq

structure MembershipEntry where
  membership : String
  eventId : String
  sender : UserId
  /-- Position of the member event in its room shard, `0` when it did not come from there. -/
  roomSeq : Nat
  /-- The shard position at which it was recorded. -/
  seq : Nat
  forgotten : Bool
  deriving DecidableEq

structure AliasEntry where
  roomId : RoomId
  creator : UserId
  deriving DecidableEq

structure MediaMeta where
  owner : UserId
  contentType : Option String
  filename : Option String
  size : Nat
  createdTs : Nat
  pending : Bool
  blob : Option String
  deriving DecidableEq

/-- An in-progress user-interactive authentication, bound to the request that started it. -/
structure UiaSession where
  requestHash : Hash
  completed : List String
  registrationToken : Option String
  createdTs : Nat
  deriving DecidableEq

structure LoginTokenEntry where
  userId : UserId
  expiresTs : Nat
  deriving DecidableEq

/-- A registration token; `none` means unlimited uses, or no expiry. -/
structure RegToken where
  usesAllowed : Option Nat
  used : Nat
  expiryTs : Option Nat
  createdTs : Nat
  deriving DecidableEq

def RegToken.usable (t : RegToken) (now : Nat) : Bool :=
  t.expiryTs.all (fun e => now < e) && t.usesAllowed.all fun allowed => t.used < allowed

/-- A room closed to joins: who closed it, and when. -/
structure BlockedRoom where
  blockedBy : UserId
  ts : Nat
  deriving DecidableEq

/-- A stored one-time key with its upload slot: claims hand keys out in upload order. -/
structure OtkEntry where
  order : Nat
  json : Bytes
  deriving DecidableEq

/-- A device's key of last resort for one algorithm. -/
structure FallbackEntry where
  keyId : String
  json : Bytes
  /-- Set once a claim has served it. -/
  used : Bool
  deriving DecidableEq

structure BackupVersionMeta where
  algorithm : String
  authData : Bytes
  /-- Stored session count. -/
  count : Nat
  /-- Bumped on every change to the version's keys. -/
  etag : Nat
  /-- Deleted versions stay, so that version numbers never recur. -/
  deleted : Bool
  deriving DecidableEq

/-- One row of the device-list change log. `membership` is `none` when the device list itself
changed, and names the room the user joined or left otherwise. -/
structure KeyChangeEntry where
  userId : UserId
  membership : Option (RoomId × Bool)
  deriving DecidableEq

/-- The shapes an account row is stored in. -/
inductive AccountRow where
  | v2 (old : AccountV2)
  | current (account : Account)
  deriving DecidableEq

/-- The shapes a token row is stored in. -/
inductive TokenRow where
  | v4 (old : TokenEntryV4)
  | current (entry : TokenEntry)
  deriving DecidableEq

/-! ## Command parts -/

/-- A new session's credentials. -/
structure SessionCmd where
  userId : UserId
  deviceId : DeviceId
  displayName : Option String
  tokenHash : Hash
  refreshHash : Option Hash
  expiresTs : Option Nat
  ts : Nat
  deriving DecidableEq

def SessionCmd.hashes (s : SessionCmd) : List Hash := s.tokenHash :: s.refreshHash.toList

structure MembershipChange where
  userId : UserId
  roomId : RoomId
  membership : String
  eventId : String
  sender : UserId
  roomSeq : Nat
  deriving DecidableEq

structure ClaimRequest where
  userId : UserId
  deviceId : DeviceId
  algorithm : String
  deriving DecidableEq

structure ClaimedKey where
  userId : UserId
  deviceId : DeviceId
  keyId : String
  keyJson : Bytes
  deriving DecidableEq, Repr

/-- A message bound for one device, or for every device of the user (`"*"`). -/
structure ToDeviceMessage where
  userId : UserId
  deviceId : DeviceId
  json : Bytes
  deriving DecidableEq

structure OutboundEdu where
  destination : String
  json : Bytes
  deriving DecidableEq

/-! ## Commands -/

inductive UserCommand where
  | register (userId : UserId) (passwordHash : Option String) (ts : Nat)
      (session : Option SessionCmd)
  | createSession (session : SessionCmd)
  | refreshSession (oldRefreshHash : Hash) (session : SessionCmd)
  | deleteDevice (userId : UserId) (deviceId : DeviceId)
  | deleteAllDevices (userId : UserId)
  | setDeviceName (userId : UserId) (deviceId : DeviceId) (displayName : Option String)
  | upsertDevice (userId : UserId) (deviceId : DeviceId) (displayName : Option String) (ts : Nat)
  /-- `none` leaves a field unchanged, `some none` unsets it. -/
  | setProfile (userId : UserId) (displayname avatarUrl : Option (Option String))
  | putAccountData (userId : UserId) (roomId : RoomId) (dataType : String) (json : Bytes)
  | putFilter (userId : UserId) (filterId : String) (json : Bytes)
  | applyRoomChanges (source : String) (uptoSeq : Nat) (changes : List MembershipChange)
  | createAlias (aliasName : String) (roomId : RoomId) (creator : UserId)
  | deleteAlias (aliasName : String)
  | putMedia (mediaId : String) (mediaMeta : MediaMeta)
  | setRoomVisibility (roomId : RoomId) (isPublic : Bool)
  | recordRemoteInvite (userId : UserId) (roomId : RoomId) (sender : UserId) (eventId : String)
      (strippedState : List Bytes)
  | recordRemoteKnock (userId : UserId) (roomId : RoomId) (sender : UserId) (eventId : String)
      (strippedState : List Bytes)
  | recordRemoteLeave (userId : UserId) (roomId : RoomId)
  | forgetRoom (userId : UserId) (roomId : RoomId)
  | uploadKeys (userId : UserId) (deviceId : DeviceId) (deviceKeys : Option Bytes)
      (oneTimeKeys fallbackKeys : List (String × Bytes))
  | claimKeys (claims : List ClaimRequest)
  | setCrossSigningKeys (userId : UserId) (master selfSigning userSigning : Option Bytes)
  | addSignatures (userId : UserId) (targets : List (String × Bytes))
  | sendToDevice (messages : List ToDeviceMessage)
  | ackToDevice (userId : UserId) (deviceId : DeviceId) (upTo : Nat)
  | recordKeyChange (userId : UserId)
  | queueOutboundEdus (entries : List OutboundEdu)
  | ackOutboundEdus (destination : String) (upTo : Nat)
  | changePassword (userId : UserId) (passwordHash : String) (logoutOthers : Bool)
      (keepDevice : DeviceId)
  | deactivate (userId : UserId)
  | setPusher (userId : UserId) (deviceId : DeviceId) (appId pushkey : String)
      (json : Option Bytes)
  | createBackupVersion (userId : UserId) (algorithm : String) (authData : Bytes)
  | updateBackupVersion (userId : UserId) (version : Nat) (algorithm : String) (authData : Bytes)
  | deleteBackupVersion (userId : UserId) (version : Nat)
  /-- Keys by room and session. -/
  | putBackupKeys (userId : UserId) (version : Nat) (keys : List (RoomId × String × Bytes))
  | deleteBackupKeys (userId : UserId) (version : Nat) (roomId : Option RoomId)
      (sessionId : Option String)
  | sendToDeviceDeduped (origin messageId : String) (tsMs : Nat) (messages : List ToDeviceMessage)
  | setLocked (userId : UserId) (locked : Bool)
  | setAdmin (userId : UserId) (admin : Bool)
  | adminSetPassword (userId : UserId) (passwordHash : String) (logoutDevices : Bool)
  | setErased (userId : UserId)
  | completeUiaStage (sessionId : String) (requestHash : Hash) (stage : String)
      (registrationToken : Option String) (nowTs expireBeforeTs : Nat)
  | registerWithToken (userId : UserId) (passwordHash : Option String) (ts : Nat)
      (session : Option SessionCmd) (registrationToken : Option String)
  | createRegistrationToken (token : String) (usesAllowed expiryTs : Option Nat) (ts : Nat)
  | deleteRegistrationToken (token : String)
  | linkExternalId (userId : UserId) (authProvider externalId : String)
  | unlinkExternalId (userId : UserId) (authProvider : String)
  | setNoticesRoom (userId : UserId) (roomId : RoomId)
  | setRoomBlocked (roomId : RoomId) (blocked : Bool) (blockedBy : UserId) (ts : Nat)
  | createLoginToken (tokenHash : Hash) (userId : UserId) (expiresTs nowTs : Nat)
  | consumeLoginToken (tokenHash : Hash) (nowTs : Nat)
  | markTxn (userId : UserId) (deviceId : DeviceId) (scope txnId : String) (ts : Nat)
  deriving DecidableEq

inductive UserResponse where
  | ok
  | userExists
  | aliasExists
  | invalidGrant
  | notFound
  /-- A projection batch at or behind the stored cursor. -/
  | stale
  /-- One-time-key counts per algorithm, in algorithm order. -/
  | oneTimeKeyCounts (counts : List (String × Nat))
  | claimedKeys (claimed : List ClaimedKey)
  | backupVersion (version : Nat)
  | backupStatus (count etag : Nat)
  | invalidState
  | uiaRequestMismatch
  | uiaCompleted (completed : List String) (registrationToken : Option String)
  | invalidToken
  | tokenExists
  | externalIdInUse (owner : UserId)
  | loginTokenOwner (userId : UserId)
  deriving DecidableEq, Repr

/-- A record of the change stream: something about the user changed. -/
structure UserChangePayload where
  userId : UserId
  deriving DecidableEq

/-! ## JSON -/

/-- What the machine reads of a number: its value when it is an `i64`, and its float value cast to
one. -/
structure JsonNumber where
  asI64 : Option Int
  asF64 : Int
  deriving DecidableEq

inductive JsonValue where
  | null
  | bool (b : Bool)
  | number (n : JsonNumber)
  | string (s : String)
  | array (items : List JsonValue)
  | object (members : List (String × JsonValue))

/-- The external JSON library. -/
structure SerdeJson where
  fromSlice : Bytes → Option JsonValue
  toVec : JsonValue → Option Bytes

def SerdeJson.sample : SerdeJson where
  fromSlice _ := none
  toVec _ := none

namespace JsonValue

def asObject : JsonValue → Option (List (String × JsonValue))
  | .object members => some members
  | _ => none

def get (v : JsonValue) (key : String) : Option JsonValue := v.asObject.bind (·.lookup key)

def asBool : JsonValue → Option Bool
  | .bool b => some b
  | _ => none

/-- A number as an `i64`, a float truncated. -/
def asInt : JsonValue → Option Int
  | .number n => some (n.asI64.getD n.asF64)
  | _ => none

def insertMember (key : String) (v : JsonValue) : List (String × JsonValue) → List (String × JsonValue)
  | [] => [(key, v)]
  | (k, w) :: rest =>
    if key = k then (key, v) :: rest
    else if key < k then (key, v) :: (k, w) :: rest
    else (k, w) :: insertMember key v rest

end JsonValue

/-- `key_id.split(':').next()`: what comes before the first colon. -/
def algorithmOf (keyId : String) : String := String.ofList (keyId.toList.takeWhile (· ≠ ':'))

end Saltator.User
