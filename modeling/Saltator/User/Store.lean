import Saltator.User.Types

/-!
# The applied state of a user shard

One ordered map per table, together with the shard's sequence counter and the records published to
the change stream. Keys are the tuples whose parts the source joins with NUL bytes, and a scan over a
byte range is a selection of rows by the leading parts; `PlainKeys` says of commands and rows that their
keys can be read so.
-/

namespace Saltator.User

open Std

/-- A storage fault. -/
inductive StoreError where
  | engine (reason : String)
  /-- A row that does not decode, by what was being read. -/
  | codec (what : String)
  deriving DecidableEq, Repr

/-- The key of a client transaction: user, device, scope and transaction id. -/
abbrev TxnKey := UserId × DeviceId × String × String

structure Store where
  /-- `T_ACCOUNT` -/
  account : OrdMap UserId AccountRow
  /-- `T_TOKEN`: access and refresh tokens by hash. -/
  token : OrdMap Hash TokenRow
  /-- `T_DEVICE` -/
  device : OrdMap (UserId × DeviceId) Device
  /-- `T_PROFILE` -/
  profile : OrdMap UserId Profile
  /-- `T_ACCOUNT_DATA`, by user, room (empty for global data) and type. -/
  accountData : OrdMap (UserId × RoomId × String) AccountDataEntry
  /-- `T_FILTER` -/
  filter : OrdMap (UserId × String) Bytes
  /-- `T_MEMBERSHIP` -/
  membership : OrdMap (UserId × RoomId) MembershipEntry
  /-- `T_CURSOR`: projection cursors by source. -/
  cursor : OrdMap String Nat
  /-- `T_ALIAS` -/
  aliasEntry : OrdMap String AliasEntry
  /-- `T_MEDIA` -/
  media : OrdMap String MediaMeta
  /-- `T_DIRECTORY` -/
  directory : OrdSet RoomId
  /-- `T_INVITE_STATE` -/
  inviteState : OrdMap (UserId × RoomId) (List Bytes)
  /-- `T_DEVICE_KEYS` -/
  deviceKeys : OrdMap (UserId × DeviceId) Bytes
  /-- `T_ONE_TIME_KEY`, by user, device and key id. -/
  oneTimeKey : OrdMap (UserId × DeviceId × String) OtkEntry
  /-- `T_TO_DEVICE`: the device inboxes in queue order. -/
  toDevice : OrdMap (UserId × DeviceId × Nat) Bytes
  /-- `T_KEY_CHANGE`, by sequence number. -/
  keyChange : OrdMap Nat KeyChangeEntry
  /-- `T_PUSHER`, by user, device, app id and push key. -/
  pusher : OrdMap (UserId × DeviceId × String × String) Bytes
  /-- `T_BACKUP_VERSION` -/
  backupVersion : OrdMap (UserId × Nat) BackupVersionMeta
  /-- `T_BACKUP_KEY`, by user, version, room and session. -/
  backupKey : OrdMap (UserId × Nat × RoomId × String) Bytes
  /-- `T_FALLBACK_KEY`, by user, device and algorithm. -/
  fallbackKey : OrdMap (UserId × DeviceId × String) FallbackEntry
  /-- `T_CROSS_SIGNING`, by user and kind. -/
  crossSigning : OrdMap (UserId × String) Bytes
  /-- `T_EDU_OUTBOX`, by destination and sequence number. -/
  eduOutbox : OrdMap (String × Nat) Bytes
  /-- `T_TO_DEVICE_SEEN`, by origin and message id. -/
  toDeviceSeen : OrdMap (String × String) Nat
  /-- `T_TO_DEVICE_SEEN_IDX`: the same by time. -/
  toDeviceSeenIdx : OrdSet (Nat × String × String)
  /-- `T_UIA_SESSION` -/
  uiaSession : OrdMap String UiaSession
  /-- `T_UIA_SESSION_IDX`: the sessions by creation time. -/
  uiaSessionIdx : OrdSet (Nat × String)
  /-- `T_REG_TOKEN` -/
  regToken : OrdMap String RegToken
  /-- `T_EXTERNAL_ID`: the linked account by provider and subject. -/
  externalId : OrdMap (String × String) UserId
  /-- `T_EXTERNAL_ID_USER`: the subject by account and provider. -/
  externalIdUser : OrdMap (UserId × String) String
  /-- `T_ROOM_BLOCKED` -/
  roomBlocked : OrdMap RoomId BlockedRoom
  /-- `T_NOTICES_ROOM` -/
  noticesRoom : OrdMap UserId RoomId
  /-- `T_LOGIN_TOKEN` -/
  loginToken : OrdMap Hash LoginTokenEntry
  /-- `T_TXN_SEEN` -/
  txnSeen : OrdMap TxnKey Nat
  /-- `T_TXN_SEEN_IDX`: the same by time. -/
  txnSeenIdx : OrdSet (Nat × TxnKey)
  /-- `T_USERNAME`: the names that are taken. -/
  username : OrdSet UserId
  /-- The shard's sequence counter. -/
  seq : Nat
  /-- What was published to the change stream. -/
  emits : List (Nat × UserChangePayload)

namespace Store

def empty : Store where
  account := ∅
  token := ∅
  device := ∅
  profile := ∅
  accountData := ∅
  filter := ∅
  membership := ∅
  cursor := ∅
  aliasEntry := ∅
  media := ∅
  directory := ∅
  inviteState := ∅
  deviceKeys := ∅
  oneTimeKey := ∅
  toDevice := ∅
  keyChange := ∅
  pusher := ∅
  backupVersion := ∅
  backupKey := ∅
  fallbackKey := ∅
  crossSigning := ∅
  eduOutbox := ∅
  toDeviceSeen := ∅
  toDeviceSeenIdx := ∅
  uiaSession := ∅
  uiaSessionIdx := ∅
  regToken := ∅
  externalId := ∅
  externalIdUser := ∅
  roomBlocked := ∅
  noticesRoom := ∅
  loginToken := ∅
  txnSeen := ∅
  txnSeenIdx := ∅
  username := ∅
  seq := 0
  emits := []

/-! ## Typed reads -/

def decodeAccount : AccountRow → Except StoreError Account
  | .current account => .ok account
  | .v2 _ => .error (.codec "account decode")

def decodeToken : TokenRow → Except StoreError TokenEntry
  | .current entry => .ok entry
  | .v4 _ => .error (.codec "token decode")

def getAccount (s : Store) (userId : UserId) : Except StoreError (Option Account) :=
  s.account[userId]?.mapM decodeAccount

def getToken (s : Store) (hash : Hash) : Except StoreError (Option TokenEntry) :=
  s.token[hash]?.mapM decodeToken

/-- The state an account is in, or `deactivated` when there is no account. -/
def accountState (s : Store) (userId : UserId) : Except StoreError AccountState := do
  return ((← s.getAccount userId).map Account.state).getD .deactivated

def backupMeta (s : Store) (userId : UserId) (version : Nat) : Option BackupVersionMeta :=
  s.backupVersion[(userId, version)]?.filter fun m => !m.deleted

/-! ## Scans -/

def devicesOf (s : Store) (userId : UserId) : List ((UserId × DeviceId) × Device) :=
  s.device.rows fun k => k.1 = userId

def oneTimeKeysOf (s : Store) (userId : UserId) (deviceId : DeviceId) :
    List ((UserId × DeviceId × String) × OtkEntry) :=
  s.oneTimeKey.rows fun k => k.1 = userId ∧ k.2.1 = deviceId

/-! ## Writes shared by the commands -/

/-- Publish a record about a user; it takes the next sequence number. -/
def emitUserChange (s : Store) (userId : UserId) : Store × Nat :=
  ({ s with seq := s.seq + 1, emits := s.emits ++ [(s.seq + 1, ⟨userId⟩)] }, s.seq + 1)

def putKeyChange (s : Store) (seq : Nat) (userId : UserId) (membership : Option (RoomId × Bool)) : Store :=
  { s with keyChange := s.keyChange.insert seq ⟨userId, membership⟩ }

def logKeyChange (s : Store) (userId : UserId) : Store :=
  let (s, seq) := s.emitUserChange userId
  s.putKeyChange seq userId none

def putAccount (s : Store) (userId : UserId) (account : Account) : Store :=
  { s with account := s.account.insert userId (.current account) }

def putToken (s : Store) (hash : Hash) (entry : TokenEntry) : Store :=
  { s with token := s.token.insert hash (.current entry) }

def dropTokens (s : Store) (hashes : List Hash) : Store :=
  { s with token := hashes.foldl (fun m h => m.erase h) s.token }

def putBackupMeta (s : Store) (userId : UserId) (version : Nat) (backup : BackupVersionMeta) : Store :=
  { s with backupVersion := s.backupVersion.insert (userId, version) backup }

end Store

end Saltator.User
