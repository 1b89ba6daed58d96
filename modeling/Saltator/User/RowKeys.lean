import Saltator.Shard.Log
import Saltator.User.Store

/-!
# The keys of a user shard's rows

The key of a row joins its parts with zero bytes, and a scan finds the keys that begin, or end, with
what it looks for. User ids, device ids, rooms and the names of pushers come from clients and other
servers as they are. The rows of the store are kept under tuples: as long as no part that a zero byte
ends has one itself, a scan of the keys finds the rows of the tuple and no others.
-/

namespace Saltator.User

open Shard (Plain cut_front cut_back utf8_inj bigEndian_inj)
open Shard.Storage (utf8 bigEndian)

def userKey (userId : UserId) (rest : Bytes) : Bytes := utf8 userId ++ 0 :: rest

def deviceScopedKey (userId : UserId) (deviceId : DeviceId) (rest : Bytes) : Bytes :=
  userKey userId (utf8 deviceId ++ 0 :: rest)

def toDeviceKey (userId : UserId) (deviceId : DeviceId) (seq : Nat) : Bytes :=
  deviceScopedKey userId deviceId (bigEndian 8 seq)

def pusherKey (userId : UserId) (deviceId : DeviceId) (appId pushkey : String) : Bytes :=
  deviceScopedKey userId deviceId (utf8 appId ++ 0 :: utf8 pushkey)

/-- With a session it is the key of a row, otherwise what the scanned keys begin with. -/
def backupKeyPrefix (userId : UserId) (version : Nat) (roomId : Option RoomId)
    (sessionId : Option String) : Bytes :=
  userKey userId (bigEndian 8 version ++ 0 ::
    roomId.elim [] fun roomId => utf8 roomId ++ 0 :: sessionId.elim [] utf8)

section Scans

variable {userId userId' : UserId} {deviceId deviceId' : DeviceId} {rest rest' : Bytes}

theorem userKey_scan (plain : Plain userId) (plain' : Plain userId') :
    userKey userId rest <+: userKey userId' rest' ↔ userId' = userId ∧ rest <+: rest' :=
  (cut_front plain plain').trans (and_congr_left' utf8_inj)

theorem deviceScopedKey_scan (plain : Plain userId) (plain' : Plain userId') (device : Plain deviceId)
    (device' : Plain deviceId') :
    deviceScopedKey userId deviceId [] <+: deviceScopedKey userId' deviceId' rest' ↔
      userId' = userId ∧ deviceId' = deviceId := by
  rw [deviceScopedKey, deviceScopedKey, userKey_scan plain plain', cut_front device device', utf8_inj]
  simp

theorem deviceScopedKey_inj (plain : Plain userId) (plain' : Plain userId') (device : Plain deviceId)
    (device' : Plain deviceId') :
    deviceScopedKey userId deviceId rest = deviceScopedKey userId' deviceId' rest' ↔
      (userId, deviceId, rest) = (userId', deviceId', rest') := by
  constructor
  · intro same
    obtain ⟨user, same⟩ := Shard.cut_inj plain plain' same
    obtain ⟨name, rfl⟩ := Shard.cut_inj device device' same
    rw [utf8_inj.1 user, utf8_inj.1 name]
  · intro same
    obtain ⟨rfl, rfl, rfl⟩ := by simpa using same
    rfl

theorem pusherKey_scan {appId appId' pushkey pushkey' : String} (app : Plain appId) (app' : Plain appId')
    (key : Plain pushkey) (key' : Plain pushkey') :
    0 :: (utf8 appId ++ 0 :: utf8 pushkey) <:+ pusherKey userId' deviceId' appId' pushkey' ↔
      appId' = appId ∧ pushkey' = pushkey := by
  have front : pusherKey userId' deviceId' appId' pushkey' =
      (utf8 userId' ++ 0 :: utf8 deviceId' ++ 0 :: utf8 appId') ++ 0 :: utf8 pushkey' := by
    simp [pusherKey, deviceScopedKey, userKey]
  rw [front, ← List.cons_append, cut_back key key', utf8_inj, ← List.nil_append (0 :: utf8 appId),
    cut_back app app', utf8_inj]
  simp [and_comm]

variable {version version' : Nat} {room : Option RoomId} {roomId' : RoomId} {sessionId' : String}

theorem backupKeyPrefix_scan (plain : Plain userId) (plain' : Plain userId') (fits : version < 2 ^ 64)
    (fits' : version' < 2 ^ 64) (scanned : ∀ roomId ∈ room, Plain roomId) (plainRoom : Plain roomId') :
    backupKeyPrefix userId version room none <+:
        backupKeyPrefix userId' version' (some roomId') (some sessionId') ↔
      userId' = userId ∧ version' = version ∧ ∀ roomId ∈ room, roomId' = roomId := by
  have cut : ∀ {p r : Bytes}, bigEndian 8 version ++ 0 :: p <+: bigEndian 8 version' ++ 0 :: r ↔
      version' = version ∧ p <+: r := by
    intro p r
    constructor
    · rintro ⟨rest, same⟩
      rw [List.append_assoc] at same
      obtain ⟨numbers, same⟩ := List.append_inj same (by simp [Shard.Storage.length_bigEndian])
      obtain ⟨-, rfl⟩ := List.cons.inj same
      exact ⟨((bigEndian_inj fits fits').1 numbers).symm, rest, rfl⟩
    · rintro ⟨rfl, rest, rfl⟩
      exact ⟨rest, by simp⟩
  rw [backupKeyPrefix, backupKeyPrefix, userKey_scan plain plain', cut]
  cases room with
  | none => simp
  | some roomId => simp [cut_front (scanned roomId rfl) plainRoom, utf8_inj]

end Scans

/-! ## Plain commands -/

def SessionCmd.parts (c : SessionCmd) : List String := [c.userId, c.deviceId]

def UserCommand.deviceParts : UserCommand → List String
  | .register userId _ _ session | .registerWithToken userId _ _ session _ =>
    userId :: session.toList.flatMap SessionCmd.parts
  | .createSession session | .refreshSession _ session => session.parts
  | .deleteDevice userId deviceId | .setDeviceName userId deviceId _ | .upsertDevice userId deviceId _ _
  | .uploadKeys userId deviceId _ _ _ | .ackToDevice userId deviceId _ | .setPusher userId deviceId _ _ _
  | .changePassword userId _ _ deviceId | .markTxn userId deviceId _ _ _ => [userId, deviceId]
  | .deleteAllDevices userId | .deactivate userId | .adminSetPassword userId _ _ | .setLocked userId _ =>
    [userId]
  | .claimKeys claims => claims.flatMap fun req => [req.userId, req.deviceId]
  | .sendToDevice messages => messages.flatMap fun m => [m.userId, m.deviceId]
  | .sendToDeviceDeduped origin _ _ messages => origin :: messages.flatMap fun m => [m.userId, m.deviceId]
  | _ => []

def UserCommand.backupParts : UserCommand → List String
  | .createBackupVersion userId _ _ | .updateBackupVersion userId _ _ _ | .deleteBackupVersion userId _ =>
    [userId]
  | .putBackupKeys userId _ keys => userId :: keys.map Prod.fst
  | .deleteBackupKeys userId _ roomId _ => userId :: roomId.toList
  | _ => []

/-- The other parts that zero bytes end, or that a scan looks for. -/
def UserCommand.otherParts : UserCommand → List String
  | .setPusher _ _ appId pushkey _ => [appId, pushkey]
  | .markTxn _ _ scope _ _ => [scope]
  | .queueOutboundEdus entries => entries.map OutboundEdu.destination
  | .ackOutboundEdus destination _ => [destination]
  | .putAccountData userId roomId _ _ => [userId, roomId]
  | .putFilter userId _ _ | .forgetRoom userId _ | .recordRemoteInvite userId _ _ _ _
  | .recordRemoteKnock userId _ _ _ _ | .recordRemoteLeave userId _ | .setCrossSigningKeys userId _ _ _
  | .addSignatures userId _ | .unlinkExternalId userId _ => [userId]
  | .linkExternalId userId authProvider _ => [userId, authProvider]
  | .applyRoomChanges _ _ changes => changes.map MembershipChange.userId
  | _ => []

def UserCommand.PlainDevices (cmd : UserCommand) : Prop := ∀ part ∈ cmd.deviceParts, Plain part

def UserCommand.PlainBackups (cmd : UserCommand) : Prop := ∀ part ∈ cmd.backupParts, Plain part

instance (cmd : UserCommand) : Decidable cmd.PlainDevices :=
  inferInstanceAs (Decidable (∀ part ∈ cmd.deviceParts, Plain part))

instance (cmd : UserCommand) : Decidable cmd.PlainBackups :=
  inferInstanceAs (Decidable (∀ part ∈ cmd.backupParts, Plain part))

/-- No part that a zero byte ends, or that a scan looks for, has one itself. -/
def UserCommand.PlainKeys (cmd : UserCommand) : Prop :=
  cmd.PlainDevices ∧ cmd.PlainBackups ∧ ∀ part ∈ cmd.otherParts, Plain part

/-- The same of the rows that are there. -/
structure Store.PlainKeys (s : Store) : Prop where
  device : ∀ k ∈ s.device, Plain k.1
  deviceKeys : ∀ k ∈ s.deviceKeys, Plain k.1
  oneTimeKey : ∀ k ∈ s.oneTimeKey, Plain k.1 ∧ Plain k.2.1
  fallbackKey : ∀ k ∈ s.fallbackKey, Plain k.1 ∧ Plain k.2.1
  toDevice : ∀ k ∈ s.toDevice, Plain k.1 ∧ Plain k.2.1
  pusher : ∀ k ∈ s.pusher, Plain k.1 ∧ Plain k.2.1 ∧ Plain k.2.2.1 ∧ Plain k.2.2.2
  backupVersion : ∀ k ∈ s.backupVersion, Plain k.1
  backupKey : ∀ k ∈ s.backupKey, Plain k.1 ∧ Plain k.2.2.1
  accountData : ∀ k ∈ s.accountData, Plain k.1 ∧ Plain k.2.1
  filter : ∀ k ∈ s.filter, Plain k.1
  membership : ∀ k ∈ s.membership, Plain k.1
  inviteState : ∀ k ∈ s.inviteState, Plain k.1
  crossSigning : ∀ k ∈ s.crossSigning, Plain k.1
  eduOutbox : ∀ k ∈ s.eduOutbox, Plain k.1
  toDeviceSeen : ∀ k ∈ s.toDeviceSeen, Plain k.1
  externalId : ∀ k ∈ s.externalId, Plain k.1
  externalIdUser : ∀ k ∈ s.externalIdUser, Plain k.1
  txnSeen : ∀ k ∈ s.txnSeen, Plain k.1 ∧ Plain k.2.1 ∧ Plain k.2.2.1

end Saltator.User
