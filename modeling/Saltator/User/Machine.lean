import Mathlib.Data.List.MinMax
import Saltator.User.Store

/-!
# The user state machine

A deterministic interpreter for user commands. Reads of a key see what the same batch has already
written (`s`). Scans of a range see the engine as it was when the batch began (`e`).
-/

namespace Saltator.User.Machine

open Std
open Store

/-! ## Sessions and devices -/

def sessionToken (c : SessionCmd) (kind : TokenKind) (expiresTs : Option Nat)
    (state : AccountState) : TokenEntry where
  userId := c.userId
  deviceId := c.deviceId
  kind := kind
  createdTs := c.ts
  expiresTs := expiresTs
  state := state

def sessionDevice (existing : Option Device) (c : SessionCmd) : Device where
  displayName :=
    match existing with
    | some prev => prev.displayName
    | none => c.displayName
  createdTs := (existing.map Device.createdTs).getD c.ts
  accessTokenHash := some c.tokenHash
  refreshTokenHash := c.refreshHash

/-- Write a session's device and token rows, and invalidate the tokens the device held before. The
tokens are stamped with the state of the account. -/
def writeSession (s : Store) (c : SessionCmd) : Except StoreError Store := do
  let key := (c.userId, c.deviceId)
  let existing := s.device[key]?
  let s := s.dropTokens ((existing.map Device.hashes).getD [])
  let s := { s with device := s.device.insert key (sessionDevice existing c) }
  let state ← s.accountState c.userId
  let s := s.putToken c.tokenHash (sessionToken c .access c.expiresTs state)
  match c.refreshHash with
  | some hash => return s.putToken hash (sessionToken c .refresh none state)
  | none => return s

def deleteDevice (e s : Store) (userId : UserId) (deviceId : DeviceId) : Store × Bool :=
  match s.device[(userId, deviceId)]? with
  | none => (s, false)
  | some device =>
    let s := s.dropTokens device.hashes
    ({ s with
        device := s.device.erase (userId, deviceId)
        deviceKeys := s.deviceKeys.erase (userId, deviceId)
        oneTimeKey := s.oneTimeKey.eraseRows (e.oneTimeKeysOf userId deviceId)
        toDevice := s.toDevice.eraseRows (e.toDevice.rows fun k => k.1 = userId ∧ k.2.1 = deviceId)
        pusher := s.pusher.eraseRows (e.pusher.rows fun k => k.1 = userId ∧ k.2.1 = deviceId)
        fallbackKey := s.fallbackKey.eraseRows
          (e.fallbackKey.rows fun k => k.1 = userId ∧ k.2.1 = deviceId) }, true)

/-- Delete every device of a user except `keep`; whether any was deleted. -/
def deleteDevicesExcept (e s : Store) (userId : UserId) (keep : Option DeviceId) : Store × Bool :=
  (e.devicesOf userId).foldl (fun (s, any) ((_, deviceId), _) =>
    if keep = some deviceId then (s, any)
    else
      let (s, deleted) := deleteDevice e s userId deviceId
      (s, any || deleted)) (s, false)

def logoutDevices (e s : Store) (userId : UserId) (keep : Option DeviceId) : Store :=
  let (s, any) := deleteDevicesExcept e s userId keep
  if any then s.logKeyChange userId else s

def restampToken (state : AccountState) (s : Store) (hash : Hash) : Except StoreError Store := do
  match ← s.getToken hash with
  | none => return s
  | some entry => return s.putToken hash { entry with state := state }

def restampTokens (e s : Store) (userId : UserId) (state : AccountState) : Except StoreError Store :=
  ((e.devicesOf userId).flatMap fun r => r.2.hashes).foldlM (restampToken state) s

def createSession (s : Store) (c : SessionCmd) : Except StoreError (Store × UserResponse) :=
  if (s.account[c.userId]?).isNone then .ok (s, .notFound)
  else do return (← writeSession s c, .ok)

def validRefresh (c : SessionCmd) (entry : TokenEntry) : Bool :=
  entry.kind = .refresh ∧ entry.userId = c.userId ∧ entry.deviceId = c.deviceId

def refreshSession (s : Store) (oldRefreshHash : Hash) (c : SessionCmd) :
    Except StoreError (Store × UserResponse) := do
  let entry ← s.getToken oldRefreshHash
  if entry.any (validRefresh c) then return (← writeSession s c, .ok)
  else return (s, .invalidGrant)

def deleteOneDevice (e s : Store) (userId : UserId) (deviceId : DeviceId) : Store × UserResponse :=
  let (s, deleted) := deleteDevice e s userId deviceId
  if deleted then (s.logKeyChange userId, .ok) else (s, .notFound)

def upsertDevice (s : Store) (userId : UserId) (deviceId : DeviceId) (displayName : Option String)
    (ts : Nat) : Store × UserResponse :=
  let device : Device :=
    match s.device[(userId, deviceId)]? with
    | some d => { d with displayName := displayName }
    | none =>
      { displayName := displayName, createdTs := ts, accessTokenHash := none,
        refreshTokenHash := none }
  (({ s with device := s.device.insert (userId, deviceId) device }).logKeyChange userId, .ok)

def setDeviceName (s : Store) (userId : UserId) (deviceId : DeviceId)
    (displayName : Option String) : Store × UserResponse :=
  match s.device[(userId, deviceId)]? with
  | none => (s, .notFound)
  | some d =>
    (({ s with device := s.device.insert (userId, deviceId) { d with displayName := displayName } }
      ).logKeyChange userId, .ok)

/-! ## Accounts -/

def withAccount (s : Store) (userId : UserId)
    (f : Account → Except StoreError (Store × UserResponse)) :
    Except StoreError (Store × UserResponse) := do
  match ← s.getAccount userId with
  | none => return (s, .notFound)
  | some account => f account

def consumeRegToken (s : Store) (registrationToken : Option String) (ts : Nat) : Option Store :=
  match registrationToken with
  | none => some s
  | some token =>
    match s.regToken[token]? with
    | none => none
    | some entry =>
      if entry.usable ts then
        some { s with regToken := s.regToken.insert token { entry with used := entry.used + 1 } }
      else none

def applyRegister (s : Store) (userId : UserId) (passwordHash : Option String) (ts : Nat)
    (session : Option SessionCmd) (registrationToken : Option String) :
    Except StoreError (Store × UserResponse) :=
  if s.username.contains userId || (s.account[userId]?).isSome then .ok (s, .userExists)
  else
    match consumeRegToken s registrationToken ts with
    | none => .ok (s, .invalidToken)
    | some s => do
      let s := s.putAccount userId
        { passwordHash, createdTs := ts, state := .active, admin := false, erased := false }
      let s := { s with username := s.username.insert userId }
      match session with
      | some session => return (← writeSession s session, .ok)
      | none => return (s, .ok)

def applyDeactivate (e s : Store) (userId : UserId) : Except StoreError (Store × UserResponse) :=
  withAccount s userId fun account =>
    let s := s.putAccount userId { account with state := .deactivated, passwordHash := none }
    .ok (logoutDevices e s userId none, .ok)

def setLocked (e s : Store) (userId : UserId) (locked : Bool) : Except StoreError (Store × UserResponse) :=
  withAccount s userId fun account =>
    -- Deactivation is terminal.
    if account.state = .deactivated then .ok (s, .invalidState)
    else do
      let state : AccountState := if locked then .locked else .active
      let s := s.putAccount userId { account with state := state }
      return (← restampTokens e s userId state, .ok)

def changePassword (e s : Store) (userId : UserId) (passwordHash : String) (logoutOthers : Bool)
    (keepDevice : DeviceId) : Except StoreError (Store × UserResponse) :=
  withAccount s userId fun account =>
    let s := s.putAccount userId { account with passwordHash := some passwordHash }
    .ok (if logoutOthers then logoutDevices e s userId (some keepDevice) else s, .ok)

def adminSetPassword (e s : Store) (userId : UserId) (passwordHash : String)
    (logout : Bool) : Except StoreError (Store × UserResponse) :=
  withAccount s userId fun account =>
    if account.state = .deactivated then .ok (s, .invalidState)
    else
      let s := s.putAccount userId { account with passwordHash := some passwordHash }
      .ok (if logout then logoutDevices e s userId none else s, .ok)

def setAdmin (s : Store) (userId : UserId) (admin : Bool) : Except StoreError (Store × UserResponse) :=
  withAccount s userId fun account => .ok (s.putAccount userId { account with admin := admin }, .ok)

def setErased (s : Store) (userId : UserId) : Except StoreError (Store × UserResponse) :=
  withAccount s userId fun account =>
    -- Erasure is a modifier on deactivation.
    if account.state ≠ .deactivated then .ok (s, .invalidState)
    else
      let s := s.putAccount userId { account with erased := true }
      .ok ({ s with profile := s.profile.erase userId }, .ok)

def setProfile (s : Store) (userId : UserId) (displayname avatarUrl : Option (Option String)) :
    Store × UserResponse :=
  let profile := s.profile[userId]?.getD ⟨none, none⟩
  let profile := { profile with displayname := displayname.getD profile.displayname }
  let profile := { profile with avatarUrl := avatarUrl.getD profile.avatarUrl }
  ({ s with profile := s.profile.insert userId profile }, .ok)

/-! ## Tokens that are no sessions -/

def createRegistrationToken (s : Store) (token : String) (usesAllowed expiryTs : Option Nat)
    (ts : Nat) : Store × UserResponse :=
  if s.regToken.contains token then (s, .tokenExists)
  else ({ s with regToken := s.regToken.insert token ⟨usesAllowed, 0, expiryTs, ts⟩ }, .ok)

def deleteRegistrationToken (s : Store) (token : String) : Store × UserResponse :=
  if s.regToken.contains token then ({ s with regToken := s.regToken.erase token }, .ok)
  else (s, .notFound)

def createLoginToken (e s : Store) (tokenHash : Hash) (userId : UserId) (expiresTs nowTs : Nat) :
    Except StoreError (Store × UserResponse) := do
  let stale := e.loginToken.toList.filter fun r => r.2.expiresTs ≤ nowTs
  let s := { s with loginToken := s.loginToken.eraseRows stale }
  withAccount s userId fun account =>
    if !account.state.canAuthenticate then .ok (s, .invalidState)
    else .ok ({ s with loginToken := s.loginToken.insert tokenHash ⟨userId, expiresTs⟩ }, .ok)

def consumeLoginToken (s : Store) (tokenHash : Hash) (nowTs : Nat) :
    Except StoreError (Store × UserResponse) :=
  match s.loginToken[tokenHash]? with
  | none => .ok (s, .invalidGrant)
  | some entry =>
    let s := { s with loginToken := s.loginToken.erase tokenHash }
    if entry.expiresTs ≤ nowTs then .ok (s, .invalidGrant)
    else do
      let account ← s.getAccount entry.userId
      if account.any fun a => a.state.canAuthenticate then return (s, .loginTokenOwner entry.userId)
      else return (s, .invalidGrant)

def sweepUiaSessions (e s : Store) (expireBeforeTs : Nat) : Store :=
  (e.uiaSessionIdx.toList.filter fun k => k.1 < expireBeforeTs).foldl (fun s k =>
    { s with
      uiaSession := s.uiaSession.erase k.2
      uiaSessionIdx := s.uiaSessionIdx.erase k }) s

def completeStage (session : UiaSession) (stage : String)
    (registrationToken : Option String) : UiaSession :=
  { session with
    completed :=
      if session.completed.contains stage then session.completed else session.completed ++ [stage]
    registrationToken := registrationToken.or session.registrationToken }

def completeUiaStage (e s : Store) (sessionId : String) (requestHash : Hash) (stage : String)
    (registrationToken : Option String) (nowTs expireBeforeTs : Nat) : Store × UserResponse :=
  let s := sweepUiaSessions e s expireBeforeTs
  let finish (s : Store) (session : UiaSession) : Store × UserResponse :=
    let session := completeStage session stage registrationToken
    ({ s with uiaSession := s.uiaSession.insert sessionId session },
      .uiaCompleted session.completed session.registrationToken)
  match s.uiaSession[sessionId]? with
  | some session =>
    -- A session carries the stages already satisfied, for the request that started it.
    if session.requestHash ≠ requestHash then (s, .uiaRequestMismatch) else finish s session
  | none =>
    finish { s with uiaSessionIdx := s.uiaSessionIdx.insert (nowTs, sessionId) }
      ⟨requestHash, [], none, nowTs⟩

/-! ## Identity links -/

def linkExternalId (s : Store) (userId : UserId) (authProvider externalId : String) :
    Except StoreError (Store × UserResponse) :=
  withAccount s userId fun account =>
    if account.state = .deactivated then .ok (s, .invalidState)
    else
      match s.externalId[(authProvider, externalId)]?.filter (· ≠ userId) with
      | some owner => .ok (s, .externalIdInUse owner)
      | none =>
        -- Relinking drops the subject that this account held at this provider.
        let table :=
          match s.externalIdUser[(userId, authProvider)]?.filter (· ≠ externalId) with
          | some prev => s.externalId.erase (authProvider, prev)
          | none => s.externalId
        .ok ({ s with
          externalId := table.insert (authProvider, externalId) userId
          externalIdUser := s.externalIdUser.insert (userId, authProvider) externalId }, .ok)

def unlinkExternalId (s : Store) (userId : UserId) (authProvider : String) : Store × UserResponse :=
  match s.externalIdUser[(userId, authProvider)]? with
  | none => (s, .notFound)
  | some externalId =>
    ({ s with
      externalId := s.externalId.erase (authProvider, externalId)
      externalIdUser := s.externalIdUser.erase (userId, authProvider) }, .ok)

/-! ## Rooms -/

def applyRoomChange (s : Store) (c : MembershipChange) : Store :=
  let existing := s.membership[(c.userId, c.roomId)]?
  if existing.any fun m => c.roomSeq ≤ m.roomSeq then s
  else
    let (s, seq) := s.emitUserChange c.userId
    let wasJoined := existing.any fun m => m.membership = "join"
    let nowJoined := decide (c.membership = "join")
    let s :=
      if wasJoined ≠ nowJoined then s.putKeyChange seq c.userId (some (c.roomId, nowJoined)) else s
    { s with
      membership := s.membership.insert (c.userId, c.roomId)
        ⟨c.membership, c.eventId, c.sender, c.roomSeq, seq, false⟩ }

def applyRoomChanges (s : Store) (source : String) (uptoSeq : Nat)
    (changes : List MembershipChange) : Store × UserResponse :=
  if uptoSeq ≤ s.cursor[source]?.getD 0 then (s, .stale)
  else
    let s := changes.foldl applyRoomChange s
    ({ s with cursor := s.cursor.insert source uptoSeq }, .ok)

/-- A membership in a room this server does not host, with the stripped state of the room. The row
never wins against a projected one. -/
def recordRemote (s : Store) (membership : String) (userId : UserId) (roomId : RoomId)
    (sender : UserId) (eventId : String) (strippedState : List Bytes) : Store × UserResponse :=
  let (s, seq) := s.emitUserChange userId
  ({ s with
    membership := s.membership.insert (userId, roomId) ⟨membership, eventId, sender, 0, seq, false⟩
    inviteState := s.inviteState.insert (userId, roomId) strippedState }, .ok)

def recordRemoteInvite := fun s => recordRemote s "invite"

def recordRemoteKnock := fun s => recordRemote s "knock"

def recordRemoteLeave (s : Store) (userId : UserId) (roomId : RoomId) : Store × UserResponse :=
  let (s, seq) := s.emitUserChange userId
  let s :=
    if s.membership[(userId, roomId)]?.any fun m => m.membership = "join" then
      s.putKeyChange seq userId (some (roomId, false))
    else s
  ({ s with
    membership := s.membership.insert (userId, roomId) ⟨"leave", "", userId, 0, seq, false⟩
    inviteState := s.inviteState.erase (userId, roomId) }, .ok)

def forgetRoom (s : Store) (userId : UserId) (roomId : RoomId) : Store × UserResponse :=
  match s.membership[(userId, roomId)]? with
  | none => (s, .ok)
  | some entry =>
    ({ s with membership := s.membership.insert (userId, roomId) { entry with forgotten := true } }, .ok)

def createAlias (s : Store) (aliasName : String) (roomId : RoomId) (creator : UserId) :
    Store × UserResponse :=
  if s.aliasEntry.contains aliasName then (s, .aliasExists)
  else ({ s with aliasEntry := s.aliasEntry.insert aliasName ⟨roomId, creator⟩ }, .ok)

def deleteAlias (s : Store) (aliasName : String) : Store × UserResponse :=
  if s.aliasEntry.contains aliasName then
    ({ s with aliasEntry := s.aliasEntry.erase aliasName }, .ok)
  else (s, .notFound)

def setRoomVisibility (s : Store) (roomId : RoomId) (isPublic : Bool) : Store × UserResponse :=
  ({ s with directory := if isPublic then s.directory.insert roomId else s.directory.erase roomId }, .ok)

def setRoomBlocked (s : Store) (roomId : RoomId) (blocked : Bool) (blockedBy : UserId) (ts : Nat) :
    Store × UserResponse :=
  ({ s with roomBlocked :=
      if blocked then s.roomBlocked.insert roomId ⟨blockedBy, ts⟩ else s.roomBlocked.erase roomId },
    .ok)

/-! ## Device keys -/

structure UploadRun where
  store : Store
  nextOrder : Nat
  ids : OrdSet String

def uploadKey (userId : UserId) (deviceId : DeviceId) (r : UploadRun) (key : String × Bytes) : UploadRun :=
  if (r.store.oneTimeKey[(userId, deviceId, key.1)]?).isNone && !r.ids.contains key.1 then
    { store := { r.store with
        oneTimeKey := r.store.oneTimeKey.insert (userId, deviceId, key.1) ⟨r.nextOrder, key.2⟩ }
      nextOrder := r.nextOrder + 1
      ids := r.ids.insert key.1 }
  else r

def uploadFallback (userId : UserId) (deviceId : DeviceId) (s : Store) (key : String × Bytes) : Store :=
  let slot := (userId, deviceId, algorithmOf key.1)
  let used := s.fallbackKey[slot]?.any fun f => f.keyId = key.1 ∧ f.used
  { s with fallbackKey := s.fallbackKey.insert slot ⟨key.1, key.2, used⟩ }

def countKeys (ids : OrdSet String) : OrdMap String Nat :=
  ids.toList.foldl (fun counts id =>
    counts.insert (algorithmOf id) (counts[algorithmOf id]?.getD 0 + 1)) ∅

def putDeviceKeys (s : Store) (userId : UserId) (deviceId : DeviceId) (deviceKeys : Option Bytes) : Store :=
  match deviceKeys with
  | some keys =>
    ({ s with deviceKeys := s.deviceKeys.insert (userId, deviceId) keys }).logKeyChange userId
  | none => s

def uploadOneTimeKeys (e s : Store) (userId : UserId) (deviceId : DeviceId)
    (keys : List (String × Bytes)) : UploadRun :=
  let existing := e.oneTimeKeysOf userId deviceId
  keys.foldl (uploadKey userId deviceId)
    { store := s
      nextOrder := existing.foldl (fun n r => max n (r.2.order + 1)) 0
      ids := OrdSet.extend ∅ (existing.map fun r => r.1.2.2) }

def uploadKeys (e s : Store) (userId : UserId) (deviceId : DeviceId) (deviceKeys : Option Bytes)
    (oneTimeKeys fallbackKeys : List (String × Bytes)) : Store × UserResponse :=
  let s := putDeviceKeys s userId deviceId deviceKeys
  let r := uploadOneTimeKeys e s userId deviceId oneTimeKeys
  (fallbackKeys.foldl (uploadFallback userId deviceId) r.store, .oneTimeKeyCounts (countKeys r.ids).toList)

def ofAlgorithm (algorithm keyId : String) : Bool :=
  (algorithm ++ ":").toList.isPrefixOf keyId.toList

def oldestKey (e : Store) (req : ClaimRequest) : Option ((UserId × DeviceId × String) × OtkEntry) :=
  ((e.oneTimeKeysOf req.userId req.deviceId).filter fun r =>
    ofAlgorithm req.algorithm r.1.2.2).argmin fun r => r.2.order

def claimFallback (s : Store) (req : ClaimRequest) : Store × Option ClaimedKey :=
  let slot := (req.userId, req.deviceId, req.algorithm)
  match s.fallbackKey[slot]? with
  | none => (s, none)
  | some entry =>
    (if entry.used then s
      else { s with fallbackKey := s.fallbackKey.insert slot { entry with used := true } },
      some ⟨req.userId, req.deviceId, entry.keyId, entry.json⟩)

def claimKey (e s : Store) (req : ClaimRequest) : Store × Option ClaimedKey :=
  match oldestKey e req with
  | some (key, entry) =>
    ({ s with oneTimeKey := s.oneTimeKey.erase key }, some ⟨req.userId, req.deviceId, key.2.2, entry.json⟩)
  | none => claimFallback s req

def claimKeys (e s : Store) (claims : List ClaimRequest) : Store × UserResponse :=
  let (s, claimed) := claims.foldl (fun (s, claimed) req =>
    let (s, key) := claimKey e s req
    (s, claimed ++ key.toList)) (s, [])
  (s, .claimedKeys claimed)

def putCrossSigning (userId : UserId) (s : Store) (key : String × Option Bytes) : Store :=
  match key.2 with
  | some json => { s with crossSigning := s.crossSigning.insert (userId, key.1) json }
  | none => s

def setCrossSigningKeys (s : Store) (userId : UserId) (master selfSigning userSigning : Option Bytes) :
    Store × UserResponse :=
  let s := [("master", master), ("self_signing", selfSigning), ("user_signing", userSigning)].foldl
    (putCrossSigning userId) s
  (s.logKeyChange userId, .ok)

section Signatures

variable (serde : SerdeJson)

/-- Merge one signer's signatures into the `signatures` member. -/
def mergeSigner (sigs : JsonValue) (signer : String × JsonValue) : Option JsonValue := do
  let members ← sigs.asObject
  let existing := (members.lookup signer.1).getD (.object [])
  let keys ← signer.2.asObject
  let merged ← keys.foldlM (fun (perSigner : JsonValue) key => do
    return .object (JsonValue.insertMember key.1 key.2 (← perSigner.asObject))) existing
  return .object (JsonValue.insertMember signer.1 merged members)

def mergeSignatures (stored patch : Bytes) : Option Bytes := do
  let obj ← serde.fromSlice stored
  let patch ← serde.fromSlice patch
  let members ← obj.asObject
  let sigs := (members.lookup "signatures").getD (.object [])
  let merged ← (← patch.asObject).foldlM mergeSigner sigs
  serde.toVec (.object (JsonValue.insertMember "signatures" merged members))

def holdsKey (stored : Bytes) (target : String) : Bool :=
  ((serde.fromSlice stored).bind fun v => (v.get "keys").bind JsonValue.asObject).any fun keys =>
    keys.any fun m => m.1 = target ∨ target.toList.isSuffixOf m.1.toList

def signCrossSigning (userId : UserId) (target : String) (patch : Bytes) (s : Store) :
    List String → Store × Bool
  | [] => (s, false)
  | kind :: kinds =>
    match s.crossSigning[(userId, kind)]? with
    | none => signCrossSigning userId target patch s kinds
    | some stored =>
      if holdsKey serde stored target then
        match mergeSignatures serde stored patch with
        | some updated =>
          ({ s with crossSigning := s.crossSigning.insert (userId, kind) updated }, true)
        | none => (s, false)
      else signCrossSigning userId target patch s kinds

def addSignature (userId : UserId) (s : Store) (target : String × Bytes) : Store × Bool :=
  match s.deviceKeys[(userId, target.1)]? with
  | some stored =>
    match mergeSignatures serde stored target.2 with
    | some updated => ({ s with deviceKeys := s.deviceKeys.insert (userId, target.1) updated }, true)
    | none => (s, false)
  | none =>
    signCrossSigning serde userId target.1 target.2 s ["master", "self_signing", "user_signing"]

def addSignatures (s : Store) (userId : UserId) (targets : List (String × Bytes)) : Store × UserResponse :=
  let (s, changed) := targets.foldl (fun (s, changed) target =>
    let (s, merged) := addSignature serde userId s target
    (s, changed || merged)) (s, false)
  (if changed then s.logKeyChange userId else s, .ok)

end Signatures

/-! ## To-device messages and the outbox -/

/-- Queue one message; `"*"` goes to the devices the scan finds, and a named device must exist. -/
def queueMessage (e s : Store) (m : ToDeviceMessage) : Store :=
  let deviceIds :=
    if m.deviceId = "*" then (e.devicesOf m.userId).map fun r => r.1.2
    else if s.device.contains (m.userId, m.deviceId) then [m.deviceId]
    else []
  if deviceIds.isEmpty then s
  else
    let (s, seq) := s.emitUserChange m.userId
    { s with toDevice := deviceIds.foldl (fun inbox deviceId =>
        inbox.insert (m.userId, deviceId, seq) m.json) s.toDevice }

def queueToDevice (e s : Store) (messages : List ToDeviceMessage) : Store :=
  messages.foldl (queueMessage e) s

def toDeviceSeenHorizonMs : Nat := 60 * 60 * 1000

/-- How long a client transaction stays deduplicated. -/
def txnSeenHorizonMs : Nat := 24 * 60 * 60 * 1000

def sendToDeviceDeduped (e s : Store) (origin messageId : String) (tsMs : Nat)
    (messages : List ToDeviceMessage) : Store × UserResponse :=
  -- A redelivered transaction is dropped whole.
  if s.toDeviceSeen.contains (origin, messageId) then (s, .ok)
  else
    let s := { s with
      toDeviceSeen := s.toDeviceSeen.insert (origin, messageId) tsMs
      toDeviceSeenIdx := s.toDeviceSeenIdx.insert (tsMs, origin, messageId) }
    let cutoff := tsMs - toDeviceSeenHorizonMs
    let s := (e.toDeviceSeenIdx.toList.filter fun k => k.1 < cutoff).foldl (fun s k =>
      { s with
        toDeviceSeenIdx := s.toDeviceSeenIdx.erase k
        toDeviceSeen := s.toDeviceSeen.erase k.2 }) s
    (queueToDevice e s messages, .ok)

def markTxn (e s : Store) (key : TxnKey) (ts : Nat) : Store × UserResponse :=
  let s := { s with
    txnSeen := s.txnSeen.insert key ts
    txnSeenIdx := s.txnSeenIdx.insert (ts, key) }
  let cutoff := ts - txnSeenHorizonMs
  ((e.txnSeenIdx.toList.filter fun k => k.1 < cutoff).foldl (fun s k =>
    { s with
      txnSeenIdx := s.txnSeenIdx.erase k
      txnSeen := s.txnSeen.erase k.2 }) s, .ok)

/-- `n.saturating_add(1)` of a `u64`. -/
def succSaturating (n : Nat) : Nat := min (n + 1) (2 ^ 64 - 1)

/-- `n + 1` of a `u64`, as the release build computes it. -/
def succWrapping (n : Nat) : Nat := (n + 1) % 2 ^ 64

def ackToDevice (e s : Store) (userId : UserId) (deviceId : DeviceId) (upTo : Nat) : Store × UserResponse :=
  ({ s with toDevice := s.toDevice.eraseRows (e.toDevice.rows fun k =>
      k.1 = userId ∧ k.2.1 = deviceId ∧ k.2.2 < succSaturating upTo) }, .ok)

def queueEdu (s : Store) (edu : OutboundEdu) : Store :=
  let (s, seq) := s.emitUserChange ""
  { s with eduOutbox := s.eduOutbox.insert (edu.destination, seq) edu.json }

def ackOutboundEdus (e s : Store) (destination : String) (upTo : Nat) : Store × UserResponse :=
  ({ s with eduOutbox := s.eduOutbox.eraseRows (e.eduOutbox.rows fun k =>
      k.1 = destination ∧ k.2 < succWrapping upTo) }, .ok)

def setPusher (e s : Store) (userId : UserId) (deviceId : DeviceId) (appId pushkey : String)
    (json : Option Bytes) : Store × UserResponse :=
  let table := s.pusher.eraseRows (e.pusher.rows fun k =>
    k.1 = userId ∧ k.2.2.1 = appId ∧ k.2.2.2 = pushkey)
  ({ s with pusher :=
      match json with
      | some json => table.insert (userId, deviceId, appId, pushkey) json
      | none => table }, .ok)

/-! ## Key backup -/

/-- The next version is one past the highest that the scan finds, deleted ones included. -/
def createBackupVersion (e s : Store) (userId : UserId) (algorithm : String) (authData : Bytes) :
    Store × UserResponse :=
  let last := ((e.backupVersion.rows fun k => k.1 = userId).getLast?.map fun r => r.1.2).getD 0
  (s.putBackupMeta userId (last + 1) ⟨algorithm, authData, 0, 0, false⟩, .backupVersion (last + 1))

def updateBackupVersion (s : Store) (userId : UserId) (version : Nat) (algorithm : String)
    (authData : Bytes) : Store × UserResponse :=
  match s.backupMeta userId version with
  | none => (s, .notFound)
  | some m => (s.putBackupMeta userId version { m with algorithm, authData }, .ok)

def deleteBackupVersion (e s : Store) (userId : UserId) (version : Nat) : Store × UserResponse :=
  match s.backupMeta userId version with
  | none => (s, .notFound)
  | some m =>
    let s := { s with backupKey := s.backupKey.eraseRows (e.backupKey.rows fun k =>
      k.1 = userId ∧ k.2.1 = version) }
    (s.putBackupMeta userId version { m with deleted := true, count := 0 }, .ok)

section BackupKeys

variable (serde : SerdeJson)

/-- What the replacement rules read of a backed-up key. -/
def backupFields (json : Bytes) : Bool × Int × Int :=
  let v := (serde.fromSlice json).getD .null
  let int (key : String) : Int := ((v.get key).bind JsonValue.asInt).getD 0
  (((v.get "is_verified").bind JsonValue.asBool).getD false, int "first_message_index",
    int "forwarded_count")

/-- The replacement rules: a verified key beats an unverified one, then the lower index, then the
lower count; ties keep the existing key. -/
def backupKeyWins (new old : Bytes) : Bool :=
  let (newVerified, newIndex, newForwarded) := backupFields serde new
  let (oldVerified, oldIndex, oldForwarded) := backupFields serde old
  if newVerified ≠ oldVerified then newVerified
  else if newIndex ≠ oldIndex then newIndex < oldIndex
  else newForwarded < oldForwarded

/-- The backup loop: the store, the version's session count, and whether anything changed. -/
structure BackupRun where
  store : Store
  count : Nat
  changed : Bool

def putBackupKey (userId : UserId) (version : Nat) (r : BackupRun)
    (key : RoomId × String × Bytes) : BackupRun :=
  let slot := (userId, version, key.1, key.2.1)
  let put (count : Nat) : BackupRun :=
    ⟨{ r.store with backupKey := r.store.backupKey.insert slot key.2.2 }, count, true⟩
  match r.store.backupKey[slot]? with
  | none => put (r.count + 1)
  | some old => if backupKeyWins serde key.2.2 old then put r.count else r

def putBackupKeys (s : Store) (userId : UserId) (version : Nat)
    (keys : List (RoomId × String × Bytes)) : Store × UserResponse :=
  match s.backupMeta userId version with
  | none => (s, .notFound)
  | some m =>
    let r := keys.foldl (putBackupKey serde userId version) ⟨s, m.count, false⟩
    let etag := if r.changed then m.etag + 1 else m.etag
    (if r.changed then r.store.putBackupMeta userId version { m with count := r.count, etag }
      else r.store, .backupStatus r.count etag)

end BackupKeys

/-- The stored keys that a deletion removes: one session, which is read, or a scan. A session without
a room names no row. -/
def backupKeysToDelete (e s : Store) (userId : UserId) (version : Nat) :
    Option RoomId → Option String → List ((UserId × Nat × RoomId × String) × Bytes)
  | some roomId, some sessionId =>
    (s.backupKey[(userId, version, roomId, sessionId)]?.map fun json =>
      ((userId, version, roomId, sessionId), json)).toList
  | none, some _ => []
  | some roomId, none =>
    e.backupKey.rows fun k => k.1 = userId ∧ k.2.1 = version ∧ k.2.2.1 = roomId
  | none, none => e.backupKey.rows fun k => k.1 = userId ∧ k.2.1 = version

def deleteBackupKeys (e s : Store) (userId : UserId) (version : Nat) (roomId : Option RoomId)
    (sessionId : Option String) : Store × UserResponse :=
  match s.backupMeta userId version with
  | none => (s, .notFound)
  | some m =>
    let removed := backupKeysToDelete e s userId version roomId sessionId
    let s := { s with backupKey := s.backupKey.eraseRows removed }
    if removed.isEmpty then (s, .backupStatus m.count m.etag)
    else
      let m := { m with count := m.count - removed.length, etag := m.etag + 1 }
      (s.putBackupMeta userId version m, .backupStatus m.count m.etag)

/-! ## The interpreter -/

def apply (serde : SerdeJson) (e s : Store) : UserCommand → Except StoreError (Store × UserResponse)
  | .register userId passwordHash ts session => applyRegister s userId passwordHash ts session none
  | .registerWithToken userId passwordHash ts session registrationToken =>
    applyRegister s userId passwordHash ts session registrationToken
  | .createSession session => createSession s session
  | .refreshSession oldRefreshHash session => refreshSession s oldRefreshHash session
  | .deleteDevice userId deviceId => .ok (deleteOneDevice e s userId deviceId)
  | .deleteAllDevices userId => .ok (logoutDevices e s userId none, .ok)
  | .upsertDevice userId deviceId displayName ts => .ok (upsertDevice s userId deviceId displayName ts)
  | .setDeviceName userId deviceId displayName => .ok (setDeviceName s userId deviceId displayName)
  | .setProfile userId displayname avatarUrl => .ok (setProfile s userId displayname avatarUrl)
  | .putAccountData userId roomId dataType json =>
    let (s, seq) := s.emitUserChange userId
    .ok ({ s with accountData := s.accountData.insert (userId, roomId, dataType) ⟨json, seq⟩ }, .ok)
  | .putFilter userId filterId json =>
    .ok ({ s with filter := s.filter.insert (userId, filterId) json }, .ok)
  | .applyRoomChanges source uptoSeq changes => .ok (applyRoomChanges s source uptoSeq changes)
  | .createAlias aliasName roomId creator => .ok (createAlias s aliasName roomId creator)
  | .deleteAlias aliasName => .ok (deleteAlias s aliasName)
  | .setRoomVisibility roomId isPublic => .ok (setRoomVisibility s roomId isPublic)
  | .putMedia mediaId mediaMeta =>
    .ok ({ s with media := s.media.insert mediaId mediaMeta }, .ok)
  | .recordRemoteInvite userId roomId sender eventId strippedState =>
    .ok (recordRemoteInvite s userId roomId sender eventId strippedState)
  | .recordRemoteKnock userId roomId sender eventId strippedState =>
    .ok (recordRemoteKnock s userId roomId sender eventId strippedState)
  | .recordRemoteLeave userId roomId => .ok (recordRemoteLeave s userId roomId)
  | .forgetRoom userId roomId => .ok (forgetRoom s userId roomId)
  | .uploadKeys userId deviceId deviceKeys oneTimeKeys fallbackKeys =>
    .ok (uploadKeys e s userId deviceId deviceKeys oneTimeKeys fallbackKeys)
  | .claimKeys claims => .ok (claimKeys e s claims)
  | .setCrossSigningKeys userId master selfSigning userSigning =>
    .ok (setCrossSigningKeys s userId master selfSigning userSigning)
  | .addSignatures userId targets => .ok (addSignatures serde s userId targets)
  | .sendToDevice messages => .ok (queueToDevice e s messages, .ok)
  | .sendToDeviceDeduped origin messageId tsMs messages =>
    .ok (sendToDeviceDeduped e s origin messageId tsMs messages)
  | .markTxn userId deviceId scope txnId ts => .ok (markTxn e s (userId, deviceId, scope, txnId) ts)
  | .recordKeyChange userId => .ok (s.logKeyChange userId, .ok)
  | .queueOutboundEdus entries => .ok (entries.foldl queueEdu s, .ok)
  | .ackOutboundEdus destination upTo => .ok (ackOutboundEdus e s destination upTo)
  | .changePassword userId passwordHash logoutOthers keepDevice =>
    changePassword e s userId passwordHash logoutOthers keepDevice
  | .deactivate userId => applyDeactivate e s userId
  | .setLocked userId locked => setLocked e s userId locked
  | .setAdmin userId admin => setAdmin s userId admin
  | .adminSetPassword userId passwordHash logoutDevices =>
    adminSetPassword e s userId passwordHash logoutDevices
  | .completeUiaStage sessionId requestHash stage registrationToken nowTs expireBeforeTs =>
    .ok (completeUiaStage e s sessionId requestHash stage registrationToken nowTs expireBeforeTs)
  | .createRegistrationToken token usesAllowed expiryTs ts =>
    .ok (createRegistrationToken s token usesAllowed expiryTs ts)
  | .deleteRegistrationToken token => .ok (deleteRegistrationToken s token)
  | .linkExternalId userId authProvider externalId => linkExternalId s userId authProvider externalId
  | .unlinkExternalId userId authProvider => .ok (unlinkExternalId s userId authProvider)
  | .setNoticesRoom userId roomId =>
    .ok ({ s with noticesRoom := s.noticesRoom.insert userId roomId }, .ok)
  | .setRoomBlocked roomId blocked blockedBy ts =>
    .ok (setRoomBlocked s roomId blocked blockedBy ts)
  | .createLoginToken tokenHash userId expiresTs nowTs =>
    createLoginToken e s tokenHash userId expiresTs nowTs
  | .consumeLoginToken tokenHash nowTs => consumeLoginToken s tokenHash nowTs
  | .setErased userId => setErased s userId
  | .createBackupVersion userId algorithm authData =>
    .ok (createBackupVersion e s userId algorithm authData)
  | .updateBackupVersion userId version algorithm authData =>
    .ok (updateBackupVersion s userId version algorithm authData)
  | .deleteBackupVersion userId version => .ok (deleteBackupVersion e s userId version)
  | .putBackupKeys userId version keys => .ok (putBackupKeys serde s userId version keys)
  | .deleteBackupKeys userId version roomId sessionId =>
    .ok (deleteBackupKeys e s userId version roomId sessionId)
  | .setPusher userId deviceId appId pushkey json =>
    .ok (setPusher e s userId deviceId appId pushkey json)
  | .ackToDevice userId deviceId upTo => .ok (ackToDevice e s userId deviceId upTo)

/-! ## Schema migrations -/

/-- Decode an account row as the shape before schema 3. The decoder stops after the last field, so a
row of the current shape gives its first two fields and its state read as a flag. -/
def decodeAccountV2 : AccountRow → Except StoreError AccountV2
  | .v2 old => .ok old
  | .current account =>
    match account.state with
    | .active => .ok ⟨account.passwordHash, account.createdTs, false⟩
    | .locked => .ok ⟨account.passwordHash, account.createdTs, true⟩
    | .deactivated => .error (.codec "account v2 decode")

def accountV2ToV3 (old : AccountV2) : Account where
  passwordHash := old.passwordHash
  createdTs := old.createdTs
  state := if old.deactivated then .deactivated else .active
  admin := false
  erased := false

def decodeTokenV4 : TokenRow → TokenEntryV4
  | .v4 old => old
  | .current entry =>
    ⟨entry.userId, entry.deviceId, entry.kind, entry.createdTs, entry.expiresTs⟩

def tokenV4ToV5 (old : TokenEntryV4) (state : AccountState) : TokenEntry where
  userId := old.userId
  deviceId := old.deviceId
  kind := old.kind
  createdTs := old.createdTs
  expiresTs := old.expiresTs
  state := state

def migrate (e s : Store) : Nat → Except StoreError Store
  -- The outbox moved to another shard.
  | 2 => .ok { s with eduOutbox := s.eduOutbox.eraseRows e.eduOutbox.toList }
  | 3 => e.account.toList.foldlM (fun s r => do
      return s.putAccount r.1 (accountV2ToV3 (← decodeAccountV2 r.2))) s
  -- The transaction tables start empty.
  | 4 => .ok s
  | 5 => e.token.toList.foldlM (fun s r => do
      let old := decodeTokenV4 r.2
      return s.putToken r.1 (tokenV4ToV5 old (← s.accountState old.userId))) s
  | 6 => .ok { s with username := OrdSet.extend s.username (e.account.toList.map Prod.fst) }
  | other => .error (.engine
      ("no migration registered for user schema step v" ++ toString other))

end Saltator.User.Machine
