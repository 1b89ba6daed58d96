import Saltator.User.Machine

/-!
# What a user command writes

`frame cmd s t` is `s` with the tables that the command may write taken from `t`. `apply_frame` says
that a command leaves every other table alone; it is the only place that looks at all commands.
-/

namespace Saltator.User.Machine

open Std
open Store
open Saltator.Outcome

/-! ## Frames -/

/-- The tables a log entry is written to, taken from `t`. -/
def logFrame (s t : Store) : Store :=
  { s with keyChange := t.keyChange, seq := t.seq, emits := t.emits }

/-- The tables of devices and what belongs to them, taken from `t`. -/
def devicesFrame (s t : Store) : Store :=
  { s with
    token := t.token, device := t.device, deviceKeys := t.deviceKeys, oneTimeKey := t.oneTimeKey
    toDevice := t.toDevice, pusher := t.pusher, fallbackKey := t.fallbackKey }

/-- The tables that the command may write, taken from `t`. -/
def frame (s t : Store) : UserCommand → Store
  | .register .. | .registerWithToken .. =>
    { s with
      account := t.account, username := t.username, regToken := t.regToken, token := t.token
      device := t.device }
  | .createSession .. | .refreshSession .. => { s with token := t.token, device := t.device }
  | .deleteDevice .. | .deleteAllDevices .. => logFrame (devicesFrame s t) t
  | .changePassword .. | .adminSetPassword .. | .deactivate .. =>
    logFrame (devicesFrame { s with account := t.account } t) t
  | .upsertDevice .. | .setDeviceName .. => logFrame { s with device := t.device } t
  | .setLocked .. => { s with account := t.account, token := t.token }
  | .setAdmin .. => { s with account := t.account }
  | .setErased .. => { s with account := t.account, profile := t.profile }
  | .setProfile .. => { s with profile := t.profile }
  | .putAccountData .. => { s with accountData := t.accountData, seq := t.seq, emits := t.emits }
  | .putFilter .. => { s with filter := t.filter }
  | .applyRoomChanges .. =>
    logFrame { s with membership := t.membership, cursor := t.cursor } t
  | .recordRemoteInvite .. | .recordRemoteKnock .. | .recordRemoteLeave .. =>
    logFrame { s with membership := t.membership, inviteState := t.inviteState } t
  | .forgetRoom .. => { s with membership := t.membership }
  | .createAlias .. | .deleteAlias .. => { s with aliasEntry := t.aliasEntry }
  | .setRoomVisibility .. => { s with directory := t.directory }
  | .putMedia .. => { s with media := t.media }
  | .uploadKeys .. => logFrame { s with
      deviceKeys := t.deviceKeys, oneTimeKey := t.oneTimeKey, fallbackKey := t.fallbackKey } t
  | .claimKeys .. => { s with oneTimeKey := t.oneTimeKey, fallbackKey := t.fallbackKey }
  | .setCrossSigningKeys .. => logFrame { s with crossSigning := t.crossSigning } t
  | .addSignatures .. =>
    logFrame { s with deviceKeys := t.deviceKeys, crossSigning := t.crossSigning } t
  | .sendToDevice .. => { s with toDevice := t.toDevice, seq := t.seq, emits := t.emits }
  | .sendToDeviceDeduped .. =>
    { s with
      toDevice := t.toDevice, seq := t.seq, emits := t.emits, toDeviceSeen := t.toDeviceSeen
      toDeviceSeenIdx := t.toDeviceSeenIdx }
  | .ackToDevice .. => { s with toDevice := t.toDevice }
  | .markTxn .. => { s with txnSeen := t.txnSeen, txnSeenIdx := t.txnSeenIdx }
  | .recordKeyChange .. => logFrame s t
  | .queueOutboundEdus .. => { s with eduOutbox := t.eduOutbox, seq := t.seq, emits := t.emits }
  | .ackOutboundEdus .. => { s with eduOutbox := t.eduOutbox }
  | .setPusher .. => { s with pusher := t.pusher }
  | .createBackupVersion .. | .updateBackupVersion .. | .deleteBackupVersion ..
  | .putBackupKeys .. | .deleteBackupKeys .. =>
    { s with backupVersion := t.backupVersion, backupKey := t.backupKey }
  | .completeUiaStage .. =>
    { s with uiaSession := t.uiaSession, uiaSessionIdx := t.uiaSessionIdx }
  | .createRegistrationToken .. | .deleteRegistrationToken .. => { s with regToken := t.regToken }
  | .linkExternalId .. | .unlinkExternalId .. =>
    { s with externalId := t.externalId, externalIdUser := t.externalIdUser }
  | .setNoticesRoom .. => { s with noticesRoom := t.noticesRoom }
  | .setRoomBlocked .. => { s with roomBlocked := t.roomBlocked }
  | .createLoginToken .. | .consumeLoginToken .. => { s with loginToken := t.loginToken }

theorem foldl_frame {α : Type} {F : Store → Store → Store} {f : Store → α → Store}
    (refl : ∀ s, s = F s s) (step : ∀ s a, f s a = F s (f s a))
    (trans : ∀ s t u, t = F s t → u = F t u → u = F s u) (l : List α) (s : Store) :
    l.foldl f s = F s (l.foldl f s) := by
  induction l generalizing s with
  | nil => exact refl s
  | cons a l ih => exact trans s (f s a) _ (step s a) (ih (f s a))

theorem foldlM_frame {α : Type} {F : Store → Store → Store} {f : Store → α → Except StoreError Store}
    (refl : ∀ s, s = F s s) (step : ∀ s a t, f s a = .ok t → t = F s t)
    (trans : ∀ s t u, t = F s t → u = F t u → u = F s u) {l : List α} {s t : Store}
    (h : l.foldlM f s = .ok t) : t = F s t := by
  induction l generalizing s with
  | nil =>
    obtain rfl := pure_eq_ok.1 h
    exact refl s
  | cons a l ih =>
    rw [List.foldlM_cons, bind_eq_ok] at h
    obtain ⟨u, first, rest⟩ := h
    exact trans s u t (step s a u first) (ih rest)

/-! ## Sessions and devices -/

section Sessions

variable {e s t : Store} {userId : UserId} {c : SessionCmd} {r : UserResponse} {state : AccountState}

theorem withAccount_eq_ok {f : Account → Except StoreError (Store × UserResponse)}
    (h : withAccount s userId f = .ok (t, r)) :
    (t = s ∧ r = .notFound ∧ s.getAccount userId = .ok none) ∨
      ∃ account, s.getAccount userId = .ok (some account) ∧ f account = .ok (t, r) := by
  rw [withAccount, bind_eq_ok] at h
  obtain ⟨found, hget, h⟩ := h
  cases found with
  | none =>
    obtain ⟨rfl, rfl⟩ := ok_pair h
    exact .inl ⟨rfl, rfl, hget⟩
  | some account => exact .inr ⟨account, hget, h⟩

theorem writeSession_eq_ok (h : writeSession s c = .ok t) : ∃ state, s.accountState c.userId = .ok state ∧
      t = let existing := s.device[(c.userId, c.deviceId)]?
        let s := s.dropTokens ((existing.map Device.hashes).getD [])
        let s := { s with
          device := s.device.insert (c.userId, c.deviceId) (sessionDevice existing c) }
        let s := s.putToken c.tokenHash (sessionToken c .access c.expiresTs state)
        match c.refreshHash with
        | some hash => s.putToken hash (sessionToken c .refresh none state)
        | none => s := by
  rw [writeSession, bind_eq_ok] at h
  obtain ⟨state, hstate, h⟩ := h
  refine ⟨state, hstate, ?_⟩
  cases refresh : c.refreshHash with
  | some hash =>
    rw [refresh] at h
    exact (pure_eq_ok.1 h).symm
  | none =>
    rw [refresh] at h
    exact (pure_eq_ok.1 h).symm

theorem writeSession_frame (h : writeSession s c = .ok t) :
    t = { s with token := t.token, device := t.device } := by
  obtain ⟨state, -, rfl⟩ := writeSession_eq_ok h
  dsimp only
  split <;> rfl

theorem writeSession_device (h : writeSession s c = .ok t) :
    t.device = s.device.insert (c.userId, c.deviceId)
      (sessionDevice s.device[(c.userId, c.deviceId)]? c) := by
  obtain ⟨state, -, rfl⟩ := writeSession_eq_ok h
  dsimp only
  split <;> rfl

theorem createSession_eq_ok (h : createSession s c = .ok (t, r)) : (t = s ∧ r = .notFound) ∨
      (s.account[c.userId]?).isSome ∧ writeSession s c = .ok t ∧ r = .ok := by
  unfold createSession at h
  split at h
  · obtain ⟨rfl, rfl⟩ := ok_pair h
    exact .inl ⟨rfl, rfl⟩
  · rename_i owner
    obtain ⟨u, written, h⟩ := bind_eq_ok.1 h
    obtain ⟨rfl, rfl⟩ := ok_pair h
    refine .inr ⟨?_, written, rfl⟩
    rwa [Option.isNone_iff_eq_none, ← ne_eq, Option.ne_none_iff_isSome] at owner

theorem refreshSession_eq_ok {old : Hash} (h : refreshSession s old c = .ok (t, r)) :
    (t = s ∧ r = .invalidGrant) ∨ ∃ entry, s.getToken old = .ok (some entry) ∧ validRefresh c entry = true ∧
        writeSession s c = .ok t ∧ r = .ok := by
  obtain ⟨found, known, h⟩ := bind_eq_ok.1 h
  split at h
  · rename_i valid
    obtain ⟨entry, rfl, valid⟩ := (Option.any_eq_true _ _).1 valid
    obtain ⟨u, written, h⟩ := bind_eq_ok.1 h
    obtain ⟨rfl, rfl⟩ := ok_pair h
    exact .inr ⟨entry, known, valid, written, rfl⟩
  · obtain ⟨rfl, rfl⟩ := ok_pair h
    exact .inl ⟨rfl, rfl⟩

theorem deleteDevice_frame (userId : UserId) (deviceId : DeviceId) :
    (deleteDevice e s userId deviceId).1 = devicesFrame s (deleteDevice e s userId deviceId).1 := by
  unfold deleteDevice
  split <;> rfl

theorem deleteDevicesExcept_frame (userId : UserId) (keep : Option DeviceId) :
    (deleteDevicesExcept e s userId keep).1 = devicesFrame s (deleteDevicesExcept e s userId keep).1 := by
  refine List.foldlRecOn (motive := fun r : Store × Bool => r.1 = devicesFrame s r.1)
    (e.devicesOf userId) _ rfl fun r ih row _ => ?_
  dsimp only
  split
  · exact ih
  · exact (deleteDevice_frame userId row.1.2).trans (by rw [ih]; rfl)

theorem logoutDevices_frame (userId : UserId) (keep : Option DeviceId) : logoutDevices e s userId keep =
      logFrame (devicesFrame s (logoutDevices e s userId keep)) (logoutDevices e s userId keep) := by
  have deleted := deleteDevicesExcept_frame (e := e) (s := s) userId keep
  unfold logoutDevices
  generalize deleteDevicesExcept e s userId keep = r at deleted ⊢
  obtain ⟨u, any⟩ := r
  dsimp only at deleted ⊢
  split
  · rw [deleted]
    rfl
  · rw [deleted]
    rfl

theorem logoutDevices_account (userId : UserId) (keep : Option DeviceId) :
    (logoutDevices e s userId keep).account = s.account := by
  have shape := congrArg Store.account (logoutDevices_frame (e := e) (s := s) userId keep)
  exact shape

def restampRow (state : AccountState) : TokenRow → TokenRow
  | .current entry => .current { entry with state := state }
  | .v4 old => .v4 old

def restampRows (state : AccountState) (token : OrdMap Hash TokenRow) (hashes : List Hash) :
    OrdMap Hash TokenRow :=
  hashes.foldl (fun m h =>
    match m[h]? with
    | some row => m.insert h (restampRow state row)
    | none => m) token

theorem getElem?_restampRows {token : OrdMap Hash TokenRow} {hashes : List Hash} {k : Hash} :
    (restampRows state token hashes)[k]? =
      if k ∈ hashes then token[k]?.map (restampRow state) else token[k]? := by
  have twice : ∀ row, restampRow state (restampRow state row) = restampRow state row := by
    intro row
    cases row <;> rfl
  unfold restampRows
  induction hashes generalizing token with
  | nil => simp
  | cons h hashes ih =>
    rw [List.foldl_cons, ih]
    cases found : token[h]? with
    | none => grind
    | some row => grind [OrdMap.getElem?_insert']

def oldRow (token : OrdMap Hash TokenRow) (h : Hash) : Bool :=
  match token[h]? with
  | some (.v4 _) => true
  | _ => false

/-- Restamping fails at a row of the old shape, and otherwise writes the rows that are there. -/
theorem foldlM_restampToken (state : AccountState) (hashes : List Hash) (s : Store) :
    hashes.foldlM (restampToken state) s =
      if hashes.any (oldRow s.token) then .error (.codec "token decode")
      else .ok { s with token := restampRows state s.token hashes } := by
  induction hashes generalizing s with
  | nil => rfl
  | cons h hashes ih =>
    rw [List.foldlM_cons, List.any_cons, restampToken, getToken, oldRow, restampRows, List.foldl_cons]
    cases found : s.token[h]? with
    | none => exact ih s
    | some row =>
      cases row with
      | v4 old => rfl
      | current entry =>
        have old : oldRow (s.token.insert h (.current { entry with state := state })) = oldRow s.token := by
          funext k
          unfold oldRow
          rw [OrdMap.getElem?_insert']
          by_cases same : k = h
          · rw [if_pos same, same, found]
          · rw [if_neg same]
        have rest := ih (s.putToken h { entry with state := state })
        rw [putToken, old] at rest
        exact rest

theorem foldlM_restampToken_congr (state : AccountState) {hashes hashes' : List Hash} {s : Store}
    (h : ∀ k ∈ s.token, k ∈ hashes ↔ k ∈ hashes') :
    hashes.foldlM (restampToken state) s = hashes'.foldlM (restampToken state) s := by
  have rows : restampRows state s.token hashes = restampRows state s.token hashes' := by
    apply ExtTreeMap.ext_getElem?
    intro k
    rw [getElem?_restampRows, getElem?_restampRows]
    by_cases hk : k ∈ s.token
    · simp only [h k hk]
    · simp [ExtTreeMap.getElem?_eq_none hk]
  have old : hashes.any (oldRow s.token) = hashes'.any (oldRow s.token) := by
    have there : ∀ k, oldRow s.token k = true → k ∈ s.token := by
      intro k hk
      unfold oldRow at hk
      split at hk
      · rename_i found
        exact OrdMap.mem_iff_getElem?.2 ⟨_, found⟩
      · simp at hk
    rw [Bool.eq_iff_iff, List.any_eq_true, List.any_eq_true]
    exact exists_congr fun k => and_congr_left fun hk => h k (there k hk)
  rw [foldlM_restampToken, foldlM_restampToken, rows, old]

theorem restampTokens_frame (h : restampTokens e s userId state = .ok t) :
    t = { s with token := t.token } := by
  refine foldlM_frame (F := fun s t => { s with token := t.token }) (fun _ => rfl)
    (fun s hash t h => ?_) (fun s t u hst htu => htu.trans (by rw [hst])) h
  rw [restampToken, bind_eq_ok] at h
  obtain ⟨found, -, h⟩ := h
  split at h
  · obtain rfl := pure_eq_ok.1 h
    rfl
  · obtain rfl := pure_eq_ok.1 h
    rfl

end Sessions

/-! ## The other commands -/

section Others

variable {serde : SerdeJson} {e s t : Store} {userId : UserId} {r : UserResponse}
  {registrationToken : Option String} {passwordHash : Option String} {session : Option SessionCmd}
  {ts : Nat}

theorem applyRoomChange_frame (change : MembershipChange) : applyRoomChange s change =
      logFrame { s with membership := (applyRoomChange s change).membership }
        (applyRoomChange s change) := by
  unfold applyRoomChange
  dsimp only
  split
  · rfl
  · split <;> rfl

theorem uploadOneTimeKeys_frame (userId : UserId) (deviceId : DeviceId) (keys : List (String × Bytes)) :
    (uploadOneTimeKeys e s userId deviceId keys).store =
      { s with oneTimeKey := (uploadOneTimeKeys e s userId deviceId keys).store.oneTimeKey } := by
  refine List.foldlRecOn (motive := fun r : UploadRun =>
    r.store = { s with oneTimeKey := r.store.oneTimeKey }) keys _ rfl fun r ih key _ => ?_
  unfold uploadKey
  split
  · dsimp only
    rw [ih]
  · exact ih

theorem uploadFallbacks_frame (userId : UserId) (deviceId : DeviceId) (keys : List (String × Bytes)) :
    keys.foldl (uploadFallback userId deviceId) s =
      { s with fallbackKey := (keys.foldl (uploadFallback userId deviceId) s).fallbackKey } :=
  foldl_frame (F := fun s t => { s with fallbackKey := t.fallbackKey }) (fun _ => rfl)
    (fun _ _ => rfl) (fun s t u hst htu => htu.trans (by rw [hst])) keys s

def claimStep (e : Store) (x : Store × List ClaimedKey) (req : ClaimRequest) : Store × List ClaimedKey :=
  ((claimKey e x.1 req).1, x.2 ++ (claimKey e x.1 req).2.toList)

theorem claimKeys_eq (claims : List ClaimRequest) : claimKeys e s claims =
      ((claims.foldl (claimStep e) (s, [])).1, .claimedKeys (claims.foldl (claimStep e) (s, [])).2) :=
  rfl

theorem claimKeys_frame (claims : List ClaimRequest) : (claimKeys e s claims).1 =
      { s with
        oneTimeKey := (claimKeys e s claims).1.oneTimeKey
        fallbackKey := (claimKeys e s claims).1.fallbackKey } := by
  refine List.foldlRecOn (motive := fun r : Store × List ClaimedKey =>
    r.1 = { s with oneTimeKey := r.1.oneTimeKey, fallbackKey := r.1.fallbackKey }) claims _ rfl
    fun r ih req _ => ?_
  dsimp only
  unfold claimKey
  split
  · dsimp only
    rw [ih]
  · unfold claimFallback
    dsimp only
    split
    · exact ih
    · dsimp only
      split
      · exact ih
      · dsimp only
        rw [ih]

theorem signCrossSigning_frame (userId : UserId) (target : String) (patch : Bytes) (kinds : List String) :
    (signCrossSigning serde userId target patch s kinds).1 =
      { s with
        crossSigning := (signCrossSigning serde userId target patch s kinds).1.crossSigning } := by
  induction kinds with
  | nil => rfl
  | cons kind kinds ih =>
    unfold signCrossSigning
    split
    · exact ih
    · split
      · split <;> rfl
      · exact ih

/-- The tables of signed keys, taken from `t`. -/
def signFrame (s t : Store) : Store :=
  { s with deviceKeys := t.deviceKeys, crossSigning := t.crossSigning }

theorem signFrame_trans {u : Store} (hst : t = signFrame s t) (htu : u = signFrame t u) :
    u = signFrame s u :=
  htu.trans (by rw [hst]; rfl)

theorem addSignature_frame (userId : UserId) (target : String × Bytes) :
    (addSignature serde userId s target).1 = signFrame s (addSignature serde userId s target).1 := by
  unfold addSignature
  split
  · split <;> rfl
  · conv_lhs => rw [signCrossSigning_frame]
    rw [signCrossSigning_frame]
    rfl

theorem signTargets_frame (serde : SerdeJson) (userId : UserId)
    (targets : List (String × Bytes)) (x : Store × Bool) :
    (targets.foldl (fun (s, changed) target =>
      let (s, merged) := addSignature serde userId s target
      (s, changed || merged)) x).1 = signFrame x.1 (targets.foldl (fun (s, changed) target =>
        let (s, merged) := addSignature serde userId s target
        (s, changed || merged)) x).1 := by
  induction targets generalizing x with
  | nil => rfl
  | cons target l ih => exact signFrame_trans (addSignature_frame userId target) (ih _)

theorem putCrossSigning_frame (userId : UserId) (keys : List (String × Option Bytes)) :
    keys.foldl (putCrossSigning userId) s =
      { s with crossSigning := (keys.foldl (putCrossSigning userId) s).crossSigning } :=
  foldl_frame (F := fun s t => { s with crossSigning := t.crossSigning }) (fun _ => rfl)
    (fun s key => by unfold putCrossSigning; split <;> rfl)
    (fun s t u hst htu => htu.trans (by rw [hst])) keys s

theorem queueToDevice_frame (messages : List ToDeviceMessage) : queueToDevice e s messages =
      { s with
        toDevice := (queueToDevice e s messages).toDevice
        seq := (queueToDevice e s messages).seq
        emits := (queueToDevice e s messages).emits } := by
  refine foldl_frame
    (F := fun s t => { s with toDevice := t.toDevice, seq := t.seq, emits := t.emits })
    (fun _ => rfl) (fun s m => ?_) (fun s t u hst htu => htu.trans (by rw [hst])) messages s
  unfold queueMessage
  dsimp only
  generalize (if m.deviceId = "*" then _ else _ : List DeviceId) = deviceIds
  split <;> rfl

theorem putBackupKeys_loop_frame (serde : SerdeJson) (userId : UserId) (version : Nat) (keys : List (RoomId × String × Bytes))
    (start : BackupRun) :
    (keys.foldl (putBackupKey serde userId version) start).store =
      { start.store with
        backupKey := (keys.foldl (putBackupKey serde userId version) start).store.backupKey } := by
  refine List.foldlRecOn (motive := fun r : BackupRun =>
    r.store = { start.store with backupKey := r.store.backupKey }) keys _ rfl fun r ih key _ => ?_
  unfold putBackupKey
  dsimp only
  split
  · rw [ih]
  · split
    · rw [ih]
    · exact ih

theorem sweepUiaSessions_frame (before : Nat) : sweepUiaSessions e s before =
      { s with
        uiaSession := (sweepUiaSessions e s before).uiaSession
        uiaSessionIdx := (sweepUiaSessions e s before).uiaSessionIdx } :=
  foldl_frame
    (F := fun s t => { s with uiaSession := t.uiaSession, uiaSessionIdx := t.uiaSessionIdx })
    (fun _ => rfl) (fun _ _ => rfl) (fun s t u hst htu => htu.trans (by rw [hst])) _ s

theorem consumeRegToken_frame
    (h : consumeRegToken s registrationToken ts = some t) : t = { s with regToken := t.regToken } := by
  unfold consumeRegToken at h
  split at h
  · exact Option.some.inj h ▸ rfl
  · split at h
    · simp at h
    · split at h
      · exact Option.some.inj h ▸ rfl
      · simp at h

def enrol (s : Store) (userId : UserId) (passwordHash : Option String) (ts : Nat) : Store :=
  { s.putAccount userId
      { passwordHash, createdTs := ts, state := .active, admin := false, erased := false } with
    username := s.username.insert userId }

theorem applyRegister_eq_ok
    (h : applyRegister s userId passwordHash ts session registrationToken = .ok (t, r)) :
    (t = s ∧ (r = .userExists ∨ r = .invalidToken)) ∨
      ∃ u, s.username.contains userId = false ∧ s.account[userId]? = none ∧
        consumeRegToken s registrationToken ts = some u ∧ r = .ok ∧
        match session with
        | none => t = enrol u userId passwordHash ts
        | some c => writeSession (enrol u userId passwordHash ts) c = .ok t := by
  unfold applyRegister at h
  split at h
  · obtain ⟨rfl, rfl⟩ := ok_pair h
    exact .inl ⟨rfl, .inl rfl⟩
  rename_i absent
  rw [Bool.or_eq_true, not_or, Bool.not_eq_true, Option.not_isSome_iff_eq_none] at absent
  split at h
  · obtain ⟨rfl, rfl⟩ := ok_pair h
    exact .inl ⟨rfl, .inr rfl⟩
  · rename_i u consumed
    refine .inr ⟨u, absent.1, absent.2, consumed, ?_⟩
    dsimp only at h
    split at h
    · obtain ⟨v, written, h⟩ := bind_eq_ok.1 h
      obtain ⟨rfl, rfl⟩ := ok_pair h
      exact ⟨rfl, written⟩
    · obtain ⟨rfl, rfl⟩ := ok_pair h
      exact ⟨rfl, rfl⟩

theorem applyRegister_frame
    (h : applyRegister s userId passwordHash ts session registrationToken = .ok (t, r)) :
    t = { s with
      account := t.account, username := t.username, regToken := t.regToken, token := t.token
      device := t.device } := by
  obtain ⟨rfl, -⟩ | ⟨u, -, -, consumed, -, opened⟩ := applyRegister_eq_ok h
  · rfl
  have reserved := consumeRegToken_frame consumed
  cases session with
  | none =>
    obtain rfl : t = enrol u userId passwordHash ts := opened
    rw [reserved]
    rfl
  | some c =>
    rw [writeSession_frame opened, reserved]
    rfl

end Others

section Frame

variable {serde : SerdeJson} {e s t : Store} {r : UserResponse}

theorem eq_of_ok {x : Store × UserResponse}
    (h : (.ok x : Except StoreError (Store × UserResponse)) = .ok (t, r)) : t = x.1 :=
  (congrArg Prod.fst (Except.ok.inj h)).symm

def setsPassword : UserCommand → Option UserId
  | .changePassword userId .. | .adminSetPassword userId .. => some userId
  | _ => none

theorem setsPassword_cases {cmd : UserCommand} {userId : UserId}
    (h : apply serde e s cmd = .ok (t, r)) (sets : setsPassword cmd = some userId) :
    t = s ∨ ∃ account hash, s.getAccount userId = .ok (some account) ∧
      (t = s.putAccount userId { account with passwordHash := hash } ∨
        ∃ keep, t = logoutDevices e (s.putAccount userId { account with passwordHash := hash })
          userId keep) := by
  cases cmd with
  | changePassword _ passwordHash =>
    obtain rfl := Option.some.inj sets
    obtain ⟨rfl, -⟩ | ⟨account, known, h⟩ := withAccount_eq_ok h
    · exact .inl rfl
    obtain rfl := eq_of_ok h
    refine .inr ⟨account, some passwordHash, known, ?_⟩
    dsimp only
    split
    · exact .inr ⟨_, rfl⟩
    · exact .inl rfl
  | adminSetPassword _ passwordHash =>
    obtain rfl := Option.some.inj sets
    obtain ⟨rfl, -⟩ | ⟨account, known, h⟩ := withAccount_eq_ok h
    · exact .inl rfl
    split at h
    · exact .inl (eq_of_ok h)
    obtain rfl := eq_of_ok h
    refine .inr ⟨account, some passwordHash, known, ?_⟩
    dsimp only
    split
    · exact .inr ⟨_, rfl⟩
    · exact .inl rfl
  | _ => cases sets

theorem deleteOneDevice_cases (e s : Store) (userId : UserId) (deviceId : DeviceId) :
    (deleteOneDevice e s userId deviceId).1 = (deleteDevice e s userId deviceId).1 ∨
      (deleteOneDevice e s userId deviceId).1 = (deleteDevice e s userId deviceId).1.logKeyChange userId := by
  unfold deleteOneDevice
  dsimp only
  split
  · exact .inr rfl
  · exact .inl rfl

theorem deleteDevice_command {userId deviceId} (h : apply serde e s (.deleteDevice userId deviceId) = .ok (t, r)) :
    t = frame s t (.deleteDevice userId deviceId) := by
  obtain rfl := eq_of_ok h
  rcases deleteOneDevice_cases e s userId deviceId with same | same
  · rw [same, deleteDevice_frame]
    rfl
  · rw [same, deleteDevice_frame]
    rfl

theorem setLocked_frame {userId locked} (h : apply serde e s (.setLocked userId locked) = .ok (t, r)) :
    t = frame s t (.setLocked userId locked) := by
  obtain ⟨rfl, -⟩ | ⟨account, -, h⟩ := withAccount_eq_ok h
  · rfl
  split at h
  · obtain rfl := eq_of_ok h
    rfl
  · obtain ⟨u, hstamp, h⟩ := bind_eq_ok.1 h
    obtain ⟨rfl, -⟩ := ok_pair h
    have stamped := restampTokens_frame hstamp
    conv_lhs => rw [stamped]
    conv_rhs => rw [stamped]
    rfl

theorem applyRoomChanges_frame {source uptoSeq changes} (h : apply serde e s (.applyRoomChanges source uptoSeq changes) = .ok (t, r)) :
    t = frame s t (.applyRoomChanges source uptoSeq changes) := by
  obtain rfl := eq_of_ok h
  unfold applyRoomChanges
  split
  · rfl
  · have folded := foldl_frame (f := applyRoomChange)
      (F := fun s t => logFrame { s with membership := t.membership } t) (fun _ => rfl)
      (fun s change => applyRoomChange_frame change)
      (fun s t u hst htu => htu.trans (by rw [hst]; rfl)) changes s
    dsimp only
    rw [folded]
    rfl

theorem uploadKeys_frame {userId deviceId keys oneTime fallbacks} (h : apply serde e s (.uploadKeys userId deviceId keys oneTime fallbacks) = .ok (t, r)) :
    t = frame s t (.uploadKeys userId deviceId keys oneTime fallbacks) := by
  obtain rfl := eq_of_ok h
  unfold uploadKeys
  dsimp only
  rw [uploadFallbacks_frame, uploadOneTimeKeys_frame]
  unfold putDeviceKeys
  split <;> rfl

theorem setCrossSigningKeys_frame {userId master selfSigning userSigning} (h : apply serde e s (.setCrossSigningKeys userId master selfSigning userSigning) = .ok (t, r)) :
    t = frame s t (.setCrossSigningKeys userId master selfSigning userSigning) := by
  obtain rfl := eq_of_ok h
  unfold setCrossSigningKeys
  dsimp only
  rw [putCrossSigning_frame]
  rfl

theorem addSignatures_cases (serde : SerdeJson) (s : Store) (userId : UserId) (targets : List (String × Bytes)) :
    ∃ u, u = signFrame s u ∧ ((addSignatures serde s userId targets).1 = u ∨
      (addSignatures serde s userId targets).1 = u.logKeyChange userId) := by
  refine ⟨_, signTargets_frame serde userId targets (s, false), ?_⟩
  unfold addSignatures
  dsimp only
  split
  · exact .inr rfl
  · exact .inl rfl

theorem addSignatures_frame {userId targets} (h : apply serde e s (.addSignatures userId targets) = .ok (t, r)) :
    t = frame s t (.addSignatures userId targets) := by
  obtain rfl := eq_of_ok h
  obtain ⟨u, signed, same | same⟩ := addSignatures_cases serde s userId targets
  · rw [same, signed]
    rfl
  · rw [same, signed]
    rfl

theorem sendToDeviceDeduped_frame {origin messageId tsMs messages} (h : apply serde e s (.sendToDeviceDeduped origin messageId tsMs messages) = .ok (t, r)) :
    t = frame s t (.sendToDeviceDeduped origin messageId tsMs messages) := by
  obtain rfl := eq_of_ok h
  unfold sendToDeviceDeduped
  split
  · rfl
  · dsimp only
    rw [queueToDevice_frame]
    rw [foldl_frame (F := fun s t => { s with
      toDeviceSeen := t.toDeviceSeen, toDeviceSeenIdx := t.toDeviceSeenIdx }) (fun _ => rfl)
      (fun _ _ => rfl) (fun s t u hst htu => htu.trans (by rw [hst]))]
    rfl

theorem markTxn_frame {userId deviceId scope txnId ts} (h : apply serde e s (.markTxn userId deviceId scope txnId ts) = .ok (t, r)) :
    t = frame s t (.markTxn userId deviceId scope txnId ts) := by
  obtain rfl := eq_of_ok h
  unfold markTxn
  dsimp only
  rw [foldl_frame (F := fun s t => { s with
    txnSeen := t.txnSeen, txnSeenIdx := t.txnSeenIdx }) (fun _ => rfl)
    (fun _ _ => rfl) (fun s t u hst htu => htu.trans (by rw [hst]))]
  rfl

theorem putBackupKeys_frame {userId version keys} (h : apply serde e s (.putBackupKeys userId version keys) = .ok (t, r)) :
    t = frame s t (.putBackupKeys userId version keys) := by
  obtain rfl := eq_of_ok h
  unfold putBackupKeys
  split
  · rfl
  · have folded := putBackupKeys_loop_frame serde userId version keys
    dsimp only
    split
    · rw [folded]
      rfl
    · rw [folded]
      rfl

theorem completeUiaStage_frame {sessionId hash stage token nowTs before} (h : apply serde e s (.completeUiaStage sessionId hash stage token nowTs before) = .ok (t, r)) :
    t = frame s t (.completeUiaStage sessionId hash stage token nowTs before) := by
  obtain rfl := eq_of_ok h
  have swept := sweepUiaSessions_frame (e := e) (s := s) before
  unfold completeUiaStage
  dsimp only
  split
  · split
    · exact swept
    · rw [swept]
      rfl
  · rw [swept]
    rfl

theorem consumeLoginToken_frame {tokenHash nowTs}
    (h : apply serde e s (.consumeLoginToken tokenHash nowTs) = .ok (t, r)) :
    t = frame s t (.consumeLoginToken tokenHash nowTs) := by
  simp only [apply, consumeLoginToken] at h
  split at h
  · obtain rfl := eq_of_ok h
    rfl
  split at h
  · obtain rfl := eq_of_ok h
    rfl
  obtain ⟨account, -, h⟩ := bind_eq_ok.1 h
  split at h
  · obtain ⟨rfl, -⟩ := ok_pair h
    rfl
  · obtain ⟨rfl, -⟩ := ok_pair h
    rfl

theorem apply_frame {cmd : UserCommand} (h : apply serde e s cmd = .ok (t, r)) : t = frame s t cmd := by
  cases cmd with
  | register =>
    rw [apply] at h
    exact applyRegister_frame h
  | registerWithToken =>
    rw [apply] at h
    exact applyRegister_frame h
  | createSession c =>
    obtain ⟨rfl, -⟩ | ⟨-, written, -⟩ := createSession_eq_ok h
    · rfl
    · exact writeSession_frame written
  | refreshSession old c =>
    obtain ⟨rfl, -⟩ | ⟨_, -, -, written, -⟩ := refreshSession_eq_ok h
    · rfl
    · exact writeSession_frame written
  | deleteAllDevices userId =>
    obtain rfl := eq_of_ok h
    exact logoutDevices_frame userId none
  | changePassword | adminSetPassword =>
    obtain rfl | ⟨account, hash, -, rfl | ⟨keep, rfl⟩⟩ := setsPassword_cases h rfl
    · rfl
    · rfl
    · exact (logoutDevices_frame _ _).trans (by simp only [frame, logoutDevices_account]; rfl)
  | deactivate userId =>
    obtain ⟨rfl, -⟩ | ⟨account, -, h⟩ := withAccount_eq_ok h
    · rfl
    · obtain rfl := eq_of_ok h
      exact (logoutDevices_frame userId _).trans (by simp only [frame, logoutDevices_account]; rfl)
  | setLocked => exact setLocked_frame h
  | consumeLoginToken => exact consumeLoginToken_frame h
  | setAdmin | setErased | linkExternalId | createLoginToken =>
    obtain ⟨rfl, -⟩ | ⟨account, -, h⟩ := withAccount_eq_ok h
    · rfl
    repeat' split at h
    all_goals
      obtain rfl := eq_of_ok h
      rfl
  | setDeviceName | forgetRoom | createAlias | deleteAlias | updateBackupVersion | deleteBackupVersion
  | createRegistrationToken | deleteRegistrationToken | unlinkExternalId | recordRemoteLeave =>
    obtain rfl := eq_of_ok h
    dsimp only [setDeviceName, forgetRoom, createAlias, deleteAlias, updateBackupVersion,
      deleteBackupVersion, createRegistrationToken, deleteRegistrationToken, unlinkExternalId, recordRemoteLeave]
    split <;> rfl
  | deleteBackupKeys =>
    obtain rfl := eq_of_ok h
    dsimp only [deleteBackupKeys]
    split
    · rfl
    · split <;> rfl
  | deleteDevice => exact deleteDevice_command h
  | applyRoomChanges => exact applyRoomChanges_frame h
  | uploadKeys => exact uploadKeys_frame h
  | claimKeys claims => exact eq_of_ok h ▸ claimKeys_frame claims
  | setCrossSigningKeys => exact setCrossSigningKeys_frame h
  | addSignatures => exact addSignatures_frame h
  | sendToDevice messages => exact eq_of_ok h ▸ queueToDevice_frame messages
  | sendToDeviceDeduped => exact sendToDeviceDeduped_frame h
  | markTxn => exact markTxn_frame h
  | putBackupKeys => exact putBackupKeys_frame h
  | completeUiaStage => exact completeUiaStage_frame h
  | queueOutboundEdus entries =>
    obtain rfl := eq_of_ok h
    exact foldl_frame (F := fun s t => { s with
      eduOutbox := t.eduOutbox, seq := t.seq, emits := t.emits }) (fun _ => rfl) (fun _ _ => rfl)
      (fun s t u hst htu => htu.trans (by rw [hst])) entries s
  | _ =>
    obtain rfl := eq_of_ok h
    rfl

theorem migrateAccounts_frame (h : migrate e s 3 = .ok t) : t = { s with account := t.account } :=
  foldlM_frame (F := fun s t => { s with account := t.account }) (fun _ => rfl) (fun s row t step => by
      obtain ⟨old, -, step⟩ := bind_eq_ok.1 step
      exact pure_eq_ok.1 step ▸ rfl)
    (fun s t u hst htu => htu.trans (by rw [hst])) h

theorem migrateTokens_frame (h : migrate e s 5 = .ok t) : t = { s with token := t.token } :=
  foldlM_frame (F := fun s t => { s with token := t.token }) (fun _ => rfl) (fun s row t step => by
      obtain ⟨state, -, step⟩ := bind_eq_ok.1 step
      exact pure_eq_ok.1 step ▸ rfl)
    (fun s t u hst htu => htu.trans (by rw [hst])) h

theorem migrate_frame {target : Nat} (h : migrate e s target = .ok t) :
    t = { s with
      account := t.account, token := t.token, username := t.username, eduOutbox := t.eduOutbox } := by
  match target with
  | 2 | 4 | 6 =>
    obtain rfl := Except.ok.inj h
    rfl
  | 3 =>
    have shape := migrateAccounts_frame h
    conv_lhs => rw [shape]
    conv_rhs => rw [shape]
  | 5 =>
    have shape := migrateTokens_frame h
    conv_lhs => rw [shape]
    conv_rhs => rw [shape]
  | 0 | 1 | n + 7 => simp [migrate] at h

theorem mem_username_migrate {target : Nat} (h : migrate e s target = .ok t) {userId : UserId}
    (mem : userId ∈ s.username) : userId ∈ t.username := by
  match target with
  | 2 | 4 =>
    obtain rfl := Except.ok.inj h
    exact mem
  | 3 =>
    rw [migrateAccounts_frame h]
    exact mem
  | 5 =>
    rw [migrateTokens_frame h]
    exact mem
  | 6 =>
    obtain rfl := Except.ok.inj h
    exact OrdSet.mem_extend.2 (.inr mem)
  | 0 | 1 | n + 7 => simp [migrate] at h

end Frame

end Saltator.User.Machine
