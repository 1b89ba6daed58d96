import Saltator.User.MachineSpec

/-!
# What a user command scans

`SameScans e s cmd` says that the ranges that `cmd` scans serve it in `e` as in `s`. Where it reads
the rows they are the same. Where it only deletes them, `e` has every one that `s` has: a row that
the batch has deleted already may be found again. `apply_eq` says that nothing else of the engine
matters.
-/

namespace Saltator.User

open Machine
open Store
open OrdMap (Covers)

section Scans

variable (e s : Store)

/-- Two scans found the same keys. -/
def SameKeys {α β : Type} (l l' : List (α × β)) : Prop := l.map Prod.fst = l'.map Prod.fst

/-- Two scans of an index by time drop the same of its entries and of the records it points to. -/
structure SameDrops {κ β : Type} [Ord κ] [Std.TransOrd κ] (record : OrdMap κ β) (index : OrdSet (Nat × κ))
    (l l' : List (Nat × κ)) : Prop where
  index : ∀ k ∈ index, k ∈ l ↔ k ∈ l'
  record : ∀ k ∈ record, k ∈ l.map Prod.snd ↔ k ∈ l'.map Prod.snd

/-- The scans of a device's deletion. -/
structure SameDevice (userId : UserId) (deviceId : DeviceId) : Prop where
  oneTimeKey : Covers (fun k => k.1 = userId ∧ k.2.1 = deviceId) e.oneTimeKey s.oneTimeKey
  toDevice : Covers (fun k => k.1 = userId ∧ k.2.1 = deviceId) e.toDevice s.toDevice
  pusher : Covers (fun k => k.1 = userId ∧ k.2.1 = deviceId) e.pusher s.pusher
  fallbackKey : Covers (fun k => k.1 = userId ∧ k.2.1 = deviceId) e.fallbackKey s.fallbackKey

structure SameDevices (userId : UserId) (keep : Option DeviceId) : Prop where
  devices : Covers (fun k => k.1 = userId) e.device s.device
  device : ∀ deviceId, (userId, deviceId) ∈ s.device → keep ≠ some deviceId → SameDevice e s userId deviceId

def SameInboxes (messages : List ToDeviceMessage) : Prop :=
  ∀ m ∈ messages, m.deviceId = "*" → SameKeys (e.devicesOf m.userId) (s.devicesOf m.userId)

def SameScans : UserCommand → Prop
  | .deleteDevice userId deviceId => (userId, deviceId) ∈ s.device → SameDevice e s userId deviceId
  | .deleteAllDevices userId => SameDevices e s userId none
  | .changePassword userId _ logoutOthers keepDevice =>
    logoutOthers = true → ∀ account, s.getAccount userId = .ok (some account) →
      SameDevices e s userId (some keepDevice)
  | .adminSetPassword userId _ logoutDevices =>
    logoutDevices = true → ∀ account, s.getAccount userId = .ok (some account) →
      account.state ≠ .deactivated → SameDevices e s userId none
  | .deactivate userId =>
    ∀ account, s.getAccount userId = .ok (some account) → SameDevices e s userId none
  | .setLocked userId _ =>
    ∀ account, s.getAccount userId = .ok (some account) → account.state ≠ .deactivated →
      ∀ h ∈ s.token, h ∈ ((e.devicesOf userId).flatMap fun r => r.2.hashes) ↔
        h ∈ (s.devicesOf userId).flatMap fun r => r.2.hashes
  | .createLoginToken _ _ _ nowTs =>
    ∀ h ∈ s.loginToken, h ∈ (e.loginToken.toList.filter fun r => r.2.expiresTs ≤ nowTs).map Prod.fst ↔
      h ∈ (s.loginToken.toList.filter fun r => r.2.expiresTs ≤ nowTs).map Prod.fst
  | .completeUiaStage _ _ _ _ _ expireBeforeTs =>
    SameDrops s.uiaSession s.uiaSessionIdx (e.uiaSessionIdx.toList.filter fun k => k.1 < expireBeforeTs)
      (s.uiaSessionIdx.toList.filter fun k => k.1 < expireBeforeTs)
  | .uploadKeys userId deviceId _ _ _ =>
    e.oneTimeKeysOf userId deviceId = s.oneTimeKeysOf userId deviceId
  | .claimKeys claims =>
    ∀ req ∈ claims, ((e.oneTimeKeysOf req.userId req.deviceId).filter fun r =>
        ofAlgorithm req.algorithm r.1.2.2) =
      (s.oneTimeKeysOf req.userId req.deviceId).filter fun r => ofAlgorithm req.algorithm r.1.2.2
  | .sendToDevice messages => SameInboxes e s messages
  | .sendToDeviceDeduped origin messageId tsMs messages =>
    s.toDeviceSeen.contains (origin, messageId) = false →
      SameDrops (s.toDeviceSeen.insert (origin, messageId) tsMs)
        (s.toDeviceSeenIdx.insert (tsMs, origin, messageId))
        (e.toDeviceSeenIdx.toList.filter fun k => k.1 < tsMs - toDeviceSeenHorizonMs)
        (s.toDeviceSeenIdx.toList.filter fun k => k.1 < tsMs - toDeviceSeenHorizonMs) ∧
      SameInboxes e s messages
  | .markTxn userId deviceId scope txnId ts =>
    SameDrops (s.txnSeen.insert (userId, deviceId, scope, txnId) ts)
      (s.txnSeenIdx.insert (ts, userId, deviceId, scope, txnId))
      (e.txnSeenIdx.toList.filter fun k => k.1 < ts - txnSeenHorizonMs)
      (s.txnSeenIdx.toList.filter fun k => k.1 < ts - txnSeenHorizonMs)
  | .ackOutboundEdus destination upTo =>
    Covers (fun k => k.1 = destination ∧ k.2 < succWrapping upTo) e.eduOutbox s.eduOutbox
  | .ackToDevice userId deviceId upTo =>
    Covers (fun k => k.1 = userId ∧ k.2.1 = deviceId ∧ k.2.2 < succSaturating upTo) e.toDevice s.toDevice
  | .setPusher userId _ appId pushkey _ =>
    Covers (fun k => k.1 = userId ∧ k.2.2.1 = appId ∧ k.2.2.2 = pushkey) e.pusher s.pusher
  | .createBackupVersion userId _ _ =>
    ((e.backupVersion.rows fun k => k.1 = userId).getLast?.map fun r => r.1.2) =
      (s.backupVersion.rows fun k => k.1 = userId).getLast?.map fun r => r.1.2
  | .deleteBackupVersion userId version =>
    (s.backupMeta userId version).isSome →
      Covers (fun k => k.1 = userId ∧ k.2.1 = version) e.backupKey s.backupKey
  | .deleteBackupKeys userId version roomId sessionId =>
    (s.backupMeta userId version).isSome → SameKeys (backupKeysToDelete e s userId version roomId sessionId)
        (backupKeysToDelete s s userId version roomId sessionId)
  | _ => True

def SameMigrationScans : Nat → Prop
  | 2 => ∀ k ∈ s.eduOutbox, k ∈ e.eduOutbox
  | 3 => e.account.toList = s.account.toList
  | 5 => e.token.toList = s.token.toList
  | 6 => SameKeys e.account.toList s.account.toList
  | _ => True

end Scans

/-! ## Devices -/

section Devices

variable {e s t : Store} {userId : UserId} {deviceId : DeviceId} {keep : Option DeviceId}
  {x : Store × Bool} {l : List (UserId × DeviceId)}

/-- `t` is `s` after the deletion of devices. -/
structure Deleted (t s : Store) : Prop where
  device : ∀ k ∈ t.device, k ∈ s.device
  oneTimeKey : ∀ k ∈ t.oneTimeKey, k ∈ s.oneTimeKey
  toDevice : ∀ k ∈ t.toDevice, k ∈ s.toDevice
  pusher : ∀ k ∈ t.pusher, k ∈ s.pusher
  fallbackKey : ∀ k ∈ t.fallbackKey, k ∈ s.fallbackKey

theorem Deleted.refl : Deleted s s :=
  ⟨fun _ hk => hk, fun _ hk => hk, fun _ hk => hk, fun _ hk => hk, fun _ hk => hk⟩

theorem Deleted.putAccount {account : Account} : Deleted (s.putAccount userId account) s :=
  ⟨fun _ hk => hk, fun _ hk => hk, fun _ hk => hk, fun _ hk => hk, fun _ hk => hk⟩

theorem Deleted.step (h : Deleted t s) : Deleted (deleteDevice e t userId deviceId).1 s := by
  unfold deleteDevice
  split
  · exact h
  · exact
      { device := fun k hk => h.device k (Std.ExtTreeMap.mem_of_mem_erase hk)
        oneTimeKey := fun k hk => h.oneTimeKey k (OrdMap.mem_eraseRows.1 hk).1
        toDevice := fun k hk => h.toDevice k (OrdMap.mem_eraseRows.1 hk).1
        pusher := fun k hk => h.pusher k (OrdMap.mem_eraseRows.1 hk).1
        fallbackKey := fun k hk => h.fallbackKey k (OrdMap.mem_eraseRows.1 hk).1 }

theorem deleteDevice_congr (below : Deleted t s)
    (h : (userId, deviceId) ∈ s.device → SameDevice e s userId deviceId) :
    deleteDevice e t userId deviceId = deleteDevice s t userId deviceId := by
  unfold deleteDevice
  split
  · rfl
  · rename_i device found
    have same := h (below.device _ (OrdMap.mem_iff_getElem?.2 ⟨_, found⟩))
    have oneTimeKey := OrdMap.eraseRows_covers below.oneTimeKey same.oneTimeKey
    have toDevice := OrdMap.eraseRows_covers below.toDevice same.toDevice
    have pusher := OrdMap.eraseRows_covers below.pusher same.pusher
    have fallbackKey := OrdMap.eraseRows_covers below.fallbackKey same.fallbackKey
    simp only [oneTimeKeysOf, dropTokens, oneTimeKey, toDevice, pusher, fallbackKey]

def deleteRound (e : Store) (userId : UserId) (keep : Option DeviceId) (x : Store × Bool)
    (k : UserId × DeviceId) : Store × Bool :=
  if keep = some k.2 then x
  else ((deleteDevice e x.1 userId k.2).1, x.2 || (deleteDevice e x.1 userId k.2).2)

theorem deleteDevicesExcept_eq : deleteDevicesExcept e t userId keep =
      ((e.devicesOf userId).map Prod.fst).foldl (deleteRound e userId keep) (t, false) := by
  rw [List.foldl_map]
  rfl

theorem Deleted.round (h : Deleted x.1 s) (k : UserId × DeviceId) :
    Deleted (deleteRound e userId keep x k).1 s := by
  unfold deleteRound
  split
  · exact h
  · exact h.step

theorem foldl_deleteRound_filter (own : ∀ k ∈ l, k.1 = userId) (below : Deleted x.1 s) :
    l.foldl (deleteRound e userId keep) x =
      (l.filter fun k => s.device.contains k).foldl (deleteRound e userId keep) x := by
  induction l generalizing x with
  | nil => rfl
  | cons k l ih =>
    have rest := fun {x : Store × Bool} (below : Deleted x.1 s) =>
      ih (fun k hk => own k (List.mem_cons_of_mem _ hk)) below
    rw [List.foldl_cons, List.filter_cons]
    split
    · exact rest (below.round k)
    · rename_i gone
      have absent : x.1.device[k]? = none := by
        rw [Std.ExtTreeMap.getElem?_eq_none]
        intro there
        exact gone (Std.ExtTreeMap.contains_iff_mem.2 (below.device k there))
      have skip : deleteRound e userId keep x k = x := by
        unfold deleteRound deleteDevice
        rw [← own k List.mem_cons_self, absent]
        simp
      rw [skip]
      exact rest below

theorem foldl_deleteRound_congr (h : SameDevices e s userId keep) (below : Deleted x.1 s) :
    l.foldl (deleteRound e userId keep) x = l.foldl (deleteRound s userId keep) x := by
  induction l generalizing x with
  | nil => rfl
  | cons k l ih =>
    have round : deleteRound e userId keep x k = deleteRound s userId keep x k := by
      unfold deleteRound
      split
      · rfl
      · rename_i other
        rw [deleteDevice_congr below fun there => h.device k.2 there other]
    rw [List.foldl_cons, List.foldl_cons, ← round]
    exact ih (below.round k)

theorem deleteDevicesExcept_congr (below : Deleted t s) (h : SameDevices e s userId keep) :
    deleteDevicesExcept e t userId keep = deleteDevicesExcept s t userId keep := by
  have own : ∀ k ∈ (e.devicesOf userId).map Prod.fst, k.1 = userId := by
    intro k hk
    exact of_decide_eq_true (OrdMap.mem_rows_keys.1 hk).2
  rw [deleteDevicesExcept_eq, deleteDevicesExcept_eq, foldl_deleteRound_filter own below, devicesOf,
    OrdMap.rows_keys_covers h.devices]
  exact foldl_deleteRound_congr h below

theorem logoutDevices_congr (below : Deleted t s) (h : SameDevices e s userId keep) :
    logoutDevices e t userId keep = logoutDevices s t userId keep := by
  unfold logoutDevices
  rw [deleteDevicesExcept_congr below h]

end Devices

/-! ## Commands -/

section Apply

variable {serde : SerdeJson} {e s t : Store}

theorem withAccount_congr {userId : UserId} {f g : Account → Except StoreError (Store × UserResponse)}
    (h : ∀ account, s.getAccount userId = .ok (some account) → f account = g account) :
    withAccount s userId f = withAccount s userId g := by
  unfold withAccount
  cases found : s.getAccount userId with
  | error fault => rfl
  | ok account =>
    cases account with
    | none => rfl
    | some account => exact h account found

theorem queueToDevice_congr {messages : List ToDeviceMessage} (h : SameInboxes e s messages) :
    queueToDevice e t messages = queueToDevice s t messages := by
  refine List.foldl_ext _ _ _ fun u m hm => ?_
  unfold queueMessage
  have ids : m.deviceId = "*" →
      ((e.devicesOf m.userId).map fun r => r.1.2) = (s.devicesOf m.userId).map fun r => r.1.2 := by
    intro all
    have byKeys : ∀ l : List ((UserId × DeviceId) × Device),
        l.map (fun r => r.1.2) = (l.map Prod.fst).map Prod.snd := by
      intro l
      rw [List.map_map]
      rfl
    rw [byKeys, byKeys, h m hm all]
  split
  · rename_i all
    rw [ids all]
  · rfl

theorem foldl_drops {κ β σ : Type} [Ord κ] [Std.TransOrd κ] [Std.LawfulEqOrd κ] [DecidableEq κ]
    [DecidableEq (Nat × κ)] {record : OrdMap κ β} {index : OrdSet (Nat × κ)} {l l' : List (Nat × κ)}
    (h : SameDrops record index l l') (put : OrdMap κ β → OrdSet (Nat × κ) → σ)
    (drop : σ → Nat × κ → σ)
    (step : ∀ record index k, drop (put record index) k = put (record.erase k.2) (index.erase k)) :
    l.foldl drop (put record index) = l'.foldl drop (put record index) := by
  have split : ∀ l : List (Nat × κ), l.foldl drop (put record index) =
      put (l.foldl (fun m k => m.erase k.2) record) (l.foldl (fun i k => i.erase k) index) :=
    fun l => List.foldl_hom₂ l put _ _ _ _ _ fun record index k => (step record index k).symm
  rw [split, split, OrdMap.foldl_erase_congr h.record, OrdSet.foldl_erase_congr h.index]

theorem apply_eq {cmd : UserCommand} (h : SameScans e s cmd) :
    apply serde e s cmd = apply serde s s cmd := by
  cases cmd with
  | deleteDevice userId deviceId =>
    simp only [apply, deleteOneDevice, deleteDevice_congr .refl h]
  | deleteAllDevices userId => simp only [apply, logoutDevices_congr .refl h]
  | changePassword userId passwordHash logoutOthers keepDevice =>
    refine withAccount_congr fun account found => ?_
    cases logoutOthers with
    | false => rfl
    | true => simp only [if_true, logoutDevices_congr .putAccount (h rfl account found)]
  | adminSetPassword userId passwordHash logout =>
    refine withAccount_congr fun account found => ?_
    split
    · rfl
    · rename_i live
      cases logout with
      | false => rfl
      | true => simp only [if_true, logoutDevices_congr .putAccount (h rfl account found live)]
  | deactivate userId =>
    refine withAccount_congr fun account found => ?_
    simp only [logoutDevices_congr .putAccount (h account found)]
  | setLocked userId locked =>
    refine withAccount_congr fun account found => ?_
    split
    · rfl
    · rename_i live
      have hashes := foldlM_restampToken_congr (if locked then .locked else .active)
        (s := s.putAccount userId { account with state := if locked then .locked else .active })
        (h account found live)
      simp only [restampTokens, hashes]
  | createLoginToken tokenHash userId expiresTs nowTs =>
    have dropped := OrdMap.foldl_erase_congr (m := s.loginToken) h
    simp only [apply, createLoginToken, OrdMap.eraseRows, dropped]
  | completeUiaStage sessionId requestHash stage registrationToken nowTs expireBeforeTs =>
    have swept := foldl_drops h
      (fun record index => { s with uiaSession := record, uiaSessionIdx := index })
      (fun s k =>
        { s with uiaSession := s.uiaSession.erase k.2, uiaSessionIdx := s.uiaSessionIdx.erase k })
      fun _ _ _ => rfl
    have sweep : sweepUiaSessions e s expireBeforeTs = sweepUiaSessions s s expireBeforeTs := swept
    simp only [apply, completeUiaStage, sweep]
  | uploadKeys userId deviceId deviceKeys oneTimeKeys fallbackKeys =>
    simp only [apply, uploadKeys, uploadOneTimeKeys]
    rw [h]
  | claimKeys claims =>
    have folded := List.foldl_ext (claimStep e) (claimStep s) (s, ([] : List ClaimedKey))
      (l := claims) fun x req hreq => by
        simp only [claimStep, claimKey, oldestKey]
        rw [h req hreq]
    simp only [apply, claimKeys_eq, folded]
  | sendToDevice messages => simp only [apply, queueToDevice_congr h]
  | sendToDeviceDeduped origin messageId tsMs messages =>
    simp only [apply, sendToDeviceDeduped]
    split
    · rfl
    · rename_i unseen
      obtain ⟨seen, inboxes⟩ := h (Bool.eq_false_iff.2 unseen)
      have dropped := foldl_drops seen
        (fun record index => { s with toDeviceSeen := record, toDeviceSeenIdx := index })
        (fun s k =>
          { s with
            toDeviceSeenIdx := s.toDeviceSeenIdx.erase k
            toDeviceSeen := s.toDeviceSeen.erase k.2 })
        fun _ _ _ => rfl
      rw [dropped, queueToDevice_congr inboxes]
  | markTxn userId deviceId scope txnId ts =>
    have dropped := foldl_drops h
      (fun record index => { s with txnSeen := record, txnSeenIdx := index })
      (fun s k =>
        { s with txnSeenIdx := s.txnSeenIdx.erase k, txnSeen := s.txnSeen.erase k.2 })
      fun _ _ _ => rfl
    simp only [apply, markTxn]
    rw [dropped]
  | ackOutboundEdus destination upTo =>
    simp only [apply, ackOutboundEdus, OrdMap.eraseRows_covers (fun _ hk => hk) h]
  | ackToDevice userId deviceId upTo =>
    simp only [apply, ackToDevice, OrdMap.eraseRows_covers (fun _ hk => hk) h]
  | setPusher userId deviceId appId pushkey json =>
    simp only [apply, setPusher, OrdMap.eraseRows_covers (fun _ hk => hk) h]
  | createBackupVersion userId algorithm authData =>
    simp only [apply, createBackupVersion]
    rw [h]
  | deleteBackupVersion userId version =>
    simp only [apply, deleteBackupVersion]
    cases found : s.backupMeta userId version with
    | none => rfl
    | some m => simp only [OrdMap.eraseRows_covers (fun _ hk => hk) (h (by simp [found]))]
  | deleteBackupKeys userId version roomId sessionId =>
    simp only [apply, deleteBackupKeys]
    cases found : s.backupMeta userId version with
    | none => rfl
    | some m =>
      have keys := h (by simp [found])
      have length := congrArg List.length keys
      have isEmpty := congrArg List.isEmpty keys
      rw [List.length_map, List.length_map] at length
      rw [List.isEmpty_map, List.isEmpty_map] at isEmpty
      have dropped := OrdMap.foldl_erase_congr (m := s.backupKey) fun k _ =>
        iff_of_eq (congrArg (k ∈ ·) keys)
      simp only [OrdMap.eraseRows, dropped, isEmpty, length]
  | _ => rfl

theorem migrate_eq {target : Nat} (h : SameMigrationScans e s target) :
    migrate e s target = migrate s s target := by
  unfold migrate
  split
  · have keys : ∀ k ∈ s.eduOutbox,
        k ∈ e.eduOutbox.toList.map Prod.fst ↔ k ∈ s.eduOutbox.toList.map Prod.fst := by
      intro k hk
      rw [Std.ExtTreeMap.map_fst_toList_eq_keys, Std.ExtTreeMap.map_fst_toList_eq_keys,
        Std.ExtTreeMap.mem_keys, Std.ExtTreeMap.mem_keys]
      exact ⟨fun _ => hk, fun _ => h k hk⟩
    simp only [OrdMap.eraseRows, OrdMap.foldl_erase_congr keys]
  · rw [show e.account.toList = s.account.toList from h]
  · rfl
  · rw [show e.token.toList = s.token.toList from h]
  · rw [show e.account.toList.map Prod.fst = s.account.toList.map Prod.fst from h]
  · rfl

end Apply

end Saltator.User
