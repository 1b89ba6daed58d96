import Saltator.User.History
import Saltator.User.Tokens

/-!
# Logins by password

A login reads the account and verifies the password before its session is proposed. Applying the
session looks at nothing but the account's existence. A password change that logs out other devices
deletes the sessions that its scan finds.
-/

namespace Saltator.User

open Machine
open Store
open Saltator.Outcome

/-! ## Sessions of devices -/

def TokenRow.owner (row : TokenRow) : UserId × DeviceId :=
  ((decodeTokenV4 row).userId, (decodeTokenV4 row).deviceId)

/-- A device row that names tokens, or a token row of the device. -/
def HasSession (s : Store) (k : UserId × DeviceId) : Prop :=
  (∃ device, s.device[k]? = some device ∧ device.hashes ≠ []) ∨
    ∃ (h : Hash) (row : TokenRow), s.token[h]? = some row ∧ row.owner = k

/-- Every token has a device whose row names it. -/
def Linked (s : Store) : Prop :=
  ∀ (h : Hash) (row : TokenRow), s.token[h]? = some row →
    ∃ device, s.device[row.owner]? = some device ∧ h ∈ device.hashes

structure Opens (opened : UserId × DeviceId → Prop) (s t : Store) : Prop where
  session : ∀ k, HasSession t k → HasSession s k ∨ opened k
  linked : Linked s → Linked t

section Devices

variable {e s t u : Store} {userId : UserId} {deviceId : DeviceId}
  {opened opened' : UserId × DeviceId → Prop} {r : UserResponse}

theorem Opens.refl (s : Store) : Opens opened s s := ⟨fun _ => .inl, id⟩

theorem Opens.trans (h : Opens opened s t) (h' : Opens opened t u) : Opens opened s u where
  session k there := (h'.session k there).elim (h.session k) .inr
  linked := h'.linked ∘ h.linked

theorem Opens.mono (h : Opens opened s t) (le : ∀ k, opened k → opened' k) : Opens opened' s t where
  session k there := (h.session k there).imp_right (le k)
  linked := h.linked

theorem Opens.frame (token : t.token = s.token) (device : t.device = s.device) : Opens opened s t where
  session k there := by
    unfold HasSession at there ⊢
    rw [token, device] at there
    exact .inl there
  linked h := by
    unfold Linked at h ⊢
    rw [token, device]
    exact h

theorem Linked.device (h : Linked s) {k : UserId × DeviceId} (there : HasSession s k) : k ∈ s.device := by
  obtain ⟨d, named, -⟩ | ⟨hash, row, stored, rfl⟩ := there
  · exact OrdMap.mem_iff_getElem?.2 ⟨d, named⟩
  · obtain ⟨d, named, -⟩ := h hash row stored
    exact OrdMap.mem_iff_getElem?.2 ⟨d, named⟩

theorem Opens.putAccount (userId : UserId) (account : Account) :
    Opens opened s (s.putAccount userId account) := .frame rfl rfl

theorem Opens.deleteDevice (e : Store) (userId : UserId) (deviceId : DeviceId) :
    Opens opened s (deleteDevice e s userId deviceId).1 := by
  unfold Machine.deleteDevice
  split
  · exact .refl s
  rename_i device there
  constructor
  · rintro k (⟨d, found, names⟩ | ⟨h, row, found, owner⟩)
    · refine .inl (.inl ⟨d, ?_, names⟩)
      rw [OrdMap.getElem?_erase'] at found
      split at found
      · simp at found
      · exact found
    · exact .inl (.inr ⟨h, row, (dropTokens_eq_some found).2, owner⟩)
  · intro linked h row found
    obtain ⟨kept, before⟩ := dropTokens_eq_some found
    obtain ⟨d, named, mem⟩ := linked h row before
    refine ⟨d, OrdMap.getElem?_erase'.trans ((if_neg fun same => ?_).trans named), mem⟩
    rw [same, there] at named
    exact kept (Option.some.inj named ▸ mem)

theorem Opens.logoutDevices (e : Store) (userId : UserId) (keep : Option DeviceId) :
    Opens opened s (logoutDevices e s userId keep) := by
  have deleted : Opens opened s (deleteDevicesExcept e s userId keep).1 := by
    refine List.foldlRecOn (motive := fun r : Store × Bool => Opens opened s r.1) (e.devicesOf userId) _
      (.refl s) fun r ih row _ => ?_
    dsimp only
    split
    · exact ih
    · exact ih.trans (Opens.deleteDevice e userId row.1.2)
  unfold Machine.logoutDevices
  dsimp only
  split
  · exact deleted.trans (Opens.frame rfl rfl)
  · exact deleted

theorem Opens.putDevice {key : UserId × DeviceId} {device : Device}
    (same : device.hashes = (s.device[key]?.map Device.hashes).getD []) :
    Opens opened s { s with device := s.device.insert key device } := by
  constructor
  · rintro k (⟨d, found, names⟩ | token)
    · rw [OrdMap.getElem?_insert'] at found
      split at found
      · rename_i own
        obtain rfl := Option.some.inj found
        rw [same] at names
        cases before : s.device[key]? with
        | none => simp [before] at names
        | some d =>
          rw [before] at names
          exact .inl (.inl ⟨d, own ▸ before, names⟩)
      · exact .inl (.inl ⟨d, found, names⟩)
    · exact .inl (.inr token)
  · intro linked h row found
    obtain ⟨d, named, mem⟩ := linked h row found
    by_cases own : row.owner = key
    · refine ⟨device, OrdMap.getElem?_insert'.trans (if_pos own), ?_⟩
      rw [same, ← own, named]
      exact mem
    · exact ⟨d, (OrdMap.getElem?_insert'.trans (if_neg own)).trans named, mem⟩

theorem Opens.tokens (device : t.device = s.device)
    (token : ∀ (h : Hash) (row : TokenRow), t.token[h]? = some row →
      ∃ row', s.token[h]? = some row' ∧ row.owner = row'.owner) : Opens opened s t := by
  constructor
  · rintro k (named | ⟨h, row, found, owner⟩)
    · exact .inl (.inl (device ▸ named))
    · obtain ⟨row', before, same⟩ := token h row found
      exact .inl (.inr ⟨h, row', before, same ▸ owner⟩)
  · intro linked h row found
    obtain ⟨row', before, same⟩ := token h row found
    rw [device, same]
    exact linked h row' before

theorem Opens.writeSession {c : SessionCmd} (written : writeSession s c = .ok t) :
    Opens (· = (c.userId, c.deviceId)) s t := by
  have devices := writeSession_device written
  constructor
  · rintro k (⟨d, found, names⟩ | ⟨h, row, found, owner⟩)
    · rw [devices, OrdMap.getElem?_insert'] at found
      split at found
      · rename_i own
        exact .inr own
      · exact .inl (.inl ⟨d, found, names⟩)
    · obtain ⟨-, kind, expiresTs, state, -, rfl⟩ | ⟨-, before⟩ := writeSession_token written found
      · exact .inr owner.symm
      · exact .inl (.inr ⟨h, row, before, owner⟩)
  · intro linked h row found
    rw [devices]
    obtain ⟨named, kind, expiresTs, state, -, rfl⟩ | ⟨gone, before⟩ := writeSession_token written found
    · exact ⟨_, OrdMap.getElem?_insert'.trans (if_pos rfl), named⟩
    · obtain ⟨d, there, mem⟩ := linked h row before
      refine ⟨d, OrdMap.getElem?_insert'.trans ((if_neg fun own => ?_).trans there), mem⟩
      rw [own] at there
      exact gone (by simpa [there] using mem)

theorem Opens.register {passwordHash : Option String} {ts : Nat} {session : Option SessionCmd}
    {registrationToken : Option String}
    (applied : applyRegister s userId passwordHash ts session registrationToken = .ok (t, r)) :
    Opens (fun k => r = .ok ∧ ∃ c, session = some c ∧ k = (c.userId, c.deviceId)) s t := by
  obtain ⟨rfl, -⟩ | ⟨u, -, -, consumed, rfl, written⟩ := applyRegister_eq_ok applied
  · exact .refl t
  have reserved := consumeRegToken_frame consumed
  have named (opened) : Opens opened s (enrol u userId passwordHash ts) := by
    refine Opens.frame ?_ ?_
    · rw [reserved]
      rfl
    · rw [reserved]
      rfl
  cases session with
  | none =>
    obtain rfl : t = enrol u userId passwordHash ts := written
    exact named _
  | some c =>
    have new : Opens (· = (c.userId, c.deviceId)) (enrol u userId passwordHash ts) t :=
      .writeSession written
    exact (named _).trans (new.mono fun k same => ⟨rfl, c, rfl, same⟩)

theorem Opens.refreshSession {old : Hash} {c : SessionCmd}
    (applied : refreshSession s old c = .ok (t, r)) : Opens opened s t := by
  obtain ⟨rfl, -⟩ | ⟨entry, known, valid, written, -⟩ := refreshSession_eq_ok applied
  · exact .refl t
  obtain ⟨-, user, device⟩ := of_decide_eq_true valid
  have renewed := Opens.writeSession written
  refine ⟨fun k there => .inl ?_, renewed.linked⟩
  obtain before | rfl := renewed.session k there
  · exact before
  · refine .inr ⟨old, .current entry, getToken_eq_some known, ?_⟩
    rw [← user, ← device]
    rfl

theorem Opens.setLocked {locked : Bool}
    (applied : setLocked e s userId locked = .ok (t, r)) : Opens opened s t := by
  obtain ⟨rfl, -⟩ | ⟨account, -, applied⟩ := withAccount_eq_ok applied
  · exact .refl t
  split at applied
  · obtain rfl := eq_of_ok applied
    exact .refl _
  obtain ⟨u, stamped, applied⟩ := bind_eq_ok.1 applied
  obtain ⟨rfl, -⟩ := ok_pair applied
  have stamped : (hashesOf e userId).foldlM (restampToken (lockState locked))
      (s.putAccount userId { account with state := lockState locked }) = .ok u := stamped
  rw [foldlM_restampToken] at stamped
  split at stamped
  · simp at stamped
  obtain rfl := Except.ok.inj stamped
  refine Opens.tokens rfl fun h row found => ?_
  dsimp only [putAccount] at found
  rw [getElem?_restampRows] at found
  split at found
  · obtain ⟨row', before, rfl⟩ := Option.map_eq_some_iff.1 found
    refine ⟨row', before, ?_⟩
    cases row' <;> rfl
  · exact ⟨row, found, rfl⟩

def openedBy (cmd : UserCommand) (r : UserResponse) : Option (UserId × DeviceId) :=
  match cmd, r with
  | .createSession c, .ok => some (c.userId, c.deviceId)
  | .register _ _ _ session, .ok => session.map fun c => (c.userId, c.deviceId)
  | .registerWithToken _ _ _ session _, .ok => session.map fun c => (c.userId, c.deviceId)
  | _, _ => none

theorem opens_apply {serde : SerdeJson} {cmd : UserCommand}
    (applied : apply serde e s cmd = .ok (t, r)) : Opens (fun k => openedBy cmd r = some k) s t := by
  have shape := apply_frame applied
  cases cmd with
  | register userId passwordHash ts session =>
    rw [Machine.apply] at applied
    refine (Opens.register applied).mono fun k => ?_
    rintro ⟨rfl, c, rfl, rfl⟩
    rfl
  | registerWithToken userId passwordHash ts session registrationToken =>
    rw [Machine.apply] at applied
    refine (Opens.register applied).mono fun k => ?_
    rintro ⟨rfl, c, rfl, rfl⟩
    rfl
  | createSession c =>
    obtain ⟨rfl, -⟩ | ⟨-, written, rfl⟩ := createSession_eq_ok applied
    · exact .refl t
    · exact (Opens.writeSession written).mono fun k same => congrArg some same.symm
  | refreshSession oldRefreshHash c => exact Opens.refreshSession applied
  | deleteDevice userId deviceId =>
    obtain rfl := eq_of_ok applied
    have deleted (opened) : Opens opened s (Machine.deleteDevice e s userId deviceId).1 :=
      .deleteDevice e userId deviceId
    unfold deleteOneDevice
    dsimp only
    split
    · exact (deleted _).trans (.frame rfl rfl)
    · exact deleted _
  | deleteAllDevices userId =>
    obtain rfl := eq_of_ok applied
    exact Opens.logoutDevices e userId none
  | changePassword | adminSetPassword =>
    obtain rfl | ⟨account, hash, -, rfl | ⟨keep, rfl⟩⟩ := setsPassword_cases applied rfl
    · exact .refl t
    · exact Opens.frame rfl rfl
    · exact (Opens.putAccount _ _).trans (.logoutDevices e _ keep)
  | deactivate userId =>
    obtain ⟨rfl, -⟩ | ⟨account, -, applied⟩ := withAccount_eq_ok applied
    · exact .refl t
    obtain rfl := eq_of_ok applied
    exact (Opens.putAccount userId _).trans (.logoutDevices e userId none)
  | setLocked userId locked => exact Opens.setLocked applied
  | upsertDevice userId deviceId displayName ts =>
    obtain rfl := eq_of_ok applied
    unfold upsertDevice
    dsimp only
    refine Opens.trans (Opens.putDevice ?_) (Opens.frame rfl rfl)
    cases s.device[(userId, deviceId)]? <;> rfl
  | setDeviceName userId deviceId displayName =>
    obtain rfl := eq_of_ok applied
    unfold setDeviceName
    split
    · exact .refl s
    · rename_i device found
      refine Opens.trans (Opens.putDevice ?_) (Opens.frame rfl rfl)
      rw [found]
      rfl
  | _ => exact Opens.frame (by rw [shape]; rfl) (by rw [shape]; rfl)

/-- The token rewrite of a migration finds the rows that its batch has not dropped or handed on. -/
def StepKeepsOwners (e s : Store) : Nat → Prop
  | 5 => ∀ (h : Hash) (row : TokenRow), e.token[h]? = some row →
      ∃ row', s.token[h]? = some row' ∧ row'.owner = row.owner
  | _ => True

theorem opens_migrate {target : Nat} (safe : StepKeepsOwners e s target)
    (migrated : migrate e s target = .ok t) : Opens opened s t := by
  match target with
  | 2 =>
    obtain rfl := Except.ok.inj migrated
    exact .frame rfl rfl
  | 3 =>
    have shape := migrateAccounts_frame migrated
    exact .frame (by rw [shape]) (by rw [shape])
  | 4 =>
    obtain rfl := Except.ok.inj migrated
    exact .refl s
  | 5 =>
    have shape := migrateTokens_frame migrated
    refine .tokens (by rw [shape]) ?_
    refine (foldlM_spec (I := fun _ u => ∀ (h : Hash) (row : TokenRow), u.token[h]? = some row →
      ∃ row', s.token[h]? = some row' ∧ row.owner = row'.owner) (F := fun _ => True)
      (fun _ r u v mem ih step => ?_) (fun _ _ _ _ _ _ _ => trivial)
      fun h row found => ⟨row, found, rfl⟩).1 t migrated
    obtain ⟨state, -, step⟩ := bind_eq_ok.1 step
    obtain rfl := pure_eq_ok.1 step
    intro h row found
    rw [putToken, OrdMap.getElem?_insert'] at found
    split at found
    · rename_i own
      obtain rfl := Option.some.inj found
      obtain ⟨row', before, same⟩ :=
        safe r.1 r.2 (OrdMap.mem_toList.1 mem)
      exact ⟨row', own ▸ before, same.symm⟩
    · exact ih h row found
  | 6 =>
    obtain rfl := Except.ok.inj migrated
    exact .frame rfl rfl
  | 0 | 1 | n + 7 => simp [Machine.migrate] at migrated

end Devices

/-! ## Logins -/

def accessTokenLifetimeMs : Nat := 60 * 60 * 1000

def newSession (userId : UserId) (deviceId : DeviceId) (displayName : Option String)
    (tokenHash : Hash) (refreshHash : Option Hash) (ts : Nat) : SessionCmd where
  userId := userId
  deviceId := deviceId
  displayName := displayName
  tokenHash := tokenHash
  refreshHash := refreshHash
  expiresTs := refreshHash.map fun _ => ts + accessTokenLifetimeMs
  ts := ts

def loginHash (verifyPassword : String → String → Bool) (s : Store) (userId : UserId)
    (password : String) : Except StoreError (Option String) := do
  let account := (← s.getAccount userId).filter fun a => a.state.canAuthenticate
  match account.bind Account.passwordHash with
  | none => return none
  | some hash => return if verifyPassword password hash then some hash else none

/-- A login whose password was verified, and the session it proposes. -/
structure Login where
  hash : String
  session : SessionCmd
  /-- How many password changes had been applied to what it read. -/
  seen : Nat
  deriving DecidableEq

def Login.key (login : Login) : UserId × DeviceId := (login.session.userId, login.session.deviceId)

structure PasswordChange where
  userId : UserId
  replaced : Option String
  keep : DeviceId
  deriving DecidableEq

/-- What an entry does to the record of sessions. -/
inductive SessionEvent where
  /-- A session was opened by something other than a password login. -/
  | opened (k : UserId × DeviceId)
  | changed (change : PasswordChange)
  deriving DecidableEq

def replacedHash (s : Store) (userId : UserId) : Option String :=
  match s.getAccount userId with
  | .ok (some account) => account.passwordHash
  | _ => none

def sessionEvents (s : Store) (cmd : UserCommand) (_ : Store) (r : UserResponse) : List SessionEvent :=
  match cmd, r with
  | .changePassword userId _ true keepDevice, .ok =>
    [.changed ⟨userId, replacedHash s userId, keepDevice⟩]
  | cmd, r => (openedBy cmd r).toList.map SessionEvent.opened

structure LoginWorld (serde : SerdeJson) where
  shard : Shard.State (UserApp serde)
  /-- The logins whose password was verified; their sessions may be applied at any time. -/
  verified : List Login
  /-- The logins that the devices' sessions come from. -/
  opened : OrdMap (UserId × DeviceId) Login
  changes : List PasswordChange

inductive LoginAct where
  | verify (userId : UserId) (password : String) (deviceId : DeviceId) (displayName : Option String)
      (tokenHash : Hash) (refreshHash : Option Hash) (ts : Nat)
  /-- An entry that no password login proposed is applied. -/
  | entry (entry : Shard.Entry UserCommand)
  /-- The session that a login proposed is applied. -/
  | login (logId : Shard.LogId) (i : Nat)

namespace LoginWorld

variable {serde : SerdeJson}

def fresh (serde : SerdeJson) : LoginWorld serde := ⟨.fresh .empty, [], ∅, []⟩

def note (w : LoginWorld serde) : SessionEvent → LoginWorld serde
  | .opened k => { w with opened := w.opened.erase k }
  | .changed change => { w with changes := w.changes ++ [change] }

def openSession (w : LoginWorld serde) (login : Login) (shard : Shard.State (UserApp serde))
    (r : Shard.EntryResponse UserResponse) : LoginWorld serde :=
  if r = .normal .ok then { w with shard := shard, opened := w.opened.insert login.key login }
  else { w with shard := shard }

/-- One step, in a batch of the shard that began in `e`. A login reads what is committed. -/
def step (verifyPassword : String → String → Bool) (e w : LoginWorld serde) :
    LoginAct → Except StoreError (LoginWorld serde × Unit)
  | .verify userId password deviceId displayName tokenHash refreshHash ts =>
    match loginHash verifyPassword e.shard.app userId password with
    | .ok (some hash) =>
      let session := newSession userId deviceId displayName tokenHash refreshHash ts
      .ok ({ w with verified := w.verified ++ [⟨hash, session, e.changes.length⟩] }, ())
    | _ => .ok (w, ())
  | .entry entry => do
    let (shard, r) ← Shard.applyEntry (UserApp serde) e.shard w.shard entry
    let events := entryEvents sessionEvents w.shard entry shard r
    return (events.foldl note { w with shard := shard }, ())
  | .login logId i =>
    match w.verified[i]? with
    | none => .ok (w, ())
    | some login => do
      let entry : Shard.Entry UserCommand := ⟨logId, .normal (.createSession login.session)⟩
      let (shard, r) ← Shard.applyEntry (UserApp serde) e.shard w.shard entry
      return (w.openSession login shard r, ())

end LoginWorld

/-- The change replaces the hash that the login was verified against, and does not keep its device. -/
def PasswordChange.Ends (change : PasswordChange) (login : Login) : Prop :=
  change.userId = login.session.userId ∧ change.replaced = some login.hash ∧
    change.keep ≠ login.session.deviceId

instance (change : PasswordChange) (login : Login) : Decidable (change.Ends login) :=
  inferInstanceAs (Decidable (_ ∧ _ ∧ _))

/-- Such a change was applied since the login read the account. -/
def Login.Ended (login : Login) (changes : List PasswordChange) : Prop :=
  ∃ change ∈ changes.drop login.seen, change.Ends login

def FindsEnded {serde : SerdeJson} (e w : LoginWorld serde) : UserCommand → Prop
  | .changePassword userId _ true keepDevice =>
    ∀ (k : UserId × DeviceId) (login : Login), w.opened[k]? = some login →
      (PasswordChange.mk userId (replacedHash w.shard.app userId) keepDevice).Ends login →
        HasSession w.shard.app k → k ∈ e.shard.app.device
  | _ => True

/-- The condition on a step: no password change that ends a login is applied between what the login
reads and its session, and those that are applied find what they end. -/
def Timely {serde : SerdeJson} (e w : LoginWorld serde) : LoginAct → Prop
  | .verify .. => True
  | .entry entry =>
    match entry.payload with
    | .normal cmd => FindsEnded e w cmd
    | .runtime (.migrate target) => StepKeepsOwners e.shard.app w.shard.app target
    | _ => True
  | .login _ i => ∀ login, w.verified[i]? = some login → ¬ login.Ended w.changes

/-! ## Runs -/

section Run

variable {serde : SerdeJson} {verifyPassword : String → String → Bool} {e w w' : LoginWorld serde}
  {shard : Shard.State (UserApp serde)} {changes : List PasswordChange} {r : UserResponse}

structure Ending (w : LoginWorld serde) : Prop where
  linked : Linked w.shard.app
  key : ∀ (k : UserId × DeviceId) (login : Login), w.opened[k]? = some login → k = login.key
  ended : ∀ (k : UserId × DeviceId) (login : Login), w.opened[k]? = some login →
    login.Ended w.changes → ¬ HasSession w.shard.app k

theorem Login.ended_append {login : Login} {change : PasswordChange}
    (h : login.Ended (changes ++ [change])) : login.Ended changes ∨ change.Ends login := by
  obtain ⟨c, mem, ends⟩ := h
  rw [List.drop_append, List.mem_append] at mem
  obtain old | new := mem
  · exact .inl ⟨c, old, ends⟩
  · obtain rfl := List.mem_singleton.1 (List.mem_of_mem_drop new)
    exact .inr ends

theorem Ending.closed (h : Ending w)
    (closes : Opens (fun _ => False) w.shard.app shard.app) : Ending { w with shard := shard } where
  linked := closes.linked h.linked
  key := h.key
  ended k login opened ended there :=
    h.ended k login opened ended ((closes.session k there).resolve_right id)

theorem Ending.opened (h : Ending w) {k : UserId × DeviceId}
    (opens : Opens (fun k' => some k = some k') w.shard.app shard.app) :
    Ending { w with shard := shard, opened := w.opened.erase k } := by
  have before : ∀ (k' : UserId × DeviceId) (login : Login), (w.opened.erase k)[k']? = some login →
      k ≠ k' ∧ w.opened[k']? = some login := by
    intro k' login found
    rw [OrdMap.getElem?_erase'] at found
    split at found
    · simp at found
    · rename_i other
      exact ⟨Ne.symm other, found⟩
  refine ⟨opens.linked h.linked, fun k' login found => h.key k' login (before k' login found).2, ?_⟩
  intro k' login found ended there
  obtain ⟨other, found⟩ := before k' login found
  exact h.ended k' login found ended
    ((opens.session k' there).resolve_right fun same => other (Option.some.inj same))

theorem Ending.changed (h : Ending w) {userId : UserId} {passwordHash : String} {keepDevice : DeviceId}
    (finds : FindsEnded e w (.changePassword userId passwordHash true keepDevice))
    (applied : apply serde e.shard.app w.shard.app
      (.changePassword userId passwordHash true keepDevice) = .ok (shard.app, .ok)) :
    Ending { w with
      shard := shard
      changes := w.changes ++ [⟨userId, replacedHash w.shard.app userId, keepDevice⟩] } := by
  have opens : Opens (fun k => openedBy (.changePassword userId passwordHash true keepDevice) .ok =
    some k) w.shard.app shard.app := opens_apply applied
  have closes : Opens (fun _ => False) w.shard.app shard.app := opens.mono fun k => nofun
  refine ⟨closes.linked h.linked, h.key, fun k login opened ended there => ?_⟩
  have before := (closes.session k there).resolve_right id
  obtain earlier | now := Login.ended_append ended
  · exact h.ended k login opened earlier before
  have found := finds k login opened now before
  obtain ⟨user, -, other⟩ := now
  have own : k.1 = userId := (congrArg Prod.fst (h.key k login opened)).trans user.symm
  have device : some keepDevice ≠ some k.2 := fun same =>
    other ((Option.some.inj same).trans (congrArg Prod.snd (h.key k login opened)))
  have gone : k ∉ shard.app.device := by
    obtain ⟨-, refused, -⟩ | ⟨account, -, applied⟩ := withAccount_eq_ok applied
    · cases refused
    · have same := eq_of_ok applied
      rw [if_pos rfl] at same
      rw [same]
      exact logoutDevices_gone found own device
  exact gone ((closes.linked h.linked).device there)

theorem Ending.command (h : Ending w) {cmd : UserCommand} (finds : FindsEnded e w cmd)
    (applied : apply serde e.shard.app w.shard.app cmd = .ok (shard.app, r)) :
    Ending ((sessionEvents w.shard.app cmd shard.app r).foldl LoginWorld.note
      { w with shard := shard }) := by
  have opens := opens_apply applied
  unfold sessionEvents
  split
  · exact h.changed finds applied
  · cases by' : openedBy cmd r with
    | none =>
      refine h.closed (opens.mono fun k same => ?_)
      rw [by'] at same
      cases same
    | some k =>
      rw [by'] at opens
      exact h.opened opens

theorem Ending.login (h : Ending w) {login : Login} (timely : ¬ login.Ended w.changes)
    (applied : apply serde e.shard.app w.shard.app (.createSession login.session) =
      .ok (shard.app, r)) : Ending (w.openSession login shard (.normal r)) := by
  unfold LoginWorld.openSession
  obtain ⟨same, rfl⟩ | ⟨-, written, rfl⟩ := createSession_eq_ok applied
  · rw [if_neg (by simp)]
    exact h.closed (same ▸ .refl _)
  rw [if_pos rfl]
  have opens := Opens.writeSession written
  have rows : ∀ (k : UserId × DeviceId) (login' : Login),
      (w.opened.insert login.key login)[k]? = some login' →
        (k = login.key ∧ login' = login) ∨ (k ≠ login.key ∧ w.opened[k]? = some login') := by
    intro k login' found
    rw [OrdMap.getElem?_insert'] at found
    split at found
    · rename_i own
      exact .inl ⟨own, (Option.some.inj found).symm⟩
    · rename_i other
      exact .inr ⟨other, found⟩
  refine ⟨opens.linked h.linked, fun k login' found => ?_, fun k login' found ended there => ?_⟩
  · obtain ⟨rfl, rfl⟩ | ⟨-, before⟩ := rows k login' found
    · rfl
    · exact h.key k login' before
  · obtain ⟨rfl, rfl⟩ | ⟨other, before⟩ := rows k login' found
    · exact timely ended
    · exact h.ended k login' before ended ((opens.session k there).resolve_right other)

theorem Ending.step (h : Ending w) {act : LoginAct} (timely : Timely e w act)
    (stepped : LoginWorld.step verifyPassword e w act = .ok (w', ())) : Ending w' := by
  cases act with
  | verify userId password deviceId displayName tokenHash refreshHash ts =>
    simp only [LoginWorld.step] at stepped
    split at stepped
    · obtain ⟨rfl, -⟩ := ok_pair stepped
      exact ⟨h.linked, h.key, h.ended⟩
    · obtain ⟨rfl, -⟩ := ok_pair stepped
      exact h
  | entry entry =>
    obtain ⟨⟨shard, r⟩, applied, stepped⟩ := bind_eq_ok.1 stepped
    obtain ⟨rfl, -⟩ := ok_pair stepped
    have did : EntryDid sessionEvents e.shard w.shard entry shard.app
      (entryEvents sessionEvents w.shard entry shard r) := applyEntry_did applied
    dsimp only [Timely] at timely ⊢
    generalize entryEvents sessionEvents w.shard entry shard r = events at did
    cases did with
    | command payload step told =>
      subst told
      rw [payload] at timely
      exact h.command timely step
    | migration payload migrated silent =>
      subst silent
      rw [payload] at timely
      exact h.closed (opens_migrate timely migrated)
    | nothing same silent =>
      subst silent
      exact h.closed (same ▸ .refl _)
  | login logId i =>
    simp only [LoginWorld.step] at stepped
    cases found : w.verified[i]? with
    | none =>
      rw [found] at stepped
      obtain ⟨rfl, -⟩ := ok_pair stepped
      exact h
    | some login =>
      rw [found] at stepped
      obtain ⟨⟨shard, r⟩, applied, stepped⟩ := bind_eq_ok.1 stepped
      obtain ⟨rfl, -⟩ := ok_pair stepped
      obtain ⟨⟨app, r'⟩, step, answer⟩ := bind_eq_ok.1 applied
      obtain ⟨rfl, rfl⟩ := ok_pair answer
      exact h.login (e := e) (timely login found) step

theorem Ending.fresh : Ending (LoginWorld.fresh serde) where
  linked h row found := by simp [LoginWorld.fresh, Shard.State.fresh, Store.empty] at found
  key k login found := by simp [LoginWorld.fresh] at found
  ended k login found := by simp [LoginWorld.fresh] at found

theorem run_ending
    (run : Batch.Runs (LoginWorld.step verifyPassword) Timely (LoginWorld.fresh serde) w) : Ending w :=
  Batch.Runs.invariant (I := fun _ w => Ending w) (fun _ _ h => h)
    (fun _ _ _ _ _ h timely stepped => h.step timely stepped) run Ending.fresh

/-- **A password change ends the old password.** In a run whose steps all meet the condition, a device
has no session that comes from a login verified against a hash that was replaced since, unless the
change keeps the device. -/
theorem password_change_ends
    (run : Batch.Runs (LoginWorld.step verifyPassword) Timely (LoginWorld.fresh serde) w)
    {k : UserId × DeviceId} {login : Login} (opened : w.opened[k]? = some login)
    (ended : login.Ended w.changes) : ¬ HasSession w.shard.app k :=
  (run_ending run).ended k login opened ended

def sampleAccount : LoginAct := .entry ⟨⟨1, 1, 1⟩, .normal (.register "@a:x" (some "old") 0 none)⟩

def sampleVerify : LoginAct := .verify "@a:x" "old" "D" none 7 none 1

def sampleChange : LoginAct :=
  .entry ⟨⟨1, 1, 3⟩, .normal (.changePassword "@a:x" "new" true "K")⟩

def sampleOpen : LoginAct := .login ⟨1, 1, 2⟩ 0

def sampleEnded : Login := ⟨"old", newSession "@a:x" "D" none 7 none 1, 0⟩

def sampleStep (w : LoginWorld .sample) (act : LoginAct) :
    Except StoreError (LoginWorld .sample × List Unit) :=
  Batch.applyBatch (LoginWorld.step fun password hash => password = hash) w [act]

def sampleRun (acts : List LoginAct) : Except StoreError (LoginWorld .sample × List Unit) :=
  Batch.applyAll (LoginWorld.step fun password hash => password = hash) (LoginWorld.fresh .sample)
    (acts.map fun act => [act])

theorem sampleEnded_ended (h : changes = [⟨"@a:x", some "old", "K"⟩]) : sampleEnded.Ended changes := by
  subst h
  exact ⟨_, List.mem_singleton_self _, rfl, rfl, by decide⟩

/-- A session that is opened before the change. -/
theorem password_change_ends_sample : ∃ w : LoginWorld .sample,
    Batch.Runs (LoginWorld.step fun password hash => password = hash) Timely (LoginWorld.fresh .sample) w ∧
    w.opened[("@a:x", "D")]? = some sampleEnded ∧ sampleEnded.Ended w.changes ∧
    ¬ HasSession w.shard.app ("@a:x", "D") := by
  have h : (sampleRun [sampleAccount, sampleVerify]).toOption.any
      (fun x : LoginWorld .sample × List Unit => decide (x.1.changes = []) &&
        (sampleStep x.1 sampleOpen).toOption.any fun y : LoginWorld .sample × List Unit =>
          (sampleStep y.1 sampleChange).toOption.any fun z : LoginWorld .sample × List Unit =>
            decide (z.1.opened[(("@a:x", "D") : UserId × DeviceId)]? = some sampleEnded) &&
              decide (z.1.changes = [⟨"@a:x", some "old", "K"⟩])) = true := by
    decide +kernel
  obtain ⟨⟨w₁, _⟩, verified, h⟩ := (Option.any_eq_true _ _).1 h
  rw [Bool.and_eq_true, decide_eq_true_eq] at h
  obtain ⟨unchanged, h⟩ := h
  obtain ⟨⟨w₂, _⟩, logged, h⟩ := (Option.any_eq_true _ _).1 h
  obtain ⟨⟨w, _⟩, changed, h⟩ := (Option.any_eq_true _ _).1 h
  rw [Bool.and_eq_true, decide_eq_true_eq, decide_eq_true_eq] at h
  obtain ⟨opened, changes⟩ := h
  have start : Batch.Runs (LoginWorld.step fun password hash => password = hash) Timely
      (LoginWorld.fresh .sample) w₁ := by
    refine Batch.Runs.of_applyAll (toOption_eq_some.1 verified) fun e w act mem => ?_
    obtain rfl | rfl : act = sampleAccount ∨ act = sampleVerify := by simpa using mem
    · trivial
    · trivial
  have untouched (login : Login) : ¬ login.Ended w₁.changes := by
    rintro ⟨change, mem, -⟩
    rw [unchanged, List.drop_nil] at mem
    exact List.not_mem_nil mem
  have before := start.single (toOption_eq_some.1 logged) fun login _ => untouched login
  have finds : Timely w₂ w₂ sampleChange := fun k _ _ _ there => (run_ending before).linked.device there
  have run := before.single (toOption_eq_some.1 changed) finds
  have ended := sampleEnded_ended changes
  exact ⟨w, run, opened, ended, password_change_ends run opened ended⟩

/-- A session that was verified before the change, and is opened after it. -/
theorem login_overtaken : ∃ w : LoginWorld .sample,
    Batch.Runs (LoginWorld.step fun password hash => password = hash) (fun _ _ _ => True)
      (LoginWorld.fresh .sample) w ∧
    w.opened[("@a:x", "D")]? = some sampleEnded ∧ sampleEnded.Ended w.changes ∧
    HasSession w.shard.app ("@a:x", "D") := by
  have h : (sampleRun [sampleAccount, sampleVerify, sampleChange, sampleOpen]).toOption.any
      (fun x : LoginWorld .sample × List Unit =>
        decide (x.1.opened[(("@a:x", "D") : UserId × DeviceId)]? = some sampleEnded) &&
          decide (x.1.changes = [⟨"@a:x", some "old", "K"⟩]) &&
            decide (x.1.shard.app.token[(7 : Hash)]?.map TokenRow.owner = some ("@a:x", "D"))) =
      true := by
    decide +kernel
  obtain ⟨⟨w, rs⟩, ran, h⟩ := (Option.any_eq_true _ _).1 h
  simp only [Bool.and_eq_true, decide_eq_true_eq] at h
  obtain ⟨⟨opened, changes⟩, stored⟩ := h
  obtain ⟨row, found, owner⟩ := Option.map_eq_some_iff.1 stored
  refine ⟨w, Batch.Runs.of_applyAll (toOption_eq_some.1 ran) fun _ _ _ _ => trivial, opened,
    sampleEnded_ended changes, .inr ⟨7, row, found, owner⟩⟩

end Run

end Saltator.User
