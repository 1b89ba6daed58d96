import Saltator.User.Tokens

/-!
# Deactivated accounts

Deactivation clears the password and deletes every device with its tokens, and it is meant to be
terminal. `deactivation_absorbing` carries that along a run. Four things reopen an account: a password
change, which does not look at the state of the account; a session that the deactivation's own batch
opened, whose device the sweep does not find; an unlock that reaches a token of another account; and
a rewrite of the accounts in the batch of the deactivation, which scans the old row.
-/

namespace Saltator.User

open Machine
open Store
open Saltator.Outcome

/-! ## Authentication -/

def tokenCompat : TokenRow → TokenEntry × Bool
  | .current entry => (entry, true)
  | .v4 old => (tokenV4ToV5 old .active, false)

/-- Whether the account of a token may authenticate. A row that does not carry the state cannot answer
for itself: the account is asked. -/
def permitted (s : Store) (entry : TokenEntry) (mirrored : Bool) : Except StoreError Bool :=
  if mirrored then .ok entry.state.canAuthenticate
  else do return (← s.getAccount entry.userId).any fun a => a.state.canAuthenticate

def authenticate (s : Store) (hash : Hash) (now : Nat) : Except StoreError (Option (UserId × DeviceId)) :=
  match s.token[hash]? with
  | none => .ok none
  | some row =>
    let (entry, mirrored) := tokenCompat row
    if entry.kind ≠ .access then .ok none
    else if entry.expiresTs.any fun t => t ≤ now then .ok none
    else do return if ← permitted s entry mirrored then some (entry.userId, entry.deviceId) else none

/-- The account is deactivated, it has no password, and no token of it, access or refresh, carries a
state that authenticates. -/
structure Closed (userId : UserId) (s : Store) : Prop where
  account : ∃ a, s.account[userId]? = some (.current a) ∧ a.state = .deactivated ∧ a.passwordHash = none
  token : ∀ (h : Hash) (entry : TokenEntry), s.token[h]? = some (.current entry) →
    entry.userId = userId → entry.state.canAuthenticate = false

/-- The sweep of a deactivation finds the device of every token that still authenticates. -/
def Swept (e s : Store) (userId : UserId) : Prop :=
  ∀ (h : Hash) (entry : TokenEntry), s.token[h]? = some (.current entry) → entry.userId = userId →
    entry.state.canAuthenticate = true → ∃ (deviceId : DeviceId) (device : Device),
      (userId, deviceId) ∈ e.device ∧ s.device[(userId, deviceId)]? = some device ∧ h ∈ device.hashes

def KeepsClosed (userId : UserId) (e s : Store) : UserCommand → Prop
  | .changePassword userId' .. => userId' ≠ userId
  | .setLocked userId' locked =>
    locked = false → ∀ account, s.account[userId']? = some (.current account) →
      account.state ≠ .deactivated → ∀ h ∈ hashesOf e userId', ∀ entry : TokenEntry,
        s.token[h]? = some (.current entry) → entry.userId ≠ userId
  | _ => True

/-- The condition on a migration step that follows a deactivation: the account rewrite does not find
the row from before it. -/
def StepKeepsClosed (userId : UserId) (e : Store) : Nat → Prop
  | 3 => ∀ row, e.account[userId]? = some row → ∃ a, row = .current a ∧ a.state = .deactivated
  | _ => True

section Closed

variable {s t : Store} {userId : UserId}

theorem Closed.accountState (h : Closed userId s) {state : AccountState}
    (found : s.accountState userId = .ok state) : state.canAuthenticate = false := by
  obtain ⟨a, owner, deactivated, -⟩ := h.account
  rw [accountState_eq owner found, deactivated]
  rfl

theorem Closed.not_permitted (h : Closed userId s) {hash : Hash} {row : TokenRow}
    (found : s.token[hash]? = some row) (own : (tokenCompat row).1.userId = userId) {b : Bool}
    (answer : permitted s (tokenCompat row).1 (tokenCompat row).2 = .ok b) : b = false := by
  cases row with
  | current entry =>
    obtain rfl := Except.ok.inj answer
    exact h.token hash entry found own
  | v4 old =>
    obtain ⟨account, known, answer⟩ := bind_eq_ok.1 answer
    obtain rfl := pure_eq_ok.1 answer
    obtain ⟨a, owner, deactivated, -⟩ := h.account
    rw [own, getAccount_eq_some.2 owner] at known
    obtain rfl := Except.ok.inj known
    simp [deactivated, AccountState.canAuthenticate]

theorem Closed.not_authenticate (h : Closed userId s) (hash : Hash) (now : Nat)
    (deviceId : DeviceId) : authenticate s hash now ≠ .ok (some (userId, deviceId)) := by
  intro answer
  unfold authenticate at answer
  split at answer
  · simp at answer
  rename_i row found
  dsimp only at answer
  split at answer
  · simp at answer
  split at answer
  · simp at answer
  obtain ⟨b, asked, answer⟩ := bind_eq_ok.1 answer
  have answer := pure_eq_ok.1 answer
  cases b with
  | true =>
    obtain ⟨own, -⟩ := some_pair answer
    exact Bool.noConfusion (h.not_permitted found own asked)
  | false => simp at answer

theorem Closed.not_consumeLoginToken (h : Closed userId s) (hash : Hash) (now : Nat) :
    consumeLoginToken s hash now ≠ .ok (t, .loginTokenOwner userId) := by
  intro answer
  unfold consumeLoginToken at answer
  split at answer
  · simp at answer
  dsimp only at answer
  split at answer
  · simp at answer
  obtain ⟨account, known, answer⟩ := bind_eq_ok.1 answer
  split at answer
  · rename_i permitted
    obtain ⟨-, own⟩ := ok_pair answer
    obtain ⟨a, owner, deactivated, -⟩ := h.account
    have own := UserResponse.loginTokenOwner.inj own
    change s.getAccount _ = _ at known
    rw [own, getAccount_eq_some.2 owner] at known
    obtain rfl := Except.ok.inj known
    simp [deactivated, AccountState.canAuthenticate] at permitted
  · obtain ⟨-, own⟩ := ok_pair answer
    simp at own

theorem Closed.closed_of (h : Closed userId s) {userId' : UserId} {account : Account}
    (known : s.getAccount userId' = .ok (some account)) (same : userId' = userId) :
    account.state = .deactivated ∧ account.passwordHash = none := by
  obtain ⟨a, owner, closed⟩ := h.account
  rw [same, getAccount_eq_some, owner] at known
  exact AccountRow.current.inj (Option.some.inj known) ▸ closed

theorem Closed.keep (h : Closed userId s) (account : t.account[userId]? = s.account[userId]?)
    (token : ∀ (k : Hash) (entry : TokenEntry), t.token[k]? = some (.current entry) →
      entry.userId = userId → s.token[k]? = some (.current entry) ∨ entry.state.canAuthenticate = false) :
    Closed userId t where
  account := account ▸ h.account
  token k entry stored own := by
    obtain before | refused := token k entry stored own
    · exact h.token k entry before own
    · exact refused

theorem Closed.frame (h : Closed userId s) (account : t.account = s.account)
    (token : t.token = s.token) : Closed userId t :=
  h.keep (by rw [account]) fun _ _ stored _ => .inl (token ▸ stored)

theorem Closed.putAccount (h : Closed userId s) (userId' : UserId) (account : Account)
    (own : userId' = userId → account.state = .deactivated ∧ account.passwordHash = none) :
    Closed userId (s.putAccount userId' account) where
  account := by
    by_cases same : userId = userId'
    · refine ⟨account, ?_, own same.symm⟩
      rw [Store.putAccount, OrdMap.getElem?_insert', if_pos same]
    · obtain ⟨a, owner, closed⟩ := h.account
      refine ⟨a, ?_, closed⟩
      rw [Store.putAccount, OrdMap.getElem?_insert', if_neg same, owner]
  token := h.token

end Closed

/-! ## The deactivation -/

section Sweep

variable {e s t : Store} {userId : UserId} {x : Store × Bool}

/-- `t` has no token row that `s` does not have. -/
def Fewer (s t : Store) : Prop :=
  ∀ (k : Hash) (row : TokenRow), t.token[k]? = some row → s.token[k]? = some row

theorem deleteDevice_fewer (userId' : UserId) (deviceId : DeviceId) :
    Fewer s (deleteDevice e s userId' deviceId).1 := by
  unfold deleteDevice
  split
  · exact fun _ _ stored => stored
  · exact fun _ _ stored => (dropTokens_eq_some stored).2

theorem deleteRounds_fewer {keep : Option DeviceId} (l : List (UserId × DeviceId)) :
    Fewer x.1 (l.foldl (deleteRound e userId keep) x).1 := by
  induction l generalizing x with
  | nil => exact fun _ _ stored => stored
  | cons k l ih =>
    intro k' row stored
    have before := ih k' row stored
    unfold deleteRound at before
    split at before
    · exact before
    · exact deleteDevice_fewer userId k.2 k' row before

theorem token_logoutDevices (userId' : UserId) (keep : Option DeviceId) :
    (logoutDevices e s userId' keep).token = (deleteDevicesExcept e s userId' keep).1.token := by
  unfold logoutDevices
  dsimp only
  split <;> rfl

theorem logoutDevices_fewer (userId' : UserId) (keep : Option DeviceId) :
    Fewer s (logoutDevices e s userId' keep) := by
  intro k row stored
  rw [token_logoutDevices, deleteDevicesExcept_eq] at stored
  exact deleteRounds_fewer _ k row stored

theorem deleteRounds_gone {hash : Hash} {deviceId : DeviceId} {device : Device}
    (mem : hash ∈ device.hashes) {l : List (UserId × DeviceId)} (own : ∀ k ∈ l, k.1 = userId)
    (listed : (userId, deviceId) ∈ l) (there : x.1.device[(userId, deviceId)]? = some device) :
    (l.foldl (deleteRound e userId none) x).1.token[hash]? = none := by
  induction l generalizing x with
  | nil => simp at listed
  | cons k l ih =>
    rw [List.foldl_cons]
    by_cases now : k = (userId, deviceId)
    · have gone : (deleteRound e userId none x k).1.token[hash]? = none := by
        rw [now]
        unfold deleteRound deleteDevice
        rw [if_neg (by simp)]
        dsimp only
        rw [there]
        by_contra left
        obtain ⟨row, stored⟩ := Option.ne_none_iff_exists'.1 left
        exact (dropTokens_eq_some stored).1 mem
      by_contra left
      obtain ⟨row, stored⟩ := Option.ne_none_iff_exists'.1 left
      rw [deleteRounds_fewer l hash row stored] at gone
      simp at gone
    · refine ih (fun k' mem' => own k' (List.mem_cons_of_mem _ mem'))
        ((List.mem_cons.1 listed).resolve_left (Ne.symm now)) ?_
      have other : (userId, deviceId) ≠ (userId, k.2) := by
        intro same
        exact now (Prod.ext (own k List.mem_cons_self) (congrArg Prod.snd same).symm)
      unfold deleteRound deleteDevice
      rw [if_neg (by simp)]
      split
      · exact there
      · exact OrdMap.getElem?_erase'.trans ((if_neg other).trans there)

/-- **A deactivation closes the account**, if its sweep finds the device of every token that still
authenticates. -/
theorem closed_deactivate {r : UserResponse} (swept : Swept e s userId)
    (applied : applyDeactivate e s userId = .ok (t, r)) (ok : r = .ok) : Closed userId t := by
  obtain ⟨rfl, rfl, -⟩ | ⟨account, known, applied⟩ := withAccount_eq_ok applied
  · simp at ok
  obtain rfl := eq_of_ok applied
  constructor
  · refine ⟨{ account with state := .deactivated, passwordHash := none }, ?_, rfl, rfl⟩
    rw [logoutDevices_account, Store.putAccount, OrdMap.getElem?_insert', if_pos rfl]
  · intro k entry stored own
    by_contra live
    have before := logoutDevices_fewer userId none k _ stored
    obtain ⟨deviceId, device, found, there, mem⟩ :=
      swept k entry before own (Bool.eq_true_of_not_eq_false live)
    have gone := deleteRounds_gone (e := e)
      (x := (s.putAccount userId { account with state := .deactivated, passwordHash := none }, false))
      mem (l := (e.devicesOf userId).map Prod.fst)
      (fun k' mem' => of_decide_eq_true (OrdMap.mem_rows_keys.1 mem').2)
      (OrdMap.mem_rows_keys.2 ⟨found, decide_eq_true rfl⟩) there
    rw [token_logoutDevices, deleteDevicesExcept_eq, gone] at stored
    simp at stored

end Sweep

/-! ## What follows it -/

section Commands

variable {serde : SerdeJson} {e s t : Store} {r : UserResponse} {userId : UserId} {userId' : UserId}

theorem Closed.writeSession (h : Closed userId s) {c : SessionCmd}
    (written : writeSession s c = .ok t) : Closed userId t := by
  refine h.keep (by rw [writeSession_frame written]) fun k entry stored own => ?_
  obtain ⟨-, kind, expiresTs, state, stamp, same⟩ | ⟨-, before⟩ := writeSession_token written stored
  · obtain rfl := TokenRow.current.inj same
    have own : c.userId = userId := own
    rw [own] at stamp
    exact .inr (h.accountState stamp)
  · exact .inl before

theorem Closed.fewer (h : Closed userId s) (account : t.account = s.account) (fewer : Fewer s t) :
    Closed userId t :=
  h.keep (by rw [account]) fun k entry stored _ => .inl (fewer k _ stored)

theorem Closed.logoutDevices (h : Closed userId s) (userId' : UserId) (keep : Option DeviceId) :
    Closed userId (logoutDevices e s userId' keep) :=
  h.fewer (logoutDevices_account userId' keep) (logoutDevices_fewer userId' keep)

theorem Closed.register (h : Closed userId s) {passwordHash : Option String}
    {ts : Nat} {session : Option SessionCmd} {registrationToken : Option String}
    (applied : applyRegister s userId' passwordHash ts session registrationToken = .ok (t, r)) :
    Closed userId t := by
  obtain ⟨rfl, -⟩ | ⟨u, -, absent, consumed, -, opened⟩ := applyRegister_eq_ok applied
  · exact h
  have reserved : Closed userId u := by
    rw [consumeRegToken_frame consumed]
    exact h.frame rfl rfl
  have other : userId' ≠ userId := by
    rintro rfl
    obtain ⟨a, owner, -⟩ := h.account
    rw [absent] at owner
    simp at owner
  have created := reserved.putAccount userId'
    { passwordHash, createdTs := ts, state := .active, admin := false, erased := false }
    fun same => absurd same other
  have named := created.frame (t := enrol u userId' passwordHash ts) rfl rfl
  cases session with
  | none =>
    obtain rfl : t = enrol u userId' passwordHash ts := opened
    exact named
  | some c => exact named.writeSession opened

theorem Closed.setLocked (h : Closed userId s) {locked : Bool}
    (safe : KeepsClosed userId e s (.setLocked userId' locked))
    (applied : setLocked e s userId' locked = .ok (t, r)) : Closed userId t := by
  obtain ⟨rfl, -⟩ | ⟨account, known, applied⟩ := withAccount_eq_ok applied
  · exact h
  split at applied
  · obtain rfl := eq_of_ok applied
    exact h
  rename_i live
  obtain ⟨v, stamped, applied⟩ := bind_eq_ok.1 applied
  obtain ⟨rfl, -⟩ := ok_pair applied
  have before := getAccount_eq_some.1 known
  have other : userId' ≠ userId := by
    rintro rfl
    obtain ⟨a, owner, deactivated, -⟩ := h.account
    obtain rfl := AccountRow.current.inj (some_unique owner before)
    exact live deactivated
  have kept := h.putAccount userId' { account with state := lockState locked } fun same => absurd same other
  have stamped : (hashesOf e userId').foldlM (restampToken (lockState locked))
      (s.putAccount userId' { account with state := lockState locked }) = .ok v := stamped
  rw [foldlM_restampToken] at stamped
  split at stamped
  · simp at stamped
  obtain rfl := Except.ok.inj stamped
  refine kept.keep rfl fun k entry stored own => ?_
  have stored : (restampRows (lockState locked) s.token (hashesOf e userId'))[k]? =
      some (.current entry) := stored
  rw [getElem?_restampRows] at stored
  split at stored
  · rename_i listed
    obtain ⟨row, held, same⟩ := Option.map_eq_some_iff.1 stored
    cases row with
    | v4 old => simp [restampRow] at same
    | current old =>
      obtain rfl := TokenRow.current.inj same
      cases locked with
      | true => exact .inr rfl
      | false => exact absurd own (safe rfl account before live k listed old held)
  · exact .inl stored

theorem Closed.apply (h : Closed userId s) {cmd : UserCommand} (safe : KeepsClosed userId e s cmd)
    (applied : apply serde e s cmd = .ok (t, r)) : Closed userId t := by
  have shape := apply_frame applied
  cases cmd with
  | register =>
    rw [Machine.apply] at applied
    exact h.register applied
  | registerWithToken =>
    rw [Machine.apply] at applied
    exact h.register applied
  | createSession c =>
    obtain ⟨rfl, -⟩ | ⟨-, written, -⟩ := createSession_eq_ok applied
    · exact h
    · exact h.writeSession written
  | refreshSession old c =>
    obtain ⟨rfl, -⟩ | ⟨_, -, -, written, -⟩ := refreshSession_eq_ok applied
    · exact h
    · exact h.writeSession written
  | deleteDevice userId' deviceId =>
    obtain rfl := eq_of_ok applied
    have kept := h.fewer (by rw [deleteDevice_frame]; rfl) (deleteDevice_fewer (e := e) userId' deviceId)
    unfold deleteOneDevice
    dsimp only
    split
    · exact kept.frame rfl rfl
    · exact kept
  | deleteAllDevices userId' =>
    obtain rfl := eq_of_ok applied
    exact h.logoutDevices userId' none
  | changePassword userId' passwordHash logoutOthers keepDevice =>
    obtain ⟨rfl, -⟩ | ⟨account, known, applied⟩ := withAccount_eq_ok applied
    · exact h
    obtain rfl := eq_of_ok applied
    have kept := h.putAccount userId' { account with passwordHash := some passwordHash }
      fun same => absurd same safe
    dsimp only
    split
    · exact kept.logoutDevices userId' _
    · exact kept
  | adminSetPassword userId' passwordHash logout =>
    obtain ⟨rfl, -⟩ | ⟨account, known, applied⟩ := withAccount_eq_ok applied
    · exact h
    split at applied
    · obtain rfl := eq_of_ok applied
      exact h
    rename_i live
    obtain rfl := eq_of_ok applied
    have kept := h.putAccount userId' { account with passwordHash := some passwordHash }
      fun same => absurd (h.closed_of known same).1 live
    dsimp only
    split
    · exact kept.logoutDevices userId' none
    · exact kept
  | deactivate userId' =>
    obtain ⟨rfl, -⟩ | ⟨account, known, applied⟩ := withAccount_eq_ok applied
    · exact h
    obtain rfl := eq_of_ok applied
    exact (h.putAccount userId' { account with state := .deactivated, passwordHash := none }
      fun _ => ⟨rfl, rfl⟩).logoutDevices userId' none
  | setLocked userId' locked => exact h.setLocked safe applied
  | setAdmin userId' admin =>
    obtain ⟨rfl, -⟩ | ⟨account, known, applied⟩ := withAccount_eq_ok applied
    · exact h
    obtain rfl := eq_of_ok applied
    exact h.putAccount userId' { account with admin := admin }
      fun same => ⟨(h.closed_of known same).1, (h.closed_of known same).2⟩
  | setErased userId' =>
    obtain ⟨rfl, -⟩ | ⟨account, known, applied⟩ := withAccount_eq_ok applied
    · exact h
    split at applied
    · obtain rfl := eq_of_ok applied
      exact h
    obtain rfl := eq_of_ok applied
    have kept := h.putAccount userId' { account with erased := true }
      fun same => ⟨(h.closed_of known same).1, (h.closed_of known same).2⟩
    exact kept.frame rfl rfl
  | _ => exact h.frame (by rw [shape]; rfl) (by rw [shape]; rfl)

theorem Closed.migrateAccounts (h : Closed userId s) (safe : StepKeepsClosed userId e 3)
    (migrated : migrate e s 3 = .ok t) : Closed userId t := by
  refine (foldlM_spec (I := fun _ u => Closed userId u) (F := fun _ => True)
    (fun _ row u u' mem ih step => ?_) (fun _ _ _ _ _ _ _ => trivial) h).1 t migrated
  obtain ⟨userId', row⟩ := row
  obtain ⟨old, decoded, step⟩ := bind_eq_ok.1 step
  obtain rfl := pure_eq_ok.1 step
  refine ih.putAccount userId' _ fun same => ?_
  obtain ⟨a, rfl, deactivated⟩ := safe row (same ▸ OrdMap.mem_toList.1 mem)
  simp [decodeAccountV2, deactivated] at decoded

theorem Closed.migrateTokens (h : Closed userId s) (migrated : migrate e s 5 = .ok t) :
    Closed userId t := by
  refine (foldlM_spec (I := fun _ u => Closed userId u) (F := fun _ => True)
    (fun _ row u u' mem ih step => ?_) (fun _ _ _ _ _ _ _ => trivial) h).1 t migrated
  obtain ⟨state, stamp, step⟩ := bind_eq_ok.1 step
  obtain rfl := pure_eq_ok.1 step
  refine ih.keep rfl fun k entry stored own => ?_
  rw [putToken, OrdMap.getElem?_insert'] at stored
  split at stored
  · obtain rfl := TokenRow.current.inj (Option.some.inj stored)
    have own : (decodeTokenV4 row.2).userId = userId := own
    rw [own] at stamp
    exact .inr (ih.accountState stamp)
  · exact .inl stored

theorem Closed.migrate (h : Closed userId s) {target : Nat} (safe : StepKeepsClosed userId e target)
    (migrated : migrate e s target = .ok t) : Closed userId t := by
  match target with
  | 2 | 4 | 6 =>
    obtain rfl := Except.ok.inj migrated
    exact h.frame rfl rfl
  | 3 => exact h.migrateAccounts safe migrated
  | 5 => exact h.migrateTokens migrated
  | 0 | 1 | n + 7 => simp [Machine.migrate] at migrated

end Commands

/-! ## Runs -/

section Run

open Shard (applyEntry)

variable {serde : SerdeJson} {userId : UserId}

/-- The condition on an entry of the log that follows a deactivation. -/
def EntryKeepsClosed (serde : SerdeJson) (userId : UserId) (e s : Shard.State (UserApp serde))
    (entry : Shard.Entry UserCommand) : Prop :=
  match entry.payload with
  | .normal cmd => KeepsClosed userId e.app s.app cmd
  | .runtime (.migrate target) => StepKeepsClosed userId e.app target
  | _ => True

theorem Closed.applyEntry {e s t : Shard.State (UserApp serde)} {entry : Shard.Entry UserCommand}
    {r : Shard.EntryResponse UserResponse} (h : Closed userId s.app)
    (safe : EntryKeepsClosed serde userId e s entry)
    (applied : applyEntry (UserApp serde) e s entry = .ok (t, r)) : Closed userId t.app := by
  unfold EntryKeepsClosed at safe
  cases Shard.applyEntry_reaches applied with
  | idle same => exact same ▸ h
  | command payload step =>
    rw [payload] at safe
    exact h.apply safe step
  | migration payload next known migrated =>
    rw [payload] at safe
    exact h.migrate safe migrated

/-- **Deactivation is absorbing.** An account that was deactivated by a command whose sweep finds its
devices is closed in every later state: for the rest of the batch, and after every later batch. No
access token and no login token of it is honoured there. -/
theorem deactivation_absorbing {e s u v t : Shard.State (UserApp serde)} {logId : Shard.LogId}
    (swept : Swept e.app s.app userId)
    (deactivated : applyEntry (UserApp serde) e s ⟨logId, .normal (.deactivate userId)⟩ =
      .ok (u, .normal .ok))
    (rest : Batch.Within (applyEntry (UserApp serde)) (EntryKeepsClosed serde userId) e u v)
    (later : Batch.Runs (applyEntry (UserApp serde)) (EntryKeepsClosed serde userId) v t) :
    Closed userId t.app ∧
      (∀ hash now deviceId, authenticate t.app hash now ≠ .ok (some (userId, deviceId))) ∧
      ∀ hash now s', consumeLoginToken t.app hash now ≠ .ok (s', .loginTokenOwner userId) := by
  have start : Closed userId u.app := by
    obtain ⟨⟨app, r⟩, step, answer⟩ := bind_eq_ok.1 deactivated
    obtain ⟨rfl, same⟩ := ok_pair answer
    exact closed_deactivate swept step (Shard.EntryResponse.normal.inj same)
  have within := rest.invariant (I := fun s : Shard.State (UserApp serde) => Closed userId s.app)
    (fun _ _ _ _ h safe applied => h.applyEntry safe applied) start
  have closed := Batch.Runs.invariant
    (I := fun _ s : Shard.State (UserApp serde) => Closed userId s.app) (fun _ _ h => h)
    (fun _ _ _ _ _ h safe applied => h.applyEntry safe applied) later within
  exact ⟨closed, closed.not_authenticate, fun hash now s' => closed.not_consumeLoginToken hash now⟩

def sampleDeactivation : Shard.Entry UserCommand := ⟨⟨1, 1, 2⟩, .normal (.deactivate "@a:x")⟩

def sampleLogin : Shard.Entry UserCommand :=
  ⟨⟨1, 1, 3⟩, .normal (.createSession ⟨"@a:x", "E", none, 9, none, none, 1⟩)⟩

def samplePassword : Shard.Entry UserCommand :=
  ⟨⟨1, 1, 3⟩, .normal (.changePassword "@a:x" "hash" false "D")⟩

theorem deactivation_absorbing_login : ∃ t : Shard.State (UserApp SerdeJson.sample),
    t.app.token[(9 : Hash)]? = some (.current ⟨"@a:x", "E", .access, 1, none, .deactivated⟩) ∧
    Closed "@a:x" t.app := by
  have h : (Shard.apply (UserApp SerdeJson.sample) (.fresh .empty) [sampleRegister]).toOption.any
      (fun x => decide (x.1.app.token.toList = [((7 : Hash), sampleToken .active)]) &&
        decide (x.1.app.device.toList = [(("@a:x", "D"), ⟨none, 0, some 7, none⟩)]) &&
        (applyEntry (UserApp SerdeJson.sample) x.1 x.1 sampleDeactivation).toOption.any fun y =>
          decide (y.2 = .normal .ok) &&
          (Shard.apply (UserApp SerdeJson.sample) y.1 [sampleLogin]).toOption.any fun z =>
            decide (z.1.app.token[(9 : Hash)]? =
              some (.current ⟨"@a:x", "E", .access, 1, none, .deactivated⟩))) = true := by
    decide +kernel
  obtain ⟨⟨s, rs⟩, -, h⟩ := (Option.any_eq_true _ _).1 h
  simp only [Bool.and_eq_true, decide_eq_true_eq] at h
  obtain ⟨⟨tokens, devices⟩, h⟩ := h
  obtain ⟨⟨u, answer⟩, deactivated, h⟩ := (Option.any_eq_true _ _).1 h
  simp only [Bool.and_eq_true, decide_eq_true_eq] at h
  obtain ⟨rfl, h⟩ := h
  obtain ⟨⟨t, rs'⟩, login, stored⟩ := (Option.any_eq_true _ _).1 h
  have swept : Swept s.app s.app "@a:x" := by
    intro hash entry held _ _
    have there : s.app.device[("@a:x", "D")]? = some ⟨none, 0, some 7, none⟩ :=
      OrdMap.mem_toList.1 (by simp [devices])
    have listed := OrdMap.mem_toList.2 held
    rw [tokens, List.mem_singleton] at listed
    obtain ⟨rfl, -⟩ := Prod.mk.inj listed
    exact ⟨"D", _, OrdMap.mem_iff_getElem?.2 ⟨_, there⟩, there, List.mem_singleton_self _⟩
  have later : Batch.Runs (applyEntry (UserApp SerdeJson.sample))
      (EntryKeepsClosed SerdeJson.sample "@a:x") u t :=
    .single .refl (toOption_eq_some.1 login) trivial
  exact ⟨t, of_decide_eq_true stored,
    (deactivation_absorbing swept (toOption_eq_some.1 deactivated) .refl later).1⟩

/-- A password change after the deactivation gives the account a password again. -/
theorem password_after_deactivation : ∃ s t : Shard.State (UserApp SerdeJson.sample),
    Batch.Runs (applyEntry (UserApp SerdeJson.sample)) (fun _ _ _ => True) (.fresh .empty) s ∧
    s.app.account["@a:x"]? = some (.current ⟨none, 0, .deactivated, false, false⟩) ∧
    Batch.Runs (applyEntry (UserApp SerdeJson.sample)) (fun _ _ _ => True) s t ∧
    t.app.account["@a:x"]? = some (.current ⟨some "hash", 0, .deactivated, false, false⟩) := by
  have h : (Shard.apply (UserApp SerdeJson.sample) (.fresh .empty)
      [sampleRegister, sampleDeactivation]).toOption.any (fun x =>
        decide (x.1.app.account["@a:x"]? = some (.current ⟨none, 0, .deactivated, false, false⟩)) &&
        (Shard.apply (UserApp SerdeJson.sample) x.1 [samplePassword]).toOption.any fun y =>
          decide (y.1.app.account["@a:x"]? =
            some (.current ⟨some "hash", 0, .deactivated, false, false⟩))) = true := by
    decide +kernel
  obtain ⟨⟨s, rs⟩, closed, h⟩ := (Option.any_eq_true _ _).1 h
  simp only [Bool.and_eq_true, decide_eq_true_eq] at h
  obtain ⟨deactivated, h⟩ := h
  obtain ⟨⟨t, rs'⟩, changed, password⟩ := (Option.any_eq_true _ _).1 h
  exact ⟨s, t, .batch .refl (toOption_eq_some.1 closed) fun _ _ _ => trivial, deactivated,
    .single .refl (toOption_eq_some.1 changed) trivial, of_decide_eq_true password⟩

end Run

end Saltator.User
