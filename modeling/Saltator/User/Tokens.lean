import Saltator.Shard.Apps
import Saltator.User.Scans

/-!
# The account state on the token rows

A token row mirrors the state of its owner's account, so that authenticating a request is one read.
Commands that open sessions stamp it, `setLocked` rewrites it through the device rows, and
deactivation deletes the rows. The last two scan the engine: a device that their own batch brought in
is passed over.
-/

namespace Saltator.User

open Machine
open Store
open Saltator.Outcome

/-! ## The invariant -/

structure Owned (s : Store) : Prop where
  account : ∀ (userId : UserId) (row : AccountRow), s.account[userId]? = some row → ∃ a, row = .current a
  token : ∀ (h : Hash) (row : TokenRow), s.token[h]? = some row →
    ∃ (entry : TokenEntry) (account : Account) (device : Device), row = .current entry ∧
    s.account[entry.userId]? = some (.current account) ∧
    s.device[(entry.userId, entry.deviceId)]? = some device ∧ h ∈ device.hashes

structure Mirrored (s : Store) : Prop extends Owned s where
  state : ∀ (h : Hash) (entry : TokenEntry) (account : Account),
    s.token[h]? = some (.current entry) → s.account[entry.userId]? = some (.current account) → entry.state = account.state

section Invariant

variable {e s t : Store} {userId : UserId} {deviceId : DeviceId} {account : Account}
  {keep : Option DeviceId} {k : Hash} {entry : TokenEntry}

theorem Owned.owner (h : Owned s) (found : s.token[k]? = some (.current entry)) :
    ∃ (account : Account) (device : Device), s.account[entry.userId]? = some (.current account) ∧
      s.device[(entry.userId, entry.deviceId)]? = some device ∧ k ∈ device.hashes := by
  obtain ⟨entry', account, device, same, rest⟩ := h.token k _ found
  obtain rfl := TokenRow.current.inj same
  exact ⟨account, device, rest⟩

/-- `t` is `s` without some of its token rows. -/
structure Shrunk (s t : Store) : Prop where
  owned : Owned t
  account : t.account = s.account
  token : ∀ (k : Hash) (row : TokenRow), t.token[k]? = some row → s.token[k]? = some row

theorem Owned.shrunk (h : Owned s) (account : t.account = s.account)
    (token : ∀ (k : Hash) (row : TokenRow), t.token[k]? = some row → s.token[k]? = some row)
    (device : ∀ (k : Hash) (entry : TokenEntry), t.token[k]? = some (.current entry) →
      t.device[(entry.userId, entry.deviceId)]? = s.device[(entry.userId, entry.deviceId)]?) :
    Shrunk s t where
  account := account
  token := token
  owned :=
    { account := fun userId row found => h.account userId row (account ▸ found)
      token := fun k row found => by
        obtain ⟨entry, account', device', rfl, owner, named, mem⟩ := h.token k row (token k row found)
        exact ⟨entry, account', device', rfl, account ▸ owner, (device k entry found).trans named, mem⟩ }

theorem Mirrored.shrunk (h : Mirrored s) (shrunk : Shrunk s t) : Mirrored t where
  toOwned := shrunk.owned
  state k entry a found owner := h.state k entry a (shrunk.token k _ found) (shrunk.account ▸ owner)

theorem Mirrored.frame (h : Mirrored s) (account : t.account = s.account) (token : t.token = s.token)
    (device : t.device = s.device) : Mirrored t :=
  h.shrunk (h.toOwned.shrunk account (fun _ _ found => token ▸ found) fun _ _ _ => by rw [device])

theorem Mirrored.empty : Mirrored Store.empty where
  account userId row found := by simp [Store.empty] at found
  token h row found := by simp [Store.empty] at found
  state h entry account found := by simp [Store.empty] at found

theorem Owned.putAccount (h : Owned s) (userId : UserId) (account : Account) :
    Owned (s.putAccount userId account) where
  account u row found := by
    rw [Store.putAccount, OrdMap.getElem?_insert'] at found
    split at found
    · exact ⟨account, (Option.some.inj found).symm⟩
    · exact h.account u row found
  token k row found := by
    obtain ⟨entry, a, device, rfl, owner, named, mem⟩ := h.token k row found
    by_cases own : entry.userId = userId
    · refine ⟨entry, account, device, rfl, ?_, named, mem⟩
      rw [Store.putAccount, OrdMap.getElem?_insert', if_pos own]
    · refine ⟨entry, a, device, rfl, ?_, named, mem⟩
      rw [Store.putAccount, OrdMap.getElem?_insert', if_neg own, owner]

theorem Owned.mirrored_putAccount (h : Owned s)
    (own : ∀ (k : Hash) (entry : TokenEntry), s.token[k]? = some (.current entry) → entry.userId = userId →
      entry.state = account.state)
    (others : ∀ (k : Hash) (entry : TokenEntry) (a : Account), s.token[k]? = some (.current entry) → entry.userId ≠ userId →
      s.account[entry.userId]? = some (.current a) → entry.state = a.state) :
    Mirrored (s.putAccount userId account) where
  toOwned := h.putAccount userId account
  state k entry a found owner := by
    rw [Store.putAccount, OrdMap.getElem?_insert'] at owner
    split at owner
    · rename_i same
      obtain ⟨rfl⟩ := owner
      exact own k entry found same
    · rename_i other
      exact others k entry a found other owner

theorem Mirrored.putAccount (h : Mirrored s) {before : Account} (account : Account)
    (found : s.account[userId]? = some (.current before)) (same : account.state = before.state) :
    Mirrored (s.putAccount userId account) := by
  refine h.toOwned.mirrored_putAccount (fun k entry stored own => ?_) fun k entry a stored _ owner =>
    h.state k entry a stored owner
  rw [same]
  exact h.state k entry before stored (own ▸ found)

theorem dropTokens_eq_some {hashes : List Hash} {row : TokenRow}
    (h : (s.dropTokens hashes).token[k]? = some row) : k ∉ hashes ∧ s.token[k]? = some row := by
  have erased := OrdMap.foldl_erase (fun h : Hash => h) hashes s.token k
  rw [List.map_id'] at erased
  rw [dropTokens, erased] at h
  split at h
  · simp at h
  · rename_i kept
    exact ⟨kept, h⟩

theorem Owned.deleteDevice (h : Owned s) (e : Store) (userId : UserId) (deviceId : DeviceId) :
    Shrunk s (deleteDevice e s userId deviceId).1 := by
  unfold Machine.deleteDevice
  split
  · exact h.shrunk rfl (fun _ _ found => found) fun _ _ _ => rfl
  · rename_i device there
    refine h.shrunk rfl (fun k row found => (dropTokens_eq_some found).2) fun k entry found => ?_
    obtain ⟨kept, stored⟩ := dropTokens_eq_some found
    have other : (entry.userId, entry.deviceId) ≠ (userId, deviceId) := by
      intro same
      obtain ⟨_, named, -, hdevice, mem⟩ := h.owner stored
      rw [same, there] at hdevice
      exact kept (Option.some.inj hdevice ▸ mem)
    exact OrdMap.getElem?_erase'.trans (if_neg other)

theorem Shrunk.trans {u : Store} (h : Shrunk s t) (h' : Shrunk t u) : Shrunk s u where
  owned := h'.owned
  account := h'.account.trans h.account
  token k row found := h.token k row (h'.token k row found)

theorem Owned.logoutDevices (h : Owned s) (e : Store) (userId : UserId) (keep : Option DeviceId) :
    Shrunk s (logoutDevices e s userId keep) := by
  have deleted : Shrunk s (deleteDevicesExcept e s userId keep).1 := by
    refine List.foldlRecOn (motive := fun r : Store × Bool => Shrunk s r.1) (e.devicesOf userId) _
      (h.shrunk rfl (fun _ _ found => found) fun _ _ _ => rfl) fun r ih row _ => ?_
    dsimp only
    split
    · exact ih
    · exact ih.trans (ih.owned.deleteDevice e userId row.1.2)
  unfold Machine.logoutDevices
  dsimp only
  split
  · exact deleted.trans (deleted.owned.shrunk rfl (fun _ _ found => found) fun _ _ _ => rfl)
  · exact deleted

theorem Deleted.rounds {x : Store × Bool} (h : Deleted x.1 s)
    (l : List (UserId × DeviceId)) : Deleted (l.foldl (deleteRound e userId keep) x).1 s := by
  induction l generalizing x with
  | nil => exact h
  | cons k l ih => exact ih (h.round k)

theorem logoutDevices_gone {k : UserId × DeviceId} (found : k ∈ e.device)
    (own : k.1 = userId) (other : keep ≠ some k.2) :
    k ∉ (logoutDevices e s userId keep).device := by
  have rounds : ∀ (l : List (UserId × DeviceId)) (x : Store × Bool), k ∈ l →
      k ∉ (l.foldl (deleteRound e userId keep) x).1.device := by
    intro l
    induction l with
    | nil => simp
    | cons k' l ih =>
      intro x mem
      by_cases rest : k ∈ l
      · exact ih _ rest
      · obtain rfl := (List.mem_cons.1 mem).resolve_right rest
        have gone : k ∉ (deleteRound e userId keep x k).1.device := by
          unfold deleteRound Machine.deleteDevice
          rw [if_neg other, ← own]
          cases there : x.1.device[(k.1, k.2)]? with
          | none => simpa using there
          | some device => simp
        have below : Deleted (deleteRound e userId keep x k).1 (deleteRound e userId keep x k).1 :=
          ⟨fun _ hk => hk, fun _ hk => hk, fun _ hk => hk, fun _ hk => hk, fun _ hk => hk⟩
        exact fun there => gone ((below.rounds l).device k there)
  have listed : k ∈ (e.devicesOf userId).map Prod.fst :=
    OrdMap.mem_rows_keys.2 ⟨found, decide_eq_true own⟩
  have deleted := rounds _ (s, false) listed
  rw [← deleteDevicesExcept_eq] at deleted
  unfold Machine.logoutDevices
  dsimp only
  split <;> exact deleted

theorem getAccount_eq_some :
    s.getAccount userId = .ok (some account) ↔ s.account[userId]? = some (.current account) := by
  rw [getAccount]
  cases s.account[userId]? with
  | none => simp [pure, Except.pure]
  | some row =>
    rw [Option.mapM_some]
    cases row with
    | v2 old => simp [decodeAccount]
    | current a => simp [decodeAccount]

theorem writeSession_token {c : SessionCmd} (written : writeSession s c = .ok t)
    {row : TokenRow} (stored : t.token[k]? = some row) :
    (k ∈ c.hashes ∧ ∃ kind expiresTs state, s.accountState c.userId = .ok state ∧
      row = .current (sessionToken c kind expiresTs state)) ∨
      (k ∉ (s.device[(c.userId, c.deviceId)]?.map Device.hashes).getD [] ∧ s.token[k]? = some row) := by
  obtain ⟨state, stamp, rfl⟩ := writeSession_eq_ok written
  have access : (if k = c.tokenHash then
        some (TokenRow.current (sessionToken c .access c.expiresTs state))
      else (s.dropTokens ((s.device[(c.userId, c.deviceId)]?.map Device.hashes).getD [])).token[k]?) =
        some row →
      (k ∈ c.hashes ∧ ∃ kind expiresTs state, s.accountState c.userId = .ok state ∧
        row = .current (sessionToken c kind expiresTs state)) ∨
      (k ∉ (s.device[(c.userId, c.deviceId)]?.map Device.hashes).getD [] ∧ s.token[k]? = some row) := by
    intro stored
    split at stored
    · rename_i own
      exact .inl ⟨own ▸ List.mem_cons_self, .access, c.expiresTs, state, stamp,
        (Option.some.inj stored).symm⟩
    · exact .inr (dropTokens_eq_some stored)
  dsimp only at stored
  split at stored
  · rename_i hash refresh
    rw [putToken, OrdMap.getElem?_insert', putToken, OrdMap.getElem?_insert'] at stored
    split at stored
    · rename_i own
      refine .inl ⟨?_, .refresh, none, state, stamp, (Option.some.inj stored).symm⟩
      simp [SessionCmd.hashes, refresh, own]
    · exact access stored
  · rw [putToken, OrdMap.getElem?_insert'] at stored
    exact access stored

theorem accountState_eq {state : AccountState}
    (found : s.account[userId]? = some (.current account)) (h : s.accountState userId = .ok state) :
    state = account.state := by
  rw [accountState, getAccount_eq_some.2 found] at h
  exact (Except.ok.inj h).symm

theorem Mirrored.writeSession (h : Mirrored s) {c : SessionCmd}
    (owner : (s.account[c.userId]?).isSome) (written : writeSession s c = .ok t) : Mirrored t := by
  obtain ⟨row, found⟩ := Option.isSome_iff_exists.1 owner
  obtain ⟨account, rfl⟩ := h.account _ row found
  have accounts : t.account = s.account := by
    have shape := congrArg Store.account (writeSession_frame written)
    exact shape
  have devices := writeSession_device written
  have other : ∀ (k : Hash) (entry : TokenEntry), s.token[k]? = some (.current entry) →
      k ∉ (s.device[(c.userId, c.deviceId)]?.map Device.hashes).getD [] →
      (entry.userId, entry.deviceId) ≠ (c.userId, c.deviceId) := by
    intro k entry stored gone same
    obtain ⟨_, device, -, named, mem⟩ := h.owner stored
    rw [same] at named
    exact gone (by simpa [named] using mem)
  constructor
  · constructor
    · exact fun userId row stored => h.account userId row (accounts ▸ stored)
    · intro k row stored
      obtain ⟨named, kind, expiresTs, state, -, rfl⟩ | ⟨gone, before⟩ :=
        writeSession_token written stored
      · refine ⟨_, account, sessionDevice s.device[(c.userId, c.deviceId)]? c, rfl, ?_, ?_, named⟩
        · rw [accounts]
          exact found
        · rw [devices]
          exact OrdMap.getElem?_insert'.trans (if_pos rfl)
      · obtain ⟨entry, a, device, rfl, owner, named, mem⟩ := h.token k row before
        refine ⟨entry, a, device, rfl, accounts ▸ owner, ?_, mem⟩
        rw [devices, OrdMap.getElem?_insert', if_neg (other k entry before gone), named]
  · intro k entry a stored owner
    rw [accounts] at owner
    obtain ⟨-, kind, expiresTs, state, stamp, same⟩ | ⟨-, before⟩ := writeSession_token written stored
    · obtain rfl := TokenRow.current.inj same
      have same : some (AccountRow.current account) = some (.current a) := found.symm.trans owner
      rw [← AccountRow.current.inj (Option.some.inj same)]
      exact accountState_eq found stamp
    · exact h.state k entry a before owner

theorem getToken_eq_some {hash : Hash}
    (h : s.getToken hash = .ok (some entry)) : s.token[hash]? = some (.current entry) := by
  rw [getToken] at h
  cases found : s.token[hash]? with
  | none => simp [found, Option.mapM_none, pure, Except.pure] at h
  | some row =>
    rw [found, Option.mapM_some] at h
    cases row with
    | v4 old => simp [decodeToken] at h
    | current a =>
      obtain rfl := Option.some.inj (Except.ok.inj h)
      rfl

end Invariant

/-! ## What keeps the mirror -/

def lockState (locked : Bool) : AccountState := if locked then .locked else .active

section Conditions

variable (e s : Store)

def hashesOf (userId : UserId) : List Hash := (e.devicesOf userId).flatMap fun r => r.2.hashes

def ForAccount (userId : UserId) (session : Option SessionCmd) : Prop :=
  ∀ c, session = some c → c.userId = userId ∨ (s.account[c.userId]?).isSome

/-- The condition on a command of a batch that began in `e`: what a lock or a deactivation has to
reach is in reach of its scan. -/
def KeepsMirror : UserCommand → Prop
  | .register userId _ _ session => ForAccount s userId session
  | .registerWithToken userId _ _ session _ => ForAccount s userId session
  | .setLocked userId locked =>
    ∀ account, s.account[userId]? = some (.current account) → account.state ≠ .deactivated →
      ∀ (h : Hash) (entry : TokenEntry), s.token[h]? = some (.current entry) →
        (entry.userId = userId → account.state ≠ lockState locked → h ∈ hashesOf e userId) ∧
        (h ∈ hashesOf e userId → entry.userId = userId)
  | .deactivate userId =>
    ∀ account, s.account[userId]? = some (.current account) → account.state ≠ .deactivated →
      ∀ (h : Hash) (entry : TokenEntry), s.token[h]? = some (.current entry) →
        entry.userId = userId → (userId, entry.deviceId) ∈ e.device
  | _ => True

/-- The condition on a migration step: the account rewrite finds no locked account, and the token
rewrite no row that its batch has dropped or handed on. -/
def StepKeepsMirror : Nat → Prop
  | 3 => ∀ (h : Hash) (entry : TokenEntry) (account : Account),
      s.token[h]? = some (.current entry) → e.account[entry.userId]? = some (.current account) →
      account.state = .active ∧ entry.state = .active
  | 5 => ∀ (h : Hash) (row : TokenRow), e.token[h]? = some row →
      ∃ row', s.token[h]? = some row' ∧ decodeTokenV4 row' = decodeTokenV4 row
  | _ => True

end Conditions

section Commands

variable {serde : SerdeJson} {e s t : Store} {r : UserResponse} {userId : UserId}

theorem Mirrored.register (h : Mirrored s) {passwordHash : Option String} {ts : Nat}
    {session : Option SessionCmd} {registrationToken : Option String}
    (safe : ForAccount s userId session)
    (applied : applyRegister s userId passwordHash ts session registrationToken = .ok (t, r)) :
    Mirrored t := by
  obtain ⟨rfl, -⟩ | ⟨u, -, absent, consumed, -, opened⟩ := applyRegister_eq_ok applied
  · exact h
  have reserved := consumeRegToken_frame consumed
  have unowned : ∀ (k : Hash) (entry : TokenEntry), u.token[k]? = some (.current entry) →
      entry.userId ≠ userId := by
    intro k entry stored same
    have before : s.token[k]? = some (.current entry) := by
      rw [reserved] at stored
      exact stored
    obtain ⟨account, _, owner, -⟩ := h.owner before
    rw [same, absent] at owner
    simp at owner
  have kept : Mirrored u :=
    h.frame (by rw [reserved]) (by rw [reserved]) (by rw [reserved])
  have registered : Mirrored (u.putAccount userId
      { passwordHash, createdTs := ts, state := .active, admin := false, erased := false }) :=
    kept.toOwned.mirrored_putAccount (fun k entry stored own => (unowned k entry stored own).elim)
      fun k entry a stored _ owner => kept.state k entry a stored owner
  have named := registered.frame (t := enrol u userId passwordHash ts) rfl rfl rfl
  cases session with
  | none =>
    obtain rfl : t = enrol u userId passwordHash ts := opened
    exact named
  | some session =>
    refine named.writeSession ?_ opened
    rw [enrol, Store.putAccount, OrdMap.getElem?_insert']
    split
    · rfl
    · rename_i other
      rw [reserved]
      exact (safe session rfl).resolve_left other

theorem Mirrored.refresh (h : Mirrored s) {oldRefreshHash : Hash} {c : SessionCmd}
    (applied : refreshSession s oldRefreshHash c = .ok (t, r)) : Mirrored t := by
  obtain ⟨rfl, -⟩ | ⟨entry, known, valid, written, -⟩ := refreshSession_eq_ok applied
  · exact h
  obtain ⟨-, same, -⟩ := of_decide_eq_true valid
  obtain ⟨account, _, owner, -⟩ := h.owner (getToken_eq_some known)
  refine h.writeSession ?_ written
  rw [← same, owner]
  rfl

theorem Mirrored.restamped (h : Mirrored s) {before : Account} {state : AccountState} {hashes : List Hash}
    (found : s.account[userId]? = some (.current before))
    (reach : ∀ (k : Hash) (entry : TokenEntry), s.token[k]? = some (.current entry) →
      (entry.userId = userId → before.state ≠ state → k ∈ hashes) ∧
      (k ∈ hashes → entry.userId = userId)) :
    Mirrored { s.putAccount userId { before with state := state } with
      token := restampRows state s.token hashes } := by
  -- a row of the new store is a row of the old one, with the state rewritten if it is listed
  have rows : ∀ (k : Hash) (row : TokenRow), (restampRows state s.token hashes)[k]? = some row →
      ∃ entry : TokenEntry, s.token[k]? = some (.current entry) ∧
        row = .current (if k ∈ hashes then { entry with state := state } else entry) := by
    intro k row stored
    rw [getElem?_restampRows] at stored
    split at stored
    · rename_i listed
      obtain ⟨old, held, rfl⟩ := Option.map_eq_some_iff.1 stored
      obtain ⟨entry, _, _, rfl, -⟩ := h.token k old held
      exact ⟨entry, held, by rw [if_pos listed]; rfl⟩
    · rename_i unlisted
      obtain ⟨entry, _, _, rfl, -⟩ := h.token k row stored
      exact ⟨entry, stored, by rw [if_neg unlisted]⟩
  have owned := h.toOwned.putAccount userId { before with state := state }
  constructor
  · refine ⟨owned.account, fun k row stored => ?_⟩
    obtain ⟨entry, held, rfl⟩ := rows k row stored
    obtain ⟨a, device, owner, named, mem⟩ := owned.owner held
    split
    · exact ⟨_, a, device, rfl, owner, named, mem⟩
    · exact ⟨_, a, device, rfl, owner, named, mem⟩
  · intro k entry a stored owner
    obtain ⟨entry', held, same⟩ := rows k _ stored
    obtain rfl := TokenRow.current.inj same
    have owner : (s.account.insert userId (.current { before with state := state }))[entry'.userId]? =
        some (.current a) := by
      split at owner <;> exact owner
    rw [OrdMap.getElem?_insert'] at owner
    split at owner
    · rename_i own
      obtain ⟨rfl⟩ := owner
      split
      · rfl
      · rename_i unlisted
        by_cases already : before.state = state
        · exact (h.state k entry' before held (own ▸ found)).trans already
        · exact (unlisted ((reach k entry' held).1 own already)).elim
    · rename_i other
      split
      · rename_i listed
        exact (other ((reach k entry' held).2 listed)).elim
      · exact h.state k entry' a held owner

theorem Mirrored.setLocked (h : Mirrored s) {locked : Bool}
    (safe : KeepsMirror e s (.setLocked userId locked))
    (applied : setLocked e s userId locked = .ok (t, r)) : Mirrored t := by
  obtain ⟨rfl, -⟩ | ⟨account, known, applied⟩ := withAccount_eq_ok applied
  · exact h
  split at applied
  · obtain rfl := eq_of_ok applied
    exact h
  · rename_i live
    obtain ⟨v, stamped, applied⟩ := bind_eq_ok.1 applied
    obtain ⟨rfl, -⟩ := ok_pair applied
    have stamped : (hashesOf e userId).foldlM (restampToken (lockState locked))
        (s.putAccount userId { account with state := lockState locked }) = .ok v := stamped
    rw [foldlM_restampToken] at stamped
    split at stamped
    · simp at stamped
    obtain rfl := Except.ok.inj stamped
    have before := getAccount_eq_some.1 known
    exact h.restamped before (safe account before live)

theorem Mirrored.deactivate (h : Mirrored s) (safe : KeepsMirror e s (.deactivate userId))
    (applied : applyDeactivate e s userId = .ok (t, r)) : Mirrored t := by
  obtain ⟨rfl, -⟩ | ⟨account, known, applied⟩ := withAccount_eq_ok applied
  · exact h
  obtain rfl := eq_of_ok applied
  have before := getAccount_eq_some.1 known
  have shrunk := (h.toOwned.putAccount userId
    { account with state := .deactivated, passwordHash := none }).logoutDevices e userId none
  refine ⟨shrunk.owned, fun k entry a stored owner => ?_⟩
  have held : s.token[k]? = some (.current entry) := shrunk.token k _ stored
  rw [shrunk.account, Store.putAccount, OrdMap.getElem?_insert'] at owner
  split at owner
  · rename_i own
    obtain ⟨rfl⟩ := owner
    by_cases already : account.state = .deactivated
    · exact (h.state k entry account held (own ▸ before)).trans already
    · -- the scan found the token's device, which is gone with its tokens
      have found := safe account before already k entry held own
      have spare : (none : Option DeviceId) ≠ some entry.deviceId := nofun
      have gone := logoutDevices_gone (s := s.putAccount userId
        { account with state := .deactivated, passwordHash := none }) found rfl spare
      obtain ⟨_, device, -, named, -⟩ := shrunk.owned.owner stored
      rw [own] at named
      exact (gone (OrdMap.mem_iff_getElem?.2 ⟨device, named⟩)).elim
  · exact h.state k entry a held owner

theorem Mirrored.putDevice (h : Mirrored s) {key : UserId × DeviceId} {device : Device}
    (same : ∀ before, s.device[key]? = some before → device.hashes = before.hashes) :
    Mirrored { s with device := s.device.insert key device } := by
  refine ⟨⟨h.account, fun k row stored => ?_⟩, h.state⟩
  obtain ⟨entry, account, named, rfl, owner, found, mem⟩ := h.token k row stored
  by_cases own : (entry.userId, entry.deviceId) = key
  · refine ⟨entry, account, device, rfl, owner, OrdMap.getElem?_insert'.trans (if_pos own), ?_⟩
    rw [same named (own ▸ found)]
    exact mem
  · exact ⟨entry, account, named, rfl, owner,
      (OrdMap.getElem?_insert'.trans (if_neg own)).trans found, mem⟩

theorem Mirrored.apply (h : Mirrored s) {cmd : UserCommand} (safe : KeepsMirror e s cmd)
    (applied : apply serde e s cmd = .ok (t, r)) : Mirrored t := by
  have shape := apply_frame applied
  cases cmd with
  | register userId passwordHash ts session =>
    rw [Machine.apply] at applied
    exact h.register safe applied
  | registerWithToken userId passwordHash ts session registrationToken =>
    rw [Machine.apply] at applied
    exact h.register safe applied
  | createSession c =>
    obtain ⟨rfl, -⟩ | ⟨owner, written, -⟩ := createSession_eq_ok applied
    · exact h
    · exact h.writeSession owner written
  | refreshSession oldRefreshHash c => exact h.refresh applied
  | deleteDevice userId deviceId =>
    obtain rfl := eq_of_ok applied
    have deleted := h.shrunk (h.toOwned.deleteDevice e userId deviceId)
    unfold deleteOneDevice
    dsimp only
    split
    · exact deleted.frame rfl rfl rfl
    · exact deleted
  | deleteAllDevices userId =>
    obtain rfl := eq_of_ok applied
    exact h.shrunk (h.toOwned.logoutDevices e userId none)
  | changePassword | adminSetPassword =>
    obtain rfl | ⟨account, hash, known, set⟩ := setsPassword_cases applied rfl
    · exact h
    have changed := h.putAccount { account with passwordHash := hash } (getAccount_eq_some.1 known) rfl
    obtain rfl | ⟨keep, rfl⟩ := set
    · exact changed
    · exact changed.shrunk (changed.toOwned.logoutDevices e _ keep)
  | deactivate userId => exact h.deactivate safe applied
  | setLocked userId locked => exact h.setLocked safe applied
  | setAdmin userId admin =>
    obtain ⟨rfl, -⟩ | ⟨account, known, applied⟩ := withAccount_eq_ok applied
    · exact h
    obtain rfl := eq_of_ok applied
    exact h.putAccount _ (getAccount_eq_some.1 known) rfl
  | setErased userId =>
    obtain ⟨rfl, -⟩ | ⟨account, known, applied⟩ := withAccount_eq_ok applied
    · exact h
    split at applied
    · obtain rfl := eq_of_ok applied
      exact h
    obtain rfl := eq_of_ok applied
    have changed := h.putAccount { account with erased := true } (getAccount_eq_some.1 known) rfl
    exact changed.frame rfl rfl rfl
  | upsertDevice userId deviceId displayName ts =>
    obtain rfl := eq_of_ok applied
    unfold upsertDevice
    dsimp only
    refine (h.putDevice fun before found => ?_).frame rfl rfl rfl
    rw [found]
    rfl
  | setDeviceName userId deviceId displayName =>
    obtain rfl := eq_of_ok applied
    unfold setDeviceName
    split
    · exact h
    · rename_i device found
      refine (h.putDevice fun before found' => ?_).frame rfl rfl rfl
      obtain rfl := some_unique found found'
      rfl
  | _ => exact h.frame (by rw [shape]; rfl) (by rw [shape]; rfl) (by rw [shape]; rfl)

theorem Mirrored.putToken (h : Mirrored s) {k : Hash} {before entry : TokenEntry}
    (held : s.token[k]? = some (.current before)) (user : entry.userId = before.userId)
    (device : entry.deviceId = before.deviceId)
    (state : ∀ account, s.account[before.userId]? = some (.current account) →
      entry.state = account.state) : Mirrored (s.putToken k entry) := by
  constructor
  · refine ⟨h.account, fun k' row stored => ?_⟩
    rw [Store.putToken, OrdMap.getElem?_insert'] at stored
    split at stored
    · rename_i same
      obtain rfl := Option.some.inj stored
      obtain ⟨account, named, owner, found, mem⟩ := h.owner held
      exact ⟨entry, account, named, rfl, user ▸ owner, user ▸ device ▸ found, same ▸ mem⟩
    · exact h.token k' row stored
  · intro k' entry' account stored owner
    rw [Store.putToken, OrdMap.getElem?_insert'] at stored
    split at stored
    · obtain rfl := TokenRow.current.inj (Option.some.inj stored)
      exact state account (user ▸ owner)
    · exact h.state k' entry' account stored owner

theorem Mirrored.migrateAccounts (he : Mirrored e) (h : Mirrored s) (safe : StepKeepsMirror e s 3)
    (applied : migrate e s 3 = .ok t) : Mirrored t := by
  refine ((foldlM_spec (I := fun _ u => Mirrored u ∧ u.token = s.token) (F := fun _ => True)
    (fun _ r u u' mem hu step => ?_) (fun _ _ _ _ _ _ _ => trivial) ⟨h, rfl⟩).1 t applied).1
  obtain ⟨mirrored, tokens⟩ := hu
  obtain ⟨userId, row⟩ := r
  have there := OrdMap.mem_toList.1 mem
  obtain ⟨account, rfl⟩ := he.account userId row there
  obtain ⟨old, decoded, step⟩ := bind_eq_ok.1 step
  obtain rfl := pure_eq_ok.1 step
  refine ⟨mirrored.toOwned.mirrored_putAccount (fun k entry stored own => ?_)
    fun k entry a stored _ owner => mirrored.state k entry a stored owner, tokens⟩
  obtain ⟨active, stamped⟩ := safe k entry account (tokens ▸ stored) (own ▸ there)
  rw [decodeAccountV2, active] at decoded
  obtain rfl := Except.ok.inj decoded
  exact stamped

theorem Mirrored.migrateTokens (h : Mirrored s) (safe : StepKeepsMirror e s 5)
    (applied : migrate e s 5 = .ok t) : Mirrored t := by
  refine ((foldlM_spec (I := fun _ u => Mirrored u ∧ u.account = s.account ∧
      ∀ (k : Hash) (row : TokenRow), s.token[k]? = some row →
        ∃ row', u.token[k]? = some row' ∧ decodeTokenV4 row' = decodeTokenV4 row)
    (F := fun _ => True) (fun _ r u u' mem hu step => ?_) (fun _ _ _ _ _ _ _ => trivial)
    ⟨h, rfl, fun _ row found => ⟨row, found, rfl⟩⟩).1 t applied).1
  obtain ⟨mirrored, accounts, tokens⟩ := hu
  obtain ⟨k, row⟩ := r
  obtain ⟨row', held, same⟩ := safe k row (OrdMap.mem_toList.1 mem)
  obtain ⟨row'', now, same'⟩ := tokens k row' held
  obtain ⟨entry, account, _, rfl, owner, -⟩ := mirrored.token k row'' now
  have old : decodeTokenV4 row = decodeTokenV4 (.current entry) := (same'.trans same).symm
  dsimp only at step
  rw [old, bind_eq_ok] at step
  obtain ⟨state, stamp, step⟩ := step
  obtain rfl := pure_eq_ok.1 step
  have stamped : state = account.state := accountState_eq owner stamp
  refine ⟨mirrored.putToken now rfl rfl fun a found => ?_, accounts, fun k' row found => ?_⟩
  · have same : some (AccountRow.current account) = some (.current a) := owner.symm.trans found
    obtain rfl := AccountRow.current.inj (Option.some.inj same)
    exact stamped
  · obtain ⟨row', held', same'⟩ := tokens k' row found
    by_cases rewritten : k' = k
    · obtain rfl := rewritten
      refine ⟨_, OrdMap.getElem?_insert'.trans (if_pos rfl), ?_⟩
      rw [← same', some_unique held' now]
      rfl
    · exact ⟨row', (OrdMap.getElem?_insert'.trans (if_neg rewritten)).trans held', same'⟩

theorem Mirrored.migrate (he : Mirrored e) (h : Mirrored s) {target : Nat}
    (safe : StepKeepsMirror e s target) (applied : migrate e s target = .ok t) : Mirrored t := by
  match target with
  | 2 =>
    obtain rfl := Except.ok.inj applied
    exact h.frame rfl rfl rfl
  | 3 => exact he.migrateAccounts h safe applied
  | 4 =>
    obtain rfl := Except.ok.inj applied
    exact h
  | 5 => exact h.migrateTokens safe applied
  | 6 =>
    obtain rfl := Except.ok.inj applied
    exact h.frame rfl rfl rfl
  | 0 | 1 | n + 7 => simp [Machine.migrate] at applied

end Commands

/-! ## Runs -/

section Run

open Shard (applyEntry)

variable {serde : SerdeJson}

def EntryKeepsMirror (serde : SerdeJson) (e s : Shard.State (UserApp serde))
    (entry : Shard.Entry UserCommand) : Prop :=
  match entry.payload with
  | .normal cmd => KeepsMirror e.app s.app cmd
  | .runtime (.migrate target) =>
    target = s.schemaVersion + 1 → target ≤ (UserApp serde).schemaVersion →
      StepKeepsMirror e.app s.app target
  | _ => True

theorem Mirrored.applyEntry {e s t : Shard.State (UserApp serde)} {entry : Shard.Entry UserCommand}
    {r : Shard.EntryResponse UserResponse} (he : Mirrored e.app) (h : Mirrored s.app)
    (safe : EntryKeepsMirror serde e s entry)
    (applied : applyEntry (UserApp serde) e s entry = .ok (t, r)) : Mirrored t.app := by
  unfold EntryKeepsMirror at safe
  cases Shard.applyEntry_reaches applied with
  | idle same => exact same ▸ h
  | command payload step =>
    rw [payload] at safe
    exact h.apply safe step
  | migration payload next known migrated =>
    rw [payload] at safe
    exact he.migrate h (safe next known) migrated

theorem run_mirrored {s : Shard.State (UserApp serde)}
    (run : Batch.Runs (applyEntry (UserApp serde)) (EntryKeepsMirror serde) (.fresh .empty) s) :
    Mirrored s.app :=
  (Batch.Runs.invariant
    (I := fun e s : Shard.State (UserApp serde) => Mirrored e.app ∧ Mirrored s.app)
    (fun _ _ h => ⟨h.2, h.2⟩) (fun _ _ _ _ _ h safe applied => ⟨h.1, h.1.applyEntry h.2 safe applied⟩)
    run ⟨Mirrored.empty, Mirrored.empty⟩).2

/-- **Tokens mirror their accounts.** In a run whose entries all meet the condition, every token row
carries the state of its owner's account, and no token of an account that is not active
authenticates. -/
theorem run_tokens_mirrored {s : Shard.State (UserApp serde)}
    (run : Batch.Runs (applyEntry (UserApp serde)) (EntryKeepsMirror serde) (.fresh .empty) s)
    {h : Hash} {row : TokenRow} (stored : s.app.token[h]? = some row) :
    ∃ (entry : TokenEntry) (account : Account), row = .current entry ∧
      s.app.account[entry.userId]? = some (.current account) ∧ entry.state = account.state ∧
      (account.state ≠ .active → entry.state.canAuthenticate = false) := by
  have mirrored := run_mirrored run
  obtain ⟨entry, account, _, rfl, owner, -⟩ := mirrored.token h row stored
  have state := mirrored.state h entry account stored owner
  refine ⟨entry, account, rfl, owner, state, fun inactive => ?_⟩
  rw [state]
  cases hstate : account.state with
  | active => exact (inactive hstate).elim
  | locked => rfl
  | deactivated => rfl

theorem Owned.keepsMirror_setLocked {s : Store} (h : Owned s) {userId : UserId} {locked : Bool}
    (own : ∀ (k : Hash) (entry : TokenEntry), s.token[k]? = some (.current entry) →
      entry.userId = userId) : KeepsMirror s s (.setLocked userId locked) := by
  intro account _ _ k entry held
  refine ⟨fun same _ => ?_, fun _ => own k entry held⟩
  obtain ⟨_, device, -, named, mem⟩ := h.owner held
  refine List.mem_flatMap.2 ⟨((entry.userId, entry.deviceId), device), ?_, mem⟩
  exact OrdMap.mem_rows.2 ⟨named, decide_eq_true same⟩

def sampleRegister : Shard.Entry UserCommand :=
  ⟨⟨1, 1, 1⟩, .normal (.register "@a:x" none 0 (some ⟨"@a:x", "D", none, 7, none, none, 0⟩))⟩

def sampleLock : Shard.Entry UserCommand := ⟨⟨1, 1, 2⟩, .normal (.setLocked "@a:x" true)⟩

def sampleToken (state : AccountState) : TokenRow := .current ⟨"@a:x", "D", .access, 0, none, state⟩

theorem run_tokens_mirrored_locked : ∃ s : Shard.State (UserApp SerdeJson.sample),
    Batch.Runs (applyEntry (UserApp SerdeJson.sample)) (EntryKeepsMirror SerdeJson.sample)
      (.fresh .empty) s ∧
    s.app.token[(7 : Hash)]? = some (sampleToken .locked) ∧
    ∃ (entry : TokenEntry) (account : Account), sampleToken .locked = .current entry ∧
      s.app.account[entry.userId]? = some (.current account) ∧ entry.state = account.state ∧
      (account.state ≠ .active → entry.state.canAuthenticate = false) := by
  have h : (Shard.apply (UserApp SerdeJson.sample) (.fresh .empty) [sampleRegister]).toOption.any
      (fun x => decide (x.1.app.token.toList = [((7 : Hash), sampleToken .active)]) &&
        (Shard.apply (UserApp SerdeJson.sample) x.1 [sampleLock]).toOption.any fun y =>
          decide (y.1.app.token[(7 : Hash)]? = some (sampleToken .locked))) = true := by
    decide +kernel
  obtain ⟨⟨s, rs⟩, registered, h⟩ := (Option.any_eq_true _ _).1 h
  rw [Bool.and_eq_true, decide_eq_true_eq] at h
  obtain ⟨tokens, h⟩ := h
  obtain ⟨⟨t, rs'⟩, locked, stored⟩ := (Option.any_eq_true _ _).1 h
  have first : Batch.Runs (applyEntry (UserApp SerdeJson.sample))
      (EntryKeepsMirror SerdeJson.sample) (.fresh .empty) s := by
    refine Batch.Runs.single .refl (toOption_eq_some.1 registered) fun c session => .inl ?_
    obtain rfl := Option.some.inj session
    rfl
  have own : ∀ (k : Hash) (entry : TokenEntry), s.app.token[k]? = some (.current entry) →
      entry.userId = "@a:x" := by
    intro k entry held
    have listed := OrdMap.mem_toList.2 held
    rw [tokens, List.mem_singleton] at listed
    obtain ⟨-, same⟩ := Prod.mk.inj listed
    obtain rfl := TokenRow.current.inj same
    rfl
  have run := first.single (toOption_eq_some.1 locked) ((run_mirrored first).keepsMirror_setLocked own)
  have stored := of_decide_eq_true stored
  exact ⟨t, run, stored, run_tokens_mirrored run stored⟩

/-- A lock in the batch that registered the account passes over the session's token. -/
theorem lock_in_batch_keeps_token : ∃ s : Shard.State (UserApp SerdeJson.sample),
    Batch.Runs (applyEntry (UserApp SerdeJson.sample)) (fun _ _ _ => True) (.fresh .empty) s ∧
    s.app.token[(7 : Hash)]? = some (sampleToken .active) ∧
    s.app.account["@a:x"]? = some (.current ⟨none, 0, .locked, false, false⟩) ∧
    AccountState.active.canAuthenticate = true := by
  have h : (Shard.apply (UserApp SerdeJson.sample) (.fresh .empty) [sampleRegister, sampleLock]
      ).toOption.any (fun x => decide (x.1.app.token[(7 : Hash)]? = some (sampleToken .active)) &&
        decide (x.1.app.account["@a:x"]? = some (.current ⟨none, 0, .locked, false, false⟩))) =
      true := by
    decide +kernel
  obtain ⟨⟨s, rs⟩, applied, h⟩ := (Option.any_eq_true _ _).1 h
  rw [Bool.and_eq_true, decide_eq_true_eq, decide_eq_true_eq] at h
  exact ⟨s, Batch.Runs.batch .refl (toOption_eq_some.1 applied) fun _ _ _ => trivial, h.1, h.2, rfl⟩

end Run

end Saltator.User
