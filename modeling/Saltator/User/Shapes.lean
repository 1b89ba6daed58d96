import Saltator.Shard.Apps
import Saltator.User.MachineSpec

/-!
# Rows of older shapes

Accounts changed their shape in schema 3 and tokens in schema 5. The migrations rewrite the rows, but
only once every voter runs the new code, and until then the new code applies commands to the old
rows. `apply_ok_iff` says which commands fail on them: a failing command is a storage fault, which
stops the replica.
-/

namespace Saltator.User

open Saltator.Outcome
open Machine

namespace Store

/-- The account row is of the shape before schema 3. -/
def oldAccount (s : Store) (userId : UserId) : Bool :=
  match s.account[userId]? with
  | some (.v2 _) => true
  | _ => false

/-- The token row is of the shape before schema 5. -/
def oldToken (s : Store) (hash : Hash) : Bool := oldRow s.token hash

end Store

def taken (s : Store) (userId : UserId) : Bool :=
  s.username.contains userId || (s.account[userId]?).isSome

/-- A registration that creates its account, and goes on to the session. -/
def admits (s : Store) (userId : UserId) (ts : Nat) (registrationToken : Option String) : Bool :=
  !taken s userId && (consumeRegToken s registrationToken ts).isSome

def Decodes (e s : Store) : UserCommand → Prop
  | .register userId _ ts session =>
    admits s userId ts none → ∀ c, session = some c → s.oldAccount c.userId = false
  | .registerWithToken userId _ ts session registrationToken =>
    admits s userId ts registrationToken → ∀ c, session = some c → s.oldAccount c.userId = false
  | .createSession c => s.oldAccount c.userId = false
  | .refreshSession oldRefreshHash c =>
    s.oldToken oldRefreshHash = false ∧
      ∀ entry, s.token[oldRefreshHash]? = some (.current entry) → validRefresh c entry →
        s.oldAccount c.userId = false
  | .setLocked userId _ =>
    s.oldAccount userId = false ∧
      ∀ account, s.account[userId]? = some (.current account) → account.state ≠ .deactivated →
        ∀ hash ∈ (e.devicesOf userId).flatMap fun r => r.2.hashes, s.oldToken hash = false
  | .consumeLoginToken tokenHash nowTs =>
    ∀ entry, s.loginToken[tokenHash]? = some entry → nowTs < entry.expiresTs →
      s.oldAccount entry.userId = false
  | .changePassword userId .. | .adminSetPassword userId .. | .deactivate userId
  | .setAdmin userId _ | .setErased userId | .linkExternalId userId ..
  | .createLoginToken _ userId .. => s.oldAccount userId = false
  | _ => True

/-! ## Decoding -/

section Decoding

variable {s : Store} {userId : UserId} {c : SessionCmd}

theorem bind_ok_iff {ε α β : Type} {x : Except ε α} {f : α → Except ε β} :
    (∃ b, (x >>= f) = .ok b) ↔ ∃ a, x = .ok a ∧ ∃ b, f a = .ok b := by
  simp only [bind_eq_ok]
  exact ⟨fun ⟨b, a, hx, hf⟩ => ⟨a, hx, b, hf⟩, fun ⟨a, hx, b, hf⟩ => ⟨b, a, hx, hf⟩⟩

theorem getAccount_ok_iff : (∃ account, s.getAccount userId = .ok account) ↔
    s.oldAccount userId = false := by
  unfold Store.getAccount Store.oldAccount
  cases s.account[userId]? with
  | none => simp [pure, Except.pure]
  | some row =>
    rw [Option.mapM_some]
    cases row with
    | v2 old => simp [Store.decodeAccount]
    | current account => simp [Store.decodeAccount]

theorem accountState_ok_iff : (∃ state, s.accountState userId = .ok state) ↔
    s.oldAccount userId = false := by
  rw [← getAccount_ok_iff, Store.accountState, bind_ok_iff]
  exact exists_congr fun account => and_iff_left ⟨_, rfl⟩

theorem withAccount_ok_iff {f : Account → Except StoreError (Store × UserResponse)} :
    (∃ x, withAccount s userId f = .ok x) ↔ s.oldAccount userId = false ∧
      ∀ account, s.account[userId]? = some (.current account) → ∃ x, f account = .ok x := by
  unfold withAccount Store.getAccount Store.oldAccount
  cases s.account[userId]? with
  | none => simp [pure, Except.pure, bind, Except.bind]
  | some row =>
    rw [Option.mapM_some]
    cases row with
    | v2 old => simp [Store.decodeAccount]
    | current account => simp [Store.decodeAccount]

/-- A session is opened unless its account row is old. -/
theorem writeSession_ok_iff : (∃ t, writeSession s c = .ok t) ↔ s.oldAccount c.userId = false := by
  unfold writeSession
  rw [bind_ok_iff]
  refine Iff.trans (exists_congr fun state => and_iff_left ?_) accountState_ok_iff
  cases c.refreshHash with
  | none => exact ⟨_, rfl⟩
  | some hash => exact ⟨_, rfl⟩

end Decoding

/-! ## Commands -/

section Commands

variable {serde : SerdeJson} {e s : Store} {userId : UserId}

theorem oldAccount_congr {t : Store} (h : t.account = s.account) (userId : UserId) :
    t.oldAccount userId = s.oldAccount userId := by
  unfold Store.oldAccount
  rw [h]

theorem oldAccount_putAccount {account : Account} {userId' : UserId} :
    (s.putAccount userId account).oldAccount userId' =
      if userId' = userId then false else s.oldAccount userId' := by
  unfold Store.oldAccount Store.putAccount
  dsimp only
  rw [OrdMap.getElem?_insert']
  by_cases same : userId' = userId
  · rw [if_pos same, if_pos same]
  · rw [if_neg same, if_neg same]

theorem applyRegister_ok_iff {passwordHash : Option String} {ts : Nat}
    {session : Option SessionCmd} {registrationToken : Option String} :
    (∃ x, applyRegister s userId passwordHash ts session registrationToken = .ok x) ↔
      (admits s userId ts registrationToken → ∀ c, session = some c → s.oldAccount c.userId = false) := by
  unfold applyRegister admits
  change (∃ x, (if taken s userId = true then _ else _) = Except.ok x) ↔ _
  cases name : taken s userId with
  | true => simp
  | false =>
    cases consumed : consumeRegToken s registrationToken ts with
    | none => simp
    | some u =>
      cases session with
      | none => simp [pure, Except.pure]
      | some c =>
        have fresh : s.oldAccount userId = false := by
          have absent : s.account[userId]? = none :=
            Option.isSome_eq_false_iff.1 (Bool.or_eq_false_iff.1 name).2 |> Option.isNone_iff_eq_none.1
          rw [Store.oldAccount, absent]
        have accounts : u.account = s.account := by
          rw [consumeRegToken_frame consumed]
        have created (account : Account) :
            (u.putAccount userId account).oldAccount c.userId = s.oldAccount c.userId := by
          rw [oldAccount_putAccount, oldAccount_congr accounts]
          split
          · rename_i own
            rw [own, fresh]
          · rfl
        simp only [Bool.false_eq_true, if_false, Bool.not_false, Option.isSome_some, Bool.and_self,
          forall_const, Option.some.injEq, forall_eq']
        rw [bind_ok_iff, ← created]
        refine Iff.trans (exists_congr fun t => and_iff_left ⟨_, rfl⟩) writeSession_ok_iff

theorem restampTokens_ok_iff {state : AccountState} : (∃ t, restampTokens e s userId state = .ok t) ↔
      ∀ hash ∈ (e.devicesOf userId).flatMap fun r => r.2.hashes, s.oldToken hash = false := by
  unfold restampTokens Store.oldToken
  rw [foldlM_restampToken]
  split
  · rename_i old
    simp only [reduceCtorEq, exists_false, false_iff]
    intro current
    obtain ⟨hash, mem, old⟩ := List.any_eq_true.1 old
    rw [current hash mem] at old
    exact Bool.false_ne_true old
  · rename_i current
    refine ⟨fun _ hash mem => Bool.eq_false_iff.2 fun old => ?_, fun _ => ⟨_, rfl⟩⟩
    exact current (List.any_eq_true.2 ⟨hash, mem, old⟩)

theorem refreshSession_ok_iff {old : Hash} {c : SessionCmd} :
    (∃ x, refreshSession s old c = .ok x) ↔ s.oldToken old = false ∧
      ∀ entry, s.token[old]? = some (.current entry) → validRefresh c entry →
        s.oldAccount c.userId = false := by
  unfold refreshSession Store.getToken Store.oldToken oldRow
  cases s.token[old]? with
  | none => simp [pure, Except.pure, bind, Except.bind]
  | some row =>
    rw [Option.mapM_some]
    cases row with
    | v4 old => simp [Store.decodeToken]
    | current entry =>
      change (∃ x, (if validRefresh c entry = true then _ else _) = Except.ok x) ↔ _
      split
      · rename_i valid
        rw [bind_ok_iff]
        refine Iff.trans (exists_congr fun t => and_iff_left ⟨_, rfl⟩) ?_
        rw [writeSession_ok_iff]
        exact ⟨fun current => ⟨rfl, fun _ _ _ => current⟩, fun h => h.2 entry rfl valid⟩
      · rename_i invalid
        refine iff_of_true ⟨_, rfl⟩ ⟨rfl, fun entry' found valid => ?_⟩
        obtain rfl := TokenRow.current.inj (Option.some.inj found)
        exact absurd valid invalid

theorem consumeLoginToken_ok_iff {tokenHash : Hash} {nowTs : Nat} :
    (∃ x, consumeLoginToken s tokenHash nowTs = .ok x) ↔
      ∀ entry, s.loginToken[tokenHash]? = some entry → nowTs < entry.expiresTs →
        s.oldAccount entry.userId = false := by
  unfold consumeLoginToken
  cases s.loginToken[tokenHash]? with
  | none => exact iff_of_true ⟨_, rfl⟩ fun entry found => by simp at found
  | some entry =>
    dsimp only
    split
    · rename_i expired
      refine iff_of_true ⟨_, rfl⟩ fun entry' found live => ?_
      obtain rfl := Option.some.inj found
      exact absurd live (Nat.not_lt.2 expired)
    · rename_i live
      rw [bind_ok_iff]
      refine Iff.trans (exists_congr fun account => and_iff_left ?_) ?_
      · split
        · exact ⟨_, rfl⟩
        · exact ⟨_, rfl⟩
      rw [getAccount_ok_iff]
      constructor
      · intro current entry' found _
        obtain rfl := Option.some.inj found
        exact current
      · exact fun current => current entry rfl (Nat.not_le.1 live)

theorem apply_ok_iff (serde : SerdeJson) (e s : Store) (cmd : UserCommand) :
    (∃ x, apply serde e s cmd = .ok x) ↔ Decodes e s cmd := by
  cases cmd with
  | register =>
    rw [apply, Decodes]
    exact applyRegister_ok_iff
  | registerWithToken =>
    rw [apply, Decodes]
    exact applyRegister_ok_iff
  | createSession c =>
    simp only [apply, createSession, Decodes]
    split
    · rename_i absent
      have current : s.oldAccount c.userId = false := by
        rw [Store.oldAccount, Option.isNone_iff_eq_none.1 absent]
      exact iff_of_true ⟨_, rfl⟩ current
    · rw [bind_ok_iff]
      exact Iff.trans (exists_congr fun t => and_iff_left ⟨_, rfl⟩) writeSession_ok_iff
  | refreshSession old c => exact refreshSession_ok_iff
  | setLocked userId locked =>
    simp only [apply, setLocked, Decodes]
    rw [withAccount_ok_iff]
    refine and_congr_right fun _ => forall_congr' fun account => imp_congr_right fun found => ?_
    split
    · rename_i deactivated
      exact iff_of_true ⟨_, rfl⟩ fun active => absurd deactivated active
    · rename_i active
      rw [bind_ok_iff]
      refine Iff.trans (exists_congr fun t => and_iff_left ⟨_, rfl⟩) ?_
      rw [restampTokens_ok_iff]
      exact ⟨fun h _ => h, fun h => h active⟩
  | consumeLoginToken tokenHash nowTs => exact consumeLoginToken_ok_iff
  | createLoginToken tokenHash userId expiresTs nowTs =>
    refine withAccount_ok_iff.trans (and_iff_left fun account _ => ?_)
    split
    · exact ⟨_, rfl⟩
    · exact ⟨_, rfl⟩
  | changePassword userId passwordHash logoutOthers keepDevice =>
    exact withAccount_ok_iff.trans (and_iff_left fun _ _ => ⟨_, rfl⟩)
  | deactivate userId => exact withAccount_ok_iff.trans (and_iff_left fun _ _ => ⟨_, rfl⟩)
  | setAdmin userId admin => exact withAccount_ok_iff.trans (and_iff_left fun _ _ => ⟨_, rfl⟩)
  | adminSetPassword userId passwordHash logout =>
    refine withAccount_ok_iff.trans (and_iff_left fun account _ => ?_)
    split
    · exact ⟨_, rfl⟩
    · exact ⟨_, rfl⟩
  | setErased userId =>
    refine withAccount_ok_iff.trans (and_iff_left fun account _ => ?_)
    split
    · exact ⟨_, rfl⟩
    · exact ⟨_, rfl⟩
  | linkExternalId userId authProvider externalId =>
    refine withAccount_ok_iff.trans (and_iff_left fun account _ => ?_)
    split
    · exact ⟨_, rfl⟩
    split
    · exact ⟨_, rfl⟩
    · exact ⟨_, rfl⟩
  | _ => exact iff_of_true ⟨_, rfl⟩ trivial

end Commands

/-! ## Runs -/

section Run

open Shard (applyEntry)

variable {serde : SerdeJson}

/-- **A committed command is applied exactly when it decodes no row of an older shape**, in any
state that a shard may be in, at any place of a batch. -/
theorem entry_ok_iff (serde : SerdeJson) (e s : Shard.State (UserApp serde)) (logId : Shard.LogId)
    (cmd : UserCommand) :
    (∃ x, applyEntry (UserApp serde) e s ⟨logId, .normal cmd⟩ = .ok x) ↔ Decodes e.app s.app cmd := by
  refine bind_ok_iff.trans ?_
  rw [← apply_ok_iff serde e.app s.app cmd]
  exact exists_congr fun x => and_iff_left ⟨_, rfl⟩

/-- A shard of schema 1: an account with one device, and the device's refresh token. -/
def olderShard : Shard.State (UserApp SerdeJson.sample) :=
  .fresh { Store.empty with
    account := Store.empty.account.insert "@a:x" (.v2 ⟨none, 0, false⟩)
    token := Store.empty.token.insert 8 (.v4 ⟨"@a:x", "D", .refresh, 0, none⟩)
    device := Store.empty.device.insert ("@a:x", "D") ⟨none, 0, none, some 8⟩ }

def sampleMigration (target : Nat) : Shard.Entry UserCommand :=
  ⟨⟨1, 1, target⟩, .runtime (.migrate target)⟩

def sampleRefresh : Shard.Entry UserCommand :=
  ⟨⟨1, 1, 6⟩, .normal (.refreshSession 8 ⟨"@a:x", "D", none, 9, some 10, none, 1⟩)⟩

/-- On the way through the migrations the refresh stops the replica at schema 4. From schema 5 on it
is answered. -/
theorem refresh_before_migration : ∃ s t : Shard.State (UserApp SerdeJson.sample),
    Batch.Runs (applyEntry (UserApp SerdeJson.sample)) (fun _ _ _ => True) olderShard s ∧
    s.schemaVersion = 4 ∧
    applyEntry (UserApp SerdeJson.sample) s s sampleRefresh = .error (.codec "token decode") ∧
    Batch.Runs (applyEntry (UserApp SerdeJson.sample)) (fun _ _ _ => True) s t ∧
    t.schemaVersion = 5 ∧
    (applyEntry (UserApp SerdeJson.sample) t t sampleRefresh).toOption.map Prod.snd =
      some (.normal .ok) := by
  have h : (Shard.apply (UserApp SerdeJson.sample) olderShard
      [sampleMigration 2, sampleMigration 3, sampleMigration 4]).toOption.any (fun x =>
        decide (x.1.schemaVersion = 4) &&
        decide (x.1.app.token[(8 : Hash)]? = some (.v4 ⟨"@a:x", "D", .refresh, 0, none⟩)) &&
        (Shard.apply (UserApp SerdeJson.sample) x.1 [sampleMigration 5]).toOption.any fun y =>
          decide (y.1.schemaVersion = 5) &&
          decide ((applyEntry (UserApp SerdeJson.sample) y.1 y.1 sampleRefresh).toOption.map
            Prod.snd = some (.normal .ok))) = true := by
    decide +kernel
  obtain ⟨⟨s, rs⟩, migrated, h⟩ := (Option.any_eq_true _ _).1 h
  simp only [Bool.and_eq_true, decide_eq_true_eq] at h
  obtain ⟨⟨four, old⟩, h⟩ := h
  obtain ⟨⟨t, rs'⟩, stamped, h⟩ := (Option.any_eq_true _ _).1 h
  simp only [Bool.and_eq_true, decide_eq_true_eq] at h
  refine ⟨s, t, .batch .refl (toOption_eq_some.1 migrated) fun _ _ _ => trivial, four, ?_,
    .batch .refl (toOption_eq_some.1 stamped) fun _ _ _ => trivial, h.1, h.2⟩
  have fails : refreshSession s.app 8 ⟨"@a:x", "D", none, 9, some 10, none, 1⟩ =
      .error (.codec "token decode") := by
    unfold refreshSession Store.getToken
    rw [old]
    rfl
  change (refreshSession s.app 8 _ >>= _) = _
  rw [fails]
  rfl

end Run

end Saltator.User
