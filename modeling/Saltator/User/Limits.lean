import Saltator.User.History
import Saltator.User.MachineSpec

/-!
# Registration limits

Names, registration tokens and login tokens are granted once, or as often as they allow. The history of
what was granted keeps the account of every registration token (`balance`), the tables follow it, and
`Due Needs` says that nothing was granted beyond it. No scan takes part, so nothing depends on how the
log is cut into batches.
-/

namespace Saltator.User

open Machine
open Saltator.Outcome
open Batch (Since Due since_append_singleton due_nil due_append_singleton
  append_singleton_eq)

/-- What was granted, and what grants were handed out and taken back. -/
inductive GrantEvent where
  /-- A registration succeeded, with the token that it presented. -/
  | registered (userId : UserId) (registrationToken : Option String)
  | minted (token : String) (usesAllowed : Option Nat)
  | revoked (token : String)
  | loginMinted (tokenHash : Hash) (userId : UserId)
  /-- A login token was spent, and answered with its owner. -/
  | loginSpent (tokenHash : Hash) (userId : UserId)
  deriving DecidableEq

def grantEvents (_ : Store) (cmd : UserCommand) (_ : Store) (r : UserResponse) : List GrantEvent :=
  match cmd, r with
  | .register userId .., .ok => [.registered userId none]
  | .registerWithToken userId _ _ _ registrationToken, .ok => [.registered userId registrationToken]
  | .createRegistrationToken token usesAllowed .., .ok => [.minted token usesAllowed]
  | .deleteRegistrationToken token, .ok => [.revoked token]
  | .createLoginToken tokenHash userId .., .ok => [.loginMinted tokenHash userId]
  | .consumeLoginToken tokenHash _, .loginTokenOwner userId => [.loginSpent tokenHash userId]
  | _, _ => []

/-! ## Accounts of grants -/

section Accounts

variable {history before after : List GrantEvent} {token : String} {ev : GrantEvent}

def registeredNames (history : List GrantEvent) : List UserId :=
  history.filterMap fun
    | .registered userId _ => some userId
    | _ => none

def GrantEvent.takes (token : String) : GrantEvent → Bool
  | .registered _ registrationToken => registrationToken = some token
  | _ => false

def uses (token : String) (history : List GrantEvent) : Nat := history.countP (GrantEvent.takes token)

def life (token : String) (after : List GrantEvent) : List GrantEvent :=
  after.takeWhile fun ev => ev ≠ .revoked token

def debit (token : String) (account : Option (Option Nat × Nat)) : GrantEvent → Option (Option Nat × Nat)
  | .minted token' usesAllowed => if token' = token then some (usesAllowed, 0) else account
  | .revoked token' => if token' = token then none else account
  | .registered _ registrationToken =>
    if registrationToken = some token then account.map fun a => (a.1, a.2 + 1) else account
  | _ => account

def balance (token : String) (history : List GrantEvent) : Option (Option Nat × Nat) :=
  history.foldl (debit token) none

@[simp] theorem balance_append_singleton :
    balance token (history ++ [ev]) = debit token (balance token history) ev := by
  rw [balance, List.foldl_append]
  rfl

def TokenLive (token : String) : List GrantEvent → Prop :=
  Since (fun ev => ∃ usesAllowed, ev = .minted token usesAllowed) (· = .revoked token)

def LoginHeld (tokenHash : Hash) (userId : UserId) : List GrantEvent → Prop :=
  Since (· = .loginMinted tokenHash userId)
    fun ev => ∃ userId', ev = .loginMinted tokenHash userId' ∨ ev = .loginSpent tokenHash userId'

def Needs (before : List GrantEvent) : GrantEvent → Prop
  | .registered userId registrationToken => userId ∉ registeredNames before ∧
    ∀ token, registrationToken = some token → ∃ usesAllowed used,
      balance token before = some (usesAllowed, used) ∧ ∀ n, usesAllowed = some n → used < n
  | .minted token _ => balance token before = none
  | .loginSpent tokenHash userId => LoginHeld tokenHash userId before
  | _ => True

theorem registeredNames_nodup (due : Due Needs history) : (registeredNames history).Nodup := by
  induction history using List.reverseRecOn with
  | nil => exact List.nodup_nil
  | append_singleton history ev ih =>
    obtain ⟨earlier, last⟩ := due_append_singleton.1 due
    rw [registeredNames, List.filterMap_append]
    cases ev with
    | registered userId registrationToken =>
      exact (ih earlier).append (List.nodup_singleton _) fun k mem new => last.1 (by
        rwa [List.mem_singleton.1 new] at mem)
    | _ => simpa [registeredNames] using ih earlier

theorem live_of_balance {account : Option Nat × Nat} (h : balance token history = some account) :
    TokenLive token history := by
  induction history using List.reverseRecOn generalizing account with
  | nil => simp [balance] at h
  | append_singleton history ev ih =>
    rw [balance_append_singleton] at h
    refine since_append_singleton.2 ?_
    cases ev with
    | minted token' usesAllowed =>
      rw [debit] at h
      split at h
      · rename_i same
        exact .inl ⟨usesAllowed, by rw [same]⟩
      · exact .inr ⟨ih h, by simp⟩
    | revoked token' =>
      rw [debit] at h
      split at h
      · simp at h
      · rename_i other
        exact .inr ⟨ih h, by simpa using other⟩
    | registered userId registrationToken =>
      rw [debit] at h
      split at h
      · obtain ⟨before, found, -⟩ := Option.map_eq_some_iff.1 h
        exact .inr ⟨ih found, by simp⟩
      · exact .inr ⟨ih h, by simp⟩
    | _ => exact .inr ⟨ih h, by simp⟩

theorem life_eq_self (there : .revoked token ∉ after) : life token after = after := by
  unfold life
  induction after with
  | nil => rfl
  | cons ev after ih =>
    rw [List.mem_cons, not_or] at there
    rw [List.takeWhile_cons_of_pos (by simpa using Ne.symm there.1), ih there.2]

theorem life_append_singleton : life token (after ++ [ev]) =
    if .revoked token ∈ after then life token after
    else if ev = .revoked token then after else after ++ [ev] := by
  unfold life
  induction after with
  | nil => by_cases closing : ev = .revoked token <;> simp [closing]
  | cons first after ih =>
    rw [List.cons_append, List.takeWhile_cons, List.takeWhile_cons, ih]
    grind

@[simp] theorem uses_append_singleton :
    uses token (after ++ [ev]) = uses token after + if ev.takes token then 1 else 0 := by
  rw [uses, List.countP_append, List.countP_singleton]
  rfl

theorem uses_life {usesAllowed : Option Nat} (due : Due Needs history)
    (cut : history = before ++ .minted token usesAllowed :: after) :
    (∀ n, usesAllowed = some n → uses token (life token after) ≤ n) ∧
      (.revoked token ∉ after → balance token history = some (usesAllowed, uses token after)) := by
  induction history using List.reverseRecOn generalizing after with
  | nil => simp at cut
  | append_singleton history ev ih =>
    obtain ⟨earlier, last⟩ := due_append_singleton.1 due
    obtain ⟨rfl, rfl, rfl⟩ | ⟨rest, rfl, rfl⟩ := append_singleton_eq.1 cut
    · exact ⟨fun n _ => Nat.zero_le n, fun _ => by simp [debit, uses]⟩
    obtain ⟨bound, account⟩ := ih earlier rfl
    refine ⟨fun n allowed => ?_, fun there => ?_⟩
    · rw [life_append_singleton]
      split
      · exact bound n allowed
      · rename_i there
        have used := bound n allowed
        rw [life_eq_self there] at used
        split
        · exact used
        · rw [uses_append_singleton]
          cases taken : ev.takes token with
          | false => exact used
          | true =>
            -- the registration found the account below what the token allows
            obtain ⟨userId, registrationToken⟩ | _ | _ | _ | _ := ev
            · obtain rfl : registrationToken = some token := of_decide_eq_true taken
              obtain ⟨usesAllowed', used', found, below⟩ := last.2 token rfl
              obtain ⟨rfl, rfl⟩ := Prod.mk.inj (some_unique (account there) found)
              exact below n allowed
            all_goals simp [GrantEvent.takes] at taken
    · rw [List.mem_append, not_or] at there
      rw [balance_append_singleton, account there.1, uses_append_singleton]
      cases ev with
      | minted token' usesAllowed' =>
        have other : token' ≠ token := by
          rintro rfl
          have fresh : balance token' _ = none := last
          rw [account there.1] at fresh
          simp at fresh
        simp [debit, other, GrantEvent.takes]
      | revoked token' =>
        have other : token' ≠ token := by
          rintro rfl
          exact there.2 (by simp)
        simp [debit, other, GrantEvent.takes]
      | registered userId registrationToken =>
        by_cases own : registrationToken = some token <;> simp [debit, own, GrantEvent.takes]
      | _ => rfl

end Accounts

/-! ## Commands -/

section Commands

variable {serde : SerdeJson} {e s t : Store} {r : UserResponse} {history : List GrantEvent}
  {token : String} {ts : Nat} {tokenHash : Hash} {userId : UserId}

def RegToken.account (row : RegToken) : Option Nat × Nat := (row.usesAllowed, row.used)

/-- The tables follow the accounts. -/
structure Granted (s : Store) (history : List GrantEvent) : Prop where
  names : ∀ userId ∈ registeredNames history, userId ∈ s.username
  balances : ∀ token, s.regToken[token]?.map RegToken.account = balance token history
  logins : ∀ (tokenHash : Hash) (entry : LoginTokenEntry), s.loginToken[tokenHash]? = some entry →
    LoginHeld tokenHash entry.userId history
  due : Due Needs history

theorem Granted.empty : Granted .empty [] := by
  refine ⟨nofun, fun token => ?_, fun tokenHash entry stored => ?_, due_nil⟩
  · simp [Store.empty, balance]
  · simp [Store.empty] at stored

theorem Granted.idle (h : Granted s history) (names : ∀ userId ∈ s.username, userId ∈ t.username)
    (tokens : t.regToken = s.regToken)
    (logins : ∀ (tokenHash : Hash) (entry : LoginTokenEntry), t.loginToken[tokenHash]? = some entry →
      s.loginToken[tokenHash]? = some entry) : Granted t (history ++ []) := by
  rw [List.append_nil]
  refine ⟨fun userId mem => names userId (h.names userId mem), ?_, ?_, h.due⟩
  · rw [tokens]
    exact h.balances
  · exact fun tokenHash entry stored => h.logins tokenHash entry (logins tokenHash entry stored)

theorem consumeRegToken_eq_some (h : consumeRegToken s (some token) ts = some t) : ∃ row : RegToken,
      s.regToken[token]? = some row ∧ (∀ n, row.usesAllowed = some n → row.used < n) ∧
        t = { s with regToken := s.regToken.insert token { row with used := row.used + 1 } } := by
  unfold consumeRegToken at h
  dsimp only at h
  split at h
  · simp at h
  · rename_i row found
    split at h
    · rename_i usable
      refine ⟨row, found, fun n allowed => ?_, (Option.some.inj h).symm⟩
      rw [RegToken.usable, allowed, Bool.and_eq_true] at usable
      exact of_decide_eq_true usable.2
    · simp at h

theorem Granted.register (h : Granted s history) {passwordHash : Option String}
    {session : Option SessionCmd} {registrationToken : Option String}
    (applied : applyRegister s userId passwordHash ts session registrationToken = .ok (t, r)) :
    Granted t (history ++ if r = .ok then [.registered userId registrationToken] else []) := by
  obtain ⟨rfl, refused⟩ | ⟨u, free, -, consumed, rfl, opened⟩ := applyRegister_eq_ok applied
  · rw [if_neg (by rintro rfl; simp at refused)]
    exact h.idle (fun _ mem => mem) rfl fun _ _ stored => stored
  have kept := consumeRegToken_frame consumed
  have after : t.username = s.username.insert userId ∧ t.regToken = u.regToken ∧
      t.loginToken = s.loginToken := by
    cases session with
    | none =>
      obtain rfl : t = enrol u userId passwordHash ts := opened
      rw [kept]
      exact ⟨rfl, rfl, rfl⟩
    | some c =>
      rw [writeSession_frame opened, kept]
      exact ⟨rfl, rfl, rfl⟩
  obtain ⟨names, tokens, logins⟩ := after
  rw [if_pos rfl]
  -- what the registration needed of its token
  have spent : ∀ token, registrationToken = some token → ∃ row : RegToken,
      s.regToken[token]? = some row ∧ (∀ n, row.usesAllowed = some n → row.used < n) ∧
        u.regToken = s.regToken.insert token { row with used := row.used + 1 } := by
    rintro token rfl
    obtain ⟨row, found, below, rfl⟩ := consumeRegToken_eq_some consumed
    exact ⟨row, found, below, rfl⟩
  refine ⟨?_, ?_, ?_, due_append_singleton.2 ⟨h.due, ?_, ?_⟩⟩
  · intro userId' mem
    rw [names, OrdSet.mem_insert']
    rw [registeredNames, List.filterMap_append, List.mem_append] at mem
    obtain mem | mem := mem
    · exact .inr (h.names userId' mem)
    · exact .inl (by simpa using mem)
  · intro token
    rw [balance_append_singleton, ← h.balances, tokens, debit]
    cases registrationToken with
    | none =>
      obtain rfl := Option.some.inj consumed
      rfl
    | some presented =>
      obtain ⟨row, found, -, insert⟩ := spent presented rfl
      rw [insert, OrdMap.getElem?_insert']
      by_cases own : token = presented
      · obtain rfl := own
        rw [if_pos rfl, if_pos rfl, found]
        rfl
      · rw [if_neg own, if_neg fun same => own (Option.some.inj same).symm]
  · intro tokenHash entry stored
    rw [logins] at stored
    exact since_append_singleton.2 (.inr ⟨h.logins tokenHash entry stored, by simp⟩)
  · intro mem
    have taken := h.names userId mem
    rw [← Std.ExtTreeSet.contains_iff_mem, free] at taken
    simp at taken
  · intro token presented
    obtain ⟨row, found, below, -⟩ := spent token presented
    exact ⟨row.usesAllowed, row.used, by rw [← h.balances, found]; rfl, below⟩

theorem Granted.record (h : Granted s history) {ev : GrantEvent} (anonymous : registeredNames [ev] = [])
    (names : t.username = s.username)
    (tokens : ∀ token, t.regToken[token]?.map RegToken.account =
      debit token (s.regToken[token]?.map RegToken.account) ev)
    (logins : ∀ (tokenHash : Hash) (entry : LoginTokenEntry), t.loginToken[tokenHash]? = some entry →
      LoginHeld tokenHash entry.userId (history ++ [ev]))
    (needs : Needs history ev) : Granted t (history ++ [ev]) := by
  refine ⟨?_, fun token => ?_, logins, due_append_singleton.2 ⟨h.due, needs⟩⟩
  · intro userId mem
    rw [registeredNames, List.filterMap_append] at mem
    rw [names]
    refine h.names userId ?_
    rwa [show List.filterMap _ [ev] = [] from anonymous, List.append_nil] at mem
  · rw [balance_append_singleton, ← h.balances]
    exact tokens token

theorem Granted.createRegistrationToken (h : Granted s history) {usesAllowed expiryTs : Option Nat}
    (applied : createRegistrationToken s token usesAllowed expiryTs ts = (t, r)) :
    Granted t (history ++ grantEvents s (.createRegistrationToken token usesAllowed expiryTs ts) t r) := by
  unfold Machine.createRegistrationToken at applied
  split at applied
  · obtain ⟨rfl, rfl⟩ := Prod.mk.inj applied
    exact h.idle (fun _ mem => mem) rfl fun _ _ stored => stored
  · rename_i fresh
    obtain ⟨rfl, rfl⟩ := Prod.mk.inj applied
    refine h.record rfl rfl (fun token' => ?_) (fun tokenHash entry stored => ?_) ?_
    · rw [OrdMap.getElem?_insert', debit]
      by_cases own : token' = token
      · rw [if_pos own, if_pos own.symm]
        rfl
      · rw [if_neg own, if_neg (Ne.symm own)]
    · exact since_append_singleton.2 (.inr ⟨h.logins tokenHash entry stored, by simp⟩)
    · have unknown := h.balances token
      rw [Std.ExtTreeMap.contains_iff_mem] at fresh
      rw [Std.ExtTreeMap.getElem?_eq_none fresh] at unknown
      exact unknown.symm

theorem Granted.deleteRegistrationToken (h : Granted s history)
    (applied : deleteRegistrationToken s token = (t, r)) :
    Granted t (history ++ grantEvents s (.deleteRegistrationToken token) t r) := by
  unfold Machine.deleteRegistrationToken at applied
  split at applied
  · obtain ⟨rfl, rfl⟩ := Prod.mk.inj applied
    refine h.record rfl rfl (fun token' => ?_) (fun tokenHash entry stored => ?_) trivial
    · rw [OrdMap.getElem?_erase', debit]
      by_cases own : token' = token
      · rw [if_pos own, if_pos own.symm]
        rfl
      · rw [if_neg own, if_neg (Ne.symm own)]
    · exact since_append_singleton.2 (.inr ⟨h.logins tokenHash entry stored, by simp⟩)
  · obtain ⟨rfl, rfl⟩ := Prod.mk.inj applied
    exact h.idle (fun _ mem => mem) rfl fun _ _ stored => stored

theorem Granted.createLoginToken (h : Granted s history) {expiresTs nowTs : Nat}
    (applied : createLoginToken e s tokenHash userId expiresTs nowTs = .ok (t, r)) :
    Granted t (history ++ grantEvents s (.createLoginToken tokenHash userId expiresTs nowTs) t r) := by
  unfold Machine.createLoginToken at applied
  have left : ∀ (k : Hash) (entry : LoginTokenEntry),
      (s.loginToken.eraseRows (e.loginToken.toList.filter fun r => r.2.expiresTs ≤ nowTs))[k]? =
        some entry → s.loginToken[k]? = some entry := by
    intro k entry stored
    rw [OrdMap.getElem?_eraseRows] at stored
    split at stored
    · simp at stored
    · exact stored
  obtain ⟨rfl, rfl, -⟩ | ⟨account, -, applied⟩ := withAccount_eq_ok applied
  · exact h.idle (fun _ mem => mem) rfl left
  split at applied
  · obtain ⟨rfl, rfl⟩ := ok_pair applied
    exact h.idle (fun _ mem => mem) rfl left
  · obtain ⟨rfl, rfl⟩ := ok_pair applied
    refine h.record rfl rfl (fun _ => rfl) (fun k entry stored => ?_) trivial
    rw [OrdMap.getElem?_insert'] at stored
    split at stored
    · rename_i own
      obtain rfl := Option.some.inj stored
      exact since_append_singleton.2 (.inl (by rw [own]))
    · rename_i other
      exact since_append_singleton.2 (.inr ⟨h.logins k entry (left k entry stored),
        by simpa using Ne.symm other⟩)

theorem Granted.consumeLoginToken (h : Granted s history) {nowTs : Nat}
    (applied : consumeLoginToken s tokenHash nowTs = .ok (t, r)) :
    Granted t (history ++ grantEvents s (.consumeLoginToken tokenHash nowTs) t r) := by
  unfold Machine.consumeLoginToken at applied
  split at applied
  · obtain ⟨rfl, rfl⟩ := ok_pair applied
    exact h.idle (fun _ mem => mem) rfl fun _ _ stored => stored
  rename_i entry found
  have left : ∀ (k : Hash) (entry : LoginTokenEntry), (s.loginToken.erase tokenHash)[k]? = some entry →
      k ≠ tokenHash ∧ s.loginToken[k]? = some entry := by
    intro k entry stored
    rw [OrdMap.getElem?_erase'] at stored
    split at stored
    · simp at stored
    · exact ⟨‹_›, stored⟩
  have gone := h.idle (t := { s with loginToken := s.loginToken.erase tokenHash }) (fun _ mem => mem) rfl
    fun k entry stored => (left k entry stored).2
  split at applied
  · obtain ⟨rfl, rfl⟩ := ok_pair applied
    exact gone
  obtain ⟨account, -, applied⟩ := bind_eq_ok.1 applied
  split at applied
  · obtain ⟨rfl, rfl⟩ := ok_pair applied
    refine h.record rfl rfl (fun _ => rfl) (fun k entry' stored => ?_) (h.logins tokenHash entry found)
    obtain ⟨other, stored⟩ := left k entry' stored
    exact since_append_singleton.2 (.inr ⟨h.logins k entry' stored, by simpa using Ne.symm other⟩)
  · obtain ⟨rfl, rfl⟩ := ok_pair applied
    exact gone

theorem Granted.apply (h : Granted s history) {cmd : UserCommand}
    (applied : apply serde e s cmd = .ok (t, r)) : Granted t (history ++ grantEvents s cmd t r) := by
  have shape := apply_frame applied
  have idle (names : t.username = s.username) (tokens : t.regToken = s.regToken)
      (logins : t.loginToken = s.loginToken) : Granted t (history ++ []) :=
    h.idle (fun _ mem => names ▸ mem) tokens fun _ _ stored => logins ▸ stored
  cases cmd with
  | register userId passwordHash ts session =>
    rw [Machine.apply] at applied
    have kept := h.register applied
    cases r <;> exact kept
  | registerWithToken userId passwordHash ts session registrationToken =>
    rw [Machine.apply] at applied
    have kept := h.register applied
    cases r <;> exact kept
  | createRegistrationToken token usesAllowed expiryTs ts =>
    exact h.createRegistrationToken (Except.ok.inj applied)
  | deleteRegistrationToken token =>
    exact h.deleteRegistrationToken (Except.ok.inj applied)
  | createLoginToken tokenHash userId expiresTs nowTs => exact h.createLoginToken applied
  | consumeLoginToken tokenHash nowTs => exact h.consumeLoginToken applied
  | _ =>
    exact idle (by rw [shape]; rfl) (by rw [shape]; rfl) (by rw [shape]; rfl)

end Commands

/-! ## Runs -/

section Run

open Shard (applyEntry)

variable {serde : SerdeJson} {e s : Shard.State (UserApp serde)} {history : List GrantEvent}

theorem UserRun.granted
    (run : UserRun (fun _ _ _ => True) (fun _ _ _ => True) grantEvents serde e s history) :
    Granted s.app history := by
  refine UserRun.invariant (I := fun _ s history => Granted s history) .empty id ?_ ?_ run
  · exact fun h _ applied => h.apply applied
  · intro e s t target history h _ migrated
    have shape := migrate_frame migrated
    rw [← List.append_nil history]
    exact h.idle (fun _ => mem_username_migrate migrated) (by rw [shape]) fun _ _ stored => by rwa [shape] at stored

/-- **Registration limits.** In every run no name is registered twice; from its minting to its revocation
a token that allows `n` uses makes at most `n` registrations, and none are made with a token that is not
there; and a login token is answered once, with the user it was minted for. -/
theorem registration_limits
    (run : UserRun (fun _ _ _ => True) (fun _ _ _ => True) grantEvents serde e s history) :
    (registeredNames history).Nodup ∧
    (∀ before after token n, history = before ++ .minted token (some n) :: after →
      uses token (life token after) ≤ n) ∧
    (∀ before after userId token, history = before ++ .registered userId (some token) :: after →
      TokenLive token before) ∧
    ∀ before after tokenHash userId, history = before ++ .loginSpent tokenHash userId :: after →
      LoginHeld tokenHash userId before := by
  have due := run.granted.due
  refine ⟨registeredNames_nodup due, fun before after token n cut => (uses_life due cut).1 n rfl,
    fun before after userId token cut => ?_, fun before after tokenHash userId cut => due _ _ _ cut⟩
  obtain ⟨usesAllowed, used, account, -⟩ := (due _ _ _ cut).2 token rfl
  exact live_of_balance account

def sampleGrants : List (Shard.Entry UserCommand) :=
  [⟨⟨1, 1, 1⟩, .normal (.createRegistrationToken "tok" (some 1) none 0)⟩,
    ⟨⟨1, 1, 2⟩, .normal (.registerWithToken "@a:x" none 0 none (some "tok"))⟩,
    ⟨⟨1, 1, 3⟩, .normal (.registerWithToken "@b:x" none 0 none (some "tok"))⟩]

/-- The second one is refused, also in the batch of the first. -/
theorem registration_limits_once : ∃ e s : Shard.State (UserApp .sample),
    UserRun (fun _ _ _ => True) (fun _ _ _ => True) grantEvents .sample e s
      [.minted "tok" (some 1), .registered "@a:x" (some "tok")] ∧
    uses "tok" (life "tok" [.registered "@a:x" (some "tok")]) ≤ 1 := by
  have h : (Batch.recordBatch (applyEntry (UserApp .sample)) (entryEvents grantEvents)
      (.fresh Store.empty) (.fresh Store.empty, []) sampleGrants).toOption.any (fun x =>
        decide (x.2 = [.minted "tok" (some 1), .registered "@a:x" (some "tok")])) = true := by
    decide +kernel
  obtain ⟨⟨s, history⟩, applied, told⟩ := (Option.any_eq_true _ _).1 h
  obtain rfl := of_decide_eq_true told
  have run : UserRun (fun _ _ _ => True) (fun _ _ _ => True) grantEvents .sample _ s _ :=
    Batch.Recorded.start.batch (toOption_eq_some.1 applied) fun _ entry _ => by
      unfold EntryMeets
      split <;> trivial
  exact ⟨_, s, run, (registration_limits run).2.1 [] _ "tok" 1 rfl⟩

end Run

end Saltator.User
