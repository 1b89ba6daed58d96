import Saltator.Client.Sso
import Saltator.User.PasswordLogin

/-!
# Authentication for one request

A request that needs interactive authentication is challenged with a session, and is sent again once the
stages of a flow are done. The stage of an identity provider is done in a browser: the browser comes back
with an identity, which leaves a mark under the session, and the request that is sent again spends it.
The marks are in memory, by session alone; the user shard binds a session to a request with its first
stage.
-/

namespace Saltator.Client

open Saltator.Outcome
open User (UserCommand UserResponse StoreError SerdeJson loginHash)
open User.Machine (apply migrate)

/-! ## Flows -/

def dummyStage : String := "m.login.dummy"
def passwordStage : String := "m.login.password"
def registrationTokenStage : String := "m.login.registration_token"
def ssoStage : String := "m.login.sso"

/-- What the caller is authenticating for. -/
inductive Purpose where
  | register (requiresToken : Bool)
  /-- A user who is logged in, before a sensitive change. -/
  | reauth (userId : String)
  deriving DecidableEq

def Purpose.flows (sso : Bool) : Purpose → List (List String)
  | .register false => [[dummyStage]]
  | .register true => [[registrationTokenStage, dummyStage]]
  | .reauth _ => if sso then [[passwordStage], [ssoStage]] else [[passwordStage]]

inductive AuthKind where
  | dummy
  | fallbackAcknowledgement
  | registrationToken (token : String)
  /-- A password, and the user where it is named by its Matrix id. -/
  | password (identifier : Option String) (password : String)
  | other
  deriving DecidableEq

structure AuthData where
  session : Option String
  kind : AuthKind
  deriving DecidableEq

/-- The stage may be the provider's. -/
def AuthKind.asksSso : AuthKind → Bool
  | .fallbackAcknowledgement | .other => true
  | _ => false

inductive UiaRefusal where
  | uiaa (flows : List (List String)) (session : String) (completed : List String)
  | uiaaForbidden (flows : List (List String)) (session : String)
  | api (e : ApiError)
  deriving DecidableEq

/-- What a flow that is done yields. -/
structure UiaOk where
  registrationToken : Option String
  deriving DecidableEq

/-! ## Browsers -/

inductive PendingKind where
  | login (clientRedirect : String)
  | uiaFallback (sessionId : String)
  deriving DecidableEq

/-- An outstanding redirect. -/
structure PendingAuth where
  idpId : String
  nonce : String
  codeVerifier : Option String
  kind : PendingKind
  createdMs : Nat
  deriving DecidableEq

/-- A browser came back for the session. -/
structure Completion where
  session : String
  userId : String
  /-- When its redirect began. -/
  began : Nat
  deriving DecidableEq

/-- The mark of a completed fallback: the user that the provider vouched for. Which completion left it,
and when that began, is not in the code. -/
structure Mark where
  userId : String
  completion : Nat
  began : Nat
  deriving DecidableEq

structure SsoRuntime where
  pending : OrdMap String PendingAuth
  uiaDone : OrdMap String Mark

def pendingTtlMs : Nat := 15 * 60 * 1000
def pendingCap : Nat := 10000

namespace SsoRuntime

variable (r : SsoRuntime)

def alive (now : Nat) (p : PendingAuth) : Bool := decide (now - p.createdMs < pendingTtlMs)

/-- Store a redirect under its state. -/
def begin (state : String) (auth : PendingAuth) : SsoRuntime × Except ApiError Unit :=
  let pending := r.pending.filter fun _ p => alive auth.createdMs p
  if pendingCap ≤ pending.size then
    ({ r with pending := pending }, .error ⟨429, "M_LIMIT_EXCEEDED", "Too many requests"⟩)
  else ({ r with pending := pending.insert state auth }, .ok ())

def take (state : String) (now : Nat) : SsoRuntime × Option PendingAuth :=
  ({ r with pending := r.pending.erase state }, r.pending[state]?.filter (alive now))

def markUiaDone (sessionId : String) (mark : Mark) : SsoRuntime :=
  { r with uiaDone := r.uiaDone.insert sessionId mark }

def takeUiaDone (sessionId : String) : SsoRuntime × Option Mark :=
  ({ r with uiaDone := r.uiaDone.erase sessionId }, r.uiaDone[sessionId]?)

end SsoRuntime

structure SsoConfig where
  /-- Some provider is configured. -/
  sso : Bool
  providers : List OidcProvider

namespace SsoConfig

variable (cfg : SsoConfig)

def oidcProvider (idpId : String) : Option OidcProvider :=
  cfg.providers.find? fun p => p.idpId = idpId

def ssoNotConfigured : ApiError := .notFound "SSO is not configured"

/-- The provider that a browser is sent to; `none` is the page to pick one. -/
def chosen (idp : Option String) : Except ApiError (Option OidcProvider) :=
  match idp with
  | some idpId =>
    match cfg.oidcProvider idpId with
    | some p => .ok (some p)
    | none => .error (.notFound "Unknown identity provider")
  | none =>
    match cfg.providers with
    | [] => .error ssoNotConfigured
    | [p] => .ok (some p)
    | _ => .ok none

def ssoFallbackWeb (session idp : Option String) : Except ApiError (Option (OidcProvider × PendingKind)) :=
  match session.filter fun s => !s.isEmpty with
  | none => .error (.invalidParam "Missing session parameter")
  | some session => return (← cfg.chosen idp).map fun p => (p, .uiaFallback session)

def ssoRedirect (redirectUrl idp : Option String) : Except ApiError (Option (OidcProvider × PendingKind)) :=
  match redirectUrl.filter fun s => !s.isEmpty with
  | none => .error (.invalidParam "Missing redirectUrl parameter")
  | some url => return (← cfg.chosen idp).map fun p => (p, .login url)

end SsoConfig

/-! ## The check -/

structure VerifiedStage where
  stage : String
  token : Option String
  /-- The completion that was spent on it. -/
  spent : Option Nat
  deriving DecidableEq

/-- Spend the session's completed fallback, if it has one. -/
def takeSsoStage (sso : Bool) (r : SsoRuntime) (purpose : Purpose) (sessionId : String) :
    SsoRuntime × Except UiaRefusal (Option VerifiedStage) :=
  match purpose with
  | .register _ => (r, .ok none)
  | .reauth expected =>
    if !sso then (r, .ok none)
    else
      match r.takeUiaDone sessionId with
      | (r, none) => (r, .ok none)
      | (r, some mark) =>
        if mark.userId ≠ expected then
          (r, .error (.api (.forbidden "SSO authenticated a different user than this session")))
        else (r, .ok (some ⟨ssoStage, none, some mark.completion⟩))

def identifies (claimed userId : String) : Bool :=
  let claimed := claimed.toList.dropWhile (· = '@')
  let expected := userId.toList.dropWhile (· = '@')
  decide (claimed = expected) || decide (claimed = expected.takeWhile (· ≠ ':'))

section Check

variable (cfg : SsoConfig) (verifyPassword : String → String → Bool)

def verifyStage (s : User.Store) (r : SsoRuntime) (purpose : Purpose) (kind : AuthKind)
    (sessionId : String) (now : Nat) : SsoRuntime × Except UiaRefusal VerifiedStage :=
  let flows := purpose.flows cfg.sso
  match kind with
  | .dummy => (r, .ok ⟨dummyStage, none, none⟩)
  | .fallbackAcknowledgement =>
    let (r, stage) := takeSsoStage cfg.sso r purpose sessionId
    (r, stage.map fun stage => stage.getD ⟨dummyStage, none, none⟩)
  | .registrationToken token =>
    match purpose with
    | .reauth _ => (r, .error (.uiaa flows sessionId []))
    | .register _ =>
      if s.regToken[token]?.any fun entry => entry.usable now then
        (r, .ok ⟨registrationTokenStage, some token, none⟩)
      else (r, .error (.uiaaForbidden flows sessionId))
  | .password identifier password =>
    match purpose with
    | .register _ => (r, .error (.uiaa flows sessionId []))
    | .reauth userId =>
      if identifier.any fun claimed => !identifies claimed userId then
        (r, .error (.api (.forbidden "Identifier does not match session")))
      else
        match loginHash verifyPassword s userId password with
        | .error err => (r, .error (.api (.internal (reprStr err))))
        | .ok none => (r, .error (.uiaaForbidden flows sessionId))
        | .ok (some _) => (r, .ok ⟨passwordStage, none, none⟩)
  | .other =>
    let (r, stage) := takeSsoStage cfg.sso r purpose sessionId
    (r, stage.bind fun stage => match stage with
      | some stage => .ok stage
      | none => .error (.uiaa flows sessionId []))

/-- The answer once the shard has noted the stage. -/
def completed (purpose : Purpose) (sessionId : String) : UserResponse → Except UiaRefusal UiaOk
  | .uiaCompleted completed registrationToken =>
    if (purpose.flows cfg.sso).any fun flow => flow.all fun stage => completed.contains stage then
      .ok ⟨registrationToken⟩
    else .error (.uiaa (purpose.flows cfg.sso) sessionId completed)
  | .uiaRequestMismatch =>
    .error (.api (.forbidden "Authentication session is for a different request"))
  | r => .error (.api (unexpected r))

end Check

/-! ## Runs -/

structure UiaCheck where
  purpose : Purpose
  requestId : String
  sessionId : String
  /-- When its stage was verified. -/
  ts : Nat
  verified : VerifiedStage
  deriving DecidableEq

structure UiaCall where
  check : UiaCheck
  result : Option (Except UiaRefusal UiaOk)
  deriving DecidableEq

/-- The check accepted the provider's stage. -/
def UiaCall.Accepted (call : UiaCall) : Prop :=
  call.check.verified.stage = ssoStage ∧ ∃ done, call.result = some (.ok done)

/-- A node that browsers and clients talk to, and the user shard. -/
structure ReauthWorld where
  store : User.Store
  runtime : SsoRuntime
  /-- The browsers that are back, and whose code is being exchanged. -/
  returning : List PendingAuth
  calls : List UiaCall
  /-- The sessions of the challenges, and the requests that these were for. -/
  issued : List (String × String)
  completions : List Completion

inductive ReauthAct where
  /-- A request without authentication is challenged with a new session. -/
  | challenge (requestId session : String)
  /-- A browser opens the page of the fallback or of a login. -/
  | fallback (session idp : Option String) (state nonce : String) (codeVerifier : Option String) (now : Nat)
  | redirect (url idp : Option String) (state nonce : String) (codeVerifier : Option String) (now : Nat)
  /-- A browser comes back, refused or with a code. -/
  | callback (state : String) (refused : Bool) (now : Nat)
  /-- The code was exchanged for an identity, or not. -/
  | exchanged (i : Nat) (identity : Except ApiError VerifiedIdentity)
  /-- A request with authentication; `generated` is its session where it names none. -/
  | verify (purpose : Purpose) (requestId : String) (auth : AuthData) (generated : String) (now : Nat)
  /-- The shard notes the verified stage. -/
  | complete (i now : Nat)
  /-- A command that no check proposed. -/
  | command (cmd : UserCommand)
  | migrate (target : Nat)

def uiaSessionTtlMs : Nat := 15 * 60 * 1000

namespace ReauthWorld

def empty : ReauthWorld := ⟨.empty, ⟨∅, ∅⟩, [], [], [], []⟩

def send (w : ReauthWorld) (sso : Bool) (to' : Except ApiError (Option (OidcProvider × PendingKind)))
    (state nonce : String) (codeVerifier : Option String) (now : Nat) : ReauthWorld :=
  match to' with
  | .ok (some (p, kind)) =>
    if sso then { w with runtime := (w.runtime.begin state ⟨p.idpId, nonce, codeVerifier, kind, now⟩).1 }
    else w
  | _ => w

/-- A completed fallback leaves a mark, for the account that the identity is linked to. -/
def finish (w : ReauthWorld) (cfg : SsoConfig) (e : User.Store) (p : PendingAuth)
    (identity : VerifiedIdentity) : ReauthWorld :=
  match cfg.oidcProvider p.idpId, p.kind with
  | some provider, .uiaFallback sessionId =>
    match e.externalId[(provider.authProviderKey, identity.subject)]? with
    | none => w
    | some owner =>
      { w with
        runtime := w.runtime.markUiaDone sessionId ⟨owner, w.completions.length, p.createdMs⟩
        completions := w.completions ++ [⟨sessionId, owner, p.createdMs⟩] }
  | _, _ => w

section Step

variable (cfg : SsoConfig) (verifyPassword : String → String → Bool) (hash : String → User.Hash)
  (serde : SerdeJson)

/-- One step, in a batch of the shard that began in `e`. -/
def step (e w : ReauthWorld) : ReauthAct → Except StoreError (ReauthWorld × Unit)
  | .challenge requestId session => .ok ({ w with issued := w.issued ++ [(session, requestId)] }, ())
  | .fallback session idp state nonce codeVerifier now =>
    .ok (w.send cfg.sso (cfg.ssoFallbackWeb session idp) state nonce codeVerifier now, ())
  | .redirect url idp state nonce codeVerifier now =>
    .ok (w.send cfg.sso (cfg.ssoRedirect url idp) state nonce codeVerifier now, ())
  | .callback state refused now =>
    let (runtime, pending) := w.runtime.take state now
    .ok ({ w with
      runtime := runtime
      returning := w.returning ++ if refused then [] else pending.toList }, ())
  | .exchanged i identity =>
    match w.returning[i]?, identity with
    | some p, .ok identity => .ok ({ w with returning := w.returning.eraseIdx i }.finish cfg e.store p identity, ())
    | _, _ => .ok ({ w with returning := w.returning.eraseIdx i }, ())
  | .verify purpose requestId auth generated now =>
    let sessionId := auth.session.getD generated
    match verifyStage cfg verifyPassword e.store w.runtime purpose auth.kind sessionId now with
    | (runtime, .error _) => .ok ({ w with runtime := runtime }, ())
    | (runtime, .ok verified) =>
      .ok ({ w with
        runtime := runtime
        calls := w.calls ++ [⟨⟨purpose, requestId, sessionId, now, verified⟩, none⟩] }, ())
  | .complete i now =>
    match w.calls[i]? with
    | some ⟨c, none⟩ => do
      let (store, r) ← apply serde e.store w.store (.completeUiaStage c.sessionId (hash c.requestId)
        c.verified.stage c.verified.token now (now - uiaSessionTtlMs))
      return ({ w with
        store := store
        calls := w.calls.set i ⟨c, some (completed cfg c.purpose c.sessionId r)⟩ }, ())
    | _ => .ok (w, ())
  | .command cmd => do
    let (store, _) ← apply serde e.store w.store cmd
    return ({ w with store := store }, ())
  | .migrate target => do
    return ({ w with store := ← migrate e.store w.store target }, ())

end Step

end ReauthWorld

/-- The condition on a step: a request that would spend a mark names the session of a challenge for the
same request, and does so before the redirect would have expired. -/
def Asked (_ w : ReauthWorld) : ReauthAct → Prop
  | .verify (.reauth userId) requestId auth generated now =>
    auth.kind.asksSso = true → ∀ mark ∈ w.runtime.uiaDone[auth.session.getD generated]?,
      mark.userId = userId → (auth.session.getD generated, requestId) ∈ w.issued ∧
        now - mark.began < pendingTtlMs
  | _ => True

/-! ## What one step does to the marks -/

section Stage

variable {cfg : SsoConfig} {verifyPassword : String → String → Bool} {s : User.Store} {r : SsoRuntime}
  {purpose : Purpose} {kind : AuthKind} {sessionId : String} {now : Nat} {v : VerifiedStage}

theorem takeSsoStage_runtime {sso : Bool} : (takeSsoStage sso r purpose sessionId).1 = r ∨
    (takeSsoStage sso r purpose sessionId).1 = (r.takeUiaDone sessionId).1 := by
  unfold takeSsoStage SsoRuntime.takeUiaDone
  split
  · exact .inl rfl
  · split
    · exact .inl rfl
    · dsimp only
      split
      · rename_i absent
        exact .inr (Prod.mk.inj absent).1.symm
      · rename_i found
        obtain ⟨rfl, -⟩ := Prod.mk.inj found
        split
        · exact .inr rfl
        · exact .inr rfl

theorem takeSsoStage_ok {sso : Bool} (h : (takeSsoStage sso r purpose sessionId).2 = .ok (some v)) :
    ∃ mark, r.uiaDone[sessionId]? = some mark ∧ purpose = .reauth mark.userId ∧
      (takeSsoStage sso r purpose sessionId).1 = (r.takeUiaDone sessionId).1 ∧
      v = ⟨ssoStage, none, some mark.completion⟩ := by
  unfold takeSsoStage SsoRuntime.takeUiaDone at h ⊢
  split at h
  · cases h
  · rename_i expected
    split at h
    · cases h
    · rename_i enabled
      dsimp only at h ⊢
      cases found : r.uiaDone[sessionId]? with
      | none =>
        rw [found] at h
        cases h
      | some mark =>
        rw [found] at h
        dsimp only at h
        split at h
        · cases h
        · rename_i own
          obtain rfl := Option.some.inj (Except.ok.inj h)
          refine ⟨mark, rfl, by simpa using (not_not.1 own).symm, ?_, rfl⟩
          rw [if_neg enabled]
          dsimp only
          rw [if_neg own]

theorem verifyStage_runtime : (verifyStage cfg verifyPassword s r purpose kind sessionId now).1 = r ∨
    (verifyStage cfg verifyPassword s r purpose kind sessionId now).1 = (r.takeUiaDone sessionId).1 := by
  unfold verifyStage
  cases kind with
  | dummy => exact .inl rfl
  | fallbackAcknowledgement => exact takeSsoStage_runtime
  | other => exact takeSsoStage_runtime
  | registrationToken token =>
    refine .inl ?_
    dsimp only
    split
    · rfl
    · split <;> rfl
  | password identifier password =>
    refine .inl ?_
    dsimp only
    split
    · rfl
    · split
      · rfl
      · split <;> rfl

theorem verifyStage_ok (h : (verifyStage cfg verifyPassword s r purpose kind sessionId now).2 = .ok v) :
    (v.spent = none ∧ v.stage ≠ ssoStage) ∨
      (kind.asksSso = true ∧ ∃ mark, r.uiaDone[sessionId]? = some mark ∧ purpose = .reauth mark.userId ∧
        (verifyStage cfg verifyPassword s r purpose kind sessionId now).1 = (r.takeUiaDone sessionId).1 ∧
        v = ⟨ssoStage, none, some mark.completion⟩) := by
  unfold verifyStage at h ⊢
  cases kind with
  | dummy =>
    obtain rfl := Except.ok.inj h
    exact .inl ⟨rfl, by decide⟩
  | fallbackAcknowledgement =>
    cases taken : (takeSsoStage cfg.sso r purpose sessionId).2 with
    | error err =>
      simp only [taken] at h
      cases h
    | ok stage =>
      simp only [taken] at h
      obtain rfl := Except.ok.inj h
      cases stage with
      | none => exact .inl ⟨rfl, by decide⟩
      | some v => exact .inr ⟨rfl, takeSsoStage_ok taken⟩
  | other =>
    cases taken : (takeSsoStage cfg.sso r purpose sessionId).2 with
    | error err =>
      simp only [taken] at h
      cases h
    | ok stage =>
      simp only [taken] at h
      cases stage with
      | none => cases h
      | some v =>
        obtain rfl := Except.ok.inj h
        exact .inr ⟨rfl, takeSsoStage_ok taken⟩
  | registrationToken token =>
    dsimp only at h
    split at h
    · cases h
    · split at h
      · obtain rfl := Except.ok.inj h
        exact .inl ⟨rfl, show registrationTokenStage ≠ ssoStage by decide⟩
      · cases h
  | password identifier password =>
    dsimp only at h
    split at h
    · cases h
    · split at h
      · cases h
      · split at h
        · cases h
        · cases h
        · obtain rfl := Except.ok.inj h
          exact .inl ⟨rfl, by decide⟩

end Stage

section Run

variable {cfg : SsoConfig} {verifyPassword : String → String → Bool} {hash : String → User.Hash}
  {serde : SerdeJson} {e w w' : ReauthWorld} {c : UiaCheck}

/-- The check spent a completion that was left for it. -/
structure Spends (w : ReauthWorld) (c : UiaCheck) (k : Nat) : Prop where
  user : ∃ userId, c.purpose = .reauth userId ∧
    ∃ completion, w.completions[k]? = some completion ∧ completion.session = c.sessionId ∧
      completion.userId = userId ∧ c.ts - completion.began < pendingTtlMs
  issued : (c.sessionId, c.requestId) ∈ w.issued

structure MarksSpent (w : ReauthWorld) : Prop where
  marked : ∀ (sessionId : String) (mark : Mark), w.runtime.uiaDone[sessionId]? = some mark →
    w.completions[mark.completion]? = some ⟨sessionId, mark.userId, mark.began⟩
  unspent : ∀ (sessionId : String) (mark : Mark), w.runtime.uiaDone[sessionId]? = some mark →
    ∀ call ∈ w.calls, call.check.verified.spent ≠ some mark.completion
  spends : ∀ call ∈ w.calls, ∀ k, call.check.verified.spent = some k → Spends w call.check k
  once : ∀ (i j : Nat) (call call' : UiaCall) (k : Nat), w.calls[i]? = some call → w.calls[j]? = some call' →
    call.check.verified.spent = some k → call'.check.verified.spent = some k → i = j
  sso : ∀ call ∈ w.calls, call.check.verified.stage = ssoStage → ∃ k, call.check.verified.spent = some k

theorem MarksSpent.empty : MarksSpent .empty where
  marked sessionId mark found := by simp [ReauthWorld.empty] at found
  unspent sessionId mark found := by simp [ReauthWorld.empty] at found
  spends call mem := absurd mem List.not_mem_nil
  once i j call call' k found := by simp [ReauthWorld.empty] at found
  sso call mem := absurd mem List.not_mem_nil

theorem MarksSpent.frame (h : MarksSpent w) (uiaDone : w'.runtime.uiaDone = w.runtime.uiaDone)
    (calls : w'.calls = w.calls) (completions : w'.completions = w.completions)
    (issued : ∀ i ∈ w.issued, i ∈ w'.issued) : MarksSpent w' where
  marked sessionId mark found := by
    rw [completions]
    exact h.marked sessionId mark (uiaDone ▸ found)
  unspent sessionId mark found call mem :=
    h.unspent sessionId mark (uiaDone ▸ found) call (calls ▸ mem)
  spends call mem k spent := by
    obtain ⟨user, own⟩ := h.spends call (calls ▸ mem) k spent
    exact ⟨completions ▸ user, issued _ own⟩
  once i j call call' k found found' := h.once i j call call' k (calls ▸ found) (calls ▸ found')
  sso call mem := h.sso call (calls ▸ mem)

theorem send_frame {sso : Bool} {to' : Except ApiError (Option (OidcProvider × PendingKind))}
    {state nonce : String} {codeVerifier : Option String} {now : Nat} (h : MarksSpent w) :
    MarksSpent (w.send sso to' state nonce codeVerifier now) := by
  unfold ReauthWorld.send
  split
  · split
    · refine h.frame ?_ rfl rfl fun _ => id
      unfold SsoRuntime.begin
      dsimp only
      split <;> rfl
    · exact h
  · exact h

theorem MarksSpent.finish (h : MarksSpent w) {s : User.Store} {p : PendingAuth} {identity : VerifiedIdentity} :
    MarksSpent (w.finish cfg s p identity) := by
  unfold ReauthWorld.finish
  split
  · rename_i provider sessionId _ _
    split
    · exact h
    rename_i owner linked
    have rows : ∀ (sessionId' : String) (mark : Mark),
        (w.runtime.uiaDone.insert sessionId ⟨owner, w.completions.length, p.createdMs⟩)[sessionId']? =
          some mark → (sessionId' = sessionId ∧ mark = ⟨owner, w.completions.length, p.createdMs⟩) ∨
            w.runtime.uiaDone[sessionId']? = some mark := by
      intro sessionId' mark found
      rw [OrdMap.getElem?_insert'] at found
      split at found
      · rename_i own
        exact .inl ⟨own, (Option.some.inj found).symm⟩
      · exact .inr found
    have kept : ∀ (k : Nat) (c : Completion), w.completions[k]? = some c →
        (w.completions ++ [⟨sessionId, owner, p.createdMs⟩])[k]? = some c := by
      intro k c found
      rw [List.getElem?_append_left (List.getElem?_eq_some_iff.1 found).1]
      exact found
    refine ⟨?_, ?_, ?_, h.once, h.sso⟩
    · intro sessionId' mark found
      obtain ⟨rfl, rfl⟩ | before := rows sessionId' mark found
      · exact List.getElem?_concat_length
      · exact kept _ _ (h.marked sessionId' mark before)
    · intro sessionId' mark found call mem spent
      obtain ⟨rfl, rfl⟩ | before := rows sessionId' mark found
      · obtain ⟨⟨userId, -, c, stored, -⟩, -⟩ := h.spends call mem _ spent
        exact absurd (List.getElem?_eq_some_iff.1 stored).1 (lt_irrefl _)
      · exact h.unspent sessionId' mark before call mem spent
    · intro call mem k spent
      obtain ⟨⟨userId, purpose, c, stored, own⟩, issued⟩ := h.spends call mem k spent
      exact ⟨⟨userId, purpose, c, kept k c stored, own⟩, issued⟩
  · exact h

theorem MarksSpent.taken (h : MarksSpent w) (sessionId : String) :
    MarksSpent { w with runtime := (w.runtime.takeUiaDone sessionId).1 } := by
  have rows : ∀ (sessionId' : String) (mark : Mark),
      (w.runtime.uiaDone.erase sessionId)[sessionId']? = some mark →
        w.runtime.uiaDone[sessionId']? = some mark := by
    intro sessionId' mark found
    rw [OrdMap.getElem?_erase'] at found
    split at found
    · cases found
    · exact found
  exact ⟨fun s m found => h.marked s m (rows s m found), fun s m found => h.unspent s m (rows s m found),
    fun call mem k spent => ⟨(h.spends call mem k spent).user, (h.spends call mem k spent).issued⟩,
    h.once, h.sso⟩

theorem MarksSpent.plain (h : MarksSpent w) (spent : c.verified.spent = none)
    (stage : c.verified.stage ≠ ssoStage) : MarksSpent { w with calls := w.calls ++ [⟨c, none⟩] } where
  marked := h.marked
  unspent sessionId mark found call mem := by
    obtain old | new := List.mem_append.1 mem
    · exact h.unspent sessionId mark found call old
    · obtain rfl := List.mem_singleton.1 new
      simp [spent]
  spends call mem k spends := by
    obtain old | new := List.mem_append.1 mem
    · exact ⟨(h.spends call old k spends).user, (h.spends call old k spends).issued⟩
    · obtain rfl := List.mem_singleton.1 new
      rw [spent] at spends
      cases spends
  once i j call call' k found found' spends spends' := by
    have old : ∀ (i : Nat) (call : UiaCall), (w.calls ++ [⟨c, none⟩])[i]? = some call →
        call.check.verified.spent = some k → w.calls[i]? = some call := by
      intro i call found spends
      rw [List.getElem?_append] at found
      split at found
      · exact found
      · obtain rfl := List.mem_singleton.1 (List.mem_of_getElem? found)
        rw [spent] at spends
        cases spends
    exact h.once i j call call' k (old i call found spends) (old j call' found' spends') spends spends'
  sso call mem own := by
    obtain old | new := List.mem_append.1 mem
    · exact h.sso call old own
    · obtain rfl := List.mem_singleton.1 new
      exact absurd own stage

theorem MarksSpent.spend (h : MarksSpent w) {mark : Mark}
    (found : w.runtime.uiaDone[c.sessionId]? = some mark) (purpose : c.purpose = .reauth mark.userId)
    (verified : c.verified = ⟨ssoStage, none, some mark.completion⟩)
    (issued : (c.sessionId, c.requestId) ∈ w.issued) (alive : c.ts - mark.began < pendingTtlMs) :
    MarksSpent { w with
      runtime := (w.runtime.takeUiaDone c.sessionId).1
      calls := w.calls ++ [⟨c, none⟩] } := by
  have gone := h.taken c.sessionId
  have spent : c.verified.spent = some mark.completion := by rw [verified]
  refine ⟨gone.marked, ?_, ?_, ?_, ?_⟩
  · intro sessionId mark' found' call mem
    obtain old | new := List.mem_append.1 mem
    · exact gone.unspent sessionId mark' found' call old
    obtain rfl := List.mem_singleton.1 new
    intro spends
    -- both marks would be of one completion, which is of one session
    have same := h.marked c.sessionId mark found
    rw [some_unique spent spends, gone.marked sessionId mark' found'] at same
    obtain ⟨rfl, -⟩ := Completion.mk.inj (Option.some.inj same)
    have erased : (w.runtime.uiaDone.erase c.sessionId)[c.sessionId]? = some mark' := found'
    rw [OrdMap.getElem?_erase', if_pos rfl] at erased
    cases erased
  · intro call mem k spends
    obtain old | new := List.mem_append.1 mem
    · exact ⟨(h.spends call old k spends).user, (h.spends call old k spends).issued⟩
    obtain rfl := List.mem_singleton.1 new
    obtain rfl := some_unique spent spends
    exact ⟨⟨mark.userId, purpose, _, h.marked c.sessionId mark found, rfl, rfl, alive⟩, issued⟩
  · have own : ∀ (i : Nat) (call : UiaCall), (w.calls ++ [⟨c, none⟩])[i]? = some call →
        w.calls[i]? = some call ∨ (i = w.calls.length ∧ call = ⟨c, none⟩) := by
      intro i call found
      rw [List.getElem?_append] at found
      split at found
      · exact .inl found
      · obtain ⟨bound, rfl⟩ := List.getElem?_eq_some_iff.1 found
        rw [List.length_singleton] at bound
        refine .inr ⟨by omega, List.mem_singleton.1 (List.getElem_mem _)⟩
    intro i j call call' k found₁ found₂ spends spends'
    have other : ∀ call ∈ w.calls, call.check.verified.spent ≠ some mark.completion :=
      h.unspent c.sessionId mark found
    obtain old | ⟨rfl, rfl⟩ := own i call found₁
    · obtain old' | ⟨rfl, rfl⟩ := own j call' found₂
      · exact h.once i j call call' k old old' spends spends'
      · obtain rfl := some_unique spent spends'
        exact absurd spends (other call (List.mem_of_getElem? old))
    · obtain rfl := some_unique spent spends
      obtain old' | ⟨rfl, rfl⟩ := own j call' found₂
      · exact absurd spends' (other call' (List.mem_of_getElem? old'))
      · rfl
  · intro call mem stage
    obtain old | new := List.mem_append.1 mem
    · exact h.sso call old stage
    · obtain rfl := List.mem_singleton.1 new
      exact ⟨_, spent⟩

theorem MarksSpent.noted (h : MarksSpent w) {i : Nat} {store : User.Store}
    {old : Option (Except UiaRefusal UiaOk)} (found : w.calls[i]? = some ⟨c, old⟩)
    (result : Option (Except UiaRefusal UiaOk)) :
    MarksSpent { w with store := store, calls := w.calls.set i ⟨c, result⟩ } := by
  have before : ∀ (j : Nat) (call : UiaCall), (w.calls.set i ⟨c, result⟩)[j]? = some call →
      ∃ call', w.calls[j]? = some call' ∧ call'.check = call.check := by
    intro j call there
    rw [List.getElem?_set] at there
    split at there
    · rename_i same
      split at there
      · obtain rfl := Option.some.inj there
        subst same
        exact ⟨_, found, rfl⟩
      · cases there
    · exact ⟨call, there, rfl⟩
  have mem : ∀ call ∈ w.calls.set i ⟨c, result⟩, ∃ call' ∈ w.calls, call'.check = call.check := by
    intro call mem
    obtain ⟨j, there⟩ := List.getElem?_of_mem mem
    obtain ⟨call', there, same⟩ := before j call there
    exact ⟨call', List.mem_of_getElem? there, same⟩
  refine ⟨h.marked, ?_, ?_, ?_, ?_⟩
  · intro sessionId mark found call there
    obtain ⟨call', there, same⟩ := mem call there
    exact same ▸ h.unspent sessionId mark found call' there
  · intro call there k spends
    obtain ⟨call', there, same⟩ := mem call there
    rw [← same] at spends ⊢
    exact ⟨(h.spends call' there k spends).user, (h.spends call' there k spends).issued⟩
  · intro j j' call call' k there there' spends spends'
    obtain ⟨old, there, same⟩ := before j call there
    obtain ⟨old', there', same'⟩ := before j' call' there'
    exact h.once j j' old old' k there there' (same ▸ spends) (same' ▸ spends')
  · intro call there stage
    obtain ⟨call', there, same⟩ := mem call there
    rw [← same] at stage ⊢
    exact h.sso call' there stage

theorem MarksSpent.step (h : MarksSpent w) {act : ReauthAct} (asked : Asked e w act)
    (stepped : ReauthWorld.step cfg verifyPassword hash serde e w act = .ok (w', ())) : MarksSpent w' := by
  cases act with
  | challenge requestId session =>
    obtain ⟨rfl, -⟩ := ok_pair stepped
    exact h.frame rfl rfl rfl fun i mem => List.mem_append_left _ mem
  | fallback session idp state nonce codeVerifier now =>
    obtain ⟨rfl, -⟩ := ok_pair stepped
    exact send_frame h
  | redirect url idp state nonce codeVerifier now =>
    obtain ⟨rfl, -⟩ := ok_pair stepped
    exact send_frame h
  | callback state refused now =>
    obtain ⟨rfl, -⟩ := ok_pair stepped
    exact h.frame rfl rfl rfl fun _ => id
  | exchanged i identity =>
    simp only [ReauthWorld.step] at stepped
    split at stepped
    · obtain ⟨rfl, -⟩ := ok_pair stepped
      have framed : MarksSpent { w with returning := w.returning.eraseIdx i } :=
        h.frame rfl rfl rfl fun _ => id
      exact framed.finish
    · obtain ⟨rfl, -⟩ := ok_pair stepped
      exact h.frame rfl rfl rfl fun _ => id
  | verify purpose requestId auth generated now =>
    simp only [ReauthWorld.step] at stepped
    have same : (verifyStage cfg verifyPassword e.store w.runtime purpose auth.kind
        (auth.session.getD generated) now).1 = w.runtime ∨ _ := verifyStage_runtime
    split at stepped
    · rename_i runtime err refused
      obtain ⟨rfl, -⟩ := ok_pair stepped
      rw [refused] at same
      obtain rfl | rfl := same
      · exact h
      · exact h.taken _
    · rename_i runtime v passed
      obtain ⟨rfl, -⟩ := ok_pair stepped
      have ok : (verifyStage cfg verifyPassword e.store w.runtime purpose auth.kind
        (auth.session.getD generated) now).2 = .ok v := by rw [passed]
      obtain ⟨spent, stage⟩ | ⟨asks, mark, found, rfl, gone, rfl⟩ := verifyStage_ok ok
      · rw [passed] at same
        obtain rfl | rfl := same
        · exact MarksSpent.plain h spent stage
        · exact MarksSpent.plain (h.taken _) spent stage
      · rw [passed] at gone
        obtain rfl : runtime = _ := gone
        obtain ⟨issued, alive⟩ := asked asks mark found rfl
        exact MarksSpent.spend (c := ⟨.reauth mark.userId, requestId, auth.session.getD generated, now,
          ⟨ssoStage, none, some mark.completion⟩⟩) h found rfl rfl issued alive
  | complete i now =>
    simp only [ReauthWorld.step] at stepped
    split at stepped
    · rename_i c found
      obtain ⟨⟨store, r⟩, -, stepped⟩ := bind_eq_ok.1 stepped
      obtain ⟨rfl, -⟩ := ok_pair stepped
      exact h.noted found _
    · obtain ⟨rfl, -⟩ := ok_pair stepped
      exact h
  | command cmd =>
    obtain ⟨⟨store, r⟩, -, stepped⟩ := bind_eq_ok.1 stepped
    obtain ⟨rfl, -⟩ := ok_pair stepped
    exact h.frame rfl rfl rfl fun _ => id
  | migrate target =>
    obtain ⟨store, -, stepped⟩ := bind_eq_ok.1 stepped
    obtain ⟨rfl, -⟩ := ok_pair stepped
    exact h.frame rfl rfl rfl fun _ => id

/-- **A re-authentication is spent where it was asked for.** In a run whose steps all meet the condition,
a check that accepts the provider's stage is of a user whose linked identity completed a fallback for the
session of a challenge for the same request, within the lifetime of its redirect, and no other check
spends that completion. -/
theorem reauth_spent_once
    (run : Batch.Runs (ReauthWorld.step cfg verifyPassword hash serde) Asked .empty w) {i : Nat} {call : UiaCall}
    (found : w.calls[i]? = some call) (accepted : call.Accepted) :
    ∃ k, Spends w call.check k ∧ ∀ (j : Nat) (call' : UiaCall), w.calls[j]? = some call' →
      call'.check.verified.spent = some k → j = i := by
  have h : MarksSpent w := run.invariant (I := fun _ w => MarksSpent w) (fun _ _ h => h)
    (fun _ _ _ _ _ h asked stepped => h.step asked stepped) .empty
  have mem := List.mem_of_getElem? found
  obtain ⟨k, spent⟩ := h.sso call mem accepted.1
  exact ⟨k, h.spends call mem k spent,
    fun j call' found' spent' => h.once j i call' call k found' found spent' spent⟩

instance Asked.decidable (e w : ReauthWorld) (act : ReauthAct) : Decidable (Asked e w act) := by
  unfold Asked
  split <;> infer_instance

def sampleCheck (requestId : String) : UiaCheck :=
  ⟨.reauth "@a:x", requestId, "S", 2, ⟨ssoStage, none, some 0⟩⟩

/-- A user whose identity is linked is challenged for the request `r`, completes the fallback, and sends
a request. -/
def sampleReauth (check : ReauthWorld → ReauthAct → Bool) (requestId : String) : Option ReauthWorld :=
  Batch.applyChecked (ReauthWorld.step ⟨true, [.sample]⟩ (fun password hash => decide (password = hash))
      (fun request => BitVec.ofNat 256 request.length) .sample) check .empty
    [.command (.registerWithToken "@a:x" none 0 none none), .command (.linkExternalId "@a:x" "oidc-p" "s"),
      .challenge "r" "S", .fallback (some "S") none "st" "n" none 0, .callback "st" false 1,
      .exchanged 0 (.ok ⟨"s", none, none⟩),
      .verify (.reauth "@a:x") requestId ⟨some "S", .fallbackAcknowledgement⟩ "g" 2, .complete 0 3]

theorem reauth_spent_once_sample : ∃ (w : ReauthWorld) (call : UiaCall),
    Batch.Runs (ReauthWorld.step ⟨true, [.sample]⟩ (fun password hash => decide (password = hash))
      (fun request => BitVec.ofNat 256 request.length) .sample) Asked .empty w ∧
    w.calls[0]? = some call ∧ call.Accepted ∧ call.check = sampleCheck "r" ∧
    ∃ k, Spends w call.check k ∧ ∀ (j : Nat) (call' : UiaCall), w.calls[j]? = some call' →
      call'.check.verified.spent = some k → j = 0 := by
  have h : (sampleReauth (fun w act => decide (Asked w w act)) "r").any (fun w : ReauthWorld =>
      decide (w.calls[0]? = some ⟨sampleCheck "r", some (.ok ⟨none⟩)⟩)) = true := by
    decide +kernel
  obtain ⟨w, ran, h⟩ := (Option.any_eq_true _ _).1 h
  have found := of_decide_eq_true h
  have run := Batch.Runs.of_applyChecked (P := Asked) (fun _ _ checked => of_decide_eq_true checked) ran
  have accepted : UiaCall.Accepted ⟨sampleCheck "r", some (.ok ⟨none⟩)⟩ := ⟨rfl, _, rfl⟩
  exact ⟨w, _, run, found, accepted, rfl, reauth_spent_once run found accepted⟩

/-- The mark of a challenge for one request is spent on another. -/
theorem reauth_transplanted : ∃ (w : ReauthWorld) (call : UiaCall),
    Batch.Runs (ReauthWorld.step ⟨true, [.sample]⟩ (fun password hash => decide (password = hash))
      (fun request => BitVec.ofNat 256 request.length) .sample) (fun _ _ _ => True) .empty w ∧
    w.calls[0]? = some call ∧ call.Accepted ∧ call.check = sampleCheck "delete" ∧
    (call.check.sessionId, call.check.requestId) ∉ w.issued := by
  have h : (sampleReauth (fun _ _ => true) "delete").any (fun w : ReauthWorld =>
      decide (w.calls[0]? = some ⟨sampleCheck "delete", some (.ok ⟨none⟩)⟩) &&
        decide (w.issued = [("S", "r")])) = true := by
    decide +kernel
  obtain ⟨w, ran, h⟩ := (Option.any_eq_true _ _).1 h
  rw [Bool.and_eq_true, decide_eq_true_eq, decide_eq_true_eq] at h
  obtain ⟨found, issued⟩ := h
  refine ⟨w, _, .of_applyChecked (fun _ _ _ => trivial) ran, found, ⟨rfl, _, rfl⟩, rfl, ?_⟩
  rw [issued]
  decide

end Run

end Saltator.Client
