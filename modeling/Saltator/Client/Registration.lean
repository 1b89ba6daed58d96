import Saltator.Client.Sso
import Saltator.User.PasswordLogin
import Saltator.User.Shapes

/-!
# Reserved names

The account that speaks for the server, and the names that application services claim for themselves.
There are three ways to an account: a registration, one by an application service, and the first login
through an identity provider. Each looks for itself who may have the name.
-/

namespace Saltator.Client

open Saltator.Outcome
open User (UserCommand UserResponse StoreError SerdeJson SessionCmd newSession)
open User.Machine (apply)

/-! ## Application services -/

/-- A pattern of user ids. -/
structure Namespace where
  exclusive : Bool
  isMatch : String → Bool

def nsMatches (list : List Namespace) (s : String) : Option Namespace := list.find? fun n => n.isMatch s

structure AppServiceRegistration where
  id : String
  asToken : String
  senderLocalpart : String
  users : List Namespace

namespace AppServiceRegistration

variable (reg : AppServiceRegistration) (userId serverName : String)

def senderUser : String := "@" ++ reg.senderLocalpart ++ ":" ++ serverName

def isInterestedInUser : Bool :=
  decide (reg.senderUser serverName = userId) || (nsMatches reg.users userId).isSome

def isExclusiveUser : Bool :=
  decide (reg.senderUser serverName = userId) || (nsMatches reg.users userId).any Namespace.exclusive

/-- The user id is the sender of the service, or one that an exclusive pattern of it matches. -/
def Holds : Prop :=
  reg.senderUser serverName = userId ∨ ∃ n ∈ reg.users, n.exclusive = true ∧ n.isMatch userId = true

end AppServiceRegistration

/-- All application services, in the order of their files. -/
structure AppServices where
  services : List AppServiceRegistration

namespace AppServices

variable (all : AppServices)

def byToken (asToken : String) : Option AppServiceRegistration :=
  all.services.find? fun a => a.asToken = asToken

def userClaimableByOthers (userId serverName : String) : Bool :=
  !all.services.any fun a => a.isExclusiveUser userId serverName

end AppServices

/-! ## Registration -/

/-- What decides who may have a name. -/
structure RegistrationConfig where
  names : Naming
  appservices : AppServices
  serverNoticesLocalpart : Option String
  registrationEnabled : Bool
  registrationRequiresToken : Bool

/-- A request of the registration endpoint. -/
structure RegisterReq where
  guest : Bool
  /-- The login type of application services. -/
  appservice : Bool
  username : Option String
  password : Option String
  deviceId : Option String
  initialDeviceDisplayName : Option String
  refreshToken : Bool
  inhibitLogin : Bool
  deriving DecidableEq

structure RegisterRequest where
  localpart : String
  password : Option String
  deviceId : Option String
  displayName : Option String
  wantRefresh : Bool
  inhibitLogin : Bool
  registrationToken : Option String
  deriving DecidableEq

/-- What a registration is answered from elsewhere, and what is generated for it. -/
structure RegisterEnv where
  /-- The interactive authentication, by whether a token is required and what it is for. It yields the
  registration token that it accepted. -/
  uia : Bool → String → Except ApiError (Option String)
  /-- Where a token is required, no flow is complete without one. -/
  uia_token : ∀ requestId token, uia true requestId = .ok token → token.isSome
  rateLimit : Except ApiError Unit
  hashPassword : String → Except ApiError String
  deviceId : String
  tokenHash : User.Hash
  refreshHash : User.Hash
  ts : Nat

def missingToken : ApiError := ⟨401, "M_MISSING_TOKEN", "Missing access token"⟩
def unknownToken : ApiError := ⟨401, "M_UNKNOWN_TOKEN", "Unrecognised access token"⟩
def userInUse (message : String) : ApiError := ⟨400, "M_USER_IN_USE", message⟩

/-- The refusal of a name that is another's, or is not the caller's. -/
def exclusive (message : String) : ApiError := ⟨400, "M_EXCLUSIVE", message⟩

/-- Why an account was not made. -/
def registerError : UserResponse → ApiError
  | .userExists => userInUse "username already taken"
  | .invalidToken => .forbidden "unknown, expired, or exhausted registration token"
  | r => unexpected r

def propose (serde : SerdeJson) (e s : User.Store) (cmd : UserCommand) :
    Except ApiError (User.Store × UserResponse) :=
  (apply serde e s cmd).mapError fun err => .internal (reprStr err)

namespace RegistrationConfig

variable (cfg : RegistrationConfig) (serde : SerdeJson) (env : RegisterEnv)

/-- Both sides are names that stand for the same account. -/
def isReservedNotices (candidate : String) : Bool :=
  match cfg.serverNoticesLocalpart with
  | none => false
  | some reserved =>
    match cfg.names.userIdFor reserved, cfg.names.userIdFor candidate with
    | .ok reserved, .ok candidate => decide (reserved = candidate)
    | _, _ => false

def isExclusiveName (localpart : String) : Bool :=
  match cfg.names.userIdFor localpart with
  | .ok userId => !cfg.appservices.userClaimableByOthers userId cfg.names.serverName
  | .error _ => false

def session (req : RegisterRequest) (userId : String) : Option SessionCmd :=
  if req.inhibitLogin then none
  else some (newSession userId (req.deviceId.getD env.deviceId) req.displayName env.tokenHash
    (if req.wantRefresh then some env.refreshHash else none) env.ts)

def registerWithToken (req : RegisterRequest) (e s : User.Store) :
    Except ApiError (User.Store × String × Option SessionCmd) := do
  let userId ← cfg.names.userIdFor req.localpart
  let passwordHash ← req.password.mapM env.hashPassword
  let session := session env req userId
  let (s, r) ← propose serde e s
    (.registerWithToken userId passwordHash env.ts session req.registrationToken)
  if r ≠ .ok then .error (registerError r)
  else
    let (s, r) ← propose serde e s (.setProfile userId (some (some (localpartOf userId))) none)
    if r ≠ .ok then .error (unexpected r) else return (s, userId, session)

def requireAppservice (token : Option String) : Except ApiError AppServiceRegistration :=
  match token with
  | none => .error missingToken
  | some token =>
    match cfg.appservices.byToken token with
    | some reg => .ok reg
    | none => .error unknownToken

def accountRequest (req : RegisterReq) (localpart : String) (password registrationToken : Option String) :
    RegisterRequest where
  localpart := localpart
  password := password
  deviceId := req.deviceId
  displayName := req.initialDeviceDisplayName
  wantRefresh := req.refreshToken
  inhibitLogin := req.inhibitLogin
  registrationToken := registrationToken

def registerAppservice (reg : AppServiceRegistration) (req : RegisterReq) (e s : User.Store) :
    Except ApiError (User.Store × String × Option SessionCmd) :=
  match req.username with
  | none => .error ⟨400, "M_MISSING_PARAM", "username is required for appservice registration"⟩
  | some localpart =>
    if cfg.isReservedNotices localpart then .error (userInUse "Desired user ID is already taken")
    else do
      let userId ← cfg.names.userIdFor localpart
      if !reg.isInterestedInUser userId cfg.names.serverName then
        .error (exclusive "username is not covered by this application service's namespaces")
      else cfg.registerWithToken serde env (accountRequest req localpart none none) e s

/-- The endpoint. The name is `randomLocalpart` where the request has none. -/
def register (token : Option String) (req : RegisterReq) (randomLocalpart : String) (e s : User.Store) :
    Except ApiError (User.Store × String × Option SessionCmd) :=
  if req.guest then .error ⟨403, "M_GUEST_ACCESS_FORBIDDEN", "Guest access is not implemented"⟩
  else if req.appservice then do
    let reg ← cfg.requireAppservice token
    cfg.registerAppservice serde env reg req e s
  else if !cfg.registrationEnabled then .error (.forbidden "Registration is disabled")
  else
    let localpart := req.username.getD randomLocalpart
    if cfg.isReservedNotices localpart then .error (userInUse "Desired user ID is already taken")
    else if cfg.isExclusiveName localpart then
      .error (exclusive "This user ID is reserved by an application service")
    else do
      let registrationToken ← env.uia cfg.registrationRequiresToken ("register:" ++ localpart)
      env.rateLimit
      cfg.registerWithToken serde env (accountRequest req localpart req.password registrationToken) e s

end RegistrationConfig

/-! ## Who is given which name -/

/-- A way to an account. -/
inductive Way where
  | register (token : Option String) (req : RegisterReq) (randomLocalpart : String)
  | sso (provider : OidcProvider) (identity : VerifiedIdentity)

namespace RegistrationConfig

variable (cfg : RegistrationConfig) (serde : SerdeJson)

def asker : Way → Option AppServiceRegistration
  | .register token .. => token.bind cfg.appservices.byToken
  | .sso .. => none

/-- The user id is not for `asker`. -/
def Reserved (asker : Option AppServiceRegistration) (userId : String) : Prop :=
  (∃ localpart, cfg.serverNoticesLocalpart = some localpart ∧ cfg.names.userIdFor localpart = .ok userId) ∨
  ∃ a ∈ cfg.appservices.services, asker.map AppServiceRegistration.id ≠ some a.id ∧
    a.Holds userId cfg.names.serverName

def Gives (way : Way) (userId : String) : Prop :=
  ∃ w, Batch.Runs (SsoWorld.step cfg.names serde) (fun _ _ _ => True) .empty w ∧
    match way with
    | .register token req randomLocalpart => ∃ env t session,
      cfg.register serde env token req randomLocalpart w.store w.store = .ok (t, userId, session)
    | .sso provider identity => ∃ c ∈ w.calls, c.provider = provider ∧ c.identity = identity ∧
      c.given = some userId

def Guarded : Way → Prop
  | .register token req randomLocalpart =>
    req.guest = true ∨
      if req.appservice then
        -- a service is asked for its own claim to the name only
        ∀ reg name userId, token.bind cfg.appservices.byToken = some reg → req.username = some name →
          cfg.names.userIdFor name = .ok userId → cfg.isReservedNotices name = false →
            reg.isInterestedInUser userId cfg.names.serverName = true →
              ∀ a ∈ cfg.appservices.services, some reg.id ≠ some a.id →
                ¬ a.Holds userId cfg.names.serverName
      else
        cfg.registrationEnabled = false ∨
          -- the first pattern of a service speaks for all
          ∀ userId, cfg.names.userIdFor (req.username.getD randomLocalpart) = .ok userId →
            cfg.isReservedNotices (req.username.getD randomLocalpart) = false →
              cfg.appservices.userClaimableByOthers userId cfg.names.serverName = true →
                ∀ a ∈ cfg.appservices.services,
                  (token.bind cfg.appservices.byToken).map AppServiceRegistration.id ≠ some a.id →
                    ∀ n ∈ a.users, n.exclusive = true → n.isMatch userId = false
  | .sso provider identity =>
    (provider.enableRegistration = false ∧ provider.allowExistingUsers = false) ∨
      ∀ raw, identity.localpart = some raw → cfg.names.sanitizeLocalpart raw ≠ "" →
        cfg.names.isUserId (cfg.names.userId (cfg.names.sanitizeLocalpart raw)) = true →
          ¬ cfg.Reserved none (cfg.names.userId (cfg.names.sanitizeLocalpart raw))

end RegistrationConfig

section Registration

variable {cfg : RegistrationConfig} {serde : SerdeJson} {env : RegisterEnv} {e s t : User.Store}
  {token : Option String} {req : RegisterReq} {randomLocalpart name userId : String}
  {session : Option SessionCmd}

theorem RegistrationConfig.isReservedNotices_iff (known : cfg.names.userIdFor name = .ok userId) :
    cfg.isReservedNotices name = true ↔ ∃ localpart, cfg.serverNoticesLocalpart = some localpart ∧
      cfg.names.userIdFor localpart = .ok userId := by
  unfold RegistrationConfig.isReservedNotices
  rw [known]
  cases cfg.serverNoticesLocalpart with
  | none => simp
  | some localpart => cases reserved : cfg.names.userIdFor localpart <;> simp [reserved]

theorem AppServices.holds_iff {all : AppServices} {serverName : String}
    (claimable : all.userClaimableByOthers userId serverName = true) {a : AppServiceRegistration}
    (mem : a ∈ all.services) :
    a.Holds userId serverName ↔ ∃ n ∈ a.users, n.exclusive = true ∧ n.isMatch userId = true := by
  have free : a.isExclusiveUser userId serverName = false := by
    simpa using List.any_eq_false.1 (by simpa [AppServices.userClaimableByOthers] using claimable) a mem
  have other : a.senderUser serverName ≠ userId := by
    intro same
    simp [AppServiceRegistration.isExclusiveUser, same] at free
  exact or_iff_right other

theorem RegistrationConfig.registerWithToken_userId {r : RegisterRequest}
    (done : cfg.registerWithToken serde env r e s = .ok (t, userId, session)) :
    cfg.names.userIdFor r.localpart = .ok userId := by
  obtain ⟨user, known, done⟩ := bind_eq_ok.1 done
  obtain ⟨hash, -, done⟩ := bind_eq_ok.1 done
  obtain ⟨⟨u, r⟩, -, done⟩ := bind_eq_ok.1 done
  dsimp only at done
  split at done
  · cases done
  obtain ⟨⟨v, r'⟩, -, done⟩ := bind_eq_ok.1 done
  dsimp only at done
  split at done
  · cases done
  · obtain ⟨-, rfl, -⟩ := pure_eq_ok.1 done
    exact known

theorem RegistrationConfig.register_eq_ok
    (done : cfg.register serde env token req randomLocalpart e s = .ok (t, userId, session)) :
    req.guest = false ∧
      if req.appservice then
        ∃ reg name, token.bind cfg.appservices.byToken = some reg ∧ req.username = some name ∧
          cfg.names.userIdFor name = .ok userId ∧ cfg.isReservedNotices name = false ∧
            reg.isInterestedInUser userId cfg.names.serverName = true
      else
        cfg.registrationEnabled = true ∧
          cfg.names.userIdFor (req.username.getD randomLocalpart) = .ok userId ∧
            cfg.isReservedNotices (req.username.getD randomLocalpart) = false ∧
              cfg.appservices.userClaimableByOthers userId cfg.names.serverName = true := by
  unfold RegistrationConfig.register at done
  split at done
  · cases done
  rename_i person
  refine ⟨by simpa using person, ?_⟩
  split at done
  · rename_i service
    rw [if_pos service]
    obtain ⟨reg, required, done⟩ := bind_eq_ok.1 done
    have asker : token.bind cfg.appservices.byToken = some reg := by
      unfold RegistrationConfig.requireAppservice at required
      split at required
      · cases required
      · split at required
        · rename_i found
          obtain rfl := Except.ok.inj required
          exact found
        · cases required
    unfold RegistrationConfig.registerAppservice at done
    split at done
    · cases done
    rename_i name username
    split at done
    · cases done
    rename_i free
    obtain ⟨user, known, done⟩ := bind_eq_ok.1 done
    split at done
    · cases done
    rename_i covered
    have same := RegistrationConfig.registerWithToken_userId done
    obtain rfl := ok_unique known same
    exact ⟨reg, name, asker, username, known, by simpa using free, by simpa using covered⟩
  · rename_i service
    rw [if_neg service]
    split at done
    · cases done
    rename_i enabled
    dsimp only at done
    split at done
    · cases done
    rename_i free
    split at done
    · cases done
    rename_i claimable
    obtain ⟨registrationToken, -, done⟩ := bind_eq_ok.1 done
    obtain ⟨-, -, done⟩ := bind_eq_ok.1 done
    have known := RegistrationConfig.registerWithToken_userId done
    refine ⟨by simpa using enabled, known, by simpa using free, ?_⟩
    have known : cfg.names.userIdFor (req.username.getD randomLocalpart) = .ok userId := known
    rw [RegistrationConfig.isExclusiveName, known] at claimable
    simpa using claimable

end Registration

/-! ## The first login -/

section FirstLogin

variable {names : Naming} {serde : SerdeJson} {c c' : MapCall} {s : User.Store} {w : SsoWorld}
  {userId : String}

/-- The name that a login is after. -/
def SsoStage.naming : SsoStage → Option String
  | .named userId | .registering userId | .registered userId | .displaying userId _
  | .claiming userId | .linking userId _ | .done (.ok userId) => some userId
  | .begun | .known _ | .done (.error _) => none

/-- The name is the derived one, and a login gets past looking it up only where its provider permits. -/
def MapCall.Named (names : Naming) (c : MapCall) : Prop :=
  ∀ userId, c.stage.naming = some userId → c.derive names = .ok userId ∧
    (c.stage = .named userId ∨ c.provider.enableRegistration = true ∨ c.provider.allowExistingUsers = true)

theorem MapCall.Named.existing (derived : c.derive names = .ok userId) :
    ({ c with stage := c.existing userId } : MapCall).Named names := by
  unfold MapCall.existing
  split
  · rename_i allowed
    rintro user ⟨⟩
    exact ⟨derived, .inr (.inr allowed)⟩
  · exact fun user => nofun

theorem MapCall.Named.read (h : c.Named names) : ({ c with stage := c.read names s } : MapCall).Named names := by
  unfold MapCall.read
  split
  · split
    · split
      · exact fun user => nofun
      · exact fun user => nofun
    · split
      · exact fun user => nofun
      · rename_i userId derived
        rintro user ⟨⟩
        exact ⟨derived, .inl rfl⟩
  · rename_i userId stage
    obtain ⟨derived, -⟩ := h userId (by rw [stage]; rfl)
    split
    · exact fun user => nofun
    · exact .existing derived
    · split
      · rename_i enabled
        rintro user ⟨⟩
        exact ⟨derived, .inr (.inl enabled)⟩
      · exact fun user => nofun
  · rename_i userId stage
    obtain ⟨derived, permitted⟩ := h userId (by rw [stage]; rfl)
    rw [stage] at permitted
    split
    · exact fun user => nofun
    · rintro user ⟨⟩
      exact ⟨derived, .inr (permitted.resolve_left nofun)⟩
  · exact h

theorem MapCall.Named.answered (h : c.Named names) (r : UserResponse) : ({ c with stage := c.answered r } : MapCall).Named names := by
  have keeps (userId : String) (stage : c.stage.naming = some userId) (past : c.stage ≠ .named userId) :
      c.derive names = .ok userId ∧
        (c.provider.enableRegistration = true ∨ c.provider.allowExistingUsers = true) := by
    obtain ⟨derived, permitted⟩ := h userId stage
    exact ⟨derived, permitted.resolve_left past⟩
  unfold MapCall.answered
  split
  case h_10 => exact h
  case h_2 userId stage => exact .existing (keeps userId (by rw [stage]; rfl) (by rw [stage]; rintro ⟨⟩)).1
  case h_3 => rintro user ⟨⟩
  case h_4 => rintro user ⟨⟩
  case h_6 => rintro user ⟨⟩
  case h_9 => rintro user ⟨⟩
  case h_5 userId stage =>
    obtain ⟨derived, permitted⟩ := keeps userId (by rw [stage]; rfl) (by rw [stage]; rintro ⟨⟩)
    split
    all_goals
      rintro user ⟨⟩
      exact ⟨derived, .inr permitted⟩
  all_goals
    rename_i stage
    rintro user ⟨⟩
    obtain ⟨derived, permitted⟩ := keeps _ (by rw [stage]; rfl) (by rw [stage]; rintro ⟨⟩)
    exact ⟨derived, .inr permitted⟩

theorem run_named (run : Batch.Runs (SsoWorld.step names serde) (fun _ _ _ => True) .empty w) :
    ∀ c ∈ w.calls, c.Named names := by
  refine run.invariant (I := fun _ w : SsoWorld => ∀ c ∈ w.calls, c.Named names) (fun _ _ h => h) ?_
    fun c mem => absurd mem List.not_mem_nil
  intro e w act w' r h _ stepped
  cases act with
  | login provider identity ts =>
    obtain ⟨rfl, -⟩ := ok_pair stepped
    intro c mem
    obtain old | new := List.mem_append.1 mem
    · exact h c old
    · obtain rfl := List.mem_singleton.1 new
      exact fun user => nofun
  | advance i =>
    simp only [SsoWorld.step] at stepped
    cases found : w.calls[i]? with
    | none =>
      rw [found] at stepped
      obtain ⟨rfl, -⟩ := ok_pair stepped
      exact h
    | some c =>
      rw [found] at stepped
      obtain ⟨⟨store, c'⟩, advanced, stepped⟩ := bind_eq_ok.1 stepped
      obtain ⟨rfl, -⟩ := ok_pair stepped
      have before := h c (List.mem_of_getElem? found)
      have after : c'.Named names := by
        unfold MapCall.advance at advanced
        cases proposed : c.command with
        | none =>
          rw [proposed] at advanced
          obtain ⟨-, rfl⟩ := ok_pair advanced
          exact before.read
        | some cmd =>
          rw [proposed] at advanced
          obtain ⟨⟨u, r⟩, -, advanced⟩ := bind_eq_ok.1 advanced
          obtain ⟨-, rfl⟩ := ok_pair advanced
          exact before.answered r
      intro d mem
      obtain old | rfl := List.mem_or_eq_of_mem_set mem
      · exact h d old
      · exact after
  | command cmd =>
    obtain ⟨⟨store, r⟩, -, stepped⟩ := bind_eq_ok.1 stepped
    obtain ⟨rfl, -⟩ := ok_pair stepped
    exact h
  | migrate target =>
    obtain ⟨store, -, stepped⟩ := bind_eq_ok.1 stepped
    obtain ⟨rfl, -⟩ := ok_pair stepped
    exact h

theorem MapCall.given_eq_some : c.given = some userId ↔ c.stage = .done (.ok userId) := by
  unfold MapCall.given
  split <;> simp_all

theorem MapCall.derive_eq_ok : c.derive names = .ok userId ↔
    ∃ raw, c.identity.localpart = some raw ∧ names.sanitizeLocalpart raw ≠ "" ∧
      names.isUserId (names.userId (names.sanitizeLocalpart raw)) = true ∧
        userId = names.userId (names.sanitizeLocalpart raw) := by
  unfold MapCall.derive
  cases c.identity.localpart with
  | none => simp
  | some raw =>
    rw [Option.map_some, Option.filter_some]
    by_cases empty : names.sanitizeLocalpart raw = ""
    · simp [empty]
    rw [if_pos (by simpa using empty)]
    dsimp only
    split
    · rename_i valid
      constructor
      · exact fun same => ⟨raw, rfl, empty, valid, (Except.ok.inj same).symm⟩
      · rintro ⟨_, ⟨⟩, -, -, rfl⟩
        rfl
    · rename_i invalid
      simp [invalid]

end FirstLogin

/-! ## A login on its own -/

section Alone

variable {names : Naming} {serde : SerdeJson} {c : MapCall} {s t : User.Store} {userId : String}
  {provider : OidcProvider} {identity : VerifiedIdentity} {ts : Nat} {account : User.Account}

/-- Some run has this store, and this login and no other. -/
def Alone (names : Naming) (serde : SerdeJson) (s : User.Store) (c : MapCall) : Prop :=
  Batch.Runs (SsoWorld.step names serde) (fun _ _ _ => True) .empty ⟨s, [c]⟩

theorem Alone.read (h : Alone names serde s c) (idle : c.command = none) :
    Alone names serde s { c with stage := c.read names s } := by
  refine h.tail (.single ⟨.advance 0, (), trivial, ?_⟩)
  simp only [SsoWorld.step, List.getElem?_cons_zero, MapCall.advance, idle]
  rfl

theorem Alone.command (h : Alone names serde s c) {cmd : UserCommand} {r : UserResponse}
    (proposed : c.command = some cmd) (applied : apply serde s s cmd = .ok (t, r)) :
    Alone names serde t { c with stage := c.answered r } := by
  refine h.tail (.single ⟨.advance 0, (), trivial, ?_⟩)
  simp only [SsoWorld.step, List.getElem?_cons_zero, MapCall.advance, proposed, applied]
  rfl

theorem apply_registerWithToken {s : User.Store} {ts : Nat} (account : s.account = ∅)
    (username : s.username = ∅) :
    apply serde s s (.registerWithToken userId none ts none none) =
      .ok (User.Machine.enrol s userId none ts, .ok) := by
  simp [apply, User.Machine.applyRegister, User.Machine.consumeRegToken, account, username]
  rfl

theorem apply_linkExternalId {s : User.Store} {provider subject : String}
    (stored : s.account[userId]? = some (.current account)) (open' : account.state ≠ .deactivated)
    (free : s.externalId = ∅) :
    ∃ t, apply serde s s (.linkExternalId userId provider subject) = .ok (t, .ok) := by
  have known : s.getAccount userId = .ok (some account) := User.getAccount_eq_some.2 stored
  have unlinked : s.externalId[(provider, subject)]?.filter (· ≠ userId) = none := by simp [free]
  simp only [apply, User.Machine.linkExternalId, User.Machine.withAccount, known, ok_bind, if_neg open',
    unlinked]
  exact ⟨_, rfl⟩

theorem Alone.named (h : Alone names serde s ⟨provider, identity, ts, .begun⟩) (free : s.externalId = ∅)
    (derived : (MapCall.mk provider identity ts .begun).derive names = .ok userId) :
    Alone names serde s ⟨provider, identity, ts, .named userId⟩ := by
  have next := h.read rfl
  have unlinked : s.externalId[((MapCall.mk provider identity ts .begun).key, identity.subject)]? = none := by
    simp [free]
  simp only [MapCall.read, unlinked, derived] at next
  exact next

theorem Alone.linked {made : Bool} (h : Alone names serde s ⟨provider, identity, ts, .linking userId made⟩)
    (stored : s.account[userId]? = some (.current account))
    (active : account.state = .active) (free : s.externalId = ∅) :
    ∃ t, Alone names serde t ⟨provider, identity, ts, .done (.ok userId)⟩ := by
  obtain ⟨t, applied⟩ : ∃ t, apply serde s s
      (.linkExternalId userId provider.authProviderKey identity.subject) = .ok (t, .ok) :=
    apply_linkExternalId stored (by simp [active]) free
  exact ⟨t, h.command rfl applied⟩

theorem claimed (derived : (MapCall.mk provider identity ts .begun).derive names = .ok userId)
    (allowed : provider.allowExistingUsers = true) :
    ∃ t, Alone names serde t ⟨provider, identity, ts, .done (.ok userId)⟩ := by
  have made : Batch.Runs (SsoWorld.step names serde) (fun _ _ _ => True) .empty
      ⟨User.Machine.enrol .empty userId none 0, []⟩ := by
    have applied : apply serde .empty .empty (.registerWithToken userId none 0 none none) =
        .ok (User.Machine.enrol .empty userId none 0, .ok) := apply_registerWithToken rfl rfl
    refine Relation.ReflTransGen.single (.single
      ⟨.command (.registerWithToken userId none 0 none none), (), trivial, ?_⟩)
    simp only [SsoWorld.step, SsoWorld.empty, applied]
    rfl
  have begun : Alone names serde (User.Machine.enrol .empty userId none 0)
      ⟨provider, identity, ts, .begun⟩ :=
    made.tail (.single ⟨.login provider identity ts, (), trivial, rfl⟩)
  have stored : (User.Machine.enrol .empty userId none 0).account[userId]? =
      some (.current ⟨none, 0, .active, false, false⟩) := OrdMap.getElem?_insert'.trans (if_pos rfl)
  have named := (begun.named rfl derived).read rfl
  simp only [MapCall.read, User.getAccount_eq_some.2 stored, MapCall.existing, if_pos allowed] at named
  have claiming := named.read rfl
  have unlinked : ((User.Machine.enrol .empty userId none 0).externalIdUser.rows fun k =>
      k.1 = userId) = [] := by
    simp [OrdMap.rows, User.Machine.enrol, User.Store.putAccount, User.Store.empty]
  simp only [MapCall.read, unlinked] at claiming
  exact claiming.linked stored rfl rfl

theorem created (derived : (MapCall.mk provider identity ts .begun).derive names = .ok userId)
    (enabled : provider.enableRegistration = true) :
    ∃ t, Alone names serde t ⟨provider, identity, ts, .done (.ok userId)⟩ := by
  have begun : Alone names serde .empty ⟨provider, identity, ts, .begun⟩ :=
    Relation.ReflTransGen.single (.single ⟨.login provider identity ts, (), trivial, rfl⟩)
  have absent : User.Store.empty.getAccount userId = .ok none := by
    simp [User.Store.getAccount, User.Store.empty]
  have registering := (begun.named rfl derived).read rfl
  simp only [MapCall.read, absent, if_pos enabled] at registering
  have registered := registering.command rfl (apply_registerWithToken rfl rfl)
  have stored : (User.Machine.enrol .empty userId none ts).account[userId]? =
      some (.current ⟨none, ts, .active, false, false⟩) := OrdMap.getElem?_insert'.trans (if_pos rfl)
  have named := registered.command rfl rfl
  cases display : identity.displayName with
  | none =>
    simp only [MapCall.answered, display] at named
    exact named.linked stored rfl rfl
  | some name =>
    simp only [MapCall.answered, display] at named
    have displayed := named.command rfl rfl
    exact displayed.linked stored rfl rfl

end Alone

/-! ## A registration that is let through -/

section LetThrough

variable {cfg : RegistrationConfig} {serde : SerdeJson} {userId : String} {token : Option String}

theorem applyRegister_total {s u : User.Store} {passwordHash : Option String} {ts : Nat}
    {session : Option SessionCmd} (username : s.username = ∅) (account : s.account = ∅)
    (consumed : User.Machine.consumeRegToken s token ts = some u)
    (own : ∀ c, session = some c → c.userId = userId) :
    ∃ t, apply serde s s (.registerWithToken userId passwordHash ts session token) = .ok (t, .ok) := by
  have free : (s.username.contains userId || (s.account[userId]?).isSome) = false := by
    simp [username, account]
  simp only [apply, User.Machine.applyRegister, free, Bool.false_eq_true, if_false, consumed]
  cases session with
  | none => exact ⟨_, rfl⟩
  | some c =>
    obtain rfl := own c rfl
    have created : (User.Machine.enrol u c.userId passwordHash ts).oldAccount c.userId = false :=
      User.oldAccount_putAccount.trans (if_pos rfl)
    obtain ⟨t, written⟩ := User.writeSession_ok_iff.2 created
    refine ⟨t, ?_⟩
    change (do let v ← User.Machine.writeSession (User.Machine.enrol u c.userId passwordHash ts) c
               return (v, UserResponse.ok)) = _
    rw [written]
    rfl

def tokenStore : User.Store := (User.Machine.createRegistrationToken .empty "t" none none 0).1

def grantingEnv : RegisterEnv where
  uia _ _ := .ok (some "t")
  uia_token requestId token h := by
    obtain rfl := Except.ok.inj h
    rfl
  rateLimit := .ok ()
  hashPassword := .ok
  deviceId := "D"
  tokenHash := 0
  refreshHash := 1
  ts := 0

theorem tokenStore_reached {names : Naming} :
    Batch.Runs (SsoWorld.step names serde) (fun _ _ _ => True) .empty ⟨tokenStore, []⟩ :=
  Relation.ReflTransGen.single (.single
    ⟨.command (.createRegistrationToken "t" none none 0), (), trivial, rfl⟩)

theorem RegistrationConfig.registers {r : RegisterRequest} (known : cfg.names.userIdFor r.localpart = .ok userId)
    (token : r.registrationToken = none ∨ r.registrationToken = some "t") :
    ∃ t session, cfg.registerWithToken serde grantingEnv r tokenStore tokenStore =
      .ok (t, userId, session) := by
  obtain ⟨u, consumed⟩ : ∃ u, User.Machine.consumeRegToken tokenStore r.registrationToken 0 = some u := by
    obtain none | some := token
    · rw [none]
      exact ⟨_, rfl⟩
    · rw [some]
      exact ⟨_, rfl⟩
  have own : ∀ c, session grantingEnv r userId = some c → c.userId = userId := by
    intro c opened
    unfold session at opened
    split at opened
    · cases opened
    · obtain rfl := Option.some.inj opened
      rfl
  obtain ⟨hash, hashed⟩ : ∃ hash, r.password.mapM grantingEnv.hashPassword = .ok hash := by
    cases r.password with
    | none => exact ⟨_, rfl⟩
    | some password => exact ⟨_, rfl⟩
  obtain ⟨t, applied⟩ : ∃ t, apply serde tokenStore tokenStore
      (.registerWithToken userId hash 0 (session grantingEnv r userId) r.registrationToken) = .ok (t, .ok) :=
    applyRegister_total rfl rfl consumed own
  have proposed : propose serde tokenStore tokenStore (.registerWithToken userId hash 0
      (session grantingEnv r userId) r.registrationToken) = .ok (t, .ok) := by
    rw [propose, applied]
    rfl
  have ts : grantingEnv.ts = 0 := rfl
  refine ⟨(User.Machine.setProfile t userId (some (some (localpartOf userId))) none).1,
    session grantingEnv r userId, ?_⟩
  rw [RegistrationConfig.registerWithToken, known, ok_bind, hashed, ok_bind]
  dsimp only
  rw [ts, proposed]
  rfl

theorem RegistrationConfig.gives_register {req : RegisterReq} {randomLocalpart : String}
    (person : req.guest = false) (passed : if req.appservice then
        ∃ reg name, token.bind cfg.appservices.byToken = some reg ∧ req.username = some name ∧
          cfg.names.userIdFor name = .ok userId ∧ cfg.isReservedNotices name = false ∧
            reg.isInterestedInUser userId cfg.names.serverName = true
      else
        cfg.registrationEnabled = true ∧
          cfg.names.userIdFor (req.username.getD randomLocalpart) = .ok userId ∧
            cfg.isReservedNotices (req.username.getD randomLocalpart) = false ∧
              cfg.appservices.userClaimableByOthers userId cfg.names.serverName = true) :
    cfg.Gives serde (.register token req randomLocalpart) userId := by
  refine ⟨⟨tokenStore, []⟩, tokenStore_reached, grantingEnv, ?_⟩
  unfold RegistrationConfig.register
  rw [if_neg (by simp [person])]
  split at passed
  · rename_i service
    rw [if_pos service]
    obtain ⟨reg, name, asker, username, known, free, covered⟩ := passed
    obtain ⟨token, rfl, found⟩ := Option.bind_eq_some_iff.1 asker
    have required : cfg.requireAppservice (some token) = .ok reg := by
      simp only [RegistrationConfig.requireAppservice, found]
    rw [required, ok_bind]
    unfold RegistrationConfig.registerAppservice
    rw [username]
    dsimp only
    rw [if_neg (by simp [free]), known, ok_bind, if_neg (by simp [covered])]
    exact RegistrationConfig.registers known (.inl rfl)
  · rename_i service
    rw [if_neg service]
    obtain ⟨enabled, known, free, claimable⟩ := passed
    have other : cfg.isExclusiveName (req.username.getD randomLocalpart) = false := by
      rw [RegistrationConfig.isExclusiveName, known]
      simpa using claimable
    rw [if_neg (by simp [enabled])]
    dsimp only
    rw [if_neg (by simp [free]), if_neg (by simp [other])]
    exact RegistrationConfig.registers known (.inr rfl)

end LetThrough

/-! ## Reserved names -/

section Reserved

variable {cfg : RegistrationConfig} {userId : String}

/-- **Reserved names stay reserved.** A way leads to no user id that is not for its asker, exactly when
something stands between the way and these. -/
theorem names_stay_reserved (cfg : RegistrationConfig) (serde : SerdeJson) (way : Way) :
    (∀ userId, cfg.Gives serde way userId → ¬ cfg.Reserved (cfg.asker way) userId) ↔ cfg.Guarded way := by
  cases way with
  | register token req randomLocalpart =>
    constructor
    · intro safe
      by_cases person : req.guest = true
      · exact .inl person
      refine .inr ?_
      replace person : req.guest = false := by simpa using person
      split
      · rename_i service
        intro reg name userId asker username known free covered a mem other held
        refine safe userId (RegistrationConfig.gives_register person ?_) (.inr ⟨a, mem, ?_, held⟩)
        · rw [if_pos service]
          exact ⟨reg, name, asker, username, known, free, covered⟩
        · rw [RegistrationConfig.asker, asker]
          exact other
      · rename_i service
        by_cases enabled : cfg.registrationEnabled = true
        · refine .inr fun userId known free claimable a mem other n pattern exclusive => ?_
          by_contra matched
          refine safe userId (RegistrationConfig.gives_register person ?_)
            (.inr ⟨a, mem, other, .inr ⟨n, pattern, exclusive, by simpa using matched⟩⟩)
          rw [if_neg service]
          exact ⟨enabled, known, free, claimable⟩
        · exact .inl (by simpa using enabled)
    · rintro guarded userId ⟨w, -, env, t, session, done⟩ reserved
      obtain ⟨person, passed⟩ := RegistrationConfig.register_eq_ok done
      replace guarded := guarded.resolve_left (by simp [person])
      split at passed
      · rename_i service
        rw [if_pos service] at guarded
        obtain ⟨reg, name, asker, username, known, free, covered⟩ := passed
        obtain notices | ⟨a, mem, other, held⟩ := reserved
        · rw [(RegistrationConfig.isReservedNotices_iff known).2 notices] at free
          cases free
        · rw [RegistrationConfig.asker, asker] at other
          exact guarded reg name userId asker username known free covered a mem other held
      · rename_i service
        rw [if_neg service] at guarded
        obtain ⟨enabled, known, free, claimable⟩ := passed
        replace guarded := guarded.resolve_left (by simp [enabled])
        obtain notices | ⟨a, mem, other, held⟩ := reserved
        · rw [(RegistrationConfig.isReservedNotices_iff known).2 notices] at free
          cases free
        · obtain ⟨n, pattern, exclusive, matched⟩ := (AppServices.holds_iff claimable mem).1 held
          rw [guarded userId known free claimable a mem other n pattern exclusive] at matched
          cases matched
  | sso provider identity =>
    have gives {userId : String} (derived : (MapCall.mk provider identity 0 .begun).derive cfg.names = .ok userId)
        (permitted : provider.enableRegistration = true ∨ provider.allowExistingUsers = true) :
        cfg.Gives serde (.sso provider identity) userId := by
      obtain ⟨t, alone⟩ : ∃ t, Alone cfg.names serde t ⟨provider, identity, 0, .done (.ok userId)⟩ :=
        permitted.elim (created derived) (claimed derived)
      exact ⟨_, alone, _, List.mem_singleton_self _, rfl, rfl, rfl⟩
    constructor
    · intro safe
      by_cases permitted : provider.enableRegistration = true ∨ provider.allowExistingUsers = true
      · refine .inr fun raw claim named valid => ?_
        exact safe _ (gives (MapCall.derive_eq_ok.2 ⟨raw, claim, named, valid, rfl⟩) permitted)
      · exact .inl (by simpa using permitted)
    · rintro guarded userId ⟨w, run, c, mem, rfl, rfl, given⟩
      have stage := MapCall.given_eq_some.1 given
      obtain ⟨derived, permitted⟩ := run_named run c mem userId (by rw [stage]; rfl)
      rw [stage] at permitted
      replace permitted := permitted.resolve_left nofun
      obtain ⟨raw, claim, named, valid, rfl⟩ := MapCall.derive_eq_ok.1 derived
      refine guarded.resolve_left ?_ raw claim named valid
      rintro ⟨disabled, forbidden⟩
      simp [disabled, forbidden] at permitted

/-- A server whose notices come from `@notices:x`. The first pattern of its service claims no name for
itself, the second does. -/
def sampleConfig : RegistrationConfig where
  names := .sample
  appservices := ⟨[⟨"irc", "t", "bot", [⟨false, fun _ => true⟩, ⟨true, fun user => decide (user = "@irc:x")⟩]⟩]⟩
  serverNoticesLocalpart := some "notices"
  registrationEnabled := true
  registrationRequiresToken := false

def sampleReq : RegisterReq := ⟨false, false, some "irc", none, none, none, false, true⟩

/-- A registration is given a name that is the service's, and a first login the name of the server's own
account. -/
theorem reserved_given : (sampleConfig.Gives .sample (.register none sampleReq "r") "@irc:x" ∧
      sampleConfig.Reserved none "@irc:x") ∧
    (sampleConfig.Gives .sample (.sso .sample ⟨"s", some "notices", none⟩) "@notices:x" ∧
      sampleConfig.Reserved none "@notices:x") := by
  refine ⟨⟨RegistrationConfig.gives_register rfl ?_, .inr ⟨_, List.mem_singleton_self _, nofun, ?_⟩⟩,
    ?_, .inl ⟨"notices", rfl, by rfl⟩⟩
  · rw [if_neg (by decide)]
    exact ⟨rfl, by rfl, by decide +kernel, by decide +kernel⟩
  · exact .inr ⟨⟨true, _⟩, List.mem_cons_of_mem _ (List.mem_singleton_self _), rfl, by decide⟩
  · have derived : (MapCall.mk .sample ⟨"s", some "notices", none⟩ 0 .begun).derive Naming.sample =
        .ok "@notices:x" := by rfl
    obtain ⟨t, alone⟩ : ∃ t, Alone Naming.sample .sample t _ := created derived rfl
    exact ⟨_, alone, _, List.mem_singleton_self _, rfl, rfl, rfl⟩

end Reserved

end Saltator.Client
