import Saltator.Client.Error
import Saltator.User.Indexes

/-!
# First logins through an identity provider

A provider vouches for a subject. The account of a subject is the one it is linked to; a subject without
a link may have an account made, or claim one of its name. Every read of the user shard and every
command to it is a step of its own, and other logins come in between. Applying a link takes the place of
the account's earlier link at the provider.
-/

namespace Saltator.Client

open Saltator.Outcome
open User (UserCommand UserResponse StoreError SerdeJson LinksMirror)
open User.Machine (apply migrate apply_frame migrate_frame)

/-! ## Names of accounts -/

/-- The server's name, which texts are user ids, and the lower-case mapping of texts. -/
structure Naming where
  serverName : String
  isUserId : String → Bool
  toLowercase : String → String

def invalidUsername (reason : String) : ApiError :=
  ⟨400, "M_INVALID_USERNAME", "invalid username: " ++ reason⟩

/-- The characters of a localpart that a registration takes. -/
def isNameChar (c : Char) : Bool :=
  c.isLower || c.isDigit || ['.', '_', '=', '-', '/', '+'].contains c

namespace Naming

variable (names : Naming)

def userId (localpart : String) : String := "@" ++ localpart ++ ":" ++ names.serverName

def userIdFor (user : String) : Except ApiError String :=
  let user := names.toLowercase user
  if user.toList.head? = some '@' then
    if !names.isUserId user then .error (invalidUsername "not a user id")
    else if Ruma.userServerName user ≠ names.serverName then
      .error (invalidUsername ("wrong server name in " ++ user))
    else .ok user
  else if user.isEmpty || !user.toList.all isNameChar then
    .error (invalidUsername "localpart must match [a-z0-9._=/+-]")
  else if !names.isUserId (names.userId user) then .error (invalidUsername "not a user id")
  else .ok (names.userId user)

/-- Lower case what can be, drop what cannot. -/
def sanitizeLocalpart (raw : String) : String :=
  String.ofList ((names.toLowercase raw).toList.filter fun c =>
    c.isLower || c.isDigit || ['.', '_', '=', '/', '-'].contains c)

end Naming

def localpartOf (userId : String) : String :=
  String.ofList ((userId.toList.drop 1).takeWhile (· ≠ ':'))

def unexpected (r : UserResponse) : ApiError :=
  .internal ("unexpected user-shard response: " ++ reprStr r)

/-! ## Logins -/

structure OidcProvider where
  idpId : String
  localpartClaim : String
  enableRegistration : Bool
  allowExistingUsers : Bool
  deriving DecidableEq

def OidcProvider.authProviderKey (p : OidcProvider) : String := "oidc-" ++ p.idpId

structure VerifiedIdentity where
  subject : String
  localpart : Option String
  displayName : Option String
  deriving DecidableEq

/-- Where a login stands, and what it does next. -/
inductive SsoStage where
  /-- Look up the subject's link. -/
  | begun
  /-- Look up the account of the derived name. -/
  | named (userId : String)
  | registering (userId : String)
  /-- Set the display name of a new account to its name. -/
  | registered (userId : String)
  | displaying (userId name : String)
  /-- Look up the account's links. -/
  | claiming (userId : String)
  | linking (userId : String) (made : Bool)
  /-- The subject had a link. -/
  | known (userId : String)
  | done (result : Except ApiError String)
  deriving DecidableEq

/-- A call of `map_subject`. -/
structure MapCall where
  provider : OidcProvider
  identity : VerifiedIdentity
  /-- The time that a registration is stamped with. -/
  ts : Nat
  stage : SsoStage

namespace MapCall

variable (names : Naming) (c : MapCall)

def key : String := c.provider.authProviderKey

def fail (e : ApiError) : SsoStage := .done (.error e)

def given : Option String :=
  match c.stage with
  | .done (.ok userId) => some userId
  | _ => none

def returned : Option String :=
  match c.stage with
  | .known userId => some userId
  | _ => c.given

/-- The id that a subject without a link may have. -/
def derive : Except ApiError String :=
  match (c.identity.localpart.map names.sanitizeLocalpart).filter fun l => !l.isEmpty with
  | none => .error (.forbidden
      ("No usable " ++ c.provider.localpartClaim ++ " claim to derive a username from"))
  | some localpart =>
    if names.isUserId (names.userId localpart) then .ok (names.userId localpart)
    else .error (.forbidden "Derived username is invalid: not a user id")

def existing (userId : String) : SsoStage :=
  if c.provider.allowExistingUsers then .claiming userId
  else fail (.forbidden ("An account with this name exists but is not linked to this identity; " ++
    "pre-link it via the admin API or enable allow_existing_users"))

def read (s : User.Store) : SsoStage :=
  match c.stage with
  | .begun =>
    match s.externalId[(c.key, c.identity.subject)]? with
    | some owner =>
      if names.isUserId owner then .known owner else fail (.internal "not a user id")
    | none =>
      match c.derive names with
      | .error e => fail e
      | .ok userId => .named userId
  | .named userId =>
    match s.getAccount userId with
    | .error e => fail (.internal (reprStr e))
    | .ok (some _) => c.existing userId
    | .ok none =>
      if c.provider.enableRegistration then .registering userId
      else fail (.forbidden "No account for this identity, and this provider may not create one")
  | .claiming userId =>
    if (s.externalIdUser.rows fun k => k.1 = userId).any fun r => r.1.2 = c.key then
      fail (.forbidden "That account is linked to a different identity at this provider")
    else .linking userId false
  | stage => stage

def command : Option UserCommand :=
  match c.stage with
  | .registering userId => some (.registerWithToken userId none c.ts none none)
  | .registered userId =>
    some (.setProfile userId (some (some (localpartOf userId))) none)
  | .displaying userId name => some (.setProfile userId (some (some name)) none)
  | .linking userId _ => some (.linkExternalId userId c.key c.identity.subject)
  | _ => none

def linkError (made : Bool) : UserResponse → ApiError
  | .notFound => .notFound "not found"
  | .invalidState => .invalidParam "the account's state does not allow this"
  | .externalIdInUse owner =>
    if made then ⟨409, "M_INVALID_PARAM", "that external identity is already linked to " ++ owner⟩
    else .forbidden "This identity is already linked to a different account"
  | r => unexpected r

def answered (r : UserResponse) : SsoStage :=
  match c.stage, r with
  | .registering userId, .ok => .registered userId
  -- two first logins on one name: the other was first
  | .registering userId, .userExists => c.existing userId
  | .registering _, .invalidToken =>
    fail (.forbidden "unknown, expired, or exhausted registration token")
  | .registering _, r => fail (unexpected r)
  | .registered userId, .ok =>
    match c.identity.displayName with
    | some name => .displaying userId name
    | none => .linking userId true
  | .registered _, r => fail (unexpected r)
  -- a display name that cannot be set does not matter
  | .displaying userId _, _ => .linking userId true
  | .linking userId _, .ok => .done (.ok userId)
  | .linking _ made, r => fail (linkError made r)
  | stage, _ => stage

/-- One read or one command, in a batch of the shard that began in `e`. -/
def advance (serde : SerdeJson) (e s : User.Store) : Except StoreError (User.Store × MapCall) :=
  match c.command with
  | none => .ok (s, { c with stage := c.read names e })
  | some cmd => do
    let (s, r) ← apply serde e s cmd
    return (s, { c with stage := c.answered r })

end MapCall

/-- A user shard, and the logins at it. -/
structure SsoWorld where
  store : User.Store
  calls : List MapCall

inductive SsoAct where
  | login (provider : OidcProvider) (identity : VerifiedIdentity) (ts : Nat)
  | advance (i : Nat)
  /-- A command that no login proposed. -/
  | command (cmd : UserCommand)
  | migrate (target : Nat)

namespace SsoWorld

def empty : SsoWorld := ⟨.empty, []⟩

/-- One step, in a batch of the shard that began in `e`. -/
def step (names : Naming) (serde : SerdeJson) (e w : SsoWorld) :
    SsoAct → Except StoreError (SsoWorld × Unit)
  | .login provider identity ts =>
    .ok ({ w with calls := w.calls ++ [⟨provider, identity, ts, .begun⟩] }, ())
  | .advance i =>
    match w.calls[i]? with
    | none => .ok (w, ())
    | some c => do
      let (store, c) ← c.advance names serde e.store w.store
      return (⟨store, w.calls.set i c⟩, ())
  | .command cmd => do
    let (store, _) ← apply serde e.store w.store cmd
    return ({ w with store := store }, ())
  | .migrate target => do
    return ({ w with store := ← migrate e.store w.store target }, ())

end SsoWorld

/-! ## Links -/

def KeepsLinks (s : User.Store) : UserCommand → Prop
  | .linkExternalId userId provider subject =>
    ∀ linked ∈ s.externalIdUser[(userId, provider)]?, linked = subject
  | .unlinkExternalId userId provider => s.externalIdUser[(userId, provider)]? = none
  | _ => True

/-- The condition on a step. -/
def SsoWorld.KeepsLinks (_ w : SsoWorld) : SsoAct → Prop
  | .advance i => ∀ cmd ∈ w.calls[i]?.bind MapCall.command, Client.KeepsLinks w.store cmd
  | .command cmd => Client.KeepsLinks w.store cmd
  | _ => True

instance KeepsLinks.decidable (s : User.Store) (cmd : UserCommand) : Decidable (KeepsLinks s cmd) := by
  unfold KeepsLinks
  split <;> infer_instance

instance SsoWorld.KeepsLinks.decidable (e w : SsoWorld) (act : SsoAct) :
    Decidable (SsoWorld.KeepsLinks e w act) := by
  unfold SsoWorld.KeepsLinks
  split <;> infer_instance

section Links

variable {serde : SerdeJson} {e s t : User.Store} {r : UserResponse}

/-- The links of `s` are links of `t`. -/
def LinksKept (s t : User.Store) : Prop :=
  ∀ (k : String × String) (userId : String), s.externalId[k]? = some userId → t.externalId[k]? = some userId

theorem LinksKept.of_eq (same : t.externalId = s.externalId) : LinksKept s t := by
  intro k userId found
  rw [same]
  exact found

theorem linksKept_apply {cmd : UserCommand} (keeps : KeepsLinks s cmd)
    (applied : apply serde e s cmd = .ok (t, r)) : LinksKept s t := by
  have shape := apply_frame applied
  cases cmd with
  | linkExternalId userId provider subject =>
    obtain ⟨rfl, -⟩ | ⟨account, -, applied⟩ := User.Machine.withAccount_eq_ok applied
    · exact .of_eq rfl
    split at applied
    · obtain rfl := User.Machine.eq_of_ok applied
      exact .of_eq rfl
    split at applied
    · obtain rfl := User.Machine.eq_of_ok applied
      exact .of_eq rfl
    rename_i free
    obtain rfl := User.Machine.eq_of_ok applied
    have same : s.externalIdUser[(userId, provider)]?.filter (· ≠ subject) = none := by
      rw [Option.filter_eq_none_iff]
      intro linked found
      simp [keeps linked found]
    intro k owner found
    dsimp only
    rw [same, OrdMap.getElem?_insert']
    split
    · rename_i own
      rw [own] at found
      rw [found, Option.filter_eq_none_iff] at free
      have same : owner = userId := by simpa using free owner rfl
      exact congrArg some same.symm
    · exact found
  | unlinkExternalId userId provider =>
    obtain rfl := User.Machine.eq_of_ok applied
    unfold User.Machine.unlinkExternalId
    have none : s.externalIdUser[(userId, provider)]? = none := keeps
    rw [none]
    exact .of_eq rfl
  | _ => exact .of_eq (by rw [shape]; rfl)

theorem linked_apply {userId provider subject : String}
    (applied : apply serde e s (.linkExternalId userId provider subject) = .ok (t, .ok)) :
    t.externalId[(provider, subject)]? = some userId := by
  obtain ⟨-, refused, -⟩ | ⟨account, -, applied⟩ := User.Machine.withAccount_eq_ok applied
  · cases refused
  split at applied
  · cases applied
  split at applied
  · cases applied
  obtain rfl := User.Machine.eq_of_ok applied
  exact OrdMap.getElem?_insert'.trans (if_pos rfl)

end Links

/-! ## Runs -/

section Run

variable {names : Naming} {serde : SerdeJson} {e w w' : SsoWorld} {c : MapCall}

/-- The tables of links mirror each other, a batch took no link away, and the account that a login
returned is linked to its subject. -/
structure AccountsLinked (e w : SsoWorld) : Prop where
  mirror : LinksMirror w.store
  kept : LinksKept e.store w.store
  returned : ∀ c ∈ w.calls, ∀ userId, c.returned = some userId →
    w.store.externalId[(c.key, c.identity.subject)]? = some userId

theorem LinksKept.trans {s t u : User.Store} (h : LinksKept s t) (h' : LinksKept t u) : LinksKept s u :=
  fun k userId found => h' k userId (h k userId found)

theorem AccountsLinked.store (h : AccountsLinked e w) {store : User.Store} (mirror : LinksMirror store)
    (kept : LinksKept w.store store) : AccountsLinked e { w with store := store } where
  mirror := mirror
  kept := h.kept.trans kept
  returned c mem userId returned := kept _ userId (h.returned c mem userId returned)

theorem AccountsLinked.call (h : AccountsLinked e w) {i : Nat}
    (linked : ∀ userId, c.returned = some userId →
      w.store.externalId[(c.key, c.identity.subject)]? = some userId) :
    AccountsLinked e { w with calls := w.calls.set i c } where
  mirror := h.mirror
  kept := h.kept
  returned c' mem := by
    obtain old | rfl := List.mem_or_eq_of_mem_set mem
    · exact h.returned c' old
    · exact linked

theorem MapCall.existing_returns_none {userId : String} :
    ({ c with stage := c.existing userId } : MapCall).returned = none := by
  unfold MapCall.existing MapCall.fail
  split
  · rfl
  · rfl

theorem MapCall.read_returned {s : User.Store} {userId : String}
    (returned : ({ c with stage := c.read names s } : MapCall).returned = some userId) :
    s.externalId[(c.key, c.identity.subject)]? = some userId ∨ c.returned = some userId := by
  unfold MapCall.read at returned
  split at returned
  · split at returned
    · rename_i owner found
      split at returned
      · obtain rfl := Option.some.inj returned
        exact .inl found
      · cases returned
    · split at returned
      · cases returned
      · cases returned
  · split at returned
    · cases returned
    · rw [MapCall.existing_returns_none] at returned
      cases returned
    · split at returned
      · cases returned
      · cases returned
  · split at returned
    · cases returned
    · cases returned
  · exact .inr returned

theorem MapCall.answered_returned {cmd : UserCommand} {r : UserResponse} {userId : String}
    (proposed : c.command = some cmd)
    (returned : ({ c with stage := c.answered r } : MapCall).returned = some userId) :
    cmd = .linkExternalId userId c.key c.identity.subject ∧ r = .ok := by
  unfold MapCall.answered at returned
  split at returned
  case h_8 owner made stage =>
    obtain rfl := Option.some.inj returned
    rw [MapCall.command, stage] at proposed
    exact ⟨(Option.some.inj proposed).symm, rfl⟩
  case h_2 =>
    rw [MapCall.existing_returns_none] at returned
    cases returned
  case h_5 => split at returned <;> cases returned
  case h_10 =>
    unfold MapCall.returned MapCall.given at returned
    unfold MapCall.command at proposed
    grind
  all_goals cases returned

theorem AccountsLinked.advance (h : AccountsLinked e w) {i : Nat}
    (keeps : SsoWorld.KeepsLinks e w (.advance i))
    (stepped : SsoWorld.step names serde e w (.advance i) = .ok (w', ())) : AccountsLinked e w' := by
  simp only [SsoWorld.step] at stepped
  cases found : w.calls[i]? with
  | none =>
    rw [found] at stepped
    obtain ⟨rfl, -⟩ := ok_pair stepped
    exact h
  | some c =>
    rw [found] at stepped
    obtain ⟨⟨store, c'⟩, advanced, stepped⟩ := bind_eq_ok.1 stepped
    obtain ⟨rfl, -⟩ := ok_pair stepped
    unfold MapCall.advance at advanced
    cases proposed : c.command with
    | none =>
      rw [proposed] at advanced
      obtain ⟨rfl, rfl⟩ := ok_pair advanced
      refine h.call fun userId returned => ?_
      obtain linked | before := MapCall.read_returned returned
      · exact h.kept _ userId linked
      · exact h.returned c (List.mem_of_getElem? found) userId before
    | some cmd =>
      rw [proposed] at advanced
      obtain ⟨⟨t, r⟩, applied, advanced⟩ := bind_eq_ok.1 advanced
      obtain ⟨rfl, rfl⟩ := ok_pair advanced
      have next := h.store (h.mirror.apply applied)
        (linksKept_apply (keeps cmd (by simp [found, proposed])) applied)
      refine next.call fun userId returned => ?_
      obtain ⟨rfl, rfl⟩ := MapCall.answered_returned proposed returned
      exact linked_apply applied

theorem AccountsLinked.step (h : AccountsLinked e w) {act : SsoAct} (keeps : SsoWorld.KeepsLinks e w act)
    (stepped : SsoWorld.step names serde e w act = .ok (w', ())) : AccountsLinked e w' := by
  cases act with
  | login provider identity ts =>
    obtain ⟨rfl, -⟩ := ok_pair stepped
    refine ⟨h.mirror, h.kept, fun c mem userId returned => ?_⟩
    obtain old | new := List.mem_append.1 mem
    · exact h.returned c old userId returned
    · obtain rfl := List.mem_singleton.1 new
      cases returned
  | advance i => exact h.advance keeps stepped
  | command cmd =>
    obtain ⟨⟨store, r⟩, applied, stepped⟩ := bind_eq_ok.1 stepped
    obtain ⟨rfl, -⟩ := ok_pair stepped
    exact h.store (h.mirror.apply applied) (linksKept_apply keeps applied)
  | migrate target =>
    obtain ⟨store, migrated, stepped⟩ := bind_eq_ok.1 stepped
    obtain ⟨rfl, -⟩ := ok_pair stepped
    have shape := migrate_frame migrated
    exact h.store (h.mirror.frame (by rw [shape]) (by rw [shape])) (.of_eq (by rw [shape]))

theorem AccountsLinked.empty : AccountsLinked .empty .empty where
  mirror authProvider externalId userId := by simp [SsoWorld.empty, User.Store.empty]
  kept k userId found := found
  returned c mem := absurd mem List.not_mem_nil

/-- **Accounts of subjects.** In a run whose steps all meet the condition, two logins at a provider
return the same account exactly when they are of the same subject. -/
theorem account_of_subject
    (run : Batch.Runs (SsoWorld.step names serde) SsoWorld.KeepsLinks .empty w) {c c' : MapCall}
    (mem : c ∈ w.calls) (mem' : c' ∈ w.calls) (same : c.key = c'.key) {userId userId' : String}
    (returned : c.returned = some userId) (returned' : c'.returned = some userId') :
    userId = userId' ↔ c.identity.subject = c'.identity.subject := by
  have h : AccountsLinked w w := run.invariant (fun _ _ h => ⟨h.mirror, fun _ _ found => found, h.returned⟩)
    (fun _ _ _ _ _ h keeps stepped => h.step keeps stepped) AccountsLinked.empty
  have linked := h.returned c mem userId returned
  have linked' := h.returned c' mem' userId' returned'
  rw [← same] at linked'
  constructor
  · rintro rfl
    have subject := (h.mirror _ _ _).1 linked
    rw [(h.mirror _ _ _).1 linked'] at subject
    exact (Option.some.inj subject).symm
  · intro subject
    rw [← subject, linked] at linked'
    exact Option.some.inj linked'

def Naming.sample : Naming where
  serverName := "x"
  isUserId user := user.toList.head? = some '@'
  toLowercase s := String.ofList (s.toList.map Char.toLower)

def OidcProvider.sample : OidcProvider := ⟨"p", "preferred_username", true, true⟩

def sampleLogin (subject : String) : SsoAct := .login .sample ⟨subject, some "A", none⟩ 0

def sampleRun (check : SsoWorld → SsoAct → Bool) (acts : List SsoAct) : Option SsoWorld :=
  Batch.applyChecked (SsoWorld.step .sample .sample) check .empty acts

def bothReturn (userId : String) (w : SsoWorld) : Bool :=
  decide (w.calls.map MapCall.returned = [some userId, some userId])

theorem calls_of_bothReturn {userId : String} (h : bothReturn userId w = true) :
    ∃ c c', w.calls = [c, c'] ∧ c.returned = some userId ∧ c'.returned = some userId := by
  have all := of_decide_eq_true h
  obtain ⟨c, rest, calls, returned, all⟩ := List.map_eq_cons_iff.1 all
  obtain ⟨c', rest, rfl, returned', all⟩ := List.map_eq_cons_iff.1 all
  obtain rfl := List.map_eq_nil_iff.1 all
  exact ⟨c, c', calls, returned, returned'⟩

/-- Two logins of a subject, one after the other. -/
theorem account_of_subject_sample : ∃ (w : SsoWorld) (c c' : MapCall),
    Batch.Runs (SsoWorld.step .sample .sample) SsoWorld.KeepsLinks .empty w ∧
    c ∈ w.calls ∧ c' ∈ w.calls ∧ c.key = c'.key ∧ c.returned = some "@a:x" ∧
    c'.returned = some "@a:x" ∧ c.identity.subject = c'.identity.subject := by
  have h : (sampleRun (fun w act => decide (SsoWorld.KeepsLinks w w act))
      [sampleLogin "s", .advance 0, .advance 0, .advance 0, .advance 0, .advance 0,
        sampleLogin "s", .advance 1]).any (fun w : SsoWorld => bothReturn "@a:x" w &&
        decide (w.calls.map MapCall.provider = [.sample, .sample])) = true := by
    decide +kernel
  obtain ⟨w, ran, h⟩ := (Option.any_eq_true _ _).1 h
  rw [Bool.and_eq_true, decide_eq_true_eq] at h
  obtain ⟨both, providers⟩ := h
  obtain ⟨c, c', calls, returned, returned'⟩ := calls_of_bothReturn both
  have run := Batch.Runs.of_applyChecked (P := SsoWorld.KeepsLinks)
    (fun _ _ checked => of_decide_eq_true checked) ran
  have mem : c ∈ w.calls := by simp [calls]
  have mem' : c' ∈ w.calls := by simp [calls]
  have same : c.key = c'.key := by
    rw [calls] at providers
    simp only [List.map_cons, List.map_nil, List.cons.injEq] at providers
    rw [MapCall.key, MapCall.key, providers.1, providers.2.1]
  exact ⟨w, c, c', run, mem, mem', same, returned, returned',
    (account_of_subject run mem mem' same returned returned').1 rfl⟩

/-- Two subjects whose names are one, and an account that is made by the first of them and claimed by
the second before the first is linked. -/
theorem account_taken : ∃ (w : SsoWorld) (c c' : MapCall),
    Batch.Runs (SsoWorld.step .sample .sample) (fun _ _ _ => True) .empty w ∧
    c ∈ w.calls ∧ c' ∈ w.calls ∧ c.key = c'.key ∧ c.returned = some "@a:x" ∧
    c'.returned = some "@a:x" ∧ c.identity.subject = "s" ∧ c'.identity.subject = "t" := by
  have h : (sampleRun (fun _ _ => true)
      [sampleLogin "s", sampleLogin "t", .advance 0, .advance 0, .advance 0,
        .advance 1, .advance 1, .advance 1, .advance 0, .advance 0, .advance 1]).any
      (fun w : SsoWorld => bothReturn "@a:x" w &&
        decide (w.calls.map MapCall.provider = [.sample, .sample]) &&
        decide (w.calls.map (fun c => c.identity.subject) = ["s", "t"])) = true := by
    decide +kernel
  obtain ⟨w, ran, h⟩ := (Option.any_eq_true _ _).1 h
  rw [Bool.and_eq_true, Bool.and_eq_true, decide_eq_true_eq, decide_eq_true_eq] at h
  obtain ⟨⟨both, providers⟩, subjects⟩ := h
  obtain ⟨c, c', calls, returned, returned'⟩ := calls_of_bothReturn both
  rw [calls] at providers subjects
  simp only [List.map_cons, List.map_nil, List.cons.injEq] at providers subjects
  refine ⟨w, c, c', .of_applyChecked (fun _ _ _ => trivial) ran, by simp [calls], by simp [calls], ?_,
    returned, returned', subjects.1, subjects.2.1⟩
  rw [MapCall.key, MapCall.key, providers.1, providers.2.1]

end Run

end Saltator.Client
