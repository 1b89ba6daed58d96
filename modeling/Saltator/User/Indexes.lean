import Saltator.User.History
import Saltator.User.MachineSpec

/-!
# Tables with a second index

A token row says which device bears the token, and a device row names its tokens; an identity link is
stored by its provider and subject, and by its account. Every command that touches one side touches the
other by hand. `tables_mirror` says that none of them forgets.
-/

namespace Saltator.User

open Machine
open Saltator.Outcome

def TokenRow.bearer (row : TokenRow) : (UserId × DeviceId) × TokenKind :=
  (((decodeTokenV4 row).userId, (decodeTokenV4 row).deviceId), (decodeTokenV4 row).kind)

def Device.tokenOf (device : Device) : TokenKind → Option Hash
  | .access => device.accessTokenHash
  | .refresh => device.refreshTokenHash

namespace Store

def bearer (s : Store) (hash : Hash) : Option ((UserId × DeviceId) × TokenKind) :=
  s.token[hash]?.map TokenRow.bearer

def named (s : Store) (device : UserId × DeviceId) (kind : TokenKind) : Option Hash :=
  s.device[device]?.bind fun d => d.tokenOf kind

end Store

/-- The token rows are exactly the tokens that the device rows name. -/
def TokensMirror (s : Store) : Prop :=
  ∀ hash device kind, s.bearer hash = some (device, kind) ↔ s.named device kind = some hash

/-- The two tables of identity links are inverse to each other. -/
def LinksMirror (s : Store) : Prop :=
  ∀ (authProvider externalId : String) (userId : UserId), s.externalId[(authProvider, externalId)]? = some userId ↔
    s.externalIdUser[(userId, authProvider)]? = some externalId

section Conditions

variable (e s : Store)

/-- The hashes of a session are two, and no other device names them. -/
def FreshSession (c : SessionCmd) : Prop :=
  c.refreshHash ≠ some c.tokenHash ∧
    ∀ hash ∈ c.hashes, ∀ device kind, s.named device kind = some hash → device = (c.userId, c.deviceId)

def SessionsFresh : UserCommand → Prop
  | .register _ _ _ session | .registerWithToken _ _ _ session _ => ∀ c, session = some c → FreshSession s c
  | .createSession c | .refreshSession _ c => FreshSession s c
  | _ => True

def RewritesTokens : Nat → Prop
  | 5 => ∀ (hash : Hash) (row : TokenRow), e.token[hash]? = some row →
    s.bearer hash = some row.bearer
  | _ => True

end Conditions

/-! ## Tokens and devices -/

section Tokens

variable {serde : SerdeJson} {e s t : Store} {r : UserResponse} {userId : UserId} {deviceId : DeviceId}
  {hash : Hash} {key : UserId × DeviceId}

theorem TokensMirror.congr (h : TokensMirror s) (bearers : ∀ hash, t.bearer hash = s.bearer hash)
    (names : ∀ device kind, t.named device kind = s.named device kind) : TokensMirror t := by
  intro hash device kind
  rw [bearers, names]
  exact h hash device kind

theorem bearer_congr (h : t.token = s.token) (hash : Hash) : t.bearer hash = s.bearer hash := by
  rw [Store.bearer, h]
  rfl

theorem named_congr (h : t.device = s.device) (device : UserId × DeviceId) (kind : TokenKind) :
    t.named device kind = s.named device kind := by
  rw [Store.named, h]
  rfl

theorem TokensMirror.frame (h : TokensMirror s) (token : t.token = s.token)
    (device : t.device = s.device) : TokensMirror t :=
  h.congr (bearer_congr token) (named_congr device)

theorem mem_hashes {device : Device} : hash ∈ device.hashes ↔ ∃ kind, device.tokenOf kind = some hash := by
  rw [Device.hashes, List.mem_append, Option.mem_toList, Option.mem_toList]
  constructor
  · rintro (access | refresh)
    · exact ⟨.access, access⟩
    · exact ⟨.refresh, refresh⟩
  · rintro ⟨_ | _, names⟩
    · exact .inl names
    · exact .inr names

theorem bearer_dropTokens {hashes : List Hash} :
    (s.dropTokens hashes).bearer hash = if hash ∈ hashes then none else s.bearer hash := by
  have erased := OrdMap.foldl_erase (fun h : Hash => h) hashes s.token hash
  rw [List.map_id'] at erased
  rw [Store.bearer, Store.dropTokens, erased]
  split <;> rfl

theorem bearer_putToken {hash hash' : Hash} {entry : TokenEntry} : (s.putToken hash entry).bearer hash' =
      if hash' = hash then some ((entry.userId, entry.deviceId), entry.kind)
      else s.bearer hash' := by
  rw [Store.bearer, Store.putToken, OrdMap.getElem?_insert']
  split
  · simp only [Option.map_some, TokenRow.bearer, decodeTokenV4]
  · rfl

theorem named_insert {row : Device}
    (h : t.device = s.device.insert key row) (device : UserId × DeviceId) (kind : TokenKind) :
    t.named device kind = if device = key then row.tokenOf kind else s.named device kind := by
  rw [Store.named, h, OrdMap.getElem?_insert']
  split <;> rfl

theorem TokensMirror.same_device (h : TokensMirror s) {device device' : UserId × DeviceId}
    {kind kind' : TokenKind} (names : s.named device kind = some hash)
    (names' : s.named device' kind' = some hash) : device = device' := by
  have bearer := (h hash device kind).2 names
  rw [(h hash device' kind').2 names'] at bearer
  exact (some_pair bearer).1.symm

theorem mem_held :
    hash ∈ (s.device[key]?.map Device.hashes).getD [] ↔ ∃ kind, s.named key kind = some hash := by
  unfold Store.named
  cases s.device[key]? with
  | none => simp
  | some row => exact mem_hashes

theorem TokensMirror.replace (h : TokensMirror s) (key : UserId × DeviceId) (row : Option Device)
    (names : ∀ device kind, t.named device kind =
      if device = key then row.bind fun d => d.tokenOf kind else s.named device kind)
    (fresh : ∀ hash kind, (row.bind fun d => d.tokenOf kind) = some hash →
      ∀ device kind', s.named device kind' = some hash → device = key)
    (new : ∀ hash kind, (row.bind fun d => d.tokenOf kind) = some hash → t.bearer hash = some (key, kind))
    (old : ∀ hash, (∀ kind, (row.bind fun d => d.tokenOf kind) ≠ some hash) → t.bearer hash =
      if hash ∈ (s.device[key]?.map Device.hashes).getD [] then none else s.bearer hash) :
    TokensMirror t := by
  intro hash device kind
  rw [names]
  by_cases issued : ∃ kind', (row.bind fun d => d.tokenOf kind') = some hash
  · obtain ⟨kind', issued⟩ := issued
    rw [new hash kind' issued, Option.some_inj, Prod.mk.injEq]
    split
    · rename_i own
      refine ⟨fun same => same.2 ▸ issued, fun named => ⟨own.symm, ?_⟩⟩
      have again := new hash kind named
      rw [new hash kind' issued] at again
      exact (some_pair again).2
    · rename_i other
      exact ⟨fun same => absurd same.1.symm other,
        fun named => absurd (fresh hash kind' issued device kind named) other⟩
  · have issued : ∀ kind, (row.bind fun d => d.tokenOf kind) ≠ some hash := not_exists.1 issued
    rw [old hash issued]
    by_cases held : hash ∈ (s.device[key]?.map Device.hashes).getD []
    · obtain ⟨kind', before⟩ := mem_held.1 held
      rw [if_pos held]
      split
      · exact ⟨nofun, fun named => absurd named (issued kind)⟩
      · rename_i other
        exact ⟨nofun, fun named => absurd (h.same_device named before) other⟩
    · rw [if_neg held, h hash device kind]
      split
      · rename_i own
        exact ⟨fun named => absurd (mem_held.2 ⟨kind, own ▸ named⟩) held,
          fun named => absurd named (issued kind)⟩
      · exact Iff.rfl

theorem TokensMirror.deleteDevice (h : TokensMirror s) :
    TokensMirror (deleteDevice e s userId deviceId).1 := by
  unfold Machine.deleteDevice
  split
  · exact h
  · rename_i row found
    refine h.replace (userId, deviceId) none (fun device kind => ?_) nofun nofun fun hash _ => ?_
    · unfold Store.named
      dsimp only
      rw [OrdMap.getElem?_erase']
      split <;> rfl
    · rw [found]
      exact bearer_dropTokens

theorem bearer_writeSession {c : SessionCmd} (written : writeSession s c = .ok t) (hash : Hash) :
    t.bearer hash =
      if c.refreshHash = some hash then some ((c.userId, c.deviceId), .refresh)
      else if hash = c.tokenHash then some ((c.userId, c.deviceId), .access)
      else if hash ∈ (s.device[(c.userId, c.deviceId)]?.map Device.hashes).getD [] then none
      else s.bearer hash := by
  obtain ⟨state, -, rfl⟩ := writeSession_eq_ok written
  have dropped : ∀ u : Store, u.token =
      (s.dropTokens ((s.device[(c.userId, c.deviceId)]?.map Device.hashes).getD [])).token →
      (u.putToken c.tokenHash (sessionToken c .access c.expiresTs state)).bearer hash =
        if hash = c.tokenHash then some ((c.userId, c.deviceId), .access)
        else if hash ∈ (s.device[(c.userId, c.deviceId)]?.map Device.hashes).getD [] then none
        else s.bearer hash := by
    intro u same
    rw [bearer_putToken, bearer_congr same, bearer_dropTokens]
    rfl
  dsimp only
  split
  · rename_i refresh issued
    rw [bearer_putToken, issued]
    by_cases own : hash = refresh
    · rw [if_pos own, if_pos (congrArg some own.symm)]
      rfl
    · rw [if_neg own, if_neg fun same => own (Option.some.inj same).symm]
      exact dropped _ rfl
  · rename_i none
    rw [none, if_neg nofun]
    exact dropped _ rfl

theorem TokensMirror.writeSession (h : TokensMirror s) {c : SessionCmd} (fresh : FreshSession s c)
    (written : writeSession s c = .ok t) : TokensMirror t := by
  obtain ⟨apart, fresh⟩ := fresh
  refine h.replace _ (some (sessionDevice s.device[(c.userId, c.deviceId)]? c))
    (named_insert (writeSession_device written)) (fun hash kind issued => ?_)
    (fun hash kind issued => ?_) fun hash unissued => ?_
  · refine fresh hash ?_
    cases kind with
    | access =>
      obtain rfl := Option.some.inj issued
      exact List.mem_cons_self
    | refresh =>
      have issued : c.refreshHash = some hash := issued
      rw [SessionCmd.hashes, issued]
      exact List.mem_cons_of_mem _ List.mem_cons_self
  · rw [bearer_writeSession written]
    cases kind with
    | access =>
      obtain rfl := Option.some.inj issued
      rw [if_neg apart, if_pos rfl]
    | refresh =>
      have issued : c.refreshHash = some hash := issued
      rw [if_pos issued]
  · have access : hash ≠ c.tokenHash := fun same => unissued .access (congrArg some same.symm)
    have refresh : c.refreshHash ≠ some hash := unissued .refresh
    rw [bearer_writeSession written, if_neg refresh, if_neg access]

theorem TokensMirror.logoutDevices (h : TokensMirror s) {keep : Option DeviceId} :
    TokensMirror (logoutDevices e s userId keep) := by
  have deleted : TokensMirror (deleteDevicesExcept e s userId keep).1 := by
    refine List.foldlRecOn (motive := fun r : Store × Bool => TokensMirror r.1) (e.devicesOf userId) _
      h fun r ih row _ => ?_
    dsimp only
    split
    · exact ih
    · exact ih.deleteDevice
  unfold Machine.logoutDevices
  dsimp only
  split
  · exact deleted.frame rfl rfl
  · exact deleted

theorem TokensMirror.register (h : TokensMirror s) {passwordHash : Option String} {ts : Nat}
    {session : Option SessionCmd} {registrationToken : Option String}
    (fresh : ∀ c, session = some c → FreshSession s c)
    (applied : applyRegister s userId passwordHash ts session registrationToken = .ok (t, r)) :
    TokensMirror t := by
  obtain ⟨rfl, -⟩ | ⟨u, -, -, consumed, -, opened⟩ := applyRegister_eq_ok applied
  · exact h
  have kept := consumeRegToken_frame consumed
  have token : (enrol u userId passwordHash ts).token = s.token := by rw [kept]; rfl
  have device : (enrol u userId passwordHash ts).device = s.device := by rw [kept]; rfl
  have enrolled := h.frame token device
  cases session with
  | none =>
    obtain rfl : t = enrol u userId passwordHash ts := opened
    exact enrolled
  | some c =>
    obtain ⟨apart, own⟩ := fresh c rfl
    refine enrolled.writeSession ⟨apart, fun hash mem key kind named => ?_⟩ opened
    rw [named_congr device] at named
    exact own hash mem key kind named

theorem bearer_restampTokens {state : AccountState} (h : restampTokens e s userId state = .ok t)
    (hash : Hash) : t.bearer hash = s.bearer hash := by
  have same : ∀ row, (restampRow state row).bearer = row.bearer := by
    intro row
    cases row <;> rfl
  rw [restampTokens, foldlM_restampToken] at h
  split at h
  · simp at h
  obtain rfl := Except.ok.inj h
  unfold Store.bearer
  rw [getElem?_restampRows]
  split
  · rw [Option.map_map]
    exact congrArg (fun f => s.token[hash]?.map f) (funext same)
  · rfl

theorem TokensMirror.putDevice (h : TokensMirror s) (key : UserId × DeviceId) {row : Device}
    (same : ∀ kind, row.tokenOf kind = s.named key kind) (token : t.token = s.token)
    (device : t.device = s.device.insert key row) : TokensMirror t := by
  refine h.congr (bearer_congr token) fun key' kind => ?_
  rw [named_insert device]
  split
  · rename_i own
    rw [own]
    exact same kind
  · rfl

theorem TokensMirror.apply (h : TokensMirror s) {cmd : UserCommand} (fresh : SessionsFresh s cmd)
    (applied : apply serde e s cmd = .ok (t, r)) : TokensMirror t := by
  have shape := apply_frame applied
  cases cmd with
  | register userId passwordHash ts session =>
    rw [Machine.apply] at applied
    exact h.register fresh applied
  | registerWithToken userId passwordHash ts session registrationToken =>
    rw [Machine.apply] at applied
    exact h.register fresh applied
  | createSession c =>
    obtain ⟨rfl, -⟩ | ⟨-, written, -⟩ := createSession_eq_ok applied
    · exact h
    · exact h.writeSession fresh written
  | refreshSession oldRefreshHash c =>
    obtain ⟨rfl, -⟩ | ⟨_, -, -, written, -⟩ := refreshSession_eq_ok applied
    · exact h
    · exact h.writeSession fresh written
  | deleteDevice userId deviceId =>
    obtain rfl := eq_of_ok applied
    have deleted : TokensMirror (Machine.deleteDevice e s userId deviceId).1 := h.deleteDevice
    unfold deleteOneDevice
    dsimp only
    split
    · exact deleted.frame rfl rfl
    · exact deleted
  | deleteAllDevices userId =>
    obtain rfl := eq_of_ok applied
    exact h.logoutDevices
  | changePassword userId | adminSetPassword userId =>
    obtain rfl | ⟨account, hash, -, set⟩ := setsPassword_cases applied rfl
    · exact h
    have changed := h.frame (t := s.putAccount userId { account with passwordHash := hash }) rfl rfl
    obtain rfl | ⟨keep, rfl⟩ := set
    · exact changed
    · exact changed.logoutDevices
  | deactivate userId =>
    obtain ⟨rfl, -⟩ | ⟨account, -, applied⟩ := withAccount_eq_ok applied
    · exact h
    obtain rfl := eq_of_ok applied
    have changed := h.frame (t := s.putAccount userId
      { account with state := .deactivated, passwordHash := none }) rfl rfl
    exact changed.logoutDevices
  | setLocked userId locked =>
    obtain ⟨rfl, -⟩ | ⟨account, -, applied⟩ := withAccount_eq_ok applied
    · exact h
    split at applied
    · obtain rfl := eq_of_ok applied
      exact h
    obtain ⟨v, stamped, applied⟩ := bind_eq_ok.1 applied
    obtain ⟨rfl, -⟩ := ok_pair applied
    have changed := h.frame (t := s.putAccount userId
      { account with state := if locked then .locked else .active }) rfl rfl
    exact changed.congr (bearer_restampTokens stamped) (named_congr (by rw [restampTokens_frame stamped]))
  | upsertDevice userId deviceId displayName ts =>
    obtain rfl := eq_of_ok applied
    refine h.putDevice (userId, deviceId) (fun kind => ?_) rfl rfl
    unfold Store.named
    cases s.device[(userId, deviceId)]? with
    | none => cases kind <;> rfl
    | some row => cases kind <;> rfl
  | setDeviceName userId deviceId displayName =>
    obtain rfl := eq_of_ok applied
    unfold setDeviceName
    split
    · exact h
    · rename_i row found
      refine h.putDevice (userId, deviceId) (fun kind => ?_) rfl rfl
      unfold Store.named
      rw [found]
      cases kind <;> rfl
  | _ => exact h.frame (by rw [shape]; rfl) (by rw [shape]; rfl)

theorem bearer_migrateTokens (safe : RewritesTokens e s 5) (applied : migrate e s 5 = .ok t)
    (hash : Hash) : t.bearer hash = s.bearer hash := by
  refine (foldlM_spec (I := fun _ (u : Store) => ∀ hash, u.bearer hash = s.bearer hash)
    (F := fun _ => True) (fun _ r u u' mem ih step => ?_) (fun _ _ _ _ _ _ _ => trivial)
    fun _ => rfl).1 t applied hash
  obtain ⟨state, -, step⟩ := bind_eq_ok.1 step
  obtain rfl := pure_eq_ok.1 step
  intro hash
  rw [bearer_putToken]
  split
  · rename_i own
    obtain ⟨k, row⟩ := r
    rw [own, safe k row (OrdMap.mem_toList.1 mem)]
    rfl
  · exact ih hash

theorem TokensMirror.migrate (h : TokensMirror s) {target : Nat} (safe : RewritesTokens e s target)
    (applied : migrate e s target = .ok t) : TokensMirror t := by
  have shape := migrate_frame applied
  match target with
  | 2 | 4 | 6 =>
    obtain rfl := Except.ok.inj applied
    exact h.frame rfl rfl
  | 3 => exact h.frame (by rw [migrateAccounts_frame applied]) (by rw [shape])
  | 5 => exact h.congr (bearer_migrateTokens safe applied) (named_congr (by rw [shape]))
  | 0 | 1 | n + 7 => simp [Machine.migrate] at applied

end Tokens

/-! ## Identity links -/

section Links

variable {serde : SerdeJson} {e s t : Store} {r : UserResponse} {userId : UserId}
  {authProvider externalId : String}

theorem LinksMirror.frame (h : LinksMirror s) (forward : t.externalId = s.externalId)
    (reverse : t.externalIdUser = s.externalIdUser) : LinksMirror t := by
  intro authProvider externalId userId
  rw [forward, reverse]
  exact h authProvider externalId userId

theorem LinksMirror.link (h : LinksMirror s)
    (applied : linkExternalId s userId authProvider externalId = .ok (t, r)) : LinksMirror t := by
  obtain ⟨rfl, -⟩ | ⟨account, -, applied⟩ := withAccount_eq_ok applied
  · exact h
  split at applied
  · obtain rfl := eq_of_ok applied
    exact h
  split at applied
  · obtain rfl := eq_of_ok applied
    exact h
  rename_i free
  obtain rfl := eq_of_ok applied
  -- nobody else has the subject
  have own : ∀ owner, s.externalId[(authProvider, externalId)]? = some owner → owner = userId := by
    intro owner found
    rw [found, Option.filter_eq_none_iff] at free
    simpa using free
  intro authProvider' externalId' userId'
  dsimp only
  rw [OrdMap.getElem?_insert', OrdMap.getElem?_insert']
  have same := h authProvider' externalId' userId'
  cases relinked : s.externalIdUser[(userId, authProvider)]?.filter (· ≠ externalId) with
  | some prev =>
    -- the account had another subject at the provider, which goes
    obtain ⟨had, other⟩ := Option.filter_eq_some_iff.1 relinked
    have linked := (h authProvider prev userId).2 had
    have other : prev ≠ externalId := of_decide_eq_true other
    rw [OrdMap.getElem?_erase']
    grind
  | none =>
    have kept : ∀ prev, s.externalIdUser[(userId, authProvider)]? = some prev → prev = externalId := by
      intro prev had
      rw [had, Option.filter_eq_none_iff] at relinked
      simpa using relinked
    grind

theorem LinksMirror.unlink (h : LinksMirror s) :
    LinksMirror (unlinkExternalId s userId authProvider).1 := by
  unfold unlinkExternalId
  split
  · exact h
  · rename_i externalId found
    intro authProvider' externalId' userId'
    dsimp only
    rw [OrdMap.getElem?_erase', OrdMap.getElem?_erase']
    have linked := (h authProvider externalId userId).2 found
    have same := h authProvider' externalId' userId'
    grind

theorem LinksMirror.apply (h : LinksMirror s) {cmd : UserCommand}
    (applied : apply serde e s cmd = .ok (t, r)) : LinksMirror t := by
  have shape := apply_frame applied
  cases cmd with
  | linkExternalId userId authProvider externalId => exact h.link applied
  | unlinkExternalId userId authProvider =>
    obtain rfl := eq_of_ok applied
    exact h.unlink
  | _ => exact h.frame (by rw [shape]; rfl) (by rw [shape]; rfl)

end Links

/-! ## Runs -/

section Run

open Shard (applyEntry)

variable {serde : SerdeJson} {e s : Shard.State (UserApp serde)}

/-- **Tables mirror each other.** In every state that is reached with sessions of fresh tokens, the token
rows are exactly the access and refresh tokens that the device rows name, each with its device and kind,
and the two tables of identity links are inverse to each other. -/
theorem tables_mirror
    (reach : UserReach (fun _ s cmd => SessionsFresh s cmd) RewritesTokens serde e s) :
    TokensMirror s.app ∧ LinksMirror s.app := by
  refine reach.invariant (I := fun s => TokensMirror s ∧ LinksMirror s) ⟨?_, ?_⟩ ?_ ?_
  · intro hash device kind
    simp [Store.bearer, Store.named, Store.empty]
  · intro authProvider externalId userId
    simp [Store.empty]
  · exact fun h fresh applied => ⟨h.1.apply fresh applied, h.2.apply applied⟩
  · intro e s t target h safe applied
    have shape := migrate_frame applied
    exact ⟨h.1.migrate safe applied, h.2.frame (by rw [shape]) (by rw [shape])⟩

def sampleRefreshable : Shard.Entry UserCommand :=
  ⟨⟨1, 1, 1⟩, .normal (.register "@a:x" none 0 (some ⟨"@a:x", "D", none, 7, some 8, none, 0⟩))⟩

theorem sampleRefreshable_reached : ∃ s : Shard.State (UserApp .sample),
    UserReach (fun _ s cmd => SessionsFresh s cmd) RewritesTokens .sample s s ∧
    s.app.bearer 8 = some (("@a:x", "D"), .refresh) ∧
    s.app.device.toList = [(("@a:x", "D"), ⟨none, 0, some 7, some 8⟩)] := by
  have h : (applyEntry (UserApp .sample) (.fresh Store.empty) (.fresh Store.empty)
      sampleRefreshable).toOption.any (fun x =>
        decide (x.1.app.bearer 8 = some (("@a:x", "D"), .refresh)) &&
        decide (x.1.app.device.toList = [(("@a:x", "D"), ⟨none, 0, some 7, some 8⟩)])) = true := by
    decide +kernel
  obtain ⟨⟨s, r⟩, applied, checks⟩ := (Option.any_eq_true _ _).1 h
  obtain ⟨bearer, devices⟩ := Bool.and_eq_true_iff.1 checks
  have fresh : EntryMeets (fun _ s cmd => SessionsFresh s cmd) RewritesTokens
      (Shard.State.fresh Store.empty : Shard.State (UserApp .sample)) (.fresh Store.empty)
      sampleRefreshable := by
    rintro c session
    obtain rfl := Option.some.inj session
    refine ⟨by decide, fun hash _ device kind named => ?_⟩
    simp [Store.named, Store.empty, Shard.State.fresh] at named
  exact ⟨s, ⟨_, (Batch.Recorded.start.command fresh (toOption_eq_some.1 applied)).cut⟩,
    of_decide_eq_true bearer, of_decide_eq_true devices⟩

theorem tables_mirror_refresh : ∃ s : Shard.State (UserApp .sample),
    s.app.bearer 8 = some (("@a:x", "D"), .refresh) ∧
    s.app.named ("@a:x", "D") .refresh = some 8 := by
  obtain ⟨s, reach, bearer, -⟩ := sampleRefreshable_reached
  exact ⟨s, bearer, ((tables_mirror reach).1 8 ("@a:x", "D") .refresh).1 bearer⟩

/-- A token row that is no device's access token. -/
theorem refresh_token_stored : ∃ s : Shard.State (UserApp .sample),
    UserReach (fun _ s cmd => SessionsFresh s cmd) RewritesTokens .sample s s ∧
    (8 : Hash) ∈ s.app.token ∧
    ∀ (device : UserId × DeviceId) (row : Device), s.app.device[device]? = some row →
      row.accessTokenHash ≠ some 8 := by
  obtain ⟨s, reach, bearer, devices⟩ := sampleRefreshable_reached
  refine ⟨s, reach, ?_, fun device row stored => ?_⟩
  · obtain ⟨row, stored, -⟩ := Option.map_eq_some_iff.1 bearer
    exact OrdMap.mem_iff_getElem?.2 ⟨row, stored⟩
  · have listed := OrdMap.mem_toList.2 stored
    rw [devices, List.mem_singleton] at listed
    obtain ⟨-, rfl⟩ := Prod.mk.inj listed
    decide

end Run

end Saltator.User
