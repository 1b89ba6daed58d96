import Saltator.Client.Error
import Saltator.User.MachineSpec

/-!
# Keys of other users

`/keys/query` and `/keys/claim` answer for local users from the store and ask the servers of the other
users. What these servers answer is merged section by section and key by key, whichever users it
names. Who has the last word on a user says `lastOf_allAnswered`; when that is the user's own server,
`sourced_iff`.
-/

namespace Saltator.Client

open User (JsonValue SerdeJson Bytes DeviceId ClaimRequest ClaimedKey)
open User.JsonValue (insertMember)

abbrev Members := List (String × JsonValue)

inductive KeysRequest where
  | query (caller : UserId) (body : Members)
  | claim (body : Members)

namespace KeysRequest

def path : KeysRequest → String
  | query _ _ => "/_matrix/federation/v1/user/keys/query"
  | claim _ => "/_matrix/federation/v1/user/keys/claim"

/-- The member that holds the requested users, here and in the requests to other servers. -/
def bodyKey : KeysRequest → String
  | query _ _ => "device_keys"
  | claim _ => "one_time_keys"

def body : KeysRequest → Members
  | query _ body => body
  | claim body => body

def requested (req : KeysRequest) : Members :=
  match req.body.lookup req.bodyKey with
  | some (.object requested) => requested
  | _ => []

def sections : KeysRequest → List String
  | query _ _ => ["device_keys", "master_keys", "self_signing_keys"]
  | claim _ => ["one_time_keys"]

end KeysRequest

/-- What the key endpoints use of the server's state. -/
structure KeysState where
  ruma : Ruma
  serde : SerdeJson
  serverName : String
  users : User.Store
  /-- The signed `POST` to another server, where federation is enabled. -/
  federation : Option (String → String → JsonValue → Except String JsonValue)

namespace KeysState

variable (cs : KeysState)

def isLocal (userId : UserId) : Bool :=
  if cs.ruma.isUserId userId then Ruma.userServerName userId = cs.serverName else true

/-! ## Asking other servers -/

def sectionOf (resp : JsonValue) (key : String) : Members := ((resp.get key).bind JsonValue.asObject).getD []

structure Merged where
  out : OrdMap String JsonValue
  failures : OrdMap String JsonValue
  extraMerges : List (String × OrdMap String JsonValue)

def failure (error : String) : JsonValue :=
  .object [("errcode", .string "M_UNKNOWN"), ("error", .string error)]

/-- Ask one server, and put in what it answers. -/
def proxyOne (post : String → String → JsonValue → Except String JsonValue)
    (path bodyKey mergeKey : String) (m : Merged) (r : String × Members) : Merged :=
  match post r.1 path (.object [(bodyKey, .object r.2)]) with
  | .ok resp =>
    { m with
      out := OrdMap.extend m.out (sectionOf resp mergeKey)
      extraMerges := m.extraMerges.map fun e => (e.1, OrdMap.extend e.2 (sectionOf resp e.1)) }
  | .error e => { m with failures := m.failures.insert r.1 (failure e) }

def proxyKeyRequests (path bodyKey mergeKey : String) (remote : OrdMap String Members) (m : Merged) :
    Merged :=
  match cs.federation with
  | none =>
    { m with
      failures := OrdMap.extend m.failures
        (remote.toList.map fun r => (r.1, failure "Federation is disabled")) }
  | some post => remote.toList.foldl (proxyOne post path bodyKey mergeKey) m

def askServer (remote : OrdMap String Members) (userId : UserId) (devices : JsonValue) :
    OrdMap String Members :=
  let server := Ruma.userServerName userId
  remote.insert server (insertMember userId devices (remote[server]?.getD []))

/-! ## Queries -/

/-- The devices that are asked for: `none` for all of them. -/
def wantedDevices : JsonValue → Except ApiError (Option (List DeviceId))
  | .array [] => .ok none
  | .array items =>
    .ok (some (items.filterMap fun item =>
      match item with
      | .string s => some s
      | _ => none))
  | _ => .error (.badJson "device_keys values must be lists")

def parseStored (raw : Bytes) : Except ApiError JsonValue :=
  match cs.serde.fromSlice raw with
  | some value => .ok value
  | none => .error (.internal "invalid JSON")

/-- The device's display name rides in `unsigned.device_display_name`. -/
def withDisplayName (value : JsonValue) (name : Option String) : JsonValue :=
  match value, name with
  | .object members, some name =>
    let unsigned :=
      match (members.lookup "unsigned").getD (.object []) with
      | .object u => .object (insertMember "device_display_name" (.string name) u)
      | other => other
    .object (insertMember "unsigned" unsigned members)
  | _, _ => value

def localDeviceKeys (userId : UserId) (wanted : Option (List DeviceId)) : Except ApiError JsonValue := do
  let rows := (cs.users.deviceKeys.rows fun k => k.1 = userId).filter fun r =>
    wanted.all fun w => r.1.2 ∈ w
  let members ← rows.mapM fun r => do
    let value ← cs.parseStored r.2
    return (r.1.2, withDisplayName value ((cs.users.device[(userId, r.1.2)]?).bind User.Device.displayName))
  return .object members

def localCrossSigning (userId : UserId) (kind : String) : Except ApiError (Option JsonValue) :=
  (cs.users.crossSigning[(userId, kind)]?).mapM cs.parseStored

def localUserSigning (caller userId : UserId) : Except ApiError (Option JsonValue) :=
  if userId = caller then cs.localCrossSigning userId "user_signing" else .ok none

/-- The maps that a query fills, and the users that are to be asked of other servers. -/
structure Query where
  out : OrdMap String JsonValue
  masterKeys : OrdMap String JsonValue
  selfSigningKeys : OrdMap String JsonValue
  userSigningKeys : OrdMap String JsonValue
  remote : OrdMap String Members

def Query.empty : Query := ⟨∅, ∅, ∅, ∅, ∅⟩

def put (m : OrdMap String JsonValue) (userId : UserId) (value : Option JsonValue) :
    OrdMap String JsonValue :=
  match value with
  | some value => m.insert userId value
  | none => m

def queryUser (caller : UserId) (q : Query) (r : UserId × JsonValue) : Except ApiError Query :=
  if cs.isLocal r.1 then do
    let wanted ← wantedDevices r.2
    let keys ← cs.localDeviceKeys r.1 wanted
    let master ← cs.localCrossSigning r.1 "master"
    let selfSigning ← cs.localCrossSigning r.1 "self_signing"
    let userSigning ← cs.localUserSigning caller r.1
    return {
      q with
      out := q.out.insert r.1 keys
      masterKeys := put q.masterKeys r.1 master
      selfSigningKeys := put q.selfSigningKeys r.1 selfSigning
      userSigningKeys := put q.userSigningKeys r.1 userSigning }
  else return { q with remote := askServer q.remote r.1 r.2 }

abbrev KeysAnswer := List (String × OrdMap String JsonValue)

def queryKeys (caller : UserId) (body : Members) : Except ApiError KeysAnswer :=
  match body.lookup "device_keys" with
  | some (.object requested) => do
    let q ← requested.foldlM (cs.queryUser caller) .empty
    let m := cs.proxyKeyRequests "/_matrix/federation/v1/user/keys/query" "device_keys" "device_keys"
      q.remote ⟨q.out, ∅, [("master_keys", q.masterKeys), ("self_signing_keys", q.selfSigningKeys)]⟩
    return ("device_keys", m.out) :: m.extraMerges ++
      [("user_signing_keys", q.userSigningKeys), ("failures", m.failures)]
  | _ => .ok [("device_keys", ∅)]

/-! ## Claims -/

def claimsOf (r : UserId × JsonValue) : List ClaimRequest :=
  match r.2 with
  | .object devices =>
    devices.filterMap fun d =>
      match d.2 with
      | .string algorithm => some ⟨r.1, d.1, algorithm⟩
      | _ => none
  | _ => []

def localClaims (requested : Members) : List ClaimRequest :=
  (requested.filter fun r => cs.isLocal r.1).flatMap claimsOf

def remoteUsers (requested : Members) : OrdMap String Members :=
  (requested.filter fun r => !cs.isLocal r.1).foldl (fun remote r => askServer remote r.1 r.2) ∅

def fileClaimed (out : OrdMap String JsonValue) (c : ClaimedKey) :
    Except ApiError (OrdMap String JsonValue) := do
  let value ← cs.parseStored c.keyJson
  let perUser := ((out[c.userId]?).bind JsonValue.asObject).getD []
  let perDevice := ((perUser.lookup c.deviceId).bind JsonValue.asObject).getD []
  return out.insert c.userId
    (.object (insertMember c.deviceId (.object (insertMember c.keyId value perDevice)) perUser))

def claimLocal (requested : Members) : Except ApiError (User.Store × OrdMap String JsonValue) :=
  match User.Machine.claimKeys cs.users cs.users (cs.localClaims requested) with
  | (users, .claimedKeys claimed) => do return (users, ← claimed.foldlM cs.fileClaimed ∅)
  | _ => .error (.internal "unexpected response")

def claimKeys (body : Members) : Except ApiError (User.Store × KeysAnswer) :=
  match body.lookup "one_time_keys" with
  | some (.object requested) => do
    let (users, out) ← cs.claimLocal requested
    let m := cs.proxyKeyRequests "/_matrix/federation/v1/user/keys/claim" "one_time_keys"
      "one_time_keys" (cs.remoteUsers requested) ⟨out, ∅, []⟩
    return (users, [("one_time_keys", m.out), ("failures", m.failures)])
  | _ => .ok (cs.users, [("one_time_keys", ∅)])

/-! ## Answers -/

def serveKeys : KeysRequest → Except ApiError KeysAnswer
  | .query caller body => cs.queryKeys caller body
  | .claim body => do return (← cs.claimKeys body).2

/-- What a server says of each user in a section of its answer, where it is asked about `r.2`. -/
def answered (req : KeysRequest) (key : String) (r : String × Members) : Members :=
  match cs.federation with
  | none => []
  | some post =>
    match post r.1 req.path (.object [(req.bodyKey, .object r.2)]) with
    | .ok resp => sectionOf resp key
    | .error _ => []

def Tells (req : KeysRequest) (key server : String) (u : UserId) (v : JsonValue) : Prop :=
  ∃ users, (cs.remoteUsers req.requested)[server]? = some users ∧
    Saltator.lastOf (cs.answered req key (server, users)) u = some v

def TellsLocally (req : KeysRequest) (key : String) (u : UserId) (v : JsonValue) : Prop :=
  match req with
  | .query _ _ =>
    ∃ devices, (u, devices) ∈ req.requested ∧ (key = "device_keys" ∧
          (∃ wanted, wantedDevices devices = .ok wanted ∧ cs.localDeviceKeys u wanted = .ok v) ∨
        key = "master_keys" ∧ cs.localCrossSigning u "master" = .ok (some v) ∨
        key = "self_signing_keys" ∧ cs.localCrossSigning u "self_signing" = .ok (some v))
  | .claim _ =>
    key = "one_time_keys" ∧ ∃ users out, cs.claimLocal req.requested = .ok (users, out) ∧ out[u]? = some v

def OwnWord (req : KeysRequest) (key : String) (u : UserId) (v : JsonValue) : Prop :=
  if cs.isLocal u then cs.TellsLocally req key u v
  else cs.Tells req key (Ruma.userServerName u) u v

/-- Whatever an answer holds of a user comes from the user's own server. -/
def Sourced (req : KeysRequest) (ans : KeysAnswer) : Prop :=
  ∀ key ∈ req.sections, ∀ entries, ans.lookup key = some entries →
    ∀ u v, entries[u]? = some v → cs.OwnWord req key u v

/-- The server says this of the user, and no server after it in the order of their names says
anything of the user. -/
structure LastWord (req : KeysRequest) (key server : String) (u : UserId) (v : JsonValue) : Prop where
  tells : cs.Tells req key server u v
  last : ∀ later v', compare server later = .lt → ¬ cs.Tells req key later u v'

/-- The last word on each user is what the user's own server says. -/
def Deferred (req : KeysRequest) : Prop :=
  ∀ key ∈ req.sections, ∀ server u v, cs.LastWord req key server u v → cs.OwnWord req key u v

/-! ## Merging -/

variable {cs} {req : KeysRequest} {ans : KeysAnswer} {key : String}
  {post : String → String → JsonValue → Except String JsonValue} {caller : UserId} {c : ClaimedKey}
  {out : OrdMap String JsonValue} {claimed : List ClaimedKey} {u : UserId} {r : UserId × JsonValue}
  {claim : ClaimRequest} {requested : Members} {users : User.Store}

/-- What the servers say in a section, one server after the other. -/
def allAnswered (cs : KeysState) (req : KeysRequest) (key : String) : Members :=
  (cs.remoteUsers req.requested).toList.flatMap (cs.answered req key)

theorem proxyOne_sections
    (federated : cs.federation = some post) (req : KeysRequest) (key : String) (m : Merged)
    (r : String × Members) :
    (proxyOne post req.path req.bodyKey key m r).out = OrdMap.extend m.out (cs.answered req key r) ∧
      (proxyOne post req.path req.bodyKey key m r).extraMerges =
        m.extraMerges.map fun e => (e.1, OrdMap.extend e.2 (cs.answered req e.1 r)) := by
  unfold proxyOne answered
  rw [federated]
  dsimp only
  cases post r.1 req.path (.object [(req.bodyKey, .object r.2)]) with
  | ok resp => exact ⟨rfl, rfl⟩
  | error e => exact ⟨rfl, (List.map_id _).symm⟩

theorem foldl_proxyOne (federated : cs.federation = some post) (req : KeysRequest) (key : String)
    (l : List (String × Members)) (m : Merged) :
    (l.foldl (proxyOne post req.path req.bodyKey key) m).out =
        OrdMap.extend m.out (l.flatMap (cs.answered req key)) ∧
      (l.foldl (proxyOne post req.path req.bodyKey key) m).extraMerges =
        m.extraMerges.map fun e => (e.1, OrdMap.extend e.2 (l.flatMap (cs.answered req e.1))) := by
  induction l generalizing m with
  | nil => exact ⟨rfl, (List.map_id _).symm⟩
  | cons r l ih =>
    obtain ⟨out, extra⟩ := proxyOne_sections federated req key m r
    obtain ⟨outs, extras⟩ := ih (proxyOne post req.path req.bodyKey key m r)
    rw [List.foldl_cons, outs, extras, out, extra, List.map_map]
    simp only [List.flatMap_cons, OrdMap.extend, List.foldl_append, Function.comp_def, and_self]

theorem proxyKeyRequests_sections (cs : KeysState) (req : KeysRequest) (key : String) (m : Merged) :
    (cs.proxyKeyRequests req.path req.bodyKey key (cs.remoteUsers req.requested) m).out =
        OrdMap.extend m.out (allAnswered cs req key) ∧
      (cs.proxyKeyRequests req.path req.bodyKey key (cs.remoteUsers req.requested) m).extraMerges =
        m.extraMerges.map fun e => (e.1, OrdMap.extend e.2 (allAnswered cs req e.1)) := by
  unfold proxyKeyRequests
  cases federated : cs.federation with
  | none =>
    have silent : ∀ key, allAnswered cs req key = [] := fun key => by
      simp [allAnswered, answered, federated]
    simp only [silent, OrdMap.extend, List.foldl_nil, true_and]
    exact (List.map_id _).symm
  | some post => exact foldl_proxyOne federated req key _ m

theorem lastOf_allAnswered {v : JsonValue} :
    Saltator.lastOf (allAnswered cs req key) u = some v ↔ ∃ server, cs.LastWord req key server u v := by
  rw [allAnswered, lastOf_flatMap Std.ExtTreeMap.ordered_keys_toList]
  simp only [Prod.exists, OrdMap.mem_toList]
  constructor
  · rintro ⟨server, users, asked, word, last⟩
    refine ⟨server, ⟨users, asked, word⟩, ?_⟩
    rintro later v' after ⟨users', asked', word'⟩
    have := last (later, users') (OrdMap.mem_toList.2 asked') after
    cases this.symm.trans word'
  · rintro ⟨server, ⟨users, asked, word⟩, last⟩
    refine ⟨server, users, asked, word, fun r mem after => Option.eq_none_iff_forall_ne_some.2 ?_⟩
    exact fun v' word' =>
      last r.1 v' after ⟨r.2, OrdMap.mem_toList.1 mem, word'⟩

/-! ## What the local store says -/

def Told (cs : KeysState) (requested : Members) (tells : JsonValue → UserId → JsonValue → Prop)
    (m : OrdMap String JsonValue) : Prop :=
  ∀ u v, m[u]? = some v → cs.isLocal u = true ∧ ∃ devices, (u, devices) ∈ requested ∧ tells devices u v

section Told

variable {requested done : Members} {tells : JsonValue → UserId → JsonValue → Prop}
  {m : OrdMap String JsonValue} {r : UserId × JsonValue}

theorem Told.empty : Told cs requested tells ∅ := fun _ _ found => by simp at found

theorem Told.mono (told : Told cs done tells m) (sub : done ⊆ requested) : Told cs requested tells m := by
  intro u v found
  obtain ⟨isLocal, devices, mem, said⟩ := told u v found
  exact ⟨isLocal, devices, sub mem, said⟩

theorem Told.insert (told : Told cs done tells m) (isLocal : cs.isLocal r.1 = true) {value : JsonValue}
    (said : tells r.2 r.1 value) : Told cs (done ++ [r]) tells (m.insert r.1 value) := by
  intro u v found
  rw [OrdMap.getElem?_insert'] at found
  split at found
  · rename_i same
    obtain rfl := Option.some.inj found
    exact same ▸ ⟨isLocal, r.2, by simp, said⟩
  · exact told.mono (List.subset_append_left _ _) u v found

theorem Told.put (told : Told cs done tells m) (isLocal : cs.isLocal r.1 = true)
    {value : Option JsonValue} (said : ∀ v, value = some v → tells r.2 r.1 v) :
    Told cs (done ++ [r]) tells (put m r.1 value) := by
  cases value with
  | none => exact told.mono (List.subset_append_left _ _)
  | some v => exact told.insert isLocal (said v rfl)

end Told

/-- The maps of a query that has come through the requested users. -/
structure Queried (cs : KeysState) (requested : Members) (q : Query) : Prop where
  out : Told cs requested (fun devices u v =>
    ∃ wanted, wantedDevices devices = .ok wanted ∧ cs.localDeviceKeys u wanted = .ok v) q.out
  masterKeys : Told cs requested (fun _ u v => cs.localCrossSigning u "master" = .ok (some v)) q.masterKeys
  selfSigningKeys :
    Told cs requested (fun _ u v => cs.localCrossSigning u "self_signing" = .ok (some v)) q.selfSigningKeys
  remote : q.remote = cs.remoteUsers requested

theorem remoteUsers_append (requested : Members) (r : UserId × JsonValue) :
    cs.remoteUsers (requested ++ [r]) =
      if cs.isLocal r.1 then cs.remoteUsers requested
      else askServer (cs.remoteUsers requested) r.1 r.2 := by
  unfold remoteUsers
  rw [List.filter_append, List.foldl_append]
  cases isLocal : cs.isLocal r.1 <;> simp [isLocal]

theorem queried_step {done : Members} {q q' : Query}
    (queried : Queried cs done q) (h : cs.queryUser caller q r = .ok q') :
    Queried cs (done ++ [r]) q' := by
  obtain ⟨out, masterKeys, selfSigningKeys, remote⟩ := queried
  unfold queryUser at h
  split at h
  · rename_i isLocal
    obtain ⟨wanted, asked, h⟩ := Outcome.bind_eq_ok.1 h
    obtain ⟨keys, hkeys, h⟩ := Outcome.bind_eq_ok.1 h
    obtain ⟨master, hmaster, h⟩ := Outcome.bind_eq_ok.1 h
    obtain ⟨selfSigning, hself, h⟩ := Outcome.bind_eq_ok.1 h
    obtain ⟨userSigning, -, h⟩ := Outcome.bind_eq_ok.1 h
    obtain rfl := Outcome.pure_eq_ok.1 h
    refine ⟨out.insert isLocal ⟨wanted, asked, hkeys⟩, masterKeys.put isLocal ?_,
      selfSigningKeys.put isLocal ?_, ?_⟩
    · rintro v rfl
      exact hmaster
    · rintro v rfl
      exact hself
    · rw [remoteUsers_append, if_pos isLocal, remote]
  · rename_i elsewhere
    obtain rfl := Outcome.pure_eq_ok.1 h
    have sub : done ⊆ done ++ [r] := List.subset_append_left _ _
    refine ⟨out.mono sub, masterKeys.mono sub, selfSigningKeys.mono sub, ?_⟩
    rw [remoteUsers_append, if_neg elsewhere, remote]

theorem queried {q : Query}
    (h : requested.foldlM (cs.queryUser caller) .empty = .ok q) : Queried cs requested q := by
  refine (Outcome.foldlM_spec (I := Queried cs) (F := fun _ => True)
    (fun done r q q' _ queried h => queried_step queried h) (fun _ _ _ _ _ _ _ => trivial) ?_).1 q h
  exact ⟨.empty, .empty, .empty, rfl⟩

theorem claimKey_userId {e s : User.Store}
    (h : (User.Machine.claimKey e s claim).2 = some c) : c.userId = claim.userId := by
  unfold User.Machine.claimKey at h
  split at h
  · exact (Option.some.inj h) ▸ rfl
  · unfold User.Machine.claimFallback at h
    dsimp only at h
    split at h
    · cases h
    · exact (Option.some.inj h) ▸ rfl

theorem claimKeys_userId {e s users : User.Store} {claims : List ClaimRequest}
    (h : User.Machine.claimKeys e s claims = (users, .claimedKeys claimed))
    (mem : c ∈ claimed) : ∃ claim ∈ claims, c.userId = claim.userId := by
  rw [User.Machine.claimKeys_eq] at h
  obtain ⟨-, same⟩ := Prod.mk.inj h
  rw [← User.UserResponse.claimedKeys.inj same] at mem
  clear h same
  refine List.foldlRecOn (motive := fun x : User.Store × List ClaimedKey =>
    c ∈ x.2 → ∃ claim ∈ claims, c.userId = claim.userId) claims _ (fun mem => by simp at mem)
    (fun x ih claim asked mem => ?_) mem
  rcases List.mem_append.1 mem with mem | mem
  · exact ih mem
  · exact ⟨claim, asked, claimKey_userId (Option.mem_toList.1 mem)⟩

theorem fileClaimed_cases {out out' : OrdMap String JsonValue}
    (h : cs.fileClaimed out c = .ok out') : ∃ value, out' = out.insert c.userId value := by
  obtain ⟨value, -, h⟩ := Outcome.bind_eq_ok.1 h
  exact ⟨_, (Outcome.pure_eq_ok.1 h).symm⟩

theorem claimsOf_userId (h : claim ∈ claimsOf r) : claim.userId = r.1 := by
  unfold claimsOf at h
  split at h
  · obtain ⟨d, -, h⟩ := List.mem_filterMap.1 h
    split at h
    · exact (Option.some.inj h) ▸ rfl
    · cases h
  · cases h

theorem filed_userId (h : claimed.foldlM cs.fileClaimed ∅ = .ok out) (found : u ∈ out) :
    ∃ c ∈ claimed, c.userId = u := by
  refine (Outcome.foldlM_spec
    (I := fun done (out : OrdMap String JsonValue) => ∀ u ∈ out, ∃ c ∈ done, c.userId = u)
    (F := fun _ => True) (fun done c out out' _ ih h u found => ?_) (fun _ _ _ _ _ _ _ => trivial)
    (by simp)).1 out h u found
  obtain ⟨value, rfl⟩ := fileClaimed_cases h
  obtain ⟨v, found⟩ := OrdMap.mem_iff_getElem?.1 found
  rw [OrdMap.getElem?_insert'] at found
  split at found
  · rename_i same
    exact ⟨c, by simp, same.symm⟩
  · obtain ⟨c', mem, same⟩ := ih u (OrdMap.mem_iff_getElem?.2 ⟨v, found⟩)
    exact ⟨c', List.mem_append_left _ mem, same⟩

theorem claimLocal_isLocal (h : cs.claimLocal requested = .ok (users, out)) {v : JsonValue}
    (found : out[u]? = some v) : cs.isLocal u = true := by
  unfold claimLocal at h
  split at h
  · rename_i users' claimed hclaims
    obtain ⟨out', filed, h⟩ := Outcome.bind_eq_ok.1 h
    obtain ⟨-, rfl⟩ := Prod.mk.inj (Outcome.pure_eq_ok.1 h)
    obtain ⟨c, mem, rfl⟩ := filed_userId filed (OrdMap.mem_iff_getElem?.2 ⟨v, found⟩)
    obtain ⟨claim, asked, same⟩ := claimKeys_userId hclaims mem
    obtain ⟨r, mem, asked⟩ := List.mem_flatMap.1 asked
    rw [same, claimsOf_userId asked]
    exact (List.mem_filter.1 mem).2
  · cases h

/-- What a section holds before other servers have been asked. -/
def Local (cs : KeysState) (req : KeysRequest) (key : String) (base : OrdMap String JsonValue) : Prop :=
  ∀ u v, base[u]? = some v → cs.isLocal u = true ∧ cs.TellsLocally req key u v

theorem queryKeys_spec {body requested : Members}
    (found : body.lookup "device_keys" = some (.object requested))
    (h : cs.queryKeys caller body = .ok ans) (mem : key ∈ (KeysRequest.query caller body).sections) :
    ∃ base, Local cs (.query caller body) key base ∧
      ans.lookup key = some (OrdMap.extend base (allAnswered cs (.query caller body) key)) := by
  have asked : (KeysRequest.query caller body).requested = requested := by
    simp [KeysRequest.requested, KeysRequest.body, KeysRequest.bodyKey, found]
  unfold queryKeys at h
  rw [found] at h
  obtain ⟨q, hq, h⟩ := Outcome.bind_eq_ok.1 h
  obtain ⟨out, masterKeys, selfSigningKeys, remote⟩ := queried hq
  obtain ⟨merged, extra⟩ := proxyKeyRequests_sections cs (.query caller body) "device_keys"
    ⟨q.out, ∅, [("master_keys", q.masterKeys), ("self_signing_keys", q.selfSigningKeys)]⟩
  have listed := Outcome.pure_eq_ok.1 h
  rw [← asked] at out masterKeys selfSigningKeys remote
  rw [remote] at listed
  simp only [KeysRequest.path, KeysRequest.bodyKey, List.map_cons, List.map_nil] at merged extra
  rw [merged, extra] at listed
  subst ans
  simp only [KeysRequest.sections, List.mem_cons, List.not_mem_nil, or_false] at mem
  obtain rfl | rfl | rfl := mem
  · refine ⟨q.out, fun u v found => ?_, by simp⟩
    obtain ⟨isLocal, devices, mem, told⟩ := out u v found
    exact ⟨isLocal, devices, mem, .inl ⟨rfl, told⟩⟩
  · refine ⟨q.masterKeys, fun u v found => ?_, by simp [List.lookup_cons]⟩
    obtain ⟨isLocal, devices, mem, told⟩ := masterKeys u v found
    exact ⟨isLocal, devices, mem, .inr (.inl ⟨rfl, told⟩)⟩
  · refine ⟨q.selfSigningKeys, fun u v found => ?_, by simp [List.lookup_cons]⟩
    obtain ⟨isLocal, devices, mem, told⟩ := selfSigningKeys u v found
    exact ⟨isLocal, devices, mem, .inr (.inr ⟨rfl, told⟩)⟩

theorem claimKeys_spec {body requested : Members}
    (found : body.lookup "one_time_keys" = some (.object requested))
    (h : cs.claimKeys body = .ok (users, ans)) (mem : key ∈ (KeysRequest.claim body).sections) :
    ∃ base, Local cs (.claim body) key base ∧
      ans.lookup key = some (OrdMap.extend base (allAnswered cs (.claim body) key)) := by
  have asked : (KeysRequest.claim body).requested = requested := by
    simp [KeysRequest.requested, KeysRequest.body, KeysRequest.bodyKey, found]
  obtain rfl := List.mem_singleton.1 mem
  unfold claimKeys at h
  rw [found] at h
  obtain ⟨⟨users', out⟩, claimed, h⟩ := Outcome.bind_eq_ok.1 h
  obtain ⟨-, listed⟩ := Prod.mk.inj (Outcome.pure_eq_ok.1 h)
  have merged := (proxyKeyRequests_sections cs (.claim body) "one_time_keys" ⟨out, ∅, []⟩).1
  rw [← asked] at claimed listed
  simp only [KeysRequest.path, KeysRequest.bodyKey] at merged
  rw [merged] at listed
  subst ans
  refine ⟨out, fun u v found => ⟨claimLocal_isLocal claimed found, rfl, users', out, claimed, found⟩, ?_⟩
  simp

theorem requested_eq_nil (h : ¬ ∃ requested, req.body.lookup req.bodyKey = some (.object requested)) :
    req.requested = [] := by
  unfold KeysRequest.requested
  split
  · rename_i requested found
    exact absurd ⟨requested, found⟩ h
  · rfl

theorem serveKeys_spec (h : cs.serveKeys req = .ok ans) (mem : key ∈ req.sections) :
    (∃ base, Local cs req key base ∧ ans.lookup key = some (OrdMap.extend base (allAnswered cs req key))) ∨
      req.requested = [] ∧ ∀ entries, ans.lookup key = some entries → entries = ∅ := by
  by_cases found : ∃ requested, req.body.lookup req.bodyKey = some (.object requested)
  · obtain ⟨requested, found⟩ := found
    cases req with
    | query caller body => exact .inl (queryKeys_spec found h mem)
    | claim body =>
      obtain ⟨⟨users, ans'⟩, claimed, answered⟩ := Outcome.bind_eq_ok.1 h
      obtain rfl := Outcome.pure_eq_ok.1 answered
      exact .inl (claimKeys_spec found claimed mem)
  · refine .inr ⟨requested_eq_nil found, fun entries listed => ?_⟩
    have only : ∀ name : String, ([(name, ∅)] : KeysAnswer).lookup key = some entries → entries = ∅ := by
      intro name listed
      rw [List.lookup_cons] at listed
      split at listed
      · exact (Option.some.inj listed).symm
      · cases listed
    cases req with
    | query caller body =>
      change cs.queryKeys caller body = .ok ans at h
      unfold queryKeys at h
      split at h
      · rename_i requested mem
        exact absurd ⟨requested, mem⟩ found
      · exact only _ (Except.ok.inj h ▸ listed)
    | claim body =>
      obtain ⟨⟨users, ans'⟩, claimed, answered⟩ := Outcome.bind_eq_ok.1 h
      obtain rfl := Outcome.pure_eq_ok.1 answered
      unfold claimKeys at claimed
      split at claimed
      · rename_i requested mem
        exact absurd ⟨requested, mem⟩ found
      · exact only _ ((ok_pair claimed).2 ▸ listed)

/-- An answer holds only what users' own servers say of them exactly when, of the servers that are
asked, the last one to speak of a user says what the user's own server says. -/
theorem sourced_iff (h : cs.serveKeys req = .ok ans) : cs.Sourced req ans ↔ cs.Deferred req := by
  constructor
  · intro sourced key mem server u v word
    obtain ⟨base, -, listed⟩ | ⟨nobody, -⟩ := serveKeys_spec h mem
    · refine sourced key mem _ listed u v ?_
      rw [OrdMap.getElem?_extend, lastOf_allAnswered.2 ⟨server, word⟩, Option.some_or]
    · obtain ⟨users, asked, -⟩ := word.tells
      simp [nobody, remoteUsers] at asked
  · intro deferred key mem entries listed u v found
    obtain ⟨base, localized, same⟩ | ⟨-, empty⟩ := serveKeys_spec h mem
    · obtain rfl := some_unique same listed
      rw [OrdMap.getElem?_extend, Option.or_eq_some_iff] at found
      obtain word | ⟨-, found⟩ := found
      · obtain ⟨server, word⟩ := lastOf_allAnswered.1 word
        exact deferred key mem server u v word
      · obtain ⟨isLocal, told⟩ := localized u v found
        rw [OwnWord, if_pos isLocal]
        exact told
    · simp [empty entries listed] at found

end KeysState

/-! ## A forged answer -/

def sampleKeysState : KeysState where
  ruma := .sample
  serde := .sample
  serverName := "x"
  users := .empty
  federation := some fun _ _ _ =>
    .ok (.object [("device_keys", .object [("@a:x", .object [("D", .object [])])])])

def sampleKeysQuery : KeysRequest :=
  .query "@a:x" [("device_keys", .object [("@a:x", .array []), ("@b:y", .array [])])]

/-- The query is answered. -/
theorem sourced_iff_sample : ∃ ans, sampleKeysState.serveKeys sampleKeysQuery = .ok ans ∧
    (sampleKeysState.Sourced sampleKeysQuery ans ↔ sampleKeysState.Deferred sampleKeysQuery) := by
  have served : (sampleKeysState.serveKeys sampleKeysQuery).toOption.isSome = true := by decide +kernel
  obtain ⟨ans, h⟩ := Option.isSome_iff_exists.1 served
  have h := Outcome.toOption_eq_some.1 h
  exact ⟨ans, h, KeysState.sourced_iff h⟩

/-- The other server's keys replace those of a user of this server. -/
theorem local_keys_forged : ∃ ans, sampleKeysState.serveKeys sampleKeysQuery = .ok ans ∧
    ¬ sampleKeysState.Sourced sampleKeysQuery ans := by
  have served : (sampleKeysState.serveKeys sampleKeysQuery).toOption.any (fun ans =>
      (ans.lookup "device_keys").any fun entries =>
        (entries["@a:x"]?).any fun v => (v.get "D").isSome) = true := by decide +kernel
  simp only [Option.any_eq_true] at served
  obtain ⟨ans, h, entries, listed, v, found, forged⟩ := served
  refine ⟨ans, Outcome.toOption_eq_some.1 h, fun sourced => ?_⟩
  have own := sourced "device_keys" List.mem_cons_self entries listed "@a:x" v found
  rw [KeysState.OwnWord, if_pos (by decide +kernel)] at own
  obtain ⟨devices, -, ⟨-, wanted, -, keys⟩ | ⟨other, -⟩ | ⟨other, -⟩⟩ := own
  · have none : sampleKeysState.localDeviceKeys "@a:x" wanted = .ok (.object []) := by
      simp [KeysState.localDeviceKeys, sampleKeysState, User.Store.empty, OrdMap.rows]
      rfl
    obtain rfl := ok_unique keys none
    simp [JsonValue.get, JsonValue.asObject] at forged
  · simp at other
  · simp at other

end Saltator.Client
