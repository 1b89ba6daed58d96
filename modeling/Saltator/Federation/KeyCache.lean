import Saltator.Federation.JoinClient

/-!
# Server keys and signed requests

A request of another server is accepted when its signature verifies under a key that the server has
published. The published document is fetched, checked and cached; the keys that it has retired are
put beside the current ones, for the events that they signed. Requests are checked against the same
map, and a document that was just fetched is used whatever its own limit says: `honoured_iff` is
about what follows from that.
-/

namespace Saltator.Federation

/-- The external library's check of signed objects. -/
structure Signing where
  verifyJson : PublicKeyMap → JsonObject → Except String Unit
  /-- The signature was made over the object with the key, whose id names a known algorithm. -/
  genuine : (keyId key signature : String) → JsonObject → Prop

def withSignature (server keyId signature : String) (object : JsonObject) : JsonObject :=
  insertMember "signatures" (.object [(server, .object [(keyId, .string signature)])]) object

structure Signing.Lawful (signing : Signing) : Prop where
  single : ∀ keys server keyId signature object, object.lookup "signatures" = none →
    (signing.verifyJson keys (withSignature server keyId signature object) = .ok () ↔
      ∃ key, (keys[server]?).bind (fun set => set[keyId]?) = some key ∧
        signing.genuine keyId key signature object)

/-! ## Published keys -/

inductive KeyError where
  | http (error : String)
  | status (code : Nat)
  | malformed (reason : String)
  | badSelfSignature (error : String)
  | ssrf (reason : String)
  deriving DecidableEq, Repr

/-- Verified keys for one server. -/
structure CachedKeys where
  keys : PublicKeyMap
  validUntilMs : Nat
  /-- The response as it came. -/
  raw : JsonObject

/-- Seven days. -/
def maxKeyAgeMs : Nat := 7 * 24 * 60 * 60 * 1000

section Documents

variable (ruma : Ruma) (signing : Signing)

def keyText (entry : Json) : Option String :=
  match entry with
  | .object o => strProp o "key"
  | _ => none

def verifyKey (keySet : OrdMap String String) (r : String × Json) :
    Except KeyError (OrdMap String String) :=
  match keyText r.2 with
  | none => .error (.malformed "verify_keys entry missing key")
  | some b64 =>
    if (ruma.base64 b64).isSome then .ok (keySet.insert r.1 b64)
    else .error (.malformed "key not base64")

/-- A retired key never displaces a current one; malformed entries are skipped. -/
def oldVerifyKey (keySet : OrdMap String String) (r : String × Json) : OrdMap String String :=
  match keyText r.2 with
  | none => keySet
  | some b64 =>
    if (ruma.base64 b64).isSome ∧ keySet[r.1]? = none then keySet.insert r.1 b64 else keySet

def validUntilTs (doc : JsonObject) : Nat := natProp doc "valid_until_ts"

/-- What is wrong with a document's `server_name`. -/
def checkServerName (server : String) (doc : JsonObject) : Except KeyError Unit :=
  if strProp doc "server_name" = some server then .ok ()
  else .error (.malformed "server_name missing or mismatched")

/-- The keys under `verify_keys`. -/
def verifyKeys (doc : JsonObject) : Except KeyError (OrdMap String String) := do
  match objProp doc "verify_keys" with
  | none => .error (.malformed "verify_keys missing")
  | some entries =>
    let keySet ← entries.foldlM (verifyKey ruma) ∅
    if keySet.isEmpty then .error (.malformed "no verify_keys") else .ok keySet

def checkSelfSignature (server : String) (keySet : OrdMap String String) (doc : JsonObject) :
    Except KeyError Unit :=
  (signing.verifyJson ((∅ : PublicKeyMap).insert server keySet) doc).mapError .badSelfSignature

/-- Validate a `/key/v2/server` body, which is `none` where it is no canonical JSON. -/
def parseAndVerify (server : String) (body : Option Json) (now : Nat) : Except KeyError CachedKeys :=
  match body with
  | some (.object doc) => do
    checkServerName server doc
    let keySet ← verifyKeys ruma doc
    checkSelfSignature signing server keySet doc
    let keySet := ((objProp doc "old_verify_keys").getD []).foldl (oldVerifyKey ruma) keySet
    return {
      keys := (∅ : PublicKeyMap).insert server keySet
      validUntilMs := min (validUntilTs doc) (now + maxKeyAgeMs)
      raw := doc }
  | _ => .error (.malformed "response is not a JSON object")

/-! ## The cache -/

abbrev KeyCache := OrdMap String CachedKeys

/-- What comes of the HTTP request to a server: an error, or a body. -/
abbrev HttpAnswer := Except KeyError (Option Json)

namespace KeyCache

def fetch (server : String) (now : Nat) (answer : HttpAnswer) : Except KeyError CachedKeys := do
  parseAndVerify ruma signing server (← answer) now

def fresh (cache : KeyCache) (server : String) (now : Nat) : Option CachedKeys :=
  (cache[server]?).filter fun entry => now < entry.validUntilMs

def keysFor (cache : KeyCache) (server : String) (now : Nat) (answer : HttpAnswer) :
    Except KeyError PublicKeyMap × KeyCache :=
  match cache.fresh server now with
  | some entry => (.ok entry.keys, cache)
  | none =>
    match fetch ruma signing server now answer with
    | .ok cached => (.ok cached.keys, cache.insert server cached)
    | .error e => (.error e, cache)

/-- The document as the notary serves it: a stale one rather than none. -/
def rawKeysFor (cache : KeyCache) (server : String) (now minValid : Nat) (answer : HttpAnswer) :
    Option JsonObject × KeyCache :=
  match (cache.fresh server now).filter fun entry => minValid ≤ entry.validUntilMs with
  | some entry => (some entry.raw, cache)
  | none =>
    match fetch ruma signing server now answer with
    | .ok cached => (some cached.raw, cache.insert server cached)
    | .error _ => ((cache[server]?).map CachedKeys.raw, cache)

end KeyCache

end Documents

/-! ## Documents and the cache -/

section

variable {ruma : Ruma} {signing : Signing} {server : String} {doc : JsonObject} {now fetched : Nat}
  {entry : CachedKeys}

def currentKey (ruma : Ruma) (doc : JsonObject) (keyId : String) : Option String :=
  (verifyKeys ruma doc).toOption.bind fun keySet => keySet[keyId]?

def oldEntry (ruma : Ruma) (doc : JsonObject) (keyId : String) : Option Json :=
  (((objProp doc "old_verify_keys").getD []).find? fun r =>
    r.1 = keyId ∧ (keyText r.2).any fun b64 => (ruma.base64 b64).isSome).map Prod.snd

def listedKey (ruma : Ruma) (doc : JsonObject) (keyId : String) : Option String :=
  (currentKey ruma doc keyId).or ((oldEntry ruma doc keyId).bind keyText)

theorem foldl_oldVerifyKey (rows : JsonObject) (keySet : OrdMap String String) (keyId : String) :
    (rows.foldl (oldVerifyKey ruma) keySet)[keyId]? = keySet[keyId]?.or (((rows.find? fun r =>
        r.1 = keyId ∧ (keyText r.2).any fun b64 => (ruma.base64 b64).isSome).map Prod.snd).bind
          keyText) := by
  induction rows generalizing keySet with
  | nil => simp
  | cons r rows ih =>
    rw [List.foldl_cons, ih, List.find?_cons]
    unfold oldVerifyKey
    cases text : keyText r.2 with
    | none => simp
    | some b64 =>
      by_cases parses : (ruma.base64 b64).isSome
      · by_cases same : r.1 = keyId
        · subst same
          cases held : keySet[r.1]? <;> simp [parses, held, text]
        · have other : ¬ keyId = r.1 := fun eq => same eq.symm
          cases keySet[r.1]? <;> simp [parses, OrdMap.getElem?_insert', same, other]
      · simp [parses]

/-- The document was found in order at the time, and this is the entry made of it. -/
def Parsed (ruma : Ruma) (signing : Signing) (server : String) (doc : JsonObject) (fetched : Nat)
    (entry : CachedKeys) : Prop :=
  parseAndVerify ruma signing server (some (.object doc)) fetched = .ok entry

theorem parsed_of_ok {body : Option Json}
    (h : parseAndVerify ruma signing server body fetched = .ok entry) :
    body = some (.object entry.raw) ∧ Parsed ruma signing server entry.raw fetched entry := by
  have whole := h
  unfold parseAndVerify at h
  split at h
  · rename_i doc
    obtain ⟨_, -, h⟩ := Outcome.bind_eq_ok.1 h
    obtain ⟨keySet, -, h⟩ := Outcome.bind_eq_ok.1 h
    obtain ⟨_, -, h⟩ := Outcome.bind_eq_ok.1 h
    obtain rfl := Outcome.pure_eq_ok.1 h
    exact ⟨rfl, whole⟩
  · cases h

theorem Parsed.spec (parsed : Parsed ruma signing server doc fetched entry) :
    entry.validUntilMs = min (validUntilTs doc) (fetched + maxKeyAgeMs) ∧
      ∀ keyId, (entry.keys[server]?).bind (fun set => set[keyId]?) = listedKey ruma doc keyId := by
  unfold Parsed parseAndVerify at parsed
  obtain ⟨_, -, parsed⟩ := Outcome.bind_eq_ok.1 parsed
  obtain ⟨keySet, current, parsed⟩ := Outcome.bind_eq_ok.1 parsed
  obtain ⟨_, -, parsed⟩ := Outcome.bind_eq_ok.1 parsed
  obtain rfl := Outcome.pure_eq_ok.1 parsed
  refine ⟨rfl, fun keyId => ?_⟩
  simp only [OrdMap.getElem?_insert', if_pos, Option.bind_some, foldl_oldVerifyKey, listedKey, currentKey,
    oldEntry, current, Except.toOption]

namespace KeyCache

variable {cache : KeyCache} {answer : HttpAnswer}

inductive Call where
  | keysFor (server : String) (now : Nat) (answer : HttpAnswer)
  | rawKeysFor (server : String) (now minValid : Nat) (answer : HttpAnswer)

def step (ruma : Ruma) (signing : Signing) (cache : KeyCache) : Call → KeyCache
  | .keysFor server now answer => (cache.keysFor ruma signing server now answer).2
  | .rawKeysFor server now minValid answer => (cache.rawKeysFor ruma signing server now minValid answer).2

def run (ruma : Ruma) (signing : Signing) (calls : List Call) : KeyCache :=
  calls.foldl (step ruma signing) ∅

/-- Each entry was made of a document that was found in order. -/
def Sound (ruma : Ruma) (signing : Signing) (cache : KeyCache) : Prop :=
  ∀ server entry, cache[server]? = some entry → ∃ fetched, Parsed ruma signing server entry.raw fetched entry

theorem fetch_eq_ok (h : fetch ruma signing server now answer = .ok entry) :
    answer = .ok (some (.object entry.raw)) ∧ Parsed ruma signing server entry.raw now entry := by
  obtain ⟨body, rfl, h⟩ := Outcome.bind_eq_ok.1 h
  obtain ⟨rfl, parsed⟩ := parsed_of_ok h
  exact ⟨rfl, parsed⟩

theorem Sound.insert (sound : Sound ruma signing cache)
    (parsed : Parsed ruma signing server entry.raw now entry) :
    Sound ruma signing (cache.insert server entry) := by
  intro other entry' held
  rw [OrdMap.getElem?_insert'] at held
  split at held
  · rename_i same
    obtain rfl := Option.some.inj held
    exact ⟨now, same ▸ parsed⟩
  · exact sound other entry' held

theorem Sound.step (sound : Sound ruma signing cache) (call : Call) :
    Sound ruma signing (step ruma signing cache call) := by
  cases call with
  | keysFor server now answer =>
    simp only [KeyCache.step, keysFor]
    split
    · exact sound
    · split
      · rename_i cached h
        exact sound.insert (fetch_eq_ok h).2
      · exact sound
  | rawKeysFor server now minValid answer =>
    simp only [KeyCache.step, rawKeysFor]
    split
    · exact sound
    · split
      · rename_i cached h
        exact sound.insert (fetch_eq_ok h).2
      · exact sound

theorem run_sound (calls : List Call) : Sound ruma signing (run ruma signing calls) := by
  refine List.foldlRecOn (motive := Sound ruma signing) calls _ ?_ fun cache sound call _ => sound.step call
  intro server entry held
  simp at held

/-- The document that a server's requests are checked against, and when it was fetched. -/
def InUse (ruma : Ruma) (signing : Signing) (cache : KeyCache) (server : String) (now : Nat)
    (answer : HttpAnswer) (doc : JsonObject) (fetched : Nat) : Prop :=
  ∃ entry, Parsed ruma signing server doc fetched entry ∧ (cache.fresh server now = some entry ∨
      cache.fresh server now = none ∧ fetched = now ∧ answer = .ok (some (.object doc)))

theorem keysFor_inUse (sound : Sound ruma signing cache) {keys : PublicKeyMap}
    (h : (cache.keysFor ruma signing server now answer).1 = .ok keys) :
    ∃ doc fetched, InUse ruma signing cache server now answer doc fetched ∧
      ∀ keyId, (keys[server]?).bind (fun set => set[keyId]?) = listedKey ruma doc keyId := by
  unfold keysFor at h
  split at h
  · rename_i entry fresh
    obtain rfl := Except.ok.inj h
    obtain ⟨fetched, parsed⟩ := sound server entry (Option.filter_eq_some_iff.1 fresh).1
    exact ⟨entry.raw, fetched, ⟨entry, parsed, .inl fresh⟩, parsed.spec.2⟩
  · rename_i stale
    split at h
    · rename_i entry hfetch
      obtain rfl := Except.ok.inj h
      obtain ⟨answered, parsed⟩ := fetch_eq_ok hfetch
      exact ⟨entry.raw, now, ⟨entry, parsed, .inr ⟨stale, rfl, answered⟩⟩, parsed.spec.2⟩
    · cases h

end KeyCache

end

/-! ## Signed requests -/

/-- Parameters of an `X-Matrix` authorization header. -/
structure AuthParams where
  origin : String
  destination : Option String
  keyId : String
  signature : String
  deriving DecidableEq

inductive AuthError where
  | malformed (reason : String)
  | wrongDestination
  | badSignature (error : String)
  deriving DecidableEq, Repr

def quotedValue : List Char → List Char × List Char
  | [] => ([], [])
  | '\\' :: c :: rest => (c :: (quotedValue rest).1, (quotedValue rest).2)
  | ['\\'] => ([], [])
  | '\"' :: rest => ([], rest)
  | c :: rest => (c :: (quotedValue rest).1, (quotedValue rest).2)

def paramValue : List Char → List Char × List Char
  | '\"' :: rest => quotedValue rest
  | rest => (trim (rest.takeWhile (· ≠ ',')), rest.dropWhile (· ≠ ','))

/-- The `name=value` pairs of a header, of which there are at most `fuel`. -/
def splitParams : Nat → List Char → List (String × String)
  | 0, _ => []
  | fuel + 1, s =>
    let s := s.dropWhile fun c => isWhiteSpace c || c == ','
    match s.dropWhile (· ≠ '=') with
    | [] => []
    | _ :: rest =>
      (String.ofList (trim (s.takeWhile (· ≠ '='))), String.ofList (paramValue rest).1) ::
        splitParams fuel (paramValue rest).2

def lastParam (params : List (String × String)) (names : List String) : Option String :=
  (params.reverse.find? fun p => p.1.map Char.toLower ∈ names).map Prod.snd

def requireParam (params : List (String × String)) (names : List String) (missing : String) :
    Except AuthError String :=
  match lastParam params names with
  | some value => .ok value
  | none => .error (.malformed missing)

def parseAuthorization (header : String) : Except AuthError AuthParams :=
  if "X-Matrix".toList.isPrefixOf header.toList then do
    let rest := (header.toList.drop 8).dropWhile isWhiteSpace
    let params := splitParams rest.length rest
    let origin ← requireParam params ["origin"] "missing origin"
    let keyId ← requireParam params ["key"] "missing key"
    let signature ← requireParam params ["sig", "signature"] "missing signature"
    return { origin, destination := lastParam params ["destination"], keyId, signature }
  else .error (.malformed "not an X-Matrix header")

/-- What a request's signature is over. -/
def signingObject (method uri origin destination : String) (content : Option Json) : JsonObject :=
  (content.map fun c => ("content", c)).toList ++
    [("destination", .string destination), ("method", .string method), ("origin", .string origin),
      ("uri", .string uri)]

def verifyRequest (signing : Signing) (params : AuthParams) (method uri ourName : String)
    (content : Option Json) (originKeys : PublicKeyMap) : Except AuthError Unit :=
  if params.destination.all fun d => d = ourName then
    (signing.verifyJson originKeys (withSignature params.origin params.keyId params.signature
      (signingObject method uri params.origin ourName content))).mapError .badSignature
  else .error .wrongDestination

inductive AuthRejection where
  | missing
  | malformed
  | body
  | wrongDestination
  | badSignature
  | keyFetch (error : KeyError)
  deriving DecidableEq

def AuthRejection.ofAuthError : AuthError → AuthRejection
  | .wrongDestination => .wrongDestination
  | .badSignature _ => .badSignature
  | .malformed _ => .malformed

structure HttpRequest where
  authorization : Option String
  method : String
  /-- The path and query. -/
  uri : String
  body : List UInt8

/-- A request whose signature has been verified. -/
structure Authenticated where
  origin : String
  body : List UInt8
  deriving DecidableEq

structure AuthServer where
  ruma : Ruma
  signing : Signing
  parseJson : List UInt8 → Option Json
  serverName : String

namespace AuthServer

variable (server : AuthServer)

def maxBody : Nat := 8 * 1024 * 1024

def content (body : List UInt8) : Except AuthRejection (Option Json) :=
  if body = [] then .ok none
  else
    match server.parseJson body with
    | some content => .ok (some content)
    | none => .error .body

def readRequest (req : HttpRequest) : Except AuthRejection (AuthParams × Option Json) :=
  match req.authorization with
  | none => .error .missing
  | some header => do
    let params ← (parseAuthorization header).mapError fun _ => .malformed
    if maxBody < req.body.length then .error .body
    else do
      let content ← server.content req.body
      if server.ruma.isServerName params.origin then return (params, content) else .error .malformed

def fromRequest (cache : KeyCache) (now : Nat) (answer : HttpAnswer) (req : HttpRequest) :
    Except AuthRejection Authenticated × KeyCache :=
  match server.readRequest req with
  | .error e => (.error e, cache)
  | .ok (params, content) =>
    match cache.keysFor server.ruma server.signing params.origin now answer with
    | (.error e, cache) => (.error (.keyFetch e), cache)
    | (.ok originKeys, cache) =>
      (do
        (verifyRequest server.signing params req.method req.uri server.serverName content
          originKeys).mapError .ofAuthError
        return ⟨params.origin, req.body⟩, cache)

def Signs (req : HttpRequest) (origin keyId key : String) : Prop :=
  ∃ params content, server.readRequest req = .ok (params, content) ∧ params.origin = origin ∧
    params.keyId = keyId ∧ (∀ d ∈ params.destination, d = server.serverName) ∧
    server.signing.genuine keyId key params.signature
      (signingObject req.method req.uri origin server.serverName content)

def Accepts (cache : KeyCache) (now : Nat) (answer : HttpAnswer) (req : HttpRequest)
    (origin keyId : String) : Prop :=
  (∃ params content, server.readRequest req = .ok (params, content) ∧ params.origin = origin ∧
      params.keyId = keyId) ∧
    (server.fromRequest cache now answer req).1 = .ok ⟨origin, req.body⟩

def Retired (doc : JsonObject) (now : Nat) (keyId : String) : Prop :=
  currentKey server.ruma doc keyId = none ∧
    ∃ entry ts, oldEntry server.ruma doc keyId = some (.object entry) ∧
      entry.lookup "expired_ts" = some (.integer ts) ∧ ts ≤ now

def usableUntil (doc : JsonObject) (fetched : Nat) : Nat :=
  min (validUntilTs doc) (fetched + maxKeyAgeMs)

/-- The key of the id may be used for requests. -/
structure Honourable (doc : JsonObject) (fetched now : Nat) (keyId : String) : Prop where
  live : ¬ server.Retired doc now keyId
  inTime : now ≤ usableUntil doc fetched

/-- Nobody signs requests with a key that the document has retired, nor with any of its keys where
the document is past its limit. -/
structure Current (origin : String) (doc : JsonObject) (fetched now : Nat) : Prop where
  retired : ∀ keyId key, server.Retired doc now keyId → listedKey server.ruma doc keyId = some key →
    ¬ ∃ req, server.Signs req origin keyId key
  inTime : usableUntil doc fetched < now → ∀ keyId key, listedKey server.ruma doc keyId = some key →
    ¬ ∃ req, server.Signs req origin keyId key

variable {server} {keys : PublicKeyMap}

theorem signingObject_unsigned (method uri origin destination : String) (content : Option Json) :
    (signingObject method uri origin destination content).lookup "signatures" = none := by
  cases content <;> rfl

theorem verifyRequest_eq_ok (lawful : server.signing.Lawful) {params : AuthParams} {method uri : String}
    {content : Option Json} :
    verifyRequest server.signing params method uri server.serverName content keys = .ok () ↔
      (∀ d ∈ params.destination, d = server.serverName) ∧
        ∃ key, (keys[params.origin]?).bind (fun set => set[params.keyId]?) = some key ∧
          server.signing.genuine params.keyId key params.signature
            (signingObject method uri params.origin server.serverName content) := by
  unfold verifyRequest
  have destined : (params.destination.all fun d => decide (d = server.serverName)) = true ↔
      ∀ d ∈ params.destination, d = server.serverName := by cases params.destination <;> simp
  split
  · rename_i here
    rw [Outcome.mapError_eq_ok, lawful.single _ _ _ _ _ (signingObject_unsigned ..)]
    exact ⟨fun h => ⟨destined.1 here, h⟩, And.right⟩
  · rename_i other
    exact ⟨nofun, fun h => absurd (destined.2 h.1) other⟩

theorem accepts_iff (lawful : server.signing.Lawful) {cache : KeyCache} {now : Nat} {answer : HttpAnswer}
    {origin keyId : String} {doc : JsonObject} {req : HttpRequest}
    (served : (cache.keysFor server.ruma server.signing origin now answer).1 = .ok keys)
    (listed : ∀ keyId, (keys[origin]?).bind (fun set => set[keyId]?) = listedKey server.ruma doc keyId) :
    server.Accepts cache now answer req origin keyId ↔
      ∃ key, listedKey server.ruma doc keyId = some key ∧ server.Signs req origin keyId key := by
  have run : ∀ params content, server.readRequest req = .ok (params, content) → params.origin = origin →
      ((server.fromRequest cache now answer req).1 = .ok ⟨origin, req.body⟩ ↔
        verifyRequest server.signing params req.method req.uri server.serverName content keys = .ok ()) := by
    rintro params content read rfl
    have served' : cache.keysFor server.ruma server.signing params.origin now answer =
        (.ok keys, (cache.keysFor server.ruma server.signing params.origin now answer).2) :=
      Prod.ext served rfl
    unfold fromRequest
    rw [read]
    dsimp only
    rw [served']
    dsimp only
    cases verifyRequest server.signing params req.method req.uri server.serverName content keys with
    | ok u => exact ⟨fun _ => rfl, fun _ => rfl⟩
    | error e => exact ⟨nofun, nofun⟩
  constructor
  · rintro ⟨⟨params, content, read, rfl, rfl⟩, accepted⟩
    obtain ⟨destined, key, held, genuine⟩ :=
      (verifyRequest_eq_ok lawful).1 ((run params content read rfl).1 accepted)
    rw [listed] at held
    exact ⟨key, held, params, content, read, rfl, rfl, destined, genuine⟩
  · rintro ⟨key, held, params, content, read, rfl, rfl, destined, genuine⟩
    rw [← listed] at held
    exact ⟨⟨params, content, read, rfl, rfl⟩,
      (run params content read rfl).2 ((verifyRequest_eq_ok lawful).2 ⟨destined, key, held, genuine⟩)⟩

/-- Whatever the cache has been through, an origin's requests are checked against a document that was
fetched in good order; they are accepted only by keys that may be used exactly when nobody signs
requests with its retired keys, nor with any of them after its limit. -/
theorem honoured_iff (lawful : server.signing.Lawful) {calls : List KeyCache.Call} {origin : String}
    {now : Nat} {answer : HttpAnswer} {keys : PublicKeyMap}
    (served : ((KeyCache.run server.ruma server.signing calls).keysFor server.ruma server.signing origin
      now answer).1 = .ok keys) :
    ∃ doc fetched,
      KeyCache.InUse server.ruma server.signing (.run server.ruma server.signing calls) origin now answer
        doc fetched ∧
      ((∀ req keyId, server.Accepts (.run server.ruma server.signing calls) now answer req origin keyId →
            server.Honourable doc fetched now keyId) ↔
        server.Current origin doc fetched now) := by
  obtain ⟨doc, fetched, inUse, listed⟩ := KeyCache.keysFor_inUse (KeyCache.run_sound calls) served
  refine ⟨doc, fetched, inUse, fun honoured => ⟨?_, ?_⟩, fun current req keyId accepted => ?_⟩
  · rintro keyId key retired held ⟨req, signed⟩
    exact (honoured req keyId ((accepts_iff lawful served listed).2 ⟨key, held, signed⟩)).live retired
  · rintro late keyId key held ⟨req, signed⟩
    have := (honoured req keyId ((accepts_iff lawful served listed).2 ⟨key, held, signed⟩)).inTime
    omega
  · obtain ⟨key, held, signed⟩ := (accepts_iff lawful served listed).1 accepted
    refine ⟨fun retired => current.retired keyId key retired held ⟨req, signed⟩, ?_⟩
    by_contra late
    exact current.inTime (by omega) keyId key held ⟨req, signed⟩

end AuthServer

/-! ## A retired key in use -/

def sampleSigning : Signing where
  verifyJson keys object :=
    let valid := fun (entity : String) (r : String × Json) =>
      ((keys[entity]?).bind fun set => set[r.1]?).any fun key => r.2.asStr = some (key ++ "!")
    let allValid := fun (r : String × Json) =>
      match r.2 with
      | .object signatures => signatures.all (valid r.1)
      | _ => false
    if ((objProp object "signatures").getD []).all allValid then .ok () else .error "not verified"
  genuine _ key signature _ := signature = key ++ "!"

theorem sampleSigning_lawful : sampleSigning.Lawful where
  single keys server keyId signature object _ := by
    have signed : objProp (withSignature server keyId signature object) "signatures" =
        some [(server, .object [(keyId, .string signature)])] := by
      simp [objProp, withSignature, lookup_insertMember]
    simp only [sampleSigning, signed, Option.getD_some, List.all_cons, List.all_nil, Bool.and_true]
    cases held : (keys[server]?).bind fun set => set[keyId]? with
    | none => simp
    | some key => simp [Json.asStr]

def sampleAuthServer : AuthServer where
  ruma := { Ruma.sample with base64 := fun s => some (s.toList.map fun c => UInt8.ofNat c.toNat) }
  signing := sampleSigning
  parseJson _ := none
  serverName := "x"

def sampleKeyDocument : JsonObject :=
  [("old_verify_keys", .object [("ed25519:0", .object [("expired_ts", .integer 500), ("key", .string "K0")])]),
    ("server_name", .string "y"),
    ("signatures", .object [("y", .object [("ed25519:1", .string "K1!")])]),
    ("valid_until_ts", .integer 5000),
    ("verify_keys", .object [("ed25519:1", .object [("key", .string "K1")])])]

def sampleSignedRequest : HttpRequest where
  authorization := some "X-Matrix origin=\"y\",key=\"ed25519:0\",sig=\"K0!\""
  method := "GET"
  uri := "/_matrix/federation/v1/version"
  body := []

theorem honoured_iff_sample : sampleAuthServer.signing.Lawful ∧ ∃ keys,
    ((KeyCache.run sampleAuthServer.ruma sampleAuthServer.signing []).keysFor sampleAuthServer.ruma
      sampleAuthServer.signing "y" 1000 (.ok (some (.object sampleKeyDocument)))).1 = .ok keys ∧
    ∃ doc fetched, KeyCache.InUse sampleAuthServer.ruma sampleAuthServer.signing
        (.run sampleAuthServer.ruma sampleAuthServer.signing []) "y" 1000
        (.ok (some (.object sampleKeyDocument))) doc fetched ∧
      ((∀ req keyId, sampleAuthServer.Accepts (.run sampleAuthServer.ruma sampleAuthServer.signing []) 1000
            (.ok (some (.object sampleKeyDocument))) req "y" keyId →
            AuthServer.Honourable sampleAuthServer doc fetched 1000 keyId) ↔
        sampleAuthServer.Current "y" doc fetched 1000) := by
  have served : ((KeyCache.run sampleAuthServer.ruma sampleAuthServer.signing []).keysFor
      sampleAuthServer.ruma sampleAuthServer.signing "y" 1000
      (.ok (some (.object sampleKeyDocument)))).1.toOption.isSome = true := by decide +kernel
  obtain ⟨keys, served⟩ := Option.isSome_iff_exists.1 served
  have served := Outcome.toOption_eq_some.1 served
  exact ⟨sampleSigning_lawful, keys, served, AuthServer.honoured_iff sampleSigning_lawful served⟩

/-- A request is accepted that is signed with a key the document has as expired. -/
theorem retired_key_accepted :
    sampleAuthServer.Accepts ∅ 1000 (.ok (some (.object sampleKeyDocument))) sampleSignedRequest "y"
        "ed25519:0" ∧
      sampleAuthServer.Retired sampleKeyDocument 1000 "ed25519:0" := by
  have read : (sampleAuthServer.readRequest sampleSignedRequest).toOption.any (fun r =>
      r.1.origin = "y" ∧ r.1.keyId = "ed25519:0") = true := by decide +kernel
  rw [Option.any_eq_true] at read
  obtain ⟨⟨params, content⟩, read, named⟩ := read
  obtain ⟨origin, keyId⟩ := of_decide_eq_true named
  refine ⟨⟨⟨params, content, Outcome.toOption_eq_some.1 read, origin, keyId⟩, by decide +kernel⟩,
    by decide +kernel, _, 500, rfl, rfl, by decide⟩

end Saltator.Federation
