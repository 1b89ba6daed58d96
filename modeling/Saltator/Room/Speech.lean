import Saltator.Room.Standing

/-!
# Speaking in a room

A local event, and the template of a membership event, copy every extremity of the room into
`prev_events` and take the greatest depth plus one. Receivers limit both. So an event that is within
the limits of its sender is valid exactly as long as the room has few and shallow extremities
(`Speakable`); its auth events are always few enough.
-/

namespace Saltator.Room

open Std
open Saltator.Outcome Saltator.Loop
open Pipeline
open StateRes (StateIds)

/-- The canonical text of an object is within the size limit. -/
def Fits (ruma : Ruma) (raw : JsonObject) : Prop :=
  ∃ text, ruma.toText raw = .ok text ∧ text.utf8ByteSize ≤ maxPduBytes

/-- An event with a content hash and a signature added to it. -/
structure Completes (raw signed : JsonObject) : Prop where
  same : ∀ key, key ≠ "hashes" → key ≠ "signatures" → signed.lookup key = raw.lookup key
  hashes : ∃ hash, signed.lookup "hashes" = some (.object [("sha256", .string hash)])
  signatures : ∃ entry rest, signed.lookup "signatures" = some (.object (entry :: rest))

/-- Signing completes the event, which is within the size limit before and after. -/
def Finishes (ruma : Ruma) (sign : RoomVersion → JsonObject → Except String JsonObject)
    (version : RoomVersion) (raw : JsonObject) : Prop :=
  Fits ruma raw ∧ ∃ signed, sign version raw = .ok signed ∧ Completes raw signed ∧ Fits ruma signed

/-- What a sender may ask for in any room: a type and a state key of limited length, numbers in the
range of canonical JSON, and no second create event where rooms are named after theirs. -/
structure Admissible (version : RoomVersion) (eventType : String) (stateKey : Option String)
    (content : JsonObject) (ts : Nat) : Prop where
  type : fieldLen version eventType ≤ maxTypeBytes
  key : ∀ sk, stateKey = some sk → fieldLen version sk ≤ maxStateKeyBytes
  content : Json.membersInRange content = true
  ts : ts < 2 ^ 53
  notCreate : ¬ (version.roomIdIsCreateEventId = true ∧ eventType = "m.room.create" ∧ stateKey = some "")

/-- The extremities fit into one event, and one more than the greatest depth is in the range of
canonical JSON. -/
structure Speakable (s : Store) (m : RoomMeta) : Prop where
  few : m.extremities.length ≤ maxPrevEvents
  shallow : ∀ id ∈ m.extremities, ∀ e : StoredEvent, s.event[id]? = some e → e.depth + 1 < 2 ^ 53

/-! ## The parts of a draft -/

section Draft

variable {ruma : Ruma} {s : Store} {room : RoomId} {sender : UserId} {eventType : String}
  {stateKey : Option String} {content : JsonObject} {ts depth : Nat}
  {auth prevs : List EventId} {version : RoomVersion} {raw : JsonObject} {ok : String → Bool}
  {signed : JsonObject}

theorem tipDepth_eq_ok {ids : List EventId} (held : ∀ id ∈ ids, (s.event[id]?).isSome) :
    ∃ depth, Server.tipDepth s ids = .ok depth ∧ ∀ n, depth ≤ n ↔
      ∀ id ∈ ids, ∀ e : StoredEvent, s.event[id]? = some e → e.depth ≤ n := by
  obtain ⟨step, unfolded, row⟩ : ∃ step : Nat → EventId → Except RoomError Nat,
      (∀ ids, Server.tipDepth s ids = ids.foldlM step 0) ∧
      ∀ depth id (e : StoredEvent), s.event[id]? = some e → step depth id = .ok (max depth e.depth) :=
    ⟨_, fun _ => rfl, fun depth id e he => by simp only [he]⟩
  suffices general : ∀ start, ∃ depth, ids.foldlM step start = .ok depth ∧ ∀ n, depth ≤ n ↔ start ≤ n ∧
        ∀ id ∈ ids, ∀ e : StoredEvent, s.event[id]? = some e → e.depth ≤ n by
    obtain ⟨depth, run, bound⟩ := general 0
    exact ⟨depth, (unfolded ids).trans run, by simpa using bound⟩
  induction ids with
  | nil => exact fun start => ⟨start, rfl, by simp⟩
  | cons id ids ih =>
    intro start
    obtain ⟨e, he⟩ := Option.isSome_iff_exists.1 (held id List.mem_cons_self)
    obtain ⟨depth, run, bound⟩ :=
      ih (fun id mem => held id (List.mem_cons_of_mem _ mem)) (max start e.depth)
    refine ⟨depth, ?_, fun n => ?_⟩
    · rw [List.foldlM_cons, row start id e he]
      exact run
    · rw [bound, Nat.max_le, List.forall_mem_cons, and_assoc]
      simp [he]

theorem size_extend {l : List (String × String)} {set : OrdSet (String × String)} :
    (OrdSet.extend set l).size ≤ set.size + l.length := by
  induction l generalizing set with
  | nil => simp [OrdSet.extend]
  | cons a l ih =>
    have step : (set.insert a).size ≤ set.size + 1 := ExtTreeSet.size_insert_le
    have rest := @ih (set.insert a)
    simp only [OrdSet.extend, List.foldl_cons, List.length_cons] at rest ⊢
    omega

theorem authTypes_few : (Auth.authTypesForEvent version eventType sender stateKey content).size ≤ 7 := by
  unfold Auth.authTypesForEvent
  split
  · simp
  · refine size_extend.trans ?_
    simp only [ExtTreeSet.size_empty, List.length_append]
    grind

theorem membersInRange_unsigned :
    Json.membersInRange (Server.unsignedEvent room sender eventType stateKey content ts auth prevs
      depth) = true ↔ Json.membersInRange content = true ∧ depth < 2 ^ 53 ∧ ts < 2 ^ 53 := by
  unfold Server.unsignedEvent
  cases stateKey <;>
    simp only [Json.membersInRange, Json.memberInRange, Json.inRange, Server.stringArray,
      Json.itemsInRange_strings, List.cons_append, List.nil_append, Bool.true_and, Bool.and_true,
      Bool.and_eq_true, decide_eq_true_eq]
  all_goals exact and_congr_right fun _ => by omega

theorem uint_eq_ok {key : String} {n : Nat} (fits : n < 2 ^ 53)
    (found : raw.lookup key = some (.integer n)) : Field.uint raw key = .ok n := by
  have range : 0 ≤ (n : Int) ∧ (n : Int) < 2 ^ 53 := by omega
  rw [Field.uint, found]
  exact if_pos range

theorem str_eq_ok {key v : String} (valid : ok v = true)
    (found : raw.lookup key = some (.string v)) : Field.str raw key ok = .ok v := by
  rw [Field.str, found]
  exact if_pos valid

theorem optStr_eq_ok {key : String} {v : Option String}
    (valid : ∀ x, v = some x → ok x = true) (found : raw.lookup key = v.map Json.string) :
    Field.optStr raw key ok = .ok v := by
  rw [Field.optStr, found]
  cases v with
  | none => rfl
  | some x => exact if_pos (valid x rfl)

theorem fromCanonical_completed
    (completes : Completes (Server.unsignedEvent room sender eventType stateKey content ts auth prevs
      depth) signed) (validRoom : ruma.isRoomId room) (validSender : ruma.isUserId sender)
    (validAuth : ∀ id ∈ auth, ruma.isEventId id) (validPrevs : ∀ id ∈ prevs, ruma.isEventId id)
    (htime : ts < 2 ^ 53) (hdepth : depth < 2 ^ 53) :
    ∃ hash entry rest, Pdu.fromCanonical ruma signed = .ok
      { roomId := some room, sender, originServerTs := ts, eventType, stateKey, content,
        authEvents := auth, prevEvents := prevs, depth, hashes := some hash,
        signatures := entry :: rest, unsigned := none } := by
  obtain ⟨same, ⟨hash, hhash⟩, entry, rest, hsigs⟩ := completes
  have room_id : Field.optStr signed "room_id" ruma.isRoomId = .ok (some room) := by
    refine optStr_eq_ok (fun x hx => Option.some.inj hx ▸ validRoom) ?_
    rw [same "room_id" (by decide) (by decide)]
    simp [Server.unsignedEvent, List.lookup_cons]
  have sender_ : Field.str signed "sender" ruma.isUserId = .ok sender := by
    refine str_eq_ok validSender ?_
    rw [same "sender" (by decide) (by decide)]
    simp [Server.unsignedEvent, List.lookup_cons]
  have time : Field.uint signed "origin_server_ts" = .ok ts := by
    refine uint_eq_ok htime ?_
    rw [same "origin_server_ts" (by decide) (by decide)]
    simp [Server.unsignedEvent, List.lookup_cons]
  have type : Field.str signed "type" (fun _ => true) = .ok eventType := by
    refine str_eq_ok rfl ?_
    rw [same "type" (by decide) (by decide)]
    cases stateKey <;> simp [Server.unsignedEvent, List.lookup_cons]
  have key : Field.optStr signed "state_key" (fun _ => true) = .ok stateKey := by
    refine optStr_eq_ok (fun _ _ => rfl) ?_
    rw [same "state_key" (by decide) (by decide)]
    cases stateKey <;> simp [Server.unsignedEvent, List.lookup_cons]
  have body : Field.object signed "content" = .ok content := by
    rw [Field.object, same "content" (by decide) (by decide)]
    simp [Server.unsignedEvent, List.lookup_cons]
  have auth_events : Field.ids signed "auth_events" ruma.isEventId = .ok auth := by
    refine Field.ids_eq_ok.2 ⟨?_, validAuth⟩
    rw [same "auth_events" (by decide) (by decide)]
    simp [Server.unsignedEvent, Server.stringArray]
  have prev_events : Field.ids signed "prev_events" ruma.isEventId = .ok prevs := by
    refine Field.ids_eq_ok.2 ⟨?_, validPrevs⟩
    rw [same "prev_events" (by decide) (by decide)]
    simp [Server.unsignedEvent, Server.stringArray, List.lookup_cons]
  have deep : Field.uint signed "depth" = .ok depth := by
    refine uint_eq_ok hdepth ?_
    rw [same "depth" (by decide) (by decide)]
    simp [Server.unsignedEvent, List.lookup_cons]
  have hashes : Field.hashes signed = .ok (some hash) := by
    rw [Field.hashes, hhash]
    simp [Field.str, Except.map]
  have signatures : Field.signatures signed = .ok (entry :: rest) := by
    rw [Field.signatures, hsigs]
  have no_unsigned : Field.unsigned signed = .ok none := by
    rw [Field.unsigned, same "unsigned" (by decide) (by decide)]
    cases stateKey <;> simp [Server.unsignedEvent, List.lookup_cons]
  refine ⟨hash, entry, rest, ?_⟩
  simp only [Pdu.fromCanonical, room_id, sender_, time, type, key, body, auth_events, prev_events,
    deep, hashes, signatures, no_unsigned, ok_bind]
  rfl

theorem checkPdu_eq_ok {pdu : Pdu} (hashes : pdu.hashes.isSome) (signatures : pdu.signatures ≠ [])
    (known : pdu.roomId.isSome) : checkPdu version pdu = .ok () ↔
      fieldLen version pdu.eventType ≤ maxTypeBytes ∧
      (∀ sk, pdu.stateKey = some sk → fieldLen version sk ≤ maxStateKeyBytes) ∧
      pdu.authEvents.length ≤ maxAuthEvents ∧ pdu.prevEvents.length ≤ maxPrevEvents ∧
      ¬ (version.roomIdIsCreateEventId = true ∧ pdu.isCreate = true) := by
  have hashed : pdu.hashes.isNone = false := by simpa using hashes
  have signed : pdu.signatures.isEmpty = false := by simpa using signatures
  have named : pdu.roomId.isNone = false := by simpa using known
  unfold checkPdu
  rw [hashed, signed, named, known]
  cases hkey : pdu.stateKey with
  | none => grind
  | some sk => grind

theorem validate_completed
    (completes : Completes (Server.unsignedEvent room sender eventType stateKey content ts auth prevs
      depth) signed) (fits : Fits ruma signed) (validRoom : ruma.isRoomId room)
    (validSender : ruma.isUserId sender) (validAuth : ∀ id ∈ auth, ruma.isEventId id)
    (validPrevs : ∀ id ∈ prevs, ruma.isEventId id) (htime : ts < 2 ^ 53) (hdepth : depth < 2 ^ 53) :
    (∃ pdu, validatePdu ruma signed version = .ok pdu) ↔ fieldLen version eventType ≤ maxTypeBytes ∧
      (∀ sk, stateKey = some sk → fieldLen version sk ≤ maxStateKeyBytes) ∧
      auth.length ≤ maxAuthEvents ∧ prevs.length ≤ maxPrevEvents ∧
      ¬ (version.roomIdIsCreateEventId = true ∧ eventType = "m.room.create" ∧ stateKey = some "") := by
  obtain ⟨text, htext, small⟩ := fits
  obtain ⟨hash, entry, rest, hpdu⟩ := fromCanonical_completed completes validRoom validSender
    validAuth validPrevs htime hdepth
  have checked : checkPdu version
      { roomId := some room, sender, originServerTs := ts, eventType, stateKey, content,
        authEvents := auth, prevEvents := prevs, depth, hashes := some hash,
        signatures := entry :: rest, unsigned := none } = .ok () ↔ _ :=
    checkPdu_eq_ok rfl (by simp) rfl
  simp only [Pdu.isCreate, Bool.and_eq_true, beq_iff_eq] at checked
  rw [← checked, validatePdu, htext]
  simp only [gt_iff_lt, Nat.not_lt.2 small, if_false, hpdu]
  constructor
  · rintro ⟨pdu, valid⟩
    cases outcome : checkPdu version _ with
    | error e =>
      rw [outcome] at valid
      cases valid
    | ok _ => rfl
  · intro valid
    rw [valid]
    exact ⟨_, rfl⟩

theorem Standing.valid {id : Nat} {map : StateIds} (h : Standing ruma s)
    (current : Materializes s room id map) {key : StateRes.Key} {v : EventId}
    (hv : map[key]? = some v) : ruma.isEventId v := by
  obtain ⟨id, g, stored, entry, mem, rfl⟩ := current.values hv
  exact h.values room id g stored entry mem

theorem Standing.drafts (h : Standing ruma s) {m : RoomMeta} (known : s.room[room]? = some m)
    (sender : UserId) (eventType : String) (stateKey : Option String) (content : JsonObject)
    (ts : Nat) : ∃ version auth depth enough, RoomVersion.parse m.version = some version ∧
      (∀ id ∈ auth, ruma.isEventId id) ∧ auth.length ≤ maxAuthEvents ∧
      (depth < 2 ^ 53 ↔ ∀ id ∈ m.extremities, ∀ e : StoredEvent, s.event[id]? = some e →
        e.depth + 1 < 2 ^ 53) ∧
      ∀ fuel, enough ≤ fuel → ∀ raw v,
        Server.draft s fuel room sender eventType stateKey content ts = .ok (raw, v) ↔
          v = version ∧ Json.membersInRange raw = true ∧
          raw = Server.unsignedEvent room sender eventType stateKey content ts auth m.extremities
            depth := by
  obtain ⟨hversion, tips, map, current⟩ := h.rooms room m known
  obtain ⟨version, parsed⟩ := Option.isSome_iff_exists.1 hversion
  obtain ⟨-, enough, resolved⟩ := current.settles
  obtain ⟨depth, deepest, bound⟩ := tipDepth_eq_ok fun id mem => (tips id mem).2
  refine ⟨version, (Auth.authTypesForEvent version eventType sender stateKey
    content).toList.filterMap fun k => map[k]?, depth + 1, enough, parsed, ?_, ?_, ?_, ?_⟩
  · intro id mem
    obtain ⟨key, -, hkey⟩ := List.mem_filterMap.1 mem
    exact h.valid current hkey
  · refine (List.length_filterMap_le _ _).trans ?_
    rw [ExtTreeSet.length_toList]
    exact authTypes_few.trans (by decide)
  · have small := bound (2 ^ 53 - 2)
    constructor
    · intro hdepth id mem e he
      have := small.1 (by omega) id mem e he
      omega
    · intro shallow
      have : depth ≤ 2 ^ 53 - 2 := small.2 fun id mem e he => by
        have := shallow id mem e he
        omega
      omega
  · intro fuel hfuel raw v
    have same := resolved fuel hfuel
    rw [draft_eq_ok]
    constructor
    · rintro ⟨m', map', depth', hm, hv, hmap, hdepth, -, fits, rfl⟩
      obtain rfl := some_unique known hm
      obtain rfl := some_unique parsed hv
      obtain rfl := ok_unique same hmap
      obtain rfl := ok_unique deepest hdepth
      exact ⟨rfl, fits, rfl⟩
    · rintro ⟨rfl, fits, rfl⟩
      exact ⟨m, map, depth, known, parsed, same, deepest, (membersInRange_unsigned.1 fits).1, fits, rfl⟩

theorem Standing.finished_iff (h : Standing ruma s) {m : RoomMeta} (known : s.room[room]? = some m)
    (validRoom : ruma.isRoomId room) (validSender : ruma.isUserId sender)
    {sign : RoomVersion → JsonObject → Except String JsonObject}
    (finishes : ∀ fuel raw version,
      Server.draft s fuel room sender eventType stateKey content ts = .ok (raw, version) →
        Finishes ruma sign version raw) :
    ∃ version, RoomVersion.parse m.version = some version ∧
      ((∃ enough, ∀ fuel, enough ≤ fuel → ∃ raw version signed pdu,
        Server.draft s fuel room sender eventType stateKey content ts = .ok (raw, version) ∧
          Fits ruma raw ∧ sign version raw = .ok signed ∧
          validatePdu ruma signed version = .ok pdu) ↔
        Admissible version eventType stateKey content ts ∧ Speakable s m) := by
  obtain ⟨version, auth, depth, enough, parsed, validAuth, few, shallow, drafts⟩ :=
    h.drafts known sender eventType stateKey content ts
  refine ⟨version, parsed, ?_⟩
  have validPrevs : ∀ id ∈ m.extremities, ruma.isEventId id :=
    fun id mem => ((h.rooms room m known).tips id mem).1
  constructor
  · rintro ⟨needed, finished⟩
    obtain ⟨raw, v, signed, pdu, hdraft, -, hsign, valid⟩ :=
      finished (max enough needed) (Nat.le_max_right _ _)
    obtain ⟨-, signed', hsign', completes, fits⟩ := finishes _ _ _ hdraft
    obtain rfl := ok_unique hsign hsign'
    obtain ⟨rfl, range, rfl⟩ := (drafts _ (Nat.le_max_left _ _) raw v).1 hdraft
    obtain ⟨hcontent, hdepth, hts⟩ := membersInRange_unsigned.1 range
    obtain ⟨htype, hkey, -, hprevs, hcreate⟩ := (validate_completed completes fits validRoom
      validSender validAuth validPrevs hts hdepth).1 ⟨pdu, valid⟩
    exact ⟨⟨htype, hkey, hcontent, hts, hcreate⟩, hprevs, shallow.1 hdepth⟩
  · rintro ⟨⟨htype, hkey, hcontent, hts, hcreate⟩, hprevs, hshallow⟩
    refine ⟨enough, fun fuel hfuel => ?_⟩
    have hdepth := shallow.2 hshallow
    have hdraft := (drafts fuel hfuel _ version).2
      ⟨rfl, membersInRange_unsigned.2 ⟨hcontent, hdepth, hts⟩, rfl⟩
    obtain ⟨fitsRaw, signed, hsign, completes, fits⟩ := finishes _ _ _ hdraft
    obtain ⟨pdu, valid⟩ := (validate_completed completes fits validRoom validSender validAuth
      validPrevs hts hdepth).2 ⟨htype, hkey, few, hprevs, hcreate⟩
    exact ⟨_, version, signed, pdu, hdraft, fitsRaw, hsign, valid⟩

end Draft

/-! ## Local events and templates -/

def Server.Speaks (server : Server) (s : Store) (room : RoomId) (sender : UserId)
    (eventType : String) (stateKey : Option String) (content : JsonObject) (ts : Nat) : Prop :=
  ∃ enough, ∀ fuel, enough ≤ fuel → ∃ signed version pdu,
    server.buildLocal s fuel room sender eventType stateKey content ts = .ok (signed, version) ∧
      validatePdu server.ruma signed version = .ok pdu

/-- From some fuel on, the template is handed out, and what `sign` completes it to is valid. -/
def Invites (ruma : Ruma) (sign : RoomVersion → JsonObject → Except String JsonObject) (s : Store)
    (room : RoomId) (user : UserId) (membership : String) (authoriser : Option UserId) (now : Nat) :
    Prop :=
  ∃ enough, ∀ fuel, enough ≤ fuel → ∃ template version signed pdu,
    Server.makeMembershipTemplate s fuel room user membership authoriser now = .ok (version, template) ∧
      sign version template = .ok signed ∧ validatePdu ruma signed version = .ok pdu

section Speech

variable {s : Store} {room : RoomId} {sender user : UserId} {eventType membership : String}
  {stateKey : Option String} {content : JsonObject} {ts now fuel : Nat} {m : RoomMeta}
  {authoriser : Option UserId} {version : RoomVersion} {server : Server}

theorem checkSize_eq_ok {raw : JsonObject} : server.checkSize raw = .ok () ↔ Fits server.ruma raw := by
  unfold Server.checkSize Fits
  cases htext : server.ruma.toText raw with
  | error e => simp
  | ok text =>
    simp only [gt_iff_lt, Except.ok.injEq, exists_eq_left']
    split
    · rename_i large
      simp [Nat.not_le.2 large]
    · rename_i small
      simpa using small

theorem buildLocal_eq_ok {signed : JsonObject} :
    server.buildLocal s fuel room sender eventType stateKey content ts = .ok (signed, version) ↔
      ∃ raw, Server.draft s fuel room sender eventType stateKey content ts = .ok (raw, version) ∧
        Fits server.ruma raw ∧ server.sign version raw = .ok signed := by
  simp only [Server.buildLocal, bind_eq_ok, pure_eq_ok, Prod.exists, signEvent_eq_ok, Prod.mk.injEq]
  constructor
  · rintro ⟨raw, v, hdraft, _, hsize, _, hsign, rfl, rfl⟩
    exact ⟨raw, hdraft, checkSize_eq_ok.1 hsize, hsign⟩
  · rintro ⟨raw, hdraft, fits, hsign⟩
    exact ⟨raw, version, hdraft, (), checkSize_eq_ok.2 fits, signed, hsign, rfl, rfl⟩

theorem makeMembershipTemplate_eq_ok {template : JsonObject} :
    Server.makeMembershipTemplate s fuel room user membership authoriser now = .ok (version, template) ↔
      Server.draft s fuel room user "m.room.member" (some user)
        (Server.membershipContent membership authoriser) now = .ok (template, version) := by
  simp only [Server.makeMembershipTemplate, bind_eq_ok, pure_eq_ok, Prod.exists, Prod.mk.injEq]
  constructor
  · rintro ⟨raw, v, hdraft, rfl, rfl⟩
    exact hdraft
  · intro hdraft
    exact ⟨template, version, hdraft, rfl, rfl⟩

theorem admissible_membership :
    Admissible version "m.room.member" (some user) (Server.membershipContent membership authoriser)
      now ↔ fieldLen version user ≤ maxStateKeyBytes ∧ now < 2 ^ 53 := by
  constructor
  · intro h
    exact ⟨h.key user rfl, h.ts⟩
  · rintro ⟨hkey, hts⟩
    refine ⟨?_, fun sk same => Option.some.inj same ▸ hkey, ?_, hts, by simp⟩
    · cases version <;> decide
    · cases authoriser <;>
        simp [Server.membershipContent, Json.membersInRange, Json.memberInRange, Json.inRange]

theorem Standing.speaks_iff (h : Standing server.ruma s)
    (known : s.room[room]? = some m) (validRoom : server.ruma.isRoomId room)
    (validSender : server.ruma.isUserId sender) (finishes : ∀ fuel raw version,
      Server.draft s fuel room sender eventType stateKey content ts = .ok (raw, version) →
        Finishes server.ruma server.sign version raw) :
    ∃ version, RoomVersion.parse m.version = some version ∧
      (server.Speaks s room sender eventType stateKey content ts ↔
        Admissible version eventType stateKey content ts ∧ Speakable s m) := by
  obtain ⟨version, parsed, finished⟩ := h.finished_iff known validRoom validSender finishes
  refine ⟨version, parsed, Iff.trans ?_ finished⟩
  refine exists_congr fun enough => forall_congr' fun fuel => forall_congr' fun _ => ?_
  constructor
  · rintro ⟨signed, v, pdu, built, valid⟩
    obtain ⟨raw, hdraft, fits, hsign⟩ := buildLocal_eq_ok.1 built
    exact ⟨raw, v, signed, pdu, hdraft, fits, hsign, valid⟩
  · rintro ⟨raw, v, signed, pdu, hdraft, fits, hsign, valid⟩
    exact ⟨signed, v, pdu, buildLocal_eq_ok.2 ⟨raw, hdraft, fits, hsign⟩, valid⟩

theorem Standing.invites_iff {ruma : Ruma} (h : Standing ruma s) (known : s.room[room]? = some m)
    (validRoom : ruma.isRoomId room) (validUser : ruma.isUserId user)
    {sign : RoomVersion → JsonObject → Except String JsonObject}
    (finishes : ∀ fuel raw version, Server.makeMembershipTemplate s fuel room user membership
      authoriser now = .ok (version, raw) → Finishes ruma sign version raw) :
    ∃ version, RoomVersion.parse m.version = some version ∧
      (Invites ruma sign s room user membership authoriser now ↔
        (fieldLen version user ≤ maxStateKeyBytes ∧ now < 2 ^ 53) ∧ Speakable s m) := by
  obtain ⟨version, parsed, finished⟩ := h.finished_iff known validRoom validUser
    fun fuel raw version hdraft => finishes fuel raw version (makeMembershipTemplate_eq_ok.2 hdraft)
  rw [admissible_membership] at finished
  refine ⟨version, parsed, Iff.trans ?_ finished⟩
  refine exists_congr fun enough => forall_congr' fun fuel => forall_congr' fun _ => ?_
  constructor
  · rintro ⟨template, v, signed, pdu, made, hsign, valid⟩
    have hdraft := makeMembershipTemplate_eq_ok.1 made
    exact ⟨template, v, signed, pdu, hdraft, (finishes _ _ _ made).1, hsign, valid⟩
  · rintro ⟨template, v, signed, pdu, hdraft, -, hsign, valid⟩
    exact ⟨template, v, signed, pdu, makeMembershipTemplate_eq_ok.2 hdraft, hsign, valid⟩

/-- **When a room can be spoken in.** In every room of a reachable store, a local event, and the
template of a membership event that another server completes, are built and pass validation exactly
if they are within the limits of their sender, the room has at most twenty extremities and one more
than the greatest depth among them is in the range of canonical JSON. -/
theorem room_spoken_in_iff {server : Server} (run : Runs (LawfulIn server.ruma) Store.empty s)
    (known : s.room[room]? = some m) (validRoom : server.ruma.isRoomId room)
    (validSender : server.ruma.isUserId sender) (validUser : server.ruma.isUserId user)
    {sign : RoomVersion → JsonObject → Except String JsonObject}
    (finishes : ∀ fuel raw version,
      Server.draft s fuel room sender eventType stateKey content ts = .ok (raw, version) →
        Finishes server.ruma server.sign version raw)
    (completes : ∀ fuel raw version, Server.makeMembershipTemplate s fuel room user membership
      authoriser now = .ok (version, raw) → Finishes server.ruma sign version raw) :
    ∃ version, RoomVersion.parse m.version = some version ∧
      (server.Speaks s room sender eventType stateKey content ts ↔
        Admissible version eventType stateKey content ts ∧ Speakable s m) ∧
      (Invites server.ruma sign s room user membership authoriser now ↔
        (fieldLen version user ≤ maxStateKeyBytes ∧ now < 2 ^ 53) ∧ Speakable s m) := by
  have h := run_standing run
  obtain ⟨version, parsed, speaks⟩ := h.speaks_iff known validRoom validSender finishes
  obtain ⟨version', parsed', invites⟩ := h.invites_iff known validRoom validUser completes
  obtain rfl := some_unique parsed parsed'
  exact ⟨version, parsed, speaks, invites⟩

end Speech

/-! ## Two rooms -/

theorem exists_lawful_run (calls : List Call) (p : Store → Bool)
    (h : ((Server.sample ["x"]).serveAll (fun _ _ => True) 9 Store.empty calls).any p = true) :
    ∃ s, Runs (LawfulIn Ruma.sample) Store.empty s ∧ p s = true := by
  obtain ⟨s, hs, hp⟩ := (Option.any_eq_true _ _).1 h
  refine ⟨s, serveAll_induction (fun _ => .refl) (fun _ _ _ => Relation.ReflTransGen.trans)
    (fun s t call cmd response hprep _ happly => .single ⟨s, cmd, response, ?_, happly⟩) hs, hp⟩
  exact ⟨s, Server.sample ["x"], 9, call, Server.sample_lawful ["x"], rfl, hprep, rfl, fun _ => rfl⟩

def Ruma.sampleSign (_ : RoomVersion) (raw : JsonObject) : Except String JsonObject :=
  .ok (raw ++ [("hashes", .object [("sha256", .string "s")]),
    ("signatures", .object [("x", .object [("ed25519:1", .string "sig")])])])

def Server.signing : Server := { Server.sample ["x"] with sign := Ruma.sampleSign }

theorem sample_finishes {s : Store} {fuel : Nat} {room : RoomId} {sender : UserId}
    {eventType : String} {stateKey : Option String} {content : JsonObject} {ts : Nat}
    {raw : JsonObject} {version : RoomVersion}
    (h : Server.draft s fuel room sender eventType stateKey content ts = .ok (raw, version)) :
    Finishes Ruma.sample Ruma.sampleSign version raw := by
  have fits : ∀ raw, Fits Ruma.sample raw := fun raw => ⟨"", rfl, by decide⟩
  obtain ⟨m, map, depth, -, -, -, -, -, -, rfl⟩ := draft_eq_ok.1 h
  refine ⟨fits _, _, rfl, ⟨fun key hashes signatures => ?_, ⟨"s", ?_⟩, ?_⟩, fits _⟩
  · have hashes : (key == "hashes") = false := beq_eq_false_iff_ne.2 hashes
    have signatures : (key == "signatures") = false := beq_eq_false_iff_ne.2 signatures
    rw [List.lookup_append, List.lookup_cons, hashes, List.lookup_cons, signatures]
    exact Option.or_none
  · cases stateKey <;> simp [Server.unsignedEvent, List.lookup_cons]
  · refine ⟨("x", .object [("ed25519:1", .string "sig")]), [], ?_⟩
    cases stateKey <;> simp [Server.unsignedEvent, List.lookup_cons]

theorem room_spoken_in_iff_join : ∃ s, Runs (LawfulIn Ruma.sample) Store.empty s ∧
    Server.signing.Speaks s "!r:x" "@a:x" "m.room.message" none [] 3 ∧
    Invites Ruma.sample Ruma.sampleSign s "!r:x" "@b:x" "join" none 3 := by
  obtain ⟨s, run, hp⟩ := exists_lawful_run [.ingest Ruma.sampleCreate false, .ingest Ruma.sampleJoin false]
    (fun s => (s.room["!r:x"]?).any fun m => m.version == "11" && m.extremities == ["$j"] &&
      (s.event["$j"]?).any fun e => e.depth == 2) (by decide +kernel)
  simp only [Option.any_eq_true, Bool.and_eq_true, beq_iff_eq] at hp
  obtain ⟨m, known, ⟨hversion, htips⟩, e, he, hdepth⟩ := hp
  have finishes : ∀ fuel raw version,
      Server.draft s fuel "!r:x" "@a:x" "m.room.message" none [] 3 = .ok (raw, version) →
        Finishes Server.signing.ruma Server.signing.sign version raw :=
    fun _ _ _ h => sample_finishes h
  have completes : ∀ fuel raw version, Server.makeMembershipTemplate s fuel "!r:x" "@b:x" "join" none
      3 = .ok (version, raw) → Finishes Server.signing.ruma Ruma.sampleSign version raw :=
    fun _ _ _ h => sample_finishes (makeMembershipTemplate_eq_ok.1 h)
  obtain ⟨version, parsed, speaks, invites⟩ := room_spoken_in_iff run known (by decide +kernel)
    (by decide +kernel) (by decide +kernel) finishes completes
  obtain rfl : RoomVersion.v11 = version := by
    rw [hversion] at parsed
    exact Option.some.inj parsed
  have speakable : Speakable s m := by
    constructor
    · rw [htips]
      decide
    · intro id mem e' he'
      rw [htips] at mem
      obtain rfl := List.mem_singleton.1 mem
      obtain rfl := some_unique he he'
      omega
  refine ⟨s, run, speaks.2 ⟨⟨by decide, by simp, rfl, by decide, by decide⟩, speakable⟩,
    invites.2 ⟨⟨by decide, by decide⟩, speakable⟩⟩

def sampleFork (n : Nat) : JsonObject :=
  Ruma.samplePdu ("f" ++ toString n) "m.room.message" none "@a:x" [] ["$c", "$j"] ["$j"] 3

/-- After twenty-one concurrent messages, nothing valid can be said and nobody can be invited. -/
theorem forked_room_mute : ∃ s m, Runs (LawfulIn Ruma.sample) Store.empty s ∧
    s.room["!r:x"]? = some m ∧ m.extremities.length = 21 ∧
    ¬ Server.signing.Speaks s "!r:x" "@a:x" "m.room.message" none [] 3 ∧
    ¬ Invites Ruma.sample Ruma.sampleSign s "!r:x" "@b:x" "join" none 3 := by
  obtain ⟨s, run, hp⟩ := exists_lawful_run
    ([.ingest Ruma.sampleCreate false, .ingest Ruma.sampleJoin false] ++
      (List.range 21).map fun n => .ingest (sampleFork n) false)
    (fun s => (s.room["!r:x"]?).any fun m => m.extremities.length == 21) (by decide +kernel)
  simp only [Option.any_eq_true, beq_iff_eq] at hp
  obtain ⟨m, known, many⟩ := hp
  have mute : ¬ Speakable s m := by
    intro speakable
    have few := speakable.few
    rw [many] at few
    exact absurd few (by decide)
  have standing : Standing Server.signing.ruma s := run_standing run
  have validSender : Server.signing.ruma.isUserId "@a:x" = true := by decide +kernel
  have validUser : Server.signing.ruma.isUserId "@b:x" = true := by decide +kernel
  refine ⟨s, m, run, known, many, fun spoken => ?_, fun invited => ?_⟩
  · obtain ⟨_, _, speaks⟩ := standing.speaks_iff known (by decide +kernel) validSender
      fun fuel raw version h => sample_finishes h
    exact mute (speaks.1 spoken).2
  · obtain ⟨_, _, invites⟩ := standing.invites_iff known (by decide +kernel) validUser
      fun fuel raw version h => sample_finishes (makeMembershipTemplate_eq_ok.1 h)
    exact mute (invites.1 invited).2

end Saltator.Room
