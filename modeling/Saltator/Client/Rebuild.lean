import Saltator.Client.Chain

/-!
# What a client makes of its responses

A client keeps a map of the room's state: it puts in the state events of a response, and then those of
its timeline. That is the state which the server has at the response's position, as long as nothing but
the events of the window changes it within the window, and none of its entries is dropped
(`chain_rebuilds`). A chain of events that is taken in with a state of its own does change it otherwise
(`adopted_unseen`).
-/

namespace Saltator.Client

open Std
open Saltator.Outcome
open Room
open StateRes (Key StateIds)
open User (MembershipEntry)
open CsState (SyncRequest)
open Federation (insertMember lookup_insertMember_ne)

/-! ## The client -/

def slot (e : ClientEvent) : Option Key := Server.stateKeyOf e.body

def entriesOf (events : List ClientEvent) : List (Key × EventId) :=
  events.filterMap fun e => (slot e).map fun k => (k, e.eventId)

def RoomUpdate.applyTo (u : RoomUpdate) (client : StateIds) : StateIds :=
  OrdMap.extend (OrdMap.extend client (entriesOf u.state)) (entriesOf u.timeline)

/-- What the client has after a response; nothing changes where the room is left out. -/
def Synced.applyTo (y : Synced) (room : RoomId) (client : StateIds) : StateIds :=
  ((y.answer.find? fun r => r.1 = room).map fun r => r.2.update).elim client fun u => u.applyTo client

/-- What the client has after a chain. -/
def rebuilt (room : RoomId) (first : Synced) : List Synced → StateIds
  | [] => first.applyTo room ∅
  | y :: later => y.applyTo room (rebuilt room first later)

/-! ## The server -/

def keyAt (s : Store) (id : EventId) : Option Key := (s.event[id]?).bind fun e => Server.stateKeyOf e.raw

def entriesAt (s : Store) (ids : List EventId) : List (Key × EventId) :=
  ids.filterMap fun id => (keyAt s id).map fun k => (k, id)

/-- From the state before the events to the state after them, these are all that changes it. No entry
of the client is dropped. And what the client lacks of the state before is an accepted event of its
key. -/
structure Carries (s : Store) (ids : List EventId) (client start after : StateIds) : Prop where
  follows : after = OrdMap.extend start (entriesAt s ids)
  stays : ∀ k : Key, k ∈ client → k ∈ after
  keyed : ∀ (k : Key) (id : EventId), start[k]? = some id → keyAt s id = some k ∧
    (client[k]? ≠ some id → ∃ e : StoredEvent, s.event[id]? = some e ∧ e.rejected = none)

section

variable (cs : CsState) (user : UserId) (room : RoomId)

def Synced.rows (y : Synced) (roomMeta : RoomMeta) (m : MembershipEntry) : List (Nat × EventId) :=
  (joinedWindow (y.store cs room) roomMeta room (if y.request.roomInitial m then 0 else y.since cs room)
    (y.now cs room) y.request.filter.limit (y.request.roomInitial m)).rows

/-- The window of a response carries the state at the token on to the state at its position. -/
def Synced.Carried (y : Synced) : Prop :=
  ∀ (roomMeta : RoomMeta) (m : MembershipEntry), (y.store cs room).room[room]? = some roomMeta →
    y.w.users.membership[(user, room)]? = some m → ∃ client start after,
      cs.baseState (y.store cs room) room (y.since cs room) y.request.since.isNone = .ok client ∧
      cs.timelineStart (y.store cs room) room (y.rows cs room roomMeta m) (y.now cs room) = .ok start ∧
      stateAtSeq (y.store cs room) cs.fuel room (y.now cs room) = .ok after ∧
      Carries (y.store cs room) ((y.rows cs room roomMeta m).map Prod.snd) client start after

def Synced.Agrees (y : Synced) (client : StateIds) : Prop :=
  stateAtSeq (y.store cs room) cs.fuel room (y.now cs room) = .ok client

end

/-! ## Events as the client has them -/

section Events

variable {s : Store} {fuel : Nat} {room : RoomId} {ruma : Ruma} {version : RoomVersion} {user : UserId}
  {o o' : JsonObject} {id : EventId} {e : ClientEvent} {ids : List EventId}

theorem stateKeyOf_congr (type : o.lookup "type" = o'.lookup "type")
    (key : o.lookup "state_key" = o'.lookup "state_key") : Server.stateKeyOf o = Server.stateKeyOf o' := by
  simp only [Server.stateKeyOf, strProp, type, key]

theorem stateKeyOf_insertUnsigned {key : String} {v : Json} :
    Server.stateKeyOf (insertUnsigned key v o) = Server.stateKeyOf o :=
  stateKeyOf_congr (lookup_insertMember_ne (by decide)) (lookup_insertMember_ne (by decide))

theorem lookup_filter_mem {keys : List String} {key : String} (kept : key ∈ keys) (o : JsonObject) :
    (o.filter fun m => m.1 ∈ keys).lookup key = o.lookup key := by
  induction o with
  | nil => rfl
  | cons m o ih =>
    obtain ⟨k, v⟩ := m
    by_cases same : key = k
    · subst same
      rw [List.filter_cons_of_pos (by simpa using kept), List.lookup_cons, List.lookup_cons]
      simp
    · have other : (key == k) = false := beq_false_of_ne same
      rw [List.filter_cons]
      split <;> simp [List.lookup_cons, other, ih]

theorem stateKeyOf_toClientFormat : Server.stateKeyOf (toClientFormat room o id) = Server.stateKeyOf o := by
  refine stateKeyOf_congr ?_ ?_ <;> unfold toClientFormat
  · rw [lookup_insertMember_ne (by decide), lookup_insertMember_ne (by decide)]
    exact lookup_filter_mem (by decide) o
  · rw [lookup_insertMember_ne (by decide), lookup_insertMember_ne (by decide)]
    exact lookup_filter_mem (by decide) o

theorem stateKeyOf_annotate {raw : JsonObject} {membership : String} :
    Server.stateKeyOf (annotate s raw id membership o) = Server.stateKeyOf o := by
  unfold annotate
  split
  · dsimp only
    split
    · exact stateKeyOf_insertUnsigned
    · rw [stateKeyOf_insertUnsigned, stateKeyOf_insertUnsigned, stateKeyOf_insertUnsigned]
  · dsimp only
    split
    · exact stateKeyOf_insertUnsigned
    · rw [stateKeyOf_insertUnsigned, stateKeyOf_insertUnsigned, stateKeyOf_insertUnsigned]
  · rfl

theorem servedEvent_key (lawful : ruma.Lawful) (h : servedEvent s ruma id version = .ok (some o)) :
    keyAt s id = Server.stateKeyOf o := by
  unfold servedEvent at h
  split at h
  · cases h
  · rename_i raw own
    have held : keyAt s id = Server.stateKeyOf raw := by
      cases stored : s.event[id]? with
      | none => simp [rawEvent, stored] at own
      | some e =>
        obtain ⟨-, same⟩ : _ ∧ e.raw = raw := by simpa [rawEvent, stored, Option.filter] using own
        simp [keyAt, stored, same]
    split at h
    · obtain rfl := Option.some.inj (Except.ok.inj h)
      exact held
    · obtain ⟨redacted, done, h⟩ := bind_eq_ok.1 h
      obtain rfl := Option.some.inj (pure_eq_ok.1 h)
      rw [mapError_eq_ok] at done
      have kept : ∀ key ∈ protectedMembers, redacted.lookup key = raw.lookup key := by
        unfold redact at done
        split at done
        · rename_i result made
          obtain rfl := Except.ok.inj done
          exact lawful.redact_lookup version raw _ made
        · cases done
      rw [held, stateKeyOf_insertUnsigned]
      exact stateKeyOf_congr (kept _ (by decide)).symm (kept _ (by decide)).symm

theorem clientEvent_slot (lawful : ruma.Lawful)
    (h : clientEvent s fuel room ruma version user id = .ok (some e)) : slot e = keyAt s id := by
  obtain ⟨served, own, h⟩ := bind_eq_ok.1 h
  split at h
  · rename_i raw stored _
    obtain ⟨body, formatted, h⟩ := bind_eq_ok.1 h
    obtain rfl := Option.some.inj (pure_eq_ok.1 h)
    rw [servedEvent_key lawful own]
    unfold formatEvent at formatted
    split at formatted
    · obtain rfl := Except.ok.inj formatted
      exact stateKeyOf_toClientFormat
    · obtain ⟨stateAt, -, formatted⟩ := bind_eq_ok.1 formatted
      obtain rfl := pure_eq_ok.1 formatted
      exact stateKeyOf_annotate.trans stateKeyOf_toClientFormat
  · cases pure_eq_ok.1 h

@[simp] theorem slot_stampEcho {device : User.DeviceId} : slot (stampEcho s user device e) = slot e := by
  unfold stampEcho
  split
  · rfl
  split
  · rfl
  split
  · exact stateKeyOf_insertUnsigned
  · rfl

theorem entriesOf_clientEvents (lawful : ruma.Lawful) {events : List ClientEvent}
    (accepted : ∀ id ∈ ids, ∃ e : StoredEvent, s.event[id]? = some e ∧ e.rejected = none)
    (h : clientEvents s fuel room ruma version user ids = .ok events) :
    entriesOf events = entriesAt s ids := by
  obtain ⟨found, each, made⟩ := bind_eq_ok.1 h
  obtain rfl := pure_eq_ok.1 made
  have served := mapM_forall₂ each
  clear each made h
  induction served with
  | nil => rfl
  | @cons id found ids rest served _ ih =>
    obtain ⟨stored, held, unrejected⟩ := accepted id List.mem_cons_self
    obtain ⟨e, rfl⟩ := clientEvent_accepted held unrejected served
    have others := ih fun id mem => accepted id (List.mem_cons_of_mem _ mem)
    have own : slot e = keyAt s id := clientEvent_slot lawful served
    have same : e.eventId = id := clientEvent_id served
    simp only [entriesOf, entriesAt] at others ⊢
    rw [List.reduceOption_cons_of_some, List.filterMap_cons, List.filterMap_cons, own, same, others]

end Events

/-! ## One response -/

section Response

variable {cs : CsState} {P : Store → RoomCommand → Prop} {user : UserId} {room : RoomId} {y : Synced}
  {version : RoomVersion} {s : Store}

theorem entriesOf_timeline (sound : Sound s) (lawful : cs.ruma.Lawful)
    {device : User.DeviceId} {filter : SyncFilter} (untyped : filter.Untyped)
    {rows : List (Nat × EventId)} (listed : ∀ r ∈ rows, s.roomSeq[(room, r.1)]? = some r.2)
    {events : List ClientEvent}
    (h : cs.timelineEvents s room version user device filter rows = .ok events) :
    entriesOf events = entriesAt s (rows.map Prod.snd) := by
  obtain ⟨all, served, h⟩ := bind_eq_ok.1 h
  obtain rfl := pure_eq_ok.1 h
  rw [← entriesOf_clientEvents lawful (fun id mem => ?_) served]
  · have every : (all.filter fun ev => typeMatches filter.timelineTypes filter.timelineNotTypes
        ((strProp ev.body "type").getD "")) = all := by
      rw [untyped.timeline.1, untyped.timeline.2]
      exact List.filter_eq_self.2 fun ev _ => typeMatches_untyped _
    rw [every, entriesOf, entriesOf, List.filterMap_map]
    refine List.filterMap_congr fun e _ => ?_
    simp
  · obtain ⟨r, row, rfl⟩ := List.mem_map.1 mem
    obtain ⟨-, -, stored, held, unrejected⟩ := sound.row (listed r row)
    exact ⟨stored, held, unrejected⟩

theorem getElem?_delta (lawful : cs.ruma.Lawful)
    {client start base : StateIds} {selected : Key → Bool} (every : ∀ k, selected k = true)
    (known : base = client ∨ base = ∅)
    (keyed : ∀ (k : Key) (id : EventId), start[k]? = some id → keyAt s id = some k ∧
      (client[k]? ≠ some id → ∃ e : StoredEvent, s.event[id]? = some e ∧ e.rejected = none))
    {state : List ClientEvent}
    (h : clientEvents s cs.fuel room cs.ruma version user (stateDelta start base selected) = .ok state)
    (k : Key) : (Saltator.lastOf (entriesOf state) k).or client[k]? = (start[k]?).or client[k]? := by
  have delta (id : EventId) : id ∈ stateDelta start base selected ↔
      ∃ k : Key, start[k]? = some id ∧ base[k]? ≠ some id := by
    simp only [stateDelta, every, Bool.and_true, List.mem_map, List.mem_filter, decide_eq_true_eq]
    constructor
    · rintro ⟨⟨k, id⟩, ⟨mem, differs⟩, rfl⟩
      exact ⟨k, OrdMap.mem_toList.1 mem, differs⟩
    · rintro ⟨k, held, differs⟩
      exact ⟨(k, id), ⟨OrdMap.mem_toList.2 held, differs⟩, rfl⟩
  -- An entry that is sent is one of the state, under its key.
  have sent : ∀ id, Saltator.lastOf (entriesOf state) k = some id → start[k]? = some id := by
    intro id word
    obtain ⟨e, mem, entry⟩ := List.mem_filterMap.1 (mem_of_lastOf word)
    obtain ⟨key, own, same⟩ := Option.map_eq_some_iff.1 entry
    obtain ⟨rfl, rfl⟩ := Prod.mk.inj same
    obtain ⟨listed, served⟩ := (mem_clientEvents h).1 mem
    obtain ⟨k', held, -⟩ := (delta _).1 listed
    rw [clientEvent_slot lawful served, (keyed k' _ held).1] at own
    rwa [← Option.some.inj own]
  cases word : Saltator.lastOf (entriesOf state) k with
  | some id => rw [sent id word, Option.some_or]
  | none =>
    cases held : start[k]? with
    | none => rfl
    | some id =>
      rw [Option.none_or, Option.some_or]
      by_contra lacks
      have differs : base[k]? ≠ some id := by
        rcases known with rfl | rfl
        · exact lacks
        · simp
      obtain ⟨own, accepted⟩ := keyed k id held
      obtain ⟨stored, kept, unrejected⟩ := accepted lacks
      obtain ⟨found, each, -⟩ := bind_eq_ok.1 h
      obtain ⟨result, served⟩ := ok_of_mapM each ((delta id).2 ⟨k, held, differs⟩)
      obtain ⟨e, rfl⟩ := clientEvent_accepted kept unrejected served
      have same : e.eventId = id := clientEvent_id served
      have mem : e ∈ state := (mem_clientEvents h).2 ⟨same ▸ (delta id).2 ⟨k, held, differs⟩, same ▸ served⟩
      have entry : (k, id) ∈ entriesOf state := by
        refine List.mem_filterMap.2 ⟨e, mem, ?_⟩
        rw [clientEvent_slot lawful served, own, same]
        rfl
      exact lastOf_ne_none entry word

theorem stateAtSeq_unknown (sound : Sound s) (unknown : s.room[room]? = none) (fuel n : Nat) :
    stateAtSeq s fuel room n = .ok ∅ := by
  unfold stateAtSeq
  split
  · rfl
  · rename_i r newest
    obtain ⟨row, -⟩ := mem_scan (List.mem_of_mem_head? newest)
    obtain ⟨-, ⟨m, known⟩, -⟩ := sound.row row
    simp [unknown] at known

theorem Synced.Joined.applies (joined : y.Joined cs P user room) :
    ∃ (m : MembershipEntry) (update : RoomUpdate), y.w.users.membership[(user, room)]? = some m ∧
      (∀ client, y.applyTo room client = update.applyTo client) ∧
      cs.buildJoinedRoom (y.store cs room) room user y.request.device
        (if y.request.roomInitial m then 0 else y.since cs room) (y.now cs room) y.request.filter
        y.request.fullState (y.request.roomInitial m) = .ok update := by
  obtain ⟨m, u, update, member, built, sent, made⟩ := joined.built
  refine ⟨m, update, member, fun client => ?_, made⟩
  have asked := member
  rw [← joined.asks] at asked
  have only (v : SyncedRoom) : (room, v) ∈ y.answer ↔ u = some v := by
    rw [mem_buildSync joined.answered]
    constructor
    · rintro ⟨m', member', built'⟩
      obtain rfl := some_unique asked member'
      exact ok_unique built built'
    · rintro rfl
      exact ⟨m, asked, built⟩
  cases found : y.answer.find? fun r => r.1 = room with
  | none =>
    have none : u = none := by
      rw [Option.eq_none_iff_forall_ne_some]
      intro v same
      have := List.find?_eq_none.1 found _ ((only v).2 same)
      simp at this
    rcases sent with some | ⟨-, timeline, state⟩
    · cases none.symm.trans some
    · simp [Synced.applyTo, found, RoomUpdate.applyTo, timeline, state, entriesOf, OrdMap.extend]
  | some r =>
    have named := List.find?_some found
    obtain ⟨own, v⟩ := r
    obtain rfl : own = room := of_decide_eq_true named
    have some := (only v).1 (List.mem_of_find?_eq_some found)
    rcases sent with rfl | ⟨rfl, -⟩
    · obtain rfl := Option.some.inj some
      simp only [Synced.applyTo, found, Option.map_some, Option.elim_some]
      rfl
    · cases some

theorem Synced.Joined.rebuilds (joined : y.Joined cs P user room) (lawful : cs.ruma.Lawful)
    (sound : Sound (y.store cs room)) (whole : y.request.filter.lazyMembers = false)
    (carried : y.Carried cs user room) {client : StateIds}
    (had : cs.baseState (y.store cs room) room (y.since cs room) y.request.since.isNone = .ok client) :
    y.Agrees cs room (y.applyTo room client) := by
  obtain ⟨m, update, member, applies, made⟩ := joined.applies
  rw [Synced.Agrees, applies]
  cases known : (y.store cs room).room[room]? with
  | none =>
    simp only [CsState.buildJoinedRoom, known, Except.ok.injEq] at made
    subst made
    rw [stateAtSeq_unknown sound known]
    have empty : client = ∅ := by
      unfold CsState.baseState at had
      split at had
      · exact (Except.ok.inj had).symm
      · rw [stateAtSeq_unknown sound known] at had
        exact (Except.ok.inj had).symm
    rw [empty]
    rfl
  | some roomMeta =>
    obtain ⟨client', start, after, had', before, reached, follows, stays, keyed⟩ :=
      carried roomMeta m known member
    obtain rfl := ok_unique had had'
    obtain ⟨version, start', base, -, timeline, before', based, delta, -, -⟩ :=
      buildJoinedRoom_known known made
    obtain rfl := ok_unique before before'
    have every (k : Key) : CsState.stateSelected y.request.filter update.timeline k = true := by
      simp only [CsState.stateSelected, joined.untyped.state.1, joined.untyped.state.2, whole,
        typeMatches_untyped, Bool.false_and, Bool.not_false, Bool.and_self]
    have known_base : base = client ∨ base = ∅ := by
      cases initial : y.request.roomInitial m with
      | true =>
        rw [initial] at based
        exact .inr (Except.ok.inj based).symm
      | false =>
        have token : y.request.since.isNone = false := (Bool.or_eq_false_iff.1 initial).1
        rw [token] at had
        cases full : y.request.fullState with
        | true =>
          rw [initial, full] at based
          exact .inr (Except.ok.inj based).symm
        | false =>
          rw [initial, full] at based
          exact .inl (ok_unique based had)
    have shown := entriesOf_timeline sound lawful joined.untyped
      (fun r mem => (mem_joinedWindow mem).1) timeline
    rw [reached]
    refine congrArg Except.ok (ExtTreeMap.ext_getElem? fun k => ?_)
    calc after[k]? = (Saltator.lastOf (entriesAt (y.store cs room)
          ((y.rows cs room roomMeta m).map Prod.snd)) k).or (start[k]?) := by
          rw [follows, OrdMap.getElem?_extend]
      _ = (Saltator.lastOf (entriesAt (y.store cs room)
          ((y.rows cs room roomMeta m).map Prod.snd)) k).or ((start[k]?).or (client[k]?)) := by
          cases lacks : start[k]? with
          | some id => rfl
          | none =>
            cases word : Saltator.lastOf (entriesAt (y.store cs room)
                ((y.rows cs room roomMeta m).map Prod.snd)) k with
            | some id => rfl
            | none =>
              -- Nothing puts the entry in, so the client does not have it either.
              have gone : k ∉ after := by
                rw [ExtTreeMap.mem_iff_isSome_getElem?, follows, OrdMap.getElem?_extend, word, lacks]
                exact Bool.false_ne_true
              have absent : client[k]? = none :=
                ExtTreeMap.getElem?_eq_none fun mem => gone (stays k mem)
              rw [absent]
              rfl
      _ = (update.applyTo client)[k]? := by
          rw [RoomUpdate.applyTo, OrdMap.getElem?_extend, OrdMap.getElem?_extend, shown,
            getElem?_delta lawful every known_base keyed delta]
          rfl

end Response

/-! ## A whole chain -/

section Chains

variable {cs : CsState} {P : Store → RoomCommand → Prop} {user : UserId} {room : RoomId}
  {first : Synced} {later : List Synced}

theorem stateAtSeq_kept {s t : Store} {fuel n : Nat} {map : StateIds} (kept : Kept s t)
    (records : ∀ (n : Nat) (id : EventId), s.roomSeq[(room, n)]? = some id → t.event[id]? = s.event[id]?)
    (groups : s.GroupsLe t) (reached : n ≤ s.seq) (h : stateAtSeq s fuel room n = .ok map) :
    stateAtSeq t fuel room n = .ok map := by
  have rows : roomTimeline t room 0 (some n) 1 true = roomTimeline s room 0 (some n) 1 true := by
    have same : scanned t.roomSeq room 0 (some n) = scanned s.roomSeq room 0 (some n) := by
      refine congrArg (List.map _) (OrdMap.rows_congr fun k selected => ?_)
      obtain ⟨own, -, upto⟩ := of_decide_eq_true selected
      obtain ⟨r, k⟩ := k
      exact kept.rows r k ((of_decide_eq_true upto).trans reached)
    simp only [roomTimeline, scan, same]
  unfold stateAtSeq at h ⊢
  rw [rows]
  split at h
  · exact h
  · rename_i r newest
    obtain ⟨row, -⟩ := mem_scan (List.mem_of_mem_head? newest)
    dsimp only at row h ⊢
    rw [records _ _ row]
    cases held : s.event[r]? with
    | none =>
      rw [held] at h
      exact h
    | some stored =>
      rw [held] at h
      dsimp only [resolveGroup] at h ⊢
      rw [mapError_eq_ok] at h ⊢
      exact groups.resolveGroup h

/-- In a chain whose responses carry the state on, the client has the state that the server has at the
position of the last response. -/
theorem chain_rebuilds (chain : Chain cs P user room first later) (lawful : cs.ruma.Lawful)
    (serial : ∀ s cmd, P s cmd → SerialIn cs.ruma s cmd ∧ (ownJoins room).Holds s cmd)
    (fresh : first.request.since = none)
    (whole : ∀ y ∈ first :: later, y.request.filter.lazyMembers = false)
    (carried : ∀ y ∈ first :: later, y.Carried cs user room) :
    (lastOf first later).Agrees cs room (rebuilt room first later) := by
  induction chain with
  | start run joined =>
    refine joined.rebuilds lawful (run_sound (run.trans joined.later)) (whole first List.mem_cons_self)
      (carried first List.mem_cons_self) ?_
    rw [fresh]
    rfl
  | @next y later chain token run joined ih =>
    have among : y ∈ first :: y :: later := List.mem_cons_of_mem _ List.mem_cons_self
    have earlier : ∀ x ∈ first :: later, x ∈ first :: y :: later := by
      intro x mem
      rcases List.mem_cons.1 mem with rfl | mem
      · exact List.mem_cons_self
      · exact List.mem_cons_of_mem _ (List.mem_cons_of_mem _ mem)
    have agreed := ih (fun x mem => whole x (earlier x mem)) fun x mem => carried x (earlier x mem)
    have onward := run.trans joined.later
    refine joined.rebuilds lawful (run_sound (chain.run.trans onward)) (whole y among) (carried y among) ?_
    have since : y.since cs room = (lastOf first later).now cs room := by
      simp only [Synced.since, SyncRequest.after, token, Option.getD_some]
      rfl
    have sound : GroupsOk ((lastOf first later).store cs room) := by
      refine Runs.invariant groupsOk_onCore (fun s cmd t h holds heff => ?_) chain.run groupsOk_empty
      exact (groups_effect h (serial s cmd holds).1.freshIn heff).1
    rw [token, since]
    exact stateAtSeq_kept (run_kept onward)
      (run_records (run_inOrder chain.run) (fun s cmd holds => (serial s cmd holds).2) onward)
      (run_groupsLe sound (fun s cmd holds => (serial s cmd holds).1) onward) chain.now_le agreed

end Chains

/-! ## Two clients -/

section Samples

def sampleTopic : JsonObject :=
  Ruma.samplePdu "t" "m.room.topic" (some "") "@a:x" [("topic", .string "T")] ["$c", "$j"] ["$j"] 3

def sampleAfter : JsonObject :=
  Ruma.samplePdu "n" "m.room.message" none "@a:x" [] ["$c", "$j"] ["$t"] 4

def sampleRebuilt (s t : Store) (now now' : SyncPos) : Option StateIds := do
  let answer ← (sampleCsState.buildSync (sampleProjected s [sampleJoining])
    (sampleSync "@a:x" none now)).toOption
  let answer' ← (sampleCsState.buildSync (sampleProjected t [sampleJoining])
    (sampleSync "@a:x" (some now) now')).toOption
  return rebuilt "!r:x" (sampleSynced s [sampleJoining] none now answer)
    [sampleSynced t [sampleJoining] (some now) now' answer']

def sampleCarries (s : Store) (since : Option SyncPos) (now : SyncPos) : Bool :=
  (s.room["!r:x"]?).any fun roomMeta : RoomMeta =>
    ((sampleProjected s [sampleJoining]).users.membership[("@a:x", "!r:x")]?).any fun m : MembershipEntry =>
      let y := sampleSynced s [sampleJoining] since now []
      let rows := y.rows sampleCsState "!r:x" roomMeta m
      (sampleCsState.baseState s "!r:x" (y.since sampleCsState "!r:x") since.isNone).toOption.any
        fun client : StateIds =>
        (sampleCsState.timelineStart s "!r:x" rows (now.roomAt 0)).toOption.any fun start : StateIds =>
          (stateAtSeq s 9 "!r:x" (now.roomAt 0)).toOption.any fun after : StateIds =>
            decide (after.toList = (OrdMap.extend start (entriesAt s (rows.map Prod.snd))).toList) &&
              client.toList.all (fun r : Key × EventId => after.contains r.1) &&
              start.toList.all fun r : Key × EventId => decide (keyAt s r.2 = some r.1) &&
                (s.event[r.2]?).any fun e : StoredEvent => e.rejected.isNone

theorem sampleRebuilt_eq {s t : Store} {now now' : SyncPos} {answer answer' : List (RoomId × SyncedRoom)}
    {client : StateIds}
    (answered : sampleCsState.buildSync (sampleProjected s [sampleJoining]) (sampleSync "@a:x" none now) =
      .ok answer)
    (answered' : sampleCsState.buildSync (sampleProjected t [sampleJoining])
      (sampleSync "@a:x" (some now) now') = .ok answer')
    (h : sampleRebuilt s t now now' = some client) :
    client = rebuilt "!r:x" (sampleSynced s [sampleJoining] none now answer)
      [sampleSynced t [sampleJoining] (some now) now' answer'] := by
  rw [sampleRebuilt, answered, answered'] at h
  exact (Option.some.inj h).symm

theorem sample_carried {s : Store} {since : Option SyncPos} {now : SyncPos}
    (h : sampleCarries s since now = true) (answer : List (RoomId × SyncedRoom)) :
    (sampleSynced s [sampleJoining] since now answer).Carried sampleCsState "@a:x" "!r:x" := by
  simp only [sampleCarries, Option.any_eq_true, toOption_eq_some, Bool.and_eq_true, decide_eq_true_eq,
    List.all_eq_true, Option.isNone_iff_eq_none] at h
  obtain ⟨roomMeta, known, m, member, client, had, start, before, after, reached, ⟨follows, stays⟩,
    keyed⟩ := h
  intro roomMeta' m' known' member'
  obtain rfl := some_unique known known'
  obtain rfl := some_unique member member'
  refine ⟨client, start, after, had, before, reached, ExtTreeMap.toList_inj.1 follows, fun k mem => ?_,
    fun k id held => ?_⟩
  · obtain ⟨id, held⟩ := OrdMap.mem_iff_getElem?.1 mem
    exact ExtTreeMap.mem_iff_contains.2 (stays (k, id) (OrdMap.mem_toList.2 held))
  · obtain ⟨own, e, stored, accepted⟩ :=
      keyed (k, id) (OrdMap.mem_toList.2 held)
    exact ⟨own, fun _ => ⟨e, stored, accepted⟩⟩

theorem exists_sample_chain (calls : List Call) (now : SyncPos) (ids : List EventId) (limited : Bool)
    (p : Store → Store → Bool)
    (h : ((Server.sample ["x"]).serveAll (ownJoins "!r:x").Holds 9 Store.empty
        [.ingest Ruma.sampleCreate false, .ingest Ruma.sampleJoin false]).any (fun s : Store =>
      sampleAnswers s [sampleJoining] none ⟨[2], 1⟩ 1 ["$c", "$j"] false &&
        ((Server.sample ["x"]).serveAll (ownJoins "!r:x").Holds 9 s calls).any fun t : Store =>
          sampleAnswers t [sampleJoining] (some ⟨[2], 1⟩) now 1 ids limited && p s t) = true) :
    ∃ (s t : Store) (answer answer' : List (RoomId × SyncedRoom)), p s t = true ∧
      sampleCsState.buildSync (sampleProjected s [sampleJoining]) (sampleSync "@a:x" none ⟨[2], 1⟩) =
        .ok answer ∧
      sampleCsState.buildSync (sampleProjected t [sampleJoining])
        (sampleSync "@a:x" (some ⟨[2], 1⟩) now) = .ok answer' ∧
      Chain sampleCsState
        (fun s cmd => Serial Ruma.sample s cmd ∧ (ownJoins "!r:x").Holds s cmd) "@a:x" "!r:x"
        (sampleSynced s [sampleJoining] none ⟨[2], 1⟩ answer)
        [sampleSynced t [sampleJoining] (some ⟨[2], 1⟩) now answer'] := by
  obtain ⟨s, founded, h⟩ := (Option.any_eq_true _ _).1 h
  rw [Bool.and_eq_true, Option.any_eq_true] at h
  obtain ⟨h, t, served, h'⟩ := h
  rw [Bool.and_eq_true] at h'
  obtain ⟨answer, joined, -⟩ := sample_synced h
  obtain ⟨answer', joined', -⟩ := sample_synced h'.1
  exact ⟨s, t, answer, answer', h'.2, joined.answered, joined'.answered,
    .next (.start (serveAll_runs founded) joined) rfl (serveAll_runs served) joined'⟩

theorem chain_rebuilds_sample : ∃ first y : Synced,
    Chain sampleCsState (fun s cmd => Serial Ruma.sample s cmd ∧ (ownJoins "!r:x").Holds s cmd)
      "@a:x" "!r:x" first [y] ∧
    (rebuilt "!r:x" first [y])[(("m.room.topic", "") : Key)]? = some "$t" ∧
    y.Agrees sampleCsState "!r:x" (rebuilt "!r:x" first [y]) := by
  obtain ⟨s, t, answer, answer', h, answered, answered', chain⟩ := exists_sample_chain
    [.ingest sampleTopic false, .ingest sampleAfter false] ⟨[4], 1⟩ ["$t", "$n"] false
    (fun s t => sampleCarries s none ⟨[2], 1⟩ && sampleCarries t (some ⟨[2], 1⟩) ⟨[4], 1⟩ &&
      (sampleRebuilt s t ⟨[2], 1⟩ ⟨[4], 1⟩).any fun client : StateIds =>
        decide (client[(("m.room.topic", "") : Key)]? = some "$t"))
    (by decide +kernel)
  simp only [Bool.and_eq_true, Option.any_eq_true, decide_eq_true_eq] at h
  obtain ⟨⟨carried, carried'⟩, client, has, topic⟩ := h
  obtain rfl := sampleRebuilt_eq answered answered' has
  have whole : ∀ y ∈ [sampleSynced s [sampleJoining] none ⟨[2], 1⟩ answer,
      sampleSynced t [sampleJoining] (some ⟨[2], 1⟩) ⟨[4], 1⟩ answer'],
      y.request.filter.lazyMembers = false ∧ y.Carried sampleCsState "@a:x" "!r:x" := by
    intro y mem
    simp only [List.mem_cons, List.not_mem_nil, or_false] at mem
    rcases mem with rfl | rfl
    · exact ⟨rfl, sample_carried carried answer⟩
    · exact ⟨rfl, sample_carried carried' answer'⟩
  have agrees := chain_rebuilds chain Ruma.sample_lawful
    (fun s cmd holds => ⟨holds.1.serialIn, holds.2⟩) rfl (fun y mem => (whole y mem).1)
    fun y mem => (whole y mem).2
  exact ⟨_, _, chain, topic, agrees⟩

/-- The topic came with the state of a recovered chain, and is in no response. -/
theorem adopted_unseen : ∃ first y : Synced,
    Chain sampleCsState (fun s cmd => Serial Ruma.sample s cmd ∧ (ownJoins "!r:x").Holds s cmd)
      "@a:x" "!r:x" first [y] ∧
    first.request.since = none ∧ first.request.filter.lazyMembers = false ∧
    y.request.filter.lazyMembers = false ∧
    ¬ y.Agrees sampleCsState "!r:x" (rebuilt "!r:x" first [y]) := by
  obtain ⟨s, t, answer, answer', h, answered, answered', chain⟩ := exists_sample_chain
    [.importSegment "!r:x" [Ruma.sampleCreate, Ruma.sampleJoin, sampleTopic] [] [sampleAfter]]
    ⟨[3], 1⟩ ["$n"] true (fun s t =>
      (sampleRebuilt s t ⟨[2], 1⟩ ⟨[3], 1⟩).any (fun client : StateIds =>
        decide (client[(("m.room.topic", "") : Key)]? = none)) &&
      (stateAtSeq t 9 "!r:x" 3).toOption.any fun after : StateIds =>
        decide (after[(("m.room.topic", "") : Key)]? = some "$t"))
    (by decide +kernel)
  simp only [Bool.and_eq_true, Option.any_eq_true, decide_eq_true_eq, toOption_eq_some] at h
  obtain ⟨⟨client, has, without⟩, after, reached, topic⟩ := h
  obtain rfl := sampleRebuilt_eq answered answered' has
  refine ⟨_, _, chain, rfl, rfl, rfl, fun agrees => ?_⟩
  obtain rfl := ok_unique agrees reached
  cases without.symm.trans topic

end Samples

end Saltator.Client
