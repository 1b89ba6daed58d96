import Mathlib.Data.List.TakeWhile
import Saltator.Room.Runs

/-!
# What a room is born with

A room's version and create event are set when its bookkeeping is first written. The pipeline writes
it afresh for every create event it accepts, so both stay as they are exactly as long as no create
event is accepted for a known room. Rooms named after their create event are safe from it: a second
one would be the same event. In older rooms the create event chooses its `room_id`.
-/

namespace Saltator.Room

open Std
open Saltator.Outcome
open Machine (Effect plain)
open Pipeline

/-- A condition on the events submitted to the pipeline: server, store, raw event, and what the
caller established of it. -/
abbrev Admission := Server → Store → JsonObject → RoomVersion → RoomId → Bool → Prop

def Submits (allow : Admission) (s : Store) (cmd : RoomCommand) : Prop :=
  ∃ server raw version room isCreate relay rejectMissingAuth fuel d,
    server.Lawful ∧ Routed server s raw version room isCreate ∧
    allow server s raw version room isCreate ∧
    processInner server.ruma server.keys s fuel raw version room isCreate relay rejectMissingAuth =
      .ok (.inr d) ∧ plain cmd = .append d.cmd

/-- A create event for a known room that the checks on the event itself let through: it is valid and
signed, not stored yet, cites no auth events and meets the rule for create events. -/
def Refounds : Admission := fun server s raw version room isCreate =>
  isCreate = true ∧ (s.room[room]?).isSome ∧
    ∃ raw' pdu id, vet server.ruma server.keys version raw = .ok (raw', pdu) ∧
      server.ruma.eventId raw' version = .ok id ∧ s.event[id]? = none ∧ pdu.authEvents = [] ∧
      Auth.checkCreate server.ruma version (⟨id, pdu⟩ : IdentifiedPdu) = .ok ()

/-- Known rooms stay known, with the version and the create event they have. -/
def BirthKept (s t : Store) : Prop :=
  ∀ (room : RoomId) (m : RoomMeta), s.room[room]? = some m →
    ∃ m' : RoomMeta, t.room[room]? = some m' ∧ m'.version = m.version ∧ m'.createEventId = m.createEventId

/-! ## Create events -/

section Create

variable {E : Type} [Event E] {ruma : Ruma} {version : RoomVersion}

theorem checkAuthEvents_create {event : E} {entries : List (Auth.AuthEntry E)}
    (htype : Event.eventType event = "m.room.create")
    (h : Auth.checkAuthEvents version event entries = .ok ()) : entries = [] := by
  cases entries with
  | nil => rfl
  | cons entry entries =>
    rw [Auth.checkAuthEvents, bind_eq_ok] at h
    obtain ⟨acc, hfold, _⟩ := h
    rw [List.foldlM_cons, bind_eq_ok] at hfold
    obtain ⟨_, hfirst, _⟩ := hfold
    simp [Auth.checkAuthEntry, Auth.authTypesOf_create htype] at hfirst

theorem colon_of_checkCreate (event : E) {room : RoomId} (hv : version.roomIdIsCreateEventId = false)
    (hroom : Event.roomId event = some room) (h : Auth.checkCreate ruma version event = .ok ()) :
    (afterColon room).isSome := by
  by_contra hcolon
  have hserver : ruma.roomServerName room = none := by
    simp [Ruma.roomServerName, Option.not_isSome_iff_eq_none.1 hcolon]
  simp only [Auth.checkCreate, Auth.reject, hv, hroom, hserver] at h
  simp only [error_bind] at h
  split at h <;> simp at h

end Create

section Pipeline

variable {server : Server} {s : Store} {raw : JsonObject} {version : RoomVersion} {room : RoomId}
  {isCreate relay rejectMissingAuth : Bool} {fuel : Nat} {d : Decision}

theorem Routed.create (routed : Routed server s raw version room true) (lawful : server.Lawful) :
    strProp raw "type" = some "m.room.create" ∧ strProp raw "state_key" = some "" ∧
      createRoomId server.ruma version raw = .ok room := by
  cases routed with
  | ingested h =>
    rcases classify_cases h with ⟨hshape, _, hroom⟩ | ⟨_, hcreate, _⟩
    · simp only [createShaped, Bool.and_eq_true, beq_iff_eq] at hshape
      exact ⟨hshape.1, hshape.2, hroom⟩
    · simp at hcreate
  | created hshape hsign hroom =>
    simp only [createShaped, Bool.and_eq_true, beq_iff_eq] at hshape
    have same := lawful.sign_lookup _ _ _ hsign
    exact ⟨(strProp_congr (same "type" (by decide))).trans hshape.1,
      (strProp_congr (same "state_key" (by decide))).trans hshape.2, hroom⟩

theorem checkOwnAuth_create {ruma : Ruma} {roomMeta : Option RoomMeta} (event : IdentifiedPdu)
    {held : List (IdentifiedPdu × Bool)} (htype : Event.eventType event = "m.room.create")
    (h : checkOwnAuth ruma s version roomMeta isCreate event held = .ok (.ok ())) :
    held = [] ∧ Auth.checkCreate ruma version event = .ok () := by
  unfold checkOwnAuth at h
  split at h
  · simp at h
  · rename_i hauth
    obtain ⟨state, _, h⟩ := bind_eq_ok.1 h
    rw [pure_eq_ok, Auth.checkStateDependent, if_pos htype] at h
    exact ⟨by simpa using checkAuthEvents_create htype hauth, h⟩

theorem accepted_create (lawful : server.Lawful) (routed : Routed server s raw version room isCreate)
    (h : processInner server.ruma server.keys s fuel raw version room isCreate relay
      rejectMissingAuth = .ok (.inr d)) (hversion : d.cmd.createVersion.isSome) :
    isCreate = true ∧ createRoomId server.ruma version raw = .ok room ∧
      ∃ raw' pdu id, vet server.ruma server.keys version raw = .ok (raw', pdu) ∧
        server.ruma.eventId raw' version = .ok id ∧ s.event[id]? = none ∧ d.cmd.eventId = id ∧
        pdu.authEvents = [] ∧
        Auth.checkCreate server.ruma version (⟨id, pdu⟩ : IdentifiedPdu) = .ok () := by
  obtain ⟨raw', pdu, id, hvet, hid, hnew, _, hjudged⟩ := processInner_cases h
  cases hjudged with
  | chainRejected => simp [rejectedCommand] at hversion
  | stateRejected => simp [rejectedCommand] at hversion
  | accepted passed =>
    obtain rfl : isCreate = true := by
      cases isCreate
      · simp [acceptedCommand] at hversion
      · rfl
    obtain ⟨htype, _, hroom⟩ := routed.create lawful
    obtain ⟨views, hkept⟩ := vet_views hvet
    have htype' : pdu.eventType = "m.room.create" := by
      have := (strProp_congr ((hkept lawful.ruma).1 "type" (by decide))).trans htype
      simpa [views.eventType] using this
    obtain ⟨hheld, hcreate⟩ := checkOwnAuth_create ⟨id, pdu⟩ htype' passed.own
    refine ⟨rfl, hroom, raw', pdu, id, hvet, hid, hnew, rfl, ?_, hcreate⟩
    have := (fetchAuth_held passed.auth).1
    rw [hheld] at this
    exact this.symm

theorem accepted_create_new (lawful : server.Lawful) (routed : Routed server s raw version room isCreate)
    (h : processInner server.ruma server.keys s fuel raw version room isCreate relay
      rejectMissingAuth = .ok (.inr d)) (hversion : d.cmd.createVersion.isSome)
    (hnot : ¬ Refounds server s raw version room isCreate) : s.room[d.cmd.roomId]? = none := by
  obtain ⟨hcreate, _, raw', pdu, id, hvet, hid, hnew, _, hauth, hrule⟩ :=
    accepted_create lawful routed h hversion
  have hroom : d.cmd.roomId = room := by
    obtain ⟨_, _, _, _, _, _, _, hjudged⟩ := processInner_cases h
    cases hjudged <;> rfl
  rw [hroom]
  by_contra hknown
  exact hnot ⟨hcreate, Option.isSome_iff_ne_none.2 hknown, raw', pdu, id, hvet, hid, hnew, hauth, hrule⟩

end Pipeline

/-! ## The step -/

theorem birthKept_insert {s t : Store} (room : RoomId) (new : RoomMeta)
    (hroom : t.room = s.room.insert room new)
    (h : ∀ m, s.room[room]? = some m → new.version = m.version ∧
      new.createEventId = m.createEventId) : BirthKept s t := by
  intro r m hm
  rw [hroom, OrdMap.getElem?_insert']
  split
  · rename_i hr
    subst hr
    exact ⟨new, rfl, h m hm⟩
  · exact ⟨m, hm, rfl, rfl⟩

theorem birthKept_append {s t : Store} {cmd : AppendEvent}
    (hnew : cmd.createVersion.isSome → s.room[cmd.roomId]? = none)
    (heff : Effect s (.append cmd) t) : BirthKept s t := by
  cases heff with
  | idle => exact fun _ m hm => ⟨m, hm, rfl, rfl⟩
  | @rejected _ rejected absent hrejected =>
    unfold Machine.applyRejected
    dsimp only
    split
    · exact fun _ m hm => ⟨m, hm, rfl, rfl⟩
    · rename_i m hm
      split
      · refine birthKept_insert cmd.roomId { m with nextGroup := cmd.nextGroup } rfl fun m' hm' => ?_
        obtain rfl := some_unique hm hm'
        exact ⟨rfl, rfl⟩
      · exact fun _ m hm => ⟨m, hm, rfl, rfl⟩
  | accepted absent hrejected happly =>
    obtain ⟨new, hmeta, hroom⟩ := (Machine.applyAccepted_spec happly).room
    refine birthKept_insert cmd.roomId new hroom fun m hm => ?_
    unfold Machine.acceptedMeta at hmeta
    split at hmeta
    · rename_i v hv
      simp [hnew (by simp [hv])] at hm
    · rw [hm] at hmeta
      obtain rfl := Except.ok.inj hmeta
      exact ⟨rfl, rfl⟩

/-! ## Rooms named after their create event -/

/-- A room id without a server part is the id of a stored event with another sigil. -/
def Named (s : Store) : Prop :=
  ∀ hash : String, (s.room["!" ++ hash]?).isSome → ':' ∉ hash.toList → (s.event["$" ++ hash]?).isSome

theorem afterColon_isSome {hash : String} (h : (afterColon ("!" ++ hash)).isSome) : ':' ∈ hash.toList := by
  by_contra hcolon
  have hnil : ("!" ++ hash).toList.dropWhile (· ≠ ':') = [] := by
    refine List.dropWhile_eq_nil_iff.2 fun c hc => ?_
    have hc' : c ∈ '!' :: hash.toList := by simpa using hc
    rcases List.mem_cons.1 hc' with rfl | hc
    · decide
    · simpa using fun h : c = ':' => hcolon (h ▸ hc)
  unfold afterColon at h
  rw [hnil] at h
  simp at h

theorem bang_injective {a b : String} (h : "!" ++ a = "!" ++ b) : a = b := by
  have := congrArg String.toList h
  simpa [String.ext_iff] using this

section Named

variable {s : Store} {raw : JsonObject} {version : RoomVersion} {room : RoomId}

theorem create_named {ruma : Ruma} {keys : PublicKeyMap} (lawful : ruma.Lawful) {raw' : JsonObject}
    {pdu : Pdu} {id : EventId} {hash : String}
    (hroom : createRoomId ruma version raw = .ok ("!" ++ hash)) (hcolon : ':' ∉ hash.toList)
    (hvet : vet ruma keys version raw = .ok (raw', pdu)) (hid : ruma.eventId raw' version = .ok id)
    (hrule : Auth.checkCreate ruma version (⟨id, pdu⟩ : IdentifiedPdu) = .ok ()) :
    version.roomIdIsCreateEventId = true ∧ id = "$" ++ hash := by
  obtain ⟨views, hkept⟩ := vet_views hvet
  obtain ⟨hlookup, hhash⟩ := hkept lawful
  unfold createRoomId at hroom
  split at hroom
  · rename_i hv
    rw [ofFormat, mapError_eq_ok, Ruma.roomIdForCreate_eq_ok] at hroom
    obtain ⟨hash', hh, heq, _⟩ := hroom
    obtain rfl := bang_injective heq
    obtain ⟨hash', hh', rfl, _⟩ := Ruma.eventId_eq_ok.1 hid
    rw [hhash, hh] at hh'
    exact ⟨hv, by rw [Except.ok.inj hh']⟩
  · rename_i hv
    have hprop := (strProp_congr (hlookup "room_id" (by decide))).trans (roomIdOf_eq_ok hroom)
    have hsome := colon_of_checkCreate (⟨id, pdu⟩ : IdentifiedPdu)
      (by simpa using hv) (views.roomId.trans hprop) hrule
    exact absurd (afterColon_isSome hsome) hcolon

theorem named_append {t : Store} {cmd : AppendEvent} (h : Named s)
    (hnamed : cmd.createVersion.isSome → ∀ hash : String, cmd.roomId = "!" ++ hash →
      ':' ∉ hash.toList → cmd.eventId = "$" ++ hash)
    (heff : Effect s (.append cmd) t) : Named t := by
  intro hash hroom hcolon
  have held : (s.event["$" ++ hash]?).isSome → (t.event["$" ++ hash]?).isSome := by
    intro hs
    rcases heff.event_cases ("$" ++ hash) with hsame | ⟨e, he, _⟩
    · rw [hsame]
      exact hs
    · simp [he]
  have known : (s.room["!" ++ hash]?).isSome → (t.event["$" ++ hash]?).isSome :=
    fun hs => held (h hash hs hcolon)
  cases heff with
  | idle => exact known hroom
  | @rejected _ rejected absent hrejected =>
    refine known ?_
    unfold Machine.applyRejected at hroom
    dsimp only at hroom
    split at hroom
    · exact hroom
    · rename_i m hm
      split at hroom
      · simp only [Store.putMeta, OrdMap.getElem?_insert'] at hroom
        split at hroom
        · rename_i hr
          rw [hr]
          exact Option.isSome_iff_exists.2 ⟨m, hm⟩
        · exact hroom
      · exact hroom
  | accepted absent hrejected happly =>
    have happended := Machine.applyAccepted_spec happly
    obtain ⟨new, hmeta, hroom'⟩ := happended.room
    rw [hroom', OrdMap.getElem?_insert'] at hroom
    split at hroom
    · rename_i hr
      unfold Machine.acceptedMeta at hmeta
      split at hmeta
      · rename_i v hv
        rw [happended.event, ← hnamed (by simp [hv]) hash hr.symm hcolon]
        simp
      · split at hmeta
        · simp at hmeta
        · rename_i m hm
          exact known (hr ▸ by simp [hm])
    · exact known hroom

end Named

/-! ## Runs of submitted events -/

theorem named_run {s : Store} (run : Runs (Submits fun _ _ _ _ _ _ => True) Store.empty s) : Named s := by
  refine Runs.invariant (fun _ => Iff.rfl) (fun s cmd t h hP heff => ?_) run
    (fun hash h => by simp [Store.empty] at h)
  obtain ⟨server, raw, version, room, isCreate, relay, reject, fuel, d, lawful, routed, _, hp,
    hplain⟩ := hP
  rw [hplain] at heff
  refine named_append h (fun hversion hash hroom hcolon => ?_) heff
  obtain ⟨_, hcreate, raw', pdu, id, hvet, hid, _, rfl, _, hrule⟩ :=
    accepted_create lawful routed hp hversion
  have hroom' : d.cmd.roomId = room := by
    obtain ⟨_, _, _, _, _, _, _, hjudged⟩ := processInner_cases hp
    cases hjudged <;> rfl
  rw [← hroom', hroom] at hcreate
  exact (create_named lawful.ruma hcreate hcolon hvet hid hrule).2

theorem serveAll_submits {server : Server} {P : Store → RoomCommand → Prop}
    [∀ s cmd, Decidable (P s cmd)] {allow : Admission} {fuel : Nat} {s s' : Store}
    {calls : List Call} (lawful : server.Lawful)
    (append : ∀ s cmd, P s cmd → ∃ a, plain cmd = .append a)
    (allowed : ∀ s raw version room isCreate relay rejectMissingAuth fuel d cmd,
      processInner server.ruma server.keys s fuel raw version room isCreate relay
        rejectMissingAuth = .ok (.inr d) → plain cmd = .append d.cmd → P s cmd →
      allow server s raw version room isCreate)
    (h : server.serveAll P fuel s calls = some s') :
    Runs (fun s cmd => Submits allow s cmd ∧ P s cmd) s s' := by
  refine serveAll_induction (fun _ => .refl) (fun _ _ _ => Relation.ReflTransGen.trans)
    (fun s t call cmd response hprep hP happly => .single ⟨s, cmd, response, ⟨?_, hP⟩, happly⟩) h
  obtain ⟨a, hplain⟩ := append s cmd hP
  cases prepare_produced hprep with
  | append routed hp =>
    exact ⟨server, _, _, _, _, _, _, _, _, lawful, routed, allowed _ _ _ _ _ _ _ _ _ _ hp rfl hP, hp, rfl⟩
  | stamped routed hp =>
    exact ⟨server, _, _, _, _, _, _, _, _, lawful, routed, allowed _ _ _ _ _ _ _ _ _ _ hp rfl hP, hp, rfl⟩
  | _ => simp [plain] at hplain

/-- **What a room is born with stays.** Submitted events that refound no room keep every room's
version and create event, from any store on. In a store that was built by submitted events, an event
that refounds a room is of a version before 12. -/
theorem submissions_keep_birth (s : Store) : (∀ start : Store,
      Runs (Submits fun server s raw version room isCreate =>
        ¬ Refounds server s raw version room isCreate) start s → BirthKept start s) ∧
    (Runs (Submits fun _ _ _ _ _ _ => True) Store.empty s →
      ∀ (server : Server) (raw : JsonObject) (version : RoomVersion) (room : RoomId)
        (isCreate : Bool), server.Lawful → Routed server s raw version room isCreate →
        Refounds server s raw version room isCreate → version.roomIdIsCreateEventId = false) := by
  refine ⟨fun start run => ?_, fun run server raw version room isCreate lawful routed h => ?_⟩
  · refine Runs.invariant (I := BirthKept start) (fun _ => Iff.rfl) (fun t cmd u h hP heff => ?_)
      run fun _ m hm => ⟨m, hm, rfl, rfl⟩
    obtain ⟨server, raw, version, room, isCreate, relay, reject, fuel, d, lawful, routed, hnot, hp,
      hplain⟩ := hP
    rw [hplain] at heff
    have step := birthKept_append (fun hversion => accepted_create_new lawful routed hp hversion hnot) heff
    intro room m hm
    obtain ⟨m', hm', hv, hc⟩ := h room m hm
    obtain ⟨m'', hm'', hv', hc'⟩ := step room m' hm'
    exact ⟨m'', hm'', hv'.trans hv, hc'.trans hc⟩
  · obtain ⟨rfl, hknown, raw', pdu, id, hvet, hid, hnew, _, hrule⟩ := h
    obtain ⟨_, _, hroom⟩ := routed.create lawful
    by_contra hv
    -- The room is named after a hash, so the event that founded it is this one.
    rw [Bool.not_eq_false] at hv
    have hname := hroom
    rw [createRoomId, if_pos hv, ofFormat, mapError_eq_ok, Ruma.roomIdForCreate_eq_ok] at hname
    obtain ⟨hash, hh, rfl, _⟩ := hname
    have hcolon := lawful.ruma.hash_colon _ _ _ hh
    have hstored := named_run run hash hknown hcolon
    rw [← (create_named lawful.ruma hroom hcolon hvet hid hrule).2, hnew] at hstored
    simp at hstored

def foundsNew (s : Store) (cmd : RoomCommand) : Bool :=
  match plain cmd with
  | .append a => a.rejected.isNone && (a.createVersion.isNone || s.room[a.roomId]?.isNone)
  | _ => false

theorem submissions_keep_birth_join : ∃ start s : Store, BirthKept start s ∧
    (start.room["!r:x"]?).isSome ∧ (s.event["$j"]?).isSome := by
  have runs : ∀ {s s' : Store} {calls : List Call}, (Server.sample ["x"]).serveAll
      (fun s cmd => foundsNew s cmd = true) 9 s calls = some s' →
      Runs (Submits fun server s raw version room isCreate =>
        ¬ Refounds server s raw version room isCreate) s s' := by
    refine fun h => (serveAll_submits (Server.sample_lawful ["x"]) (fun s cmd hP => ?_)
      (fun s raw version room isCreate relay reject fuel d cmd hp hplain hP => ?_) h).mono
        fun _ _ => And.left
    · unfold foundsNew at hP
      split at hP
      · rename_i a ha
        exact ⟨a, ha⟩
      · simp at hP
    · rintro ⟨rfl, hknown, _⟩
      obtain ⟨_, _, _, _, _, _, _, hjudged⟩ := processInner_cases hp
      rw [foundsNew, hplain] at hP
      cases hjudged <;> simp_all [rejectedCommand, acceptedCommand]
  obtain ⟨start, s, hs, hroom, hj⟩ : ∃ start s : Store,
      (Server.sample ["x"]).serveAll (fun s cmd => foundsNew s cmd = true) 9 start
        [.ingest Ruma.sampleJoin false] = some s ∧
      (start.room["!r:x"]?).isSome ∧ s.event.contains "$j" := by
    have h : ((Server.sample ["x"]).serveAll (fun s cmd => foundsNew s cmd = true) 9 Store.empty
        [.ingest Ruma.sampleCreate false]).any (fun start => (start.room["!r:x"]?).isSome &&
          ((Server.sample ["x"]).serveAll (fun s cmd => foundsNew s cmd = true) 9 start
            [.ingest Ruma.sampleJoin false]).any fun s => s.event.contains "$j") := by
      decide +kernel
    obtain ⟨start, _, hp⟩ := (Option.any_eq_true _ _).1 h
    rw [Bool.and_eq_true, Option.any_eq_true] at hp
    obtain ⟨hroom, s, hs, hj⟩ := hp
    exact ⟨start, s, hs, hroom, hj⟩
  exact ⟨start, s, (submissions_keep_birth s).1 start (runs hs), hroom, by simpa using hj⟩

def sampleSecondCreate : JsonObject :=
  Ruma.samplePdu "d" "m.room.create" (some "") "@b:x"
    [("creator", .string "@b:x"), ("room_version", .string "10")] [] [] 1

/-- A second create event replaces the room's version and create event. -/
theorem second_create_replaces_birth : ∃ start s : Store,
    Runs (Submits fun _ _ _ _ _ _ => True) Store.empty start ∧
      Runs (Submits fun _ _ _ _ _ _ => True) start s ∧
      (∃ m, start.room["!r:x"]? = some m ∧ m.version = "11" ∧ m.createEventId = "$c") ∧
      ∃ m, s.room["!r:x"]? = some m ∧ m.version = "10" ∧ m.createEventId = "$d" := by
  have runs : ∀ {s s' : Store} {calls : List Call}, (Server.sample ["x"]).serveAll
      (fun s cmd => (match plain cmd with | .append _ => true | _ => false) = true) 20 s calls =
        some s' → Runs (Submits fun _ _ _ _ _ _ => True) s s' := by
    refine fun h => (serveAll_submits (Server.sample_lawful ["x"]) (fun s cmd hP => ?_)
      (fun _ _ _ _ _ _ _ _ _ _ _ _ _ => trivial) h).mono fun _ _ => And.left
    split at hP
    · rename_i a ha
      exact ⟨a, ha⟩
    · simp at hP
  have h : ((Server.sample ["x"]).serveAll
      (fun s cmd => (match plain cmd with | .append _ => true | _ => false) = true) 20 Store.empty
      [.ingest Ruma.sampleCreate false, .ingest Ruma.sampleJoin false]).any (fun start =>
        (start.room["!r:x"]?).any (fun m => m.version == "11" && m.createEventId == "$c") &&
        ((Server.sample ["x"]).serveAll
          (fun s cmd => (match plain cmd with | .append _ => true | _ => false) = true) 20 start
          [.ingest sampleSecondCreate false]).any fun s =>
            (s.room["!r:x"]?).any fun m => m.version == "10" && m.createEventId == "$d") := by
    decide +kernel
  obtain ⟨start, hstart, hp⟩ := (Option.any_eq_true _ _).1 h
  simp only [Bool.and_eq_true, Option.any_eq_true, beq_iff_eq] at hp
  obtain ⟨hm, s, hs, hm'⟩ := hp
  exact ⟨start, s, runs hstart, runs hs, hm, hm'⟩

end Saltator.Room
