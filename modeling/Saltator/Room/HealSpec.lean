import Saltator.Room.Heal

/-!
# What healing puts on a timeline

An event reaches a timeline by way of the pipeline, which vets it, or as part of a recovered chain,
which is imported as the origin sent it. So the timeline holds only vetted events of the room exactly
as long as every chain does (`Proposal.sound_iff_clean`).
-/

namespace Saltator.Room

open Std
open Saltator.Outcome
open Saltator.Stateful
open Machine
open Pipeline

/-- The body is what the checks on format, signatures and hash make of an event they let through. -/
def Verified (server : Server) (version : RoomVersion) (raw : JsonObject) : Prop :=
  ∃ sent pdu, vet server.ruma server.keys version sent = .ok (raw, pdu)

/-- The event is of the room: by its `room_id`, or as the event that creates it. -/
def InRoom (server : Server) (version : RoomVersion) (raw : JsonObject) (room : RoomId) : Prop :=
  if createShaped raw then createRoomId server.ruma version raw = .ok room
  else strProp raw "room_id" = some room

def Store.RowsBounded (s : Store) : Prop :=
  ∀ (room : RoomId) (n : Nat) (id : EventId), s.roomSeq[(room, n)]? = some id → n ≤ s.seq

def Call.heals : Call → Bool
  | .ingest _ _ | .importSegment _ _ _ _ => true
  | _ => false

namespace Proposal

def Puts (p : Proposal) (room : RoomId) (id : EventId) : Prop :=
  ∃ n : Nat, p.after.roomSeq[(room, n)]? = some id ∧ p.before.roomSeq[(room, n)]? = none

/-- Every event the command put on a timeline is vetted and of the room. -/
def Sound (p : Proposal) : Prop :=
  ∀ room id, p.Puts room id → ∃ (e : StoredEvent) (m : RoomMeta) (version : RoomVersion),
    p.after.event[id]? = some e ∧ 0 < e.seq ∧ p.after.room[room]? = some m ∧
      RoomVersion.parse m.version = some version ∧ Verified p.server version e.raw ∧
      InRoom p.server version e.raw room

/-- The call imports no chain, or one whose new events are vetted and of the room. New is an event
that is not on the timeline yet, and the first of the chain with its id. -/
def Clean (p : Proposal) : Prop :=
  match p.call with
  | .importSegment room _ _ chain => ∀ (m : RoomMeta) (version : RoomVersion),
      p.before.room[room]? = some m → RoomVersion.parse m.version = some version →
      ∀ id ev, p.before.onTimeline id = false →
        (chain.filterMap (p.server.chainEvent version)).find? (fun ev => ev.eventId = id) = some ev →
        Verified p.server version ev.raw ∧ InRoom p.server version ev.raw room
  | _ => True

/-- The proposal is what the state machine made of one of the two calls. -/
structure Faithful (fuel : Nat) (p : Proposal) : Prop where
  lawful : p.server.ruma.Lawful
  kind : p.call.heals
  bounded : p.before.RowsBounded
  applied : ∃ cmd response, p.call.prepare p.server p.before fuel = .ok (.inr cmd) ∧
    Machine.apply p.before p.before cmd = .ok (p.after, response)

end Proposal

/-! ## Rows -/

/-- What the chain loop writes: a row of the room for every event that is not on the timeline, with
the body of the first event of the chain that has its id. -/
structure Places (room : RoomId) (group : Nat) (chain : List ImportEvent) (s t : Store) : Prop where
  seq : s.seq ≤ t.seq
  old : ∀ (other : RoomId) (n : Nat), n ≤ s.seq → t.roomSeq[(other, n)]? = s.roomSeq[(other, n)]?
  rows : ∀ (other : RoomId) (n : Nat) (id : EventId), t.roomSeq[(other, n)]? = some id →
    s.roomSeq[(other, n)]? = some id ∨ (other = room ∧ n ≤ t.seq ∧ s.onTimeline id = false ∧
      (chain.find? fun ev => ev.eventId = id).isSome)
  held : ∀ id : EventId, s.onTimeline id = true → t.event[id]? = s.event[id]?
  first : ∀ (id : EventId) (ev : ImportEvent), s.onTimeline id = false →
    chain.find? (fun ev => ev.eventId = id) = some ev →
    ∃ n, s.seq < n ∧ t.event[id]? = some (chainRecord ev group n) ∧ t.roomSeq[(room, n)]? = some id

theorem segmentLoop_places (room : RoomId) (group : Nat) (chain : List ImportEvent)
    (r : SegmentRun) :
    Places room group chain r.store (chain.foldl (segmentEvent room group) r).store := by
  induction chain generalizing r with
  | nil => exact ⟨Nat.le_refl _, fun _ _ _ => rfl, fun _ _ _ h => .inl h, fun _ _ => rfl, by simp⟩
  | cons ev chain ih =>
    rw [List.foldl_cons]
    by_cases hon : r.store.onTimeline ev.eventId = true
    · -- The event is skipped.
      have hskip : segmentEvent room group r ev = r := by
        unfold segmentEvent
        rw [if_pos hon]
      rw [hskip]
      have h := ih r
      refine ⟨h.seq, h.old, fun other n id hrow => ?_, h.held, fun id ev' hoff hfind => ?_⟩
      · rcases h.rows other n id hrow with hold | ⟨hroom, hn, hoff, hfind⟩
        · exact .inl hold
        · refine .inr ⟨hroom, hn, hoff, ?_⟩
          rw [List.find?_cons]
          split
          · rfl
          · exact hfind
      · refine h.first id ev' hoff ?_
        rw [List.find?_cons] at hfind
        split at hfind
        · rename_i hid
          obtain rfl : ev.eventId = id := by simpa using hid
          simp [hon] at hoff
        · exact hfind
    · rw [Bool.not_eq_true] at hon
      let r' : SegmentRun := ⟨(r.store.putTimeline room ev.eventId (chainRecord ev group)).1,
        r.appended + 1, r.firstSeq.or (some (r.store.seq + 1)), some ev.eventId⟩
      have hplace : segmentEvent room group r ev = r' := by
        unfold segmentEvent
        rw [if_neg (by simp [hon])]
        rfl
      rw [hplace]
      have h := ih r'
      have hseq : r'.store.seq = r.store.seq + 1 := rfl
      have hself : r'.store.onTimeline ev.eventId = true := by
        simp [r', Store.onTimeline_iff, chainRecord]
      have hother : ∀ id : EventId, id ≠ ev.eventId → r'.store.event[id]? = r.store.event[id]? := by
        intro id hne
        simp [r', OrdMap.getElem?_insert', hne]
      have honly : ∀ id : EventId, id ≠ ev.eventId → r'.store.onTimeline id = r.store.onTimeline id := by
        intro id hne
        simp only [Store.onTimeline, hother id hne]
      have hrows : ∀ (other : RoomId) (n : Nat), r'.store.roomSeq[(other, n)]? =
          if (other, n) = (room, r.store.seq + 1) then some ev.eventId
          else r.store.roomSeq[(other, n)]? := by
        intro other n
        simp [r', OrdMap.getElem?_insert']
      refine ⟨by have := h.seq; omega, fun other n hn => ?_, fun other n id hrow => ?_,
        fun id hid => ?_, fun id ev' hoff hfind => ?_⟩
      · rw [h.old other n (by omega), hrows, if_neg]
        intro hkey
        have := (Prod.mk.inj hkey).2
        omega
      · rcases h.rows other n id hrow with hold | ⟨hroom, hn, hoff, hfind⟩
        · rw [hrows] at hold
          split at hold
          · rename_i hkey
            obtain ⟨rfl, rfl⟩ := Prod.mk.inj hkey
            obtain rfl := Option.some.inj hold
            refine .inr ⟨rfl, ?_, hon, by simp⟩
            have := h.seq
            omega
          · exact .inl hold
        · by_cases hne : id = ev.eventId
          · simp [hne, hself] at hoff
          · refine .inr ⟨hroom, hn, honly id hne ▸ hoff, ?_⟩
            rw [List.find?_cons]
            split
            · rfl
            · exact hfind
      · have hne : id ≠ ev.eventId := by
          rintro rfl
          simp [hon] at hid
        rw [h.held id (honly id hne ▸ hid), hother id hne]
      · rw [List.find?_cons] at hfind
        split at hfind
        · rename_i hid
          obtain rfl : ev.eventId = id := by simpa using hid
          obtain rfl := Option.some.inj hfind
          refine ⟨r.store.seq + 1, by omega, ?_, ?_⟩
          · rw [h.held _ hself]
            simp [r']
          · rw [h.old room _ (by omega), hrows, if_pos rfl]
        · rename_i hid
          have hne : id ≠ ev.eventId := by
            rintro rfl
            simp at hid
          obtain ⟨n, hn, hrec, hrow⟩ := h.first id ev' (honly id hne ▸ hoff) hfind
          exact ⟨n, by omega, hrec, hrow⟩

section Bounded

variable {s t : Store}

theorem Store.RowsBounded.insert (h : s.RowsBounded) (room : RoomId) (id : EventId)
    (hrows : t.roomSeq = s.roomSeq.insert (room, s.seq + 1) id) (hseq : t.seq = s.seq + 1) :
    t.RowsBounded := by
  intro other n id' hrow
  rw [hrows, OrdMap.getElem?_insert'] at hrow
  split at hrow
  · rename_i hkey
    have := (Prod.mk.inj hkey).2
    omega
  · have := h other n id' hrow
    omega

theorem segmentRows_places (m : RoomMeta) (cmd : ImportSegment) :
    Places cmd.roomId m.nextGroup cmd.timeline s (segmentRows s m cmd).store := by
  have h := segmentLoop_places cmd.roomId m.nextGroup cmd.timeline
    ⟨(s.putSupport cmd.events).putGroups cmd.roomId [(m.nextGroup, ⟨none, 0, cmd.state⟩)], 0, none, none⟩
  have hon : ∀ id : EventId, ((s.putSupport cmd.events).putGroups cmd.roomId
      [(m.nextGroup, ⟨none, 0, cmd.state⟩)]).onTimeline id = s.onTimeline id :=
    fun id => onTimeline_putSupport s cmd.events id
  refine ⟨h.seq, h.old, fun other n id hrow => ?_, fun id hid => ?_, fun id ev hoff hfind => ?_⟩
  · rw [← hon]
    exact h.rows other n id hrow
  · rw [segmentRows, h.held id ((hon id).trans hid)]
    rcases (s.putSupport_event_cases cmd.events id).1 with ⟨hnone, _⟩ | hsame
    · simp [Store.onTimeline, hnone] at hid
    · exact hsame
  · exact h.first id ev ((hon id).trans hoff) hfind

theorem bounded_effect {cmd : RoomCommand} (h : s.RowsBounded) (heff : Effect s cmd t) : t.RowsBounded := by
  cases heff with
  | idle => exact h
  | tick => exact fun room n id hrow => Nat.le_succ_of_le (h room n id hrow)
  | @rejected cmd rejected =>
    obtain ⟨hrows, _, hseq, _⟩ := applyRejected_frame s cmd rejected
    intro room n id hrow
    rw [hseq]
    exact h room n id (hrows ▸ hrow)
  | accepted _ _ happly =>
    have happended := applyAccepted_spec happly
    exact h.insert _ _ happended.roomSeq happended.seq
  | @importRoom cmd => exact h.insert cmd.roomId cmd.joinEventId rfl rfl
  | @importSegment cmd m =>
    have hplaces := segmentRows_places (s := s) m cmd
    intro room n id hrow
    rcases hplaces.rows room n id hrow with hold | ⟨_, hn, _⟩
    · exact (h room n id hold).trans hplaces.seq
    · exact hn
  | @importHistory cmd m =>
    obtain ⟨_, _, hrows, _, hseq⟩ := historyRows_frame s m cmd
    intro room n id hrow
    have hrow' : (historyRows s m cmd).store.roomSeq[(room, n)]? = some id := hrow
    change n ≤ (historyRows s m cmd).store.seq
    rw [hrows] at hrow'
    rw [hseq]
    exact h room n id hrow'

theorem bounded_onCore : OnCore Store.RowsBounded := fun _ => Iff.rfl

theorem bounded_run {P : Store → RoomCommand → Prop} (run : Runs P Store.empty s) : s.RowsBounded :=
  Runs.invariant bounded_onCore (fun _ _ _ h _ heff => bounded_effect h heff) run
    fun _ _ _ hrow => by simp [Store.empty] at hrow

end Bounded

/-! ## One proposal -/

theorem createRoomId_congr {ruma : Ruma} {version : RoomVersion} {raw raw' : JsonObject}
    (hroom : strProp raw' "room_id" = strProp raw "room_id")
    (hhash : ruma.referenceHash version raw' = ruma.referenceHash version raw) :
    createRoomId ruma version raw' = createRoomId ruma version raw := by
  unfold createRoomId
  split
  · rw [Ruma.roomIdForCreate, Ruma.roomIdForCreate, hhash]
  · rw [roomIdOf, roomIdOf, strOf, strOf, hroom]

theorem vetted_inRoom {server : Server} {s : Store} {raw raw' : JsonObject} {version : RoomVersion}
    {room : RoomId} {isCreate : Bool} {pdu : Pdu} (lawful : server.ruma.Lawful)
    (hclass : classify server.ruma s raw = .ok (version, room, isCreate))
    (hvet : vet server.ruma server.keys version raw = .ok (raw', pdu)) :
    InRoom server version raw' room := by
  obtain ⟨hlookup, hhash⟩ := (vet_views hvet).2 lawful
  have htype := strProp_congr (hlookup "type" (by decide))
  have hkey := strProp_congr (hlookup "state_key" (by decide))
  have hroom := strProp_congr (hlookup "room_id" (by decide))
  have hshape : createShaped raw' = createShaped raw := by
    rw [createShaped, createShaped, htype, hkey]
  rw [InRoom, hshape, createRoomId_congr hroom hhash, hroom]
  rcases classify_cases hclass with ⟨hcreate, _, hid⟩ | ⟨hother, _, hid, _⟩
  · rw [if_pos hcreate]
    exact hid
  · rw [if_neg (by simp [hother])]
    exact hid

namespace Proposal

variable {fuel : Nat} {p : Proposal}

theorem sound_of_ingest (h : p.Faithful fuel) {raw : JsonObject} {rejectMissingAuth : Bool}
    (hcall : p.call = .ingest raw rejectMissingAuth) : p.Sound := by
  obtain ⟨cmd, response, hprep, happly⟩ := h.applied
  rw [hcall] at hprep
  simp only [Call.prepare, Server.ingestPdu, bind_eq_ok, pure_eq_ok, Prod.exists] at hprep
  obtain ⟨outcome, ⟨version, room, isCreate, hclass, hp⟩, hout⟩ := hprep
  cases outcome with
  | inl id => simp at hout
  | inr d =>
    obtain rfl : RoomCommand.append d.cmd = cmd := Sum.inr.inj hout
    obtain ⟨raw', pdu, id, hvet, hid, hnew, hknown, hjudged⟩ := processInner_cases hp
    obtain ⟨heventId, hraw, hroomId⟩ : d.cmd.eventId = id ∧ d.cmd.raw = raw' ∧
        d.cmd.roomId = room := by cases hjudged <;> exact ⟨rfl, rfl, rfl⟩
    intro other id' hputs
    obtain ⟨n, hafter, hbefore⟩ := hputs
    obtain ⟨t, same, hcase⟩ := apply_append_cases rfl happly (heventId ▸ hnew)
    have hevent := Store.event_of_core same
    have hroom : t.room = p.after.room := Store.room_of_core same
    have hrows : t.roomSeq = p.after.roomSeq := Store.roomSeq_of_core same
    rw [← hrows] at hafter
    rcases hcase with ⟨rejected, _, rfl⟩ | ⟨haccepted, seq, happly⟩
    · rw [(applyRejected_frame _ _ _).1, hbefore] at hafter
      simp at hafter
    · have happended := applyAccepted_spec happly
      rw [happended.roomSeq, OrdMap.getElem?_insert'] at hafter
      split at hafter
      · rename_i hkey
        obtain ⟨rfl, rfl⟩ := Prod.mk.inj hkey
        obtain rfl := Option.some.inj hafter
        obtain ⟨m, hmeta, hmetas⟩ := happended.room
        have hbody : (acceptedRecord d.cmd (p.before.seq + 1)).raw = raw' := hraw
        refine ⟨acceptedRecord d.cmd (p.before.seq + 1), m, version, ?_, Nat.succ_pos _, ?_, ?_,
          ⟨raw, pdu, hbody ▸ hvet⟩, ?_⟩
        · rw [← hevent, happended.event]
          simp
        · rw [← hroom, hmetas]
          simp
        · -- A create event brings its version, any other event is of the room's.
          cases hjudged with
          | chainRejected => simp [rejectedCommand] at haccepted
          | stateRejected => simp [rejectedCommand] at haccepted
          | accepted passed =>
            rcases classify_cases hclass with ⟨_, rfl, _⟩ | ⟨_, rfl, _, m', hm', hversion⟩
            · obtain rfl := Except.ok.inj hmeta
              exact RoomVersion.parse_asStr version
            · simp only [acceptedMeta, acceptedCommand, Bool.false_eq_true, if_false, hm'] at hmeta
              obtain rfl := Except.ok.inj hmeta
              exact hversion
        · rw [hroomId, hbody]
          exact vetted_inRoom h.lawful hclass hvet
      · rw [hbefore] at hafter
        simp at hafter

theorem sound_iff_of_segment (h : p.Faithful fuel) {room : RoomId} {state authChain chain : List JsonObject}
    (hcall : p.call = .importSegment room state authChain chain) : p.Sound ↔ p.Clean := by
  obtain ⟨cmd, response, hprep, happly⟩ := h.applied
  rw [hcall] at hprep
  simp only [Call.prepare, bind_eq_ok, pure_eq_ok] at hprep
  obtain ⟨seg, hseg, hout⟩ := hprep
  obtain rfl : RoomCommand.importSegment seg = cmd := Sum.inr.inj hout
  -- What the call put into the command.
  unfold Server.importSegment at hseg
  split at hseg
  · simp at hseg
  rename_i m hm
  simp only [bind_eq_ok, pure_eq_ok, Prod.exists, parseVersion_eq_ok] at hseg
  obtain ⟨version, hversion, dump, _, _, rfl⟩ := hseg
  -- What the state machine made of it.
  simp only [Machine.apply, applyImportSegment, hm, Except.ok.injEq, Prod.mk.injEq] at happly
  obtain ⟨hafter, -⟩ := happly
  generalize hcmd : ImportSegment.mk room dump.events dump.stateMap.toList
    (chain.filterMap (p.server.chainEvent version)) (p.server.chainFrontier version chain) = seg
    at hafter
  have htimeline : seg.timeline = chain.filterMap (p.server.chainEvent version) := by rw [← hcmd]
  have hroom : seg.roomId = room := by rw [← hcmd]
  have hplaces := segmentRows_places (s := p.before) m seg
  rw [htimeline, hroom] at hplaces
  have hrows : p.after.roomSeq = (segmentRows p.before m seg).store.roomSeq := by rw [← hafter]; rfl
  have hevent : p.after.event = (segmentRows p.before m seg).store.event := by rw [← hafter]; rfl
  have hmeta : p.after.room[room]? = some (segmentMeta m (segmentRows p.before m seg) seg) := by
    rw [← hafter, ← hroom]
    simp [Store.putMeta]
  have hclean : p.Clean ↔ ∀ id ev, p.before.onTimeline id = false →
      (chain.filterMap (p.server.chainEvent version)).find? (fun ev => ev.eventId = id) = some ev →
      Verified p.server version ev.raw ∧ InRoom p.server version ev.raw room := by
    unfold Clean
    rw [hcall]
    constructor
    · exact fun h => h m version hm hversion
    · intro h m' version' hm' hversion'
      obtain rfl := some_unique hm hm'
      obtain rfl := some_unique hversion hversion'
      exact h
  rw [hclean]
  constructor
  · intro sound id ev hoff hfind
    obtain ⟨n, hn, hrec, hrow⟩ := hplaces.first id ev hoff hfind
    have hnew : p.before.roomSeq[(room, n)]? = none := by
      cases hold : p.before.roomSeq[(room, n)]? with
      | none => rfl
      | some old =>
        have := h.bounded room n old hold
        omega
    obtain ⟨e, m', version', he, _, hm', hversion', hverified, hin⟩ :=
      sound room id ⟨n, hrows ▸ hrow, hnew⟩
    obtain rfl := some_unique (hevent ▸ he) hrec
    obtain rfl := some_unique hmeta hm'
    obtain rfl := some_unique hversion hversion'
    exact ⟨hverified, hin⟩
  · rintro clean other id ⟨n, hrow, hnew⟩
    rcases hplaces.rows other n id (hrows ▸ hrow) with hold | ⟨rfl, _, hoff, hfind⟩
    · rw [hnew] at hold
      simp at hold
    · obtain ⟨ev, hev⟩ := Option.isSome_iff_exists.1 hfind
      obtain ⟨k, hk, hrec, _⟩ := hplaces.first id ev hoff hev
      obtain ⟨hverified, hin⟩ := clean id ev hoff hev
      exact ⟨_, _, version, hevent ▸ hrec, Nat.zero_lt_of_lt hk, hmeta, hversion, hverified, hin⟩

/-- **A proposal is sound exactly when its chain is clean.** -/
theorem sound_iff_clean (h : p.Faithful fuel) : p.Sound ↔ p.Clean := by
  have kind := h.kind
  cases hcall : p.call with
  | ingest raw rejectMissingAuth =>
    refine iff_of_true (sound_of_ingest h hcall) ?_
    rw [Clean, hcall]
    trivial
  | importSegment room state authChain chain => exact sound_iff_of_segment h hcall
  | _ => simp [hcall, Call.heals] at kind

end Proposal

/-! ## Healing -/

section Keeps

variable {σ : Type} {fuel : Nat} {I : Node σ → Prop}

def Node.proposed (n : Node σ) (call : Call) (after : Store) : Node σ :=
  { n with store := after, proposals := n.proposals ++ [⟨n.server, call, n.store, after⟩] }

/-- A call made to heal the holes of an event: it ingests the event itself or a given one, or imports
given events into the event's room. -/
def Call.Draws (pdu : JsonObject) (given : JsonObject → Prop) : Call → Prop
  | .ingest raw _ => raw = pdu ∨ given raw
  | .importSegment room _ _ chain => strProp pdu "room_id" = some room ∧ ∀ obj ∈ chain, given obj
  | _ => False

theorem Call.Draws.heals {pdu : JsonObject} {given : JsonObject → Prop} {call : Call}
    (h : call.Draws pdu given) : call.heals := by
  cases call <;> first | rfl | cases h

structure EventFetcher.Gives (fetcher : EventFetcher σ) (origin : String)
    (given : JsonObject → Prop) : Prop where
  gap : ∀ room earliest latest limit remote chain,
    (fetcher.getMissingEvents origin room earliest latest limit remote).1 = .ok chain →
    ∀ obj ∈ chain, given obj
  event : ∀ id remote obj, (fetcher.event origin id remote).1 = .ok (some obj) → given obj

theorem EventFetcher.gives_any (fetcher : EventFetcher σ) (origin : String) :
    fetcher.Gives origin fun _ => True :=
  ⟨fun _ _ _ _ _ _ _ _ _ => trivial, fun _ _ _ _ => trivial⟩

/-- What holds of a node whatever keys are loaded, and whatever is proposed to heal the holes of an
event with the given ones. -/
structure Steady (fuel : Nat) (pdu : JsonObject) (given : JsonObject → Prop) (I : Node σ → Prop) :
    Prop where
  remote : ∀ n remote, I n → I { n with remote }
  keys : ∀ n keys remote, I n → I { n with server := { n.server with keys }, remote }
  proposed : ∀ n call cmd after response, call.Draws pdu given →
    call.prepare n.server n.store fuel = .ok (.inr cmd) →
    Machine.apply n.store n.store cmd = .ok (after, response) → I n → I (n.proposed call after)

variable {pdu : JsonObject} {given : JsonObject → Prop} (steady : Steady fuel pdu given I)
  {chain : List JsonObject} {room : RoomId}
include steady

theorem ask_keeps {α : Type} (request : StateM σ α) : Keeps I (Heal.ask request) :=
  fun n h => steady.remote n _ h

omit steady in
theorem ask_yields {α : Type} {Q : α → Prop} {request : StateM σ α} (h : ∀ remote, Q (request remote).1) :
    Yields I Q (Heal.ask request) := fun n _ => h n.remote

theorem trust_keeps (request : StateM (PublicKeyMap × σ) Unit) : Keeps I (Heal.trust request) :=
  fun n h => steady.keys n _ _ h

theorem propose_keeps {n : Node σ} {call : Call} {cmd : RoomCommand} (h : I n)
    (hprep : call.prepare n.server n.store fuel = .ok (.inr cmd)) (draws : call.Draws pdu given) :
    I (Heal.propose call cmd n).2 := by
  unfold Heal.propose
  split
  · exact h
  · rename_i after response happly
    exact steady.proposed n call cmd after response draws hprep happly h

theorem ingestPdu_keeps {raw : JsonObject} (hraw : raw = pdu ∨ given raw) (rejectMissingAuth : Bool) :
    Keeps I (Heal.ingestPdu (σ := σ) fuel raw rejectMissingAuth) := by
  unfold Heal.ingestPdu
  refine Keeps.get fun n h => ?_
  cases hd : n.server.ingestPdu n.store fuel raw rejectMissingAuth with
  | error e => exact h
  | ok outcome =>
    cases outcome with
    | inl id => exact h
    | inr d =>
      have hprep : Call.prepare n.server n.store fuel (.ingest raw rejectMissingAuth) =
          .ok (.inr (.append d.cmd)) := by
        rw [Call.prepare, hd]
        rfl
      exact propose_keeps steady h hprep hraw

theorem importSegment_keeps (hroom : strProp pdu "room_id" = some room)
    (state authChain : List JsonObject) (hchain : ∀ obj ∈ chain, given obj) :
    Keeps I (Heal.importSegment (σ := σ) fuel room state authChain chain) := by
  unfold Heal.importSegment
  refine Keeps.get fun n h => ?_
  cases hcmd : n.server.importSegment n.store fuel room state authChain chain with
  | error e => exact h
  | ok cmd =>
    have hprep : Call.prepare n.server n.store fuel (.importSegment room state authChain chain) =
        .ok (.inr (.importSegment cmd)) := by
      rw [Call.prepare, hcmd]
      rfl
    have hnext := propose_keeps steady h hprep ⟨hroom, hchain⟩
    refine Keeps.next hnext fun response => ?_
    split <;> exact Keeps.pure _

variable {fetcher : EventFetcher σ} {origin : String}

theorem resolveIds_keeps (ids : List EventId) : Keeps I (resolveIds fetcher origin ids) := by
  refine Keeps.foldlM (fun out id => ?_) _ _
  refine Keeps.bind Keeps.read fun n => ?_
  split
  · exact Keeps.pure _
  · refine Keeps.bind (ask_keeps steady _) fun answer => ?_
    split <;> exact Keeps.pure _

theorem fetchStateByIds_keeps (room : RoomId) (eventId : EventId) :
    Keeps I (fetchStateByIds fetcher origin room eventId) := by
  refine Keeps.bind (ask_keeps steady _) fun answer => ?_
  split
  · exact Keeps.pure _
  · refine Keeps.ite (Keeps.pure _) ?_
    refine Keeps.bind (resolveIds_keeps steady _) fun stateEvents => ?_
    refine Keeps.bind (resolveIds_keeps steady _) fun authChain => ?_
    exact Keeps.ite (Keeps.pure _) (Keeps.pure _)

theorem importAnchored_keeps (hroom : strProp pdu "room_id" = some room)
    (ingested : Nat) (stateEvents authChain : List JsonObject) (hchain : ∀ obj ∈ chain, given obj) :
    Keeps I (importAnchored fetcher fuel room ingested stateEvents authChain chain) := by
  refine Keeps.ite (Keeps.pure _) ?_
  refine Keeps.bind (trust_keeps steady _) fun _ => ?_
  refine Keeps.bind Keeps.read fun n => ?_
  refine Keeps.ite ?_ (Keeps.pure _)
  refine Keeps.bind (importSegment_keeps steady hroom stateEvents authChain hchain) fun answer => ?_
  split <;> exact Keeps.pure _

variable (gives : fetcher.Gives origin given)
include gives

omit steady in
theorem event_yields (id : EventId) : Yields I (fun answer => ∀ obj, answer = .ok (some obj) → given obj)
    (Heal.ask (fetcher.event origin id)) :=
  ask_yields fun remote obj => gives.event id remote obj

omit steady in
theorem gap_yields (room : RoomId) (earliest : List EventId) (latest : EventId) : Yields I
    (fun answer => ∀ chain, answer = .ok chain → ∀ obj ∈ chain, given obj)
    (Heal.ask (fetcher.getMissingEvents origin room earliest latest gapFillLimit)) :=
  ask_yields fun remote chain => gives.gap room earliest latest gapFillLimit remote chain

theorem addBreach_keeps (room : RoomId) (prev : EventId) (hchain : ∀ obj ∈ chain, given obj) :
    Keeps I (addBreach fetcher origin room prev chain) ∧
      Yields I (fun chain => ∀ obj ∈ chain, given obj) (addBreach fetcher origin room prev chain) := by
  constructor
  · refine Keeps.bind Keeps.read fun n => Keeps.ite (Keeps.pure _) ?_
    refine Keeps.given (ask_keeps steady _) (event_yields gives prev) fun answer h => ?_
    split
    · exact Keeps.bind (trust_keeps steady _) fun _ => Keeps.bind Keeps.read fun n =>
        Keeps.ite (Keeps.pure _) (Keeps.pure _)
    · exact Keeps.pure _
  · refine Yields.after Keeps.read fun n => Yields.ite (Yields.pure hchain) ?_
    refine Yields.bind (ask_keeps steady _) (event_yields gives prev) fun answer h => ?_
    split
    · rename_i obj
      refine Yields.after (trust_keeps steady _) fun _ => Yields.after Keeps.read fun n => ?_
      exact Yields.ite (Yields.pure (List.forall_mem_cons.2 ⟨h obj rfl, hchain⟩)) (Yields.pure hchain)
    · exact Yields.pure hchain

theorem anchorChain_keeps (hroom : strProp pdu "room_id" = some room) (ingested : Nat)
    (hchain : ∀ obj ∈ chain, given obj) :
    Keeps I (anchorChain fetcher fuel origin room ingested chain) := by
  have whole : ∀ anchor, Keeps I
      (anchorChain.wholeState fetcher fuel origin room ingested chain anchor) := by
    intro anchor
    refine Keeps.bind (ask_keeps steady _) fun answer => ?_
    split
    · exact Keeps.pure _
    · exact importAnchored_keeps steady hroom ingested _ _ hchain
  refine Keeps.bind Keeps.read fun n => ?_
  split
  · exact Keeps.pure _
  · split
    · exact whole _
    · refine Keeps.bind (fetchStateByIds_keeps steady room _) fun snapshot => ?_
      split
      · exact whole _
      · obtain ⟨keeps, yields⟩ := addBreach_keeps steady gives room _ hchain
        refine Keeps.given keeps yields fun chain hchain => ?_
        exact importAnchored_keeps steady hroom ingested _ _ hchain

theorem healGap_keeps : Keeps I (healGap fetcher fuel origin pdu) := by
  have chain_keeps : ∀ chain : List JsonObject, (∀ obj ∈ chain, given obj) →
      Keeps I (ingestChain (σ := σ) fuel chain) := by
    intro chain hchain
    refine Keeps.foldlM_mem (fun acc obj hobj => ?_) _
    refine Keeps.bind (ingestPdu_keeps steady (.inr (hchain obj hobj)) false) fun answer => ?_
    split <;> exact Keeps.pure _
  refine Keeps.bind Keeps.read fun n => ?_
  split
  · rename_i pduId room _ named
    refine Keeps.ite (Keeps.pure _) ?_
    refine Keeps.bind (trust_keeps steady _) fun _ => ?_
    refine Keeps.given (ask_keeps steady _) (gap_yields gives room _ pduId) fun answer h => ?_
    split
    · exact Keeps.pure _
    · rename_i chain
      refine Keeps.bind (chain_keeps chain (h chain rfl)) fun acc => ?_
      exact Keeps.ite (anchorChain_keeps steady gives named _ (h chain rfl)) (Keeps.pure _)
  · exact Keeps.pure _

theorem fetchLoop_keeps (budget : Nat) (queue : List EventId) (retried : OrdSet EventId)
    (ingested : Bool) :
    Keeps I (fetchLoop fetcher fuel origin budget queue retried ingested) := by
  induction budget generalizing queue retried ingested with
  | zero => exact Keeps.pure _
  | succ budget ih =>
    cases queue with
    | nil => exact Keeps.pure _
    | cons id queue =>
      refine Keeps.given (ask_keeps steady _) (event_yields gives id) fun answer h => ?_
      split
      · rename_i obj
        refine Keeps.bind (ingestPdu_keeps steady (.inr (h obj rfl)) false) fun outcome => ?_
        split
        · exact ih _ _ _
        · exact Keeps.ite (ih _ _ _) (ih _ _ _)
        · refine Keeps.ite ?_ (ih _ _ _)
          refine Keeps.bind (ingestPdu_keeps steady (.inr (h obj rfl)) true) fun outcome => ?_
          split <;> exact ih _ _ _
        · exact ih _ _ _
      · exact ih _ _ _

theorem fetchMissingById_keeps (missing : List EventId) :
    Keeps I (fetchMissingById fetcher fuel origin missing) := by
  refine Keeps.bind (trust_keeps steady _) fun _ => ?_
  exact fetchLoop_keeps steady gives _ _ _ _

theorem healRounds_keeps (rounds : Nat) (triedGap triedAuth : Bool) :
    Keeps I (healRounds fetcher fuel origin pdu rounds triedGap triedAuth) := by
  induction rounds generalizing triedGap triedAuth with
  | zero => exact Keeps.pure _
  | succ rounds ih =>
    refine Keeps.bind (ingestPdu_keeps steady (.inl rfl) false) fun outcome => ?_
    split
    · refine Keeps.ite (Keeps.pure _) ?_
      refine Keeps.bind (healGap_keeps steady gives) fun healed => ?_
      refine Keeps.ite (ih _ _) ?_
      refine Keeps.bind (fetchMissingById_keeps steady gives _) fun fetched => ?_
      exact Keeps.ite (ih _ _) (Keeps.pure _)
    · refine Keeps.ite (ingestPdu_keeps steady (.inl rfl) true) ?_
      refine Keeps.bind (fetchMissingById_keeps steady gives _) fun _ => ?_
      exact ih _ _
    · exact Keeps.pure _

end Keeps

structure Traced {σ : Type} (fuel : Nat) (n : Node σ) : Prop where
  lawful : n.server.ruma.Lawful
  bounded : n.store.RowsBounded
  faithful : ∀ p ∈ n.proposals, p.Faithful fuel

theorem traced_steady {σ : Type} {fuel : Nat} {pdu : JsonObject} {given : JsonObject → Prop} :
    Steady fuel pdu given (Traced (σ := σ) fuel) where
  remote _ _ h := ⟨h.lawful, h.bounded, h.faithful⟩
  keys _ _ _ h := ⟨h.lawful, h.bounded, h.faithful⟩
  proposed n call cmd after response draws hprep happly h := by
    obtain ⟨t, heff, same⟩ := apply_effect happly
    refine ⟨h.lawful, bounded_onCore.congr same (bounded_effect h.bounded heff), ?_⟩
    intro p hp
    rcases List.mem_append.1 hp with hp | hp
    · exact h.faithful p hp
    · obtain rfl := List.mem_singleton.1 hp
      exact ⟨h.lawful, draws.heals, h.bounded, cmd, response, hprep, happly⟩

/-- **What healing puts on a timeline.** Whatever the origin answers, from every reachable store:
each event that `ingestPduHealing`, `healGap` or `importSegment` puts on a timeline is vetted and of
the room, if and only if the new events of every chain handed to the segment import are. -/
theorem healing_sound_iff {σ : Type} (fetcher : EventFetcher σ) (fuel : Nat) (origin : String)
    {n : Node σ} (lawful : n.server.ruma.Lawful)
    (reached : Runs (fun _ _ => True) Store.empty n.store) (fresh : n.proposals = []) :
    (∀ raw, (∀ p ∈ (ingestPduHealing fetcher fuel origin raw n).2.proposals, p.Sound) ↔
      ∀ p ∈ (ingestPduHealing fetcher fuel origin raw n).2.proposals, p.Clean) ∧
    (∀ pdu, (∀ p ∈ (healGap fetcher fuel origin pdu n).2.proposals, p.Sound) ↔
      ∀ p ∈ (healGap fetcher fuel origin pdu n).2.proposals, p.Clean) ∧
    ∀ room state authChain chain,
      (∀ p ∈ (Heal.importSegment fuel room state authChain chain n).2.proposals, p.Sound) ↔
        ∀ p ∈ (Heal.importSegment fuel room state authChain chain n).2.proposals, p.Clean := by
  have gives := fetcher.gives_any origin
  have traced : Traced fuel n := ⟨lawful, bounded_run reached, by simp [fresh]⟩
  have each : ∀ {t : Node σ}, Traced fuel t →
      ((∀ p ∈ t.proposals, p.Sound) ↔ ∀ p ∈ t.proposals, p.Clean) := by
    intro t ht
    exact forall₂_congr fun p hp => Proposal.sound_iff_clean (ht.faithful p hp)
  refine ⟨fun raw => each ?_, fun pdu => each ?_, fun room state authChain chain => each ?_⟩
  · exact healRounds_keeps traced_steady gives 3 false false n traced
  · exact healGap_keeps traced_steady gives n traced
  · have steady : Steady fuel [("room_id", .string room)] (fun _ => True) (Traced (σ := σ) fuel) :=
      traced_steady
    exact importSegment_keeps steady rfl state authChain (fun _ _ => trivial) n traced

def sampleFetcher (chain : List JsonObject) : EventFetcher Unit where
  getMissingEvents _ _ _ _ _ := pure (.ok chain)
  stateIds _ _ _ := pure (.ok (["$c", "$j"], []))
  state _ _ _ := pure (.error "not served")
  event _ _ := pure (.ok none)
  trustOriginKeys _ := pure ()
  trustEventServers _ := pure ()

def sampleMessage (hash : String) (prevEvents : List EventId) : JsonObject :=
  Ruma.samplePdu hash "m.room.message" none "@a:x" [] ["$c", "$j"] prevEvents 3

/-- A node that knows the room `!r:x` heals the gap before `$m`. -/
theorem exists_healed (chain : List JsonObject) (p : Node Unit → Bool)
    (h : ((Server.sample ["x"]).serveAll (fun _ _ => True) 9 Store.empty
      [.ingest Ruma.sampleCreate false, .ingest Ruma.sampleJoin false]).any (fun s =>
        p (ingestPduHealing (sampleFetcher chain) 9 "x" (sampleMessage "m" ["$f"])
          ⟨Server.sample ["x"], s, (), []⟩).2) = true) :
    ∃ n : Node Unit, n.server = Server.sample ["x"] ∧ Runs (fun _ _ => True) Store.empty n.store ∧
      n.proposals = [] ∧
      p (ingestPduHealing (sampleFetcher chain) 9 "x" (sampleMessage "m" ["$f"]) n).2 = true := by
  obtain ⟨s, hs, hp⟩ := (Option.any_eq_true _ _).1 h
  exact ⟨⟨Server.sample ["x"], s, (), []⟩, rfl, (serveAll_runs hs).mono fun _ _ _ => trivial, rfl, hp⟩

theorem healing_sound_iff_filled : ∃ n : Node Unit,
    n.store.onTimeline "$f" ∧ n.store.onTimeline "$m" ∧ ∀ p ∈ n.proposals, p.Sound := by
  obtain ⟨n, hserver, reached, fresh, hp⟩ := exists_healed [sampleMessage "f" ["$j"]]
    (fun n => n.store.onTimeline "$f" && n.store.onTimeline "$m" && n.proposals.all fun p =>
      match p.call with
      | .ingest _ _ => true
      | _ => false) (by decide +kernel)
  simp only [Bool.and_eq_true, List.all_eq_true] at hp
  obtain ⟨⟨hf, hm⟩, hcalls⟩ := hp
  have lawful : n.server.ruma.Lawful := by
    rw [hserver]
    exact Ruma.sample_lawful
  refine ⟨_, hf, hm, ((healing_sound_iff _ 9 "x" lawful reached fresh).1 _).2 fun p hp => ?_⟩
  have hcall := hcalls p hp
  unfold Proposal.Clean
  split
  · rename_i heq
    simp [heq] at hcall
  · trivial

/-- An unsigned event in a chain that does not connect ends up on the timeline. -/
theorem healing_imports_unsigned : ∃ n : Node Unit, n.server.ruma.Lawful ∧
    Runs (fun _ _ => True) Store.empty n.store ∧ n.proposals = [] ∧
    ∃ p ∈ (ingestPduHealing (sampleFetcher [sampleMessage "e" ["$z"],
      (sampleMessage "f" ["$e"]).filter fun member => member.1 ≠ "signatures"]) 9 "x"
      (sampleMessage "m" ["$f"]) n).2.proposals, ¬ p.Sound := by
  obtain ⟨n, hserver, reached, fresh, hp⟩ := exists_healed [sampleMessage "e" ["$z"],
      (sampleMessage "f" ["$e"]).filter fun member => member.1 ≠ "signatures"]
    (fun n => n.proposals.any fun p => p.after.roomSeq[("!r:x", 4)]? = some "$f" ∧
      p.before.roomSeq[("!r:x", 4)]? = none ∧
      ((p.after.room["!r:x"]?).any fun m => RoomVersion.parse m.version = some .v11) ∧
      (p.after.event["$f"]?).any fun e => (validatePdu p.server.ruma e.raw .v11).isOk = false)
    (by decide +kernel)
  obtain ⟨p, hmem, hp⟩ := List.any_eq_true.1 hp
  obtain ⟨hafter, hbefore, hversion, hbody⟩ := of_decide_eq_true hp
  refine ⟨n, hserver ▸ Ruma.sample_lawful, reached, fresh, p, hmem, fun sound => ?_⟩
  obtain ⟨e, m, version, he, _, hm, hparse, ⟨sent, pdu, hvet⟩, _⟩ :=
    sound "!r:x" "$f" ⟨4, hafter, hbefore⟩
  rw [hm, Option.any_some, decide_eq_true_eq] at hversion
  rw [he, Option.any_some, decide_eq_true_eq] at hbody
  obtain rfl := some_unique hversion hparse
  simp [(vet_cases hvet).1, Except.isOk, Except.toBool] at hbody

end Saltator.Room
