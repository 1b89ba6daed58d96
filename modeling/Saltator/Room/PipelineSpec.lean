import Saltator.Room.Server
import Saltator.Core.AuthChain

/-!
# What the pipeline can decide

`processInner_cases` is the inversion rule of the pipeline: a decision either stores the event as
rejected, against its own auth chain or against the state before it, or accepts it with everything
the checks established. `prepare_produced` does the same for the calls of the room server.
-/

namespace Saltator.Room

open Std
open Saltator.Outcome
open StateRes (Key StateIds createKey plKey)

namespace Pipeline

variable {version : RoomVersion}

theorem parseVersion_eq_ok {v : String} :
    parseVersion v = .ok version ↔ RoomVersion.parse v = some version := by
  unfold parseVersion
  split <;> simp_all

theorem strOf_eq_ok {obj : JsonObject} {key v : String} :
    strOf obj key = .ok v ↔ strProp obj key = some v := by
  unfold strOf
  split <;> simp_all

variable {ruma : Ruma}

theorem roomIdOf_eq_ok {raw : JsonObject} {room : RoomId}
    (h : roomIdOf ruma raw = .ok room) : strProp raw "room_id" = some room := by
  rw [roomIdOf, bind_eq_ok] at h
  obtain ⟨id, hid, h⟩ := h
  split at h
  · rw [pure_eq_ok] at h
    exact h ▸ strOf_eq_ok.1 hid
  · simp at h

theorem classify_cases {s : Store} {raw : JsonObject}
    {room : RoomId} {isCreate : Bool} (h : classify ruma s raw = .ok (version, room, isCreate)) :
    (createShaped raw = true ∧ isCreate = true ∧ createRoomId ruma version raw = .ok room) ∨
      (createShaped raw = false ∧ isCreate = false ∧ strProp raw "room_id" = some room ∧
        ∃ m : RoomMeta, s.room[room]? = some m ∧ RoomVersion.parse m.version = some version) := by
  rw [classify, bind_eq_ok] at h
  obtain ⟨_, _, h⟩ := h
  split at h
  · rename_i hshape
    rw [bind_eq_ok] at h
    obtain ⟨⟨version', room'⟩, hclass, h⟩ := h
    simp only [pure_eq_ok, Prod.mk.injEq] at h
    obtain ⟨rfl, rfl, rfl⟩ := h
    refine .inl ⟨hshape, rfl, ?_⟩
    unfold classifyCreate at hclass
    split at hclass
    · simp at hclass
    split at hclass
    · simp at hclass
    simp only [bind_eq_ok, pure_eq_ok, Prod.mk.injEq] at hclass
    obtain ⟨_, _, _, hroom, rfl, rfl⟩ := hclass
    exact hroom
  · rename_i hshape
    rw [bind_eq_ok] at h
    obtain ⟨room', hroom, h⟩ := h
    split at h
    · simp at h
    · rename_i m hm
      simp only [bind_eq_ok, pure_eq_ok, Prod.mk.injEq] at h
      obtain ⟨version', hversion, rfl, rfl, rfl⟩ := h
      exact .inr ⟨by simpa using hshape, rfl, roomIdOf_eq_ok hroom, m, hm, parseVersion_eq_ok.1 hversion⟩

theorem vet_cases {keys : PublicKeyMap}
    {raw raw' : JsonObject} {pdu : Pdu} (h : vet ruma keys version raw = .ok (raw', pdu)) :
    validatePdu ruma raw' version = .ok pdu ∧ ((raw' = raw ∧ ruma.verifyEvent keys raw version = .ok .all) ∨
        (ruma.redact version raw = .ok raw' ∧ ruma.verifyEvent keys raw version = .ok .signatures)) := by
  rw [vet, bind_eq_ok] at h
  obtain ⟨pdu₀, hv, h⟩ := h
  rw [bind_eq_ok] at h
  obtain ⟨outcome, hout, h⟩ := h
  rw [ofVerification, mapError_eq_ok, verifyEvent] at hout
  rw [ofValidation, mapError_eq_ok] at hv
  split at hout
  · rename_i hver
    obtain rfl := Except.ok.inj hout
    simp only [pure_eq_ok, Prod.mk.injEq] at h
    obtain ⟨rfl, rfl⟩ := h
    exact ⟨hv, .inl ⟨rfl, hver⟩⟩
  · rename_i hver
    obtain rfl := Except.ok.inj hout
    simp only [bind_eq_ok, ofVerification, ofValidation, mapError_eq_ok, pure_eq_ok, Prod.mk.injEq] at h
    obtain ⟨red, hred, pdu', hv', rfl, rfl⟩ := h
    refine ⟨hv', .inr ⟨?_, hver⟩⟩
    unfold redact at hred
    split at hred
    · simp_all
    · simp at hred
  · simp at hout

theorem vet_views {keys : PublicKeyMap}
    {raw raw' : JsonObject} {pdu : Pdu} (h : vet ruma keys version raw = .ok (raw', pdu)) :
    Pdu.Views raw' pdu ∧ (ruma.Lawful → (∀ key ∈ protectedMembers, raw'.lookup key = raw.lookup key) ∧
        ruma.referenceHash version raw' = ruma.referenceHash version raw) := by
  obtain ⟨hvalid, hform⟩ := vet_cases h
  refine ⟨Pdu.fromCanonical_views (validatePdu_eq_ok hvalid).1, fun lawful => ?_⟩
  rcases hform with ⟨rfl, _⟩ | ⟨hred, _⟩
  · exact ⟨fun _ _ => rfl, rfl⟩
  · exact ⟨lawful.redact_lookup _ _ _ hred, lawful.redact_hash _ _ _ hred⟩

theorem fetchAuth_held {s : Store} {ids : List EventId}
    {held : List (IdentifiedPdu × Bool)} (h : fetchAuth ruma s ids = .ok (held, [])) :
    held.map (fun p => p.1.eventId) = ids ∧ ∀ p ∈ held, ∃ se, s.event[p.1.eventId]? = some se ∧
        parseStored ruma p.1.eventId se = .ok p.1 ∧ p.2 = se.rejected.isSome := by
  refine (foldlM_spec
    (I := fun done (acc : List (IdentifiedPdu × Bool) × List EventId) => acc.2 = [] →
      acc.1.map (fun p => p.1.eventId) = done ∧ ∀ p ∈ acc.1, ∃ se, s.event[p.1.eventId]? = some se ∧
          parseStored ruma p.1.eventId se = .ok p.1 ∧ p.2 = se.rejected.isSome)
    (F := fun _ => True) (fun done id acc acc' _ hacc hstep => ?_) (fun _ _ _ _ _ _ _ => trivial)
    (fun _ => ⟨rfl, by simp⟩)).1 _ h rfl
  obtain ⟨held, missing⟩ := acc
  dsimp only at hstep
  split at hstep
  · rename_i se hse
    rw [bind_eq_ok] at hstep
    obtain ⟨e, he, hstep⟩ := hstep
    obtain rfl := pure_eq_ok.1 hstep
    intro hmissing
    obtain ⟨hids, hall⟩ := hacc hmissing
    have hid : e.eventId = id := by
      rw [parseStored, bind_eq_ok] at he
      obtain ⟨pdu, _, he⟩ := he
      exact pure_eq_ok.1 he ▸ rfl
    refine ⟨by simp [hids, hid], fun p hp => ?_⟩
    rcases List.mem_append.1 hp with hp | hp
    · exact hall p hp
    · obtain rfl := List.mem_singleton.1 hp
      subst hid
      exact ⟨se, hse, he, rfl⟩
  · obtain rfl := Except.ok.inj hstep
    intro hmissing
    simp at hmissing

theorem fetchPrevs_held {s : Store} {fuel : Nat} {ids : List EventId} {groups : OrdSet Nat}
    (h : fetchPrevs s fuel ids = .ok (groups, [])) : ∀ id ∈ ids, (s.event[id]?).isSome := by
  refine (foldlM_spec
    (I := fun done (acc : OrdSet Nat × List EventId) => acc.2 = [] → ∀ id ∈ done, (s.event[id]?).isSome)
    (F := fun _ => True) (fun done id acc acc' _ hacc hstep => ?_) (fun _ _ _ _ _ _ _ => trivial)
    (fun _ => by simp)).1 _ h rfl
  obtain ⟨groups, missing⟩ := acc
  intro hmissing
  dsimp only at hstep
  -- A prev that is kept adds nothing to the missing ones, and it is stored.
  have extend : missing = [] → (s.event[id]?).isSome → ∀ a ∈ done ++ [id], (s.event[a]?).isSome := by
    intro hm hid a ha
    rcases List.mem_append.1 ha with ha | ha
    · exact hacc hm a ha
    · exact List.mem_singleton.1 ha ▸ hid
  split at hstep
  · obtain rfl := Except.ok.inj hstep
    simp at hmissing
  · rename_i se hse
    have hid : (s.event[id]?).isSome := by simp [hse]
    split at hstep
    · rw [bind_eq_ok] at hstep
      obtain ⟨behind, _, hstep⟩ := hstep
      split at hstep
      · obtain rfl := pure_eq_ok.1 hstep
        simp at hmissing
      · obtain rfl := pure_eq_ok.1 hstep
        exact extend hmissing hid
    · obtain rfl := Except.ok.inj hstep
      exact extend hmissing hid

structure Passed (ruma : Ruma) (s : Store) (fuel : Nat) (version : RoomVersion) (room : RoomId)
    (isCreate : Bool) (event : IdentifiedPdu) (held : List (IdentifiedPdu × Bool))
    (prevGroups : OrdSet Nat) (before : Held) : Prop where
  auth : fetchAuth ruma s (Event.authEvents event) = .ok (held, [])
  prevs : fetchPrevs s fuel (Event.prevEvents event) = .ok (prevGroups, [])
  own : checkOwnAuth ruma s version s.room[room]? isCreate event held = .ok (.ok ())
  before : stateBefore ruma s fuel version room isCreate (fetchFor ruma s event) prevGroups
    (startAlloc s.room[room]?) = .ok before

/-- The decisions the pipeline can reach for an event. -/
inductive Judged (ruma : Ruma) (s : Store) (fuel : Nat) (version : RoomVersion) (room : RoomId)
    (isCreate relay : Bool) (event : IdentifiedPdu) (raw : JsonObject) : Decision → Prop
  | chainRejected {reason : String} {prevGroups : OrdSet Nat}
      (prevs : fetchPrevs s fuel (Event.prevEvents event) = .ok (prevGroups, [])) :
      Judged ruma s fuel version room isCreate relay event raw
        ⟨rejectedCommand room event raw (.authChain reason) [] 0 (startAlloc s.room[room]?).nextGroup, ∅, ∅⟩
  | stateRejected {reason : String} {held : List (IdentifiedPdu × Bool)}
      {prevGroups : OrdSet Nat} {before : Held}
      (passed : Passed ruma s fuel version room isCreate event held prevGroups before) :
      Judged ruma s fuel version room isCreate relay event raw
        ⟨rejectedCommand room event raw (.state reason) before.alloc.newGroups before.group
          before.alloc.nextGroup, before.state, before.state⟩
  | accepted {held : List (IdentifiedPdu × Bool)} {prevGroups : OrdSet Nat}
      {before after current : Held} {redacts : Option String}
      (passed : Passed ruma s fuel version room isCreate event held prevGroups before)
      (hafter : stateAfter s room isCreate event before = .ok after)
      (hcurrent : currentState ruma s fuel version room event (fetchFor ruma s event)
        (newExtremities s.room[room]? event) after = .ok current)
      (hredacts : redactsOf ruma s version room event before.state (fetchFor ruma s event) = .ok redacts) :
      Judged ruma s fuel version room isCreate relay event raw
        ⟨acceptedCommand version room isCreate relay event raw after current
          (newExtremities s.room[room]? event) redacts, before.state, after.state⟩

section Inversion

variable {ruma : Ruma} {keys : PublicKeyMap} {s : Store} {fuel : Nat} {version : RoomVersion}
  {room : RoomId} {isCreate relay rejectMissingAuth : Bool} {event : IdentifiedPdu}
  {raw : JsonObject} {d : Decision}

theorem settle_cases {held : List (IdentifiedPdu × Bool)} {prevGroups : OrdSet Nat}
    (hauth : fetchAuth ruma s (Event.authEvents event) = .ok (held, []))
    (hprevs : fetchPrevs s fuel (Event.prevEvents event) = .ok (prevGroups, []))
    (hown : checkOwnAuth ruma s version s.room[room]? isCreate event held = .ok (.ok ()))
    (h : settle ruma s fuel version room isCreate relay event raw prevGroups = .ok d) :
    Judged ruma s fuel version room isCreate relay event raw d := by
  rw [settle, bind_eq_ok] at h
  obtain ⟨before, hbefore, h⟩ := h
  rw [bind_eq_ok] at h
  obtain ⟨view, _, h⟩ := h
  have passed : Passed ruma s fuel version room isCreate event held prevGroups before :=
    ⟨hauth, hprevs, hown, hbefore⟩
  split at h
  · rw [pure_eq_ok] at h
    exact h ▸ .stateRejected passed
  · simp only [bind_eq_ok, pure_eq_ok] at h
    obtain ⟨after, hafter, current, hcurrent, redacts, hredacts, rfl⟩ := h
    exact .accepted passed hafter hcurrent hredacts

theorem judge_settles
    (h : judge ruma s fuel version room isCreate relay rejectMissingAuth event raw = .ok d) :
    (isCreate = true ∨ s.room[room]?.isSome) ∧
      ((∃ reason prevGroups, fetchPrevs s fuel (Event.prevEvents event) = .ok (prevGroups, []) ∧
          d = ⟨rejectedCommand room event raw (.authChain reason) [] 0
            (startAlloc s.room[room]?).nextGroup, ∅, ∅⟩) ∨
        ∃ held prevGroups, fetchAuth ruma s (Event.authEvents event) = .ok (held, []) ∧
          fetchPrevs s fuel (Event.prevEvents event) = .ok (prevGroups, []) ∧
          checkOwnAuth ruma s version s.room[room]? isCreate event held = .ok (.ok ()) ∧
          settle ruma s fuel version room isCreate relay event raw prevGroups = .ok d) := by
  simp only [judge] at h
  by_cases hknown : (!isCreate && s.room[room]?.isNone) = true
  · rw [if_pos hknown] at h
    simp at h
  rw [if_neg hknown, bind_eq_ok] at h
  refine ⟨by cases isCreate <;> simp_all, ?_⟩
  obtain ⟨⟨held, missingAuth⟩, hauth, h⟩ := h
  rw [bind_eq_ok] at h
  obtain ⟨⟨prevGroups, missing⟩, hprevs, h⟩ := h
  dsimp only at h
  by_cases hmissing : (!missing.isEmpty) = true
  · rw [if_pos hmissing] at h
    simp at h
  rw [if_neg hmissing] at h
  obtain rfl : missing = [] := by simpa using hmissing
  by_cases hmissingAuth : (!missingAuth.isEmpty) = true
  · rw [if_pos hmissingAuth] at h
    split at h
    · rw [pure_eq_ok] at h
      exact .inl ⟨_, prevGroups, hprevs, h.symm⟩
    · simp at h
  rw [if_neg hmissingAuth, bind_eq_ok] at h
  obtain rfl : missingAuth = [] := by simpa using hmissingAuth
  obtain ⟨own, hown, h⟩ := h
  cases own with
  | error r =>
    rw [pure_eq_ok] at h
    exact .inl ⟨_, prevGroups, hprevs, h.symm⟩
  | ok _ => exact .inr ⟨held, prevGroups, hauth, hprevs, hown, h⟩

theorem judge_cases
    (h : judge ruma s fuel version room isCreate relay rejectMissingAuth event raw = .ok d) :
    (isCreate = true ∨ s.room[room]?.isSome) ∧
      Judged ruma s fuel version room isCreate relay event raw d := by
  obtain ⟨known, ⟨reason, prevGroups, hprevs, rfl⟩ | ⟨held, prevGroups, hauth, hprevs, hown, h⟩⟩ :=
    judge_settles h
  · exact ⟨known, .chainRejected hprevs⟩
  · exact ⟨known, settle_cases hauth hprevs hown h⟩

theorem processInner_judges
    (h : processInner ruma keys s fuel raw version room isCreate relay rejectMissingAuth = .ok (.inr d)) :
    ∃ raw' pdu id, vet ruma keys version raw = .ok (raw', pdu) ∧
      ruma.eventId raw' version = .ok id ∧ s.event[id]? = none ∧
      judge ruma s fuel version room isCreate relay rejectMissingAuth ⟨id, pdu⟩ raw' = .ok d := by
  rw [processInner, bind_eq_ok] at h
  obtain ⟨⟨raw', pdu⟩, hvet, h⟩ := h
  rw [bind_eq_ok] at h
  obtain ⟨id, hid, h⟩ := h
  rw [ofFormat, mapError_eq_ok] at hid
  split at h
  · simp [pure, Except.pure] at h
  rename_i hnew
  rw [bind_eq_ok] at h
  obtain ⟨d', hjudge, h⟩ := h
  simp only [pure_eq_ok, Sum.inr.injEq] at h
  subst h
  rw [Bool.not_eq_true, OrdMap.contains_eq_false] at hnew
  exact ⟨raw', pdu, id, hvet, hid, ExtTreeMap.getElem?_eq_none hnew, hjudge⟩

theorem processInner_cases
    (h : processInner ruma keys s fuel raw version room isCreate relay rejectMissingAuth = .ok (.inr d)) :
    ∃ raw' pdu id, vet ruma keys version raw = .ok (raw', pdu) ∧
      ruma.eventId raw' version = .ok id ∧ s.event[id]? = none ∧
      (isCreate = true ∨ s.room[room]?.isSome) ∧
      Judged ruma s fuel version room isCreate relay ⟨id, pdu⟩ raw' d := by
  obtain ⟨raw', pdu, id, hvet, hid, hnew, hjudge⟩ := processInner_judges h
  obtain ⟨known, judged⟩ := judge_cases hjudge
  exact ⟨raw', pdu, id, hvet, hid, hnew, known, judged⟩

theorem processInner_roomId
    (h : processInner ruma keys s fuel raw version room isCreate relay rejectMissingAuth =
      .ok (.inr d)) : d.cmd.roomId = room := by
  obtain ⟨_, _, _, _, _, _, _, judged⟩ := processInner_cases h
  cases judged <;> rfl

end Inversion

end Pipeline

/-! ## Calls -/

open Pipeline

/-- How an event reached the pipeline: what the caller established about its room. -/
inductive Routed (server : Server) (s : Store) :
    JsonObject → RoomVersion → RoomId → Bool → Prop
  | ingested {raw : JsonObject} {version : RoomVersion} {room : RoomId} {isCreate : Bool}
      (h : classify server.ruma s raw = .ok (version, room, isCreate)) :
      Routed server s raw version room isCreate
  | resident {raw signed : JsonObject} {version : RoomVersion} {room : RoomId} {isCreate : Bool}
      (h : classify server.ruma s raw = .ok (version, room, isCreate))
      (hsign : signed = raw ∨ server.sign version raw = .ok signed) :
      Routed server s signed version room false
  | sent {raw signed : JsonObject} {version : RoomVersion} {room : RoomId}
      (hroom : strProp raw "room_id" = some room) (hsign : server.sign version raw = .ok signed) :
      Routed server s signed version room false
  | created {raw signed : JsonObject} {version : RoomVersion} {room : RoomId}
      (hshape : createShaped raw) (hsign : server.sign version raw = .ok signed)
      (hroom : createRoomId server.ruma version signed = .ok room) :
      Routed server s signed version room true

inductive Produced (server : Server) (s : Store) : RoomCommand → Prop
  | append {raw : JsonObject} {version : RoomVersion} {room : RoomId}
      {isCreate relay rejectMissingAuth : Bool} {fuel : Nat} {d : Decision}
      (routed : Routed server s raw version room isCreate)
      (h : processInner server.ruma server.keys s fuel raw version room isCreate relay
        rejectMissingAuth = .ok (.inr d)) : Produced server s (.append d.cmd)
  | stamped {raw : JsonObject} {version : RoomVersion} {room : RoomId}
      {isCreate relay rejectMissingAuth : Bool} {fuel : Nat} {d : Decision} {txn : TxnStamp}
      (routed : Routed server s raw version room isCreate)
      (h : processInner server.ruma server.keys s fuel raw version room isCreate relay
        rejectMissingAuth = .ok (.inr d)) : Produced server s (.appendStamped d.cmd txn)
  | importRoom {version : RoomVersion} {join : JsonObject} {state authChain : List JsonObject}
      {cmd : ImportRoom} (h : server.importRoom version join state authChain = .ok cmd) :
      Produced server s (.importRoom cmd)
  | importHistory {room : RoomId} {pdus : List JsonObject} {cmd : ImportHistory}
      (h : server.importHistory s room pdus = .ok cmd) : Produced server s (.importHistory cmd)
  | importSegment {room : RoomId} {state authChain chain : List JsonObject} {fuel : Nat}
      {cmd : ImportSegment} (h : server.importSegment s fuel room state authChain chain = .ok cmd) :
      Produced server s (.importSegment cmd)
  | receipt {cmd : ReceiptCmd} : Produced server s (.receipt cmd)

section Calls

variable {server : Server} {s : Store} {fuel : Nat} {version : RoomVersion} {content : JsonObject}
  {stateKey : Option String} {ts : Nat} {eventType : String} {sender : UserId}

theorem signEvent_eq_ok {raw signed : JsonObject} :
    server.signEvent version raw = .ok signed ↔ server.sign version raw = .ok signed :=
  mapError_eq_ok

theorem map_eq_inr {α β γ : Type} {x : α ⊕ β} {f : β → γ} {c : γ} (h : x.map id f = .inr c) :
    ∃ b, x = .inr b ∧ f b = c := by
  cases x with
  | inl a => simp at h
  | inr b => exact ⟨b, rfl, by simpa using h⟩

theorem canonical_eq_ok {raw canon : JsonObject} :
    Server.canonical raw = .ok canon ↔ Json.membersInRange raw ∧ canon = raw := by
  unfold Server.canonical
  split
  · rename_i fits
    simp [fits, eq_comm]
  · rename_i outside
    simp [outside]

theorem draft_eq_ok {room : RoomId} {raw : JsonObject} :
    Server.draft s fuel room sender eventType stateKey content ts = .ok (raw, version) ↔
      ∃ (roomMeta : RoomMeta) (current : StateRes.StateIds) (depth : Nat),
        s.room[room]? = some roomMeta ∧ RoomVersion.parse roomMeta.version = some version ∧
        s.resolveGroup fuel room roomMeta.currentGroup = .ok current ∧
        Server.tipDepth s roomMeta.extremities = .ok depth ∧
        Json.membersInRange content = true ∧ Json.membersInRange raw = true ∧
        raw = Server.unsignedEvent room sender eventType stateKey content ts
          ((Auth.authTypesForEvent version eventType sender stateKey content).toList.filterMap
            fun k => current[k]?) roomMeta.extremities (depth + 1) := by
  unfold Server.draft
  cases known : s.room[room]? with
  | none => simp
  | some roomMeta =>
    simp only [bind_eq_ok, pure_eq_ok, parseVersion_eq_ok, ofStore, mapError_eq_ok, canonical_eq_ok,
      Prod.mk.injEq, Option.some.injEq]
    constructor
    · rintro ⟨v, parsed, current, resolved, depth, deepest, _, ⟨fits, rfl⟩, _, ⟨whole, rfl⟩, rfl, rfl⟩
      exact ⟨roomMeta, current, depth, rfl, parsed, resolved, deepest, fits, whole, rfl⟩
    · rintro ⟨_, current, depth, rfl, parsed, resolved, deepest, fits, whole, rfl⟩
      exact ⟨version, parsed, current, resolved, depth, deepest, content, ⟨fits, rfl⟩, _,
        ⟨whole, rfl⟩, rfl, rfl⟩

theorem sendLocal_routed {room : RoomId} {d : Decision}
    (h : server.sendLocal s fuel room sender eventType stateKey content ts = .ok (.inr d)) :
    ∃ raw version, Routed server s raw version room false ∧
      processInner server.ruma server.keys s fuel raw version room false false false = .ok (.inr d) := by
  rw [Server.sendLocal, bind_eq_ok] at h
  obtain ⟨⟨signed, version⟩, hbuild, h⟩ := h
  refine ⟨signed, version, ?_, h⟩
  rw [Server.buildLocal, bind_eq_ok] at hbuild
  obtain ⟨⟨raw, _⟩, hdraft, hbuild⟩ := hbuild
  simp only [bind_eq_ok, pure_eq_ok, Prod.mk.injEq, signEvent_eq_ok] at hbuild
  obtain ⟨_, _, _, hsign, rfl, rfl⟩ := hbuild
  obtain ⟨_, _, _, _, _, _, _, _, _, rfl⟩ := draft_eq_ok.1 hdraft
  exact .sent (by simp [Server.unsignedEvent, strProp, List.lookup_cons, Json.asStr]) hsign

theorem createRoom_routed {creator : UserId} {fresh : RoomId} {d : Decision}
    (h : server.createRoom s fuel creator version content fresh ts = .ok (.inr d)) :
    ∃ raw room, Routed server s raw version room true ∧
      processInner server.ruma server.keys s fuel raw version room true false false = .ok (.inr d) := by
  rw [Server.createRoom, bind_eq_ok] at h
  obtain ⟨⟨room, signed⟩, hbuild, h⟩ := h
  refine ⟨signed, room, ?_, h⟩
  rw [Server.buildCreate, bind_eq_ok] at hbuild
  obtain ⟨raw, hsign, hbuild⟩ := hbuild
  rw [bind_eq_ok] at hbuild
  obtain ⟨room', hroom, hbuild⟩ := hbuild
  simp only [pure_eq_ok, Prod.mk.injEq] at hbuild
  obtain ⟨rfl, rfl⟩ := hbuild
  refine .created ?_ (signEvent_eq_ok.1 hsign) hroom
  by_cases hv : version.roomIdIsCreateEventId = true <;>
    simp [createShaped, strProp, List.lookup_cons, Json.asStr, hv]

theorem prepare_produced {call : Call} {cmd : RoomCommand}
    (h : call.prepare server s fuel = .ok (.inr cmd)) : Produced server s cmd := by
  cases call with
  | ingest raw rejectMissingAuth =>
    rw [Call.prepare, bind_eq_ok] at h
    obtain ⟨x, hx, h⟩ := h
    obtain ⟨d, rfl, rfl⟩ := map_eq_inr (pure_eq_ok.1 h)
    rw [Server.ingestPdu, bind_eq_ok] at hx
    obtain ⟨⟨version, room, isCreate⟩, hclass, hx⟩ := hx
    exact .append (.ingested hclass) hx
  | resident raw coSign =>
    rw [Call.prepare, bind_eq_ok] at h
    obtain ⟨x, hx, h⟩ := h
    obtain ⟨d, rfl, rfl⟩ := map_eq_inr (pure_eq_ok.1 h)
    rw [Server.residentApply, bind_eq_ok] at hx
    obtain ⟨⟨version, room, isCreate⟩, hclass, hx⟩ := hx
    rw [bind_eq_ok] at hx
    obtain ⟨signed, hsign, hx⟩ := hx
    refine .append (.resident hclass ?_) hx
    unfold Server.coSigned at hsign
    split at hsign
    · exact .inr (signEvent_eq_ok.1 hsign)
    · exact .inl (Except.ok.inj hsign).symm
  | send room sender eventType stateKey content ts txn =>
    rw [Call.prepare, bind_eq_ok] at h
    obtain ⟨x, hx, h⟩ := h
    obtain ⟨d, rfl, hcmd⟩ := map_eq_inr (pure_eq_ok.1 h)
    obtain ⟨raw, version, routed, hp⟩ := sendLocal_routed hx
    subst hcmd
    split
    · exact .append routed hp
    · cases txn with
      | none => exact .append routed hp
      | some txn =>
        simp only [Server.stamp]
        split
        · exact .stamped routed hp
        · exact .append routed hp
  | create creator version content fresh ts =>
    rw [Call.prepare, bind_eq_ok] at h
    obtain ⟨x, hx, h⟩ := h
    obtain ⟨d, rfl, rfl⟩ := map_eq_inr (pure_eq_ok.1 h)
    obtain ⟨raw, room, routed, hp⟩ := createRoom_routed hx
    exact .append routed hp
  | importRoom version join state authChain =>
    simp only [Call.prepare, bind_eq_ok, pure_eq_ok, Sum.inr.injEq] at h
    obtain ⟨cmd', hcmd, rfl⟩ := h
    exact .importRoom hcmd
  | importHistory room pdus =>
    simp only [Call.prepare, bind_eq_ok, pure_eq_ok, Sum.inr.injEq] at h
    obtain ⟨cmd', hcmd, rfl⟩ := h
    exact .importHistory hcmd
  | importSegment room state authChain chain =>
    simp only [Call.prepare, bind_eq_ok, pure_eq_ok, Sum.inr.injEq] at h
    obtain ⟨cmd', hcmd, rfl⟩ := h
    exact .importSegment hcmd
  | receipt cmd' =>
    simp only [Call.prepare, Except.ok.injEq, Sum.inr.injEq] at h
    exact h ▸ .receipt

end Calls

end Saltator.Room
