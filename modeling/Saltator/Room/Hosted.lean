import Saltator.Room.HealSpec
import Saltator.Room.Replicated

/-!
# Rooms that are not hosted

The room server answers that it does not know a room exactly if it has no record of the room, before it
has looked at the event's signatures (`ingestPdu_unknownRoom`). Healing makes no difference
(`healing_unknownRoom`).
-/

namespace Saltator.Room

open Saltator.Outcome
open Saltator.Stateful
open Pipeline
open Machine

def Knows {α : Type} (x : Except RoomError α) : Prop := ∀ room, x ≠ .error (.unknownRoom room)

namespace Knows

variable {α β ε : Type} {x : Except RoomError α} {f : α → Except RoomError β}

theorem ok (a : α) : Knows (.ok a : Except RoomError α) := fun _ h => by cases h

theorem error {e : RoomError} (h : ∀ room, e ≠ .unknownRoom room) :
    Knows (.error e : Except RoomError α) := fun room same => h room (Except.error.inj same)

theorem bind (hx : Knows x) (hf : ∀ a, x = .ok a → Knows (f a)) :
    Knows (x >>= f) := fun room => bind_ne_error (hx room) fun a ha => hf a ha room

theorem foldlM {f : β → α → Except RoomError β} {l : List α} (step : ∀ b a, Knows (f b a)) (b : β) :
    Knows (l.foldlM f b) := fun room => foldlM_ne_error (fun a _ b => step b a room) b

theorem mapM {l : List α} (each : ∀ a, Knows (f a)) : Knows (l.mapM f) := by
  induction l with
  | nil => exact ok _
  | cons a l ih =>
    rw [List.mapM_cons]
    exact (each a).bind fun _ _ => ih.bind fun _ _ => ok _

theorem mapError {y : Except ε α} {f : ε → RoomError} (h : ∀ e room, f e ≠ .unknownRoom room) :
    Knows (y.mapError f) := by
  cases y with
  | ok a => exact ok a
  | error e => exact error (h e)

end Knows

section Pipeline

variable {ruma : Ruma} {s : Store} {fuel : Nat} {version : RoomVersion} {room : RoomId}
  {event : IdentifiedPdu} {raw : JsonObject} {fetch : EventId → Option IdentifiedPdu} {α : Type}
  {isCreate relay rejectMissingAuth : Bool} {before : StateRes.StateIds} {prevGroups : OrdSet Nat}
  {keys : PublicKeyMap} {ids : List EventId}

theorem knows_ofValidation (x : Except ValidationError α) : Knows (ofValidation x) :=
  .mapError fun _ _ h => by cases h

theorem knows_ofVerification (x : Except VerificationError α) : Knows (ofVerification x) :=
  .mapError fun _ _ h => by cases h

theorem knows_ofFormat (x : Except EventFormatError α) : Knows (ofFormat x) :=
  .mapError fun _ _ h => by cases h

theorem knows_ofStateRes (x : Except StateRes.StateResError α) : Knows (ofStateRes x) :=
  .mapError fun e _ h => by cases e <;> cases h

theorem knows_ofStore (x : Except StoreError α) : Knows (ofStore x) :=
  .mapError fun e _ h => by cases e <;> cases h

theorem knows_parseVersion (v : String) : Knows (parseVersion v) := by
  unfold parseVersion
  split
  · exact .ok _
  · exact .error fun _ h => by cases h

theorem knows_vet : Knows (vet ruma keys version raw) := by
  unfold vet
  refine (knows_ofValidation _).bind fun pdu _ => (knows_ofVerification _).bind fun outcome _ => ?_
  cases outcome with
  | verified => exact .ok _
  | signedButHashMismatch =>
    exact (knows_ofVerification _).bind fun _ _ => (knows_ofValidation _).bind fun _ _ => .ok _

theorem knows_parseStored {id : EventId} {stored : StoredEvent} : Knows (parseStored ruma id stored) :=
  (knows_ofFormat _).bind fun _ _ => .ok _

theorem knows_fetchAuth : Knows (fetchAuth ruma s ids) := by
  refine .foldlM (fun acc id => ?_) _
  obtain ⟨held, missing⟩ := acc
  dsimp only
  split
  · exact knows_parseStored.bind fun _ _ => .ok _
  · exact .ok _

theorem knows_groupsBehindRejected {id : EventId} : Knows (groupsBehindRejected s fuel id) := by
  intro room failed
  have round : ∀ w e, behindRound s w ≠ .error e := by
    intro w e h
    unfold behindRound at h
    split at h
    · cases h
    · split at h
      · cases h
      · split at h
        · cases h
        · dsimp only at h
          split at h <;> cases h
  obtain same | never := (Loop.run_result (I := fun _ => True) (Q := fun _ => True)
    (F := fun _ => False) (fun _ _ _ _ => trivial) (fun _ _ _ _ => trivial)
    (fun w e _ h => round w e h) fuel _ trivial).2 _ failed
  · cases same
  · exact never

theorem knows_fetchPrevs : Knows (fetchPrevs s fuel ids) := by
  refine .foldlM (fun acc id => ?_) _
  obtain ⟨groups, missing⟩ := acc
  dsimp only
  split
  · exact .ok _
  · split
    · refine knows_groupsBehindRejected.bind fun behind _ => ?_
      split <;> exact .ok _
    · exact .ok _

theorem knows_checkOwnAuth {roomMeta : Option RoomMeta} {isCreate : Bool}
    {held : List (IdentifiedPdu × Bool)} :
    Knows (checkOwnAuth ruma s version roomMeta isCreate event held) := by
  unfold checkOwnAuth
  split
  · exact .ok _
  · refine .bind ?_ fun _ _ => .ok _
    unfold authState
    dsimp only
    split
    · split
      · exact .error fun _ h => by cases h
      · split
        · exact .error fun _ h => by cases h
        · exact knows_parseStored.bind fun _ _ => .ok _
    · exact .ok _

theorem knows_materialize {group : Nat} : Knows (materialize ruma s fuel room group) := by
  refine (knows_ofStore _).bind fun map _ => ?_
  split
  · exact .ok _
  · exact .error fun _ h => by cases h

theorem knows_stateBefore {isCreate : Bool} {alloc : Alloc} :
    Knows (stateBefore ruma s fuel version room isCreate fetch prevGroups alloc) := by
  unfold stateBefore
  split
  · exact .ok _
  · split
    · exact knows_materialize.bind fun _ _ => .ok _
    · exact (Knows.mapM fun _ => knows_materialize).bind fun _ _ =>
        (knows_ofStateRes _).bind fun _ _ => .ok _

theorem knows_stateView {state : StateRes.StateIds} : Knows (stateView version event state fetch) := by
  refine .foldlM (fun view key => ?_) _
  split
  · exact .ok _
  · split
    · exact .error fun _ h => by cases h
    · exact .ok _

theorem knows_stateAfter {isCreate : Bool} {before : Held} :
    Knows (stateAfter s room isCreate event before) := by
  unfold stateAfter
  split
  · exact .ok _
  · dsimp only
    split
    · exact .ok _
    · split
      · exact .error fun _ h => by cases h
      · split <;> exact .ok _

theorem knows_currentState {extremities : OrdSet EventId} {after : Held} :
    Knows (currentState ruma s fuel version room event fetch extremities after) := by
  unfold currentState
  split
  · exact .ok _
  · refine .bind (.mapM fun id => ?_) fun sets _ => (knows_ofStateRes _).bind fun resolved _ => ?_
    · unfold extremityState
      split
      · exact .ok _
      · split
        · exact .error fun _ h => by cases h
        · exact knows_materialize
    · split <;> exact .ok _

theorem knows_senderMayRedact : Knows (senderMayRedact ruma version event before fetch) := by
  unfold senderMayRedact
  split
  · exact .ok _
  · split
    · exact .error fun _ h => by cases h
    · exact .ok _

theorem knows_redactsOf : Knows (redactsOf ruma s version room event before fetch) := by
  unfold redactsOf
  split
  · unfold redactionDirective
    split
    · exact .ok _
    · split
      · exact knows_senderMayRedact.bind fun _ _ => .ok _
      · split
        · exact .ok _
        · refine knows_parseStored.bind fun target _ => ?_
          split
          · exact .ok _
          · split
            · exact .ok _
            · refine knows_senderMayRedact.bind fun may _ => ?_
              split <;> exact .ok _
  · exact .ok _

theorem knows_settle {isCreate relay : Bool} :
    Knows (settle ruma s fuel version room isCreate relay event raw prevGroups) := by
  refine knows_stateBefore.bind fun before _ => knows_stateView.bind fun view _ => ?_
  split
  · exact .ok _
  · exact knows_stateAfter.bind fun _ _ => knows_currentState.bind fun _ _ =>
      knows_redactsOf.bind fun _ _ => .ok _

theorem knows_judge (known : isCreate = true ∨ (s.room[room]?).isSome) :
    Knows (judge ruma s fuel version room isCreate relay rejectMissingAuth event raw) := by
  unfold judge
  dsimp only
  split
  · rename_i unknown
    obtain rfl | hosted := known
    · simp at unknown
    · rw [Bool.and_eq_true, Option.isNone_iff_eq_none] at unknown
      rw [unknown.2] at hosted
      cases hosted
  · refine knows_fetchAuth.bind fun auth _ => knows_fetchPrevs.bind fun prevs _ => ?_
    split
    · exact .error fun _ h => by cases h
    · split
      · split
        · exact .ok _
        · exact .error fun _ h => by cases h
      · refine knows_checkOwnAuth.bind fun verdict _ => ?_
        split
        · exact .ok _
        · exact knows_settle

theorem knows_processInner (known : isCreate = true ∨ (s.room[room]?).isSome) : Knows
      (processInner ruma keys s fuel raw version room isCreate relay rejectMissingAuth) := by
  refine knows_vet.bind fun vetted _ => (knows_ofFormat _).bind fun id _ => ?_
  split
  · exact .ok _
  · exact (knows_judge known).bind fun _ _ => .ok _

end Pipeline

/-! ## Events of rooms that are not hosted -/

structure Unhosted (ruma : Ruma) (s : Store) (raw : JsonObject) (room : RoomId) : Prop where
  typed : (strProp raw "type").isSome
  plain : createShaped raw = false
  named : strProp raw "room_id" = some room
  valid : ruma.isRoomId room = true
  absent : s.room[room]? = none

section Hosted

variable {ruma : Ruma} {s : Store} {raw : JsonObject} {room : RoomId} {fuel : Nat}

theorem strOf_eq_ok {key v : String} : strOf raw key = .ok v ↔ strProp raw key = some v := by
  unfold strOf
  cases strProp raw key <;> simp

theorem knows_strOf {key : String} : Knows (strOf raw key) := by
  unfold strOf
  split
  · exact .ok _
  · exact .error fun _ h => by cases h

theorem roomIdOf_eq_ok : roomIdOf ruma raw = .ok room ↔
    strProp raw "room_id" = some room ∧ ruma.isRoomId room = true := by
  simp only [roomIdOf, bind_eq_ok, strOf_eq_ok]
  constructor
  · rintro ⟨id, named, checked⟩
    split at checked
    · rename_i valid
      obtain rfl := pure_eq_ok.1 checked
      exact ⟨named, valid⟩
    · cases checked
  · rintro ⟨named, valid⟩
    exact ⟨room, named, by rw [if_pos valid]; rfl⟩

theorem knows_roomIdOf : Knows (roomIdOf ruma raw) := by
  refine knows_strOf.bind fun id _ => ?_
  split
  · exact .ok _
  · exact .error fun _ h => by cases h

theorem knows_classifyCreate : Knows (classifyCreate ruma raw) := by
  unfold classifyCreate
  split
  · exact .error fun _ h => by cases h
  · split
    · exact .error fun _ h => by cases h
    · refine (knows_parseVersion _).bind fun version _ => .bind ?_ fun _ _ => .ok _
      unfold createRoomId
      split
      · exact knows_ofFormat _
      · exact knows_roomIdOf

theorem classify_unknownRoom :
    classify ruma s raw = .error (.unknownRoom room) ↔ Unhosted ruma s raw room := by
  unfold classify
  constructor
  · intro failed
    obtain never | ⟨ty, typed, failed⟩ := bind_eq_error.1 failed
    · exact absurd never (knows_strOf room)
    split at failed
    · exact absurd failed (knows_classifyCreate.bind (fun _ _ => .ok _) room)
    rename_i plain
    obtain never | ⟨id, named, failed⟩ := bind_eq_error.1 failed
    · exact absurd never (knows_roomIdOf room)
    split at failed
    · rename_i absent
      obtain rfl := RoomError.unknownRoom.inj (Except.error.inj failed)
      obtain ⟨named, valid⟩ := roomIdOf_eq_ok.1 named
      exact ⟨by rw [strOf_eq_ok.1 typed]; rfl, by simpa using plain, named, valid, absent⟩
    · exact absurd failed ((knows_parseVersion _).bind (fun _ _ => .ok _) room)
  · rintro ⟨typed, plain, named, valid, absent⟩
    obtain ⟨ty, typed⟩ := Option.isSome_iff_exists.1 typed
    rw [strOf_eq_ok.2 typed, ok_bind, if_neg (by simp [plain]), roomIdOf_eq_ok.2 ⟨named, valid⟩,
      ok_bind, absent]

theorem ingestPdu_unknownRoom (server : Server) (rejectMissingAuth : Bool) :
    server.ingestPdu s fuel raw rejectMissingAuth = .error (.unknownRoom room) ↔
      Unhosted server.ruma s raw room := by
  rw [← classify_unknownRoom]
  unfold Server.ingestPdu
  constructor
  · intro failed
    obtain failed | ⟨⟨version, id, isCreate⟩, routed, failed⟩ := bind_eq_error.1 failed
    · exact failed
    · refine absurd failed (knows_processInner ?_ room)
      unfold classify at routed
      obtain ⟨ty, -, routed⟩ := bind_eq_ok.1 routed
      split at routed
      · obtain ⟨_, -, same⟩ := bind_eq_ok.1 routed
        exact .inl (Prod.mk.inj (ok_pair same).2).2.symm
      · obtain ⟨id', -, routed⟩ := bind_eq_ok.1 routed
        split at routed
        · cases routed
        · rename_i roomMeta hosted
          obtain ⟨_, -, same⟩ := bind_eq_ok.1 routed
          obtain ⟨rfl, -⟩ := Prod.mk.inj (ok_pair same).2
          exact .inr (by rw [hosted]; rfl)
  · intro failed
    rw [failed]
    rfl

/-! ## Healing -/

variable {σ : Type} (fetcher : EventFetcher σ) (origin : String)

/-- The event's room is known as long as the node lives. -/
def Hosts (raw : JsonObject) (n : Node σ) : Prop := ∀ room, ¬ Unhosted n.server.ruma n.store raw room

theorem hosts_steady : Steady fuel raw (fun _ => True) (Hosts (σ := σ) raw) where
  remote _ _ h := h
  keys _ _ _ h := h
  proposed n call cmd after response _ _ applied h room unhosted := by
    obtain ⟨u, did, same⟩ := apply_effect applied
    refine h room { unhosted with absent := ?_ }
    by_contra held
    have kept : (u.room[room]?).isSome := known_effect did (Option.isSome_iff_ne_none.2 held)
    have rooms : u.core.room = after.core.room := congrArg Store.room same
    have absent : after.core.room[room]? = none := unhosted.absent
    rw [← rooms] at absent
    exact absurd absent (Option.isSome_iff_ne_none.1 kept)

theorem ingestPdu_knows (rejectMissingAuth : Bool) :
    Yields (Hosts raw) Knows (Heal.ingestPdu (σ := σ) fuel raw rejectMissingAuth) := by
  refine Yields.get fun n h => ?_
  cases decided : n.server.ingestPdu n.store fuel raw rejectMissingAuth with
  | error e =>
    refine Knows.error ?_
    rintro room rfl
    exact h room ((ingestPdu_unknownRoom n.server rejectMissingAuth).1 decided)
  | ok outcome =>
    cases outcome with
    | inl id => exact Knows.ok _
    | inr d =>
      have proposed : Knows (Heal.propose (.ingest raw rejectMissingAuth) (.append d.cmd) n).1 := by
        unfold Heal.propose
        split
        · exact knows_ofStore (.error _)
        · exact .ok _
      refine proposed.bind fun response _ => ?_
      cases response <;> first | exact .ok _ | exact .error fun _ h => by cases h

theorem healRounds_knows (rounds : Nat) (triedGap triedAuth : Bool) : Yields (Hosts raw) Knows
    (healRounds fetcher fuel origin raw rounds triedGap triedAuth) := by
  induction rounds generalizing triedGap triedAuth with
  | zero => exact Yields.pure (.error fun _ h => by cases h)
  | succ rounds ih =>
    have gives := fetcher.gives_any origin
    refine Yields.bind (ingestPdu_keeps hosts_steady (.inl rfl) false) (ingestPdu_knows false)
      fun outcome knows => ?_
    split
    · refine Yields.ite (Yields.pure knows) ?_
      refine Yields.after (healGap_keeps hosts_steady gives) fun healed => ?_
      refine Yields.ite (ih _ _) ?_
      refine Yields.after (fetchMissingById_keeps hosts_steady gives _) fun fetched => ?_
      exact Yields.ite (ih _ _) (Yields.pure knows)
    · refine Yields.ite (ingestPdu_knows true) ?_
      refine Yields.after (fetchMissingById_keeps hosts_steady gives _) fun _ => ?_
      exact ih _ _
    · exact Yields.pure knows

theorem healing_unknownRoom (n : Node σ) :
    ((ingestPduHealing fetcher fuel origin raw n).1 = .error (.unknownRoom room) ↔
      Unhosted n.server.ruma n.store raw room) ∧
    (Unhosted n.server.ruma n.store raw room → (ingestPduHealing fetcher fuel origin raw n).2 = n) := by
  have unhosted : ∀ {room}, Unhosted n.server.ruma n.store raw room →
      ingestPduHealing fetcher fuel origin raw n = (.error (.unknownRoom room), n) := by
    intro room h
    have ingested : Heal.ingestPdu fuel raw false n = (.error (.unknownRoom room), n) := by
      unfold Heal.ingestPdu
      rw [get_bind, (ingestPdu_unknownRoom n.server false).2 h]
      rfl
    unfold ingestPduHealing healRounds
    rw [bind_apply, ingested]
    rfl
  refine ⟨⟨fun failed => ?_, fun h => by rw [unhosted h]⟩, fun h => by rw [unhosted h]⟩
  by_contra other
  refine healRounds_knows fetcher origin 3 false false n (fun room' h => ?_) room failed
  rw [unhosted h] at failed
  obtain rfl := RoomError.unknownRoom.inj (Except.error.inj failed)
  exact other h

end Hosted

end Saltator.Room
