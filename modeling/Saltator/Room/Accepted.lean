import Saltator.Core.Soundness
import Saltator.Core.AuthSpec
import Saltator.Room.Birth

/-!
# What acceptance says about the state before

* `verdict_reads_selection`: the sparse views on which resolution and the pipeline evaluate the rules
  decide what the full state decides.
* `processInner_accepted`: an accepted event passed the rules over the state before it.
* `accepted_sender_joined`: its sender is joined there, unless the event has the type of a create
  event.
-/

namespace Saltator.Room

open Std
open Saltator.Outcome
open StateRes (Key StateIds createKey neededKeys effectiveEntry effectiveState)

/-! ## Sparse views -/

theorem agreeOnSelected_of_needed {E : Type} [Event E] {version : RoomVersion} {event : E}
    {state state' : Auth.StateView E}
    (same : ∀ key ∈ neededKeys version event, state key.1 key.2 = state' key.1 key.2) :
    Auth.AgreeOnSelected version event state state' :=
  fun t sk selected => same (t, sk) (OrdSet.mem_insert'.2 selected.symm)

namespace Pipeline

/-- A whole state, read through `fetch`. -/
def fullView (state : StateIds) (fetch : EventId → Option IdentifiedPdu) :
    Auth.StateView IdentifiedPdu := fun t sk => state[(t, sk)]?.bind fetch

theorem stateView_spec {version : RoomVersion} {event : IdentifiedPdu} {state : StateIds}
    {fetch : EventId → Option IdentifiedPdu} {view : OrdMap Key IdentifiedPdu}
    (h : stateView version event state fetch = .ok view) :
    ∀ key ∈ neededKeys version event, view[key]? = state[key]?.bind fetch := by
  have inv := (foldlM_spec (I := fun done (view : OrdMap Key IdentifiedPdu) => ∀ key,
      view[key]? = if key ∈ done then state[key]?.bind fetch else none) (F := fun _ => True)
    (fun done k acc acc' _ inv step => ?_) (fun _ _ _ _ _ _ _ => trivial) (by simp)).1 _ h
  · intro key needed
    rw [inv key, if_pos (OrdSet.mem_toList'.2 needed)]
  · intro key
    cases named : state[k]? with
    | none =>
      simp only [named, Except.ok.injEq] at step
      grind
    | some id =>
      cases held : fetch id with
      | none => simp [named, held] at step
      | some e =>
        simp only [named, held, Except.ok.injEq] at step
        subst step
        rw [OrdMap.getElem?_insert']
        by_cases same : key = k
        · subst same
          simp [named, held]
        · simp [same, inv key]

theorem stateView_verdict {ruma : Ruma} {version : RoomVersion} {event : IdentifiedPdu}
    {state : StateIds} {fetch : EventId → Option IdentifiedPdu} {view : OrdMap Key IdentifiedPdu}
    (h : stateView version event state fetch = .ok view) :
    Auth.checkStateDependent ruma version event (viewOf view) =
      Auth.checkStateDependent ruma version event (fullView state fetch) :=
  Auth.checkStateDependent_congr (agreeOnSelected_of_needed (stateView_spec h))

end Pipeline

open Pipeline

def fallbackView {E : Type} [Event E] (ruma : Ruma) (fetch : EventId → Option E)
    (version : RoomVersion) (event : E) (working : StateIds) : Auth.StateView E := fun t sk =>
  match effectiveEntry ruma fetch version event working (t, sk) with
  | .ok found => found
  | .error _ => none

/-- **The rules read the selection only.** Two states that agree on the selection set of an event and
on the create event decide alike; so the sparse state of the iterative checks decides what the
working state with its fallback does, and the sparse view of the pipeline what the full state does. -/
theorem verdict_reads_selection (ruma : Ruma) (version : RoomVersion) :
    (∀ (E : Type) [Event E] (event : E) (state state' : Auth.StateView E),
      (∀ t sk, (t, sk) ∈ Auth.authTypesOf version event ∨ (t, sk) = ("m.room.create", "") →
        state t sk = state' t sk) →
      Auth.checkStateDependent ruma version event state =
        Auth.checkStateDependent ruma version event state') ∧
    (∀ (E : Type) [Event E] (fetch : EventId → Option E) (event : E) (working : StateIds)
      (effective : OrdMap Key E), effectiveState ruma fetch version event working = .ok effective →
      Auth.checkStateDependent ruma version event (fun t sk => effective[(t, sk)]?) =
        Auth.checkStateDependent ruma version event (fallbackView ruma fetch version event working)) ∧
    ∀ (event : IdentifiedPdu) (state : StateIds) (fetch : EventId → Option IdentifiedPdu)
      (view : OrdMap Key IdentifiedPdu), stateView version event state fetch = .ok view →
      Auth.checkStateDependent ruma version event (viewOf view) =
        Auth.checkStateDependent ruma version event (fullView state fetch) := by
  refine ⟨fun E _ event state state' agree => Auth.checkStateDependent_congr agree,
    fun E _ fetch event working effective h => ?_,
    fun event state fetch view h => stateView_verdict h⟩
  apply Auth.checkStateDependent_congr
  apply agreeOnSelected_of_needed
  intro key needed
  have entry := (StateRes.effectiveState_spec h key).1 needed
  simp only [fallbackView, entry]

/-! ## Accepted events -/

namespace Pipeline

section Accepted

variable {ruma : Ruma} {keys : PublicKeyMap} {s : Store} {fuel : Nat} {version : RoomVersion}
  {room : RoomId} {isCreate relay rejectMissingAuth : Bool} {raw raw' : JsonObject} {pdu : Pdu}
  {id : EventId} {d : Decision} {prevGroups : OrdSet Nat}

theorem settle_accepted {event : IdentifiedPdu}
    (h : settle ruma s fuel version room isCreate relay event raw prevGroups = .ok d)
    (accepted : d.cmd.rejected = none) :
    (∃ group alloc, stateBefore ruma s fuel version room isCreate (fetchFor ruma s event) prevGroups
      (startAlloc s.room[room]?) = .ok ⟨d.before, group, alloc⟩) ∧
    Auth.checkStateDependent ruma version event (fullView d.before (fetchFor ruma s event)) = .ok () := by
  rw [settle, bind_eq_ok] at h
  obtain ⟨before, hbefore, h⟩ := h
  obtain ⟨view, hview, h⟩ := bind_eq_ok.1 h
  split at h
  · obtain rfl := pure_eq_ok.1 h
    simp [rejectedCommand] at accepted
  · rename_i rules
    simp only [bind_eq_ok, pure_eq_ok] at h
    obtain ⟨_, _, _, _, _, _, rfl⟩ := h
    exact ⟨⟨before.group, before.alloc, hbefore⟩, stateView_verdict hview ▸ rules⟩

theorem processInner_accepted
    (vetted : vet ruma keys version raw = .ok (raw', pdu)) (named : ruma.eventId raw' version = .ok id)
    (h : processInner ruma keys s fuel raw version room isCreate relay rejectMissingAuth =
      .ok (.inr d)) (accepted : d.cmd.rejected = none) :
    (∃ prevGroups group alloc, fetchPrevs s fuel pdu.prevEvents = .ok (prevGroups, []) ∧
      stateBefore ruma s fuel version room isCreate (fetchFor ruma s ⟨id, pdu⟩) prevGroups
        (startAlloc s.room[room]?) = .ok ⟨d.before, group, alloc⟩) ∧
    Auth.checkStateDependent ruma version (⟨id, pdu⟩ : IdentifiedPdu)
      (fullView d.before (fetchFor ruma s ⟨id, pdu⟩)) = .ok () := by
  obtain ⟨_, _, _, vetted', named', -, hjudge⟩ := processInner_judges h
  obtain ⟨rfl, rfl⟩ := Prod.mk.inj (ok_unique vetted vetted')
  obtain rfl := ok_unique named named'
  obtain ⟨_, ⟨_, _, _, rfl⟩ | ⟨held, prevGroups, _, hprevs, _, hsettle⟩⟩ := judge_settles hjudge
  · simp [rejectedCommand] at accepted
  · obtain ⟨⟨group, alloc, hbefore⟩, rules⟩ := settle_accepted hsettle accepted
    exact ⟨⟨prevGroups, group, alloc, hprevs, hbefore⟩, rules⟩

theorem before_of_noPrevs {fetch : EventId → Option IdentifiedPdu}
    {alloc : Alloc} {held : Held} (hprevs : fetchPrevs s fuel [] = .ok (prevGroups, []))
    (h : stateBefore ruma s fuel version room isCreate fetch prevGroups alloc = .ok held) :
    held.state = ∅ := by
  obtain rfl : ∅ = prevGroups := by simpa [fetchPrevs] using hprevs
  unfold stateBefore at h
  split at h
  · exact Except.ok.inj h ▸ rfl
  · have none : (∅ : OrdSet Nat).toList = [] := by simp
    simp only [none, List.mapM_nil, pure_bind, StateRes.resolve, List.isEmpty_nil, if_true,
      ofStateRes, Except.mapError, ok_bind, pure_eq_ok] at h
    exact h ▸ rfl

/-- **Joined senders.** The sender of an accepted event, other than a member event, is joined in the
state before it exactly when the event is not of the type `m.room.create`, whatever its state key. -/
theorem accepted_sender_joined
    (vetted : vet ruma keys version raw = .ok (raw', pdu)) (named : ruma.eventId raw' version = .ok id)
    (h : processInner ruma keys s fuel raw version room isCreate relay rejectMissingAuth =
      .ok (.inr d)) (accepted : d.cmd.rejected = none) (notMember : pdu.eventType ≠ "m.room.member") :
    Auth.membership (fullView d.before (fetchFor ruma s ⟨id, pdu⟩)) pdu.sender = "join" ↔
      pdu.eventType ≠ "m.room.create" := by
  obtain ⟨⟨prevGroups, group, alloc, hprevs, hbefore⟩, rules⟩ :=
    processInner_accepted vetted named h accepted
  by_cases create : pdu.eventType = "m.room.create"
  · -- The rules for a create event leave it without prev events, so nobody is joined before it.
    have created := (Auth.checkStateDependent_create create).symm.trans rules
    have noPrevs : pdu.prevEvents = [] := Auth.prevEvents_of_checkCreate created
    rw [noPrevs] at hprevs
    have empty := before_of_noPrevs hprevs hbefore
    simp [create, Auth.membership, fullView, show d.before = ∅ from empty]
  · obtain ⟨_, _, admitted⟩ := Auth.checkStateDependent_admitted create rules
    exact iff_of_true (admitted.joined notMember) create

end Accepted

/-- The room `!r:x` after its creator joined, and what the pipeline decides there for one event. -/
theorem exists_decision (raw : JsonObject) (p : Store → Pdu → Decision → Bool)
    (h : ((Server.sample ["x"]).serveAll (fun _ _ => True) 9 Store.empty
      [.ingest Ruma.sampleCreate false, .ingest Ruma.sampleJoin false]).any (fun s =>
        (vet Ruma.sample (Server.sample ["x"]).keys .v11 raw).toOption.any fun (raw', pdu) =>
          (ofFormat (Ruma.sample.eventId raw' .v11)).toOption == some "$m" &&
          (processInner Ruma.sample (Server.sample ["x"]).keys s 9 raw .v11 "!r:x" false true
            false).toOption.any fun
            | .inl _ => false
            | .inr d => p s pdu d) = true) :
    ∃ s raw' pdu d, (Server.sample ["x"]).serveAll (fun _ _ => True) 9 Store.empty
        [.ingest Ruma.sampleCreate false, .ingest Ruma.sampleJoin false] = some s ∧
      vet Ruma.sample (Server.sample ["x"]).keys .v11 raw = .ok (raw', pdu) ∧
      Ruma.sample.eventId raw' .v11 = .ok "$m" ∧
      processInner Ruma.sample (Server.sample ["x"]).keys s 9 raw .v11 "!r:x" false true false =
        .ok (.inr d) ∧ p s pdu d = true := by
  obtain ⟨s, hs, h⟩ := (Option.any_eq_true _ _).1 h
  obtain ⟨⟨raw', pdu⟩, vetted, h⟩ := (Option.any_eq_true _ _).1 h
  rw [Bool.and_eq_true, beq_iff_eq, toOption_eq_some, ofFormat, mapError_eq_ok, Option.any_eq_true] at h
  obtain ⟨named, decision, hdecision, h⟩ := h
  cases decision with
  | inl _ => simp at h
  | inr d =>
    exact ⟨s, raw', pdu, d, hs, toOption_eq_some.1 vetted, named, toOption_eq_some.1 hdecision, h⟩

def sampleName : JsonObject :=
  Ruma.samplePdu "m" "m.room.name" (some "") "@a:x" [] ["$c", "$j"] ["$j"] 3

theorem accepted_sender_joined_name : ∃ s pdu d, pdu.sender = "@a:x" ∧
    (processInner Ruma.sample (Server.sample ["x"]).keys s 9 sampleName .v11 "!r:x" false true
      false = .ok (.inr d) ∧ d.cmd.rejected = none) ∧
    (Auth.membership (fullView d.before (fetchFor Ruma.sample s ⟨"$m", pdu⟩)) pdu.sender = "join" ↔
      pdu.eventType ≠ "m.room.create") := by
  obtain ⟨s, raw', pdu, d, -, vetted, named, hp, h⟩ := exists_decision sampleName
    (fun _ pdu d => d.cmd.rejected.isNone && pdu.eventType == "m.room.name" &&
      pdu.sender == "@a:x") (by decide +kernel)
  simp only [Bool.and_eq_true, Option.isNone_iff_eq_none, beq_iff_eq] at h
  obtain ⟨⟨accepted, type⟩, sender⟩ := h
  exact ⟨s, pdu, d, sender, ⟨hp, accepted⟩,
    accepted_sender_joined vetted named hp accepted (by simp [type])⟩

def sampleMessageCreate : JsonObject :=
  Ruma.samplePdu "m" "m.room.create" none "@b:x" [] [] [] 1

/-- The room accepts the message event, though its sender never joined. -/
theorem message_create_accepted : ∃ s raw' pdu d,
    (Server.sample ["x"]).serveAll (fun _ _ => True) 9 Store.empty
      [.ingest Ruma.sampleCreate false, .ingest Ruma.sampleJoin false] = some s ∧
    classify Ruma.sample s sampleMessageCreate = .ok (.v11, "!r:x", false) ∧
    vet Ruma.sample (Server.sample ["x"]).keys .v11 sampleMessageCreate = .ok (raw', pdu) ∧
    pdu.eventType = "m.room.create" ∧ pdu.stateKey = none ∧
    processInner Ruma.sample (Server.sample ["x"]).keys s 9 sampleMessageCreate .v11 "!r:x" false
      true false = .ok (.inr d) ∧ d.cmd.rejected = none ∧
    Auth.membership (fullView d.before (fetchFor Ruma.sample s ⟨"$m", pdu⟩)) pdu.sender ≠ "join" := by
  obtain ⟨s, raw', pdu, d, hs, vetted, named, hp, h⟩ := exists_decision sampleMessageCreate
    (fun s pdu d => (classify Ruma.sample s sampleMessageCreate).toOption == some (.v11, "!r:x", false)
      && d.cmd.rejected.isNone && pdu.eventType == "m.room.create" && pdu.stateKey.isNone &&
      Auth.membership (fullView d.before (fetchFor Ruma.sample s ⟨"$m", pdu⟩)) pdu.sender != "join")
    (by decide +kernel)
  simp only [Bool.and_eq_true, Option.isNone_iff_eq_none, beq_iff_eq, bne_iff_ne, toOption_eq_some] at h
  obtain ⟨⟨⟨⟨route, accepted⟩, type⟩, message⟩, stranger⟩ := h
  exact ⟨s, raw', pdu, d, hs, route, vetted, type, message, hp, accepted, stranger⟩

end Pipeline

end Saltator.Room
