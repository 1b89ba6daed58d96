import Saltator.Room.Landing
import Saltator.Room.Serving

/-!
# The state before an event

Other servers may ask for the state that an event was checked against. It is not stored, and is worked out
from the state after the event: the entry under the event's own key gives way to the first of its auth events
that has this key, or is dropped. This is right exactly if the state before the event has the same there
(`state_before_event_iff`), and the auth events of most types of state say nothing about it.
-/

namespace Saltator.Room

open Std
open Saltator.Outcome
open Saltator.Loop
open StateRes (Key StateIds)
open Machine (Effect plain applyRejected_room applyAccepted_spec)
open Server (stateKeyOf)
open Serving (pduEventId unseen unseen_insert_held unseen_insert_unheld)
open Pipeline

/-! ## The answer -/

section Model

variable (ruma : Ruma) (s : Store) (fuel : Nat)

def superseded (key : Key) (auth : List EventId) : Option EventId :=
  auth.find? fun id => (s.event[id]?).any fun stored : StoredEvent => stateKeyOf stored.raw == some key

/-- The state without the event's own entry. -/
def backOut (raw : JsonObject) (state : StateIds) : StateIds :=
  match stateKeyOf raw with
  | none => state
  | some key =>
    match superseded s key (authEventIds raw) with
    | some auth => state.insert key auth
    | none => state.erase key

def loadAll (ids : List EventId) : List (EventId × JsonObject) :=
  ids.filterMap fun id => (s.event[id]?).map fun stored => (id, stored.raw)

def stateBeforeEvent (room : RoomId) (id : EventId) :
    Except RoomError (Option (List (EventId × JsonObject) × List (EventId × JsonObject))) :=
  match s.event[id]? with
  | none => .ok none
  | some stored =>
    -- rejected: no state known at it
    if stored.stateGroupAfter = 0 then .ok none
    else if strProp stored.raw "room_id" ≠ some room then .ok none
    else do
      let state ← ofStore (s.resolveGroup fuel room stored.stateGroupAfter)
      let pdus := loadAll s (backOut s stored.raw state).vals
      let authChain ← collectAuthChain s fuel (OrdSet.extend ∅ (pdus.flatMap fun pdu => authEventIds pdu.2))
      return some (pdus, authChain.filterMap fun obj => (pduEventId ruma s obj).map fun id => (id, obj))

end Model

/-! ## Auth chains end -/

section Chains

variable {s : Store} {w w' : AuthWalk}

theorem authRound_descends (h : authRound s w = .ok (.inl w')) :
    Prod.Lex (· < ·) (· < ·) (unseen s w'.seen, w'.queue.length) (unseen s w.seen, w.queue.length) := by
  unfold authRound at h
  split at h
  · cases h
  rename_i id queue ahead
  have shorter : queue.length < w.queue.length := by simp [ahead]
  split at h
  · obtain rfl := Sum.inl.inj (Except.ok.inj h)
    exact .right _ shorter
  rename_i new
  rw [ExtTreeSet.contains_iff_mem] at new
  split at h
  · rename_i unheld
    obtain rfl := Sum.inl.inj (Except.ok.inj h)
    have off : id ∉ s.event := fun mem => by
      obtain ⟨e, held⟩ := OrdMap.mem_iff_getElem?.1 mem
      simp [unheld] at held
    dsimp only
    rw [unseen_insert_unheld off]
    exact .right _ shorter
  · rename_i stored held
    obtain rfl := Sum.inl.inj (Except.ok.inj h)
    exact .left _ _ (unseen_insert_held (OrdMap.mem_iff_getElem?.2 ⟨stored, held⟩) new)

theorem authRound_ne_error {e : RoomError} : authRound s w ≠ .error e := by
  unfold authRound
  split
  · simp
  split
  · simp
  split <;> simp

theorem collectAuthChain_settles (seed : OrdSet EventId) :
    ∃ chain, SettlesTo .outOfFuel (fun fuel => collectAuthChain s fuel seed) (.ok chain) := by
  have settles : Loop.Settles .outOfFuel fun fuel => collectAuthChain s fuel seed :=
    run_settles (I := fun _ => True) (InvImage.wf (fun w : AuthWalk => (unseen s w.seen, w.queue.length))
        (Prod.lex Nat.lt_wfRel Nat.lt_wfRel).wf)
      (fun w w' _ again => ⟨trivial, authRound_descends again⟩) (fun w _ => authRound_ne_error) trivial
  obtain ⟨r, intime, enough, settled⟩ := settles
  have last : collectAuthChain s enough seed = r := settled enough le_rfl
  cases r with
  | ok chain => exact ⟨chain, intime, enough, settled⟩
  | error e =>
    have fails := (run_result (I := fun _ => True) (Q := fun _ : List JsonObject => True)
      (F := fun _ => False) (fun _ _ _ _ => trivial) (fun _ _ _ _ => trivial)
      (fun w e _ failed => authRound_ne_error failed)
      enough _ trivial).2 e last
    exact absurd (congrArg Except.error (fails.resolve_right fun no => no.elim)) intime

end Chains

/-! ## Group numbers -/

/-- The next group of every room has a number other than zero. -/
def Counted (s : Store) : Prop := ∀ (room : RoomId) (m : RoomMeta), s.room[room]? = some m → 0 < m.nextGroup

section Counting

variable {ruma : Ruma} {s t : Store} {cmd : RoomCommand} {room : RoomId}

theorem Counted.nextGroup_pos (h : Counted s) (room : RoomId) : 0 < s.nextGroup room := by
  unfold Store.nextGroup
  cases known : s.room[room]? with
  | none => exact Nat.one_pos
  | some m => exact h room m known

theorem counted_onCore : OnCore Counted := fun _ => Iff.rfl

theorem counted_empty : Counted Store.empty := fun room m known => by simp [Store.empty] at known

theorem Counted.insert (h : Counted s) (room : RoomId) {m : RoomMeta} (next : 0 < m.nextGroup)
    (rooms : t.room = s.room.insert room m) : Counted t := by
  intro r m' known
  rw [rooms, OrdMap.getElem?_insert'] at known
  split at known
  · obtain rfl := Option.some.inj known
    exact next
  · exact h r m' known

theorem counted_effect (h : Counted s) (fresh : FreshIn s cmd) (heff : Effect s (plain cmd) t) :
    Counted t := by
  generalize hplain : plain cmd = cmd' at heff
  have next : ∀ {a : AppendEvent}, cmd' = .append a → 0 < a.nextGroup := fun same =>
    Nat.lt_of_lt_of_le (h.nextGroup_pos _) (fresh _ (hplain.trans same)).1.le
  cases heff with
  | idle => exact h
  | tick => exact h
  | @rejected a rejected absent hrejected =>
    intro r m' known'
    cases known : s.room[a.roomId]? with
    | none =>
      rw [Machine.applyRejected_unknown known] at known'
      exact h r m' known'
    | some m =>
      rw [applyRejected_room known] at known'
      split at known'
      · obtain rfl := Option.some.inj known'
        exact Nat.lt_of_lt_of_le (next rfl) (Nat.le_max_right _ _)
      · exact h r m' known'
  | @accepted a s' seq absent hrejected happly =>
    obtain ⟨m, computed, rooms⟩ := (applyAccepted_spec happly).room
    refine h.insert a.roomId ?_ rooms
    have same : m.nextGroup = a.nextGroup := by
      unfold Machine.acceptedMeta at computed
      split at computed
      · exact Except.ok.inj computed ▸ rfl
      · split at computed
        · simp at computed
        · exact Except.ok.inj computed ▸ rfl
    rw [same]
    exact next rfl
  | @importRoom c =>
    exact h.insert c.roomId (m := Machine.importMeta s (Machine.importRows s c).1 c) (Nat.succ_pos _) rfl
  | @importSegment c m known =>
    obtain ⟨-, rooms, -⟩ := Machine.segmentRows_frame s m c
    refine h.insert c.roomId (m := Machine.segmentMeta m (Machine.segmentRows s m c) c) (Nat.succ_pos _) ?_
    simp only [Store.putMeta, rooms]
  | @importHistory c m known =>
    obtain ⟨-, rooms, -⟩ := Machine.historyRows_frame s m c
    refine h.insert c.roomId (m := { m with
        historyFrontier := Machine.stillMissing m (Machine.historyRows s m c)
        nextHistoryIdx := (Machine.historyRows s m c).idx }) (h _ m known) ?_
    simp only [Store.putMeta, rooms]

theorem run_counted (run : Runs (LawfulSerial ruma) Store.empty s) : Counted s :=
  Runs.invariant counted_onCore
    (fun _ _ _ h computed heff => counted_effect h computed.lawfulIn.serialIn.freshIn heff) run counted_empty

end Counting

/-! ## What the pipeline decided -/

section Decided

variable {ruma : Ruma} {s : Store} {fuel : Nat} {version : RoomVersion} {room : RoomId}
  {isCreate relay : Bool} {raw : JsonObject} {pdu : Pdu} {id : EventId} {d : Decision}
  {event : IdentifiedPdu} {prevGroups : OrdSet Nat} {before after : Held}

theorem visitPrevs_ne_zero {depth : Nat} {ids : List EventId} {w : BehindWalk} (real : ∀ g ∈ w.groups, g ≠ 0) :
    ∀ g ∈ (ids.foldl (visitPrev s depth) w).groups, g ≠ 0 := by
  induction ids generalizing w with
  | nil => exact real
  | cons p ids ih =>
    refine ih ?_
    unfold visitPrev
    split
    · split
      · rename_i filled
        intro g mem
        rcases OrdSet.mem_insert'.1 mem with rfl | old
        · exact filled
        · exact real g old
      · exact real
    · exact real

theorem behind_ne_zero {groups : OrdSet Nat} (h : groupsBehindRejected s fuel id = .ok groups) :
    ∀ g ∈ groups, g ≠ 0 := by
  refine (run_result (I := fun w : BehindWalk => ∀ g ∈ w.groups, g ≠ 0) (F := fun _ => True)
    (Q := fun groups : OrdSet Nat => ∀ g ∈ groups, g ≠ 0) (fun w w' real again => ?_) (fun w r real left => ?_)
    (fun _ _ _ _ => trivial) fuel ⟨[(id, 0)], ∅, ∅⟩ (by simp)).1 groups h
  · unfold behindRound at again
    split at again
    · cases again
    split at again
    · cases again
      exact real
    split at again
    · cases again
      exact real
    dsimp only at again
    split at again <;> cases again
    · exact real
    · exact visitPrevs_ne_zero real
  · unfold behindRound at left
    split at left
    · cases left
      exact real
    split at left
    · cases left
    split at left
    · cases left
    dsimp only at left
    split at left <;> cases left

theorem fetchPrevs_ne_zero {ids missing : List EventId}
    (h : fetchPrevs s fuel ids = .ok (prevGroups, missing)) : ∀ g ∈ prevGroups, g ≠ 0 := by
  refine (foldlM_spec (I := fun _ (acc : OrdSet Nat × List EventId) => ∀ g ∈ acc.1, g ≠ 0)
    (F := fun _ => True) (fun done id acc acc' _ inv ran => ?_) (fun _ _ _ _ _ _ _ => trivial)
    (by simp)).1 _ h
  obtain ⟨groups, missing⟩ := acc
  dsimp only at ran
  split at ran
  · obtain rfl := Except.ok.inj ran
    exact inv
  split at ran
  · obtain ⟨behind, walked, ran⟩ := bind_eq_ok.1 ran
    split at ran
    · obtain rfl := pure_eq_ok.1 ran
      exact inv
    · obtain rfl := pure_eq_ok.1 ran
      intro g mem
      rcases OrdSet.mem_extend.1 mem with mem | mem
      · exact behind_ne_zero walked g (OrdSet.mem_toList'.1 mem)
      · exact inv g mem
  · rename_i grouped
    obtain rfl := Except.ok.inj ran
    intro g mem
    rcases OrdSet.mem_insert'.1 mem with rfl | mem
    · exact grouped
    · exact inv g mem

theorem stateBefore_counted {fetch : EventId → Option IdentifiedPdu} (counted : Counted s)
    (real : ∀ g ∈ prevGroups, g ≠ 0)
    (h : stateBefore ruma s fuel version room false fetch prevGroups (startAlloc s.room[room]?) =
      .ok before) : before.group ≠ 0 ∧ 0 < before.alloc.nextGroup := by
  have start : 0 < (startAlloc s.room[room]?).nextGroup := counted.nextGroup_pos room
  unfold stateBefore at h
  rw [if_neg Bool.false_ne_true] at h
  split at h
  · rename_i g single
    obtain ⟨state, -, same⟩ := bind_eq_ok.1 h
    obtain rfl := pure_eq_ok.1 same
    exact ⟨real g (OrdSet.mem_toList'.1 (by simp [single])), start⟩
  · obtain ⟨sets, -, h⟩ := bind_eq_ok.1 h
    obtain ⟨resolved, -, same⟩ := bind_eq_ok.1 h
    obtain rfl := pure_eq_ok.1 same
    exact ⟨Nat.ne_of_gt start, Nat.succ_pos _⟩

theorem stateAfter_ne_zero (counted : before.group ≠ 0 ∧ 0 < before.alloc.nextGroup ∨
      isCreate = true ∧ 0 < before.alloc.nextGroup ∧ (Event.stateKey event).isSome)
    (h : stateAfter s room isCreate event before = .ok after) : after.group ≠ 0 := by
  have next : 0 < before.alloc.nextGroup := counted.elim And.right fun c => c.2.1
  unfold stateAfter at h
  split at h
  · rename_i keyless
    obtain rfl := Except.ok.inj h
    rcases counted with counted | ⟨-, -, keyed⟩
    · exact counted.1
    · simp [keyless] at keyed
  · dsimp only at h
    split at h
    · obtain rfl := Except.ok.inj h
      exact Nat.ne_of_gt next
    split at h
    · cases h
    split at h
    · obtain rfl := Except.ok.inj h
      exact Nat.ne_of_gt next
    · obtain rfl := Except.ok.inj h
      exact Nat.ne_of_gt next

theorem stateKeyOf_eq (views : Pdu.Views raw pdu) :
    stateKeyOf raw = pdu.stateKey.map fun sk => (pdu.eventType, sk) := by
  unfold stateKeyOf
  rw [views.eventType, views.stateKey]
  cases strProp raw "state_key" <;> rfl

theorem stateWith_other (views : Pdu.Views raw pdu) (state : StateIds) {key : Key}
    (other : stateKeyOf raw ≠ some key) : (stateWith ⟨id, pdu⟩ state)[key]? = state[key]? := by
  rw [stateKeyOf_eq views] at other
  have own : Event.stateKey (⟨id, pdu⟩ : IdentifiedPdu) = pdu.stateKey := rfl
  rw [stateWith, own]
  cases keyed : pdu.stateKey with
  | none => rfl
  | some sk =>
    rw [keyed, Option.map_some, ne_eq, Option.some.injEq] at other
    dsimp only
    exact (OrdMap.getElem?_insert' ..).trans (if_neg (Ne.symm other))

theorem create_not_stateRejected {held : List (IdentifiedPdu × Bool)} {reason : String}
    (create : Event.eventType event = "m.room.create")
    (own : checkOwnAuth ruma s version s.room[room]? isCreate event held = .ok (.ok ()))
    (h : settle ruma s fuel version room isCreate relay event raw prevGroups = .ok d) :
    d.cmd.rejected ≠ some (.state reason) := by
  have rules : Auth.checkCreate ruma version event = .ok () := by
    unfold checkOwnAuth at own
    split at own
    · cases own
    · obtain ⟨state, -, checked⟩ := bind_eq_ok.1 own
      rw [← Auth.checkStateDependent_create create]
      exact pure_eq_ok.1 checked
  obtain ⟨before, -, h⟩ := bind_eq_ok.1 h
  obtain ⟨view, -, h⟩ := bind_eq_ok.1 h
  rw [Auth.checkStateDependent_create create, rules] at h
  simp only [bind_eq_ok, pure_eq_ok] at h
  obtain ⟨after, -, current, -, redacts, -, rfl⟩ := h
  simp [acceptedCommand]

end Decided

theorem Computes.reconstructs {ruma : Ruma} {room : RoomId} {s t : Store} {cmd : RoomCommand} {d : Decision}
    (h : Computes ruma room s cmd d) (counted : Counted s)
    (settled : d.cmd.rejected = none ∨ ∃ reason, d.cmd.rejected = some (.state reason)) (le : s.GroupsLe t)
    (stored : Stored t room d.cmd.newGroups) :
    d.cmd.stateGroupAfter ≠ 0 ∧ ∃ map, Materializes t room d.cmd.stateGroupAfter map ∧
      ∀ key, stateKeyOf d.cmd.raw ≠ some key → map[key]? = d.before[key]? := by
  have ofRoom := h.roomId
  have after := h.materializes le
  obtain ⟨server, raw, version, isCreate, relay, reject, fuel, lawful, rfl, routed, computed, -⟩ := h
  obtain ⟨raw', pdu, id, vetted, -, -, judged⟩ := processInner_judges computed
  obtain ⟨views, kept⟩ := vet_views vetted
  obtain ⟨-, ⟨_, _, -, rfl⟩ | ⟨held, prevGroups, auth, prevs, own, settles⟩⟩ := judge_settles judged
  · simp [rejectedCommand] at settled
  have founding : isCreate = true → pdu.eventType = "m.room.create" ∧ (pdu.stateKey).isSome := by
    rintro rfl
    have type := (strProp_congr ((kept lawful.ruma).1 "type" (by decide))).trans (routed.create lawful).1
    have keyed : (Event.stateKey (⟨id, pdu⟩ : IdentifiedPdu)).isSome := routed.create_keyed lawful vetted
    exact ⟨some_unique views.eventType type, keyed⟩
  have start : ∀ {held prevGroups before},
      Passed server.ruma s fuel version room isCreate ⟨id, pdu⟩ held prevGroups before →
      before.group ≠ 0 ∧ 0 < before.alloc.nextGroup ∨
        isCreate = true ∧ 0 < before.alloc.nextGroup ∧ (pdu.stateKey).isSome := by
    intro held prevGroups before passed
    have computed := passed.before
    cases isCreate with
    | true =>
      rw [stateBefore, if_pos rfl] at computed
      obtain rfl := Except.ok.inj computed
      exact .inr ⟨rfl, counted.nextGroup_pos room, (founding rfl).2⟩
    | false => exact .inl (stateBefore_counted counted (fetchPrevs_ne_zero passed.prevs) computed)
  rcases settle_cases auth prevs own settles with _ | @⟨reason, _, _, before, passed⟩ | ⟨passed, hafter, _, _⟩
  · simp [rejectedCommand] at settled
  · cases isCreate with
    | true => exact absurd rfl (create_not_stateRejected (founding rfl).1 own settles)
    | false =>
      have real := (start passed).resolve_right (fun h => Bool.false_ne_true h.1)
      exact ⟨real.1, before.state, stateBefore_materializes (fun _ => le _) passed.before stored,
        fun key _ => rfl⟩
  · refine ⟨stateAfter_ne_zero (start passed) hafter, _, ofRoom ▸ after rfl (ofRoom ▸ stored),
      fun key other => ?_⟩
    rw [stateAfter_stateWith hafter]
    exact stateWith_other views _ other

/-! ## What is reported -/

section Report

variable {ruma : Ruma} {s : Store} {fuel : Nat} {room : RoomId} {id : EventId} {e : StoredEvent}
  {raw : JsonObject} {state before : StateIds} {key : Key} {m m' : StateIds}

theorem size_lt_of_missing (off : ∀ k, k ≠ key → m[k]? = m'[k]?)
    (mem : key ∈ m) (missing : key ∉ m') : m'.size < m.size := by
  have erased : m' = m.erase key := by
    refine ExtTreeMap.ext_getElem? fun k => ?_
    rw [OrdMap.getElem?_erase']
    split
    · rename_i own
      exact own ▸ ExtTreeMap.getElem?_eq_none missing
    · rename_i other
      exact (off k other).symm
  rw [erased]
  exact OrdMap.size_erase_lt mem

theorem eq_of_vals (off : ∀ k, k ≠ key → m[k]? = m'[k]?) (same : m.vals = m'.vals) : m = m' := by
  have sizes : m.size = m'.size := by
    have lengths := congrArg List.length same
    rwa [OrdMap.vals, OrdMap.vals, List.length_map, List.length_map, ExtTreeMap.length_toList,
      ExtTreeMap.length_toList] at lengths
  have members : ∀ k, k ∈ m ↔ k ∈ m' := by
    intro k
    by_cases own : k = key
    · subst own
      constructor
      · intro mem
        by_contra missing
        exact absurd sizes (Nat.ne_of_gt (size_lt_of_missing off mem missing))
      · intro mem
        by_contra missing
        have off' : ∀ k', k' ≠ k → m'[k']? = m[k']? := fun k' other => (off k' other).symm
        exact absurd sizes (Nat.ne_of_lt (size_lt_of_missing off' mem missing))
    · simp only [OrdMap.mem_iff_getElem?, off k own]
  have keys : m.keys = m'.keys := by
    have : Std.Irrefl fun a b : Key => compare a b = .lt := ⟨fun a => by simp⟩
    have : Std.Antisymm fun a b : Key => compare a b = .lt :=
      ⟨fun a b hab hba => by simp [OrientedCmp.gt_of_lt hab] at hba⟩
    refine ExtTreeMap.ordered_keys.eq_of_mem_iff ExtTreeMap.ordered_keys fun k => ?_
    rw [ExtTreeMap.mem_keys, ExtTreeMap.mem_keys, members]
  have rows : ∀ m : StateIds, m.toList = m.keys.zip m.vals := fun m => by
    rw [← ExtTreeMap.map_fst_toList_eq_keys, OrdMap.vals, ← List.unzip_fst, ← List.unzip_snd,
      List.zip_unzip]
  exact ExtTreeMap.toList_inj.1 (by rw [rows, rows, keys, same])

theorem backOut_at (keyed : stateKeyOf raw = some key) (key' : Key) : (backOut s raw state)[key']? =
      if key' = key then superseded s key (authEventIds raw) else state[key']? := by
  unfold backOut
  rw [keyed]
  dsimp only
  cases found : superseded s key (authEventIds raw) with
  | some auth => exact OrdMap.getElem?_insert'
  | none => exact OrdMap.getElem?_erase'

theorem superseded_held {auth : List EventId} (h : superseded s key auth = some id) :
    (s.event[id]?).isSome := by
  have fits := List.find?_some (p := fun id => (s.event[id]?).any fun stored : StoredEvent =>
    stateKeyOf stored.raw == some key) h
  obtain ⟨stored, held, -⟩ := (Option.any_eq_true _ _).1 fits
  simp [held]

theorem loadAll_ids {ids : List EventId} (held : ∀ id ∈ ids, (s.event[id]?).isSome) :
    (loadAll s ids).map Prod.fst = ids := by
  induction ids with
  | nil => rfl
  | cons id ids ih =>
    obtain ⟨stored, found⟩ := Option.isSome_iff_exists.1 (held id List.mem_cons_self)
    have rest := ih fun id mem => held id (List.mem_cons_of_mem _ mem)
    simp only [loadAll, List.filterMap_cons, found, Option.map_some, List.map_cons] at rest ⊢
    rw [rest]

theorem stateBeforeEvent_reports (orderly : Orderly ruma s) (held : s.event[id]? = some e)
    (grouped : e.stateGroupAfter ≠ 0) (named : strProp e.raw "room_id" = some room)
    (after : Materializes s room e.stateGroupAfter state) :
    ∃ pdus authChain,
      SettlesTo .outOfFuel (fun fuel => stateBeforeEvent ruma s fuel room id) (.ok (some (pdus, authChain))) ∧
      pdus.map Prod.fst = (backOut s e.raw state).vals := by
  obtain ⟨chain, -, enough, settled⟩ := collectAuthChain_settles (s := s) (OrdSet.extend ∅
    ((loadAll s (backOut s e.raw state).vals).flatMap fun pdu => authEventIds pdu.2))
  obtain ⟨-, enough', resolved⟩ := after.settles
  refine ⟨loadAll s (backOut s e.raw state).vals,
    chain.filterMap fun obj => (pduEventId ruma s obj).map fun id => (id, obj),
    ⟨by simp, max enough enough', fun fuel le => ?_⟩, loadAll_ids fun id mem => ?_⟩
  · have state' : s.resolveGroup fuel room e.stateGroupAfter = .ok state := resolved fuel (by omega)
    have chain' : collectAuthChain s fuel (OrdSet.extend ∅
        ((loadAll s (backOut s e.raw state).vals).flatMap fun pdu => authEventIds pdu.2)) = .ok chain :=
      settled fuel (by omega)
    simp only [stateBeforeEvent, held, if_neg grouped, named, ne_eq, not_true_eq_false, if_false, state',
      ofStore, Except.mapError, ok_bind, chain']
    rfl
  · obtain ⟨key, found⟩ := OrdMap.mem_vals.1 mem
    cases keyed : stateKeyOf e.raw with
    | none =>
      simp only [backOut, keyed] at found
      exact after.stored orderly.stored found
    | some own =>
      rw [backOut_at keyed] at found
      split at found
      · exact superseded_held found
      · exact after.stored orderly.stored found

theorem stateBeforeEvent_lasting (room : RoomId) (id : EventId) :
    Lasting fun fuel => stateBeforeEvent ruma s fuel room id := by
  unfold stateBeforeEvent
  split
  · exact .const _
  split
  · exact .const _
  split
  · exact .const _
  · refine .bind (.mapError (resolveGroup_lasting s _ _) _) fun state => ?_
    exact .bind (.run _ _ _) fun chain => .const _

theorem stateBeforeEvent_elsewhere (held : s.event[id]? = some e)
    (named : strProp e.raw "room_id" ≠ some room) :
    SettlesTo .outOfFuel (fun fuel => stateBeforeEvent ruma s fuel room id) (.ok none) := by
  refine ⟨by simp, 0, fun fuel _ => ?_⟩
  simp only [stateBeforeEvent, held, ne_eq, named, not_false_eq_true, if_true]
  split <;> rfl

theorem backOut_vals_iff (after : ∀ key, stateKeyOf raw ≠ some key → state[key]? = before[key]?) :
    (backOut s raw state).vals = before.vals ↔
      ∀ key, stateKeyOf raw = some key → before[key]? = superseded s key (authEventIds raw) := by
  cases keyed : stateKeyOf raw with
  | none =>
    have same : state = before := ExtTreeMap.ext_getElem? fun key => after key (by simp [keyed])
    simp [backOut, keyed, same]
  | some own =>
    have off : ∀ key, key ≠ own → (backOut s raw state)[key]? = before[key]? := fun key other => by
      rw [backOut_at keyed, if_neg other, after key (by simp [keyed, Ne.symm other])]
    have at_own : (backOut s raw state)[own]? = superseded s own (authEventIds raw) := by
      rw [backOut_at keyed, if_pos rfl]
    constructor
    · rintro same key ⟨⟩
      rw [← eq_of_vals off same]
      exact at_own
    · intro right
      suffices same : backOut s raw state = before by rw [same]
      refine ExtTreeMap.ext_getElem? fun key => ?_
      by_cases other : key = own
      · subst other
        rw [at_own, right key rfl]
      · exact off key other

end Report

theorem Computes.written {ruma : Ruma} {room : RoomId} {s t engine : Store} {cmd : RoomCommand} {d : Decision}
    {response : RoomResponse} (h : Computes ruma room s cmd d)
    (applied : Machine.apply engine s cmd = .ok (t, response)) :
    t.group = (s.putGroups d.cmd.roomId d.cmd.newGroups).group ∧
      ∃ e, t.event[d.cmd.eventId]? = some e ∧ e.raw = d.cmd.raw ∧
        e.stateGroupAfter = d.cmd.stateGroupAfter := by
  obtain ⟨t', core, answered⟩ := Machine.apply_append_answered h.plain_eq applied
  have groups := congrArg Store.group core
  have events := congrArg Store.event core
  change t'.group = t.group at groups
  change t'.event = t.event at events
  have absent : s.event[d.cmd.eventId]? = none := by
    obtain ⟨_, _, _, _, _, _, _, _, _, _, computed, -⟩ := h
    obtain ⟨_, _, _, _, _, absent, _, judged⟩ := processInner_cases computed
    cases judged <;> exact absent
  rw [← groups, ← events]
  cases answered with
  | duplicate held => simp [absent] at held
  | @rejected reason _ _ =>
    refine ⟨Machine.applyRejected_group, Machine.rejectedRecord d.cmd reason, ?_, rfl, rfl⟩
    rw [Machine.applyRejected_event]
    simp
  | accepted _ _ happly =>
    have appended := applyAccepted_spec happly
    refine ⟨appended.group, Machine.acceptedRecord d.cmd (s.seq + 1), ?_, rfl, rfl⟩
    rw [appended.event]
    simp

/-- **The reported state** of an event that was accepted, or rejected against the state, is the state that it
was checked against exactly if the event names its room and, for a state event, the first of its auth events
that is stored and has its key is what that state has under the key. The record is to be the one that the
pipeline wrote: an import may write another one over it. -/
theorem state_before_event_iff {ruma : Ruma} {s t u : Store} {cmd : RoomCommand} {room : RoomId}
    {d : Decision} (run : Runs (LawfulSerial ruma) Store.empty s) (call : LawfulSerial ruma s cmd)
    (computes : Computes ruma room s cmd d)
    (settled : d.cmd.rejected = none ∨ ∃ reason, d.cmd.rejected = some (.state reason))
    {engine : Store} {response : RoomResponse} (applied : Machine.apply engine s cmd = .ok (t, response))
    (later : Runs (LawfulSerial ruma) t u) {e : StoredEvent} (held : u.event[d.cmd.eventId]? = some e)
    (own : e.raw = d.cmd.raw ∧ e.stateGroupAfter = d.cmd.stateGroupAfter) :
    (∃ pdus authChain, SettlesTo .outOfFuel (fun fuel => stateBeforeEvent ruma u fuel room d.cmd.eventId)
        (.ok (some (pdus, authChain))) ∧ pdus.map Prod.fst = d.before.vals) ↔
    strProp d.cmd.raw "room_id" = some room ∧ ∀ key, stateKeyOf d.cmd.raw = some key →
        d.before[key]? = superseded u key (authEventIds d.cmd.raw) := by
  have step : Runs (LawfulSerial ruma) s t := .single ⟨engine, cmd, response, call, applied⟩
  have serial : ∀ {s t : Store}, Runs (LawfulSerial ruma) s t → Runs (SerialIn ruma) s t :=
    fun run => run.mono fun _ _ h => h.lawfulIn.serialIn
  obtain ⟨ok, le⟩ := run_groups_ok (serial run) (serial (step.trans later))
  have orderly := run_orderly ((run.trans step).trans later)
  -- the groups of the command were stored when it was applied
  obtain ⟨groups, -⟩ := computes.written applied
  have stored : Stored u room d.cmd.newGroups := fun entry mem => by
    have put := GroupsOk.stored_putGroups computes.freshIn.1.nodup groups entry mem
    rw [computes.roomId] at put
    exact ((run_groups_ok (serial (run.trans step)) (serial later)).2 _ _ _ put).1
  obtain ⟨real, state, after, off⟩ := computes.reconstructs (run_counted run) settled
    (fun key g found => (le key.1 key.2 g found).1) stored
  rw [← own.1] at off ⊢
  rw [← own.2] at real after
  constructor
  · rintro ⟨pdus, authChain, settles, same⟩
    by_cases named : strProp e.raw "room_id" = some room
    · obtain ⟨pdus', authChain', settles', reported⟩ := stateBeforeEvent_reports orderly held real named after
      obtain ⟨rfl, rfl⟩ : pdus = pdus' ∧ authChain = authChain' := by
        simpa using settles.unique settles'
      exact ⟨named, (backOut_vals_iff off).1 (reported.symm.trans same)⟩
    · have nothing := settles.unique (stateBeforeEvent_elsewhere held named)
      simp at nothing
  · rintro ⟨named, right⟩
    obtain ⟨pdus, authChain, settles, reported⟩ := stateBeforeEvent_reports orderly held real named after
    exact ⟨pdus, authChain, settles, reported.trans ((backOut_vals_iff off).2 right)⟩

/-! ## A second topic -/

/-- What the server decides about an event that arrives after the first topic of the room `!r:x`, and the
store after that. -/
theorem exists_after_topic (raw : JsonObject) (p : Decision → Store → Bool)
    (h : ((Server.sample ["x"]).serveAll (fun _ _ => True) 9 Store.empty
      [.ingest Ruma.sampleCreate false, .ingest Ruma.sampleJoin false,
        .ingest (sampleStateEvent "t" "m.room.topic" ["$j"] 3) false]).any (fun s =>
      ((Server.sample ["x"]).ingestPdu s 9 raw false).toOption.any fun outcome =>
        outcome.elim (fun _ => false) fun d =>
          d.cmd.roomId == "!r:x" &&
            (Machine.apply s s (.append d.cmd)).toOption.any fun r => p d r.1) = true) :
    ∃ s t d response, Runs (LawfulSerial Ruma.sample) Store.empty s ∧
      LawfulSerial Ruma.sample s (.append d.cmd) ∧ Computes Ruma.sample "!r:x" s (.append d.cmd) d ∧
      Machine.apply s s (.append d.cmd) = .ok (t, response) ∧ p d t = true := by
  obtain ⟨s, served, h⟩ := (Option.any_eq_true _ _).1 h
  obtain ⟨outcome, ingested, h⟩ := (Option.any_eq_true _ _).1 h
  cases outcome with
  | inl id => simp at h
  | inr d =>
    obtain ⟨inRoom, h⟩ := Bool.and_eq_true_iff.1 h
    obtain ⟨⟨t, response⟩, applied, hp⟩ := (Option.any_eq_true _ _).1 h
    have computed := toOption_eq_some.1 ingested
    have prepared : (Call.ingest raw false).prepare (Server.sample ["x"]) s 9 =
        .ok (.inr (.append d.cmd)) := by
      simp only [Call.prepare, computed, ok_bind]
      rfl
    rw [Server.ingestPdu, bind_eq_ok] at computed
    obtain ⟨⟨version, room, isCreate⟩, classified, processed⟩ := computed
    have computes : Computes Ruma.sample room s (.append d.cmd) d :=
      ⟨Server.sample ["x"], raw, version, isCreate, false, false, 9, Server.sample_lawful ["x"], rfl,
        .ingested classified, processed, rfl⟩
    obtain rfl : "!r:x" = room := (beq_iff_eq.1 inRoom).symm.trans computes.roomId
    exact ⟨s, t, d, response, serveAll_lawful (Server.sample_lawful ["x"]) served,
      ⟨Server.sample ["x"], 9, .ingest raw false, Server.sample_lawful ["x"], rfl, prepared⟩, computes,
      toOption_eq_some.1 applied, hp⟩

/-- A message after the topic. -/
theorem state_before_event_message : ∃ s t d pdus authChain,
    Runs (LawfulSerial Ruma.sample) Store.empty s ∧
    Computes Ruma.sample "!r:x" s (.append d.cmd) d ∧ d.cmd.eventId = "$m" ∧
    SettlesTo .outOfFuel (fun fuel => stateBeforeEvent Ruma.sample t fuel "!r:x" d.cmd.eventId)
      (.ok (some (pdus, authChain))) ∧ pdus.map Prod.fst = d.before.vals := by
  obtain ⟨s, t, d, response, run, call, computes, applied, hp⟩ := exists_after_topic
    (Ruma.samplePdu "m" "m.room.message" none "@a:x" [] ["$c", "$j"] ["$t"] 4)
    (fun d _ => d.cmd.rejected.isNone && d.cmd.eventId == "$m" && (stateKeyOf d.cmd.raw).isNone &&
      strProp d.cmd.raw "room_id" == some "!r:x") (by decide +kernel)
  simp only [Bool.and_eq_true, Option.isNone_iff_eq_none, beq_iff_eq] at hp
  obtain ⟨⟨⟨accepted, named⟩, keyless⟩, inRoom⟩ := hp
  obtain ⟨-, e, held, own⟩ := computes.written applied
  obtain ⟨pdus, authChain, settles, same⟩ := (state_before_event_iff run call computes (.inl accepted) applied
    .refl held own).2 ⟨inRoom, by simp [keyless]⟩
  exact ⟨s, t, d, pdus, authChain, run, computes, named, settles, same⟩

/-- A second topic: the state before it has the first, and what is reported has none. -/
theorem second_topic_dropped : ∃ s t d pdus authChain,
    Runs (LawfulSerial Ruma.sample) Store.empty s ∧ LawfulSerial Ruma.sample s (.append d.cmd) ∧
    Computes Ruma.sample "!r:x" s (.append d.cmd) d ∧ d.cmd.eventId = "$u" ∧ d.cmd.rejected = none ∧
    (∃ response, Machine.apply s s (.append d.cmd) = .ok (t, response)) ∧
    SettlesTo .outOfFuel (fun fuel => stateBeforeEvent Ruma.sample t fuel "!r:x" "$u")
      (.ok (some (pdus, authChain))) ∧
    d.before.vals = ["$c", "$j", "$t"] ∧ pdus.map Prod.fst = ["$c", "$j"] := by
  obtain ⟨s, t, d, response, run, call, computes, applied, hp⟩ := exists_after_topic
    (sampleStateEvent "u" "m.room.topic" ["$t"] 4)
    (fun d t => d.cmd.eventId == "$u" && d.cmd.rejected.isNone && d.before.vals == ["$c", "$j", "$t"] &&
      (stateBeforeEvent Ruma.sample t 9 "!r:x" "$u").toOption.any fun answer =>
        answer.any fun r => r.1.map Prod.fst == ["$c", "$j"]) (by decide +kernel)
  simp only [Bool.and_eq_true, Option.isNone_iff_eq_none, beq_iff_eq] at hp
  obtain ⟨⟨⟨named, accepted⟩, before⟩, reported⟩ := hp
  obtain ⟨answer, answered, reported⟩ := (Option.any_eq_true _ _).1 reported
  obtain ⟨⟨pdus, authChain⟩, rfl, ids⟩ := (Option.any_eq_true _ _).1 reported
  exact ⟨s, t, d, pdus, authChain, run, call, computes, named, accepted, ⟨response, applied⟩,
    (stateBeforeEvent_lasting "!r:x" "$u").settlesTo (toOption_eq_some.1 answered), before, beq_iff_eq.1 ids⟩

end Saltator.Room
