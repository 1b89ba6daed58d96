import Saltator.Core.Provenance

/-!
# What state resolution looks up

Resolution asks for events by id: values of the sets, what lies in their auth chains, and in rooms
named after their create event that event. Two fetches that agree there yield one result, and one
error if it fails. If the values and what lies in their auth chains are held, it does not fail for a missing
event.
-/

namespace Saltator.StateRes

open Std Outcome Loop

variable {E : Type} [Event E] {fetch : EventId → Option E} {version : RoomVersion}
  {sets : List StateIds} {P : EventId → Prop} {missing : EventId}

/-! ## What the rounds pass on -/

section Passed

variable {P : EventId → Prop} {fetch : EventId → Option E} {id : EventId} {event : E}

variable (pass : PassedOn fetch P) {cache : ChainCache}
include pass

theorem PassedOn.cited (hid : P id) (held : require fetch id = .ok event) :
    ∀ a ∈ Event.authEvents event, P a := pass id event hid (require_eq_ok.1 held)

theorem PassedOn.walkRound {w : ChainWalk} {out : ChainWalk ⊕ List EventId}
    (inv : (∀ n ∈ w.stack, P n.1) ∧ ∀ n ∈ w.order, P n)
    (hround : StateRes.walkRound fetch cache w = .ok out) :
    match out with
    | .inl w => (∀ n ∈ w.stack, P n.1) ∧ ∀ n ∈ w.order, P n
    | .inr order => ∀ n ∈ order, P n := by
  obtain ⟨hstack, horder⟩ := inv
  rcases walkRound_cases hround with ⟨_, rfl⟩ | ⟨n, b, rest, top, _, rfl⟩ | ⟨n, rest, top, rfl⟩ |
    ⟨n, rest, e, top, he, rfl⟩
  · exact horder
  · exact ⟨fun m hm => hstack m (top ▸ List.mem_cons_of_mem _ hm), horder⟩
  · refine ⟨fun m hm => hstack m (top ▸ List.mem_cons_of_mem _ hm), fun m hm => ?_⟩
    rcases List.mem_append.1 hm with hm | hm
    · exact horder m hm
    · obtain rfl := List.mem_singleton.1 hm
      exact hstack (m, true) (top ▸ List.mem_cons_self)
  · refine ⟨fun m hm => ?_, horder⟩
    rcases List.mem_append.1 hm with hm | hm
    · obtain ⟨a, ha, rfl⟩ := List.mem_map.1 hm
      exact pass n e (hstack (n, false) (top ▸ List.mem_cons_self)) he a
        (List.mem_of_mem_filter (List.mem_reverse.1 ha))
    · rcases List.mem_cons.1 hm with rfl | hm
      · exact hstack (n, false) (top ▸ List.mem_cons_self)
      · exact hstack m (top ▸ List.mem_cons_of_mem _ hm)

theorem PassedOn.walk {fuel : Nat} {order : List EventId} (hid : P id)
    (h : run .outOfFuel (StateRes.walkRound fetch cache) fuel ⟨[(id, false)], ∅, []⟩ = .ok order) :
    ∀ n ∈ order, P n :=
  (run_result (F := fun _ => True)
    (I := fun w : ChainWalk => (∀ n ∈ w.stack, P n.1) ∧ ∀ n ∈ w.order, P n)
    (fun _ _ inv hround => pass.walkRound inv hround) (fun _ _ inv hround => pass.walkRound inv hround)
    (fun _ _ _ _ => trivial) fuel _ (by simpa using hid)).1 order h

theorem PassedOn.edgesRound {w w' : List EventId × OrdMap EventId (List EventId)}
    (inv : ∀ n ∈ w.1, P n) (hround : StateRes.edgesRound fetch w = .ok (.inl w')) :
    ∀ n ∈ w'.1, P n := by
  obtain ⟨stack, edges⟩ := w
  cases stack with
  | nil => simp [StateRes.edgesRound] at hround
  | cons n stack =>
    simp only [StateRes.edgesRound] at hround
    split at hround
    · obtain rfl := Sum.inl.inj (Except.ok.inj hround)
      exact fun m hm => inv m (List.mem_cons_of_mem _ hm)
    · obtain ⟨e, he, hround⟩ := bind_eq_ok.1 hround
      obtain rfl := Sum.inl.inj (pure_eq_ok.1 hround)
      intro m hm
      rcases List.mem_append.1 hm with hm | hm
      · exact pass.cited (inv n List.mem_cons_self) he m (List.mem_reverse.1 hm)
      · exact inv m (List.mem_cons_of_mem _ hm)

theorem PassedOn.mainlineRound {w w' : Option EventId × Nat × OrdMap EventId Nat}
    (inv : ∀ a, w.1 = some a → P a) (hround : StateRes.mainlineRound fetch w = .ok (.inl w')) :
    ∀ a, w'.1 = some a → P a := by
  obtain ⟨next, index, mainline⟩ := w
  cases next with
  | none => simp [StateRes.mainlineRound] at hround
  | some a =>
    simp only [StateRes.mainlineRound, bind_eq_ok] at hround
    obtain ⟨e, he, next, hnext, hround⟩ := hround
    obtain rfl := Sum.inl.inj (pure_eq_ok.1 hround)
    rintro b rfl
    exact pass.cited (inv a rfl) he b (plInAuthEvents_mem hnext)

theorem PassedOn.positionRound {mainline cache : OrdMap EventId Nat}
    {w w' : Option EventId × List EventId} (inv : ∀ a, w.1 = some a → P a)
    (hround : StateRes.positionRound fetch mainline cache w = .ok (.inl w')) :
    ∀ a, w'.1 = some a → P a := by
  obtain ⟨next, walked⟩ := w
  cases next with
  | none => simp [StateRes.positionRound] at hround
  | some a =>
    simp only [StateRes.positionRound] at hround
    split at hround
    · simp at hround
    split at hround
    · simp at hround
    obtain ⟨e, he, hround⟩ := bind_eq_ok.1 hround
    obtain ⟨next, hnext, hround⟩ := bind_eq_ok.1 hround
    obtain rfl := Sum.inl.inj (pure_eq_ok.1 hround)
    rintro b rfl
    exact pass.cited (inv a rfl) he b (plInAuthEvents_mem hnext)

end Passed

theorem iterativeAuthCheck_in {ruma : Ruma} {id : EventId} {state state' : StateIds} (hid : P id)
    (hstate : ∀ (key : Key) v, state[key]? = some v → P v)
    (h : iterativeAuthCheck ruma fetch version state id = .ok state') :
    ∀ (key : Key) v, state'[key]? = some v → P v := by
  intro key v hv
  have checked : iterativeAuthChecks ruma fetch version [id] state = .ok state' := by
    simpa [iterativeAuthChecks] using h
  rcases iterativeAuthChecks_values checked hv with ⟨key', hkey'⟩ | ⟨hin, _⟩
  · exact hstate key' v hkey'
  · exact List.mem_singleton.1 hin ▸ hid

theorem createId_value {create : EventId}
    (h : createId (partition sets).1 sets = .ok create) : ValueOf sets create := by
  unfold createId at h
  split at h
  · rename_i v hv
    exact Except.ok.inj h ▸ (partition_values sets).1 createKey v hv
  · split at h
    · rename_i v hv
      obtain ⟨set, hset, hkey⟩ := List.exists_of_findSome?_eq_some hv
      exact Except.ok.inj h ▸ ⟨set, hset, createKey, hkey⟩
    · simp at h

/-! ## Two fetches -/

/-- Two fetches agree on the events with a property, which held events pass on to all that resolution
looks up for them. -/
structure SameOn (version : RoomVersion) (P : EventId → Prop) (fetch fetch' : EventId → Option E) :
    Prop where
  same : ∀ id, P id → fetch id = fetch' id
  pass : PassedOn fetch P
  founder : ∀ id e room, P id → fetch id = some e → Event.roomId e = some room →
    version.roomIdIsCreateEventId → fetch ("$" ++ withoutSigil room) = fetch' ("$" ++ withoutSigil room)

/-- An event is missing, though all with the property are held. -/
def Misses (fetch : EventId → Option E) (P : EventId → Prop) (err : StateResError) : Prop :=
  (∀ id, P id → (fetch id).isSome) ∧ ∃ id, err = .missingEvent id

theorem kahnRound_ne_missing {keys : OrdMap EventId SortKey} {k : Kahn} :
    kahnRound keys k ≠ .error (.missingEvent missing) := by
  unfold kahnRound
  split
  · simp
  · refine bind_ne_error (foldlM_ne_error (fun dependent _ k => ?_) _) fun _ _ => pure_ne_error
    unfold release
    split <;> simp

namespace SameOn

variable {version : RoomVersion} {P : EventId → Prop} {fetch fetch' : EventId → Option E}
  {fuel : Nat} {id : EventId} {event : E} {ids : List EventId}

omit [Event E] in
theorem not_misses_outOfFuel : ¬ Misses fetch P .outOfFuel := fun misses => by simpa using misses.2

variable (h : SameOn version P fetch fetch') {cache : ChainCache} {creators : OrdSet UserId}
  {sets : List StateIds} {ruma : Ruma} {events : OrdSet EventId} {full : OrdSet EventId}
include h

theorem require (hid : P id) :
    Same (Misses fetch P) (StateRes.require fetch id) (StateRes.require fetch' id) := by
  refine ⟨by unfold StateRes.require; rw [h.same id hid], fun err failed misses => ?_⟩
  simpa [(require_eq_error.1 failed).1] using misses.1 id hid

/-! ## Auth chains -/

theorem walkRound {w : ChainWalk} (hstack : ∀ n ∈ w.stack, P n.1) :
    Same (Misses fetch P) (StateRes.walkRound fetch cache w) (StateRes.walkRound fetch' cache w) := by
  obtain ⟨stack, finished, order⟩ := w
  cases stack with
  | nil => exact .ok
  | cons top rest =>
    obtain ⟨node, post⟩ := top
    cases post with
    | true =>
      simp only [StateRes.walkRound]
      split <;> exact .ok
    | false =>
      simp only [StateRes.walkRound]
      split
      · exact .ok
      · exact (h.require (hstack _ List.mem_cons_self)).bind fun _ _ => .pure

theorem assemble (hid : P id) :
    Same (Misses fetch P) (StateRes.assemble fetch cache id) (StateRes.assemble fetch' cache id) :=
  (h.require hid).bind fun _ _ => .pure

theorem authChain (hid : P id) : Same (Misses fetch P) (StateRes.authChain fetch fuel id cache)
      (StateRes.authChain fetch' fuel id cache) := by
  unfold StateRes.authChain
  split
  · exact .ok
  · have start : (∀ n ∈ [(id, false)], P n.1) ∧ ∀ n ∈ ([] : List EventId), P n := by simpa using hid
    refine (run_same (I := fun w : ChainWalk => (∀ n ∈ w.stack, P n.1) ∧ ∀ n ∈ w.order, P n)
      (fun w inv => h.walkRound inv.1) (fun w w' inv hround => h.pass.walkRound inv hround)
      not_misses_outOfFuel fuel _ start).bind fun order horder => ?_
    exact (Same.foldlM (I := fun _ => True)
      (fun n hn cache _ => h.assemble (h.pass.walk hid horder n hn)) (fun _ _ _ _ _ _ => trivial)
      trivial).bind fun _ _ => .pure

theorem setChain {set : StateIds} (hset : ∀ v ∈ set.vals, P v) :
    Same (Misses fetch P) (StateRes.setChain fetch fuel set cache)
      (StateRes.setChain fetch' fuel set cache) :=
  .foldlM (I := fun _ => True) (fun v hv _ _ => (h.authChain (hset v hv)).bind fun _ _ => .pure)
    (fun _ _ _ _ _ _ => trivial) trivial

theorem setChains (hsets : ∀ set ∈ sets, ∀ v ∈ set.vals, P v) :
    Same (Misses fetch P) (StateRes.setChains fetch fuel sets) (StateRes.setChains fetch' fuel sets) :=
  .foldlM (I := fun _ => True) (fun set hset _ _ => (h.setChain (hsets set hset)).bind fun _ _ => .pure)
    (fun _ _ _ _ _ _ => trivial) trivial

/-! ## The full conflicted set -/

theorem conflictedSubgraph {conflicted : OrdSet EventId} (hconflicted : ∀ v ∈ conflicted, P v) :
    Same (Misses fetch P) (StateRes.conflictedSubgraph fetch fuel conflicted)
      (StateRes.conflictedSubgraph fetch' fuel conflicted) := by
  unfold StateRes.conflictedSubgraph
  refine (run_same (I := fun w : List EventId × OrdMap EventId (List EventId) => ∀ n ∈ w.1, P n)
    (fun w inv => ?_) (fun w w' inv hround => h.pass.edgesRound inv hround) not_misses_outOfFuel fuel _
    fun n hn => ?_).bind fun edges _ => (run_same (I := fun _ => True) (fun _ _ => .ok)
      (fun _ _ _ _ => trivial) not_misses_outOfFuel fuel _ trivial).bind fun _ _ => .pure
  · obtain ⟨stack, edges⟩ := w
    cases stack with
    | nil => exact .ok
    | cons n stack =>
      simp only [edgesRound]
      split
      · exact .ok
      · exact (h.require (inv n List.mem_cons_self)).bind fun _ _ => .pure
  · exact hconflicted n (OrdSet.mem_toList'.1 (List.mem_reverse.1 hn))

theorem fullConflictedSet {conflicted difference : OrdSet EventId}
    (hconflicted : ∀ v ∈ conflicted, P v) :
    Same (Misses fetch P) (StateRes.fullConflictedSet fetch fuel version conflicted difference)
      (StateRes.fullConflictedSet fetch' fuel version conflicted difference) := by
  unfold StateRes.fullConflictedSet
  cases version.stateRes with
  | v2 => exact .ok
  | v2_1 => exact (h.conflictedSubgraph hconflicted).bind fun _ _ => .pure

/-! ## The power ordering -/

theorem firstPowerLevels (hids : ∀ a ∈ ids, P a) :
    Same (Misses fetch P) (StateRes.firstPowerLevels fetch ids) (StateRes.firstPowerLevels fetch' ids) := by
  induction ids with
  | nil => exact .ok
  | cons a ids ih =>
    rw [StateRes.firstPowerLevels, StateRes.firstPowerLevels]
    refine (h.require (hids a List.mem_cons_self)).bind fun e _ => ?_
    split
    · exact .pure
    · exact ih fun b hb => hids b (List.mem_cons_of_mem _ hb)

theorem plInAuthEvents (hcited : ∀ a ∈ Event.authEvents event, P a) :
    Same (Misses fetch P) (StateRes.plInAuthEvents fetch event) (StateRes.plInAuthEvents fetch' event) :=
  (h.firstPowerLevels hcited).bind fun _ _ => .pure

theorem senderPowerAt (hcited : ∀ a ∈ Event.authEvents event, P a) :
    Same (Misses fetch P) (StateRes.senderPowerAt fetch version event creators)
      (StateRes.senderPowerAt fetch' version event creators) := by
  unfold StateRes.senderPowerAt
  split
  · exact .ok
  · refine (h.firstPowerLevels hcited).bind fun found _ => ?_
    cases found <;> exact .pure

theorem tabulate {acc : PowerTables × ChainCache} (hid : P id) :
    Same (Misses fetch P) (StateRes.tabulate fetch fuel version events creators acc id)
      (StateRes.tabulate fetch' fuel version events creators acc id) :=
  (h.require hid).bind fun _ he => (h.senderPowerAt (h.pass.cited hid he)).bind fun _ _ =>
    (h.authChain hid).bind fun _ _ => .pure

theorem reverseTopologicalPowerOrder (hevents : ∀ v ∈ events, P v) : Same (Misses fetch P)
      (StateRes.reverseTopologicalPowerOrder fetch fuel version events creators cache)
      (StateRes.reverseTopologicalPowerOrder fetch' fuel version events creators cache) := by
  refine (Same.foldlM (I := fun _ => True)
    (fun v hv _ _ => h.tabulate (hevents v (OrdSet.mem_toList'.1 hv)))
    (fun _ _ _ _ _ _ => trivial) trivial).bind fun tables _ => .self ?_
  rintro _ ⟨-, missing, rfl⟩
  refine bind_ne_error (foldlM_ne_error (fun entry _ ready => ?_) _) fun ready _ =>
    run_ne_error (I := fun _ => True) (fun _ _ _ _ => trivial) (fun _ _ => kahnRound_ne_missing)
      (by simp) trivial
  dsimp only
  split
  · split <;> simp
  · simp

theorem powerSet (hfull : ∀ v ∈ full, P v) : Same (Misses fetch P) (StateRes.powerSet fetch fuel full cache)
      (StateRes.powerSet fetch' fuel full cache) := by
  refine .foldlM (I := fun _ => True) (fun v hv acc _ => ?_) (fun _ _ _ _ _ _ => trivial) trivial
  have hv := hfull v (OrdSet.mem_toList'.1 hv)
  refine (h.require hv).bind fun e _ => ?_
  split
  · exact (h.authChain hv).bind fun _ _ => .pure
  · exact .pure

/-! ## Iterative auth checks -/

section Checks

variable {ruma : Ruma} {state : StateIds}

theorem effectiveEntry {key : Key} (hid : P id) (held : fetch id = some event)
    (hstate : ∀ (key : Key) v, state[key]? = some v → P v) :
    Same (Misses fetch P) (StateRes.effectiveEntry ruma fetch version event state key)
      (StateRes.effectiveEntry ruma fetch' version event state key) := by
  unfold StateRes.effectiveEntry
  split
  · rename_i v hv
    exact (h.require (hstate key v hv)).map
  · split
    · rename_i hcreate
      cases hroom : Event.roomId event with
      | none => exact .ok
      | some room =>
        simp only [Option.bind_some, h.founder id event room hid held hroom hcreate.2, Same.ok]
    · have cited := h.pass id event hid held
      refine .of_eq (congrArg Except.ok ?_)
      revert cited
      induction Event.authEvents event with
      | nil => exact fun _ => rfl
      | cons a l ih =>
        intro cited
        rw [List.findSome?_cons, List.findSome?_cons, h.same a (cited a List.mem_cons_self),
          ih fun b hb => cited b (List.mem_cons_of_mem _ hb)]

theorem iterativeAuthCheck (hid : P id) (hstate : ∀ (key : Key) v, state[key]? = some v → P v) :
    Same (Misses fetch P) (StateRes.iterativeAuthCheck ruma fetch version state id)
      (StateRes.iterativeAuthCheck ruma fetch' version state id) := by
  refine (h.require hid).bind fun e he => Same.bind ?_ fun effective _ => by split <;> exact .pure
  refine .foldlM (I := fun _ => True) (fun key _ _ _ => ?_) (fun _ _ _ _ _ _ => trivial) trivial
  refine (h.effectiveEntry hid (require_eq_ok.1 he) hstate).bind fun found _ => ?_
  cases found <;> exact .pure

theorem iterativeAuthChecks (hids : ∀ a ∈ ids, P a)
    (hstate : ∀ (key : Key) v, state[key]? = some v → P v) :
    Same (Misses fetch P) (StateRes.iterativeAuthChecks ruma fetch version ids state)
      (StateRes.iterativeAuthChecks ruma fetch' version ids state) :=
  .foldlM (I := fun state : StateIds => ∀ (key : Key) v, state[key]? = some v → P v)
    (fun a ha _ inv => h.iterativeAuthCheck (hids a ha) inv)
    (fun a ha _ _ inv hstep => iterativeAuthCheck_in (hids a ha) inv hstep) hstate

end Checks

/-! ## The mainline ordering -/

theorem buildMainline {start : Option EventId} (hstart : ∀ a, start = some a → P a) :
    Same (Misses fetch P) (StateRes.buildMainline fetch fuel start)
      (StateRes.buildMainline fetch' fuel start) := by
  refine run_same
    (I := fun w : Option EventId × Nat × OrdMap EventId Nat => ∀ a, w.1 = some a → P a)
    (fun w inv => ?_) (fun w w' inv hround => h.pass.mainlineRound inv hround) not_misses_outOfFuel
    fuel _ hstart
  obtain ⟨next, index, mainline⟩ := w
  cases next with
  | none => exact .ok
  | some a =>
    exact (h.require (inv a rfl)).bind fun e he =>
      (h.plInAuthEvents (h.pass.cited (inv a rfl) he)).bind fun _ _ => .pure

theorem mainlinePosition {mainline cache : OrdMap EventId Nat}
    (hcited : ∀ a ∈ Event.authEvents event, P a) :
    Same (Misses fetch P) (StateRes.mainlinePosition fetch fuel mainline event cache)
      (StateRes.mainlinePosition fetch' fuel mainline event cache) := by
  unfold StateRes.mainlinePosition
  split
  · exact .ok
  refine (h.plInAuthEvents hcited).bind fun current hcurrent =>
    (run_same (I := fun w : Option EventId × List EventId => ∀ a, w.1 = some a → P a)
      (fun w inv => ?_) (fun w w' inv hround => h.pass.positionRound inv hround) not_misses_outOfFuel
      fuel _ ?_).bind fun _ _ => .pure
  · obtain ⟨next, walked⟩ := w
    cases next with
    | none => exact .ok
    | some a =>
      simp only [positionRound]
      split
      · exact .ok
      split
      · exact .ok
      exact (h.require (inv a rfl)).bind fun e he =>
        (h.plInAuthEvents (h.pass.cited (inv a rfl) he)).bind fun _ _ => .pure
  · rintro a rfl
    exact hcited a (plInAuthEvents_mem hcurrent)

theorem placeAll {mainline : OrdMap EventId Nat} (hids : ∀ a ∈ ids, P a) :
    Same (Misses fetch P) (StateRes.placeAll fetch fuel mainline ids)
      (StateRes.placeAll fetch' fuel mainline ids) := by
  refine (Same.foldlM (I := fun _ => True) (fun a ha _ _ => ?_)
    (fun _ _ _ _ _ _ => trivial) trivial).bind fun _ _ => .pure
  exact (h.require (hids a ha)).bind fun e he =>
    (h.mainlinePosition (h.pass.cited (hids a ha) he)).bind fun _ _ => .pure

/-! ## Resolution -/

theorem resolveConflicted {unconflicted : StateIds} (hfull : ∀ v ∈ full, P v)
    (hagreed : ∀ (key : Key) v, unconflicted[key]? = some v → P v) :
    Same (Misses fetch P)
      (StateRes.resolveConflicted ruma fetch fuel version unconflicted full creators cache)
      (StateRes.resolveConflicted ruma fetch' fuel version unconflicted full creators cache) := by
  refine (h.powerSet hfull).bind ?_
  rintro ⟨power, cache⟩ hpower
  have inPower : ∀ v ∈ power, P v := fun v hv => hfull v (powerSet_subset hpower v hv)
  refine (h.reverseTopologicalPowerOrder inPower).bind fun order horder => ?_
  have inOrder : ∀ v ∈ order, P v := fun v hv =>
    inPower v (reverseTopologicalPowerOrder_subset horder v hv)
  -- Version 2.1 starts from the empty state, version 2 from what the sets agree on.
  have initial : ∀ base, (base = unconflicted ∨ base = ∅) → ∀ (key : Key) v, base[key]? = some v → P v := by
    rintro base (rfl | rfl) key v hv
    · exact hagreed key v hv
    · simp at hv
  refine (h.iterativeAuthChecks inOrder (initial _ (by split <;> simp))).bind
    fun partialState hpartial => ?_
  have inPartial : ∀ (key : Key) v, partialState[key]? = some v → P v := by
    intro key v hv
    rcases iterativeAuthChecks_values hpartial hv with ⟨key', hkey'⟩ | ⟨hin, _⟩
    · exact initial _ (by split <;> simp) key' v hkey'
    · exact inOrder v hin
  refine (h.buildMainline (inPartial plKey)).bind fun mainline _ => ?_
  have remaining : ∀ v ∈ full.toList.filter fun id => !power.contains id, P v := fun v hv =>
    hfull v (OrdSet.mem_toList'.1 (List.mem_of_mem_filter hv))
  refine (h.placeAll remaining).bind fun ordered hordered => ?_
  refine (h.iterativeAuthChecks (fun v hv => ?_) inPartial).bind fun _ _ => .pure
  obtain ⟨p, hp, rfl⟩ := List.mem_map.1 hv
  exact remaining _ (placeAll_subset hordered p ((List.mem_insertionSort _).1 hp))

theorem resolve_same (hsets : ∀ v, ValueOf sets v → P v) :
    Same (Misses fetch P) (StateRes.resolve ruma version fetch fuel sets)
      (StateRes.resolve ruma version fetch' fuel sets) := by
  obtain ⟨hagreed, hconflicted⟩ := partition_values sets
  unfold StateRes.resolve
  split
  · exact .ok
  dsimp only
  split
  · exact .ok
  have values : ∀ set ∈ sets, ∀ v ∈ set.vals, P v := by
    intro set hset v hv
    obtain ⟨key, hkey⟩ := OrdMap.mem_vals.1 hv
    exact hsets v ⟨set, hset, key, hkey⟩
  have conflicted : ∀ v ∈ (partition sets).2, P v := fun v hv => hsets v (hconflicted v hv)
  refine (h.setChains values).bind ?_
  rintro ⟨chains, cache⟩ hchains
  refine (h.fullConflictedSet conflicted).bind fun full hfull => Same.bind (.self ?_) fun create hcreate => ?_
  · rintro _ ⟨-, missing, rfl⟩
    unfold createId
    split <;> [simp; split <;> simp]
  refine (h.require (hsets create (createId_value hcreate))).bind fun _ _ => ?_
  exact h.resolveConflicted (fullConflictedSet_closed h.pass conflicted
    (authDifference_closed h.pass hsets hchains) hfull) fun key v hv => hsets v (hagreed key v hv)

theorem resolve (hsets : ∀ v, ValueOf sets v → P v) :
    StateRes.resolve ruma version fetch fuel sets = StateRes.resolve ruma version fetch' fuel sets :=
  (h.resolve_same hsets).1

end SameOn

/-! ## Held events -/

structure Present (fetch : EventId → Option E) (P : EventId → Prop) : Prop where
  held : ∀ id, P id → (fetch id).isSome
  pass : PassedOn fetch P

theorem Present.resolve (h : Present fetch P) {ruma : Ruma}
    {fuel : Nat} (hsets : ∀ v, ValueOf sets v → P v)
    : StateRes.resolve ruma version fetch fuel sets ≠ .error (.missingEvent missing) := by
  have all : SameOn version P fetch fetch := ⟨fun _ _ => rfl, h.pass, fun _ _ _ _ _ _ _ => rfl⟩
  exact fun failed => (all.resolve_same hsets).2 _ failed ⟨h.held, missing, rfl⟩

end Saltator.StateRes
