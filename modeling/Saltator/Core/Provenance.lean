import Saltator.Core.Presentation

/-!
# Where the resolved state comes from

Every value of a resolved state is a value of one of the sets, or an event that is held and lies in
the auth chain of such a value. So a property that all values of the sets have, and that events pass
on to their auth events, holds of all values of the result.
-/

namespace Saltator.StateRes

open Std Saltator.Graph Outcome Loop

variable {E : Type} [Event E] {fetch : EventId → Option E} {sets : List StateIds}
  {version : RoomVersion} {events : OrdSet EventId} {fuel : Nat} {creators : OrdSet UserId}
  {keys : OrdMap EventId SortKey} {v : EventId} {ruma : Ruma} {key : Key} {order : List EventId}
  {cache : ChainCache} {result : StateIds}

/-- `id` is a value of one of the sets. -/
def ValueOf (sets : List StateIds) (id : EventId) : Prop :=
  ∃ set ∈ sets, ∃ key : Key, set[key]? = some id

/-! ## The partition -/

theorem partition_values (sets : List StateIds) :
    (∀ (key : Key) v, (partition sets).1[key]? = some v → ValueOf sets v) ∧
      ∀ v ∈ (partition sets).2, ValueOf sets v := by
  unfold partition
  refine List.foldlRecOn (motive := fun acc : StateIds × OrdSet EventId =>
    (∀ (key : Key) v, acc.1[key]? = some v → ValueOf sets v) ∧ ∀ v ∈ acc.2, ValueOf sets v)
    _ _ ⟨by simp, by simp⟩ fun acc h key _ => ?_
  obtain ⟨unconflicted, conflicted⟩ := acc
  dsimp only
  split
  · rename_i value hvalue
    refine ⟨fun k v hv => ?_, h.2⟩
    rw [OrdMap.getElem?_insert'] at hv
    split at hv
    · obtain rfl := Option.some.inj hv
      obtain ⟨hne, hall⟩ := agreedValue_eq_some.1 hvalue
      obtain ⟨set, hset⟩ := List.exists_mem_of_ne_nil sets hne
      exact ⟨set, hset, key, hall set hset⟩
    · exact h.1 k v hv
  · refine ⟨h.1, fun v hv => ?_⟩
    rcases OrdSet.mem_extend.1 hv with hv | hv
    · obtain ⟨set, hset, hkey⟩ := List.mem_filterMap.1 hv
      exact ⟨set, hset, key, hkey⟩
    · exact h.2 v hv

/-! ## The full conflicted set -/

section Closed

variable {P : EventId → Prop} {fuel : Nat}

def PassedOn (fetch : EventId → Option E) (P : EventId → Prop) : Prop :=
  ∀ id e, P id → fetch id = some e → ∀ a ∈ Event.authEvents e, P a

theorem PassedOn.edge (h : PassedOn fetch P) (a b : EventId) (ha : P a)
    (hab : Edge (authGraph fetch) a b) : P b := by
  obtain ⟨l, hl, hb⟩ := hab
  obtain ⟨e, he, rfl⟩ := Option.map_eq_some_iff.1 hl
  exact h a e ha he b hb

theorem authDifference_closed {chains : List (OrdSet EventId)} {cache : ChainCache}
    (pass : PassedOn fetch P) (hsets : ∀ id, ValueOf sets id → P id)
    (h : setChains fetch fuel sets = .ok (chains, cache)) : ∀ a ∈ authDifference chains, P a := by
  obtain ⟨_, hchains, _⟩ := (setChains_spec sets fuel).1 _ h
  intro a ha
  obtain ⟨⟨set, hset, id, hid, hbelow⟩, _⟩ := (mem_authDifference_of hchains).1 ha
  obtain ⟨key, hkey⟩ := OrdMap.mem_vals.1 hid
  exact hbelow.closed pass.edge (hsets id ⟨set, hset, key, hkey⟩)

theorem edgesWalk_spec {start : List EventId} {edges : OrdMap EventId (List EventId)}
    (pass : PassedOn fetch P) (hstart : ∀ id ∈ start, P id)
    (h : run .outOfFuel (edgesRound fetch) fuel (start, ∅) = .ok edges) :
    ∀ (id : EventId) (l : List EventId), edges[id]? = some l → P id ∧ authGraph fetch id = some l := by
  refine (run_result (I := fun w : List EventId × OrdMap EventId (List EventId) =>
      (∀ id ∈ w.1, P id) ∧ ∀ (id : EventId) (l : List EventId), w.2[id]? = some l →
        P id ∧ authGraph fetch id = some l)
    (Q := fun edges => ∀ (id : EventId) (l : List EventId), edges[id]? = some l →
      P id ∧ authGraph fetch id = some l)
    (F := fun _ => True) (fun w w' inv hround => ?_) (fun w r inv hround => ?_)
    (fun _ _ _ _ => trivial) fuel _ ⟨hstart, by simp⟩).1 edges h
  · obtain ⟨stack, edges⟩ := w
    cases stack with
    | nil => simp [edgesRound] at hround
    | cons id stack =>
      simp only [edgesRound] at hround
      split at hround
      · obtain rfl := Sum.inl.inj (Except.ok.inj hround)
        exact ⟨fun a ha => inv.1 a (List.mem_cons_of_mem _ ha), inv.2⟩
      · obtain ⟨e, he, hround⟩ := bind_eq_ok.1 hround
        simp only [pure_eq_ok, Sum.inl.injEq] at hround
        subst hround
        have held := require_eq_ok.1 he
        have hid := inv.1 id List.mem_cons_self
        refine ⟨fun a ha => ?_, fun a l hl => ?_⟩
        · obtain ha | ha := List.mem_append.1 ha
          · exact pass id e hid held a (List.mem_reverse.1 ha)
          · exact inv.1 a (List.mem_cons_of_mem _ ha)
        · rw [OrdMap.getElem?_insert'] at hl
          split at hl
          · rename_i heq
            subst heq
            exact ⟨hid, by simpa [authGraph, held] using hl⟩
          · exact inv.2 a l hl
  · obtain ⟨stack, edges⟩ := w
    cases stack with
    | nil =>
      simp only [edgesRound, Except.ok.injEq, Sum.inr.injEq] at hround
      exact hround ▸ inv.2
    | cons id stack =>
      simp only [edgesRound] at hround
      split at hround
      · simp at hround
      · obtain ⟨_, _, hround⟩ := bind_eq_ok.1 hround
        simp [pure_eq_ok] at hround

theorem conflictedSubgraph_closed {conflicted subgraph : OrdSet EventId}
    (pass : PassedOn fetch P) (hconflicted : ∀ id ∈ conflicted, P id)
    (h : conflictedSubgraph fetch fuel conflicted = .ok subgraph) : ∀ a ∈ subgraph, P a := by
  rw [conflictedSubgraph, bind_eq_ok] at h
  obtain ⟨edges, hedges, h⟩ := h
  obtain ⟨reaches, _, h⟩ := bind_eq_ok.1 h
  obtain rfl := pure_eq_ok.1 h
  have recorded := edgesWalk_spec pass
    (fun id hid => hconflicted id (OrdSet.mem_toList'.1 (List.mem_reverse.1 hid))) hedges
  intro a ha
  obtain ha | ha := OrdSet.mem_extend.1 ha
  · obtain ⟨l, hl⟩ := OrdMap.mem_iff_getElem?.1 (ExtTreeMap.mem_keys.1 (List.mem_of_mem_filter ha))
    exact (recorded a l hl).1
  · simp at ha

theorem fullConflictedSet_closed {version : RoomVersion} {conflicted difference full : OrdSet EventId}
    (pass : PassedOn fetch P) (hconflicted : ∀ id ∈ conflicted, P id)
    (hdifference : ∀ id ∈ difference, P id)
    (h : fullConflictedSet fetch fuel version conflicted difference = .ok full) :
    ∀ id ∈ full, P id := by
  have base : ∀ id ∈ OrdSet.extend conflicted difference.toList, P id := fun id hid => by
    rcases OrdSet.mem_extend.1 hid with hid | hid
    · exact hdifference id (OrdSet.mem_toList'.1 hid)
    · exact hconflicted id hid
  unfold fullConflictedSet at h
  dsimp only at h
  split at h
  · obtain ⟨subgraph, hsub, h⟩ := bind_eq_ok.1 h
    obtain rfl := pure_eq_ok.1 h
    intro id hid
    rcases OrdSet.mem_extend.1 hid with hid | hid
    · exact conflictedSubgraph_closed pass hconflicted hsub id (OrdSet.mem_toList'.1 hid)
    · exact base id hid
  · obtain rfl := pure_eq_ok.1 h
    exact base

end Closed

/-! ## The orders -/

theorem powerSet_subset {full power : OrdSet EventId} {cache cache' : ChainCache}
    (h : powerSet fetch fuel full cache = .ok (power, cache')) : ∀ id ∈ power, id ∈ full := by
  refine (foldlM_spec (I := fun _ (acc : OrdSet EventId × ChainCache) => ∀ id ∈ acc.1, id ∈ full)
    (F := fun _ => True) (fun done id acc acc' hid inv hstep => ?_)
    (fun _ _ _ _ _ _ _ => trivial) (by simp)).1 _ h
  obtain ⟨e, _, hstep⟩ := bind_eq_ok.1 hstep
  split at hstep
  · obtain ⟨⟨chain, cache⟩, _, hstep⟩ := bind_eq_ok.1 hstep
    obtain rfl := pure_eq_ok.1 hstep
    intro a ha
    rcases OrdSet.mem_extend.1 ha with ha | ha
    · simpa using (List.mem_filter.1 ha).2
    · rcases OrdSet.mem_insert'.1 ha with rfl | ha
      · exact OrdSet.mem_toList'.1 hid
      · exact inv a ha
  · obtain rfl := pure_eq_ok.1 hstep
    exact inv

structure TablesIn (events : OrdSet EventId) (pending : OrdMap EventId (OrdSet EventId))
    (dependents : OrdMap EventId (List EventId)) : Prop where
  pending : ∀ id ∈ pending, id ∈ events
  dependents : ∀ (d : EventId) (l : List EventId), dependents[d]? = some l → ∀ id ∈ l, id ∈ events

theorem tabulate_in {acc acc' : PowerTables × ChainCache} {id : EventId} (hid : id ∈ events)
    (inv : TablesIn events acc.1.pending acc.1.dependents)
    (h : tabulate fetch fuel version events creators acc id = .ok acc') :
    TablesIn events acc'.1.pending acc'.1.dependents := by
  simp only [tabulate, bind_eq_ok] at h
  obtain ⟨e, _, power, _, ⟨chain, cache⟩, _, h⟩ := h
  obtain rfl := pure_eq_ok.1 h
  refine ⟨fun a ha => ?_, ?_⟩
  · obtain ⟨v, hv⟩ := OrdMap.mem_iff_getElem?.1 ha
    rw [OrdMap.getElem?_insert'] at hv
    split at hv
    · rename_i heq
      exact heq ▸ hid
    · exact inv.pending a (OrdMap.mem_iff_getElem?.2 ⟨v, hv⟩)
  · refine List.foldlRecOn (motive := fun dependents : OrdMap EventId (List EventId) =>
      ∀ (d : EventId) (l : List EventId), dependents[d]? = some l → ∀ id ∈ l, id ∈ events)
      _ _ inv.dependents
      fun dependents hdep d _ => ?_
    intro d' l hl a ha
    rw [OrdMap.getElem?_insert'] at hl
    split at hl
    · obtain rfl := Option.some.inj hl
      rcases List.mem_append.1 ha with ha | ha
      · cases hd : dependents[d]? with
        | none => simp [hd] at ha
        | some l' => exact hdep d l' hd a (by simpa [hd] using ha)
      · exact List.mem_singleton.1 ha ▸ hid
    · exact hdep d' l hl a ha

/-- Everything the sort handles is an event of the set. -/
structure KahnIn (events : OrdSet EventId) (k : Kahn) : Prop where
  ready : ∀ entry ∈ k.ready, entry.2 ∈ events
  dependents : ∀ (d : EventId) (l : List EventId), k.dependents[d]? = some l → ∀ id ∈ l, id ∈ events
  out : ∀ id ∈ k.out, id ∈ events

theorem release_in {id dependent : EventId}
    {k k' : Kahn} (hdep : dependent ∈ events) (inv : KahnIn events k)
    (h : release keys id k dependent = .ok k') : KahnIn events k' := by
  unfold release at h
  split at h
  · obtain rfl := Except.ok.inj h
    refine ⟨fun entry hentry => ?_, inv.dependents, inv.out⟩
    dsimp only at hentry
    split at hentry
    · rcases OrdSet.mem_insert'.1 hentry with rfl | hentry
      · exact hdep
      · exact inv.ready entry hentry
    · exact inv.ready entry hentry
  · simp at h

theorem kahnRound_in {k k' : Kahn}
    (inv : KahnIn events k) (h : kahnRound keys k = .ok (.inl k')) : KahnIn events k' := by
  unfold kahnRound at h
  split at h
  · simp at h
  · rename_i key id hmin
    have hmem : (key, id) ∈ k.ready := OrdSet.mem_toList'.1 (List.mem_of_head? hmin)
    have hid : id ∈ events := inv.ready _ hmem
    obtain ⟨k'', hfold, h⟩ := bind_eq_ok.1 h
    simp only [pure_eq_ok, Sum.inl.injEq] at h
    subst h
    have start : KahnIn events { k with
        ready := k.ready.erase (key, id)
        dependents := k.dependents.erase id
        out := k.out ++ [id] } := by
      refine ⟨fun entry hentry => inv.ready entry (ExtTreeSet.mem_of_mem_erase hentry),
        fun d l hl => inv.dependents d l ?_, fun a ha => ?_⟩
      · dsimp only at hl
        rw [ExtTreeMap.getElem?_erase] at hl
        split at hl
        · simp at hl
        · exact hl
      · rcases List.mem_append.1 ha with ha | ha
        · exact inv.out a ha
        · exact List.mem_singleton.1 ha ▸ hid
    refine (foldlM_spec (I := fun _ => KahnIn events) (F := fun _ => True)
      (fun done dep acc acc' hdep hacc hstep => release_in ?_ hacc hstep)
      (fun _ _ _ _ _ _ _ => trivial) start).1 _ hfold
    cases hd : k.dependents[id]? with
    | none => simp [hd] at hdep
    | some l => exact inv.dependents id l hd dep (by simpa [hd] using hdep)

theorem reverseTopologicalPowerOrder_subset
    (h : reverseTopologicalPowerOrder fetch fuel version events creators cache = .ok order) :
    ∀ id ∈ order, id ∈ events := by
  rw [reverseTopologicalPowerOrder, bind_eq_ok] at h
  obtain ⟨⟨tables, cache'⟩, htables, h⟩ := h
  obtain ⟨ready, hready, h⟩ := bind_eq_ok.1 h
  have tablesIn : TablesIn events tables.pending tables.dependents :=
    (foldlM_spec (I := fun _ (acc : PowerTables × ChainCache) =>
        TablesIn events acc.1.pending acc.1.dependents) (F := fun _ => True)
      (fun _ id _ _ hid inv hstep => tabulate_in (OrdSet.mem_toList'.1 hid) inv hstep)
      (fun _ _ _ _ _ _ _ => trivial) ⟨by simp, by simp⟩).1 _ htables
  have readyIn : ∀ entry ∈ ready, entry.2 ∈ events := by
    refine (foldlM_spec (I := fun _ (ready : OrdSet (SortKey × EventId)) =>
        ∀ entry ∈ ready, entry.2 ∈ events) (F := fun _ => True)
      (fun done p acc acc' hp inv hstep => ?_) (fun _ _ _ _ _ _ _ => trivial) (by simp)).1 _ hready
    obtain ⟨id, deps⟩ := p
    have hid : id ∈ events := tablesIn.pending id (OrdMap.mem_iff_getElem?.2 ⟨deps, OrdMap.mem_toList.1 hp⟩)
    dsimp only at hstep
    split at hstep
    · split at hstep
      · obtain rfl := Except.ok.inj hstep
        intro entry hentry
        rcases OrdSet.mem_insert'.1 hentry with rfl | hentry
        · exact hid
        · exact inv entry hentry
      · simp at hstep
    · obtain rfl := Except.ok.inj hstep
      exact inv
  refine (run_result (I := KahnIn events) (Q := fun out => ∀ id ∈ out, id ∈ events)
    (F := fun _ => True) (fun _ _ inv hround => kahnRound_in inv hround)
    (fun k out inv hround => ?_) (fun _ _ _ _ => trivial) fuel _
    ⟨readyIn, tablesIn.dependents, by simp⟩).1 order h
  unfold kahnRound at hround
  split at hround
  · simp only [Except.ok.injEq, Sum.inr.injEq] at hround
    exact hround ▸ inv.out
  · obtain ⟨_, _, hround⟩ := bind_eq_ok.1 hround
    simp [pure_eq_ok] at hround

theorem placeAll_subset {mainline : OrdMap EventId Nat} {remaining : List EventId}
    {ordered : List Placed} (h : placeAll fetch fuel mainline remaining = .ok ordered) :
    ∀ p ∈ ordered, p.2.2 ∈ remaining := by
  rw [placeAll, bind_eq_ok] at h
  obtain ⟨⟨placed, cache⟩, hfold, h⟩ := h
  obtain rfl := pure_eq_ok.1 h
  refine (foldlM_spec (I := fun _ (acc : List Placed × OrdMap EventId Nat) =>
      ∀ p ∈ acc.1, p.2.2 ∈ remaining) (F := fun _ => True)
    (fun done id acc acc' hid inv hstep => ?_) (fun _ _ _ _ _ _ _ => trivial) (by simp)).1 _ hfold
  simp only [bind_eq_ok] at hstep
  obtain ⟨e, _, ⟨pos, cache'⟩, _, hstep⟩ := hstep
  obtain rfl := pure_eq_ok.1 hstep
  intro p hp
  rcases List.mem_append.1 hp with hp | hp
  · exact inv p hp
  · exact List.mem_singleton.1 hp ▸ hid

/-! ## The result -/

theorem iterativeAuthChecks_values
    {initial result : StateIds} (h : iterativeAuthChecks ruma fetch version order initial = .ok result)
    (hv : result[key]? = some v) :
    (∃ key : Key, initial[key]? = some v) ∨ (v ∈ order ∧ (fetch v).isSome) := by
  refine (foldlM_spec (I := fun _ (state : StateIds) => ∀ (key : Key) v, state[key]? = some v →
      (∃ key : Key, initial[key]? = some v) ∨ (v ∈ order ∧ (fetch v).isSome))
    (F := fun _ => True) (fun done id acc acc' hid inv hstep => ?_)
    (fun _ _ _ _ _ _ _ => trivial) (fun key v hv => .inl ⟨key, hv⟩)).1 _ h key v hv
  simp only [iterativeAuthCheck, bind_eq_ok] at hstep
  obtain ⟨e, he, effective, _, hstep⟩ := hstep
  split at hstep
  · obtain rfl := pure_eq_ok.1 hstep
    intro key v hv
    rw [OrdMap.getElem?_insert'] at hv
    split at hv
    · obtain rfl := Option.some.inj hv
      exact .inr ⟨hid, by simp [require_eq_ok.1 he]⟩
    · exact inv key v hv
  · obtain rfl := pure_eq_ok.1 hstep
    exact inv

theorem resolveConflicted_values {unconflicted : StateIds} {full : OrdSet EventId}
    (h : resolveConflicted ruma fetch fuel version unconflicted full creators cache = .ok result)
    (hv : result[key]? = some v) :
    (∃ key : Key, unconflicted[key]? = some v) ∨ (v ∈ full ∧ (fetch v).isSome) := by
  simp only [resolveConflicted, bind_eq_ok] at h
  obtain ⟨⟨power, cache'⟩, hpower, sorted, hsorted, partialState, hpartial, mainline, _, ordered,
    hordered, resolved, hresolved, h⟩ := h
  obtain rfl := pure_eq_ok.1 h
  rcases OrdMap.foldl_insert_cases Prod.fst Prod.snd unconflicted.toList resolved key with
    ⟨e, he, hk, hval⟩ | ⟨_, hval⟩
  · obtain rfl := some_unique hval hv
    exact .inl ⟨e.1, OrdMap.mem_toList.1 he⟩
  · rcases iterativeAuthChecks_values hresolved (hval.symm.trans hv) with ⟨key', hkey'⟩ | ⟨hin, hheld⟩
    · rcases iterativeAuthChecks_values hpartial hkey' with ⟨key'', hkey''⟩ | ⟨hin, hheld⟩
      · split at hkey''
        · exact .inl ⟨key'', hkey''⟩
        · simp at hkey''
      · exact .inr ⟨powerSet_subset hpower v
          (reverseTopologicalPowerOrder_subset hsorted v hin), hheld⟩
    · obtain ⟨p, hp, rfl⟩ := List.mem_map.1 hin
      have hrem := placeAll_subset hordered p ((List.mem_insertionSort _).1 hp)
      exact .inr ⟨OrdSet.mem_toList'.1 (List.mem_of_mem_filter hrem), hheld⟩

theorem resolve_values {P : EventId → Prop} (pass : PassedOn fetch P) (hsets : ∀ id, ValueOf sets id → P id)
    (h : resolve ruma version fetch fuel sets = .ok result)
    (hv : result[key]? = some v) : ValueOf sets v ∨ (P v ∧ (fetch v).isSome) := by
  obtain ⟨hagreed, hconflicted⟩ := partition_values sets
  unfold resolve at h
  split at h
  · obtain rfl := Except.ok.inj h
    simp at hv
  dsimp only at h
  split at h
  · obtain rfl := Except.ok.inj h
    exact .inl (hagreed key v hv)
  simp only [bind_eq_ok] at h
  obtain ⟨⟨chains, cache⟩, hchains, full, hfull, id, _, create, _, h⟩ := h
  rcases resolveConflicted_values h hv with ⟨key', hkey'⟩ | ⟨hin, hheld⟩
  · exact .inl (hagreed key' v hkey')
  · refine .inr ⟨fullConflictedSet_closed pass (fun a ha => hsets a (hconflicted a ha))
      (authDifference_closed pass hsets hchains) hfull v hin, hheld⟩

end Saltator.StateRes
