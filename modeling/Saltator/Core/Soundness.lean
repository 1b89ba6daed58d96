import Saltator.Core.Provenance

/-!
# Resolution is sound

* `mem_partition`: the partition in terms of the sets.
* `Resolution`: the steps of a resolution of conflicting sets, each as the code computed it.
* `fullConflictedSet_spec`: the full conflicted set in terms of the store.
* `resolution_sound`: agreed entries are kept, and every other entry of the result is the last event
  of the full conflicted set that was accepted for its key.
-/

namespace Saltator.StateRes

open Std Saltator.Graph Outcome Loop

variable {E : Type} [Event E] {fetch : EventId → Option E} {sets : List StateIds}

/-! ## The partition -/

/-- Every set maps `key` to `id`. -/
def Agreed (sets : List StateIds) (key : Key) (id : EventId) : Prop :=
  sets ≠ [] ∧ ∀ set ∈ sets, set[key]? = some id

/-- Some set maps a key to `id`, and not all do. -/
def Conflicted (sets : List StateIds) (id : EventId) : Prop :=
  ∃ set ∈ sets, ∃ key : Key, set[key]? = some id ∧ ¬ Agreed sets key id

def partitionKey (sets : List StateIds) (acc : StateIds × OrdSet EventId) (key : Key) :
    StateIds × OrdSet EventId :=
  match agreedValue sets key with
  | some value => (acc.1.insert key value, acc.2)
  | none => (acc.1, OrdSet.extend acc.2 (sets.filterMap fun s => s[key]?))

theorem partition_eq : partition sets = (allKeys sets).toList.foldl (partitionKey sets) (∅, ∅) := rfl

theorem partitionKeys_agreed (keys : List Key) (acc : StateIds × OrdSet EventId) (key : Key) :
    (keys.foldl (partitionKey sets) acc).1[key]? =
      if key ∈ keys then (agreedValue sets key).or acc.1[key]? else acc.1[key]? := by
  induction keys generalizing acc with
  | nil => simp
  | cons k keys ih =>
    rw [List.foldl_cons, ih]
    unfold partitionKey
    cases agreed : agreedValue sets k with
    | none =>
      by_cases hk : key = k
      · subst hk
        simp [agreed]
      · simp [hk]
    | some value =>
      simp only [OrdMap.getElem?_insert']
      by_cases hk : key = k
      · subst hk
        simp [agreed]
      · simp [hk]

theorem partitionKeys_conflicted (keys : List Key) (acc : StateIds × OrdSet EventId) (id : EventId) :
    id ∈ (keys.foldl (partitionKey sets) acc).2 ↔ id ∈ acc.2 ∨
      ∃ key ∈ keys, agreedValue sets key = none ∧ ∃ set ∈ sets, set[key]? = some id := by
  induction keys generalizing acc with
  | nil => simp
  | cons k keys ih =>
    rw [List.foldl_cons, ih]
    simp only [List.mem_cons, exists_eq_or_imp]
    unfold partitionKey
    cases agreed : agreedValue sets k with
    | some value => simp
    | none =>
      simp only [OrdSet.mem_extend, List.mem_filterMap, true_and, or_assoc]
      exact or_left_comm

theorem agreedValue_eq_none_of {key : Key} {set : StateIds} {id : EventId} (hset : set ∈ sets)
    (value : set[key]? = some id) : agreedValue sets key = none ↔ ¬ Agreed sets key id := by
  cases agreed : agreedValue sets key with
  | none =>
    have never : ¬ Agreed sets key id := fun h => by simp [agreedValue_eq_some.2 h] at agreed
    simp [never]
  | some v =>
    obtain ⟨nonempty, all⟩ := agreedValue_eq_some.1 agreed
    obtain rfl : v = id := some_unique (all set hset) value
    have agrees : Agreed sets key v := ⟨nonempty, all⟩
    simp [agrees]

theorem mem_partition : (∀ key id, (partition sets).1[key]? = some id ↔ Agreed sets key id) ∧
      ∀ id, id ∈ (partition sets).2 ↔ Conflicted sets id := by
  rw [partition_eq]
  constructor
  · intro key id
    rw [partitionKeys_agreed, Agreed, ← agreedValue_eq_some]
    split
    · simp
    · rename_i unknown
      simp only [ExtTreeMap.getElem?_empty, reduceCtorEq, false_iff]
      intro agreed
      obtain ⟨nonempty, all⟩ := agreedValue_eq_some.1 agreed
      obtain ⟨set, hset⟩ := List.exists_mem_of_ne_nil sets nonempty
      apply unknown
      rw [OrdSet.mem_toList', mem_allKeys]
      exact ⟨set, hset, OrdMap.mem_iff_getElem?.2 ⟨id, all set hset⟩⟩
  · intro id
    rw [partitionKeys_conflicted]
    constructor
    · rintro (h | ⟨key, _, disagree, set, hset, value⟩)
      · simp at h
      · exact ⟨set, hset, key, value, (agreedValue_eq_none_of hset value).1 disagree⟩
    · rintro ⟨set, hset, key, value, disagree⟩
      refine .inr ⟨key, ?_, (agreedValue_eq_none_of hset value).2 disagree, set, hset, value⟩
      rw [OrdSet.mem_toList', mem_allKeys]
      exact ⟨set, hset, OrdMap.mem_iff_getElem?.2 ⟨id, value⟩⟩

theorem partition_single (set : StateIds) : partition [set] = (set, ∅) := by
  have agreed : ∀ key id, Agreed [set] key id ↔ set[key]? = some id := by simp [Agreed]
  refine Prod.ext (ExtTreeMap.ext_getElem? fun key => Option.ext fun id => ?_) ?_
  · rw [mem_partition.1, agreed]
  · rw [ExtTreeSet.eq_empty_iff_forall_not_mem]
    intro id hid
    obtain ⟨s, hs, key, value, disagree⟩ := mem_partition.2 id |>.1 hid
    obtain rfl := List.mem_singleton.1 hs
    exact disagree ((agreed key id).2 value)

/-! ## The full conflicted set -/

/-- `id` is in the auth chain of some set and not of all. -/
def InAuthDifference (fetch : EventId → Option E) (sets : List StateIds) (id : EventId) : Prop :=
  (∃ set ∈ sets, InSetChain fetch set id) ∧ ∃ set ∈ sets, ¬ InSetChain fetch set id

/-- `id` lies on a path of auth events from one conflicted event to another. -/
def InConflictedSubgraph (fetch : EventId → Option E) (sets : List StateIds) (id : EventId) : Prop :=
  ∃ above below, Conflicted sets above ∧ Conflicted sets below ∧
    Relation.ReflTransGen (Edge (authGraph fetch)) above id ∧
    Relation.ReflTransGen (Edge (authGraph fetch)) id below

def InFullConflicted (fetch : EventId → Option E) (version : RoomVersion) (sets : List StateIds)
    (id : EventId) : Prop :=
  Conflicted sets id ∨ InAuthDifference fetch sets id ∨
    (version.stateRes = .v2_1 ∧ InConflictedSubgraph fetch sets id)

section FullConflicted

variable {conflicted : OrdSet EventId} {edges : OrdMap EventId (List EventId)}
  {T : EventId → Prop} {fuel : Nat}

theorem reachesPass_sound (recorded : ∀ (id : EventId) (l : List EventId), edges[id]? = some l →
      authGraph fetch id = some l)
    {reaches : OrdMap EventId Bool}
    (marks : ∀ a, marked reaches a → ∃ b, T b ∧ Relation.ReflTransGen (Edge (authGraph fetch)) a b) :
    ∀ a, marked (reachesPass edges reaches).1 a →
      ∃ b, T b ∧ Relation.ReflTransGen (Edge (authGraph fetch)) a b := by
  unfold reachesPass
  refine List.foldlRecOn (motive := fun acc : OrdMap EventId Bool × Bool => ∀ a, marked acc.1 a →
    ∃ b, T b ∧ Relation.ReflTransGen (Edge (authGraph fetch)) a b) edges.toList _ marks
    fun acc inv node hnode => ?_
  obtain ⟨reaches', changed⟩ := acc
  obtain ⟨id, auth⟩ := node
  dsimp only at inv ⊢
  split
  · rename_i fresh
    intro a ha
    rw [marked_insert, Bool.or_eq_true, decide_eq_true_eq] at ha
    obtain rfl | ha := ha
    · rw [Bool.and_eq_true, List.any_eq_true] at fresh
      obtain ⟨_, next, hnext, reached⟩ := fresh
      obtain ⟨b, hb, path⟩ := inv next reached
      have edge : Edge (authGraph fetch) a next :=
        ⟨auth, recorded a auth (OrdMap.mem_toList.1 hnode), hnext⟩
      exact ⟨b, hb, .head edge path⟩
    · exact inv a ha
  · exact inv

theorem reachesLoop_sound (recorded : ∀ (id : EventId) (l : List EventId), edges[id]? = some l →
      authGraph fetch id = some l) {reaches result : OrdMap EventId Bool}
    (marks : ∀ a, marked reaches a → ∃ b, T b ∧ Relation.ReflTransGen (Edge (authGraph fetch)) a b)
    (h : run .outOfFuel (reachesRound edges) fuel reaches = .ok result) :
    ∀ a, marked result a → ∃ b, T b ∧ Relation.ReflTransGen (Edge (authGraph fetch)) a b := by
  refine (run_result (I := fun r : OrdMap EventId Bool => ∀ a, marked r a →
      ∃ b, T b ∧ Relation.ReflTransGen (Edge (authGraph fetch)) a b)
    (Q := fun r : OrdMap EventId Bool => ∀ a, marked r a →
      ∃ b, T b ∧ Relation.ReflTransGen (Edge (authGraph fetch)) a b)
    (F := fun _ => True) (fun r r' inv hround => ?_) (fun r r' inv hround => ?_)
    (fun _ _ _ _ => trivial) fuel _ marks).1 result h
  all_goals
    simp only [reachesRound, Except.ok.injEq] at hround
    split at hround
  · exact Sum.inl.inj hround ▸ reachesPass_sound recorded inv
  · simp at hround
  · simp at hround
  · exact Sum.inr.inj hround ▸ reachesPass_sound recorded inv

theorem conflictedSubgraph_sound {subgraph : OrdSet EventId}
    (h : conflictedSubgraph fetch fuel conflicted = .ok subgraph) : ∀ id ∈ subgraph,
    ∃ above ∈ conflicted, ∃ below ∈ conflicted,
      Relation.ReflTransGen (Edge (authGraph fetch)) above id ∧
      Relation.ReflTransGen (Edge (authGraph fetch)) id below := by
  rw [conflictedSubgraph, bind_eq_ok] at h
  obtain ⟨edges, hedges, h⟩ := h
  obtain ⟨reaches, hreaches, h⟩ := bind_eq_ok.1 h
  obtain rfl := pure_eq_ok.1 h
  have passed : PassedOn fetch fun id =>
      ∃ above ∈ conflicted, Relation.ReflTransGen (Edge (authGraph fetch)) above id := by
    rintro id e ⟨above, habove, path⟩ held a ha
    exact ⟨above, habove, path.tail ⟨_, by rw [authGraph, held]; rfl, ha⟩⟩
  have recorded := edgesWalk_spec passed
    (fun id hid => ⟨id, OrdSet.mem_toList'.1 (List.mem_reverse.1 hid), .refl⟩) hedges
  have marks := reachesLoop_sound (T := fun id => id ∈ conflicted)
    (fun id l hl => (recorded id l hl).2) (fun a ha => ?_) hreaches
  · intro id hid
    obtain hid | hid := OrdSet.mem_extend.1 hid
    · obtain ⟨known, reached⟩ := List.mem_filter.1 hid
      obtain ⟨auth, hauth⟩ := OrdMap.mem_iff_getElem?.1 (ExtTreeMap.mem_keys.1 known)
      obtain ⟨⟨above, habove, path⟩, held⟩ := recorded id auth hauth
      rw [Bool.or_eq_true] at reached
      obtain itself | next := reached
      · exact ⟨above, habove, id, ExtTreeSet.contains_iff_mem.1 itself, path, .refl⟩
      · rw [hauth, Option.getD_some, List.any_eq_true] at next
        obtain ⟨a, ha, reached⟩ := next
        obtain ⟨below, hbelow, down⟩ := marks a reached
        exact ⟨above, habove, below, hbelow, path, .head ⟨auth, held, ha⟩ down⟩
    · simp at hid
  · refine ⟨a, ?_, .refl⟩
    unfold marked at ha
    obtain ⟨k, _, rfl, value⟩ | ⟨_, value⟩ := OrdMap.foldl_insert_cases
      (fun k => k) (fun k => conflicted.contains k) edges.keys ∅ a
    · rw [value] at ha
      exact ExtTreeSet.contains_iff_mem.1 ha
    · simp [value] at ha

theorem fullConflictedSet_spec {version : RoomVersion} {full : OrdSet EventId}
    {chains : List (OrdSet EventId)} {cache : ChainCache}
    (hchains : setChains fetch fuel sets = .ok (chains, cache))
    (h : fullConflictedSet fetch fuel version (partition sets).2 (authDifference chains) = .ok full) :
    ∀ id ∈ full, InFullConflicted fetch version sets id := by
  have base : ∀ id ∈ OrdSet.extend (partition sets).2 (authDifference chains).toList,
      InFullConflicted fetch version sets id := by
    intro id hid
    obtain hid | hid := OrdSet.mem_extend.1 hid
    · obtain ⟨_, complete, _⟩ := (setChains_spec sets fuel).1 _ hchains
      exact .inr (.inl ((mem_authDifference_of complete).1 (OrdSet.mem_toList'.1 hid)))
    · exact .inl ((mem_partition.2 id).1 hid)
  unfold fullConflictedSet at h
  dsimp only at h
  split at h
  · rename_i v2_1
    obtain ⟨subgraph, hsub, h⟩ := bind_eq_ok.1 h
    obtain rfl := pure_eq_ok.1 h
    intro id hid
    obtain hid | hid := OrdSet.mem_extend.1 hid
    · obtain ⟨above, habove, below, hbelow, up, down⟩ :=
        conflictedSubgraph_sound hsub id (OrdSet.mem_toList'.1 hid)
      exact .inr (.inr ⟨v2_1, above, below, (mem_partition.2 above).1 habove,
        (mem_partition.2 below).1 hbelow, up, down⟩)
    · exact base id hid
  · obtain rfl := pure_eq_ok.1 h
    exact base

end FullConflicted

/-! ## Accepted events -/

section Checks

variable {ruma : Ruma} {version : RoomVersion} {id : EventId} {initial result : StateIds}
  {working : StateIds}

theorem effectiveState_spec {event : E} {effective : OrdMap Key E}
    (h : effectiveState ruma fetch version event working = .ok effective) (key : Key) :
    (key ∈ neededKeys version event →
      effectiveEntry ruma fetch version event working key = .ok effective[key]?) ∧
    (key ∉ neededKeys version event → effective[key]? = none) := by
  have inv := (foldlM_spec (I := fun done (effective : OrdMap Key E) => ∀ key,
      (key ∈ done → effectiveEntry ruma fetch version event working key = .ok effective[key]?) ∧
      (key ∉ done → effective[key]? = none)) (F := fun _ => True)
    (fun done k acc acc' _ inv step => ?_) (fun _ _ _ _ _ _ _ => trivial) (by simp)).1 _ h key
  · rwa [OrdSet.mem_toList'] at inv
  · obtain ⟨found, entry, step⟩ := bind_eq_ok.1 step
    intro key
    cases found with
    | none =>
      obtain rfl := pure_eq_ok.1 step
      have unset : acc[k]? = none := by
        by_cases seen : k ∈ done
        · simpa [entry] using (inv k).1 seen
        · exact (inv k).2 seen
      grind
    | some e =>
      obtain rfl := pure_eq_ok.1 step
      rw [OrdMap.getElem?_insert']
      grind

/-- `id` passes the auth rules over the working state, with its own auth events as fallback, and
its key is `key`. -/
def AcceptedOn (ruma : Ruma) (fetch : EventId → Option E) (version : RoomVersion)
    (working : StateIds) (id : EventId) (key : Key) : Prop :=
  ∃ event effective, fetch id = some event ∧ Event.key event = key ∧
    effectiveState ruma fetch version event working = .ok effective ∧
    Auth.checkStateDependent ruma version event (fun t sk => effective[(t, sk)]?) = .ok ()

theorem AcceptedOn.unique {key key' : Key} (h : AcceptedOn ruma fetch version working id key)
    (h' : AcceptedOn ruma fetch version working id key') : key = key' := by
  obtain ⟨event, _, held, rfl, _⟩ := h
  obtain ⟨event', _, held', rfl, _⟩ := h'
  obtain rfl := some_unique held held'
  rfl

theorem iterativeAuthCheck_cases {state state' : StateIds}
    (h : iterativeAuthCheck ruma fetch version state id = .ok state') :
    (∃ key, AcceptedOn ruma fetch version state id key ∧ state' = state.insert key id) ∨
      ((∀ key, ¬ AcceptedOn ruma fetch version state id key) ∧ state' = state) := by
  simp only [iterativeAuthCheck, bind_eq_ok] at h
  obtain ⟨event, held, effective, heffective, h⟩ := h
  rw [require_eq_ok] at held
  split at h
  · rename_i accepted
    exact .inl ⟨Event.key event, ⟨event, effective, held, rfl, heffective, accepted⟩, (pure_eq_ok.1 h).symm⟩
  · rename_i refused
    refine .inr ⟨fun key accepted => ?_, (pure_eq_ok.1 h).symm⟩
    obtain ⟨event', effective', held', -, heffective', accepted⟩ := accepted
    obtain rfl := some_unique held held'
    obtain rfl := ok_unique heffective heffective'
    simp [refused] at accepted

/-- `id` is accepted for `key` at its turn in `order`, and no later event is. -/
structure LastAccepted (ruma : Ruma) (fetch : EventId → Option E) (version : RoomVersion)
    (initial : StateIds) (order before after : List EventId) (id : EventId) (key : Key) : Prop where
  turn : order = before ++ id :: after
  accepted : ∃ working, iterativeAuthChecks ruma fetch version before initial = .ok working ∧
    AcceptedOn ruma fetch version working id key
  last : ∀ between later rest working, after = between ++ later :: rest →
    iterativeAuthChecks ruma fetch version (before ++ id :: between) initial = .ok working →
    ¬ AcceptedOn ruma fetch version working later key

theorem iterativeAuthChecks_append {before after : List EventId} :
    iterativeAuthChecks ruma fetch version (before ++ after) initial = .ok result ↔
      ∃ working, iterativeAuthChecks ruma fetch version before initial = .ok working ∧
        iterativeAuthChecks ruma fetch version after working = .ok result := by
  unfold iterativeAuthChecks
  rw [List.foldlM_append, bind_eq_ok]

theorem LastAccepted.extend {initial : StateIds} {order before after : List EventId}
    {id newest : EventId} {key : Key}
    (inv : LastAccepted ruma fetch version initial order before after id key)
    (displaced : ∀ working, iterativeAuthChecks ruma fetch version order initial = .ok working →
      ¬ AcceptedOn ruma fetch version working newest key) :
    LastAccepted ruma fetch version initial (order ++ [newest]) before (after ++ [newest]) id key := by
  refine ⟨by simp [inv.turn], inv.accepted, ?_⟩
  intro between later rest working split hworking
  obtain rfl | ⟨rest', last, rfl⟩ := List.eq_nil_or_concat rest
  · obtain ⟨rfl, same⟩ := List.append_inj' split rfl
    obtain rfl := List.singleton_inj.1 same
    exact displaced working (inv.turn ▸ hworking)
  · rw [List.concat_eq_append, ← List.cons_append, ← List.append_assoc] at split
    exact inv.last between later rest' working (List.append_inj' split rfl).1 hworking

theorem iterativeAuthChecks_last {order : List EventId}
    (h : iterativeAuthChecks ruma fetch version order initial = .ok result) {key : Key}
    (entry : result[key]? = some id) :
    (∃ before after, LastAccepted ruma fetch version initial order before after id key) ∨
      initial[key]? = some id := by
  induction order using List.reverseRecOn generalizing result with
  | nil =>
    obtain rfl := pure_eq_ok.1 h
    exact .inr entry
  | append_singleton order newest ih =>
    obtain ⟨working, hworking, step⟩ := iterativeAuthChecks_append.1 h
    replace step : iterativeAuthCheck ruma fetch version working newest = .ok result := by
      simpa [iterativeAuthChecks] using step
    obtain ⟨key', accepted, rfl⟩ | ⟨refused, rfl⟩ := iterativeAuthCheck_cases step
    · rw [OrdMap.getElem?_insert'] at entry
      split at entry
      · rename_i same
        subst same
        obtain rfl := Option.some.inj entry
        exact .inl ⟨order, [], rfl, ⟨working, hworking, accepted⟩, by simp⟩
      · rename_i other
        obtain ⟨before, after, inv⟩ | unchanged := ih hworking entry
        · refine .inl ⟨before, after ++ [newest], inv.extend fun working' hworking' displaced => ?_⟩
          obtain rfl := ok_unique hworking hworking'
          exact other (displaced.unique accepted)
        · exact .inr unchanged
    · obtain ⟨before, after, inv⟩ | unchanged := ih hworking entry
      · refine .inl ⟨before, after ++ [newest], inv.extend fun working' hworking' displaced => ?_⟩
        obtain rfl := ok_unique hworking hworking'
        exact refused key displaced
      · exact .inr unchanged

end Checks

/-! ## The steps of a resolution -/

def initialState (version : RoomVersion) (sets : List StateIds) : StateIds :=
  match version.stateRes with
  | .v2 => (partition sets).1
  | .v2_1 => ∅

structure Resolution (ruma : Ruma) (version : RoomVersion) (fetch : EventId → Option E) (fuel : Nat)
    (sets : List StateIds) where
  chains : List (OrdSet EventId)
  cache : ChainCache
  chains_eq : setChains fetch fuel sets = .ok (chains, cache)
  full : OrdSet EventId
  full_eq : fullConflictedSet fetch fuel version (partition sets).2 (authDifference chains) = .ok full
  create : E
  create_eq : (createId (partition sets).1 sets >>= require fetch) = .ok create
  power : OrdSet EventId
  powerCache : ChainCache
  power_eq : powerSet fetch fuel full cache = .ok (power, powerCache)
  sortedPower : List EventId
  sortedPower_eq : reverseTopologicalPowerOrder fetch fuel version power
    (creators ruma version create) powerCache = .ok sortedPower
  partialState : StateIds
  partialState_eq :
    iterativeAuthChecks ruma fetch version sortedPower (initialState version sets) = .ok partialState
  mainline : OrdMap EventId Nat
  mainline_eq : buildMainline fetch fuel partialState[plKey]? = .ok mainline
  ordered : List Placed
  ordered_eq : placeAll fetch fuel mainline (full.toList.filter fun id => !power.contains id) = .ok ordered
  resolved : StateIds
  resolved_eq : iterativeAuthChecks ruma fetch version
    ((ordered.insertionSort fun a b => placedLe a b).map fun p => p.2.2) partialState = .ok resolved

namespace Resolution

variable {ruma : Ruma} {version : RoomVersion} {fuel : Nat} (r : Resolution ruma version fetch fuel sets)

def order : List EventId :=
  r.sortedPower ++ (r.ordered.insertionSort fun a b => placedLe a b).map fun p => p.2.2

def result : StateIds :=
  (partition sets).1.toList.foldl (fun resolved (k, v) => resolved.insert k v) r.resolved

theorem checks :
    iterativeAuthChecks ruma fetch version r.order (initialState version sets) = .ok r.resolved :=
  iterativeAuthChecks_append.2 ⟨r.partialState, r.partialState_eq, r.resolved_eq⟩

theorem full_spec : ∀ id ∈ r.full, InFullConflicted fetch version sets id :=
  fullConflictedSet_spec r.chains_eq r.full_eq

theorem order_subset : ∀ id ∈ r.order, id ∈ r.full := by
  intro id hid
  obtain hid | hid := List.mem_append.1 hid
  · exact powerSet_subset r.power_eq id (reverseTopologicalPowerOrder_subset r.sortedPower_eq id hid)
  · obtain ⟨p, hp, rfl⟩ := List.mem_map.1 hid
    have placed := placeAll_subset r.ordered_eq p ((List.mem_insertionSort _).1 hp)
    exact OrdSet.mem_toList'.1 (List.mem_of_mem_filter placed)

theorem result_cases (key : Key) : (∃ id, Agreed sets key id ∧ r.result[key]? = some id) ∨
    ((∀ id, ¬ Agreed sets key id) ∧ r.result[key]? = r.resolved[key]?) := by
  obtain ⟨entry, he, rfl, value⟩ | ⟨absent, value⟩ :=
    OrdMap.foldl_insert_cases Prod.fst Prod.snd (partition sets).1.toList r.resolved key
  · have agreed := OrdMap.mem_toList.1 he
    exact .inl ⟨entry.2, (mem_partition.1 _ _).1 agreed, value⟩
  · refine .inr ⟨fun id agreed => ?_, value⟩
    have entry := (mem_partition.1 _ _).2 agreed
    exact absent (key, id) (OrdMap.mem_toList.2 entry) rfl

end Resolution

section Resolved

variable {ruma : Ruma} {version : RoomVersion} {fuel : Nat} {result : StateIds}

theorem resolve_cases (h : resolve ruma version fetch fuel sets = .ok result) :
    ((∀ id, ¬ Conflicted sets id) ∧ result = (partition sets).1) ∨
      ∃ r : Resolution ruma version fetch fuel sets, result = r.result := by
  unfold resolve at h
  split at h
  · rename_i none
    obtain rfl := List.isEmpty_iff.1 none
    exact .inl ⟨by simp [Conflicted], (Except.ok.inj h).symm⟩
  dsimp only at h
  split at h
  · rename_i none
    refine .inl ⟨fun id conflicted => ?_, (Except.ok.inj h).symm⟩
    rw [← mem_partition.2, ExtTreeSet.isEmpty_iff.1 none] at conflicted
    simp at conflicted
  · obtain ⟨⟨chains, cache⟩, chains_eq, h⟩ := bind_eq_ok.1 h
    obtain ⟨full, full_eq, h⟩ := bind_eq_ok.1 h
    obtain ⟨id, id_eq, h⟩ := bind_eq_ok.1 h
    obtain ⟨create, create_eq, h⟩ := bind_eq_ok.1 h
    unfold resolveConflicted at h
    obtain ⟨⟨power, powerCache⟩, power_eq, h⟩ := bind_eq_ok.1 h
    obtain ⟨sortedPower, sortedPower_eq, h⟩ := bind_eq_ok.1 h
    obtain ⟨partialState, partialState_eq, h⟩ := bind_eq_ok.1 h
    obtain ⟨mainline, mainline_eq, h⟩ := bind_eq_ok.1 h
    obtain ⟨ordered, ordered_eq, h⟩ := bind_eq_ok.1 h
    obtain ⟨resolved, resolved_eq, h⟩ := bind_eq_ok.1 h
    exact .inr ⟨⟨chains, cache, chains_eq, full, full_eq, create,
      bind_eq_ok.2 ⟨id, id_eq, create_eq⟩, power, powerCache, power_eq, sortedPower, sortedPower_eq,
      partialState, partialState_eq, mainline, mainline_eq, ordered, ordered_eq, resolved,
      resolved_eq⟩, (pure_eq_ok.1 h).symm⟩

theorem resolve_single (ruma : Ruma) (version : RoomVersion) (fetch : EventId → Option E)
    (fuel : Nat) (set : StateIds) : resolve ruma version fetch fuel [set] = .ok set := by
  simp [resolve, partition_single]

theorem Resolution.keeps_agreed (r : Resolution ruma version fetch fuel sets) {key : Key}
    {id : EventId} (agreed : Agreed sets key id) : r.result[key]? = some id := by
  obtain ⟨id', agreed', value⟩ | ⟨never, _⟩ := r.result_cases key
  · obtain ⟨set, hset⟩ := List.exists_mem_of_ne_nil sets agreed.1
    rw [value, ← agreed.2 set hset, agreed'.2 set hset]
  · exact absurd agreed (never id)

theorem Resolution.others_accepted (r : Resolution ruma version fetch fuel sets) {key : Key}
    {id : EventId} (entry : r.result[key]? = some id) (other : ¬ Agreed sets key id) :
    ∃ before after,
      LastAccepted ruma fetch version (initialState version sets) r.order before after id key := by
  obtain ⟨id', agreed, value⟩ | ⟨never, value⟩ := r.result_cases key
  · obtain rfl := some_unique value entry
    exact absurd agreed other
  · obtain last | initial := iterativeAuthChecks_last r.checks (value ▸ entry)
    · exact last
    · unfold initialState at initial
      split at initial
      · exact absurd ((mem_partition.1 key id).1 initial) (never id)
      · simp at initial

/-- **Resolution is sound.** One map resolves to itself. A resolution that succeeds keeps what all
maps agree on, and every other entry of its result is an event of the full conflicted set that the
auth rules accepted at its turn, over the working state of that moment, with no later event of the
two passes accepted for the same key. -/
theorem resolution_sound (ruma : Ruma) (version : RoomVersion) (fetch : EventId → Option E) (fuel : Nat) :
    (∀ set, resolve ruma version fetch fuel [set] = .ok set) ∧
    ∀ sets result, resolve ruma version fetch fuel sets = .ok result →
      (∀ key id, Agreed sets key id → result[key]? = some id) ∧
      ∀ key id, result[key]? = some id → ¬ Agreed sets key id →
        ∃ r : Resolution ruma version fetch fuel sets, result = r.result ∧
          InFullConflicted fetch version sets id ∧
          ∃ before after, LastAccepted ruma fetch version (initialState version sets) r.order
            before after id key := by
  refine ⟨resolve_single ruma version fetch fuel, fun sets result h => ?_⟩
  obtain ⟨_, rfl⟩ | ⟨r, rfl⟩ := resolve_cases h
  · exact ⟨fun key id => (mem_partition.1 key id).2,
      fun key id entry other => absurd ((mem_partition.1 key id).1 entry) other⟩
  · refine ⟨fun key id => r.keeps_agreed, fun key id entry other => ?_⟩
    obtain ⟨before, after, last⟩ := r.others_accepted entry other
    have inFull : id ∈ r.full := r.order_subset id (by simp [last.turn])
    exact ⟨r, rfl, r.full_spec id inFull, before, after, last⟩

end Resolved

/-- The newer of the two conflicting topics wins: it was accepted last. -/
theorem resolution_sound_topics : ∃ result,
    resolve Ruma.sample .v11 sampleFetch 100 [sampleState "$t", sampleState "$u"] = .ok result ∧
    result[createKey]? = some "$c" ∧
    ∃ r : Resolution Ruma.sample .v11 sampleFetch 100 [sampleState "$t", sampleState "$u"],
      InFullConflicted sampleFetch .v11 [sampleState "$t", sampleState "$u"] "$u" ∧
      ∃ before after, LastAccepted Ruma.sample sampleFetch .v11
        (initialState .v11 [sampleState "$t", sampleState "$u"]) r.order before after "$u"
        ("m.room.topic", "") := by
  have entry : ((resolve Ruma.sample .v11 sampleFetch 100
      [sampleState "$t", sampleState "$u"]).toOption.bind fun result =>
        result[("m.room.topic", "")]?) = some "$u" := by decide +kernel
  obtain ⟨result, h, entry⟩ := Option.bind_eq_some_iff.1 entry
  rw [toOption_eq_some] at h
  have named : ∀ topic, (sampleState topic)[createKey]? = some "$c" ∧
      (sampleState topic)[("m.room.topic", "")]? = some topic := fun _ => by
    simp only [sampleState, createKey, OrdMap.getElem?_insert']
    simp
  obtain ⟨kept, accepted⟩ := (resolution_sound Ruma.sample .v11 sampleFetch 100).2 _ _ h
  have other : ¬ Agreed [sampleState "$t", sampleState "$u"] ("m.room.topic", "") "$u" := by
    simp [Agreed, named]
  obtain ⟨r, _, full, last⟩ := accepted _ _ entry other
  refine ⟨result, h, kept _ _ ⟨by simp, ?_⟩, r, full, last⟩
  simp [named]

end Saltator.StateRes
