import Saltator.Core.Termination

/-!
# Resolution does not depend on how the state sets are presented

Two lists of state sets with the same members, so in particular a permutation of a list or the list
with some maps repeated, resolve to the same state. The partition and the auth difference depend on
the members alone, and every later step works on ordered sets. The one thing that differs between
two presentations is the auth-chain cache, and `authChain_alike` says that it does not matter.
-/

namespace Saltator.StateRes

open Std Saltator.Graph Outcome Loop

variable {E : Type} [Event E] {fetch : EventId → Option E} {sets sets' : List StateIds}
  {chains : List (OrdSet EventId)}

/-! ## Partition -/

theorem mem_allKeys {key : Key} : key ∈ allKeys sets ↔ ∃ s ∈ sets, key ∈ s := by
  suffices general : ∀ keys : OrdSet Key,
      key ∈ sets.foldl (fun keys set => OrdSet.extend keys set.keys) keys ↔
        key ∈ keys ∨ ∃ s ∈ sets, key ∈ s by
    simpa [allKeys] using general ∅
  induction sets with
  | nil => simp
  | cons s sets ih =>
    intro keys
    rw [List.foldl_cons, ih, OrdSet.mem_extend, ExtTreeMap.mem_keys]
    simp only [List.mem_cons, exists_eq_or_imp]
    tauto

theorem agreedValue_eq_some {key : Key} {v : EventId} :
    agreedValue sets key = some v ↔ sets ≠ [] ∧ ∀ s ∈ sets, s[key]? = some v := by
  cases sets with
  | nil => simp [agreedValue]
  | cons first rest =>
    simp only [agreedValue, Option.filter_eq_some_iff, List.all_eq_true, beq_iff_eq]
    constructor
    · rintro ⟨hv, hall⟩
      exact ⟨by simp, fun s hs => (hall s hs).trans hv⟩
    · rintro ⟨_, hall⟩
      have hv := hall first (by simp)
      exact ⟨hv, fun s hs => (hall s hs).trans hv.symm⟩

section Presented

variable (same : ∀ s, s ∈ sets ↔ s ∈ sets')
include same

theorem nil_congr : sets = [] ↔ sets' = [] := by
  simp only [List.eq_nil_iff_forall_not_mem, same]

theorem agreedValue_congr : agreedValue sets = agreedValue sets' := by
  funext key
  refine Option.ext fun v => ?_
  rw [agreedValue_eq_some, agreedValue_eq_some]
  exact and_congr (not_congr (nil_congr same)) (forall_congr' fun s => imp_congr_left (same s))

theorem partition_congr : partition sets = partition sets' := by
  have hkeys : allKeys sets = allKeys sets' :=
    ExtTreeSet.ext_mem fun key => by simp only [mem_allKeys, same]
  have hvalues : ∀ (conflicted : OrdSet EventId) (key : Key),
      OrdSet.extend conflicted (sets.filterMap fun s => s[key]?) =
        OrdSet.extend conflicted (sets'.filterMap fun s => s[key]?) := fun conflicted key =>
    ExtTreeSet.ext_mem fun a => by simp only [OrdSet.mem_extend, List.mem_filterMap, same]
  unfold partition
  simp only [hkeys, agreedValue_congr same, hvalues]

def CreateAgrees (sets : List StateIds) : Prop :=
  ∀ s ∈ sets, ∀ t ∈ sets, ∀ a b, s[createKey]? = some a → t[createKey]? = some b → a = b

theorem findCreate_congr (agree : CreateAgrees sets) :
    (sets.findSome? fun s => s[createKey]?) = sets'.findSome? fun s => s[createKey]? := by
  cases h : sets.findSome? fun s => s[createKey]? with
  | none =>
    rw [List.findSome?_eq_none_iff] at h
    exact (List.findSome?_eq_none_iff.2 fun s hs => h s ((same s).2 hs)).symm
  | some a =>
    obtain ⟨s, hs, ha⟩ := List.exists_of_findSome?_eq_some h
    cases h' : sets'.findSome? fun s => s[createKey]? with
    | none =>
      rw [List.findSome?_eq_none_iff] at h'
      simp [h' s ((same s).1 hs)] at ha
    | some b =>
      obtain ⟨t, ht, hb⟩ := List.exists_of_findSome?_eq_some h'
      rw [agree s hs t ((same t).2 ht) a b ha hb]

theorem createId_congr (agree : CreateAgrees sets) (unconflicted : StateIds) :
    createId unconflicted sets = createId unconflicted sets' := by
  unfold createId
  rw [findCreate_congr same agree]

end Presented

/-! ## The auth difference -/

/-- Every value of the set has its whole auth chain in the store. -/
def SetComplete (fetch : EventId → Option E) (set : StateIds) : Prop :=
  ∀ id ∈ set.vals, Complete (authGraph fetch) id

/-- `a` is in the auth chain of some value of the set. -/
def InSetChain (fetch : EventId → Option E) (set : StateIds) (a : EventId) : Prop :=
  ∃ id ∈ set.vals, Below (authGraph fetch) id a

/-- `chain` is the full auth chain of the set. -/
def IsSetChain (fetch : EventId → Option E) (set : StateIds) (chain : OrdSet EventId) : Prop :=
  ∀ a, a ∈ chain ↔ InSetChain fetch set a

theorem setChain_spec {cache : ChainCache} (hcache : Coherent fetch cache) (set : StateIds) (fuel : Nat) :
    (∀ r, setChain fetch fuel set cache = .ok r →
      SetComplete fetch set ∧ IsSetChain fetch set r.1 ∧ Coherent fetch r.2) ∧
    (∀ err, setChain fetch fuel set cache = .error err → err = .outOfFuel ∨ ¬ SetComplete fetch set) := by
  refine foldlM_spec
    (I := fun done (acc : OrdSet EventId × ChainCache) =>
      (∀ id ∈ done, Complete (authGraph fetch) id) ∧
      (∀ a, a ∈ acc.1 ↔ ∃ id ∈ done, Below (authGraph fetch) id a) ∧ Coherent fetch acc.2)
    (F := fun err => err = StateResError.outOfFuel ∨ ¬ SetComplete fetch set)
    (fun done id acc acc' _ inv h => ?_) (fun done id acc err hid inv h => ?_)
    ⟨by simp, by simp, hcache⟩
  · obtain ⟨hdone, hmem, hco⟩ := inv
    obtain ⟨⟨more, cache'⟩, hchain, h⟩ := bind_eq_ok.1 h
    rw [pure_eq_ok] at h
    subst h
    obtain ⟨hcomplete, hmore, hco'⟩ := (authChain_spec hco fuel).1 more cache' hchain
    refine ⟨fun a ha => ?_, fun a => ?_, hco'⟩
    · rcases List.mem_append.1 ha with ha | ha
      · exact hdone a ha
      · exact List.mem_singleton.1 ha ▸ hcomplete
    · rw [OrdSet.mem_extend, OrdSet.mem_toList', hmem, hmore]
      simp only [List.mem_append, List.mem_singleton, or_and_right, exists_or, exists_eq_left]
      exact or_comm
  · rcases bind_eq_error.1 h with h | ⟨r, _, h⟩
    · exact ((authChain_spec inv.2.2 fuel).2 err h).imp_right fun hn hset => hn (hset id hid)
    · simp [pure, Except.pure] at h

/-- `chains` are the full auth chains of `sets`. -/
def ChainsOf (fetch : EventId → Option E) (sets : List StateIds) (chains : List (OrdSet EventId)) : Prop :=
  (∀ s ∈ sets, ∃ c ∈ chains, IsSetChain fetch s c) ∧ ∀ c ∈ chains, ∃ s ∈ sets, IsSetChain fetch s c

theorem setChains_spec (sets : List StateIds) (fuel : Nat) : (∀ r, setChains fetch fuel sets = .ok r →
      (∀ s ∈ sets, SetComplete fetch s) ∧ ChainsOf fetch sets r.1 ∧ Coherent fetch r.2) ∧
    (∀ err, setChains fetch fuel sets = .error err →
      err = .outOfFuel ∨ ¬ ∀ s ∈ sets, SetComplete fetch s) := by
  refine foldlM_spec
    (I := fun done (acc : List (OrdSet EventId) × ChainCache) =>
      (∀ s ∈ done, SetComplete fetch s) ∧ ChainsOf fetch done acc.1 ∧ Coherent fetch acc.2)
    (F := fun err => err = StateResError.outOfFuel ∨ ¬ ∀ s ∈ sets, SetComplete fetch s)
    (fun done set acc acc' _ inv h => ?_) (fun done set acc err hset inv h => ?_)
    ⟨by simp, ⟨by simp, by simp⟩, coherent_empty⟩
  · obtain ⟨hdone, ⟨hto, hfrom⟩, hco⟩ := inv
    obtain ⟨⟨chain, cache'⟩, hchain, h⟩ := bind_eq_ok.1 h
    rw [pure_eq_ok] at h
    subst h
    obtain ⟨hcomplete, hsc, hco'⟩ := (setChain_spec hco set fuel).1 _ hchain
    refine ⟨fun s hs => ?_, ⟨fun s hs => ?_, fun c hc => ?_⟩, hco'⟩
    · rcases List.mem_append.1 hs with hs | hs
      · exact hdone s hs
      · exact List.mem_singleton.1 hs ▸ hcomplete
    · rcases List.mem_append.1 hs with hs | hs
      · obtain ⟨c, hc, hsc⟩ := hto s hs
        exact ⟨c, by simp [hc], hsc⟩
      · exact ⟨chain, by simp, List.mem_singleton.1 hs ▸ hsc⟩
    · rcases List.mem_append.1 hc with hc | hc
      · obtain ⟨s, hs, hsc⟩ := hfrom c hc
        exact ⟨s, by simp [hs], hsc⟩
      · exact ⟨set, by simp, List.mem_singleton.1 hc ▸ hsc⟩
  · rcases bind_eq_error.1 h with h | ⟨r, _, h⟩
    · exact ((setChain_spec inv.2.2 set fuel).2 err h).imp_right fun hn hsets => hn (hsets set hset)
    · simp [pure, Except.pure] at h

theorem mem_authDifference {a : EventId} :
    a ∈ authDifference chains ↔ (∃ c ∈ chains, a ∈ c) ∧ ∃ c ∈ chains, a ∉ c := by
  have hunion : ∀ (l : List (OrdSet EventId)) (u : OrdSet EventId),
      a ∈ l.foldl (fun union chain => OrdSet.extend union chain.toList) u ↔ a ∈ u ∨ ∃ c ∈ l, a ∈ c := by
    intro l
    induction l with
    | nil => simp
    | cons c l ih =>
      intro u
      rw [List.foldl_cons, ih, OrdSet.mem_extend, OrdSet.mem_toList']
      simp only [List.mem_cons, exists_eq_or_imp]
      tauto
  unfold authDifference
  rw [OrdSet.mem_filter', hunion]
  simp

theorem mem_authDifference_of (h : ChainsOf fetch sets chains) {a : EventId} : a ∈ authDifference chains ↔
      (∃ s ∈ sets, InSetChain fetch s a) ∧ ∃ s ∈ sets, ¬ InSetChain fetch s a := by
  rw [mem_authDifference]
  refine and_congr ⟨?_, ?_⟩ ⟨?_, ?_⟩
  · rintro ⟨c, hc, ha⟩
    obtain ⟨s, hs, hsc⟩ := h.2 c hc
    exact ⟨s, hs, (hsc a).1 ha⟩
  · rintro ⟨s, hs, ha⟩
    obtain ⟨c, hc, hsc⟩ := h.1 s hs
    exact ⟨c, hc, (hsc a).2 ha⟩
  · rintro ⟨c, hc, ha⟩
    obtain ⟨s, hs, hsc⟩ := h.2 c hc
    exact ⟨s, hs, fun hin => ha ((hsc a).2 hin)⟩
  · rintro ⟨s, hs, ha⟩
    obtain ⟨c, hc, hsc⟩ := h.1 s hs
    exact ⟨c, hc, fun hin => ha ((hsc a).1 hin)⟩

section Alike

variable (wf : WellFounded fun b a => Edge (authGraph fetch) a b) {cache cache' : ChainCache}
include wf

theorem setChains_settles (sets : List StateIds) :
    Settles .outOfFuel (fun fuel => setChains fetch fuel sets) := by
  refine .foldlM sets (fun set _ acc => .bind (.foldlM set.vals (fun id _ inner => ?_) _)
    fun _ => .const (by simp [pure, Except.pure])) _
  exact .bind (authChain_settles wf id inner.2) fun _ => .const (by simp [pure, Except.pure])

theorem setChains_alike (same : ∀ s, s ∈ sets ↔ s ∈ sets') : Alike .outOfFuel
      (fun x y => authDifference x.1 = authDifference y.1 ∧ Coherent fetch x.2 ∧ Coherent fetch y.2)
      (fun fuel => setChains fetch fuel sets) (fun fuel => setChains fetch fuel sets') := by
  refine .of_spec (C := ∀ s ∈ sets, SetComplete fetch s)
    (P := fun x => ChainsOf fetch sets x.1 ∧ Coherent fetch x.2)
    (Q := fun x => ChainsOf fetch sets' x.1 ∧ Coherent fetch x.2)
    (setChains_settles wf sets) (setChains_settles wf sets')
    (setChains_spec sets) (fun fuel => ?_) fun x y hx hy =>
      ⟨ExtTreeSet.ext_mem fun a => ?_, hx.2, hy.2⟩
  · simp only [same]
    exact setChains_spec sets' fuel
  · rw [mem_authDifference_of hx.1, mem_authDifference_of hy.1]
    simp only [same]

/-! ## The later steps -/

/-- Related by the same first component, with coherent caches. -/
def SameWithCaches {α : Type} (fetch : EventId → Option E) (x y : α × ChainCache) : Prop :=
  x.1 = y.1 ∧ Coherent fetch x.2 ∧ Coherent fetch y.2

theorem powerSet_alike (hc : Coherent fetch cache)
    (hc' : Coherent fetch cache') (full : OrdSet EventId) :
    Alike .outOfFuel (SameWithCaches fetch) (fun fuel => powerSet fetch fuel full cache)
      (fun fuel => powerSet fetch fuel full cache') := by
  refine .foldlM full.toList (fun id _ x y hxy => ?_) ⟨rfl, hc, hc'⟩
  obtain ⟨power, cx⟩ := x
  obtain ⟨_, cy⟩ := y
  obtain ⟨rfl, hx, hy⟩ := hxy
  refine .bind (.of_settles (fun _ => rfl) (.const require_ne_outOfFuel)) fun e _ he => ?_
  subst he
  split
  · refine .bind (authChain_alike wf hx hy id) fun r r' hr => .ok ⟨?_, hr.2⟩
    rw [hr.1]
  · exact .ok ⟨rfl, hx, hy⟩

theorem tabulate_alike (version : RoomVersion) (events : OrdSet EventId) (creators : OrdSet UserId)
    {x y : PowerTables × ChainCache} (hxy : SameWithCaches fetch x y) (id : EventId) :
    Alike .outOfFuel (SameWithCaches fetch) (fun fuel => tabulate fetch fuel version events creators x id)
      (fun fuel => tabulate fetch fuel version events creators y id) := by
  obtain ⟨tables, cx⟩ := x
  obtain ⟨_, cy⟩ := y
  obtain ⟨rfl, hx, hy⟩ := hxy
  refine .bind (.of_settles (fun _ => rfl) (.const require_ne_outOfFuel)) fun e _ he => ?_
  subst he
  refine .bind (.of_settles (fun _ => rfl) (.const (senderPowerAt_ne_outOfFuel version e creators)))
    fun power _ hp => ?_
  subst hp
  refine .bind (authChain_alike wf hx hy id) fun r r' hr => .ok ⟨?_, hr.2⟩
  rw [hr.1]

theorem reverseTopologicalPowerOrder_alike
    (hc : Coherent fetch cache) (hc' : Coherent fetch cache') (version : RoomVersion)
    (events : OrdSet EventId) (creators : OrdSet UserId) :
    Alike .outOfFuel Eq (fun fuel => reverseTopologicalPowerOrder fetch fuel version events creators cache)
      (fun fuel => reverseTopologicalPowerOrder fetch fuel version events creators cache') := by
  refine .bind (.foldlM events.toList (fun id _ x y hxy => tabulate_alike wf version events
    creators hxy id) ⟨rfl, hc, hc'⟩) fun x y hxy => ?_
  obtain ⟨tables, cx⟩ := x
  obtain ⟨_, cy⟩ := y
  obtain ⟨rfl, _, _⟩ := hxy
  refine .of_settles (fun _ => rfl) (.bind (.const (foldlM_ne_error (fun p _ ready => ?_) _))
    fun ready => kahn_settles _ _)
  dsimp only
  split
  · split <;> simp
  · simp

omit wf in
theorem iterativeAuthChecks_ne_outOfFuel (ruma : Ruma) (version : RoomVersion)
    (order : List EventId) (initial : StateIds) :
    iterativeAuthChecks ruma fetch version order initial ≠ .error .outOfFuel := by
  refine foldlM_ne_error (fun id _ state => bind_ne_error require_ne_outOfFuel fun e _ =>
    bind_ne_error (foldlM_ne_error (fun key _ effective => bind_ne_error ?_ fun found _ => ?_) _)
      fun effective _ => ?_) initial
  · unfold effectiveEntry
    split
    · rename_i existing _
      unfold require
      split <;> simp [Except.map]
    · split <;> simp
  · cases found <;> simp [pure, Except.pure]
  · split <;> simp [pure, Except.pure]

theorem resolveConflicted_alike (hc : Coherent fetch cache)
    (hc' : Coherent fetch cache') (ruma : Ruma) (version : RoomVersion) (unconflicted : StateIds)
    (full : OrdSet EventId) (creators : OrdSet UserId) :
    Alike .outOfFuel Eq
      (fun fuel => resolveConflicted ruma fetch fuel version unconflicted full creators cache)
      (fun fuel => resolveConflicted ruma fetch fuel version unconflicted full creators cache') := by
  refine .bind (powerSet_alike wf hc hc' full) fun x y hxy => ?_
  obtain ⟨power, cx⟩ := x
  obtain ⟨_, cy⟩ := y
  obtain ⟨rfl, hx, hy⟩ := hxy
  refine .bind (reverseTopologicalPowerOrder_alike wf hx hy version power creators)
    fun sorted _ hs => ?_
  subst hs
  -- From here on the two computations are the same, and it remains to see that they finish.
  refine .of_settles (fun _ => rfl) (.bind (.const (iterativeAuthChecks_ne_outOfFuel _ _ _ _))
    fun partialState => .bind (buildMainline_settles wf _) fun mainline =>
      .bind (placeAll_settles wf mainline _) fun ordered =>
        .bind (.const (iterativeAuthChecks_ne_outOfFuel _ _ _ _)) fun resolved => .const ?_)
  simp [pure, Except.pure]

theorem resolve_alike (ruma : Ruma) (version : RoomVersion) (same : ∀ s, s ∈ sets ↔ s ∈ sets')
    (agree : CreateAgrees sets) :
    Alike .outOfFuel Eq (fun fuel => resolve ruma version fetch fuel sets)
      (fun fuel => resolve ruma version fetch fuel sets') := by
  have hempty : sets.isEmpty = sets'.isEmpty := by
    rw [Bool.eq_iff_iff, List.isEmpty_iff, List.isEmpty_iff, nil_congr same]
  unfold resolve
  rw [← hempty, ← partition_congr same]
  split
  · exact .ok rfl
  dsimp only
  split
  · exact .ok rfl
  refine .bind (setChains_alike wf same) fun x y hxy => ?_
  obtain ⟨chains, cx⟩ := x
  obtain ⟨chains', cy⟩ := y
  obtain ⟨hdiff, hx, hy⟩ := hxy
  dsimp only at hdiff ⊢
  rw [← hdiff, ← createId_congr same agree]
  refine .bind (.of_settles (fun _ => rfl) (fullConflictedSet_settles wf version _ _))
    fun full _ hfull => ?_
  subst hfull
  have hcreate : createId (partition sets).1 sets ≠ .error .outOfFuel := by
    unfold createId
    split
    · simp
    · split <;> simp
  refine .bind (.of_settles (fun _ => rfl) (.const hcreate)) fun id _ hid => ?_
  subst hid
  refine .bind (.of_settles (fun _ => rfl) (.const require_ne_outOfFuel)) fun create _ he => ?_
  subst he
  exact resolveConflicted_alike wf hx hy ruma version _ _ _

end Alike

/-- **Presentation independence.** On a finite store without auth cycles, two lists of state sets
with the same members, all naming the same create event if they name one, resolve alike: both
computations finish, and they return the same state or both fail. -/
theorem resolve_presentation_independent (ruma : Ruma) (version : RoomVersion)
    (finite : {id | (fetch id).isSome}.Finite)
    (acyclic : ∀ id, ¬ Below (authGraph fetch) id id)
    (same : ∀ s, s ∈ sets ↔ s ∈ sets') (agree : CreateAgrees sets) :
    ∃ enough, ∀ fuel, enough ≤ fuel →
      resolve ruma version fetch fuel sets ≠ .error .outOfFuel ∧
      resolve ruma version fetch fuel sets' ≠ .error .outOfFuel ∧
      (resolve ruma version fetch fuel sets).toOption =
        (resolve ruma version fetch fuel sets').toOption := by
  obtain ⟨r, r', ⟨hr, n, hn⟩, ⟨hr', n', hn'⟩, hagree⟩ :=
    resolve_alike (authGraph_wellFounded finite acyclic) ruma version same agree
  refine ⟨max n n', fun fuel hfuel => ?_⟩
  have hleft : resolve ruma version fetch fuel sets = r := hn fuel (by omega)
  have hright : resolve ruma version fetch fuel sets' = r' := hn' fuel (by omega)
  rw [hleft, hright]
  exact ⟨hr, hr', hagree.toOption_eq⟩

def sampleEvents : List (EventId × JsonObject) :=
  [("$c", Ruma.sampleCreate), ("$j", Ruma.sampleJoin),
    ("$t", Ruma.samplePdu "t" "m.room.topic" (some "") "@a:x" [] ["$c", "$j"] ["$j"] 3),
    ("$u", Ruma.samplePdu "u" "m.room.topic" (some "") "@a:x" [] ["$c", "$j"] ["$j"] 4)]

def sampleFetch (id : EventId) : Option IdentifiedPdu :=
  (sampleEvents.lookup id).bind fun raw =>
    ((Pdu.fromCanonical Ruma.sample raw).toOption).map (IdentifiedPdu.mk id)

def sampleState (topic : EventId) : StateIds :=
  ((((∅ : StateIds).insert createKey "$c").insert ("m.room.member", "@a:x") "$j").insert
    ("m.room.topic", "") topic)

theorem sampleFetch_known {id : EventId} (h : (sampleFetch id).isSome) : id ∈ ["$c", "$j", "$t", "$u"] := by
  by_contra hid
  have : sampleEvents.lookup id = none := by
    rw [List.lookup_eq_none_iff]
    simp_all [sampleEvents]
  simp [sampleFetch, this] at h

theorem sampleFetch_finite : {id | (sampleFetch id).isSome}.Finite :=
  Set.Finite.subset (List.finite_toSet ["$c", "$j", "$t", "$u"]) fun _ => sampleFetch_known

theorem sampleFetch_acyclic (id : EventId) : ¬ Below (authGraph sampleFetch) id id := by
  have refs : ∀ a ∈ ["$c", "$j", "$t", "$u"], ∀ l ∈ authGraph sampleFetch a, ∀ b ∈ l,
      (b = "$c" ∧ a ≠ "$c") ∨ (b = "$j" ∧ a ≠ "$c" ∧ a ≠ "$j") := by decide +kernel
  refine not_below_self_of_rank (fun id => if id = "$c" then 0 else if id = "$j" then 1 else 2)
    (fun a b hab => ?_) id
  obtain ⟨l, hl, hb⟩ := hab
  have known : (sampleFetch a).isSome := by
    cases h : sampleFetch a <;> simp_all [authGraph]
  rcases refs a (sampleFetch_known known) l hl b hb with ⟨rfl, ha⟩ | ⟨rfl, hc, hj⟩
  · simp only [if_true, if_neg ha]
    split <;> simp
  · simp [hc, hj]

theorem resolve_presentation_independent_topics : ∃ enough, ∀ fuel, enough ≤ fuel →
    (resolve Ruma.sample .v11 sampleFetch fuel [sampleState "$t", sampleState "$u"]).toOption =
      (resolve Ruma.sample .v11 sampleFetch fuel
        [sampleState "$u", sampleState "$t", sampleState "$u"]).toOption := by
  have same : ∀ s, s ∈ [sampleState "$t", sampleState "$u"] ↔
      s ∈ [sampleState "$u", sampleState "$t", sampleState "$u"] := by grind
  have agree : CreateAgrees [sampleState "$t", sampleState "$u"] := by
    have named : ∀ topic, (sampleState topic)[createKey]? = some "$c" := fun _ => by
      simp only [sampleState, createKey, OrdMap.getElem?_insert']
      simp
    intro s hs t ht a b ha hb
    simp only [List.mem_cons, List.not_mem_nil, or_false] at hs ht
    rcases hs with rfl | rfl <;> rcases ht with rfl | rfl <;> simp_all
  obtain ⟨enough, h⟩ :=
    resolve_presentation_independent Ruma.sample .v11 sampleFetch_finite sampleFetch_acyclic same agree
  exact ⟨enough, fun fuel hfuel => (h fuel hfuel).2.2⟩

end Saltator.StateRes
