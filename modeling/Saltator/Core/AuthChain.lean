import Saltator.Core.StateRes
import Saltator.Lib.Graph

/-!
# Auth chains are closures

`authChain` walks the auth graph with an explicit stack and a cache shared between calls. Whatever
the cache holds, as long as it is `Coherent`, the answer is the set of events below the given one in
the auth graph, and the call fails exactly when some event of that closure is missing.

* `authChain_spec`: the outcome of a call with a coherent cache.
* `authChain_settles`: the walk finishes on a finite acyclic store.
* `authChain_alike`: two calls with coherent caches have the same outcome.
-/

namespace Saltator.StateRes

open Std Saltator.Graph Outcome Loop

section Require

variable {E : Type} {fetch : EventId → Option E} {id : EventId}

theorem require_eq_ok {e : E} : require fetch id = .ok e ↔ fetch id = some e := by
  unfold require
  split <;> simp_all

theorem require_eq_error {err : StateResError} :
    require fetch id = .error err ↔ fetch id = none ∧ err = .missingEvent id := by
  unfold require
  split <;> simp_all [eq_comm]

theorem require_ne_outOfFuel : require fetch id ≠ .error .outOfFuel := by
  intro h
  simpa using (require_eq_error.1 h).2

end Require

variable {E : Type} [Event E] {fetch : EventId → Option E} {cache : ChainCache} {id : EventId}
  {w : ChainWalk} {rest : List (EventId × Bool)} {root n : EventId} {stack : List (EventId × Bool)}
  {new : List EventId}

def authGraph (fetch : EventId → Option E) (id : EventId) : Option (List EventId) :=
  (fetch id).map Event.authEvents

theorem authGraph_wellFounded (finite : {id | (fetch id).isSome}.Finite)
    (acyclic : ∀ id, ¬ Below (authGraph fetch) id id) :
    WellFounded fun b a => Edge (authGraph fetch) a b := by
  refine wellFounded_of_finite_acyclic ?_ acyclic
  simpa [authGraph] using finite

/-- `chain` holds what lies below `id`. -/
def IsChain (fetch : EventId → Option E) (id : EventId) (chain : OrdSet EventId) : Prop :=
  ∀ a, a ∈ chain ↔ Below (authGraph fetch) id a

def Coherent (fetch : EventId → Option E) (cache : ChainCache) : Prop :=
  ∀ id chain, cache[id]? = some chain → Complete (authGraph fetch) id ∧ IsChain fetch id chain

theorem IsChain.unique {c d : OrdSet EventId} (hc : IsChain fetch id c) (hd : IsChain fetch id d) : c = d :=
  ExtTreeSet.ext_mem fun a => (hc a).trans (hd a).symm

theorem coherent_empty : Coherent fetch ∅ := by
  intro id chain h
  simp at h

/-! ## The walk -/

/-- Every node whose marker is on the stack has its auth events finished, or above it. `done` says
which nodes count as dealt with. -/
def Covered (fetch : EventId → Option E) (done : EventId → Prop) : List (EventId × Bool) → Prop
  | [] => True
  | (n, false) :: rest => Covered fetch (fun c => done c ∨ c = n) rest
  | (n, true) :: rest =>
    (∃ e, fetch n = some e ∧ ∀ c ∈ Event.authEvents e, done c) ∧
      Covered fetch (fun c => done c ∨ c = n) rest

theorem Covered.mono {done done' : EventId → Prop}
    (h : Covered fetch done stack) (sub : ∀ c, done c → done' c) : Covered fetch done' stack := by
  induction stack generalizing done done' with
  | nil => trivial
  | cons top rest ih =>
    obtain ⟨n, post⟩ := top
    have weaken : ∀ c, (done c ∨ c = n) → (done' c ∨ c = n) := fun c => .imp_left (sub c)
    cases post with
    | false => exact ih h weaken
    | true =>
      obtain ⟨⟨e, he, hc⟩, hrest⟩ := h
      exact ⟨⟨e, he, fun c hm => sub c (hc c hm)⟩, ih hrest weaken⟩

theorem covered_append {done : EventId → Prop}
    (h : Covered fetch (fun c => done c ∨ c ∈ new) stack) :
    Covered fetch done ((new.map fun a => (a, false)) ++ stack) := by
  induction new generalizing done with
  | nil => simpa using h
  | cons a new ih =>
    refine ih (h.mono fun c => ?_)
    simp only [List.mem_cons]
    tauto

inductive Postorder (fetch : EventId → Option E) (cache : ChainCache) : List EventId → Prop
  | nil : Postorder fetch cache []
  | snoc {order : List EventId} {n : EventId} {e : E} : Postorder fetch cache order →
      fetch n = some e → (∀ c ∈ Event.authEvents e, c ∈ order ∨ c ∈ cache) →
      Postorder fetch cache (order ++ [n])

/-- What the walk from `root` maintains. -/
structure WalkInv (fetch : EventId → Option E) (cache : ChainCache) (root : EventId)
    (w : ChainWalk) : Prop where
  reach : ∀ n b, (n, b) ∈ w.stack → Relation.ReflTransGen (Edge (authGraph fetch)) root n
  covered : Covered fetch (fun c => c ∈ w.finished ∨ c ∈ cache) w.stack
  finished : ∀ n, n ∈ w.finished ↔ n ∈ w.order
  postorder : Postorder fetch cache w.order
  root : root ∈ w.order ∨ root ∈ cache ∨ ∃ b, (root, b) ∈ w.stack

theorem WalkInv.init (root : EventId) : WalkInv fetch cache root ⟨[(root, false)], ∅, []⟩ where
  reach := by
    intro n b h
    simp only [List.mem_singleton, Prod.mk.injEq] at h
    exact h.1 ▸ .refl
  covered := trivial
  finished := by simp
  postorder := .nil
  root := by simp

theorem WalkInv.skip {b : Bool} (h : WalkInv fetch cache root w) (top : w.stack = (n, b) :: rest)
    (dealt : n ∈ w.finished ∨ n ∈ cache) : WalkInv fetch cache root { w with stack := rest } where
  reach m b' hm := h.reach m b' (by simp [top, hm])
  covered := by
    have hc := h.covered
    rw [top] at hc
    have hrest : Covered fetch (fun c => (c ∈ w.finished ∨ c ∈ cache) ∨ c = n) rest := by
      cases b with
      | false => exact hc
      | true => exact hc.2
    exact hrest.mono fun c hc => hc.elim (fun h => h) fun hc => hc ▸ dealt
  finished := h.finished
  postorder := h.postorder
  root := by
    rcases h.root with hr | hr | ⟨b', hr⟩
    · exact .inl hr
    · exact .inr (.inl hr)
    · rw [top, List.mem_cons, Prod.mk.injEq] at hr
      rcases hr with ⟨rfl, _⟩ | hr
      · exact dealt.elim (fun h' => .inl ((h.finished _).1 h')) fun h' => .inr (.inl h')
      · exact .inr (.inr ⟨b', hr⟩)

theorem WalkInv.finish (h : WalkInv fetch cache root w) (top : w.stack = (n, true) :: rest) :
    WalkInv fetch cache root ⟨rest, w.finished.insert n, w.order ++ [n]⟩ := by
  have hc := h.covered
  rw [top] at hc
  obtain ⟨⟨e, he, known⟩, hrest⟩ := hc
  refine ⟨fun m b hm => h.reach m b (by simp [top, hm]), hrest.mono fun c => ?_, fun m => ?_,
    .snoc h.postorder he fun c hm => (known c hm).imp_left (h.finished c).1, ?_⟩
  · rw [OrdSet.mem_insert']
    tauto
  · rw [OrdSet.mem_insert', h.finished]
    simp [or_comm]
  · rcases h.root with hr | hr | ⟨b, hr⟩
    · exact .inl (by simp [hr])
    · exact .inr (.inl hr)
    · rw [top, List.mem_cons, Prod.mk.injEq] at hr
      rcases hr with ⟨rfl, _⟩ | hr
      · exact .inl (by simp)
      · exact .inr (.inr ⟨b, hr⟩)

theorem WalkInv.open {e : E}
    (h : WalkInv fetch cache root w) (top : w.stack = (n, false) :: rest) (he : fetch n = some e)
    (hsub : ∀ c ∈ new, c ∈ Event.authEvents e)
    (hnew : ∀ c ∈ Event.authEvents e, c ∈ new ∨ c ∈ w.finished ∨ c ∈ cache) :
    WalkInv fetch cache root { w with stack := (new.map fun a => (a, false)) ++ (n, true) :: rest } := by
  have hc := h.covered
  rw [top] at hc
  have hn := h.reach n false (by simp [top])
  refine ⟨fun m b hm => ?_, covered_append ⟨⟨e, he, fun c hm => ?_⟩, hc.mono fun c => ?_⟩,
    h.finished, h.postorder, ?_⟩
  · simp only [List.mem_append, List.mem_map, Prod.mk.injEq, List.mem_cons] at hm
    rcases hm with ⟨a, ha, rfl, _⟩ | ⟨rfl, _⟩ | hm
    · exact hn.tail ⟨Event.authEvents e, by simp [authGraph, he], hsub _ ha⟩
    · exact hn
    · exact h.reach m b (by simp [top, hm])
  · have := hnew c hm
    tauto
  · tauto
  · rcases h.root with hr | hr | ⟨b, hr⟩
    · exact .inl hr
    · exact .inr (.inl hr)
    · rw [top, List.mem_cons, Prod.mk.injEq] at hr
      rcases hr with ⟨rfl, _⟩ | hr
      · exact .inr (.inr ⟨true, by simp⟩)
      · exact .inr (.inr ⟨b, by simp [hr]⟩)

theorem walkRound_cases {out : ChainWalk ⊕ List EventId} (h : walkRound fetch cache w = .ok out) :
    (w.stack = [] ∧ out = .inr w.order) ∨
    (∃ n b rest, w.stack = (n, b) :: rest ∧ (n ∈ w.finished ∨ n ∈ cache) ∧
      out = .inl { w with stack := rest }) ∨ (∃ n rest, w.stack = (n, true) :: rest ∧
      out = .inl ⟨rest, w.finished.insert n, w.order ++ [n]⟩) ∨
    (∃ n rest e, w.stack = (n, false) :: rest ∧ fetch n = some e ∧
      out = .inl { w with stack := (((Event.authEvents e).filter fun a =>
        !w.finished.contains a && !cache.contains a).reverse.map fun a => (a, false)) ++
          (n, true) :: rest }) := by
  unfold walkRound at h
  split at h
  · rename_i hs
    simp only [Except.ok.injEq] at h
    exact .inl ⟨hs, h.symm⟩
  · rename_i n rest hs
    split at h
    · rename_i hf
      simp only [Except.ok.injEq] at h
      exact .inr (.inl ⟨n, true, rest, hs, .inl hf, h.symm⟩)
    · simp only [Except.ok.injEq] at h
      exact .inr (.inr (.inl ⟨n, rest, hs, h.symm⟩))
  · rename_i n rest hs
    split at h
    · rename_i hf
      simp only [Except.ok.injEq] at h
      rw [Bool.or_eq_true] at hf
      exact .inr (.inl ⟨n, false, rest, hs, hf, h.symm⟩)
    · obtain ⟨e, he, h⟩ := bind_eq_ok.1 h
      rw [pure_eq_ok] at h
      rw [← List.map_reverse] at h
      exact .inr (.inr (.inr ⟨n, rest, e, hs, require_eq_ok.1 he, h.symm⟩))

theorem walkRound_error {err : StateResError} (h : walkRound fetch cache w = .error err) :
    ∃ n rest, w.stack = (n, false) :: rest ∧ fetch n = none ∧ err = .missingEvent n := by
  unfold walkRound at h
  split at h
  · simp at h
  · split at h <;> simp at h
  · rename_i n rest hs
    split at h
    · simp at h
    · rw [bind_eq_error] at h
      rcases h with h | ⟨e, _, h⟩
      · exact ⟨n, rest, hs, require_eq_error.1 h⟩
      · simp [pure, Except.pure] at h

theorem WalkInv.step {root : EventId} {w w' : ChainWalk} (h : WalkInv fetch cache root w)
    (hw : walkRound fetch cache w = .ok (.inl w')) : WalkInv fetch cache root w' := by
  rcases walkRound_cases hw with ⟨_, hout⟩ | ⟨n, b, rest, top, dealt, hout⟩ |
    ⟨n, rest, top, hout⟩ | ⟨n, rest, e, top, he, hout⟩
  · simp at hout
  · obtain rfl := Sum.inl.inj hout
    exact h.skip top dealt
  · obtain rfl := Sum.inl.inj hout
    exact h.finish top
  · obtain rfl := Sum.inl.inj hout
    refine h.open top he (fun c hc => ?_) fun c hc => ?_
    · simp only [List.mem_reverse, List.mem_filter] at hc
      exact hc.1
    · by_cases hf : c ∈ w.finished
      · exact .inr (.inl hf)
      by_cases hk : c ∈ cache
      · exact .inr (.inr hk)
      · refine .inl ?_
        simp only [List.mem_reverse, List.mem_filter]
        rw [← OrdSet.contains_eq_false] at hf
        rw [← OrdMap.contains_eq_false] at hk
        exact ⟨hc, by simp [hf, hk]⟩

theorem walk_result (fetch : EventId → Option E) (cache : ChainCache) (root : EventId) (fuel : Nat) :
    (∀ order, run .outOfFuel (walkRound fetch cache) fuel ⟨[(root, false)], ∅, []⟩ = .ok order →
      Postorder fetch cache order ∧ (root ∈ order ∨ root ∈ cache)) ∧
    (∀ err, run .outOfFuel (walkRound fetch cache) fuel ⟨[(root, false)], ∅, []⟩ = .error err →
      err = .outOfFuel ∨ ¬ Complete (authGraph fetch) root) := by
  refine run_result (I := WalkInv fetch cache root)
    (Q := fun order => Postorder fetch cache order ∧ (root ∈ order ∨ root ∈ cache))
    (F := fun _ => ¬ Complete (authGraph fetch) root)
    (fun w w' h hw => h.step hw) (fun w order h hw => ?_) (fun w err h hw => ?_) fuel _ (.init root)
  · rcases walkRound_cases hw with ⟨hs, hout⟩ | ⟨_, _, _, _, _, hout⟩ | ⟨_, _, _, hout⟩ |
      ⟨_, _, _, _, _, hout⟩
    · obtain rfl := Sum.inr.inj hout
      refine ⟨h.postorder, ?_⟩
      rcases h.root with hr | hr | ⟨b, hr⟩
      · exact .inl hr
      · exact .inr hr
      · simp [hs] at hr
    all_goals simp at hout
  · obtain ⟨n, rest, top, hn, _⟩ := walkRound_error hw
    intro hc
    have := hc n (h.reach n false (by simp [top]))
    simp [authGraph, hn] at this

/-! ## Assembling the chains -/

theorem mem_assembled {cache : ChainCache} {l : List EventId} {chain : OrdSet EventId}
    {a : EventId} :
    a ∈ l.foldl (fun chain a =>
      OrdSet.extend (chain.insert a) ((cache[a]?.map ExtTreeSet.toList).getD [])) chain ↔
      a ∈ chain ∨ ∃ c ∈ l, a = c ∨ ∃ sub, cache[c]? = some sub ∧ a ∈ sub := by
  induction l generalizing chain with
  | nil => simp
  | cons c l ih =>
    rw [List.foldl_cons, ih, OrdSet.mem_extend, OrdSet.mem_insert']
    simp only [List.mem_cons, exists_eq_or_imp]
    generalize (∃ c ∈ l, a = c ∨ ∃ sub, cache[c]? = some sub ∧ a ∈ sub) = later
    cases h : cache[c]? with
    | none => simp; tauto
    | some sub => simp; tauto

theorem assemble_chain {known : EventId → Option E}
    (hcache : ∀ c sub, cache[c]? = some sub → IsChain known c sub) {n : EventId} {e : E}
    (he : fetch n = some e) (hg : authGraph known n = some (Event.authEvents e))
    (cited : ∀ c ∈ Event.authEvents e, c ∈ cache) :
    ∃ chain, assemble fetch cache n = .ok (cache.insert n chain) ∧ IsChain known n chain := by
  refine ⟨_, by simp only [assemble, require_eq_ok.2 he, ok_bind]; rfl, fun a => ?_⟩
  rw [mem_assembled, below_iff hg]
  simp only [ExtTreeSet.not_mem_empty, false_or]
  refine exists_congr fun c => and_congr_right fun hc => or_congr_right ?_
  obtain ⟨sub, hs⟩ : ∃ sub, cache[c]? = some sub := ⟨_, ExtTreeMap.getElem?_eq_some_getElem (cited c hc)⟩
  simp only [hs, Option.some.injEq, exists_eq_left']
  exact hcache c sub hs a

/-- The cached chains are all as `P` says. -/
def Chains (P : EventId → OrdSet EventId → Prop) (cache : ChainCache) : Prop :=
  ∀ id chain, cache[id]? = some chain → P id chain

/-- A node whose auth events are all cached gets a chain as `P` says. -/
def Assembles (P : EventId → OrdSet EventId → Prop) (fetch : EventId → Option E) : Prop :=
  ∀ (cache : ChainCache) (n : EventId) (e : E), Chains P cache → fetch n = some e →
    (∀ c ∈ Event.authEvents e, c ∈ cache) →
      ∃ chain, assemble fetch cache n = .ok (cache.insert n chain) ∧ P n chain

section Assembles

variable {P : EventId → OrdSet EventId → Prop} (step : Assembles P fetch)
include step

theorem assemble_postorder {order : List EventId} (hcache : Chains P cache)
    (h : Postorder fetch cache order) :
    ∃ cache', order.foldlM (assemble fetch) cache = .ok cache' ∧ Chains P cache' ∧
      ∀ n, n ∈ cache' ↔ n ∈ order ∨ n ∈ cache := by
  induction h with
  | nil => exact ⟨cache, rfl, hcache, by simp⟩
  | @snoc order n e _ he known ih =>
    obtain ⟨cache', hfold, hco, hmem⟩ := ih
    obtain ⟨chain, hass, hchain⟩ := step cache' n e hco he fun c hc => (hmem c).2 (known c hc)
    refine ⟨cache'.insert n chain, ?_, fun id chain' h => ?_, fun m => ?_⟩
    · rw [List.foldlM_append, hfold, ok_bind]
      simp [hass]
    · rw [OrdMap.getElem?_insert'] at h
      split at h
      · next same => exact same ▸ Option.some.inj h ▸ hchain
      · exact hco id chain' h
    · simp only [ExtTreeMap.mem_insert, hmem, LawfulEqOrd.compare_eq_iff_eq, List.mem_append,
        List.mem_singleton]
      tauto

theorem authChain_cases (hcache : Chains P cache) (id : EventId) (fuel : Nat) :
    (∃ chain, cache[id]? = some chain ∧ authChain fetch fuel id cache = .ok (chain, cache)) ∨
    (id ∉ cache ∧ ∃ err, run .outOfFuel (walkRound fetch cache) fuel ⟨[(id, false)], ∅, []⟩ = .error err ∧
      authChain fetch fuel id cache = .error err) ∨
    (id ∉ cache ∧ ∃ order chain cache', Postorder fetch cache order ∧ id ∈ order ∧ P id chain ∧
      Chains P cache' ∧ authChain fetch fuel id cache = .ok (chain, cache')) := by
  unfold authChain
  cases hid : cache[id]? with
  | some chain => exact .inl ⟨chain, rfl, rfl⟩
  | none =>
    have uncached : id ∉ cache := fun mem => by simp [ExtTreeMap.getElem?_eq_some_getElem mem] at hid
    dsimp only
    cases hrun : run StateResError.outOfFuel (walkRound fetch cache) fuel ⟨[(id, false)], ∅, []⟩ with
    | error err => exact .inr (.inl ⟨uncached, err, rfl, rfl⟩)
    | ok order =>
      obtain ⟨horder, hroot⟩ := (walk_result fetch cache id fuel).1 order hrun
      obtain ⟨cache', hfold, hco, hmem⟩ := assemble_postorder step hcache horder
      obtain ⟨chain, hchain⟩ : ∃ chain, cache'[id]? = some chain :=
        ⟨_, ExtTreeMap.getElem?_eq_some_getElem ((hmem id).2 hroot)⟩
      refine .inr (.inr ⟨uncached, order, chain, cache', horder, hroot.resolve_right uncached,
        hco id chain hchain, hco, ?_⟩)
      simp only [ok_bind, hfold, hchain]
      rfl

end Assembles

theorem assembles_coherent :
    Assembles (fun id chain => Complete (authGraph fetch) id ∧ IsChain fetch id chain) fetch := by
  intro cache n e hcache he known
  have hg : authGraph fetch n = some (Event.authEvents e) := by simp [authGraph, he]
  obtain ⟨chain, hass, hchain⟩ := assemble_chain (fun c sub h => (hcache c sub h).2) he hg known
  refine ⟨chain, hass, (complete_iff hg).2 fun c hc => ?_, hchain⟩
  exact (hcache c _ (ExtTreeMap.getElem?_eq_some_getElem (known c hc))).1

theorem authChain_spec (hcache : Coherent fetch cache) (fuel : Nat) :
    (∀ chain cache', authChain fetch fuel id cache = .ok (chain, cache') →
      Complete (authGraph fetch) id ∧ IsChain fetch id chain ∧ Coherent fetch cache') ∧
    (∀ err, authChain fetch fuel id cache = .error err →
      err = .outOfFuel ∨ ¬ Complete (authGraph fetch) id) := by
  obtain ⟨chain, hit, out⟩ | ⟨-, err, hrun, out⟩ | ⟨-, order, chain, cache', -, -, hchain, hco, out⟩ :=
    authChain_cases assembles_coherent hcache id fuel
  all_goals rw [out]
  · refine ⟨fun chain' cache' h => ?_, fun err h => by simp at h⟩
    obtain ⟨rfl, rfl⟩ := ok_pair h
    exact ⟨(hcache id _ hit).1, (hcache id _ hit).2, hcache⟩
  · refine ⟨fun _ _ h => by simp at h, fun err' h => ?_⟩
    exact Except.error.inj h ▸ (walk_result fetch cache id fuel).2 err hrun
  · refine ⟨fun chain' cache'' h => ?_, fun err h => by simp at h⟩
    obtain ⟨rfl, rfl⟩ := ok_pair h
    exact ⟨hchain.1, hchain.2, hco⟩

/-! ## Termination -/

section Settles

variable (wf : WellFounded fun b a => Edge (authGraph fetch) a b)
include wf

theorem weight_fetch {n : EventId} {e : E} (he : fetch n = some e) :
    weight wf n = 2 + ((Event.authEvents e).map (weight wf)).sum :=
  weight_some wf (by simp [authGraph, he])

/-- Opening a node replaces it by a marker and by parts of its own weight. -/
noncomputable def stackWeight (stack : List (EventId × Bool)) : Nat :=
  (stack.map fun (n, post) => if post then 1 else weight wf n).sum

theorem walk_descends {w w' : ChainWalk} (h : walkRound fetch cache w = .ok (.inl w')) :
    stackWeight wf w'.stack < stackWeight wf w.stack := by
  rcases walkRound_cases h with ⟨_, hout⟩ | ⟨n, b, rest, top, _, hout⟩ | ⟨n, rest, top, hout⟩ |
    ⟨n, rest, e, top, he, hout⟩
  · simp at hout
  · obtain rfl := Sum.inl.inj hout
    cases b with
    | false => simpa [stackWeight, top] using weight_pos wf n
    | true => simp [stackWeight, top]
  · obtain rfl := Sum.inl.inj hout
    simp [stackWeight, top]
  · obtain rfl := Sum.inl.inj hout
    have hle : (((Event.authEvents e).filter fun a =>
        !w.finished.contains a && !cache.contains a).map (weight wf)).sum ≤
        ((Event.authEvents e).map (weight wf)).sum :=
      (List.filter_sublist.map _).sum_le_sum (by simp)
    simp only [stackWeight, top, List.map_append, List.map_map, List.map_cons, List.sum_append,
      List.sum_cons, List.map_reverse, List.sum_reverse, if_true, Bool.false_eq_true, if_false,
      weight_fetch wf he, Function.comp_def]
    change (((Event.authEvents e).filter fun a =>
      !w.finished.contains a && !cache.contains a).map (weight wf)).sum + _ < _
    omega

/-- A call of `authChain` finishes. -/
theorem authChain_settles (id : EventId) (cache : ChainCache) :
    Settles .outOfFuel (fun fuel => authChain fetch fuel id cache) := by
  unfold authChain
  cases cache[id]? with
  | some chain => exact .const (by simp)
  | none =>
    refine .bind ?_ fun order => .const ?_
    · refine run_settles (I := fun _ => True) (measure fun w : ChainWalk =>
        stackWeight wf w.stack).wf (fun w w' _ h => ⟨trivial, walk_descends wf h⟩)
        (fun w _ h => ?_) trivial
      obtain ⟨_, _, _, _, he⟩ := walkRound_error h
      simp at he
    · refine bind_ne_error (foldlM_ne_error (fun n _ cache => ?_) cache) fun _ _ => by
        simp [pure, Except.pure]
      exact bind_ne_error require_ne_outOfFuel fun _ _ => by simp [pure, Except.pure]

theorem authChain_alike {cache cache' : ChainCache} (hc : Coherent fetch cache)
    (hc' : Coherent fetch cache') (id : EventId) :
    Alike .outOfFuel (fun x y => x.1 = y.1 ∧ Coherent fetch x.2 ∧ Coherent fetch y.2)
      (fun fuel => authChain fetch fuel id cache) (fun fuel => authChain fetch fuel id cache') := by
  refine .of_spec (C := Complete (authGraph fetch) id)
    (P := fun x => IsChain fetch id x.1 ∧ Coherent fetch x.2)
    (Q := fun x => IsChain fetch id x.1 ∧ Coherent fetch x.2)
    (authChain_settles wf id cache) (authChain_settles wf id cache') (fun fuel => ?_)
    (fun fuel => ?_) fun x y hx hy => ⟨hx.1.unique hy.1, hx.2, hy.2⟩
  · exact ⟨fun x h => (authChain_spec hc fuel).1 x.1 x.2 h, (authChain_spec hc fuel).2⟩
  · exact ⟨fun x h => (authChain_spec hc' fuel).1 x.1 x.2 h, (authChain_spec hc' fuel).2⟩

end Settles

end Saltator.StateRes
