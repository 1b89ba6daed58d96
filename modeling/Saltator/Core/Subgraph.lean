import Saltator.Core.Fetch
import Saltator.Core.Soundness

/-!
# The conflicted state subgraph is the set of paths

`conflictedSubgraph` collects what lies below the conflicted events, with the edges, and then marks from
below what leads to a conflicted event. Both fixpoints together are the events on a path of auth events
from one conflicted event to another.
-/

namespace Saltator.StateRes

open Std
open Saltator.Graph
open Outcome
open Loop

variable {E : Type} [Event E] {fetch : EventId → Option E} {conflicted subgraph : OrdSet EventId}
  {edges : OrdMap EventId (List EventId)} {start : List EventId} {fuel : Nat}
  {reaches : OrdMap EventId Bool}

def OnPath (fetch : EventId → Option E) (conflicted : OrdSet EventId) (id : EventId) : Prop :=
  ∃ above ∈ conflicted, ∃ below ∈ conflicted,
    Relation.ReflTransGen (Edge (authGraph fetch)) above id ∧
    Relation.ReflTransGen (Edge (authGraph fetch)) id below

/-! ## The edges -/

/-- What the walk has met, it has recorded or is going to visit. -/
structure EdgesInv (fetch : EventId → Option E) (start : List EventId)
    (w : List EventId × OrdMap EventId (List EventId)) : Prop where
  met : ∀ id ∈ start, id ∈ w.1 ∨ id ∈ w.2
  cited : ∀ (id : EventId) (l : List EventId), w.2[id]? = some l → ∀ a ∈ l, a ∈ w.1 ∨ a ∈ w.2
  reached : ∀ id ∈ w.1, ∃ s ∈ start, Relation.ReflTransGen (Edge (authGraph fetch)) s id

theorem EdgesInv.init (start : List EventId) : EdgesInv fetch start (start, ∅) where
  met _ mem := .inl mem
  cited := by simp
  reached id mem := ⟨id, mem, .refl⟩

theorem edgesRound_cases {w : List EventId × OrdMap EventId (List EventId)}
    {out : (List EventId × OrdMap EventId (List EventId)) ⊕ OrdMap EventId (List EventId)}
    (h : edgesRound fetch w = .ok out) :
    (w.1 = [] ∧ out = .inr w.2) ∨
    (∃ id stack, w.1 = id :: stack ∧ id ∈ w.2 ∧ out = .inl (stack, w.2)) ∨
    ∃ id stack e, w.1 = id :: stack ∧ fetch id = some e ∧
      out = .inl ((Event.authEvents e).reverse ++ stack, w.2.insert id (Event.authEvents e)) := by
  obtain ⟨stack, edges⟩ := w
  cases stack with
  | nil => exact .inl ⟨rfl, (Except.ok.inj h).symm⟩
  | cons id stack =>
    simp only [edgesRound] at h
    split at h
    · next recorded =>
      exact .inr (.inl ⟨id, stack, rfl, ExtTreeMap.contains_iff_mem.1 recorded, (Except.ok.inj h).symm⟩)
    · obtain ⟨e, held, h⟩ := bind_eq_ok.1 h
      exact .inr (.inr ⟨id, stack, e, rfl, require_eq_ok.1 held, (pure_eq_ok.1 h).symm⟩)

theorem EdgesInv.step {w w' : List EventId × OrdMap EventId (List EventId)} (h : EdgesInv fetch start w)
    (round : edgesRound fetch w = .ok (.inl w')) : EdgesInv fetch start w' := by
  rcases edgesRound_cases round with ⟨-, out⟩ | ⟨id, stack, top, recorded, out⟩ |
    ⟨id, stack, e, top, held, out⟩
  · cases out
  · -- the event on top has been recorded before
    obtain rfl := Sum.inl.inj out
    have still : ∀ a, a ∈ w.1 ∨ a ∈ w.2 → a ∈ stack ∨ a ∈ w.2 := by
      intro a known
      rw [top, List.mem_cons] at known
      rcases known with (rfl | mem) | mem
      · exact .inr recorded
      · exact .inl mem
      · exact .inr mem
    exact ⟨fun a mem => still a (h.met a mem), fun a l found b mem => still b (h.cited a l found b mem),
      fun a mem => h.reached a (top ▸ List.mem_cons_of_mem _ mem)⟩
  · obtain rfl := Sum.inl.inj out
    have still : ∀ a, a ∈ w.1 ∨ a ∈ w.2 → a ∈ (Event.authEvents e).reverse ++ stack ∨
        a ∈ w.2.insert id (Event.authEvents e) := by
      intro a known
      rw [top, List.mem_cons] at known
      rcases known with (rfl | mem) | mem
      · exact .inr (by simp)
      · exact .inl (List.mem_append_right _ mem)
      · exact .inr (by simp [mem])
    refine ⟨fun a mem => still a (h.met a mem), fun a l found b mem => ?_, fun a mem => ?_⟩
    · rw [OrdMap.getElem?_insert'] at found
      split at found
      · obtain rfl := Option.some.inj found
        exact .inl (List.mem_append_left _ (List.mem_reverse.2 mem))
      · exact still b (h.cited a l found b mem)
    · rcases List.mem_append.1 mem with mem | mem
      · obtain ⟨s, own, path⟩ := h.reached id (top ▸ List.mem_cons_self)
        exact ⟨s, own, path.tail ⟨_, by rw [authGraph, held]; rfl, List.mem_reverse.1 mem⟩⟩
      · exact h.reached a (top ▸ List.mem_cons_of_mem _ mem)

theorem edgesWalk_result (fetch : EventId → Option E) (start : List EventId) (fuel : Nat) :
    (∀ edges, run .outOfFuel (edgesRound fetch) fuel (start, ∅) = .ok edges →
      EdgesInv fetch start ([], edges)) ∧
    ∀ err, run .outOfFuel (edgesRound fetch) fuel (start, ∅) = .error err → err = .outOfFuel ∨
      ∃ s ∈ start, ¬ Complete (authGraph fetch) s := by
  refine run_result (I := EdgesInv fetch start) (Q := fun edges => EdgesInv fetch start ([], edges))
    (F := fun _ => ∃ s ∈ start, ¬ Complete (authGraph fetch) s) (fun w w' h round => h.step round)
    (fun w edges h round => ?_) (fun w err h round => ?_) fuel _ (.init start)
  · rcases edgesRound_cases round with ⟨empty, out⟩ | ⟨_, _, _, _, out⟩ | ⟨_, _, _, _, _, out⟩
    · obtain rfl := Sum.inr.inj out
      exact empty ▸ h
    · cases out
    · cases out
  · obtain ⟨stack, edges⟩ := w
    cases stack with
    | nil => cases round
    | cons id stack =>
      simp only [edgesRound] at round
      split at round
      · cases round
      · rcases bind_eq_error.1 round with missing | ⟨_, -, round⟩
        · obtain ⟨s, own, path⟩ := h.reached id List.mem_cons_self
          refine ⟨s, own, fun complete => ?_⟩
          have known := complete id path
          simp [authGraph, (require_eq_error.1 missing).1] at known
        · cases round

theorem edgesWalk_closed (h : run .outOfFuel (edgesRound fetch) fuel (start, ∅) = .ok edges) (id : EventId)
    (known : id ∈ edges) : ∃ l, edges[id]? = some l ∧ authGraph fetch id = some l ∧ ∀ a ∈ l, a ∈ edges := by
  have pass : PassedOn fetch fun _ => True := fun _ _ _ _ _ _ => trivial
  obtain ⟨l, found⟩ := OrdMap.mem_iff_getElem?.1 known
  refine ⟨l, found, (edgesWalk_spec pass (fun _ _ => trivial) h id l found).2, fun a mem => ?_⟩
  exact (((edgesWalk_result fetch start fuel).1 edges h).cited id l found a mem).resolve_left (by simp)

theorem edgesWalk_reached (h : run .outOfFuel (edgesRound fetch) fuel (start, ∅) = .ok edges)
    {s id : EventId} (own : s ∈ start) (path : Relation.ReflTransGen (Edge (authGraph fetch)) s id) :
    id ∈ edges := by
  induction path with
  | refl => exact (((edgesWalk_result fetch start fuel).1 edges h).met s own).resolve_left (by simp)
  | @tail a b _ edge ih =>
    obtain ⟨l, -, cites, stays⟩ := edgesWalk_closed h a ih
    exact stays b ((edge_iff cites).1 edge)

/-! ## The marks -/

def Marked (edges : OrdMap EventId (List EventId)) (reaches : OrdMap EventId Bool) : Prop :=
  ∀ (id : EventId) (l : List EventId), edges[id]? = some l → ∀ a ∈ l, marked reaches a → marked reaches id

def passStep (acc : OrdMap EventId Bool × Bool) (row : EventId × List EventId) : OrdMap EventId Bool × Bool :=
  if !(marked acc.1 row.1) && row.2.any (marked acc.1) then (acc.1.insert row.1 true, true) else acc

theorem reachesPass_eq (reaches : OrdMap EventId Bool) :
    reachesPass edges reaches = edges.toList.foldl passStep (reaches, false) := rfl

theorem passSteps_unchanged (rows : List (EventId × List EventId)) (acc : OrdMap EventId Bool × Bool)
    (same : (rows.foldl passStep acc).2 = false) : rows.foldl passStep acc = acc ∧ acc.2 = false ∧
      ∀ row ∈ rows, ∀ a ∈ row.2, marked acc.1 a → marked acc.1 row.1 := by
  induction rows generalizing acc with
  | nil => exact ⟨rfl, same, by simp⟩
  | cons row rows ih =>
    rw [List.foldl_cons] at same ⊢
    obtain ⟨kept, unchanged, settled⟩ := ih _ same
    unfold passStep at unchanged
    split at unchanged
    · cases unchanged
    · next old =>
      have idle : passStep acc row = acc := if_neg old
      rw [idle] at kept settled ⊢
      refine ⟨kept, unchanged, List.forall_mem_cons.2 ⟨fun a mem reached => ?_, settled⟩⟩
      by_contra unmarked
      exact old (Bool.and_eq_true_iff.2 ⟨by simpa using unmarked, List.any_eq_true.2 ⟨a, mem, reached⟩⟩)

theorem reachesPass_unchanged (same : (reachesPass edges reaches).2 = false) :
    (reachesPass edges reaches).1 = reaches ∧ Marked edges reaches := by
  rw [reachesPass_eq] at same ⊢
  obtain ⟨kept, -, settled⟩ := passSteps_unchanged edges.toList (reaches, false) same
  rw [kept]
  exact ⟨rfl, fun id l found => settled (id, l) (OrdMap.mem_toList.2 found)⟩

theorem reachesLoop_result {reaches result : OrdMap EventId Bool}
    (h : run .outOfFuel (reachesRound edges) fuel reaches = .ok result) :
    (∀ a, marked reaches a → marked result a) ∧ Marked edges result := by
  refine (run_result (I := fun r : OrdMap EventId Bool => ∀ a, marked reaches a → marked r a)
    (Q := fun r : OrdMap EventId Bool => (∀ a, marked reaches a → marked r a) ∧ Marked edges r)
    (F := fun _ => True) (fun r r' kept round => ?_) (fun r r' kept round => ?_) (fun _ _ _ _ => trivial)
    fuel reaches (fun _ own => own)).1 result h
  all_goals
    simp only [reachesRound, Except.ok.injEq] at round
    split at round
  · obtain rfl := Sum.inl.inj round
    exact fun a own => (reachesPass_spec edges r).1 a (kept a own)
  · cases round
  · cases round
  · next unchanged =>
    obtain rfl := Sum.inr.inj round
    obtain ⟨same, settled⟩ := reachesPass_unchanged (Bool.not_eq_true _ ▸ unchanged)
    rw [same]
    exact ⟨kept, settled⟩

theorem reachesLoop_error {err : StateResError}
    (h : run .outOfFuel (reachesRound edges) fuel reaches = .error err) : err = .outOfFuel := by
  have result := (run_result (I := fun _ => True) (Q := fun _ => True) (F := fun _ => False)
    (fun _ _ _ _ => trivial) (fun _ _ _ _ => trivial) (fun _ _ _ round => by cases round) fuel reaches
    trivial).2 err h
  exact result.resolve_right id

theorem Marked.of_path (h : Marked edges reaches)
    (closed : ∀ id ∈ edges, ∃ l, edges[id]? = some l ∧ authGraph fetch id = some l ∧ ∀ a ∈ l, a ∈ edges)
    {id below : EventId} (known : id ∈ edges)
    (path : Relation.ReflTransGen (Edge (authGraph fetch)) id below) (goal : marked reaches below) :
    marked reaches id := by
  induction path using Relation.ReflTransGen.head_induction_on with
  | refl => exact goal
  | @head a b edge _ ih =>
    obtain ⟨l, found, cites, stays⟩ := closed a known
    have mem := (edge_iff cites).1 edge
    exact h a l found b mem (ih (stays b mem))

/-! ## The subgraph -/

theorem marked_initial {a : EventId} : marked (edges.keys.foldl (fun m k =>
    m.insert k (conflicted.contains k)) (∅ : OrdMap EventId Bool)) a ↔ a ∈ edges ∧ a ∈ conflicted := by
  unfold marked
  rcases OrdMap.foldl_insert_cases (fun k => k) (fun k => conflicted.contains k) edges.keys ∅ a with
    ⟨k, mem, rfl, value⟩ | ⟨absent, value⟩
  · rw [value, Option.getD_some, ExtTreeSet.contains_iff_mem]
    exact ⟨fun own => ⟨ExtTreeMap.mem_keys.1 mem, own⟩, And.right⟩
  · rw [value, ExtTreeMap.getElem?_empty]
    exact iff_of_false (by simp) fun own => absent a (ExtTreeMap.mem_keys.2 own.1) rfl

theorem mem_conflictedSubgraph (h : conflictedSubgraph fetch fuel conflicted = .ok subgraph) (id : EventId) :
    id ∈ subgraph ↔ OnPath fetch conflicted id := by
  refine ⟨fun mem => conflictedSubgraph_sound h id mem, ?_⟩
  rintro ⟨above, own, below, own', up, down⟩
  rw [conflictedSubgraph, bind_eq_ok] at h
  obtain ⟨edges, walked, h⟩ := h
  obtain ⟨reaches, passed, h⟩ := bind_eq_ok.1 h
  obtain rfl := pure_eq_ok.1 h
  have closed := edgesWalk_closed walked
  obtain ⟨kept, settled⟩ := reachesLoop_result passed
  have start : above ∈ conflicted.toList.reverse := List.mem_reverse.2 (OrdSet.mem_toList'.2 own)
  have known := edgesWalk_reached walked start up
  have goal : marked reaches below :=
    kept below (marked_initial.2 ⟨edgesWalk_reached walked start (up.trans down), own'⟩)
  refine OrdSet.mem_extend.2 (.inl (List.mem_filter.2 ⟨ExtTreeMap.mem_keys.2 known, ?_⟩))
  rw [Bool.or_eq_true]
  rcases down.cases_head with rfl | ⟨next, edge, rest⟩
  · exact .inl (ExtTreeSet.contains_iff_mem.2 own')
  · obtain ⟨l, found, cites, stays⟩ := closed id known
    have mem := (edge_iff cites).1 edge
    rw [found]
    exact .inr (List.any_eq_true.2 ⟨next, mem, settled.of_path closed (stays next mem) rest goal⟩)

theorem conflictedSubgraph_ok_iff (intime : conflictedSubgraph fetch fuel conflicted ≠ .error .outOfFuel) :
    (∃ subgraph, conflictedSubgraph fetch fuel conflicted = .ok subgraph) ↔
      ∀ id ∈ conflicted, Complete (authGraph fetch) id := by
  constructor
  · rintro ⟨subgraph, h⟩ id own
    rw [conflictedSubgraph, bind_eq_ok] at h
    obtain ⟨edges, walked, -⟩ := h
    refine complete_of_closed (P := (· ∈ edges)) (fun a known => ?_)
      (edgesWalk_reached walked (List.mem_reverse.2 (OrdSet.mem_toList'.2 own)) .refl)
    obtain ⟨l, -, cites, stays⟩ := edgesWalk_closed walked a known
    exact ⟨l, cites, stays⟩
  · intro complete
    cases h : conflictedSubgraph fetch fuel conflicted with
    | ok subgraph => exact ⟨subgraph, rfl⟩
    | error err =>
      rw [h] at intime
      rw [conflictedSubgraph, bind_eq_error] at h
      rcases h with failed | ⟨edges, -, h⟩
      · rcases (edgesWalk_result fetch _ fuel).2 err failed with rfl | ⟨s, mem, missing⟩
        · exact absurd rfl intime
        · exact absurd (complete s (OrdSet.mem_toList'.1 (List.mem_reverse.1 mem))) missing
      · rcases bind_eq_error.1 h with failed | ⟨_, -, h⟩
        · exact absurd (congrArg Except.error (reachesLoop_error failed)) intime
        · cases h

/-- **The conflicted state subgraph** of a finite acyclic store is found, unless an event below the conflicted
ones is missing: it is what lies on the paths of auth events between them. -/
theorem conflictedSubgraph_exact (fetch : EventId → Option E)
    (finite : {id | (fetch id).isSome}.Finite) (acyclic : ∀ id, ¬ Below (authGraph fetch) id id)
    (conflicted : OrdSet EventId) :
    ∃ r, SettlesTo .outOfFuel (fun fuel => conflictedSubgraph fetch fuel conflicted) r ∧
      ((∃ subgraph, r = .ok subgraph) ↔ ∀ id ∈ conflicted, Complete (authGraph fetch) id) ∧
      ∀ subgraph, r = .ok subgraph → ∀ id, id ∈ subgraph ↔ OnPath fetch conflicted id := by
  obtain ⟨r, settles⟩ := conflictedSubgraph_settles (authGraph_wellFounded finite acyclic) conflicted
  obtain ⟨intime, enough, answers⟩ := settles
  refine ⟨r, ⟨intime, enough, answers⟩, ?_, fun subgraph found id => ?_⟩
  · rw [← answers enough le_rfl] at intime ⊢
    exact conflictedSubgraph_ok_iff intime
  · exact mem_conflictedSubgraph ((answers enough le_rfl).trans found) id

/-- Between the later topic and the create event lies the join. -/
theorem conflictedSubgraph_exact_topic : ∃ r, SettlesTo .outOfFuel
    (fun fuel => conflictedSubgraph sampleFetch fuel (OrdSet.extend ∅ ["$c", "$u"])) r ∧
    ∀ subgraph, r = .ok subgraph → "$j" ∈ subgraph := by
  obtain ⟨r, settles, -, exact⟩ := conflictedSubgraph_exact sampleFetch sampleFetch_finite
    sampleFetch_acyclic (OrdSet.extend ∅ ["$c", "$u"])
  refine ⟨r, settles, fun subgraph found => (exact subgraph found "$j").2 ?_⟩
  have above : Edge (authGraph sampleFetch) "$u" "$j" := ⟨["$c", "$j"], by decide +kernel, by simp⟩
  have below : Edge (authGraph sampleFetch) "$j" "$c" := ⟨["$c"], by decide +kernel, by simp⟩
  exact ⟨"$u", by simp [OrdSet.mem_extend], "$c", by simp [OrdSet.mem_extend], .single above, .single below⟩

end Saltator.StateRes
