import Mathlib.Logic.Relation
import Mathlib.Data.Finite.Defs
import Mathlib.Data.Set.Finite.Basic
import Mathlib.Order.WellFoundedSet
import Mathlib.Algebra.Order.BigOperators.Group.List
import Mathlib.Algebra.Order.Ring.Nat
import Mathlib.Tactic.Common

/-!
# Partially known graphs

A graph whose nodes list their successors, where a node may be unknown (`succ a = none`): the shape
of an event store, in which an event can cite events the store does not hold.

* `Edge`, `Below` (one or more edges) and `Complete` (nothing unknown is reachable).
* `wellFounded_of_finite_acyclic`: a finite acyclic graph is well founded.
* `weight`: a measure that exceeds the weights of all successors together, which is what a walk
  with an explicit stack descends in.
-/

namespace Saltator.Graph

variable {α : Type}

/-- `a` is known and lists `b`. -/
def Edge (succ : α → Option (List α)) (a b : α) : Prop := ∃ l, succ a = some l ∧ b ∈ l

/-- `b` is reached from `a` by one or more edges. -/
def Below (succ : α → Option (List α)) : α → α → Prop := Relation.TransGen (Edge succ)

/-- Every node reachable from `a`, itself included, is known. -/
def Complete (succ : α → Option (List α)) (a : α) : Prop :=
  ∀ b, Relation.ReflTransGen (Edge succ) a b → (succ b).isSome

variable {succ : α → Option (List α)} {a b : α} {l : List α} {P : α → Prop}

theorem edge_iff (h : succ a = some l) : Edge succ a b ↔ b ∈ l := by
  simp [Edge, h]

theorem Complete.known {a : α} (h : Complete succ a) : (succ a).isSome := h a .refl

theorem Complete.edge (h : Complete succ a) (e : Edge succ a b) : Complete succ b :=
  fun c hc => h c (.head e hc)

theorem complete_iff {a : α} (h : succ a = some l) : Complete succ a ↔ ∀ b ∈ l, Complete succ b := by
  refine ⟨fun hc b hb => hc.edge ⟨l, h, hb⟩, fun hl b hb => ?_⟩
  rcases hb.cases_head with rfl | ⟨c, hac, hcb⟩
  · simp [h]
  · exact hl c ((edge_iff h).1 hac) b hcb

theorem complete_of_closed (closed : ∀ b, P b → ∃ l, succ b = some l ∧ ∀ c ∈ l, P c)
    {a : α} (ha : P a) : Complete succ a := by
  intro b reached
  suffices inside : P b by
    obtain ⟨l, known, -⟩ := closed b inside
    simp [known]
  induction reached with
  | refl => exact ha
  | tail _ edge ih =>
    obtain ⟨l, known, stays⟩ := closed _ ih
    exact stays _ ((edge_iff known).1 edge)

theorem Complete.reached (h : Complete succ a) (path : Relation.ReflTransGen (Edge succ) a b) :
    Complete succ b := fun c hc => h c (path.trans hc)

theorem below_iff (h : succ a = some l) : Below succ a b ↔ ∃ c ∈ l, b = c ∨ Below succ c b := by
  constructor
  · intro hb
    rcases Relation.TransGen.head'_iff.1 hb with ⟨c, hac, hcb⟩
    refine ⟨c, (edge_iff h).1 hac, ?_⟩
    rcases Relation.reflTransGen_iff_eq_or_transGen.1 hcb with heq | hlt
    · exact .inl heq
    · exact .inr hlt
  · rintro ⟨c, hc, rfl | hlt⟩
    · exact .single ⟨l, h, hc⟩
    · exact .head ⟨l, h, hc⟩ hlt

theorem Below.closed (pass : ∀ a b, P a → Edge succ a b → P b) (h : Below succ a b) (ha : P a) : P b := by
  induction h with
  | single e => exact pass _ _ ha e
  | tail _ e ih => exact pass _ _ ih e

theorem not_below_self_of_rank (rank : α → Nat) (down : ∀ a b, Edge succ a b → rank b < rank a)
    (a : α) : ¬ Below succ a a := by
  have lower : ∀ b, Below succ a b → rank b < rank a := by
    intro b hb
    induction hb with
    | single h => exact down _ _ h
    | tail _ h ih => exact (down _ _ h).trans ih
  exact fun h => Nat.lt_irrefl _ (lower a h)

theorem transGen_congr_of_unlisted {r r' : α → α → Prop} {new : α}
    (same : ∀ a b, a ≠ new → (r' a b ↔ r a b)) (unlisted : ∀ a b, a ≠ new → r a b → b ≠ new)
    (ha : a ≠ new) : Relation.TransGen r' a b ↔ Relation.TransGen r a b := by
  have stays : ∀ c, Relation.TransGen r a c → c ≠ new := by
    intro c hc
    induction hc with
    | single e => exact unlisted a _ ha e
    | tail _ e ih => exact unlisted _ _ ih e
  constructor
  · intro h
    induction h with
    | single e => exact .single ((same _ _ ha).1 e)
    | tail _ e ih => exact ih.tail ((same _ _ (stays _ ih)).1 e)
  · intro h
    induction h with
    | single e => exact .single ((same _ _ ha).2 e)
    | tail before e ih => exact ih.tail ((same _ _ (stays _ before)).2 e)

theorem transGen_avoids {r : α → α → Prop} {marked : α → Prop}
    (behind : ∀ c, marked c → c ≠ b → ¬ Relation.TransGen r c b) (h : Relation.TransGen r a b) :
    a = b ∨ Relation.TransGen (fun c d => ¬ marked c ∧ r c d) a b := by
  induction h using Relation.TransGen.head_induction_on with
  | single edge =>
    refine or_iff_not_imp_left.2 fun hne => .single ⟨fun hm => ?_, edge⟩
    exact behind _ hm hne (.single edge)
  | head edge rest ih =>
    refine or_iff_not_imp_left.2 fun hne => ?_
    have unmarked : ¬ marked _ := fun hm => behind _ hm hne (.head edge rest)
    obtain rfl | more := ih
    · exact .single ⟨unmarked, edge⟩
    · exact .head ⟨unmarked, edge⟩ more

theorem wellFounded_of_finite_acyclic (finite : {a | (succ a).isSome}.Finite)
    (acyclic : ∀ a, ¬ Below succ a a) : WellFounded fun b a => Edge succ a b := by
  have order : IsStrictOrder α fun b a => Below succ a b :=
    { irrefl := acyclic, trans := fun _ _ _ h h' => h'.trans h }
  have wf : {a | (succ a).isSome}.WellFoundedOn fun b a => Below succ a b :=
    finite.wellFoundedOn
  refine ⟨fun a => ?_⟩
  -- An unknown node has no successors; a known one is handled by induction on the known nodes.
  by_cases ha : (succ a).isSome
  · refine wf.induction (P := fun a => Acc (fun b a => Edge succ a b) a) ha fun c _ ih => ?_
    refine ⟨_, fun b hb => ?_⟩
    by_cases hk : (succ b).isSome
    · exact ih b hk (.single hb)
    · refine ⟨_, fun d hd => ?_⟩
      obtain ⟨l, hl, _⟩ := hd
      simp [hl] at hk
  · refine ⟨_, fun d hd => ?_⟩
    obtain ⟨l, hl, _⟩ := hd
    simp [hl] at ha

section Weight

variable (wf : WellFounded fun b a => Edge succ a b)

noncomputable def weight : α → Nat :=
  wf.fix fun a rec =>
    match h : succ a with
    | none => 1
    | some l => 2 + (l.attach.map fun b => rec b.1 ⟨l, h, b.2⟩).sum

theorem weight_some {a : α} {l : List α} (h : succ a = some l) :
    weight wf a = 2 + (l.map (weight wf)).sum := by
  unfold weight
  rw [wf.fix_eq]
  split
  · simp_all
  · rename_i l' h'
    obtain rfl : l' = l := by simpa [h] using h'.symm
    simp

theorem weight_pos (a : α) : 0 < weight wf a := by
  cases h : succ a with
  | none =>
    unfold weight
    rw [wf.fix_eq]
    split
    · simp
    · simp_all
  | some l => rw [weight_some wf h]; omega

end Weight

end Saltator.Graph
