import Mathlib.Data.List.Perm.Basic
import Mathlib.Tactic.Common

/-!
# The least first

Orders of finitely many elements that depend on each other: an element is available once all that it depends
on has been taken, and each step takes the least one of those that are. There is at most one such order.
-/

namespace Saltator.Greedy

variable {α : Type}

/-- All that the element depends on has been taken. -/
def Available (dep : α → α → Prop) (taken : List α) (x : α) : Prop := ∀ y, dep x y → y ∈ taken

/-- Each element is available in its place, and the least of those that are available and left. -/
def LeastFirst (dep le : α → α → Prop) (order : List α) : Prop :=
  ∀ taken x rest, order = taken ++ x :: rest →
    Available dep taken x ∧ ∀ y ∈ rest, Available dep taken y → le x y

/-- A start of such an order of the elements of `X`. -/
def Progress (X : α → Prop) (dep le : α → α → Prop) (out : List α) : Prop :=
  ∀ taken x rest, out = taken ++ x :: rest →
    Available dep taken x ∧ ∀ y, X y → y ∉ taken → Available dep taken y → le x y

variable {X : α → Prop} {dep le : α → α → Prop} {out order order' : List α} {x y : α}

theorem Progress.nil : Progress X dep le [] := by
  intro taken x rest same
  simp at same

theorem Progress.snoc (h : Progress X dep le out) (available : Available dep out x)
    (least : ∀ y, X y → y ∉ out → Available dep out y → le x y) : Progress X dep le (out ++ [x]) := by
  intro taken a rest same
  obtain rfl | ⟨rest, last, rfl⟩ := List.eq_nil_or_concat rest
  · obtain ⟨rfl, own⟩ := List.append_inj' same rfl
    obtain rfl := List.singleton_inj.1 own
    exact ⟨available, least⟩
  · have inner : out ++ [x] = (taken ++ a :: rest) ++ [last] := by simpa using same
    exact h taken a rest (List.append_inj' inner rfl).1

theorem Progress.available (h : Progress X dep le out) (mem : x ∈ out) (needs : dep x y) : y ∈ out := by
  obtain ⟨taken, rest, rfl⟩ := List.append_of_mem mem
  exact List.mem_append_left _ ((h taken x rest rfl).1 y needs)

theorem Progress.leastFirst (h : Progress X dep le out) (nodup : out.Nodup) (within : ∀ x ∈ out, X x) :
    LeastFirst dep le out := by
  rintro taken x rest rfl
  obtain ⟨available, least⟩ := h taken x rest rfl
  refine ⟨available, fun y mem => least y (within y (by simp [mem])) fun early => ?_⟩
  exact (List.nodup_append.1 nodup).2.2 y early y (List.mem_cons_of_mem _ mem) rfl

theorem LeastFirst.unique (antisymm : ∀ x y, le x y → le y x → x = y) (h : LeastFirst dep le order)
    (h' : LeastFirst dep le order') (perm : order.Perm order') : order = order' := by
  suffices after : ∀ rest taken rest', order = taken ++ rest → order' = taken ++ rest' → rest.Perm rest' →
      rest = rest' from after order [] order' rfl rfl perm
  intro rest
  induction rest with
  | nil => exact fun taken rest' _ _ perm => (List.nil_perm.1 perm).symm
  | cons x rest ih =>
    intro taken rest' split split' perm
    cases rest' with
    | nil => exact absurd (List.perm_nil.1 perm) (List.cons_ne_nil x rest)
    | cons x' rest' =>
      obtain ⟨available, least⟩ := h taken x rest split
      obtain ⟨available', least'⟩ := h' taken x' rest' split'
      -- the two elements are both available, so each of them is at most the other
      have same : x = x' := by
        rcases List.mem_cons.1 (perm.mem_iff.2 List.mem_cons_self) with own | later
        · exact own.symm
        rcases List.mem_cons.1 (perm.mem_iff.1 List.mem_cons_self) with own | later'
        · exact own
        exact antisymm x x' (least x' later available') (least' x later' available)
      subst same
      exact congrArg (x :: ·) (ih (taken ++ [x]) rest' (by simpa using split) (by simpa using split')
        perm.cons_inv)

end Saltator.Greedy
