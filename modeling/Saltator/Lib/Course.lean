import Mathlib.Data.List.Infix
import Mathlib.Tactic.Common

/-!
# Going through rows page by page

Rows have an order, and a reader who stands somewhere has some of them ahead. A page is taken of what is
ahead, and the next page is read from its last row. Rows may join behind all others while pages are read.
-/

namespace Saltator

/-- Where a reader can stand among rows, and which rows are ahead from there. -/
structure Course (π ρ : Type) where
  on : ρ → π
  ahead : π → ρ → Bool
  asymm : ∀ a b, ahead (on a) b → ahead (on b) a = false
  trans : ∀ p a b, ahead p a → ahead (on a) b → ahead p b

namespace Course

variable {π ρ : Type} (C : Course π ρ)

def Ordered (rows : List ρ) : Prop := rows.Pairwise fun a b => C.ahead (C.on a) b

def rest (p : π) (rows : List ρ) : List ρ := rows.filter (C.ahead p)

variable {C} {p : π} {rows rows' l m : List ρ} {r : ρ}

theorem not_ahead_self (C : Course π ρ) (r : ρ) : C.ahead (C.on r) r = false := by
  by_contra h
  have there := Bool.not_eq_false _ ▸ h
  rw [C.asymm r r there] at there
  cases there

theorem rest_on (ordered : C.Ordered rows) (h : C.rest p rows = l ++ r :: m) :
    C.rest (C.on r) rows = m := by
  have here : C.ahead p r := (List.mem_filter.1 (h ▸ List.mem_append_right l List.mem_cons_self)).2
  have narrowed : C.rest (C.on r) rows = (C.rest p rows).filter (C.ahead (C.on r)) := by
    rw [rest, rest, List.filter_filter]
    refine List.filter_congr fun x _ => ?_
    cases later : C.ahead (C.on r) x
    · rfl
    · exact (C.trans p r x here later).symm
  have sorted : C.Ordered (l ++ r :: m) := h ▸ List.Pairwise.filter _ ordered
  obtain ⟨-, after, apart⟩ := List.pairwise_append.1 sorted
  have before : l.filter (C.ahead (C.on r)) = [] := by
    refine List.filter_eq_nil_iff.2 fun x mem => ?_
    rw [C.asymm x r (apart x mem r List.mem_cons_self)]
    exact Bool.false_ne_true
  rw [narrowed, h, List.filter_append, before, List.filter_cons_of_neg (by simp [C.not_ahead_self r]),
    List.nil_append, List.filter_eq_self]
  exact (List.pairwise_cons.1 after).1

theorem rest_getLast (ordered : C.Ordered rows) (h : C.rest p rows = l ++ m)
    (last : l.getLast? = some r) : C.rest (C.on r) rows = m := by
  obtain ⟨l, rfl⟩ := List.getLast?_eq_some_iff.1 last
  exact rest_on ordered (by rw [h, List.append_assoc]; rfl)

theorem rest_le (grown : rows <+: rows') : C.rest p rows <+: C.rest p rows' :=
  List.IsPrefix.filter _ grown

theorem rest_end (ordered : C.Ordered rows) (h : C.rest p rows = l ++ m) :
    C.rest ((l.getLast?.map C.on).getD p) rows = m := by
  cases last : l.getLast? with
  | none =>
    rw [List.getLast?_eq_none_iff.1 last] at h
    exact h
  | some r => exact rest_getLast ordered h last

theorem page_append (ordered : C.Ordered rows') (front : l <+: C.rest p rows) (grown : rows <+: rows')
    (last : l.getLast? = some r) : l ++ C.rest (C.on r) rows' = C.rest p rows' := by
  obtain ⟨later, whole⟩ := front.trans (rest_le grown)
  rw [rest_getLast ordered whole.symm last, whole]

theorem length_rest_lt (ordered : C.Ordered rows) (front : l <+: C.rest p rows)
    (last : l.getLast? = some r) : (C.rest (C.on r) rows).length < (C.rest p rows).length := by
  obtain ⟨later, whole⟩ := front
  rw [rest_getLast ordered whole.symm last, ← whole, List.length_append]
  have := List.length_pos_of_mem (List.mem_of_getLast? last)
  omega

end Course

end Saltator
