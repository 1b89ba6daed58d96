import Mathlib.Data.List.Sort

/-!
# The top of a ranking

A linear order ranks the members of a list, and the first `k` of the ranking are its top. When one member
leaves, the others keep their ranks: the top stays as it was if the member was not in it, and else the
next one in the ranking moves up.
-/

namespace Saltator.Ranking

variable {α : Type} {r : α → α → Prop} [DecidableRel r] {l l' : List α} {x y z : α} {k : Nat}

/-- The first `k` of the ranking. -/
def top (r : α → α → Prop) [DecidableRel r] (k : Nat) (l : List α) : List α :=
  (l.insertionSort r).take k

def next (r : α → α → Prop) [DecidableRel r] (k : Nat) (l : List α) : Option α :=
  ((l.insertionSort r).drop k).head?

theorem mem_of_mem_top (h : x ∈ top r k l) : x ∈ l :=
  (List.mem_insertionSort r).1 (List.mem_of_mem_take h)

theorem nodup_top (h : l.Nodup) : (top r k l).Nodup :=
  ((List.perm_insertionSort r l).nodup_iff.2 h).sublist (List.take_sublist _ _)

theorem length_top : (top r k l).length = min k l.length := by
  rw [top, List.length_take, List.length_insertionSort]

theorem top_eq_top {k' : Nat} (h : min k l.length = min k' l.length) : top r k l = top r k' l := by
  rw [top, top, List.take_eq_take_iff, List.length_insertionSort, h]

theorem mem_drop_iff (nodup : l.Nodup) : y ∈ (l.insertionSort r).drop k ↔ y ∈ l ∧ y ∉ top r k l := by
  have nodup' := (List.perm_insertionSort r l).nodup_iff.2 nodup
  rw [← List.mem_insertionSort r (l := l), top]
  constructor
  · intro below
    exact ⟨List.mem_of_mem_drop below, fun above => List.disjoint_take_drop nodup' le_rfl above below⟩
  · rintro ⟨mem, outside⟩
    rw [← List.take_append_drop k (l.insertionSort r)] at mem
    exact (List.mem_append.1 mem).resolve_left outside

theorem mem_top_of_next (nodup : l.Nodup) (h : next r k l = none) (mem : y ∈ l) : y ∈ top r k l := by
  by_contra outside
  have below := (mem_drop_iff (r := r) nodup).2 ⟨mem, outside⟩
  rw [List.head?_eq_none_iff.1 h] at below
  cases below

section Ranked

variable [Std.Total r] [IsTrans α r]

theorem pairwise_top : (top r k l).Pairwise r :=
  (List.pairwise_insertionSort r l).sublist (List.take_sublist _ _)

theorem rel_of_next (nodup : l.Nodup) (h : next r k l = some y) :
    y ∈ l ∧ y ∉ top r k l ∧ ∀ z ∈ l, z ∉ top r k l → r y z := by
  obtain ⟨rest, split⟩ := List.head?_eq_some_iff.1 h
  obtain ⟨mem, outside⟩ := (mem_drop_iff (r := r) (k := k) nodup).1 (split ▸ List.mem_cons_self)
  refine ⟨mem, outside, fun z mem' outside' => ?_⟩
  have below := (mem_drop_iff (r := r) nodup).2 ⟨mem', outside'⟩
  have ranked := (List.pairwise_insertionSort r l).sublist (List.drop_sublist k _)
  rw [split] at below ranked
  obtain rfl | below := List.mem_cons.1 below
  · exact (Std.Total.total z z).elim id id
  · exact List.rel_of_pairwise_cons ranked below

end Ranked

/-! ## A member leaves -/

variable [DecidableEq α]

theorem take_erase_of_notMem (outside : x ∉ l.take k) : (l.erase x).take k = l.take k := by
  induction l generalizing k with
  | nil => simp
  | cons a l ih =>
    cases k with
    | zero => simp
    | succ k =>
      simp only [List.take_succ_cons, List.mem_cons, not_or] at outside
      rw [List.erase_cons_tail (by simpa using Ne.symm outside.1), List.take_succ_cons, List.take_succ_cons,
        ih outside.2]

theorem take_erase_of_mem (inside : x ∈ l.take k) :
    (l.erase x).take k = (l.take k).erase x ++ (l.drop k).take 1 := by
  induction l generalizing k with
  | nil => simp at inside
  | cons a l ih =>
    cases k with
    | zero => simp at inside
    | succ k =>
      simp only [List.take_succ_cons, List.drop_succ_cons] at inside ⊢
      by_cases same : a = x
      · subst same
        rw [List.erase_cons_head, List.erase_cons_head, List.take_add]
      · rw [List.erase_cons_tail (by simpa using same), List.erase_cons_tail (by simpa using same),
          List.take_succ_cons, ih ((List.mem_cons.1 inside).resolve_left (Ne.symm same)), List.cons_append]

variable [Std.Total r] [IsTrans α r] [Std.Antisymm r]

theorem insertionSort_erase (h : l'.Perm (l.erase x)) : l'.insertionSort r = (l.insertionSort r).erase x := by
  refine List.Perm.eq_of_pairwise' (List.pairwise_insertionSort r l')
    ((List.pairwise_insertionSort r l).sublist List.erase_sublist) ?_
  exact ((List.perm_insertionSort r l').trans h).trans ((List.perm_insertionSort r l).symm.erase x)

theorem top_erase_of_notMem (h : l'.Perm (l.erase x)) (outside : x ∉ top r k l) : top r k l' = top r k l := by
  rw [top, insertionSort_erase h]
  exact take_erase_of_notMem outside

theorem top_erase_of_mem (h : l'.Perm (l.erase x)) (inside : x ∈ top r k l) :
    top r k l' = (top r k l).erase x ++ (next r k l).toList := by
  rw [top, insertionSort_erase h, take_erase_of_mem inside, List.take_one]
  rfl

end Saltator.Ranking
