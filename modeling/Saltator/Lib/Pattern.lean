import Mathlib.Data.List.Infix

/-!
# Patterns in lists

Cutting a list at the occurrences of a pattern, from left to right. An occurrence of an unbordered
pattern overlaps no other, so that cutting respects appending at an occurrence.
-/

namespace Saltator.Pattern

variable {α : Type} {pat q l a b x y : List α} {c : α}

/-! ## Where a pattern can occur -/

theorem infix_append_cons (absent : c ∉ pat) : pat <:+: a ++ c :: b ↔ pat <:+: a ∨ pat <:+: b := by
  constructor
  · rintro ⟨u, v, same⟩
    rw [List.append_assoc, List.append_eq_append_iff] at same
    obtain ⟨w, rfl, same⟩ | ⟨w, rfl, same⟩ := same
    · rw [List.append_eq_append_iff] at same
      obtain ⟨t, rfl, -⟩ | ⟨t, rfl, same⟩ := same
      · exact .inl ⟨u, t, by simp⟩
      · cases t with
        | nil => exact .inl ⟨u, [], by simp⟩
        | cons d t =>
          obtain ⟨rfl, -⟩ := List.cons.inj same
          simp at absent
    · cases w with
      | nil =>
        cases pat with
        | nil => exact .inl (List.nil_infix)
        | cons d pat =>
          obtain ⟨rfl, -⟩ := List.cons.inj same
          simp at absent
      | cons d w =>
        obtain ⟨rfl, rfl⟩ := List.cons.inj same
        exact .inr ⟨w, v, by simp⟩
  · rintro (occurs | occurs)
    · exact occurs.trans (List.infix_append' [] a (c :: b))
    · exact occurs.trans ⟨a ++ [c], [], by simp⟩

theorem infix_of_append_disjoint (filled : pat ≠ []) (disjoint : ∀ c ∈ a, c ∉ pat)
    (occurs : pat <:+: a ++ b) : pat <:+: b := by
  induction a with
  | nil => exact occurs
  | cons c a ih =>
    obtain front | later := List.infix_cons_iff.1 occurs
    · cases pat with
      | nil => exact absurd rfl filled
      | cons d pat =>
        obtain ⟨rfl, -⟩ := List.cons_prefix_cons.1 front
        exact absurd List.mem_cons_self (disjoint d List.mem_cons_self)
    · exact ih (fun c mem => disjoint c (List.mem_cons_of_mem _ mem)) later

theorem infix_of_append (occurs : pat ++ q <:+: x ++ y) (short : y.length ≤ q.length) : pat <:+: x := by
  obtain ⟨u, v, same⟩ := occurs
  have start : u ++ pat <+: x := by
    have within : u ++ pat <+: x ++ y := ⟨q ++ v, by simpa using same⟩
    refine List.prefix_of_prefix_length_le within (List.prefix_append x y) ?_
    have := congrArg List.length same
    simp only [List.length_append] at this ⊢
    omega
  exact (List.suffix_append u pat).isInfix.trans start.isInfix

theorem prefix_of_first {w : List α} (first : ¬ pat <:+: a ++ pat.dropLast)
    (same : w ++ pat ++ x = a ++ pat ++ b) : a <+: w := by
  have within : ∀ {l : List α}, l <+: w ++ pat ++ x → l <+: a ++ pat ++ b := fun h => same ▸ h
  have early : a <+: a ++ pat ++ b := ⟨pat ++ b, by simp⟩
  refine List.prefix_of_prefix_length_le early (within ⟨pat ++ x, by simp⟩) ?_
  by_contra early
  refine first ((List.suffix_append w pat).isInfix.trans (List.IsPrefix.isInfix ?_))
  refine List.prefix_of_prefix_length_le (within (List.prefix_append _ _)) ?_ ?_
  · exact ((List.prefix_append_right_inj a).2 (List.dropLast_prefix pat)).trans (List.prefix_append _ _)
  · simp only [List.length_append, List.length_dropLast]
    omega

/-! ## Cutting -/

variable [DecidableEq α] {piece : List α}

/-- What is before the first occurrence of a pattern, and what is after it. -/
def cut (pat : List α) : List α → Option (List α × List α)
  | [] => if pat = [] then some ([], []) else none
  | x :: l =>
    if pat <+: x :: l then some ([], (x :: l).drop pat.length)
    else (cut pat l).map fun r => (x :: r.1, r.2)

/-- The pieces between the occurrences of a pattern. The next `skip` elements are of an occurrence,
and `piece` has come since the last one. -/
def piecesFrom (pat : List α) : Nat → List α → List α → List (List α)
  | _, piece, [] => [piece]
  | skip + 1, piece, _ :: l => piecesFrom pat skip piece l
  | 0, piece, x :: l =>
    if pat <+: x :: l then piece :: piecesFrom pat (pat.length - 1) [] l
    else piecesFrom pat 0 (piece ++ [x]) l

def pieces (pat l : List α) : List (List α) := piecesFrom pat 0 [] l

/-- No proper start of the pattern is an end of it. -/
def Unbordered (pat : List α) : Prop :=
  pat ≠ [] ∧ ∀ k < pat.length, 0 < k → ¬ pat.take k <:+ pat

instance (pat : List α) : Decidable (Unbordered pat) := by unfold Unbordered; infer_instance

theorem Unbordered.infix_append_dropLast (unbordered : Unbordered pat) :
    pat <:+: a ++ pat.dropLast ↔ pat <:+: a := by
  refine ⟨?_, fun occurs => occurs.trans (List.prefix_append a _).isInfix⟩
  rintro ⟨u, v, same⟩
  by_contra absent
  have lengths := congrArg List.length same
  simp only [List.length_append, List.length_dropLast] at lengths
  have filled := List.length_pos_iff.2 unbordered.1
  -- the occurrence would end `k` elements after `a`
  have longer : a.length < u.length + pat.length := by
    by_contra within
    refine absent (List.IsInfix.trans (List.suffix_append u pat).isInfix ?_)
    have inside : u ++ pat <+: a ++ pat.dropLast := ⟨v, same⟩
    refine (List.prefix_of_prefix_length_le inside (List.prefix_append a _) ?_).isInfix
    rw [List.length_append]
    omega
  obtain ⟨k, hk⟩ : ∃ k, u.length + pat.length = a.length + k := ⟨_, (Nat.add_sub_cancel' longer.le).symm⟩
  refine unbordered.2 k (by omega) (by omega) ?_
  have ended : (u ++ pat).drop a.length = pat.take k := by
    have whole := congrArg (List.take (a.length + k)) same
    rw [List.take_append_of_le_length (by simp; omega), List.take_of_length_le (by simp; omega)] at whole
    rw [whole, List.take_length_add_append, List.drop_left, List.dropLast_eq_take, List.take_take,
      Nat.min_eq_left (by omega)]
  rw [← ended, List.drop_append, List.drop_of_length_le (by omega)]
  exact List.drop_suffix _ _

theorem cut_eq_none (filled : pat ≠ []) : cut pat l = none ↔ ¬ pat <:+: l := by
  induction l with
  | nil => simp [cut, filled]
  | cons x l ih =>
    rw [cut, List.infix_cons_iff]
    split
    · simp_all
    · simp_all

theorem cut_append (filled : pat ≠ []) (first : ¬ pat <:+: a ++ pat.dropLast) :
    cut pat (a ++ pat ++ b) = some (a, b) := by
  induction a with
  | nil =>
    cases pat with
    | nil => exact absurd rfl filled
    | cons c pat =>
      have own : c :: pat <+: c :: (pat ++ b) := List.prefix_append (c :: pat) b
      rw [List.nil_append, List.cons_append, cut, if_pos own, ← List.cons_append, List.drop_left]
  | cons x a ih =>
    have later : ¬ pat <+: x :: (a ++ pat ++ b) := by
      intro early
      have whole : pat.dropLast ++ pat.getLast filled :: b = pat ++ b := by
        rw [List.append_cons, List.dropLast_append_getLast]
      refine first (List.prefix_of_prefix_length_le early ⟨pat.getLast filled :: b, ?_⟩ ?_).isInfix
      · rw [List.append_assoc, whole, List.cons_append, List.append_assoc]
      · simp only [List.length_append, List.length_cons, List.length_dropLast]
        omega
    rw [List.cons_append, List.cons_append, cut, if_neg later, ih fun occurs => first ?_]
    · rfl
    · exact occurs.trans (List.suffix_cons x _).isInfix

theorem cut_eq_some (filled : pat ≠ []) (h : cut pat l = some (a, b)) :
    l = a ++ pat ++ b ∧ ¬ pat <:+: a ++ pat.dropLast := by
  induction l generalizing a with
  | nil => simp [cut, filled] at h
  | cons x l ih =>
    rw [cut] at h
    split at h
    · rename_i own
      obtain ⟨t, ht⟩ := own
      cases h
      refine ⟨?_, fun occurs => ?_⟩
      · rw [← ht, List.nil_append, List.drop_left]
      · have := occurs.length_le
        have := List.length_pos_iff.2 filled
        simp only [List.nil_append, List.length_dropLast] at *
        omega
    · rename_i other
      obtain ⟨⟨a', b'⟩, inner, same⟩ := Option.map_eq_some_iff.1 h
      cases same
      obtain ⟨rfl, first⟩ := ih inner
      refine ⟨rfl, ?_⟩
      rw [List.cons_append, List.infix_cons_iff, not_or]
      refine ⟨fun early => other (early.trans ?_), first⟩
      rw [List.append_assoc, ← List.cons_append, ← List.cons_append]
      exact (List.prefix_append_right_inj _).2 ((List.dropLast_prefix pat).trans (List.prefix_append _ _))

/-! ## Pieces -/

theorem piecesFrom_skip {k : Nat} : piecesFrom pat k piece l = piecesFrom pat 0 piece (l.drop k) := by
  induction l generalizing k with
  | nil => simp [piecesFrom]
  | cons x l ih =>
    cases k with
    | zero => rfl
    | succ k => rw [piecesFrom, ih, List.drop_succ_cons]

theorem piecesFrom_eq (filled : pat ≠ []) : piecesFrom pat 0 piece l =
      match cut pat l with
      | none => [piece ++ l]
      | some (a, b) => (piece ++ a) :: pieces pat b := by
  induction l generalizing piece with
  | nil => simp [piecesFrom, cut, filled]
  | cons x l ih =>
    rw [piecesFrom, cut]
    split
    · obtain ⟨k, hk⟩ := Nat.exists_eq_succ_of_ne_zero (mt List.length_eq_zero_iff.1 filled)
      rw [piecesFrom_skip, hk, List.drop_succ_cons]
      dsimp only
      rw [List.append_nil]
      rfl
    · rw [ih]
      cases cut pat l <;> simp

theorem pieces_of_absent (filled : pat ≠ []) (absent : ¬ pat <:+: l) : pieces pat l = [l] := by
  rw [pieces, piecesFrom_eq filled, (cut_eq_none filled).2 absent]
  rfl

theorem pieces_of_cut (filled : pat ≠ []) (h : cut pat l = some (a, b)) :
    pieces pat l = a :: pieces pat b := by
  rw [pieces, piecesFrom_eq filled, h]
  rfl

theorem pieces_induction (filled : pat ≠ []) {motive : List α → Prop} (last : ∀ l, ¬ pat <:+: l → motive l)
    (more : ∀ l a b, cut pat l = some (a, b) → motive b → motive l) (l : List α) : motive l := by
  generalize size : l.length = n
  induction n using Nat.strong_induction_on generalizing l with
  | _ n ih =>
    subst size
    cases h : cut pat l with
    | none => exact last l ((cut_eq_none filled).1 h)
    | some r =>
      refine more l r.1 r.2 h (ih _ ?_ _ rfl)
      have := congrArg List.length (cut_eq_some filled h).1
      have := List.length_pos_iff.2 filled
      simp only [List.length_append] at *
      omega

theorem mem_pieces (filled : pat ≠ []) (mem : q ∈ pieces pat l) : ¬ pat <:+: q ∧
    ∃ u v, l = u ++ q ++ v ∧ (u = [] ∨ pat <:+ u) ∧ (v = [] ∨ pat <+: v) := by
  induction l using pieces_induction filled with
  | last l absent =>
    rw [pieces_of_absent filled absent, List.mem_singleton] at mem
    subst mem
    exact ⟨absent, [], [], by simp⟩
  | more l a b h ih =>
    obtain ⟨rfl, first⟩ := cut_eq_some filled h
    rw [pieces_of_cut filled h, List.mem_cons] at mem
    obtain rfl | mem := mem
    · refine ⟨fun occurs => first (occurs.trans (List.prefix_append _ _).isInfix), [], pat ++ b, ?_⟩
      simp
    · obtain ⟨free, u, v, rfl, before, after⟩ := ih mem
      refine ⟨free, a ++ pat ++ u, v, by simp, .inr ?_, after⟩
      obtain rfl | ended := before
      · simp
      · exact ended.trans (List.suffix_append _ u)

theorem Unbordered.pieces_append (unbordered : Unbordered pat) :
    pieces pat (x ++ pat ++ y) = pieces pat x ++ pieces pat y := by
  have filled := unbordered.1
  induction x using pieces_induction filled with
  | last x absent =>
    rw [pieces_of_absent filled absent,
      pieces_of_cut filled (cut_append filled (mt unbordered.infix_append_dropLast.1 absent))]
    rfl
  | more x a b h ih =>
    obtain ⟨rfl, first⟩ := cut_eq_some filled h
    have longer : cut pat (a ++ pat ++ b ++ pat ++ y) = some (a, b ++ pat ++ y) := by
      simpa using cut_append (b := b ++ pat ++ y) filled first
    rw [pieces_of_cut filled h, pieces_of_cut filled longer, ih, List.cons_append]

end Saltator.Pattern
