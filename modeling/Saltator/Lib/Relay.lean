import Mathlib.Data.List.Sort
import Mathlib.Tactic.Common

/-!
# Relays

A relay reads a numbered log from some position on, gathers what it has to pass on, and sends what it has
gathered as one batch. A batch is the part of the log between two positions that has to be passed on
(`Window`). Batches that leave nothing out behind what was sent before are sent in order (`InOrder`),
and two of them with the same ends are the same (`Window.ext`).
-/

namespace Saltator.Relay

variable {due due' : Nat → Prop} {c d n m : Nat} {l l' : List Nat} {older : List (List Nat)}

/-- What is due behind one position, up to another, in its order. -/
structure Window (due : Nat → Prop) (c d : Nat) (l : List Nat) : Prop where
  sorted : l.Pairwise (· < ·)
  mem : ∀ n, n ∈ l ↔ due n ∧ c < n ∧ n ≤ d

namespace Window

theorem nil : Window due c c [] := by
  refine ⟨.nil, fun n => ?_⟩
  simp only [List.not_mem_nil, false_iff]
  omega

theorem congr (h : Window due c d l) (same : ∀ n, n ≤ d → (due' n ↔ due n)) : Window due' c d l := by
  refine ⟨h.sorted, fun n => ?_⟩
  rw [h.mem]
  constructor
  · rintro ⟨own, above, below⟩
    exact ⟨(same n below).2 own, above, below⟩
  · rintro ⟨own, above, below⟩
    exact ⟨(same n below).1 own, above, below⟩

theorem skip (h : Window due c d l) (le : d ≤ m) (none : ∀ n, due n → d < n → m < n) :
    Window due c m l := by
  refine ⟨h.sorted, fun n => ?_⟩
  rw [h.mem]
  constructor
  · rintro ⟨own, above, below⟩
    exact ⟨own, above, by omega⟩
  · rintro ⟨own, above, below⟩
    refine ⟨own, above, ?_⟩
    by_contra beyond
    have := none n own (by omega)
    omega

theorem add (h : Window due c d l) (le : c ≤ d) (lt : d < m) (own : due m)
    (next : ∀ n, due n → d < n → m ≤ n) : Window due c m (l ++ [m]) := by
  constructor
  · rw [List.pairwise_append]
    refine ⟨h.sorted, List.pairwise_singleton _ _, fun n mem b last => ?_⟩
    obtain rfl := List.mem_singleton.1 last
    have := (h.mem n).1 mem
    omega
  · intro n
    rw [List.mem_append, h.mem, List.mem_singleton]
    constructor
    · rintro (⟨due, above, below⟩ | rfl)
      · exact ⟨due, above, by omega⟩
      · exact ⟨own, by omega, le_rfl⟩
    · rintro ⟨due, above, below⟩
      by_cases old : n ≤ d
      · exact .inl ⟨due, above, old⟩
      · have := next n due (by omega)
        exact .inr (by omega)

theorem head_le (h : Window due c d l) (first : l.head? = some n) (mem : m ∈ l) : n ≤ m := by
  cases l with
  | nil => cases mem
  | cons a l =>
    obtain rfl := Option.some.inj first
    obtain rfl | later := List.mem_cons.1 mem
    · exact le_rfl
    · exact ((List.pairwise_cons.1 h.sorted).1 m later).le

theorem le_last (h : Window due c d l) (last : l.getLast? = some n) (mem : m ∈ l) : m ≤ n := by
  obtain ⟨front, rfl⟩ := List.getLast?_eq_some_iff.1 last
  rw [List.mem_append] at mem
  obtain before | own := mem
  · have := (List.pairwise_append.1 h.sorted).2.2 m before n (List.mem_singleton_self n)
    omega
  · exact (List.mem_singleton.1 own).le

/-- **The ends tell the batch.** -/
theorem ext {c' d' : Nat} (h : Window due c d l) (h' : Window due c' d' l') (first : l.head? = l'.head?)
    (last : l.getLast? = l'.getLast?) : l = l' := by
  have within {c d c' d' : Nat} {l l' : List Nat} (h : Window due c d l) (h' : Window due c' d' l')
      (first : l.head? = l'.head?) (last : l.getLast? = l'.getLast?) : ∀ n ∈ l, n ∈ l' := by
    intro n mem
    have filled := List.ne_nil_of_mem mem
    have starts : l.head? = some (l.head filled) := List.head?_eq_some_head filled
    have stops : l.getLast? = some (l.getLast filled) := List.getLast?_eq_some_getLast filled
    have low := h.head_le starts mem
    have high := h.le_last stops mem
    have starts' := (h'.mem _).1 (List.mem_of_head? (first.symm.trans starts))
    have stops' := (h'.mem _).1 (List.mem_of_getLast? (last.symm.trans stops))
    exact (h'.mem n).2 ⟨((h.mem n).1 mem).1, by omega, by omega⟩
  have perm : l.Perm l' := (List.perm_ext_iff_of_nodup (h.sorted.imp fun lt => lt.ne)
    (h'.sorted.imp fun lt => lt.ne)).2 fun n =>
      ⟨within h h' first last n, within h' h first.symm last.symm n⟩
  exact perm.eq_of_pairwise (fun _ _ _ _ lt lt' => absurd lt (by omega)) h.sorted h'.sorted

end Window

/-- The batches that were sent, the newest first: each is sorted, and what it brings for the first time
comes after everything that was sent before. -/
def InOrder : List (List Nat) → Prop
  | [] => True
  | l :: older => InOrder older ∧ l.Pairwise (· < ·) ∧
      ∀ n ∈ l, n ∉ older.flatten → ∀ m ∈ older.flatten, m < n

def Closed (due : Nat → Prop) (start : Nat) (sent : List (List Nat)) : Prop :=
  ∀ n ∈ sent.flatten, ∀ m, due m → start < m → m < n → m ∈ sent.flatten

section Send

variable {start : Nat} (closed : Closed due start older) (h : Window due c d l)
include closed h

theorem Closed.cons (upto : ∀ n, due n → start < n → n ≤ c → n ∈ older.flatten) :
    Closed due start (l :: older) := by
  intro n mem m own above below
  rw [List.flatten_cons, List.mem_append] at mem ⊢
  obtain new | old := mem
  · by_cases before : m ≤ c
    · exact .inr (upto m own above before)
    · have := (h.mem n).1 new
      exact .inl ((h.mem m).2 ⟨own, by omega, by omega⟩)
  · exact .inr (closed n old m own above below)

theorem InOrder.cons (inOrder : InOrder older) (le : start ≤ c) : InOrder (l :: older) := by
  refine ⟨inOrder, h.sorted, fun n mem new m old => ?_⟩
  by_contra beyond
  obtain ⟨own, above, -⟩ := (h.mem n).1 mem
  have ne : m ≠ n := fun same => new (same ▸ old)
  exact new (closed m old n own (by omega) (by omega))

end Send

theorem Closed.congr (closed : Closed due c older) (same : ∀ n m, n ∈ older.flatten → m < n → due' m → due m) :
    Closed due' c older :=
  fun n mem m own above below => closed n mem m (same n m mem below own) above below

end Saltator.Relay
