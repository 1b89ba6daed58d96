import Mathlib.Data.List.Basic
import Mathlib.Tactic.Common

/-!
# Feeds of a numbered log

The entries of a log are numbered from one. A reader has a cursor, the number of the last entry it was
given, and is given the entries behind it, one after the other (`Follows`). Pages of the log follow a
cursor (`page_follows`), and a system whose every step puts out what follows its cursor, and moves the
cursor as far, puts out the log from its first cursor on in every run (`Trace.follows`).

Between the log and a reader may be a broadcast channel that holds the last messages sent, up to a
capacity. A receiver has a position among all messages. Where the message at its position has been
dropped it is told so, and goes on with the oldest that is held (`receive`).
-/

namespace Saltator.Feed

variable {α σ : Type} {entry : Nat → α} {c n : Nat} {a : α} {l l' : List α} {limit : Nat}

/-! ## What follows a cursor -/

/-- These are the entries behind the cursor, none left out. -/
def Follows (entry : Nat → α) : Nat → List α → Prop
  | _, [] => True
  | c, a :: l => a = entry (c + 1) ∧ Follows entry (c + 1) l

@[simp] theorem follows_nil : Follows entry c [] := trivial

@[simp] theorem follows_cons : Follows entry c (a :: l) ↔ a = entry (c + 1) ∧ Follows entry (c + 1) l :=
  .rfl

theorem follows_append : Follows entry c (l ++ l') ↔ Follows entry c l ∧ Follows entry (c + l.length) l' := by
  induction l generalizing c with
  | nil => simp
  | cons a l ih =>
    rw [List.cons_append, follows_cons, ih, follows_cons, and_assoc, List.length_cons,
      Nat.add_assoc c 1, Nat.add_comm 1]

theorem follows_iff : Follows entry c l ↔ l = (List.range' (c + 1) l.length).map entry := by
  induction l generalizing c with
  | nil => simp
  | cons a l ih => rw [follows_cons, ih, List.length_cons, List.range'_succ, List.map_cons, List.cons.injEq]

theorem Follows.getLast? (h : Follows entry c l) (last : l.getLast? = some a) : a = entry (c + l.length) := by
  obtain ⟨front, rfl⟩ := List.getLast?_eq_some_iff.1 last
  rw [(follows_append.1 h).2.1, List.length_append]
  rfl

/-- The first of the entries behind a cursor, up to the number `n`. -/
def page (entry : Nat → α) (n c limit : Nat) : List α :=
  (List.range' (c + 1) (min limit (n - c))).map entry

theorem length_page : (page entry n c limit).length = min limit (n - c) := by
  rw [page, List.length_map, List.length_range']

theorem page_follows : Follows entry c (page entry n c limit) := by
  rw [follows_iff, length_page]
  rfl

theorem page_ne_nil (more : c < n) (pos : 0 < limit) : page entry n c limit ≠ [] := by
  refine List.ne_nil_of_length_pos ?_
  rw [length_page]
  omega

/-! ## Broadcast channels -/

/-- What a receiver gets. -/
inductive Received (α : Type) where
  | message (a : α)
  /-- So many messages have been dropped before they were received. -/
  | lagged (missed : Nat)
  | closed
  deriving DecidableEq

def receive (capacity : Nat) (closed : Bool) (sent : List α) (position : Nat) : Option (Received α × Nat) :=
  if position + capacity < sent.length then
    some (.lagged (sent.length - capacity - position), sent.length - capacity)
  else
    match sent[position]? with
    | some a => some (.message a, position + 1)
    | none => if closed then some (.closed, position) else none

section Receive

variable {capacity position next : Nat} {closed : Bool} {sent : List α}

theorem receive_message (got : receive capacity closed sent position = some (.message a, next)) :
    sent[position]? = some a ∧ next = position + 1 := by
  unfold receive at got
  split at got
  · cases got
  split at got
  · next held =>
    cases got
    exact ⟨held, rfl⟩
  · split at got <;> cases got

theorem receive_ahead (ahead : position < sent.length) :
    (∃ missed, receive capacity closed sent position = some (.lagged missed, sent.length - capacity)) ∨
    receive capacity closed sent position = some (.message sent[position], position + 1) := by
  unfold receive
  split
  · exact .inl ⟨_, rfl⟩
  · rw [List.getElem?_eq_getElem ahead]
    exact .inr rfl

theorem receive_ne_none (ahead : position < sent.length) : receive capacity closed sent position ≠ none := by
  obtain ⟨missed, got⟩ | got : _ ∨ receive capacity closed sent position = _ := receive_ahead ahead <;> simp [got]

theorem receive_lagged {missed : Nat} (pos : 0 < capacity)
    (got : receive capacity closed sent position = some (.lagged missed, next)) : next < sent.length := by
  unfold receive at got
  split at got
  · cases got
    omega
  split at got
  · cases got
  · split at got <;> cases got

end Receive

/-! ## Runs that put entries out -/

/-- Any number of steps, with all that they put out. -/
inductive Trace (step : σ → List α → σ → Prop) : σ → List α → σ → Prop where
  | start (s : σ) : Trace step s [] s
  | step {s t u : σ} {l l' : List α} : Trace step s l t → step t l' u → Trace step s (l ++ l') u

variable {step : σ → List α → σ → Prop} {s t u : σ}

theorem Trace.append (run : Trace step s l t) (more : Trace step t l' u) : Trace step s (l ++ l') u := by
  induction more with
  | start => rwa [List.append_nil]
  | step _ last ih => exact List.append_assoc .. ▸ .step ih last

theorem Trace.follows {I : σ → Prop} (cursor : σ → Nat)
    (keeps : ∀ s l t, I s → step s l t → I t ∧ Follows entry (cursor s) l ∧ cursor t = cursor s + l.length)
    (run : Trace step s l t) (init : I s) :
    I t ∧ Follows entry (cursor s) l ∧ cursor t = cursor s + l.length := by
  induction run with
  | start => exact ⟨init, trivial, rfl⟩
  | step _ last ih =>
    obtain ⟨inv, follows, moved⟩ := ih
    obtain ⟨inv', follows', moved'⟩ := keeps _ _ _ inv last
    refine ⟨inv', follows_append.2 ⟨follows, moved ▸ follows'⟩, ?_⟩
    rw [moved', moved, List.length_append, Nat.add_assoc]

end Saltator.Feed
