import Saltator.Lib.Batch

/-!
# Histories

A machine's commands leave traces: `events` says what a command did, from the state before it, the
state after it and its response. `Recorded e s history` holds of the states that batches lead to, `e`
being the one in which the current batch began, and of all that was done on the way. What a history
says of the state is proved by induction on it, one command at a time.

`Since` and `Due` look back: at what happened and has not been undone, and at what every event needed.
-/

namespace Saltator.Batch

open Saltator.Outcome

section Histories

variable {ε σ κ ρ ω : Type} (step : σ → σ → κ → Except ε (σ × ρ)) (P : σ → σ → κ → Prop)
  (events : σ → κ → σ → ρ → List ω)

/-- The states that commands lead to from `init`, each of them meeting `P` at its place. -/
inductive Recorded (init : σ) : σ → σ → List ω → Prop
  | start : Recorded init init init []
  /-- A batch ends, and the next one begins. -/
  | cut {e s : σ} {history : List ω} (run : Recorded init e s history) : Recorded init s s history
  | command {e s t : σ} {history : List ω} {c : κ} {r : ρ} (run : Recorded init e s history)
      (meets : P e s c) (applied : step e s c = .ok (t, r)) :
      Recorded init e t (history ++ events s c t r)

/-- The rest of a batch that began in `e`, with its history. -/
def recordBatch (e : σ) : σ × List ω → List κ → Except ε (σ × List ω)
  | x, [] => .ok x
  | (s, history), c :: cs => do
    let (t, r) ← step e s c
    recordBatch e (t, history ++ events s c t r) cs

def record : σ × List ω → List (List κ) → Except ε (σ × List ω)
  | x, [] => .ok x
  | x, b :: bs => do record (← recordBatch step events x.1 x b) bs

variable {step P events} {init e s t : σ} {history after : List ω}

theorem Recorded.batch {cs : List κ} (run : Recorded step P events init e s history)
    (applied : recordBatch step events e (s, history) cs = .ok (t, after))
    (meets : ∀ s, ∀ c ∈ cs, P e s c) : Recorded step P events init e t after := by
  induction cs generalizing s history with
  | nil =>
    obtain ⟨rfl, rfl⟩ := ok_pair applied
    exact run
  | cons c cs ih =>
    obtain ⟨⟨u, r⟩, first, rest⟩ := bind_eq_ok.1 applied
    exact ih (run.command (meets s c List.mem_cons_self) first) rest
      fun s c mem => meets s c (List.mem_cons_of_mem _ mem)

theorem Recorded.singly {cs : List κ} (run : Recorded step P events init e s history)
    (applied : record step events (s, history) (cs.map fun c => [c]) = .ok (t, after))
    (meets : ∀ s, ∀ c ∈ cs, P s s c) : Recorded step P events init t t after := by
  induction cs generalizing e s history with
  | nil =>
    obtain ⟨rfl, rfl⟩ := ok_pair applied
    exact run.cut
  | cons c cs ih =>
    obtain ⟨⟨u, between⟩, first, rest⟩ := bind_eq_ok.1 applied
    obtain ⟨⟨v, r⟩, applied, same⟩ := bind_eq_ok.1 first
    obtain ⟨rfl, rfl⟩ := ok_pair same
    exact ih (run.cut.command (meets s c List.mem_cons_self) applied) rest
      fun s c mem => meets s c (List.mem_cons_of_mem _ mem)

theorem Recorded.invariant {I : σ → σ → List ω → Prop} (start : I init init [])
    (cut : ∀ {e s history}, I e s history → I s s history)
    (command : ∀ {e s t history c r}, I e s history → P e s c → step e s c = .ok (t, r) →
      I e t (history ++ events s c t r))
    (run : Recorded step P events init e s history) : I e s history := by
  induction run with
  | start => exact start
  | cut _ ih => exact cut ih
  | command _ meets applied ih => exact command ih meets applied

end Histories

section Past

variable {ω : Type} {opens closes : ω → Prop} {Q : List ω → ω → Prop} {history before after : List ω}
  {x y : ω}

theorem append_singleton_eq : history ++ [x] = before ++ y :: after ↔
    (after = [] ∧ history = before ∧ x = y) ∨
      ∃ rest, after = rest ++ [x] ∧ history = before ++ y :: rest := by
  constructor
  · intro cut
    obtain rfl | ⟨rest, last, rfl⟩ := List.eq_nil_or_concat after
    · obtain ⟨same, last⟩ := List.append_inj' cut rfl
      exact .inl ⟨rfl, same, List.singleton_inj.1 last⟩
    · rw [List.concat_eq_append, ← List.cons_append, ← List.append_assoc] at cut
      obtain ⟨same, last⟩ := List.append_inj' cut rfl
      obtain rfl := List.singleton_inj.1 last
      exact .inr ⟨rest, List.concat_eq_append, same⟩
  · rintro (⟨rfl, rfl, rfl⟩ | ⟨rest, rfl, rfl⟩)
    · rfl
    · rw [List.append_assoc, List.cons_append]

/-- An event that opens, and none since that closes. -/
def Since (opens closes : ω → Prop) (history : List ω) : Prop :=
  ∃ before x after, history = before ++ x :: after ∧ opens x ∧ ∀ y ∈ after, ¬ closes y

theorem since_append_singleton :
    Since opens closes (history ++ [x]) ↔ opens x ∨ Since opens closes history ∧ ¬ closes x := by
  constructor
  · rintro ⟨before, y, after, cut, opened, kept⟩
    obtain ⟨rfl, rfl, rfl⟩ | ⟨rest, rfl, rfl⟩ := append_singleton_eq.1 cut
    · exact .inl opened
    · exact .inr ⟨⟨before, y, rest, rfl, opened, fun z mem => kept z (List.mem_append_left _ mem)⟩,
        kept x (by simp)⟩
  · rintro (opened | ⟨⟨before, y, after, rfl, opened, kept⟩, open'⟩)
    · exact ⟨history, x, [], rfl, opened, nofun⟩
    · refine ⟨before, y, after ++ [x], by simp, opened, fun z mem => ?_⟩
      obtain mem | mem := List.mem_append.1 mem
      · exact kept z mem
      · exact List.mem_singleton.1 mem ▸ open'

/-- Every event had what it needs, in what came before it. -/
def Due (Q : List ω → ω → Prop) (history : List ω) : Prop :=
  ∀ before x after, history = before ++ x :: after → Q before x

theorem due_nil : Due Q [] := by
  intro before x after cut
  simp at cut

theorem due_append_singleton : Due Q (history ++ [x]) ↔ Due Q history ∧ Q history x := by
  constructor
  · intro h
    refine ⟨fun before y after cut => ?_, h history x [] rfl⟩
    exact h before y (after ++ [x]) (append_singleton_eq.2 (.inr ⟨after, rfl, cut⟩))
  · rintro ⟨h, last⟩ before y after cut
    obtain ⟨rfl, rfl, rfl⟩ | ⟨rest, rfl, rfl⟩ := append_singleton_eq.1 cut
    · exact last
    · exact h before y rest rfl

end Past

end Saltator.Batch
