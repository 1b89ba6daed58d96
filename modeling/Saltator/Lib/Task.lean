import Mathlib.Tactic.Common

/-!
# Tasks

A task asks its surroundings one question after the other, and goes on with each answer. `Task.eval` is
its run where every question is answered, `Task.asked` what it asks on the way. In `Task.exec` a
question may also fail, and the process may die, before the surroundings have acted on the question or
after. A task that succeeds has met neither (`Task.exec_eq_ok`).
-/

namespace Saltator

/-- A program that waits for an answer after each of its questions. -/
inductive Task (Q : Type) (A : Q → Type) (ε ρ : Type) where
  | done (result : Except ε ρ)
  | ask (question : Q) (next : A question → Task Q A ε ρ)

/-- What becomes of a question. `acted` is whether the surroundings have acted on it. -/
inductive Fate (ε : Type) where
  | answered
  | failed (acted : Bool) (e : ε)
  | crashed (acted : Bool)
  deriving DecidableEq

namespace Task

variable {Q : Type} {A : Q → Type} {ε ρ τ σ : Type}

def bind : Task Q A ε ρ → (ρ → Task Q A ε τ) → Task Q A ε τ
  | .done (.ok r), f => f r
  | .done (.error e), _ => .done (.error e)
  | .ask q next, f => .ask q fun a => (next a).bind f

instance : Monad (Task Q A ε) where
  pure r := .done (.ok r)
  bind := bind

/-- Ask, and return the answer. -/
def question (q : Q) : Task Q A ε (A q) := .ask q fun a => .done (.ok a)

@[simp] theorem pure_eq (r : ρ) : (pure r : Task Q A ε ρ) = .done (.ok r) := rfl

@[simp] theorem done_ok_bind (r : ρ) (f : ρ → Task Q A ε τ) :
    (done (.ok r) >>= f : Task Q A ε τ) = f r := rfl

@[simp] theorem done_error_bind (e : ε) (f : ρ → Task Q A ε τ) :
    (done (.error e) >>= f : Task Q A ε τ) = .done (.error e) := rfl

@[simp] theorem question_bind (q : Q) (f : A q → Task Q A ε τ) :
    (question q >>= f : Task Q A ε τ) = .ask q f := rfl

section Run

variable (answer : σ → (q : Q) → A q × σ)

def eval : Task Q A ε ρ → σ → Except ε ρ × σ
  | .done r, s => (r, s)
  | .ask q next, s => (next (answer s q).1).eval (answer s q).2

/-- A run, with the fates of its questions. There is no result when the process dies, as it does where
the fates end. -/
def exec : Task Q A ε ρ → σ → List (Fate ε) → Option (Except ε ρ) × σ
  | .done r, s, _ => (some r, s)
  | .ask _ _, s, [] => (none, s)
  | .ask q next, s, .answered :: fates => (next (answer s q).1).exec (answer s q).2 fates
  | .ask q _, s, .failed acted e :: _ => (some (.error e), if acted then (answer s q).2 else s)
  | .ask q _, s, .crashed acted :: _ => (none, if acted then (answer s q).2 else s)

variable {answer} {t : Task Q A ε ρ} {s u : σ} {r : ρ} {fates : List (Fate ε)}

/-- The questions of a run, where every one is answered in the same way however often it is asked. -/
def asked (answer : (q : Q) → A q) : Task Q A ε ρ → List Q
  | .done _ => []
  | .ask q next => q :: (next (answer q)).asked answer

@[simp] theorem asked_done (answer : (q : Q) → A q) (x : Except ε ρ) :
    (done x : Task Q A ε ρ).asked answer = [] := rfl

@[simp] theorem asked_ask (answer : (q : Q) → A q) (q : Q) (next : A q → Task Q A ε ρ) :
    (ask q next).asked answer = q :: (next (answer q)).asked answer := rfl

@[simp] theorem eval_done (x : Except ε ρ) : (done x : Task Q A ε ρ).eval answer s = (x, s) := rfl

@[simp] theorem eval_ask (q : Q) (next : A q → Task Q A ε ρ) :
    (ask q next).eval answer s = (next (answer s q).1).eval answer (answer s q).2 := rfl

theorem eval_bind_eq_ok {f : ρ → Task Q A ε τ} {x : τ} : (t >>= f).eval answer s = (.ok x, u) ↔
      ∃ r v, t.eval answer s = (.ok r, v) ∧ (f r).eval answer v = (.ok x, u) := by
  induction t generalizing s with
  | done result =>
    cases result with
    | ok r =>
      constructor
      · intro ran
        exact ⟨r, s, rfl, ran⟩
      · rintro ⟨r', v, ended, ran⟩
        cases ended
        exact ran
    | error e =>
      constructor
      · intro ran
        cases ran
      · rintro ⟨r, v, ended, -⟩
        cases ended
  | ask q next ih => exact ih _

theorem exec_eq_ok (ran : t.exec answer s fates = (some (.ok r), u)) : t.eval answer s = (.ok r, u) := by
  induction t generalizing s fates with
  | done result =>
    cases ran
    rfl
  | ask q next ih =>
    cases fates with
    | nil => cases ran
    | cons fate fates =>
      cases fate with
      | answered => exact ih _ ran
      | failed acted e => cases ran
      | crashed acted => cases ran

end Run

end Task

end Saltator
