import Mathlib.Logic.Relation
import Mathlib.Tactic.Common

/-!
# Steps in any order

A system whose every step is a function of its state and of an action, chosen by its surroundings. An
action is permitted in some states only. What every permitted step preserves holds wherever permitted
steps lead.
-/

namespace Saltator.Steps

variable {σ κ : Type} (step : σ → κ → σ) (P : σ → κ → Prop)

/-- Any number of permitted steps. -/
def Reaches : σ → σ → Prop := Relation.ReflTransGen fun s t => ∃ c, P s c ∧ t = step s c

def Permitted : σ → List κ → Prop
  | _, [] => True
  | s, c :: cs => P s c ∧ Permitted (step s c) cs

instance Permitted.decidable [∀ s c, Decidable (P s c)] : ∀ (s : σ) (cs : List κ), Decidable (Permitted step P s cs)
  | _, [] => .isTrue trivial
  | s, c :: cs => @instDecidableAnd _ _ _ (decidable (step s c) cs)

section Rules

variable {step P} {s t u : σ}

theorem Reaches.refl : Reaches step P s s := Relation.ReflTransGen.refl

theorem Reaches.trans (h : Reaches step P s t) (h' : Reaches step P t u) : Reaches step P s u :=
  Relation.ReflTransGen.trans h h'

theorem Reaches.tail (h : Reaches step P s t) {c : κ} (permitted : P t c) : Reaches step P s (step t c) :=
  Relation.ReflTransGen.tail h ⟨c, permitted, rfl⟩

theorem Reaches.invariant {I : σ → Prop} (keeps : ∀ s c, I s → P s c → I (step s c))
    (run : Reaches step P s t) (init : I s) : I t := by
  induction run with
  | refl => exact init
  | tail _ last ih =>
    obtain ⟨c, permitted, rfl⟩ := last
    exact keeps _ c ih permitted

theorem Reaches.of_permitted {cs : List κ} (h : Permitted step P s cs) :
    Reaches step P s (cs.foldl step s) := by
  induction cs generalizing s with
  | nil => exact .refl
  | cons c cs ih =>
    obtain ⟨permitted, rest⟩ := h
    exact (Reaches.refl.tail permitted).trans (ih rest)

theorem Reaches.mono {Q : σ → κ → Prop} (h : Reaches step P s t) (le : ∀ s c, P s c → Q s c) :
    Reaches step Q s t :=
  h.invariant (I := Reaches step Q s) (fun _ _ before permitted => before.tail (le _ _ permitted)) .refl

theorem Reaches.chosen {κ' : Type} {f : σ → κ' → κ}
    (h : Reaches (fun s c => step s (f s c)) (fun s c => P s (f s c)) s t) : Reaches step P s t :=
  h.invariant (I := Reaches step P s) (fun _ _ before permitted => before.tail permitted) .refl

end Rules

end Saltator.Steps
