import Mathlib.Init

/-!
# Stateful computations

`Keeps I m` says that the computation `m` leads from states with the property `I` to states with the
property `I`, whatever it returns, and `Yields I Q m` that from such states it returns something with
the property `Q`. The rules follow the way computations are put together.
-/

namespace Saltator.Stateful

variable {σ α β : Type}

theorem bind_apply (m : StateM σ α) (f : α → StateM σ β) (s : σ) :
    (m >>= f) s = f (m s).1 (m s).2 := rfl

theorem get_bind (f : σ → StateM σ β) (s : σ) :
    ((MonadState.get : StateM σ σ) >>= f) s = f s s := rfl

/-- Every run from a state with `I` ends in one. -/
def Keeps (I : σ → Prop) (m : StateM σ α) : Prop := ∀ s, I s → I (m s).2

namespace Keeps

variable {I : σ → Prop} {f : β → α → StateM σ β} {m : StateM σ α}

theorem pure (a : α) : Keeps I (Pure.pure a : StateM σ α) := fun _ h => h

theorem bind {f : α → StateM σ β} (hm : Keeps I m) (hf : ∀ a, Keeps I (f a)) : Keeps I (m >>= f) := by
  intro s h
  exact hf _ _ (hm s h)

theorem read : Keeps I (MonadState.get : StateM σ σ) := fun _ h => h

theorem get {f : σ → StateM σ β} (hf : ∀ s, I s → I (f s s).2) :
    Keeps I ((MonadState.get : StateM σ σ) >>= f) := fun s h => hf s h

theorem next {f : α → StateM σ β} {s : σ} (hm : I (m s).2)
    (hf : ∀ a, Keeps I (f a)) : I ((m >>= f) s).2 := hf _ _ hm

theorem ite {c : Prop} [Decidable c] {m m' : StateM σ α} (hm : Keeps I m) (hm' : Keeps I m') :
    Keeps I (if c then m else m') := by
  split
  · exact hm
  · exact hm'

theorem foldlM_mem {l : List α} (hf : ∀ b, ∀ a ∈ l, Keeps I (f b a)) (b : β) : Keeps I (l.foldlM f b) := by
  induction l generalizing b with
  | nil => exact pure b
  | cons a l ih =>
    rw [List.foldlM_cons]
    apply bind
    · exact hf b a List.mem_cons_self
    · exact ih fun b a h => hf b a (List.mem_cons_of_mem _ h)

theorem foldlM (hf : ∀ b a, Keeps I (f b a)) (l : List α) (b : β) :
    Keeps I (l.foldlM f b) := foldlM_mem (fun b a _ => hf b a) b

end Keeps

/-- Every run from a state with `I` returns something with `Q`. -/
def Yields (I : σ → Prop) (Q : α → Prop) (m : StateM σ α) : Prop := ∀ s, I s → Q (m s).1

namespace Yields

variable {I : σ → Prop} {Q : α → Prop} {R : β → Prop} {f : α → StateM σ β} {m : StateM σ α}

theorem pure {a : α} (h : Q a) : Yields I Q (Pure.pure a : StateM σ α) := fun _ _ => h

theorem bind (hm : Keeps I m)
    (hq : Yields I Q m) (hf : ∀ a, Q a → Yields I R (f a)) : Yields I R (m >>= f) :=
  fun s h => hf _ (hq s h) _ (hm s h)

theorem after (hm : Keeps I m) (hf : ∀ a, Yields I R (f a)) :
    Yields I R (m >>= f) := fun s h => hf _ _ (hm s h)

theorem get {f : σ → StateM σ β} (hf : ∀ s, I s → R (f s s).1) :
    Yields I R ((MonadState.get : StateM σ σ) >>= f) := fun s h => hf s h

theorem ite {c : Prop} [Decidable c] {m m' : StateM σ α} (hm : Yields I Q m) (hm' : Yields I Q m') :
    Yields I Q (if c then m else m') := by
  split
  · exact hm
  · exact hm'

end Yields

theorem Keeps.given {I : σ → Prop} {Q : α → Prop} {m : StateM σ α} {f : α → StateM σ β}
    (hm : Keeps I m) (hq : Yields I Q m) (hf : ∀ a, Q a → Keeps I (f a)) : Keeps I (m >>= f) :=
  fun s h => hf _ (hq s h) _ (hm s h)

end Saltator.Stateful
