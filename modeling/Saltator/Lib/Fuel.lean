import Saltator.Lib.Loop

/-!
# More fuel changes no answer

A fuelled computation is lasting when an answer it gives stays with more fuel. Loops are, and whatever is
put together from lasting ones is, so for such a computation one fuel that answers will do.
-/

namespace Saltator.Loop

open Outcome

variable {ε ε' α β σ ρ : Type}

/-- An answer stays with more fuel. -/
def Lasting (f : Nat → Except ε α) : Prop :=
  ∀ ⦃n m a⦄, n ≤ m → f n = .ok a → f m = .ok a

namespace Lasting

theorem const (x : Except ε α) : Lasting fun _ => x := fun _ _ _ _ h => h

variable {f : Nat → Except ε α}

theorem bind {k : α → Nat → Except ε β} (hf : Lasting f)
    (next : ∀ a, Lasting (k a)) : Lasting fun fuel => f fuel >>= fun a => k a fuel := by
  intro n m b le h
  obtain ⟨a, ha, hb⟩ := bind_eq_ok.1 h
  exact bind_eq_ok.2 ⟨a, hf le ha, next a le hb⟩

theorem mapError (hf : Lasting f) (g : ε → ε') : Lasting fun fuel => (f fuel).mapError g := by
  intro n m a le h
  exact mapError_eq_ok.2 (hf le (mapError_eq_ok.1 h))

theorem foldlM {f : β → α → Nat → Except ε β} (l : List α) (step : ∀ a b, Lasting (f b a)) (b : β) :
    Lasting fun fuel => l.foldlM (fun b a => f b a fuel) b := by
  induction l generalizing b with
  | nil => exact const _
  | cons a l ih =>
    simp only [List.foldlM_cons]
    exact (step a b).bind ih

theorem mapM {f : α → Nat → Except ε β} (l : List α) (step : ∀ a, Lasting (f a)) :
    Lasting fun fuel => l.mapM fun a => f a fuel := by
  induction l with
  | nil => exact const _
  | cons a l ih =>
    simp only [List.mapM_cons]
    exact (step a).bind fun b => ih.bind fun bs => const _

theorem mapM_answers {f : α → Nat → Except ε β} (step : ∀ a, Lasting (f a)) {l : List α} {r : List β}
    (answers : List.Forall₂ (fun a b => ∃ fuel, f a fuel = .ok b) l r) :
    ∃ fuel, l.mapM (fun a => f a fuel) = .ok r := by
  induction answers with
  | nil => exact ⟨0, rfl⟩
  | @cons a b l r head _ ih =>
    obtain ⟨n, hn⟩ := head
    obtain ⟨m, hm⟩ := ih
    refine ⟨max n m, ?_⟩
    have first := step a (by omega : n ≤ max n m) hn
    have rest := mapM l step (by omega : m ≤ max n m) hm
    simp only [List.mapM_cons, first, rest, ok_bind]
    rfl

theorem run (timeout : ε) (body : σ → Except ε (σ ⊕ ρ)) (s : σ) :
    Lasting fun fuel => run timeout body fuel s := by
  intro n
  induction n generalizing s with
  | zero =>
    intro m r _ h
    simp [Loop.run] at h
  | succ n ih =>
    intro m r le h
    obtain ⟨m, rfl⟩ : ∃ k, m = k + 1 := ⟨m - 1, by omega⟩
    unfold Loop.run at h ⊢
    cases hb : body s with
    | error e => simp [hb] at h
    | ok out =>
      cases out with
      | inr r' => simpa [hb] using h
      | inl s' =>
        simp only [hb] at h ⊢
        exact ih s' (by omega) h

theorem settlesTo {timeout : ε} (hf : Lasting f) {n : Nat} {a : α}
    (h : f n = .ok a) : SettlesTo timeout f (.ok a) :=
  ⟨by simp, n, fun _ le => hf le h⟩

end Lasting

end Saltator.Loop
