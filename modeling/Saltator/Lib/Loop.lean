import Saltator.Lib.Outcome

/-!
# Loops with fuel

A `while` loop of the source is a body that either goes round again with a new state or leaves
with a result. `run` executes at most `fuel` rounds and answers the designated `timeout` error when
they do not suffice.

* `run_result` is the invariant rule: what every round preserves, and what leaving establishes.
* `SettlesTo f r` says that the fuelled computation `f` really finishes: from some amount of fuel
  on it answers `r`, and `r` is not the timeout.
* `run_settles` is the termination rule: a loop whose rounds descend in a well-founded relation
  settles.
* `Alike R f g` compares two fuelled computations: both settle and the settled outcomes agree.
-/

namespace Saltator.Loop

open Outcome

variable {ε α β γ δ σ ρ : Type}

/-- At most `fuel` rounds of `body`, starting in `s`. -/
def run (timeout : ε) (body : σ → Except ε (σ ⊕ ρ)) : Nat → σ → Except ε ρ
  | 0, _ => .error timeout
  | fuel + 1, s =>
    match body s with
    | .error e => .error e
    | .ok (.inl s') => run timeout body fuel s'
    | .ok (.inr r) => .ok r

variable {timeout : ε} {body : σ → Except ε (σ ⊕ ρ)} {I : σ → Prop} {body' : σ → Except ε (σ ⊕ ρ)}
  {s : σ} {f : Nat → Except ε α} {F : ε → Prop}

/-- Loop rule. `I` is kept by every round, `Q` holds on leaving, `F` describes the errors a
round may raise. -/
theorem run_result {Q : ρ → Prop} (again : ∀ s s', I s → body s = .ok (.inl s') → I s')
    (leave : ∀ s r, I s → body s = .ok (.inr r) → Q r)
    (fail : ∀ s e, I s → body s = .error e → F e) :
    ∀ (fuel : Nat) (s : σ), I s → (∀ r, run timeout body fuel s = .ok r → Q r) ∧
      (∀ e, run timeout body fuel s = .error e → e = timeout ∨ F e) := by
  intro fuel
  induction fuel with
  | zero =>
    intro s _
    refine ⟨fun r h => by simp [run] at h, fun e h => ?_⟩
    simp only [run, Except.error.injEq] at h
    exact .inl h.symm
  | succ fuel ih =>
    intro s hs
    unfold run
    cases hb : body s with
    | error e =>
      refine ⟨fun r h => by simp at h, fun e' h => ?_⟩
      simp only [Except.error.injEq] at h
      exact .inr (h ▸ fail s e hs hb)
    | ok out =>
      cases out with
      | inl s' => exact ih s' (again s s' hs hb)
      | inr r =>
        refine ⟨fun r' h => ?_, fun e h => by simp at h⟩
        simp only [Except.ok.injEq] at h
        exact h ▸ leave s r hs hb

/-- A loop whose rounds never raise `e`, in the states that it can reach, never raises `e`. -/
theorem run_ne_error {e : ε} (again : ∀ s s', I s → body s = .ok (.inl s') → I s')
    (round : ∀ s, I s → body s ≠ .error e) (intime : timeout ≠ e) {fuel : Nat} (hs : I s) :
    run timeout body fuel s ≠ .error e := by
  intro failed
  obtain rfl | other := (run_result (I := I) (Q := fun _ => True) (F := fun e' => e' ≠ e) again
    (fun _ _ _ _ => trivial) (fun s e' inv raised same => round s inv (same ▸ raised)) fuel s hs).2 e
    failed
  · exact intime rfl
  · exact other rfl

/-- Two loops have the same outcome when their rounds do, in the states that the loop can reach. -/
theorem run_same
    (same : ∀ s, I s → Same F (body s) (body' s)) (again : ∀ s s', I s → body s = .ok (.inl s') → I s')
    (intime : ¬ F timeout) :
    ∀ (fuel : Nat) (s : σ), I s → Same F (run timeout body fuel s) (run timeout body' fuel s) := by
  intro fuel
  induction fuel with
  | zero =>
    intro s _
    exact .self fun e kind failed => intime (Except.error.inj failed ▸ kind)
  | succ fuel ih =>
    intro s hs
    obtain ⟨round, never⟩ := same s hs
    unfold run
    rw [← round]
    cases hb : body s with
    | error e => exact ⟨rfl, fun e' failed => never e' (hb.trans (congrArg _ (Except.error.inj failed)))⟩
    | ok out =>
      cases out with
      | inl s' => exact ih s' (again s s' hs hb)
      | inr r => exact .ok

theorem run_eq_run
    (same : ∀ s, I s → body s = body' s) (again : ∀ s s', I s → body s = .ok (.inl s') → I s')
    (fuel : Nat) (s : σ) (hs : I s) : run timeout body fuel s = run timeout body' fuel s :=
  (run_same (F := fun _ => False) (fun s hs => ⟨same s hs, fun _ _ => id⟩) again id fuel s hs).1

/-- From some amount of fuel on, `f` answers `r`, and `r` is a real answer. -/
def SettlesTo (timeout : ε) (f : Nat → Except ε α) (r : Except ε α) : Prop :=
  r ≠ .error timeout ∧ ∃ enough, ∀ fuel, enough ≤ fuel → f fuel = r

/-- The fuelled computation finishes. -/
def Settles (timeout : ε) (f : Nat → Except ε α) : Prop := ∃ r, SettlesTo timeout f r

theorem SettlesTo.unique {r r' : Except ε α}
    (h : SettlesTo timeout f r) (h' : SettlesTo timeout f r') : r = r' := by
  obtain ⟨_, n, hn⟩ := h
  obtain ⟨_, n', hn'⟩ := h'
  exact (hn (max n n') (by omega)).symm.trans (hn' _ (by omega))

theorem SettlesTo.const {r : Except ε α} (h : r ≠ .error timeout) :
    SettlesTo timeout (fun _ => r) r := ⟨h, 0, fun _ _ => rfl⟩

theorem Settles.const {x : Except ε α} (h : x ≠ .error timeout) : Settles timeout fun _ => x :=
  ⟨x, .const h⟩

theorem Settles.bind {k : α → Nat → Except ε β} (h : Settles timeout f)
    (next : ∀ a, Settles timeout (k a)) :
    Settles timeout (fun fuel => f fuel >>= fun a => k a fuel) := by
  obtain ⟨r, hr, n, hn⟩ := h
  cases r with
  | error e =>
    refine ⟨.error e, by simpa using hr, n, fun fuel hf => ?_⟩
    simp only [hn fuel hf, error_bind]
  | ok a =>
    obtain ⟨r', hr', m, hm⟩ := next a
    refine ⟨r', hr', max n m, fun fuel hf => ?_⟩
    simp only [hn fuel (by omega), ok_bind]
    exact hm fuel (by omega)

theorem Settles.foldlM {f : β → α → Nat → Except ε β} (l : List α)
    (step : ∀ a ∈ l, ∀ b, Settles timeout (f b a)) (b : β) :
    Settles timeout (fun fuel => l.foldlM (fun b a => f b a fuel) b) := by
  induction l generalizing b with
  | nil => exact .const (by simp)
  | cons a l ih =>
    simp only [List.foldlM_cons]
    exact (step a (by simp) b).bind fun b' =>
      ih (fun a' ha' => step a' (List.mem_cons_of_mem _ ha')) b'

/-- Termination rule: rounds that stay inside `I` and descend in a well-founded relation. -/
theorem run_settles {lt : σ → σ → Prop} (wf : WellFounded lt)
    (again : ∀ s s', I s → body s = .ok (.inl s') → I s' ∧ lt s' s)
    (noTimeout : ∀ s, I s → body s ≠ .error timeout) (hs : I s) :
    Settles timeout (fun fuel => run timeout body fuel s) := by
  induction s using wf.induction with
  | _ s ih =>
    cases hb : body s with
    | error e =>
      refine ⟨.error e, fun h => noTimeout s hs (by simpa [hb] using h), 1, fun fuel hf => ?_⟩
      obtain ⟨n, rfl⟩ : ∃ n, fuel = n + 1 := ⟨fuel - 1, by omega⟩
      simp [run, hb]
    | ok out =>
      cases out with
      | inr r =>
        refine ⟨.ok r, by simp, 1, fun fuel hf => ?_⟩
        obtain ⟨n, rfl⟩ : ∃ n, fuel = n + 1 := ⟨fuel - 1, by omega⟩
        simp [run, hb]
      | inl s' =>
        obtain ⟨hs', hlt⟩ := again s s' hs hb
        obtain ⟨r, hr, n, hn⟩ := ih s' hlt hs'
        refine ⟨r, hr, n + 1, fun fuel hf => ?_⟩
        obtain ⟨m, rfl⟩ : ∃ m, fuel = m + 1 := ⟨fuel - 1, by omega⟩
        simp only [run, hb]
        exact hn m (by omega)

/-- With more fuel than a measure of the start that every round lowers, the loop comes to its end. -/
theorem run_ne_timeout (size : σ → Nat)
    (again : ∀ s s', I s → body s = .ok (.inl s') → I s' ∧ size s' < size s)
    (noTimeout : ∀ s, I s → body s ≠ .error timeout) {fuel : Nat} (hs : I s)
    (enough : size s < fuel) : run timeout body fuel s ≠ .error timeout := by
  induction fuel generalizing s with
  | zero => omega
  | succ fuel ih =>
    cases hb : body s with
    | error e =>
      simp only [run, hb]
      exact fun same => noTimeout s hs (hb.trans (congrArg Except.error (Except.error.inj same)))
    | ok out =>
      cases out with
      | inl s' =>
        obtain ⟨hs', lower⟩ := again s s' hs hb
        simp only [run, hb]
        exact ih hs' (by omega)
      | inr r => simp [run, hb]

theorem run_settlesTo {n : Nat} {r : Except ε ρ} (h : run timeout body n s = r)
    (intime : r ≠ .error timeout) : SettlesTo timeout (fun fuel => run timeout body fuel s) r := by
  refine ⟨intime, n, fun fuel enough => ?_⟩
  induction n generalizing s fuel with
  | zero => exact absurd h.symm intime
  | succ n ih =>
    obtain ⟨m, rfl⟩ : ∃ m, fuel = m + 1 := ⟨fuel - 1, by omega⟩
    dsimp only
    unfold run at h ⊢
    cases hb : body s with
    | error e => simpa [hb] using h
    | ok out =>
      simp only [hb] at h
      cases out with
      | inl s' => exact ih h m (by omega)
      | inr r' => exact h

/-! ## Comparing fuelled computations -/

/-- Both computations settle, and their settled outcomes agree up to `R`. -/
def Alike (timeout : ε) (R : α → β → Prop) (f : Nat → Except ε α) (g : Nat → Except ε β) : Prop :=
  ∃ r r', SettlesTo timeout f r ∧ SettlesTo timeout g r' ∧ Agree R r r'

namespace Alike

variable {R : α → β → Prop} {S : γ → δ → Prop} {f : Nat → Except ε α} {g : Nat → Except ε β}

theorem const {x : Except ε α} {y : Except ε β} (hx : x ≠ .error timeout)
    (hy : y ≠ .error timeout) (h : Agree R x y) :
    Alike timeout R (fun _ => x) (fun _ => y) :=
  ⟨x, y, .const hx, .const hy, h⟩

theorem ok {a : α} {b : β} (h : R a b) : Alike timeout R (fun _ => .ok a) (fun _ => .ok b) :=
  const (by simp) (by simp) h

theorem of_settles {R : α → α → Prop} (h : ∀ a, R a a) (hf : Settles timeout f) : Alike timeout R f f := by
  obtain ⟨r, hr⟩ := hf
  exact ⟨r, r, hr, hr, .refl h r⟩

/-- Two settling computations that succeed under the same condition `C`, with values described by
`P` and `Q`. -/
theorem of_spec {C : Prop} {P : α → Prop} {Q : β → Prop} (hf : Settles timeout f) (hg : Settles timeout g)
    (fspec : ∀ fuel, (∀ a, f fuel = .ok a → C ∧ P a) ∧ (∀ e, f fuel = .error e → e = timeout ∨ ¬ C))
    (gspec : ∀ fuel, (∀ b, g fuel = .ok b → C ∧ Q b) ∧ (∀ e, g fuel = .error e → e = timeout ∨ ¬ C))
    (hR : ∀ a b, P a → Q b → R a b) : Alike timeout R f g := by
  obtain ⟨r, hr, n, hn⟩ := hf
  obtain ⟨r', hr', n', hn'⟩ := hg
  refine ⟨r, r', ⟨hr, n, hn⟩, ⟨hr', n', hn'⟩, ?_⟩
  have hfr := fspec n
  have hgr := gspec n'
  rw [hn n (Nat.le_refl n)] at hfr
  rw [hn' n' (Nat.le_refl n')] at hgr
  cases r with
  | ok a =>
    obtain ⟨hC, hP⟩ := hfr.1 a rfl
    cases r' with
    | ok b => exact hR a b hP (hgr.1 b rfl).2
    | error e => exact (hgr.2 e rfl).elim (fun h => absurd (h ▸ rfl) hr') fun h => absurd hC h
  | error e =>
    cases r' with
    | error e' => trivial
    | ok b =>
      have hC := (hgr.1 b rfl).1
      exact (hfr.2 e rfl).elim (fun h => absurd (h ▸ rfl) hr) fun h => absurd hC h

theorem settles (h : Alike timeout R f g) : Settles timeout f ∧ Settles timeout g := by
  obtain ⟨r, r', hr, hr', _⟩ := h
  exact ⟨⟨r, hr⟩, ⟨r', hr'⟩⟩

theorem bind {k : α → Nat → Except ε γ} {l : β → Nat → Except ε δ} (h : Alike timeout R f g)
    (next : ∀ a b, R a b → Alike timeout S (k a) (l b)) :
    Alike timeout S (fun fuel => f fuel >>= fun a => k a fuel)
      (fun fuel => g fuel >>= fun b => l b fuel) := by
  obtain ⟨r, r', ⟨hr, n, hn⟩, ⟨hr', n', hn'⟩, agree⟩ := h
  match r, r', agree with
  | .error e, .error e', _ =>
    refine ⟨.error e, .error e', ⟨by simpa using hr, n, fun fuel hf => ?_⟩,
      ⟨by simpa using hr', n', fun fuel hf => ?_⟩, trivial⟩
    · simp only [hn fuel hf, error_bind]
    · simp only [hn' fuel hf, error_bind]
  | .ok a, .ok b, agree =>
    obtain ⟨s, s', ⟨hs, m, hm⟩, ⟨hs', m', hm'⟩, agree'⟩ := next a b agree
    refine ⟨s, s', ⟨hs, max n m, fun fuel hf => ?_⟩, ⟨hs', max n' m', fun fuel hf => ?_⟩, agree'⟩
    · simp only [hn fuel (by omega), ok_bind]
      exact hm fuel (by omega)
    · simp only [hn' fuel (by omega), ok_bind]
      exact hm' fuel (by omega)

theorem foldlM {f : γ → α → Nat → Except ε γ} {g : δ → α → Nat → Except ε δ} (l : List α)
    (step : ∀ a ∈ l, ∀ b c, S b c → Alike timeout S (f b a) (g c a)) {b : γ} {c : δ}
    (h : S b c) :
    Alike timeout S (fun fuel => l.foldlM (fun b a => f b a fuel) b)
      (fun fuel => l.foldlM (fun c a => g c a fuel) c) := by
  induction l generalizing b c with
  | nil => exact ok h
  | cons a l ih =>
    simp only [List.foldlM_cons]
    exact bind (step a (by simp) b c h) fun b' c' h' =>
      ih (fun a' ha' => step a' (List.mem_cons_of_mem _ ha')) h'

end Alike

end Saltator.Loop
