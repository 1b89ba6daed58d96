import Saltator.Lib.Outcome

/-!
# Commands applied in batches

A machine applies a command to the state `s` it has reached, and scans the state `e` in which the
batch of the command began. `applyAll` runs a sequence of batches. Two questions are answered in
general: what holds along a run of batches (`Runs.invariant`), and when the cut into batches makes no
difference (`applyAll_split`).
-/

namespace Saltator.Batch

open Saltator.Outcome

variable {ε σ κ ρ : Type} (step : σ → σ → κ → Except ε (σ × ρ))

/-- The rest of a batch that began in `e`. -/
def applyFrom (e : σ) : σ → List κ → Except ε (σ × List ρ)
  | s, [] => .ok (s, [])
  | s, c :: cs => do
    let (s, r) ← step e s c
    let (s, rs) ← applyFrom e s cs
    return (s, r :: rs)

def applyBatch (s : σ) (cs : List κ) : Except ε (σ × List ρ) := applyFrom step s s cs

def applyAll : σ → List (List κ) → Except ε (σ × List ρ)
  | s, [] => .ok (s, [])
  | s, b :: bs => do
    let (s, rs) ← applyBatch step s b
    let (s, rest) ← applyAll s bs
    return (s, rs ++ rest)

/-- Every command in a batch of its own. -/
def applySingly : σ → List κ → Except ε (σ × List ρ)
  | s, [] => .ok (s, [])
  | s, c :: cs => do
    let (s, r) ← step s s c
    let (s, rs) ← applySingly s cs
    return (s, r :: rs)

theorem applyFrom_cons_ok {e s t : σ} {c : κ} {cs : List κ} {rs : List ρ} :
    applyFrom step e s (c :: cs) = .ok (t, rs) ↔ ∃ u r rest, step e s c = .ok (u, r) ∧
      applyFrom step e u cs = .ok (t, rest) ∧ rs = r :: rest := by
  simp only [applyFrom, bind_eq_ok, pure_eq_ok, Prod.exists, Prod.mk.injEq]
  constructor
  · rintro ⟨u, r, first, v, rest, last, rfl, rfl⟩
    exact ⟨u, r, rest, first, last, rfl⟩
  · rintro ⟨u, r, rest, first, last, rfl⟩
    exact ⟨u, r, first, t, rest, last, rfl, rfl⟩

theorem applyAll_cons_ok {s t : σ} {b : List κ} {bs : List (List κ)} {rs : List ρ} :
    applyAll step s (b :: bs) = .ok (t, rs) ↔ ∃ u first rest, applyBatch step s b = .ok (u, first) ∧
      applyAll step u bs = .ok (t, rest) ∧ rs = first ++ rest := by
  simp only [applyAll, bind_eq_ok, pure_eq_ok, Prod.exists, Prod.mk.injEq]
  constructor
  · rintro ⟨u, r, first, v, rest, last, rfl, rfl⟩
    exact ⟨u, r, rest, first, last, rfl⟩
  · rintro ⟨u, r, rest, first, last, rfl⟩
    exact ⟨u, r, first, t, rest, last, rfl, rfl⟩

/-! ## Runs -/

section Runs

variable (P : σ → σ → κ → Prop)

/-- Some commands of a batch that began in `e`, each of which meets `P` at its place. -/
def Within (e : σ) : σ → σ → Prop :=
  Relation.ReflTransGen fun s t => ∃ c r, P e s c ∧ step e s c = .ok (t, r)

/-- Any number of batches. -/
def Runs : σ → σ → Prop := Relation.ReflTransGen fun s t => Within step P s s t

variable {step P} {rs : List ρ} {cs : List κ} {s t : σ}

theorem Within.of_applyFrom {e s t : σ}
    (h : applyFrom step e s cs = .ok (t, rs)) (meets : ∀ s, ∀ c ∈ cs, P e s c) :
    Within step P e s t := by
  induction cs generalizing s rs with
  | nil =>
    obtain ⟨rfl, -⟩ := ok_pair h
    exact .refl
  | cons c cs ih =>
    obtain ⟨u, r, rest, first, last, rfl⟩ := (applyFrom_cons_ok step).1 h
    exact .head ⟨c, r, meets s c List.mem_cons_self, first⟩
      (ih last fun s c hc => meets s c (List.mem_cons_of_mem _ hc))

theorem Runs.batch {s t u : σ} (run : Runs step P s t)
    (h : applyBatch step t cs = .ok (u, rs)) (meets : ∀ s, ∀ c ∈ cs, P t s c) : Runs step P s u :=
  run.tail (Within.of_applyFrom h meets)

theorem Runs.single {s t u : σ} {c : κ} (run : Runs step P s t)
    (h : applyBatch step t [c] = .ok (u, rs)) (meets : P t t c) : Runs step P s u := by
  obtain ⟨v, r, rest, first, last, rfl⟩ := (applyFrom_cons_ok step).1 h
  obtain ⟨rfl, -⟩ := ok_pair last
  exact run.tail (.single ⟨c, r, meets, first⟩)

theorem Runs.of_applyAll {bs : List (List κ)}
    (h : applyAll step s bs = .ok (t, rs)) (meets : ∀ e s, ∀ c ∈ bs.flatten, P e s c) :
    Runs step P s t := by
  induction bs generalizing s rs with
  | nil =>
    obtain ⟨rfl, -⟩ := ok_pair h
    exact .refl
  | cons b bs ih =>
    obtain ⟨u, first, rest, batch, last, rfl⟩ := (applyAll_cons_ok step).1 h
    rw [List.flatten_cons] at meets
    exact .head (Within.of_applyFrom batch fun s c hc => meets _ s c (List.mem_append_left _ hc))
      (ih last fun e s c hc => meets e s c (List.mem_append_right _ hc))

def applyChecked (step : σ → σ → κ → Except ε (σ × ρ)) (check : σ → κ → Bool) : σ → List κ → Option σ
  | s, [] => some s
  | s, c :: cs =>
    if check s c then (step s s c).toOption.bind fun r => applyChecked step check r.1 cs else none

theorem Runs.of_applyChecked {check : σ → κ → Bool} (sound : ∀ s c, check s c = true → P s s c)
    (h : applyChecked step check s cs = some t) : Runs step P s t := by
  induction cs generalizing s with
  | nil =>
    obtain rfl := Option.some.inj h
    exact .refl
  | cons c cs ih =>
    rw [applyChecked, Option.ite_none_right_eq_some, Option.bind_eq_some_iff] at h
    obtain ⟨checked, ⟨u, r⟩, stepped, rest⟩ := h
    exact .head (.single ⟨c, r, sound s c checked, toOption_eq_some.1 stepped⟩) (ih rest)

theorem Within.invariant {I : σ → Prop} {e s t : σ}
    (keeps : ∀ s c t r, I s → P e s c → step e s c = .ok (t, r) → I t)
    (rest : Within step P e s t) (init : I s) : I t := by
  induction rest with
  | refl => exact init
  | tail _ last within =>
    obtain ⟨c, r, hP, hstep⟩ := last
    exact keeps _ c _ r within hP hstep

theorem Runs.invariant {I : σ → σ → Prop} (start : ∀ e s, I e s → I s s)
    (keeps : ∀ e s c t r, I e s → P e s c → step e s c = .ok (t, r) → I e t)
    (run : Runs step P s t) (init : I s s) : I t t := by
  induction run with
  | refl => exact init
  | @tail e u _ batch ih => exact start e u (batch.invariant (keeps e) ih)

end Runs

/-! ## Cutting a sequence of commands -/

section Splits

variable (same : σ → σ → κ → Prop)

/-- Every command of the rest of the batch scans what it would scan in the state it is applied to. -/
def Fresh (e : σ) : σ → List κ → Prop
  | _, [] => True
  | s, c :: cs => same e s c ∧ ∀ t r, step e s c = .ok (t, r) → Fresh e t cs

def FreshAll : σ → List (List κ) → Prop
  | _, [] => True
  | s, b :: bs => Fresh step same s s b ∧
    ∀ t rs, applyBatch step s b = .ok (t, rs) → FreshAll t bs

theorem applySingly_append (cs cs' : List κ) (s : σ) : applySingly step s (cs ++ cs') = (do
      let (s, rs) ← applySingly step s cs
      let (s, rs') ← applySingly step s cs'
      return (s, rs ++ rs')) := by
  induction cs generalizing s with
  | nil => simp [applySingly]
  | cons c cs ih => simp [applySingly, ih, bind_assoc]

variable {step same}
variable (congr : ∀ e s c, same e s c → step e s c = step s s c) {s : σ}
include congr

theorem applyFrom_eq_singly {e : σ} {cs : List κ} (fresh : Fresh step same e s cs) :
    applyFrom step e s cs = applySingly step s cs := by
  induction cs generalizing s with
  | nil => rfl
  | cons c cs ih =>
    obtain ⟨now, later⟩ := fresh
    rw [applyFrom, applySingly, congr e s c now]
    rw [congr e s c now] at later
    cases h : step s s c with
    | error fault => rfl
    | ok r => simp only [ok_bind, ih (later r.1 r.2 h)]

theorem applyAll_eq_singly {bs : List (List κ)} (fresh : FreshAll step same s bs) :
    applyAll step s bs = applySingly step s bs.flatten := by
  induction bs generalizing s with
  | nil => rfl
  | cons b bs ih =>
    obtain ⟨now, later⟩ := fresh
    have first : applyBatch step s b = applySingly step s b := applyFrom_eq_singly congr now
    rw [applyAll, List.flatten_cons, applySingly_append, first]
    rw [first] at later
    cases h : applySingly step s b with
    | error fault => rfl
    | ok r => simp only [ok_bind, ih (later r.1 r.2 h)]

theorem applyAll_split {bs bs' : List (List κ)} (cut : bs.flatten = bs'.flatten)
    (fresh : FreshAll step same s bs) (fresh' : FreshAll step same s bs') :
    applyAll step s bs = applyAll step s bs' := by
  rw [applyAll_eq_singly congr fresh, applyAll_eq_singly congr fresh', cut]

end Splits

end Saltator.Batch
