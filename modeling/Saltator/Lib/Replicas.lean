import Mathlib.Logic.Relation
import Mathlib.Data.List.Chain

/-!
# Work computed on a replica

A log of work is applied in one order everywhere, but a node computes its work from the state it has
applied so far, which may lag behind, and the work is applied to whatever the log has come to by
then. Locks are local to a node: work under a lock excludes other work under the same lock on the
same node, and nothing else. Work may also be computed without a lock. Work that is proposed again
after a failure may be applied twice, and work that is given up may still be applied.

`Runs.invariant` is the rule for every interleaving: what holds of each state (`I`), what every later
state keeps of it (`Le`), and what the computation of work established in the state it read (`R`).
-/

namespace Saltator.Replicas

variable {ι κ σ ω : Type}

/-- What nodes compute and what becomes of it. -/
structure Protocol (κ σ ω : Type) where
  /-- Work computed from a state under a lock. -/
  reads : κ → σ → ω → Prop
  /-- Work computed from a state without a lock. -/
  starts : σ → ω → Prop
  /-- The work that was computed from the first state takes the second to the third. -/
  applies : σ → ω → σ → σ → Prop

/-- The states the log has gone through, the newest first, how many of the newest each node has not
applied yet, and the work under way with the state it was computed from. -/
structure Group (ι κ σ ω : Type) where
  history : List σ
  lag : ι → Nat
  locked : ι → κ → Option (σ × ω)
  free : List (σ × ω)

namespace Group

def init (s : σ) : Group ι κ σ ω := ⟨[s], fun _ => 0, fun _ _ => none, []⟩

section Locks

variable [DecidableEq ι] [DecidableEq κ]

def setLock (g : Group ι κ σ ω) (i : ι) (k : κ) (work : Option (σ × ω)) : Group ι κ σ ω :=
  { g with locked := fun j l => if j = i ∧ l = k then work else g.locked j l }

/-- The log grows by one state, which no node has applied yet. -/
def push (g : Group ι κ σ ω) (t : σ) : Group ι κ σ ω :=
  { g with history := t :: g.history, lag := fun i => g.lag i + 1 }

def UnderWay (g : Group ι κ σ ω) (work : σ × ω) : Prop :=
  work ∈ g.free ∨ ∃ i k, g.locked i k = some work

inductive Step (p : Protocol κ σ ω) : Group ι κ σ ω → Group ι κ σ ω → Prop
  /-- Nodes catch up with the log. -/
  | advance {g : Group ι κ σ ω} {lag : ι → Nat} (h : ∀ i, lag i ≤ g.lag i) :
      Step p g { g with lag }
  | read {g : Group ι κ σ ω} {i : ι} {k : κ} {b : σ} {w : ω} (unlocked : g.locked i k = none)
      (seen : g.history[g.lag i]? = some b) (h : p.reads k b w) :
      Step p g (g.setLock i k (some (b, w)))
  | start {g : Group ι κ σ ω} {i : ι} {b : σ} {w : ω} (seen : g.history[g.lag i]? = some b)
      (h : p.starts b w) : Step p g { g with free := (b, w) :: g.free }
  /-- Work is applied, perhaps not for the last time. -/
  | land {g : Group ι κ σ ω} {b s t : σ} {w : ω} (underWay : g.UnderWay (b, w))
      (last : g.history.head? = some s) (h : p.applies b w s t) : Step p g (g.push t)
  /-- Work under a lock is over. -/
  | release {g : Group ι κ σ ω} {i : ι} {k : κ} : Step p g (g.setLock i k none)
  /-- Work under a lock is given up; it may be applied all the same. -/
  | abandon {g : Group ι κ σ ω} {i : ι} {k : κ} {work : σ × ω} (held : g.locked i k = some work) :
      Step p g { g.setLock i k none with free := work :: g.free }

/-- Any interleaving. -/
def Runs (p : Protocol κ σ ω) : Group ι κ σ ω → Group ι κ σ ω → Prop :=
  Relation.ReflTransGen (Step p)

end Locks

/-- One state of the log follows another by work that was computed from a state `b` before it. -/
def Follows (p : Protocol κ σ ω) (I : σ → Prop) (Le : σ → σ → Prop) (R : σ → ω → Prop) (t s : σ) : Prop :=
  ∃ b w, I b ∧ I s ∧ Le b s ∧ R b w ∧ p.applies b w s t

/-- What the rule asks of one piece of work. -/
structure Sound (p : Protocol κ σ ω) (I : σ → Prop) (Le : σ → σ → Prop) (R : σ → ω → Prop) :
    Prop where
  refl : ∀ s, Le s s
  trans : ∀ {s t u}, Le s t → Le t u → Le s u
  reads : ∀ {k b w}, I b → p.reads k b w → R b w
  starts : ∀ {b w}, I b → p.starts b w → R b w
  applies : ∀ {b w s t}, I b → I s → Le b s → R b w → p.applies b w s t → I t ∧ Le s t

/-- What holds in every interleaving. -/
structure Kept (p : Protocol κ σ ω) (I : σ → Prop) (Le : σ → σ → Prop) (R : σ → ω → Prop)
    (g : Group ι κ σ ω) : Prop where
  holds : ∀ s ∈ g.history, I s
  sorted : g.history.Pairwise fun t s => Le s t
  chained : g.history.IsChain (Follows p I Le R)
  underWay : ∀ b w, g.UnderWay (b, w) → b ∈ g.history ∧ R b w

section Rule

variable {p : Protocol κ σ ω} {I : σ → Prop} {Le : σ → σ → Prop} {R : σ → ω → Prop} {g g' : Group ι κ σ ω}

theorem Kept.le_head (sound : Sound p I Le R) (h : Kept p I Le R g) {b s : σ}
    (hb : b ∈ g.history) (last : g.history.head? = some s) : Le b s := by
  obtain ⟨past, hpast⟩ := List.head?_eq_some_iff.1 last
  have sorted := h.sorted
  rw [hpast] at hb sorted
  rcases List.mem_cons.1 hb with rfl | hb
  · exact sound.refl b
  · exact (List.pairwise_cons.1 sorted).1 b hb

theorem Kept.push (sound : Sound p I Le R) (h : Kept p I Le R g) {b s t : σ} {w : ω}
    (read : b ∈ g.history ∧ R b w) (last : g.history.head? = some s) (happly : p.applies b w s t) :
    Kept p I Le R (g.push t) := by
  have hb := h.holds b read.1
  have hs := h.holds s (List.mem_of_mem_head? last)
  have le := h.le_head sound read.1 last
  obtain ⟨ht, kept⟩ := sound.applies hb hs le read.2 happly
  refine ⟨fun u hu => ?_, ?_, ?_, fun b w hw => ?_⟩
  · rcases List.mem_cons.1 hu with rfl | hu
    · exact ht
    · exact h.holds u hu
  · exact List.pairwise_cons.2 ⟨fun u hu => sound.trans (h.le_head sound hu last) kept, h.sorted⟩
  · refine List.isChain_cons.2 ⟨fun u hu => ?_, h.chained⟩
    obtain rfl := Option.some.inj (last.symm.trans hu)
    exact ⟨b, w, hb, hs, le, read.2, happly⟩
  · exact (h.underWay b w hw).imp_left (List.mem_cons_of_mem t)

variable [DecidableEq ι] [DecidableEq κ]

theorem UnderWay.of_setLock {i : ι} {k : κ} {new : Option (σ × ω)} {work : σ × ω}
    (h : (g.setLock i k new).UnderWay work) : new = some work ∨ g.UnderWay work := by
  rcases h with h | ⟨j, l, h⟩
  · exact .inr (.inl h)
  · unfold setLock at h
    dsimp only at h
    split at h
    · exact .inl h
    · exact .inr (.inr ⟨j, l, h⟩)

theorem Kept.step (sound : Sound p I Le R) (h : Kept p I Le R g) (step : Step p g g') :
    Kept p I Le R g' := by
  cases step with
  | advance _ => exact ⟨h.holds, h.sorted, h.chained, h.underWay⟩
  | @read i k b w unlocked seen hread =>
    have hb := List.mem_of_getElem? seen
    refine ⟨h.holds, h.sorted, h.chained, fun b' w' hw => ?_⟩
    rcases hw.of_setLock with hw | hw
    · obtain ⟨rfl, rfl⟩ := Prod.mk.inj (Option.some.inj hw)
      exact ⟨hb, sound.reads (h.holds _ hb) hread⟩
    · exact h.underWay b' w' hw
  | @start i b w seen hstart =>
    have hb := List.mem_of_getElem? seen
    refine ⟨h.holds, h.sorted, h.chained, fun b' w' hw => ?_⟩
    rcases hw with hw | hw
    · rcases List.mem_cons.1 hw with hw | hw
      · obtain ⟨rfl, rfl⟩ := Prod.mk.inj hw
        exact ⟨hb, sound.starts (h.holds _ hb) hstart⟩
      · exact h.underWay b' w' (.inl hw)
    · exact h.underWay b' w' (.inr hw)
  | @land b s t w underWay last happly => exact h.push sound (h.underWay b w underWay) last happly
  | release =>
    refine ⟨h.holds, h.sorted, h.chained, fun b w hw => h.underWay b w ?_⟩
    exact hw.of_setLock.resolve_left (by simp)
  | @abandon i k work held =>
    refine ⟨h.holds, h.sorted, h.chained, fun b w hw => h.underWay b w ?_⟩
    rcases hw with hw | hw
    · rcases List.mem_cons.1 hw with rfl | hw
      · exact .inr ⟨i, k, held⟩
      · exact .inl hw
    · exact (UnderWay.of_setLock (.inr hw)).resolve_left (by simp)

theorem Runs.invariant (sound : Sound p I Le R) {s : σ} (start : I s) (run : Runs p (init s) g) :
    Kept p I Le R g := by
  induction run with
  | refl =>
    refine ⟨fun t ht => ?_, List.pairwise_singleton _ _, List.isChain_singleton s, fun _ _ hw => ?_⟩
    · exact List.mem_singleton.1 ht ▸ start
    · obtain hw | ⟨_, _, hw⟩ := hw <;> exact nomatch hw
  | tail _ last ih => exact ih.step sound last

theorem setLock_self (i : ι) (k : κ) (work : Option (σ × ω)) : (g.setLock i k work).locked i k = work := by
  simp [setLock]

theorem setLock_other {i j : ι} (h : j ≠ i) (k l : κ) (work : Option (σ × ω)) :
    (g.setLock i k work).locked j l = g.locked j l := by
  simp [setLock, h]

theorem setLock_release {i : ι} {k : κ} (work : Option (σ × ω)) (unlocked : g.locked i k = none) :
    (g.setLock i k work).setLock i k none = g := by
  have same : (fun j l => if j = i ∧ l = k then none else
      if j = i ∧ l = k then work else g.locked j l) = g.locked := by
    funext j l
    split
    · rename_i h
      rw [h.1, h.2, unlocked]
    · rfl
  simp only [setLock, same]

theorem setLock_push (i : ι) (k : κ) (work : Option (σ × ω)) (t : σ) :
    (g.push t).setLock i k work = (g.setLock i k work).push t := rfl

/-- A group that has applied everything everywhere, with nothing under way. -/
def rest (s : σ) (past : List σ) : Group ι κ σ ω := ⟨s :: past, fun _ => 0, fun _ _ => none, []⟩

variable {k k' : κ} {s t u : σ} {v w w' : ω} {past : List σ}

theorem Runs.alone (i : ι) (run : Runs p g (rest s past)) (hread : p.reads k s w)
    (happly : p.applies s w s t) : Runs p g (rest t (s :: past)) := by
  have run := run.tail (.read (i := i) rfl rfl hread)
  have run := run.tail (.land (.inr ⟨i, k, setLock_self i k _⟩) rfl happly)
  have run := run.tail (.release (i := i) (k := k))
  rw [setLock_push, setLock_release _ rfl] at run
  exact run.tail (.advance fun _ => Nat.zero_le _)

theorem Runs.raced {i j : ι} (hij : i ≠ j) (run : Runs p g (rest s past)) (hread : p.reads k s w)
    (hread' : p.reads k' s w') (happly : p.applies s w s t) (happly' : p.applies s w' t u) :
    Runs p g (rest u (t :: s :: past)) := by
  have run := run.tail (.read (i := i) rfl rfl hread)
  have run := run.tail (.read (i := j) (setLock_other hij.symm k k' _) rfl hread')
  have held := (setLock_other (g := (rest s past).setLock i k (some (s, w))) hij k' k
    (some (s, w'))).trans (setLock_self i k _)
  have run := run.tail (.land (.inr ⟨i, k, held⟩) rfl happly)
  have run := run.tail (.land (.inr ⟨j, k', setLock_self j k' _⟩) rfl happly')
  have run := run.tail (.release (i := j) (k := k'))
  rw [setLock_push, setLock_push, setLock_release _ (setLock_other hij.symm k k' _)] at run
  have run := run.tail (.release (i := i) (k := k))
  rw [setLock_push, setLock_push, setLock_release _ rfl] at run
  exact run.tail (.advance fun _ => Nat.zero_le _)

theorem Runs.loose (i : ι) (run : Runs p g (rest s past)) (hstart : p.starts s w)
    (happly : p.applies s w s t) : Runs p g { rest t (s :: past) with free := [(s, w)] } := by
  have run := run.tail (.start (i := i) rfl hstart)
  have run := run.tail (.land (.inl List.mem_cons_self) rfl happly)
  exact run.tail (.advance fun _ => Nat.zero_le _)

theorem Runs.overtaken (i : ι) (run : Runs p g (rest s past)) (hread : p.reads k s w)
    (hstart : p.starts s v) (happly : p.applies s v s t) (happly' : p.applies s w t u) :
    Runs p g { rest u (t :: s :: past) with free := [(s, v)] } := by
  have run := run.tail (.read (i := i) rfl rfl hread)
  have run := run.tail (.start (i := i) rfl hstart)
  have run := run.tail (.land (.inl List.mem_cons_self) rfl happly)
  have run := run.tail (.land (.inr ⟨i, k, setLock_self (g := rest s past) i k _⟩) rfl happly')
  have run := run.tail (.release (i := i) (k := k))
  exact (setLock_release (g := (({ rest s past with free := [(s, v)] } : Group ι κ σ ω).push t).push u)
    (i := i) (k := k) (some (s, w)) rfl ▸ run).tail (.advance fun _ => Nat.zero_le _)

end Rule

end Group

end Saltator.Replicas
