import Saltator.Room.PipelineSpec
import Saltator.Room.MachineSpec

/-!
# Runs

A run is a sequence of commands applied to the store of a shard. Three notions are used:

* `Commits P`: one command after another, each satisfying `P` in the store it meets;
* `Serial ruma`: the command was computed by a call from the very store it is applied to;
* `Config.Step`: calls compute commands from the store as it is, and the commands are applied later,
  in any order and with any others in between.

For each there is one rule that carries an invariant along the run.
-/

namespace Saltator.Room

open Saltator.Outcome
open Machine (Effect plain)

/-- One command that satisfies `P` is applied. -/
def Commits (P : Store → RoomCommand → Prop) (s s' : Store) : Prop :=
  ∃ engine cmd response, P s cmd ∧ Machine.apply engine s cmd = .ok (s', response)

/-- Any number of them. -/
def Runs (P : Store → RoomCommand → Prop) : Store → Store → Prop :=
  Relation.ReflTransGen (Commits P)

def Serial (ruma : Ruma) (s : Store) (cmd : RoomCommand) : Prop :=
  ∃ (server : Server) (fuel : Nat) (call : Call), server.ruma = ruma ∧
    call.prepare server s fuel = .ok (.inr cmd)

/-- A condition on commands, one clause for each kind. -/
structure Condition where
  append : Store → AppendEvent → Prop
  importRoom : Store → ImportRoom → Prop
  importSegment : Store → ImportSegment → Prop
  importHistory : Store → ImportHistory → Prop

def Condition.Holds (c : Condition) (s : Store) : RoomCommand → Prop
  | .append cmd => c.append s cmd
  | .appendStamped cmd _ => c.append s cmd
  | .importRoom cmd => c.importRoom s cmd
  | .importSegment cmd => c.importSegment s cmd
  | .importHistory cmd => c.importHistory s cmd
  | .receipt _ => True

@[simp] theorem Condition.holds_plain {c : Condition} {s : Store} {cmd : RoomCommand} :
    c.Holds s (plain cmd) ↔ c.Holds s cmd := by
  cases cmd <;> exact Iff.rfl

instance (c : Condition) [∀ s cmd, Decidable (c.append s cmd)]
    [∀ s cmd, Decidable (c.importRoom s cmd)] [∀ s cmd, Decidable (c.importSegment s cmd)]
    [∀ s cmd, Decidable (c.importHistory s cmd)] (s : Store) : ∀ cmd, Decidable (c.Holds s cmd)
  | .append cmd => inferInstanceAs (Decidable (c.append s cmd))
  | .appendStamped cmd _ => inferInstanceAs (Decidable (c.append s cmd))
  | .importRoom cmd => inferInstanceAs (Decidable (c.importRoom s cmd))
  | .importSegment cmd => inferInstanceAs (Decidable (c.importSegment s cmd))
  | .importHistory cmd => inferInstanceAs (Decidable (c.importHistory s cmd))
  | .receipt _ => .isTrue trivial

/-- An invariant of the tables that matter. -/
def OnCore (I : Store → Prop) : Prop := ∀ s, I s ↔ I s.core

theorem OnCore.congr {I : Store → Prop} (h : OnCore I) {s t : Store} (same : s.core = t.core)
    (hs : I s) : I t :=
  (h t).2 (same ▸ (h s).1 hs)

variable {s s' : Store}

theorem Commits.effect {P : Store → RoomCommand → Prop} (h : Commits P s s') :
    ∃ cmd t, P s cmd ∧ Effect s (plain cmd) t ∧ t.core = s'.core := by
  obtain ⟨engine, cmd, response, hP, happly⟩ := h
  obtain ⟨t, heff, hcore⟩ := Machine.apply_effect happly
  exact ⟨cmd, t, hP, heff, hcore⟩

theorem Runs.invariant {P : Store → RoomCommand → Prop} {I : Store → Prop} (hcore : OnCore I)
    (step : ∀ s cmd t, I s → P s cmd → Effect s (plain cmd) t → I t)
    (run : Runs P s s') (init : I s) : I s' := by
  induction run with
  | refl => exact init
  | tail _ last ih =>
    obtain ⟨cmd, t, hP, heff, same⟩ := last.effect
    exact hcore.congr same (step _ cmd t ih hP heff)

theorem Runs.mono {P Q : Store → RoomCommand → Prop} (h : ∀ s cmd, P s cmd → Q s cmd)
    (run : Runs P s s') : Runs Q s s' :=
  Relation.ReflTransGen.mono (r := Commits P) (p := Commits Q)
    (fun _ _ ⟨engine, cmd, response, hP, happly⟩ => ⟨engine, cmd, response, h _ _ hP, happly⟩) _ _ run

section Serve

variable {server : Server} {P : Store → RoomCommand → Prop} [∀ s cmd, Decidable (P s cmd)]
variable {fuel : Nat} {s s' : Store} {calls : List Call}

theorem serve_cases {call : Call} (h : server.serve P fuel s call = some s') :
    s' = s ∨ ∃ cmd response, call.prepare server s fuel = .ok (.inr cmd) ∧ P s cmd ∧
      Machine.apply s s cmd = .ok (s', response) := by
  unfold Server.serve at h
  split at h
  · simp at h
  · exact .inl (Option.some.inj h).symm
  · rename_i cmd hprep
    split at h
    · rename_i hP
      cases happly : Machine.apply s s cmd with
      | error e => simp [happly] at h
      | ok r =>
        obtain ⟨t, response⟩ := r
        obtain rfl : t = s' := by simpa [happly] using h
        exact .inr ⟨cmd, response, hprep, hP, happly⟩
    · simp at h

theorem serveAll_induction {R : Store → Store → Prop} (refl : ∀ s, R s s)
    (trans : ∀ s t u, R s t → R t u → R s u)
    (step : ∀ s t (call : Call) cmd response, call.prepare server s fuel = .ok (.inr cmd) → P s cmd →
      Machine.apply s s cmd = .ok (t, response) → R s t)
    (h : server.serveAll P fuel s calls = some s') : R s s' := by
  induction calls generalizing s with
  | nil =>
    obtain rfl : s = s' := by simpa [Server.serveAll] using h
    exact refl s
  | cons call calls ih =>
    simp only [Server.serveAll, List.foldlM_cons, Option.bind_eq_bind, Option.bind_eq_some_iff] at h
    obtain ⟨t, hfirst, hrest⟩ := h
    refine trans s t s' ?_ (ih hrest)
    rcases serve_cases hfirst with rfl | ⟨cmd, response, hprep, hP, happly⟩
    · exact refl t
    · exact step s t call cmd response hprep hP happly

theorem serveAll_runs (h : server.serveAll P fuel s calls = some s') :
    Runs (fun s cmd => Serial server.ruma s cmd ∧ P s cmd) s s' :=
  serveAll_induction (fun _ => .refl) (fun _ _ _ => Relation.ReflTransGen.trans)
    (fun s _ call cmd response hprep hP happly =>
      .single ⟨s, cmd, response, ⟨⟨server, fuel, call, rfl, hprep⟩, hP⟩, happly⟩) h

theorem exists_run (P : Store → RoomCommand → Prop) [∀ s cmd, Decidable (P s cmd)]
    (calls : List Call) (p : Store → Bool)
    (h : ((Server.sample ["x"]).serveAll P 9 Store.empty calls).any p = true) :
    ∃ s, Runs (fun s cmd => Serial Ruma.sample s cmd ∧ P s cmd) Store.empty s ∧ p s = true := by
  obtain ⟨s, hs, hp⟩ := (Option.any_eq_true _ _).1 h
  exact ⟨s, serveAll_runs hs, hp⟩

end Serve

/-! ## Commands applied later than they were computed -/

/-- A store and the commands that were computed so far. -/
structure Config where
  store : Store
  pool : List RoomCommand

namespace Config

def init : Config := ⟨Store.empty, []⟩

/-- A call computes a command, or a computed command that meets `P` is applied. -/
inductive Step (ruma : Ruma) (P : Store → RoomCommand → Prop) : Config → Config → Prop
  | prepare {c : Config} {server : Server} {fuel : Nat} {call : Call} {cmd : RoomCommand}
      (hserver : server.ruma = ruma) (h : call.prepare server c.store fuel = .ok (.inr cmd)) :
      Step ruma P c ⟨c.store, cmd :: c.pool⟩
  | commit {c : Config} {engine s' : Store} {cmd : RoomCommand} {response : RoomResponse}
      (pending : cmd ∈ c.pool) (hP : P c.store cmd)
      (h : Machine.apply engine c.store cmd = .ok (s', response)) : Step ruma P c ⟨s', c.pool⟩

/-- Any interleaving of calls and applications. -/
def Runs (ruma : Ruma) (P : Store → RoomCommand → Prop) : Config → Config → Prop :=
  Relation.ReflTransGen (Step ruma P)

theorem Runs.mono {ruma : Ruma} {P Q : Store → RoomCommand → Prop} (h : ∀ s cmd, P s cmd → Q s cmd)
    {c c' : Config} (run : Runs ruma P c c') : Runs ruma Q c c' := by
  refine Relation.ReflTransGen.mono (r := Step ruma P) (p := Step ruma Q) (fun _ _ step => ?_) _ _ run
  cases step with
  | prepare hserver computed => exact .prepare hserver computed
  | commit pending hP applied => exact .commit pending (h _ _ hP) applied

/-- Rule for interleavings: `R` is what a command's computation established and what later
applications cannot undo. -/
theorem Runs.invariant {ruma : Ruma} {P : Store → RoomCommand → Prop} {I : Store → Prop}
    {R : Store → RoomCommand → Prop} (hInv : OnCore I)
    (hReady : ∀ cmd, OnCore fun s => R s cmd)
    (prepared : ∀ server s cmd, I s → server.ruma = ruma → Produced server s cmd → R s cmd)
    (stable : ∀ s cmd other t, I s → R s cmd → R s other → P s other → Effect s (plain other) t → R t cmd)
    (commit : ∀ s cmd t, I s → R s cmd → P s cmd → Effect s (plain cmd) t → I t)
    {c c' : Config} (run : Runs ruma P c c')
    (init : I c.store ∧ ∀ cmd ∈ c.pool, R c.store cmd) :
    I c'.store ∧ ∀ cmd ∈ c'.pool, R c'.store cmd := by
  induction run with
  | refl => exact init
  | tail _ last ih =>
    obtain ⟨hinv, hpool⟩ := ih
    cases last with
    | prepare hserver h =>
      refine ⟨hinv, fun cmd hcmd => ?_⟩
      rcases List.mem_cons.1 hcmd with rfl | hcmd
      · exact prepared _ _ _ hinv hserver (prepare_produced h)
      · exact hpool cmd hcmd
    | commit pending hP h =>
      obtain ⟨t, heff, same⟩ := Machine.apply_effect h
      refine ⟨hInv.congr same (commit _ _ t hinv (hpool _ pending) hP heff), fun cmd hcmd => ?_⟩
      exact (hReady cmd).congr same (stable _ cmd _ t hinv (hpool cmd hcmd) (hpool _ pending) hP heff)

theorem serveAll_config {server : Server} {P : Store → RoomCommand → Prop}
    [∀ s cmd, Decidable (P s cmd)] {fuel : Nat} {s s' : Store} {calls : List Call}
    (h : server.serveAll P fuel s calls = some s') (pool : List RoomCommand) :
    ∃ pool', Runs server.ruma P ⟨s, pool⟩ ⟨s', pool'⟩ := by
  refine serveAll_induction (R := fun s s' => ∀ pool, ∃ pool', Runs server.ruma P ⟨s, pool⟩ ⟨s', pool'⟩)
    (fun _ pool => ⟨pool, .refl⟩) (fun s t u first second pool => ?_)
    (fun s t call cmd response hprep hP happly pool => ?_) h pool
  · obtain ⟨pool', run⟩ := first pool
    obtain ⟨pool'', run'⟩ := second pool'
    exact ⟨pool'', run.trans run'⟩
  · have prepared : Step server.ruma P ⟨s, pool⟩ ⟨s, cmd :: pool⟩ := .prepare rfl hprep
    have committed : Step server.ruma P ⟨s, cmd :: pool⟩ ⟨t, cmd :: pool⟩ :=
      .commit List.mem_cons_self hP happly
    exact ⟨cmd :: pool, .tail (.single prepared) committed⟩

end Config

theorem exists_config (P : Store → RoomCommand → Prop) [∀ s cmd, Decidable (P s cmd)]
    (calls : List Call) (p : Store → Bool)
    (h : ((Server.sample ["x"]).serveAll P 9 Store.empty calls).any p = true) :
    ∃ c, Config.Runs Ruma.sample P Config.init c ∧ p c.store = true := by
  obtain ⟨s, hs, hp⟩ := (Option.any_eq_true _ _).1 h
  obtain ⟨pool, run⟩ := Config.serveAll_config hs []
  exact ⟨⟨s, pool⟩, run, hp⟩

end Saltator.Room
