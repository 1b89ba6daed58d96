import Saltator.Lib.History
import Saltator.Shard.Apps

/-!
# Histories of a user shard

The log of a user shard carries commands and migration steps. `UserRun` follows it from a fresh shard
and records what the commands did.
-/

namespace Saltator.User

open Shard (applyEntry)

section

variable {serde : SerdeJson} {ω : Type} (P : Store → Store → UserCommand → Prop)
  (M : Store → Store → Nat → Prop) (events : Store → UserCommand → Store → UserResponse → List ω)

/-- The entry's command meets `P`, or its migration step, if it is one to be taken, `M`. -/
def EntryMeets (e s : Shard.State (UserApp serde)) (entry : Shard.Entry UserCommand) : Prop :=
  match entry.payload with
  | .normal cmd => P e.app s.app cmd
  | .runtime (.migrate target) => M e.app s.app target
  | _ => True

def entryEvents (s : Shard.State (UserApp serde)) (entry : Shard.Entry UserCommand)
    (t : Shard.State (UserApp serde)) (r : Shard.EntryResponse UserResponse) : List ω :=
  match entry.payload, r with
  | .normal cmd, .normal r => events s.app cmd t.app r
  | _, _ => []

/-- Batches lead from a fresh shard to `e`, and entries of the next batch to `s`. -/
abbrev UserRun (serde : SerdeJson) :=
  Batch.Recorded (applyEntry (UserApp serde)) (EntryMeets P M) (entryEvents events)
    (Shard.State.fresh Store.empty)

inductive EntryDid (e s : Shard.State (UserApp serde)) (entry : Shard.Entry UserCommand) (app : Store)
    (recorded : List ω) : Prop
  | command {cmd : UserCommand} {r : UserResponse} (payload : entry.payload = .normal cmd)
      (applied : Machine.apply serde e.app s.app cmd = .ok (app, r))
      (told : recorded = events s.app cmd app r)
  | migration {target : Nat} (payload : entry.payload = .runtime (.migrate target))
      (applied : Machine.migrate e.app s.app target = .ok app) (silent : recorded = [])
  | nothing (same : app = s.app) (silent : recorded = [])

variable {P M events} {e s t : Shard.State (UserApp serde)} {history : List ω}

theorem applyEntry_did {entry : Shard.Entry UserCommand} {r : Shard.EntryResponse UserResponse}
    (applied : applyEntry (UserApp serde) e s entry = .ok (t, r)) :
    EntryDid events e s entry t.app (entryEvents events s entry t r) := by
  obtain ⟨logId, payload⟩ := entry
  cases payload with
  | normal cmd =>
    obtain ⟨⟨app, r'⟩, step, answer⟩ := Outcome.bind_eq_ok.1 applied
    obtain ⟨rfl, rfl⟩ := Prod.mk.inj (Outcome.pure_eq_ok.1 answer)
    exact .command rfl step rfl
  | blank =>
    obtain ⟨rfl, -⟩ := ok_pair applied
    exact .nothing rfl rfl
  | membership m =>
    obtain ⟨rfl, -⟩ := ok_pair applied
    exact .nothing rfl rfl
  | runtime cmd =>
    cases Shard.applyEntry_reaches applied with
    | idle same => exact .nothing same rfl
    | command payload => cases payload
    | migration payload next known migrated => exact .migration payload migrated rfl

theorem UserRun.invariant {I : Store → Store → List ω → Prop} (start : I .empty .empty [])
    (cut : ∀ {e s history}, I e s history → I s s history)
    (command : ∀ {e s t cmd r history}, I e s history → P e s cmd →
      Machine.apply serde e s cmd = .ok (t, r) → I e t (history ++ events s cmd t r))
    (migration : ∀ {e s t target history}, I e s history → M e s target →
      Machine.migrate e s target = .ok t → I e t history)
    (run : UserRun P M events serde e s history) : I e.app s.app history := by
  refine Batch.Recorded.invariant (I := fun e s history => I e.app s.app history) start cut ?_ run
  intro e s t history entry r ih meets applied
  have did : EntryDid events e s entry t.app (entryEvents events s entry t r) :=
    applyEntry_did applied
  unfold EntryMeets at meets
  generalize entryEvents events s entry t r = recorded at did
  cases did with
  | command payload step told =>
    subst told
    rw [payload] at meets
    exact command ih meets step
  | migration payload step silent =>
    subst silent
    rw [payload] at meets
    rw [List.append_nil]
    exact migration ih meets step
  | nothing same silent =>
    subst silent
    rw [List.append_nil]
    exact same.symm ▸ ih

def UserReach (P : Store → Store → UserCommand → Prop) (M : Store → Store → Nat → Prop)
    (serde : SerdeJson) (e s : Shard.State (UserApp serde)) : Prop :=
  ∃ history : List Unit, UserRun P M (fun _ _ _ _ => []) serde e s history

theorem UserReach.invariant {I : Store → Prop} (start : I .empty)
    (command : ∀ {e s t cmd r}, I s → P e s cmd → Machine.apply serde e s cmd = .ok (t, r) → I t)
    (migration : ∀ {e s t target}, I s → M e s target → Machine.migrate e s target = .ok t → I t)
    (reach : UserReach P M serde e s) : I s.app := by
  obtain ⟨history, run⟩ := reach
  exact UserRun.invariant (I := fun _ s _ => I s) start id (fun h meets applied => command h meets applied)
    (fun h meets applied => migration h meets applied) run

end

end Saltator.User
