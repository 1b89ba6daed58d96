import Mathlib.Data.List.Perm.Basic
import Mathlib.Data.List.Nodup
import Mathlib.Tactic.Common

/-!
# Calls that retry

A caller has one command applied by a replicated state machine: it sends the command, attempt after
attempt, until one is acknowledged. An attempt carries no identity of the call. It travels until some
leader appends it or it is lost, and what was appended is committed or dropped, whatever the caller
has been told by then. So an attempt that the caller gave up may be applied all the same. Where it
gives up only attempts that are dead, the command is applied once (`Reached.applied_once`).
-/

namespace Saltator.Retry

/-- What a caller does next: `ι` are the choices its surroundings make for it, `β` the ways in which
an attempt fails. -/
inductive Move (γ ι β ε ρ : Type) where
  | submit (acked : ρ → γ) (failed : β → γ)
  | choose (next : ι → γ)
  | finish (result : Except ε ρ)

/-- The move ends the call with success. -/
def Move.Succeeds {γ ι β ε ρ : Type} (m : Move γ ι β ε ρ) : Prop := ∃ r, m = .finish (.ok r)

/-- A caller, as a machine. It succeeds when an attempt is acknowledged, and only then. -/
structure Caller (ι β ε ρ : Type) where
  Control : Type
  start : Control
  move : Control → Move Control ι β ε ρ
  acked_finishes : ∀ {c acked failed}, move c = .submit acked failed → ∀ r, move (acked r) = .finish (.ok r)
  start_unfinished : ¬(move start).Succeeds
  failed_unfinished : ∀ {c acked failed}, move c = .submit acked failed → ∀ b, ¬(move (failed b)).Succeeds
  next_unfinished : ∀ {c next}, move c = .choose next → ∀ i, ¬(move (next i)).Succeeds

/-- A call, and the group it addresses. -/
structure Call (γ σ ρ : Type) where
  control : γ
  /-- The attempt that the caller waits for. -/
  waiting : Option Nat
  /-- The number of attempts so far. -/
  sent : Nat
  /-- The attempts on their way to a leader. -/
  travelling : List Nat
  /-- The attempts in the log of some leader, not committed. -/
  appended : List Nat
  /-- The attempts that were applied, with their responses. -/
  applied : List (Nat × ρ)
  state : σ

inductive Event (κ ι β : Type) where
  /-- The caller sends an attempt. -/
  | submit
  /-- A leader appends an attempt. -/
  | accept (n : Nat)
  /-- No leader will see the attempt. -/
  | lose (n : Nat)
  /-- The node that serves the attempt sends it again. -/
  | relay (n : Nat)
  | commit (n : Nat)
  /-- Another leader overwrites the attempt. -/
  | drop (n : Nat)
  /-- Another command is applied. -/
  | other (cmd : κ)
  /-- The caller gets the response to its attempt. -/
  | acknowledge
  /-- The caller is told that its attempt failed. -/
  | report (b : β)
  | choose (i : ι)

section Run

variable {ι β ε ρ σ κ φ : Type} (caller : Caller ι β ε ρ) (apply : σ → κ → Except φ (σ × ρ)) (command : κ)

def Call.fresh (state : σ) : Call caller.Control σ ρ :=
  ⟨caller.start, none, 0, [], [], [], state⟩

/-- A step, unless it is not its turn or the state machine faults. -/
def Call.step (s : Call caller.Control σ ρ) : Event κ ι β → Option (Call caller.Control σ ρ)
  | .submit =>
    match s.waiting, caller.move s.control with
    | none, .submit _ _ => some { s with
        waiting := some s.sent
        sent := s.sent + 1
        travelling := s.travelling ++ [s.sent] }
    | _, _ => none
  | .accept n =>
    if n ∈ s.travelling then
      some { s with travelling := s.travelling.erase n, appended := s.appended ++ [n] }
    else none
  | .lose n =>
    if n ∈ s.travelling then some { s with travelling := s.travelling.erase n } else none
  | .relay n => if n < s.sent then some { s with travelling := s.travelling ++ [n] } else none
  | .commit n =>
    if n ∈ s.appended then
      match apply s.state command with
      | .ok (state, r) => some { s with
          appended := s.appended.erase n
          applied := s.applied ++ [(n, r)]
          state := state }
      | .error _ => none
    else none
  | .drop n =>
    if n ∈ s.appended then some { s with appended := s.appended.erase n } else none
  | .other cmd =>
    match apply s.state cmd with
    | .ok (state, _) => some { s with state := state }
    | .error _ => none
  | .acknowledge =>
    match s.waiting, caller.move s.control with
    | some n, .submit acked _ =>
      (s.applied.lookup n).map fun r => { s with control := acked r, waiting := none }
    | _, _ => none
  | .report b =>
    match s.waiting, caller.move s.control with
    | some _, .submit _ failed => some { s with control := failed b, waiting := none }
    | _, _ => none
  | .choose i =>
    match caller.move s.control with
    | .choose next => some { s with control := next i }
    | _ => none

def Call.run (s : Call caller.Control σ ρ) (events : List (Event κ ι β)) :
    Option (Call caller.Control σ ρ) :=
  events.foldlM (Call.step caller apply command) s

def Call.live {γ : Type} (s : Call γ σ ρ) : List Nat :=
  s.travelling ++ s.appended ++ s.applied.map Prod.fst

/-- No failure is reported of an attempt that is alive, to the caller or to a node that sends it again
for the caller. -/
def Call.Clean {γ : Type} (s : Call γ σ ρ) : Event κ ι β → Prop
  | .report _ => ∀ n, s.waiting = some n → n ∉ s.live
  | .relay n => s.waiting = some n ∧ n ∉ s.live
  | _ => True

inductive Reached : Call caller.Control σ ρ → Prop
  | fresh (state : σ) : Reached (.fresh caller state)
  | step {s t : Call caller.Control σ ρ} {event : Event κ ι β} (before : Reached s)
      (clean : s.Clean event) (moved : s.step caller apply command event = some t) : Reached t

/-- One attempt is alive at a time, the one that the caller waits for; after success, the one that was
acknowledged. -/
structure Once (s : Call caller.Control σ ρ) : Prop where
  nodup : s.live.Nodup
  pending : ∀ n, s.waiting = some n → ¬(caller.move s.control).Succeeds
  current : ¬(caller.move s.control).Succeeds → ∀ n ∈ s.live, s.waiting = some n
  finished : ∀ r, caller.move s.control = .finish (.ok r) →
    s.travelling = [] ∧ s.appended = [] ∧ ∃ n, s.applied = [(n, r)]

variable {caller apply command} {s t : Call caller.Control σ ρ} {event : Event κ ι β}
  {failed : β → caller.Control} {acked : ρ → caller.Control} {n : Nat} {r : ρ}

theorem once_fresh {state : σ} : Once caller (.fresh caller state) :=
  ⟨List.nodup_nil, fun _ waiting => absurd waiting nofun,
    fun _ _ mem => absurd mem List.not_mem_nil, fun r done => absurd ⟨r, done⟩ caller.start_unfinished⟩

theorem Once.unfinished (h : Once caller s) (mem : n ∈ s.travelling ++ s.appended) :
    ¬(caller.move s.control).Succeeds := by
  rintro ⟨r, done⟩
  obtain ⟨travelling, appended, -⟩ := h.finished r done
  rw [travelling, appended] at mem
  exact List.not_mem_nil mem

theorem Once.advance (h : Once caller s) (unfinished : ¬(caller.move s.control).Succeeds)
    (control : t.control = s.control) (waiting : t.waiting = s.waiting)
    (live : t.live.Subperm s.live) : Once caller t := by
  constructor
  · obtain ⟨l, perm, sub⟩ := live
    exact perm.nodup_iff.1 (h.nodup.sublist sub)
  · intro _ _
    rw [control]
    exact unfinished
  · intro _ n mem
    rw [waiting]
    exact h.current unfinished n (live.subset mem)
  · intro r done
    rw [control] at done
    exact absurd ⟨r, done⟩ unfinished

theorem once_accept (h : Once caller s) (mem : n ∈ s.travelling) :
    Once caller { s with travelling := s.travelling.erase n, appended := s.appended ++ [n] } := by
  have last : (s.travelling.erase n ++ (s.appended ++ [n])).Perm
      (n :: s.travelling.erase n ++ s.appended) := by
    rw [← List.append_assoc, List.cons_append]
    exact List.perm_append_singleton ..
  have back : (n :: s.travelling.erase n ++ s.appended).Perm (s.travelling ++ s.appended) :=
    (List.perm_cons_erase mem).symm.append_right s.appended
  exact h.advance (h.unfinished (List.mem_append_left _ mem)) rfl rfl
    ((last.trans back).append_right _).subperm

theorem once_commit {state : σ} (h : Once caller s) (mem : n ∈ s.appended) :
    Once caller { s with
      appended := s.appended.erase n, applied := s.applied ++ [(n, r)], state := state } := by
  have back : (s.appended.erase n ++ (s.applied ++ [(n, r)]).map Prod.fst).Perm
      (s.appended ++ s.applied.map Prod.fst) := by
    rw [List.map_append, ← List.append_assoc]
    exact (List.perm_append_singleton ..).trans ((List.perm_cons_erase mem).symm.append_right _)
  refine h.advance (h.unfinished (List.mem_append_right _ mem)) rfl rfl (List.Perm.subperm ?_)
  rw [Call.live, Call.live, List.append_assoc, List.append_assoc]
  exact back.append_left _

theorem Once.applied_eq (h : Once caller s)
    (unfinished : ¬(caller.move s.control).Succeeds) (waiting : s.waiting = some n)
    (found : s.applied.lookup n = some r) :
    s.travelling = [] ∧ s.appended = [] ∧ s.applied = [(n, r)] := by
  obtain ⟨before, rest, split, -⟩ := List.lookup_eq_some_iff.1 found
  have mem : n ∈ s.live := by simp [Call.live, split]
  have alone : s.live = [n] := by
    refine List.perm_singleton.1 ((List.perm_ext_iff_of_nodup h.nodup (List.nodup_singleton n)).2
      fun m => ?_)
    rw [List.mem_singleton]
    constructor
    · intro held
      exact Option.some.inj ((h.current unfinished m held).symm.trans waiting)
    · rintro rfl
      exact mem
  rw [Call.live, split] at alone
  have lengths := congrArg List.length alone
  simp only [List.length_append, List.length_map, List.length_cons, List.length_nil] at lengths
  have nil : ∀ {α : Type} {l : List α}, l.length = 0 → l = [] := List.eq_nil_of_length_eq_zero
  rw [split, nil (by omega : before.length = 0), nil (by omega : rest.length = 0)]
  exact ⟨nil (by omega), nil (by omega), rfl⟩

theorem live_sent (none : s.live = []) :
    s.travelling ++ [n] ++ s.appended ++ s.applied.map Prod.fst = [n] := by
  obtain ⟨⟨travelling, appended⟩, applied⟩ : (s.travelling = [] ∧ s.appended = []) ∧
      s.applied.map Prod.fst = [] := by simpa [Call.live, and_assoc] using none
  rw [travelling, appended, applied]
  rfl

theorem unfinished_of_submit {c : caller.Control} (now : caller.move c = .submit acked failed) :
    ¬(caller.move c).Succeeds := by
  rintro ⟨r, done⟩
  rw [now] at done
  cases done

theorem once_submit (h : Once caller s)
    (idle : s.waiting = none) (now : caller.move s.control = .submit acked failed) :
    Once caller { s with
      waiting := some s.sent, sent := s.sent + 1, travelling := s.travelling ++ [s.sent] } := by
  have none : s.live = [] := by
    refine List.eq_nil_iff_forall_not_mem.2 fun n mem => ?_
    have waiting := h.current (unfinished_of_submit now) n mem
    rw [idle] at waiting
    cases waiting
  have live : ({ s with
      waiting := some s.sent, sent := s.sent + 1, travelling := s.travelling ++ [s.sent] } :
        Call caller.Control σ ρ).live = [s.sent] := live_sent none
  constructor
  · rw [live]
    exact List.nodup_singleton _
  · intro _ _
    exact unfinished_of_submit now
  · intro _ n mem
    rw [live] at mem
    rw [List.mem_singleton.1 mem]
  · intro r done
    exact absurd ⟨r, done⟩ (unfinished_of_submit now)

theorem once_report {b : β} (h : Once caller s) (waiting : s.waiting = some n)
    (now : caller.move s.control = .submit acked failed) (dead : n ∉ s.live) :
    Once caller { s with control := failed b, waiting := none } := by
  refine ⟨h.nodup, fun _ idle => absurd idle nofun, fun _ m mem => ?_,
    fun r done => absurd ⟨r, done⟩ (caller.failed_unfinished now b)⟩
  have same := Option.some.inj ((h.current (unfinished_of_submit now) m mem).symm.trans waiting)
  exact absurd (same ▸ mem) dead

theorem once_relay (h : Once caller s) (waiting : s.waiting = some n) (dead : n ∉ s.live) :
    Once caller { s with travelling := s.travelling ++ [n] } := by
  have none : s.live = [] := by
    refine List.eq_nil_iff_forall_not_mem.2 fun m mem => ?_
    have same := Option.some.inj ((h.current (h.pending n waiting) m mem).symm.trans waiting)
    exact dead (same ▸ mem)
  have live : ({ s with travelling := s.travelling ++ [n] } : Call caller.Control σ ρ).live = [n] :=
    live_sent none
  constructor
  · rw [live]
    exact List.nodup_singleton _
  · intro m waits
    exact h.pending m waits
  · intro _ m mem
    rw [live] at mem
    rw [List.mem_singleton.1 mem]
    exact waiting
  · intro r done
    exact absurd ⟨r, done⟩ (h.pending n waiting)

theorem once_step (h : Once caller s) (clean : s.Clean event)
    (moved : s.step caller apply command event = some t) : Once caller t := by
  cases event with
  | submit =>
    simp only [Call.step] at moved
    split at moved
    · rename_i acked failed idle now
      obtain rfl := Option.some.inj moved
      exact once_submit h idle now
    · cases moved
  | accept n =>
    simp only [Call.step] at moved
    split at moved
    · rename_i mem
      obtain rfl := Option.some.inj moved
      exact once_accept h mem
    · cases moved
  | lose n =>
    simp only [Call.step] at moved
    split at moved
    · rename_i mem
      obtain rfl := Option.some.inj moved
      exact h.advance (h.unfinished (List.mem_append_left _ mem)) rfl rfl
        ((List.erase_sublist.append_right _).append_right _).subperm
    · cases moved
  | relay n =>
    simp only [Call.step] at moved
    split at moved
    · obtain rfl := Option.some.inj moved
      exact once_relay h clean.1 clean.2
    · cases moved
  | commit n =>
    simp only [Call.step] at moved
    split at moved
    · rename_i mem
      split at moved
      · obtain rfl := Option.some.inj moved
        exact once_commit h mem
      · cases moved
    · cases moved
  | drop n =>
    simp only [Call.step] at moved
    split at moved
    · rename_i mem
      obtain rfl := Option.some.inj moved
      exact h.advance (h.unfinished (List.mem_append_right _ mem)) rfl rfl
        ((List.erase_sublist.append_left _).append_right _).subperm
    · cases moved
  | other cmd =>
    simp only [Call.step] at moved
    split at moved
    · obtain rfl := Option.some.inj moved
      exact ⟨h.nodup, h.pending, h.current, h.finished⟩
    · cases moved
  | acknowledge =>
    simp only [Call.step] at moved
    split at moved
    · rename_i n acked failed waiting now
      obtain ⟨r, found, rfl⟩ := Option.map_eq_some_iff.1 moved
      obtain ⟨travelling, appended, applied⟩ :=
        h.applied_eq (unfinished_of_submit now) waiting found
      have ends := caller.acked_finishes now r
      refine ⟨h.nodup, fun _ idle => absurd idle nofun, fun unfinished => absurd ⟨r, ends⟩ unfinished,
        fun r' done => ?_⟩
      obtain rfl := Except.ok.inj (Move.finish.inj (ends.symm.trans done))
      exact ⟨travelling, appended, n, applied⟩
    · cases moved
  | report b =>
    simp only [Call.step] at moved
    split at moved
    · rename_i n acked failed waiting now
      obtain rfl := Option.some.inj moved
      exact once_report h waiting now (clean n waiting)
    · cases moved
  | choose i =>
    simp only [Call.step] at moved
    split at moved
    · rename_i next now
      obtain rfl := Option.some.inj moved
      have unfinished : ¬(caller.move s.control).Succeeds := by
        rintro ⟨r, done⟩
        rw [now] at done
        cases done
      have idle : ∀ n, s.waiting = some n → ¬(caller.move (next i)).Succeeds :=
        fun _ _ => caller.next_unfinished now i
      exact ⟨h.nodup, idle, fun _ => h.current unfinished,
        fun r done => absurd ⟨r, done⟩ (caller.next_unfinished now i)⟩
    · cases moved

theorem Reached.run {events : List (Event κ ι β)} (h : Reached caller apply command s)
    (silent : ∀ event ∈ events, ∀ s : Call caller.Control σ ρ, s.Clean event)
    (ran : s.run caller apply command events = some t) : Reached caller apply command t := by
  induction events generalizing s with
  | nil =>
    obtain rfl := Option.some.inj ran
    exact h
  | cons event events ih =>
    obtain ⟨u, moved, rest⟩ := Option.bind_eq_some_iff.1 ran
    have clean := silent event List.mem_cons_self s
    exact ih (h.step clean moved) (fun e mem => silent e (List.mem_cons_of_mem _ mem)) rest

theorem Reached.once (h : Reached caller apply command s) : Once caller s := by
  induction h with
  | fresh state => exact once_fresh
  | step before clean moved ih => exact once_step ih clean moved

/-- Where no failure is reported of an attempt that is alive, a call that succeeds has had its command
applied once, and the caller has the response of that application. -/
theorem Reached.applied_once (h : Reached caller apply command s)
    (done : caller.move s.control = .finish (.ok r)) : ∃ n, s.applied = [(n, r)] :=
  (h.once.finished r done).2.2

end Run

end Saltator.Retry
