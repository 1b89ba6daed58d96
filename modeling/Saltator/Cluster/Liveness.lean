import Saltator.Cluster.Placement

/-!
# The failure detector

The leader of the metadata group probes the nodes of the roster and keeps count of what they answer. An
active node is asked to be marked only when it has failed all the time for the grace period, and an
unreachable one when it has answered several times in a row. What an operator drains is left alone.
-/

namespace Saltator.Cluster

open Std

namespace Liveness

/-- What one reading concludes about a node. -/
inductive Verdict where
  /-- It is active, and has failed for the grace period. -/
  | markUnreachable
  /-- It is unreachable, and answers steadily again. -/
  | markReachable
  | none
  deriving DecidableEq

/-- What is kept of a node. -/
structure Observed where
  /-- Where the present run of failures began. -/
  failingSince : Option Nat
  okStreak : Nat
  deriving DecidableEq

instance : Inhabited Observed := ⟨⟨none, 0⟩⟩

/-- How many answers in a row restore an unreachable node. -/
def recoveryStreak : Nat := 3

structure Tracker where
  grace : Nat
  nodes : OrdMap NodeId Observed
  deriving DecidableEq

namespace Tracker

def new (grace : Nat) : Tracker := ⟨grace, ∅⟩

def put (t : Tracker) (node : NodeId) (entry : Observed) : Tracker :=
  { t with nodes := t.nodes.insert node entry }

def drop (t : Tracker) (node : NodeId) : Tracker := { t with nodes := t.nodes.erase node }

/-- Forget everything, as the leadership is lost or gained. -/
def reset (t : Tracker) : Tracker := { t with nodes := ∅ }

/-- Take in the result of a probe at the time `now`. A clock that went back counts as one that stood. -/
def observe (t : Tracker) (node : NodeId) (status : NodeStatus) (ok : Bool) (now : Nat) : Verdict × Tracker :=
  let entry := t.nodes[node]?.getD default
  match status with
  | .draining => (.none, t.drop node)
  | .active =>
    if ok then (.none, t.drop node)
    else
      let since := entry.failingSince.getD now
      if t.grace ≤ now - since then (.markUnreachable, t.drop node)
      else (.none, t.put node ⟨some since, 0⟩)
  | .unreachable =>
    if ¬ok then (.none, t.put node ⟨none, 0⟩)
    else if recoveryStreak ≤ entry.okStreak + 1 then (.markReachable, t.drop node)
    else (.none, t.put node ⟨none, entry.okStreak + 1⟩)

def retain (t : Tracker) (roster : Roster) : Tracker :=
  { t with nodes := t.nodes.filter fun id _ => roster.contains id }

end Tracker

/-! ## Histories -/

/-- What happens to a tracker. -/
inductive Event where
  | observe (node : NodeId) (status : NodeStatus) (ok : Bool) (now : Nat)
  | reset
  | retain (roster : Roster)

def Tracker.step (t : Tracker) : Event → Tracker
  | .observe node status ok now => (t.observe node status ok now).2
  | .reset => t.reset
  | .retain roster => t.retain roster

def Tracker.after (grace : Nat) (past : List Event) : Tracker := past.foldl Tracker.step (.new grace)

def Event.Passes (node : NodeId) : Event → Prop
  | .observe other _ _ _ => other ≠ node
  | .reset => False
  | .retain roster => node ∈ roster

/-- The history ends in a run of `n` readings of the node, all of the one status and the one result, the
first of them at the time `since`. Nothing breaks the run: no other reading of the node, and nothing that
makes the tracker forget. -/
inductive Unbroken (node : NodeId) (status : NodeStatus) (ok : Bool) : List Event → Nat → Nat → Prop
  | first (past : List Event) (now : Nat) :
      Unbroken node status ok (past ++ [.observe node status ok now]) now 1
  | pass {past : List Event} {since n : Nat} {event : Event} (run : Unbroken node status ok past since n)
      (passes : event.Passes node) : Unbroken node status ok (past ++ [event]) since n
  | again {past : List Event} {since n : Nat} (run : Unbroken node status ok past since n) (now : Nat) :
      Unbroken node status ok (past ++ [.observe node status ok now]) since (n + 1)

variable {grace now since n : Nat} {past : List Event} {t : Tracker} {node other : NodeId}
  {status : NodeStatus} {ok : Bool} {entry : Observed} {event : Event}

/-- What is kept of the node was earned by runs that still last. -/
structure Earned (past : List Event) (node : NodeId) (entry : Observed) : Prop where
  failing : ∀ since, entry.failingSince = some since → ∃ n, Unbroken node .active false past since n
  answering : entry.okStreak ≠ 0 → ∃ since, Unbroken node .unreachable true past since entry.okStreak

theorem Earned.init : Earned past node default := ⟨nofun, nofun⟩

theorem Earned.pass (earned : Earned past node entry) (passes : event.Passes node) :
    Earned (past ++ [event]) node entry where
  failing since began := by
    obtain ⟨n, run⟩ := earned.failing since began
    exact ⟨n, run.pass passes⟩
  answering some := by
    obtain ⟨since, run⟩ := earned.answering some
    exact ⟨since, run.pass passes⟩

theorem Earned.failed (earned : Earned past node entry) (now : Nat) : ∃ n,
    Unbroken node .active false (past ++ [.observe node .active false now])
      (entry.failingSince.getD now) n := by
  cases began : entry.failingSince with
  | none => exact ⟨1, .first past now⟩
  | some since =>
    obtain ⟨n, run⟩ := earned.failing since began
    exact ⟨n + 1, run.again now⟩

theorem Earned.answered (earned : Earned past node entry) (now : Nat) : ∃ since,
    Unbroken node .unreachable true (past ++ [.observe node .unreachable true now]) since
      (entry.okStreak + 1) := by
  by_cases none : entry.okStreak = 0
  · rw [none]
    exact ⟨now, .first past now⟩
  · obtain ⟨since, run⟩ := earned.answering none
    exact ⟨since, run.again now⟩

/-- What the tracker asks for after a reading is earned by the runs that end with it, and so is what it
keeps. -/
theorem observe_earned (status : NodeStatus) (ok : Bool) (now : Nat)
    (earned : Earned past node (t.nodes[node]?.getD default)) :
    ((t.observe node status ok now).1 = .markUnreachable → ∃ since n,
      Unbroken node .active false (past ++ [.observe node status ok now]) since n ∧ t.grace ≤ now - since) ∧
    ((t.observe node status ok now).1 = .markReachable → ∃ since n,
      Unbroken node .unreachable true (past ++ [.observe node status ok now]) since n ∧ recoveryStreak ≤ n) ∧
    ((t.observe node status ok now).2 = t.drop node ∨
      ∃ entry, (t.observe node status ok now).2 = t.put node entry ∧
        Earned (past ++ [.observe node status ok now]) node entry) := by
  generalize kept : t.nodes[node]?.getD default = entry at earned
  unfold Tracker.observe
  rw [kept]
  cases status with
  | draining => exact ⟨nofun, nofun, .inl rfl⟩
  | active =>
    cases ok with
    | true => exact ⟨nofun, nofun, .inl rfl⟩
    | false =>
      obtain ⟨n, run⟩ := earned.failed now
      dsimp only
      rw [if_neg Bool.false_ne_true]
      split
      · next long => exact ⟨fun _ => ⟨_, n, run, long⟩, nofun, .inl rfl⟩
      · refine ⟨nofun, nofun, .inr ⟨_, rfl, ?_, fun some => absurd rfl some⟩⟩
        rintro since ⟨⟩
        exact ⟨n, run⟩
  | unreachable =>
    cases ok with
    | false =>
      exact ⟨nofun, nofun, .inr ⟨_, rfl, nofun, fun some => absurd rfl some⟩⟩
    | true =>
      obtain ⟨since, run⟩ := earned.answered now
      dsimp only
      rw [if_neg (not_not_intro rfl)]
      split
      · next steady => exact ⟨nofun, fun _ => ⟨since, _, run, steady⟩, .inl rfl⟩
      · exact ⟨nofun, nofun,
          .inr ⟨_, rfl, nofun, fun _ => ⟨since, run⟩⟩⟩

@[simp] theorem getElem?_drop :
    (t.drop node).nodes[other]? = if other = node then none else t.nodes[other]? :=
  OrdMap.getElem?_erase'

@[simp] theorem getElem?_put :
    (t.put node entry).nodes[other]? = if other = node then some entry else t.nodes[other]? :=
  OrdMap.getElem?_insert'

theorem step_earned (event : Event) (earned : ∀ node, Earned past node (t.nodes[node]?.getD default))
    (node : NodeId) : Earned (past ++ [event]) node ((t.step event).nodes[node]?.getD default) := by
  cases event with
  | observe read status ok now =>
    have kept := (observe_earned status ok now (earned read)).2.2
    by_cases same : node = read
    · subst same
      obtain forgot | ⟨entry, kept, earned⟩ := kept
      · rw [Tracker.step, forgot, getElem?_drop, if_pos rfl]
        exact .init
      · rw [Tracker.step, kept, getElem?_put, if_pos rfl]
        exact earned
    · have passes : (Event.observe read status ok now).Passes node := Ne.symm same
      obtain forgot | ⟨entry, kept, -⟩ := kept
      · rw [Tracker.step, forgot, getElem?_drop, if_neg same]
        exact (earned node).pass passes
      · rw [Tracker.step, kept, getElem?_put, if_neg same]
        exact (earned node).pass passes
  | reset =>
    rw [Tracker.step, Tracker.reset, ExtTreeMap.getElem?_empty]
    exact .init
  | retain roster =>
    rw [Tracker.step, Tracker.retain, ExtTreeMap.getElem?_filter']
    cases found : t.nodes[node]? with
    | none => exact .init
    | some entry =>
      by_cases known : node ∈ roster
      · have earned := earned node
        rw [found] at earned
        rw [Option.filter_some, if_pos (ExtTreeMap.contains_iff_mem.2 known)]
        exact earned.pass known
      · rw [Option.filter_some, if_neg (known ∘ ExtTreeMap.contains_iff_mem.1)]
        exact .init

theorem after_concat (grace : Nat) (past : List Event) (event : Event) :
    Tracker.after grace (past ++ [event]) = (Tracker.after grace past).step event := by
  rw [Tracker.after, List.foldl_concat]
  rfl

theorem after_earned (grace : Nat) (past : List Event) (node : NodeId) :
    Earned past node ((Tracker.after grace past).nodes[node]?.getD default) := by
  induction past using List.reverseRecOn generalizing node with
  | nil => exact .init
  | append_singleton past event ih =>
    rw [after_concat]
    exact step_earned event ih node

theorem grace_step (t : Tracker) (event : Event) : (t.step event).grace = t.grace := by
  cases event with
  | observe node status ok now =>
    unfold Tracker.step Tracker.observe
    cases status <;> dsimp only <;> (repeat' split) <;> rfl
  | reset => rfl
  | retain roster => rfl

theorem grace_after (grace : Nat) (past : List Event) : (Tracker.after grace past).grace = grace := by
  induction past using List.reverseRecOn with
  | nil => rfl
  | append_singleton past event ih => rw [after_concat, grace_step, ih]

/-- **Verdicts are earned.** After every history, a reading condemns a node only where it ends an unbroken
run of failures of the active node over the grace period, restores one only where it ends an unbroken run of
enough answers of the unreachable node, and concludes nothing of a draining one. -/
theorem verdict_earned (grace : Nat) (past : List Event) (node : NodeId) (status : NodeStatus) (ok : Bool)
    (now : Nat) :
    (((Tracker.after grace past).observe node status ok now).1 = .markUnreachable → ∃ since n,
      Unbroken node .active false (past ++ [.observe node status ok now]) since n ∧ grace ≤ now - since) ∧
    (((Tracker.after grace past).observe node status ok now).1 = .markReachable → ∃ since n,
      Unbroken node .unreachable true (past ++ [.observe node status ok now]) since n ∧ recoveryStreak ≤ n) ∧
    (status = .draining → ((Tracker.after grace past).observe node status ok now).1 = .none) := by
  obtain ⟨condemned, restored, -⟩ :=
    observe_earned status ok now (after_earned grace past node)
  rw [grace_after] at condemned
  refine ⟨condemned, restored, ?_⟩
  rintro rfl
  rfl

/-- A node that fails over the grace period is condemned. -/
example : ((Tracker.after 30 [.observe 2 .active false 5]).observe 2 .active false 35).1 =
    .markUnreachable := by decide +kernel

end Liveness

end Saltator.Cluster
