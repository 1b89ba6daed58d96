import Saltator.Cluster.Placement
import Saltator.Lib.Task

/-!
# The roster and the placement

The records of the control plane, and the calls that change them. A call reads the roster, plans the
next one, and writes it and then the placement that follows from it, in a proposal each.

* `roster_lifecycle`: an active node stays, and nodes leave by way of a drain.
* `placement_follows`: after which calls the placement is the one that the roster implies.
-/

namespace Saltator.Cluster

open Std Outcome

/-- `Storage` and `Codec` failures are those of the store and of its encodings. -/
inductive ClusterError where
  | raft (reason : String)
  | storage (reason : String)
  | codec (reason : String)
  | roster (e : RosterError)
  deriving DecidableEq, Repr

/-- What a call asks of the metadata group. -/
inductive MetaQuestion where
  | addLearner (node : NodeId) (addr : String)
  /-- The voters that this node knows of. -/
  | voterIds
  | setVoters (voters : OrdSet NodeId)
  | config
  | roster
  | setConfig (config : ClusterConfig)
  | setRoster (roster : Roster)
  | setPlacement (placement : Placement)
  deriving DecidableEq

abbrev MetaQuestion.Answer : MetaQuestion → Type
  | .voterIds => OrdSet NodeId
  | .config => Option ClusterConfig
  | .roster => Option Roster
  | .addLearner .. | .setVoters _ | .setConfig _ | .setRoster _ | .setPlacement _ => Unit

abbrev MetaTask := Task MetaQuestion MetaQuestion.Answer ClusterError

def clusterConfig : MetaTask (Option ClusterConfig) := Task.question MetaQuestion.config

def roster : MetaTask Roster := do
  let blob : Option Roster ← Task.question MetaQuestion.roster
  return blob.getD ∅

def voterIds : MetaTask (OrdSet NodeId) := Task.question MetaQuestion.voterIds

/-- Have something written, or done to the group. -/
def request (question : MetaQuestion) : MetaTask Unit := .ask question fun _ => .done (.ok ())

/-! ## Calls

`rfCap` is the cap that a node may be started with for tests. -/

def writeRoster (rfCap : Option UInt8) (roster : Roster) : MetaTask Unit := do
  let config ← clusterConfig
  let placement := assign (config.getD default) rfCap (activeNodes roster)
  request (.setRoster roster)
  request (.setPlacement placement)

def updateRoster (rfCap : Option UInt8) (plan : Roster → Except RosterError Roster) :
    MetaTask Roster := do
  let roster ← roster
  let next ← Task.done ((plan roster).mapError .roster)
  if next ≠ roster then do
    writeRoster rfCap next
    return next
  else return next

def admitNode (rfCap : Option UInt8) (node : NodeId) (addr : String) : MetaTask Unit := do
  request (.addLearner node addr)
  let voters ← voterIds
  request (.setVoters (voters.insert node))
  let roster ← roster
  writeRoster rfCap (roster.insert node ⟨addr, .active⟩)

def drainNode (rfCap : Option UInt8) (node : NodeId) : MetaTask Roster :=
  updateRoster rfCap fun roster => planDrain roster node

def undrainNode (rfCap : Option UInt8) (node : NodeId) : MetaTask Roster :=
  updateRoster rfCap fun roster => planUndrain roster node

/-- The node leaves the group first, so that a call that dies in between can be made again. -/
def removeNode (rfCap : Option UInt8) (node : NodeId) : MetaTask Roster := do
  let roster ← roster
  let next ← Task.done ((planRemoval roster node).mapError .roster)
  let voters ← voterIds
  if voters.contains node then do
    request (.setVoters (voters.erase node))
    writeRoster rfCap next
    return next
  else do
    writeRoster rfCap next
    return next

def markUnreachable (rfCap : Option UInt8) (node : NodeId) : MetaTask Bool := do
  let roster ← updateRoster rfCap fun roster => planMarkUnreachable roster node
  return roster.status node = some .unreachable

def markReachable (rfCap : Option UInt8) (node : NodeId) : MetaTask Bool := do
  let roster ← updateRoster rfCap fun roster => planMarkReachable roster node
  return roster.status node = some .active

/-- The calls that change the roster of a cluster. -/
inductive RosterCall where
  | join (node : NodeId) (addr : String)
  | drain (node : NodeId)
  | undrain (node : NodeId)
  | markUnreachable (node : NodeId)
  | markReachable (node : NodeId)
  | remove (node : NodeId)
  deriving DecidableEq

namespace RosterCall

def node : RosterCall → NodeId
  | join node _ | drain node | undrain node | markUnreachable node | markReachable node
  | remove node => node

def plan : RosterCall → Roster → Except RosterError Roster
  | join node addr, roster => .ok (roster.insert node ⟨addr, .active⟩)
  | drain node, roster => planDrain roster node
  | undrain node, roster => planUndrain roster node
  | markUnreachable node, roster => planMarkUnreachable roster node
  | markReachable node, roster => planMarkReachable roster node
  | remove node, roster => planRemoval roster node

def task (rfCap : Option UInt8) : RosterCall → MetaTask Unit
  | join node addr => admitNode rfCap node addr
  | drain node => discard (drainNode rfCap node)
  | undrain node => discard (undrainNode rfCap node)
  | markUnreachable node => discard (Cluster.markUnreachable rfCap node)
  | markReachable node => discard (Cluster.markReachable rfCap node)
  | remove node => discard (removeNode rfCap node)

def apply (call : RosterCall) (roster : Roster) : Roster :=
  match call.plan roster with
  | .ok next => next
  | .error _ => roster

def applyAll (roster : Roster) (calls : List RosterCall) : Roster :=
  calls.foldl (fun roster call => call.apply roster) roster

def Writes : RosterCall → Roster → Prop
  | join .., _ | remove _, _ => True
  | call, roster => call.plan roster ≠ .ok roster

end RosterCall

/-! ## What a plan does -/

section Plans

variable {roster next : Roster} {node other : NodeId} {call : RosterCall} {info : NodeInfo}

theorem known_eq_ok : Roster.known roster node = .ok info ↔ roster[node]? = some info := by
  rw [Roster.known]
  cases roster[node]? <;> simp

theorem status_of_known (h : Roster.known roster node = .ok info) :
    Roster.status roster node = some info.status := by
  rw [Roster.status, known_eq_ok.1 h]
  rfl

inductive Planned (roster : Roster) : RosterCall → Roster → Prop
  | join (node : NodeId) (addr : String) :
      Planned roster (.join node addr) (roster.insert node ⟨addr, .active⟩)
  | drain {node : NodeId} {old : NodeStatus} (was : roster.status node = some old)
      (more : old = .active → ∃ other ∈ activeNodes roster, other ≠ node) :
      Planned roster (.drain node) (roster.setStatus node .draining)
  | undrain {node : NodeId} {old : NodeStatus} (was : roster.status node = some old) :
      Planned roster (.undrain node) (roster.setStatus node .active)
  | markUnreachable {node : NodeId} (was : roster.status node = some .active)
      (more : ∃ other ∈ activeNodes roster, other ≠ node) :
      Planned roster (.markUnreachable node) (roster.setStatus node .unreachable)
  | markReachable {node : NodeId} (was : roster.status node = some .unreachable) :
      Planned roster (.markReachable node) (roster.setStatus node .active)
  | remove {node : NodeId} (was : roster.status node = some .draining) :
      Planned roster (.remove node) (roster.erase node)
  | notActive {node : NodeId} {old : NodeStatus} (was : roster.status node = some old)
      (ne : old ≠ .active) : Planned roster (.markUnreachable node) roster
  | notUnreachable {node : NodeId} {old : NodeStatus} (was : roster.status node = some old)
      (ne : old ≠ .unreachable) : Planned roster (.markReachable node) roster

theorem planned_of_plan (planned : call.plan roster = .ok next) : Planned roster call next := by
  cases call with
  | join node addr =>
    cases planned
    exact .join node addr
  | drain node =>
    obtain ⟨info, known, rest⟩ := bind_eq_ok.1 planned
    split at rest
    · cases rest
    · rename_i allowed
      cases rest
      refine .drain (status_of_known known) fun active => ?_
      exact exists_active_ne fun few => allowed ⟨active, few⟩
  | undrain node =>
    simp only [RosterCall.plan, planUndrain] at planned
    split at planned
    · cases planned
    · rename_i known
      cases planned
      obtain ⟨info, found⟩ := OrdMap.mem_iff_getElem?.1
        (ExtTreeMap.contains_iff_mem.1 (Decidable.not_not.1 known))
      exact .undrain (status_of_known (known_eq_ok.2 found))
  | markUnreachable node =>
    obtain ⟨info, known, rest⟩ := bind_eq_ok.1 planned
    have was := status_of_known known
    split at rest
    · rename_i ne
      cases rest
      exact .notActive was ne
    · rename_i active
      obtain active := Decidable.not_not.1 active
      split at rest
      · cases rest
      · rename_i many
        cases rest
        exact .markUnreachable (active ▸ was) (exists_active_ne many)
  | markReachable node =>
    obtain ⟨info, known, rest⟩ := bind_eq_ok.1 planned
    have was := status_of_known known
    split at rest
    · rename_i ne
      cases rest
      exact .notUnreachable was ne
    · rename_i unreachable
      obtain unreachable := Decidable.not_not.1 unreachable
      cases rest
      exact .markReachable (unreachable ▸ was)
  | remove node =>
    obtain ⟨info, known, rest⟩ := bind_eq_ok.1 planned
    have was := status_of_known known
    split at rest
    · cases rest
    · rename_i draining
      obtain draining := Decidable.not_not.1 draining
      cases rest
      exact .remove (draining ▸ was)

theorem Planned.frame (planned : Planned roster call next) (ne : other ≠ call.node) :
    next[other]? = roster[other]? := by
  cases planned with
  | join node addr => exact OrdMap.getElem?_insert'.trans (if_neg ne)
  | drain was more => exact getElem?_setStatus ne
  | undrain was => exact getElem?_setStatus ne
  | markUnreachable was more => exact getElem?_setStatus ne
  | markReachable was => exact getElem?_setStatus ne
  | remove was => exact OrdMap.getElem?_erase'.trans (if_neg ne)
  | notActive was ne' => rfl
  | notUnreachable was ne' => rfl

theorem status_insert : Roster.status (roster.insert node info) other =
      if other = node then some info.status else Roster.status roster other := by
  rw [Roster.status, OrdMap.getElem?_insert']
  split <;> rfl

theorem Planned.status_frame (planned : Planned roster call next) (ne : other ≠ call.node) :
    Roster.status next other = Roster.status roster other :=
  congrArg (Option.map NodeInfo.status) (planned.frame ne)

theorem Planned.active (planned : Planned roster call next) (active : ∃ node, node ∈ activeNodes roster) :
    ∃ node, node ∈ activeNodes next := by
  obtain ⟨kept, mem⟩ := active
  have elsewhere : (∃ other ∈ activeNodes roster, other ≠ call.node) → ∃ node, node ∈ activeNodes next := by
    rintro ⟨other, mem, ne⟩
    refine ⟨other, mem_activeNodes.2 ?_⟩
    rw [planned.status_frame ne]
    exact mem_activeNodes.1 mem
  by_cases same : kept = call.node
  · have status := mem_activeNodes.1 mem
    rw [same] at status
    cases planned with
    | join node addr => exact ⟨node, mem_activeNodes.2 (status_insert.trans (if_pos rfl))⟩
    | drain was more =>
      obtain rfl := some_unique was status
      exact elsewhere (more rfl)
    | @undrain node old was =>
      refine ⟨node, mem_activeNodes.2 ?_⟩
      rw [status_setStatus, if_pos rfl, was]
      rfl
    | markUnreachable was more => exact elsewhere more
    | markReachable was => cases was.symm.trans status
    | remove was => cases was.symm.trans status
    | notActive was ne => exact absurd (some_unique was status) ne
    | notUnreachable was ne => exact ⟨kept, mem⟩
  · exact elsewhere ⟨kept, mem, same⟩

theorem Planned.drained (planned : Planned roster call next)
    (was : Roster.status roster node = some .draining)
    (now : Roster.status next node ≠ some .draining) :
    call = .undrain node ∨ call = .remove node ∨
      ∃ addr, call = .join node addr ∧ next[node]? = some ⟨addr, .active⟩ := by
  by_cases same : node = call.node
  · subst same
    cases planned with
    | join node addr => exact .inr (.inr ⟨addr, rfl, OrdMap.getElem?_insert'.trans (if_pos rfl)⟩)
    | drain was' more =>
      refine absurd ?_ now
      rw [status_setStatus, RosterCall.node, if_pos rfl, was']
      rfl
    | undrain was' => exact .inl rfl
    | markUnreachable was' more => cases was'.symm.trans was
    | markReachable was' => cases was'.symm.trans was
    | remove was' => exact .inr (.inl rfl)
    | notActive was' ne => exact absurd was now
    | notUnreachable was' ne => exact absurd was now
  · rw [planned.status_frame same] at now
    exact absurd was now

theorem mem_iff_status : node ∈ roster ↔ ∃ status, Roster.status roster node = some status := by
  rw [OrdMap.mem_iff_getElem?, Roster.status]
  simp

theorem Planned.gone (planned : Planned roster call next) (known : node ∈ roster) (gone : node ∉ next) :
    call = .remove node ∧ Roster.status roster node = some .draining := by
  by_cases same : node = call.node
  · subst same
    have kept : ∀ {status old}, Roster.status roster call.node = some old →
        next = Roster.setStatus roster call.node status → False := by
      rintro status old was rfl
      refine gone (mem_iff_status.2 ⟨status, ?_⟩)
      rw [status_setStatus, if_pos rfl, was]
      rfl
    cases planned with
    | join node addr => exact absurd (mem_iff_status.2 ⟨.active, status_insert.trans (if_pos rfl)⟩) gone
    | drain was more => exact (kept was rfl).elim
    | undrain was => exact (kept was rfl).elim
    | markUnreachable was more => exact (kept was rfl).elim
    | markReachable was => exact (kept was rfl).elim
    | remove was => exact ⟨rfl, was⟩
    | notActive was ne => exact absurd known gone
    | notUnreachable was ne => exact absurd known gone
  · obtain ⟨status, was⟩ := mem_iff_status.1 known
    exact absurd (mem_iff_status.2 ⟨status, (planned.status_frame same).trans was⟩) gone

theorem RosterCall.apply_cases (call : RosterCall) (roster : Roster) :
    Planned roster call (call.apply roster) ∨ call.apply roster = roster := by
  rw [RosterCall.apply]
  split
  · rename_i next planned
    exact .inl (planned_of_plan planned)
  · exact .inr rfl

/-- Whatever calls a cluster with an active node has seen, one is active. The next call ends a drain
only where it undrains, removes or admits the node, and drops only a node that is drained. -/
theorem roster_lifecycle (active : node ∈ activeNodes roster) (calls : List RosterCall) :
    (∃ node, node ∈ activeNodes (RosterCall.applyAll roster calls)) ∧
    ∀ reached, RosterCall.applyAll roster calls = reached → ∀ (call : RosterCall) node,
      (Roster.status reached node = some .draining →
        Roster.status (call.apply reached) node ≠ some .draining →
          call = .undrain node ∨ call = .remove node ∨
            ∃ addr, call = .join node addr ∧ (call.apply reached)[node]? = some ⟨addr, .active⟩) ∧
      (node ∈ reached → node ∉ call.apply reached →
        call = .remove node ∧ Roster.status reached node = some .draining) := by
  constructor
  · induction calls generalizing roster node with
    | nil => exact ⟨node, active⟩
    | cons call calls ih =>
      have kept : ∃ node, node ∈ activeNodes (call.apply roster) := by
        obtain planned | same := call.apply_cases roster
        · exact planned.active ⟨node, active⟩
        · rw [same]
          exact ⟨node, active⟩
      obtain ⟨node, active⟩ := kept
      exact ih active
  · intro reached _ call node
    obtain planned | same := call.apply_cases reached
    · exact ⟨planned.drained, planned.gone⟩
    · rw [same]
      exact ⟨fun was now => absurd was now, fun known gone => absurd known gone⟩

def sampleRoster : Roster := ((∅ : Roster).insert 1 ⟨"a:1", .active⟩).insert 2 ⟨"b:1", .draining⟩

theorem roster_lifecycle_drained : ∃ node, node ∈ activeNodes
    (RosterCall.applyAll sampleRoster [.drain 1, .remove 2, .join 3 "c:1", .markUnreachable 1]) := by
  have active : (1 : NodeId) ∈ activeNodes sampleRoster := by decide +kernel
  exact (roster_lifecycle active _).1

/-- A node that is being drained joins again, and is active. -/
theorem admission_ends_drain : ¬∀ (roster : Roster) node, node ∈ activeNodes roster →
    ∀ (calls : List RosterCall) (call : RosterCall) node,
      Roster.status (RosterCall.applyAll roster calls) node = some .draining →
      Roster.status (call.apply (RosterCall.applyAll roster calls)) node ≠ some .draining →
        call = .undrain node ∨ call = .remove node := by
  intro claimed
  have active : (1 : NodeId) ∈ activeNodes sampleRoster := by decide +kernel
  have was : Roster.status (RosterCall.applyAll sampleRoster []) 2 = some .draining := by
    decide +kernel
  have now : Roster.status
      ((RosterCall.join 2 "b:1").apply (RosterCall.applyAll sampleRoster [])) 2 ≠ some .draining := by
    decide +kernel
  obtain undrained | removed := claimed sampleRoster 1 active [] _ 2 was now
  · cases undrained
  · cases removed

end Plans

/-! ## One call after the other

What the metadata group holds, and a call that has it to itself. -/

/-- The records of the control plane, and the voters of the metadata group. -/
structure ControlPlane where
  config : Option ClusterConfig
  roster : Option Roster
  placement : Option Placement
  voters : OrdSet NodeId
  deriving DecidableEq

namespace ControlPlane

def answer (s : ControlPlane) : (question : MetaQuestion) → question.Answer × ControlPlane
  | .addLearner _ _ => ((), s)
  | .voterIds => (s.voters, s)
  | .setVoters voters => ((), { s with voters := voters })
  | .config => (s.config, s)
  | .roster => (s.roster, s)
  | .setConfig config => ((), { s with config := some config })
  | .setRoster roster => ((), { s with roster := some roster })
  | .setPlacement placement => ((), { s with placement := some placement })

def nodes (s : ControlPlane) : Roster := s.roster.getD ∅

def implied (s : ControlPlane) (rfCap : Option UInt8) (roster : Roster) : Placement :=
  assign (s.config.getD default) rfCap (activeNodes roster)

/-- The stored placement is the one that the stored roster implies. -/
def Follows (s : ControlPlane) (rfCap : Option UInt8) : Prop :=
  s.placement.getD default = s.implied rfCap s.nodes

def put (s : ControlPlane) (rfCap : Option UInt8) (roster : Roster) : ControlPlane :=
  { s with roster := some roster, placement := some (s.implied rfCap roster) }

end ControlPlane

section Calls

open ControlPlane

variable {s u : ControlPlane} {rfCap : Option UInt8} {call : RosterCall}

theorem put_follows (next : Roster) : (s.put rfCap next).Follows rfCap := rfl

theorem updateRoster_eval_eq_ok {plan : Roster → Except RosterError Roster} {next : Roster} :
    (updateRoster rfCap plan).eval answer s = (.ok next, u) ↔
      plan s.nodes = .ok next ∧ u = if next = s.nodes then s else s.put rfCap next := by
  change (Task.eval answer (Task.done ((plan s.nodes).mapError ClusterError.roster) >>=
    fun next => if next ≠ s.nodes then do
        writeRoster rfCap next
        return next
      else return next) s) = _ ↔ _
  cases plan s.nodes with
  | error e =>
    constructor
    · intro ran
      cases ran
    · rintro ⟨refused, -⟩
      cases refused
  | ok r =>
    change Task.eval answer (if r ≠ s.nodes then _ else _) s = _ ↔ _
    by_cases same : r = s.nodes
    · rw [if_neg (not_not.2 same)]
      constructor
      · rintro ⟨⟩
        exact ⟨rfl, (if_pos same).symm⟩
      · rintro ⟨⟨⟩, rfl⟩
        rw [if_pos same]
        rfl
    · rw [if_pos same]
      constructor
      · rintro ⟨⟩
        exact ⟨rfl, (if_neg same).symm⟩
      · rintro ⟨⟨⟩, rfl⟩
        rw [if_neg same]
        rfl

theorem discard_eval_eq_ok {ρ : Type} {t : MetaTask ρ} :
    (discard t).eval answer s = (.ok (), u) ↔ ∃ r, t.eval answer s = (.ok r, u) := by
  change (t >>= fun _ => (pure () : MetaTask Unit)).eval answer s = _ ↔ _
  rw [Task.eval_bind_eq_ok]
  constructor
  · rintro ⟨r, v, ran, ended⟩
    cases ended
    exact ⟨r, ran⟩
  · rintro ⟨r, ran⟩
    exact ⟨r, u, ran, rfl⟩

def Done (rfCap : Option UInt8) (call : RosterCall) (s u : ControlPlane) : Prop :=
  ∃ next, call.plan s.nodes = .ok next ∧
    (call.Writes s.nodes ∧ (∃ voters, u = { s with voters := voters }.put rfCap next) ∨
      ¬call.Writes s.nodes ∧ u = s)

theorem done_of_update {next : Roster} (writes : call.Writes s.nodes ↔ call.plan s.nodes ≠ .ok s.nodes)
    (ran : (updateRoster rfCap call.plan).eval answer s = (.ok next, u)) : Done rfCap call s u := by
  obtain ⟨planned, rfl⟩ := updateRoster_eval_eq_ok.1 ran
  refine ⟨next, planned, ?_⟩
  rw [writes, planned]
  by_cases same : next = s.nodes
  · rw [if_pos same, same]
    exact .inr ⟨fun changed => changed rfl, rfl⟩
  · rw [if_neg same]
    exact .inl ⟨fun unchanged => same (Except.ok.inj unchanged), s.voters, rfl⟩

theorem call_eval_eq_ok (ran : (call.task rfCap).eval answer s = (.ok (), u)) : Done rfCap call s u := by
  cases call with
  | join node addr =>
    cases ran
    exact ⟨_, rfl, .inl ⟨trivial, s.voters.insert node, rfl⟩⟩
  | drain node =>
    obtain ⟨next, ran⟩ := discard_eval_eq_ok.1 ran
    exact done_of_update Iff.rfl ran
  | undrain node =>
    obtain ⟨next, ran⟩ := discard_eval_eq_ok.1 ran
    exact done_of_update Iff.rfl ran
  | markUnreachable node =>
    obtain ⟨marked, ran⟩ := discard_eval_eq_ok.1 ran
    obtain ⟨next, v, ran, ended⟩ := Task.eval_bind_eq_ok.1 ran
    cases ended
    exact done_of_update Iff.rfl ran
  | markReachable node =>
    obtain ⟨marked, ran⟩ := discard_eval_eq_ok.1 ran
    obtain ⟨next, v, ran, ended⟩ := Task.eval_bind_eq_ok.1 ran
    cases ended
    exact done_of_update Iff.rfl ran
  | remove node =>
    obtain ⟨next, ran⟩ := discard_eval_eq_ok.1 ran
    obtain ⟨roster, v, read, ran⟩ := Task.eval_bind_eq_ok.1 ran
    cases read
    obtain ⟨planned, v, ended, ran⟩ := Task.eval_bind_eq_ok.1 ran
    obtain ⟨allowed, rfl⟩ := Prod.mk.inj ended
    refine ⟨planned, mapError_eq_ok.1 allowed, .inl ⟨trivial, ?_⟩⟩
    obtain ⟨voters, v, read, ran⟩ := Task.eval_bind_eq_ok.1 ran
    cases read
    split at ran
    · cases ran
      exact ⟨s.voters.erase node, rfl⟩
    · cases ran
      exact ⟨s.voters, rfl⟩

/-- Whatever the records are and whatever befell the calls before: after a call that succeeds the stored
placement is the one that the stored roster implies, unless the call had nothing to write. Then the
placement follows the roster as far as it did before. -/
theorem placement_follows {fates : List (Fate ClusterError)}
    (ran : (call.task rfCap).exec answer s fates = (some (.ok ()), u)) :
    u.Follows rfCap ↔ call.Writes s.nodes ∨ s.Follows rfCap := by
  obtain ⟨next, planned, ⟨writes, voters, rfl⟩ | ⟨idle, rfl⟩⟩ := call_eval_eq_ok (Task.exec_eq_ok ran)
  · exact iff_of_true (put_follows next) (.inl writes)
  · rw [or_iff_right idle]

def sampleRecords : ControlPlane :=
  ControlPlane.put ⟨none, none, none, (∅ : OrdSet NodeId).insert 1 |>.insert 2⟩ none
    (((∅ : Roster).insert 1 ⟨"a:1", .active⟩).insert 2 ⟨"b:1", .active⟩)

def sampleDrain (s : ControlPlane) (fates : List (Fate ClusterError)) :
    Option (Except ClusterError Unit) × ControlPlane :=
  ((RosterCall.drain 2).task none).exec answer s fates

theorem placement_follows_drain : ∃ u : ControlPlane,
    sampleDrain sampleRecords (List.replicate 4 .answered) = (some (.ok ()), u) ∧ u.Follows none := by
  have succeeds : (sampleDrain sampleRecords (List.replicate 4 .answered)).1 = some (.ok ()) := by
    decide +kernel
  have ran : sampleDrain sampleRecords (List.replicate 4 .answered) = (some (.ok ()), _) :=
    Prod.ext succeeds rfl
  exact ⟨_, ran, (placement_follows ran).2 (.inr (put_follows _))⟩

/-- A drain whose second write fails, and which is then made again with success: the placement still
names the node. -/
theorem retried_drain_writes_nothing : ∃ s u : ControlPlane,
    sampleRecords.Follows none ∧
    sampleDrain sampleRecords [.answered, .answered, .answered, .failed false (.raft "no leader")] =
      (some (.error (.raft "no leader")), s) ∧
    sampleDrain s [.answered] = (some (.ok ()), u) ∧ ¬u.Follows none := by
  refine ⟨_, _, put_follows _, Prod.ext ?_ rfl, Prod.ext ?_ rfl, ?_⟩
  · decide +kernel
  · decide +kernel
  · unfold ControlPlane.Follows
    decide +kernel

end Calls

end Saltator.Cluster
