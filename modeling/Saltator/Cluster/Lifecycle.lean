import Saltator.Cluster.Placement

/-!
# The lifecycle of room groups on a node

A driver follows the placement. It starts the group of a room shard that is placed on its node, and
stands the group down once the shard is placed elsewhere. What it goes by is the router: a slot shows a
group only when its promotion has come through, some time after the start.

As long as no pass of the driver comes across a group that is started and not shown, a node runs one
group for each shard, and a shard that is withdrawn leaves none behind (`one_group_per_shard`). A pass
that does starts a second group, or passes the first one by.
-/

namespace Saltator.Cluster

open Std Shard

/-- A Raft group that was started on this node, by its place among the starts. -/
abbrev Instance := Nat

/-- How the router serves a shard. -/
inductive Slot where
  | hosted (server : Instance)
  /-- By way of the replicas at these addresses. -/
  | remote (addrs : List String)
  deriving DecidableEq

def Slot.isHosted : Slot → Bool
  | hosted _ => true
  | remote _ => false

def roomGroup (idx : UInt16) : UInt64 := ShardId.group ⟨.room, idx⟩

/-- A pass of the driver, over the records that it read at its beginning. -/
structure Pass where
  placement : Placement
  roster : Roster
  /-- The shard that is next. -/
  next : Nat

/-- What the driver works on. -/
structure LifecycleCtx where
  nodeId : NodeId
  /-- The records of the metadata group, as applied on this node. -/
  placement : Placement
  roster : Roster
  /-- The number of room shards. -/
  count : UInt16
  rooms : UInt16 → Slot
  registry : OrdMap UInt64 Instance
  executors : OrdMap UInt64 Instance
  localGroups : List (UInt64 × Instance)
  /-- The groups that run, by their shards. -/
  live : List (UInt16 × Instance)
  /-- The groups that wait to be promoted. -/
  promoting : List (UInt16 × Instance)
  pass : Option Pass
  started : Nat

/-- What becomes of a start. -/
inductive Start where
  | started
  /-- Nothing runs. -/
  | refused
  /-- The group runs, and its state could not be read. -/
  | unread
  deriving DecidableEq

/-- What the remaining replicas say of their voters. -/
inductive Gate where
  | voters (voters : OrdSet NodeId)
  | unexpected
  | unreadable
  deriving DecidableEq

/-- What a visit of a shard meets. -/
structure Around where
  start : Start
  gate : Gate
  /-- The shard's data can be deleted. -/
  wiped : Bool

def addrsOf (roster : Roster) (replicas : List NodeId) : List String :=
  replicas.filterMap fun node => roster[node]?.map NodeInfo.advertiseAddr

namespace LifecycleCtx

/-- `RoomShards::replace`. -/
def replace (ctx : LifecycleCtx) (idx : UInt16) (slot : Slot) : LifecycleCtx :=
  { ctx with rooms := fun i => if i = idx then slot else ctx.rooms i }

/-- `LocalGroups::add`: a group that is there already stays. -/
def addLocal (ctx : LifecycleCtx) (group : UInt64) (server : Instance) : LifecycleCtx :=
  if ctx.localGroups.any fun g => g.1 = group then ctx
  else { ctx with localGroups := ctx.localGroups ++ [(group, server)] }

/-- `ShardHandle::start`: a group runs from now on, and is registered. -/
def startShard (ctx : LifecycleCtx) (idx : UInt16) : LifecycleCtx :=
  { ctx with
    live := (idx, ctx.started) :: ctx.live
    registry := ctx.registry.insert (roomGroup idx) ctx.started
    started := ctx.started + 1 }

/-- The shard has come to this node. The second component is whether the pass goes on. -/
def gainGroup (ctx : LifecycleCtx) (idx : UInt16) : Start → LifecycleCtx × Bool
  | .refused => (ctx, false)
  | .unread => (ctx.startShard idx, false)
  | .started =>
    let server := ctx.started
    let ctx := (ctx.startShard idx).addLocal (roomGroup idx) server
    ({ ctx with promoting := (idx, server) :: ctx.promoting }, true)

/-- The shard has left this node. Once its voters do without the node, the slot is swapped, and the group
that it showed is stopped. -/
def loseGroup (ctx : LifecycleCtx) (idx : UInt16) (replicas : List NodeId) (roster : Roster)
    (around : Around) : LifecycleCtx × Bool :=
  let addrs := addrsOf roster replicas
  if addrs = [] then (ctx, false)
  else match around.gate with
    | .unexpected => (ctx, false)
    | .unreadable => (ctx, true)
    | .voters voters =>
      if voters.contains ctx.nodeId then (ctx, true)
      else
        let live := match ctx.rooms idx with
          | .hosted server => ctx.live.filter fun g => g ≠ (idx, server)
          | .remote _ => ctx.live
        ({ ctx.replace idx (.remote addrs) with
          executors := ctx.executors.erase (roomGroup idx)
          registry := ctx.registry.erase (roomGroup idx)
          localGroups := ctx.localGroups.filter fun g => g.1 ≠ roomGroup idx
          live := live }, around.wiped)

/-- One shard, in the loop of `reconcile_lifecycle`. -/
def visit (ctx : LifecycleCtx) (pass : Pass) (idx : UInt16) (around : Around) : LifecycleCtx × Bool :=
  let replicas := pass.placement.replicas (roomGroup idx)
  if replicas = [] then (ctx, true)
  else
    let placedHere := replicas.contains ctx.nodeId
    let hostedHere := (ctx.rooms idx).isHosted
    if placedHere && !hostedHere then ctx.gainGroup idx around.start
    else if !placedHere && hostedHere then ctx.loseGroup idx replicas pass.roster around
    else if !placedHere then
      let addrs := addrsOf pass.roster replicas
      if addrs = [] then (ctx, true) else (ctx.replace idx (.remote addrs), true)
    else (ctx, true)

end LifecycleCtx

inductive LifecycleEvent where
  /-- The node applies what the metadata group has committed. -/
  | place (placement : Placement) (roster : Roster)
  /-- The driver begins a pass. -/
  | wake
  /-- The driver handles the shard that is next, or ends its pass. -/
  | visit (around : Around)
  /-- A group finds the node among its voters, and its slot is swapped. -/
  | promote (idx : UInt16) (server : Instance)

namespace LifecycleCtx

def step (ctx : LifecycleCtx) : LifecycleEvent → Option LifecycleCtx
  | .place placement roster => some { ctx with placement := placement, roster := roster }
  | .wake =>
    match ctx.pass with
    | none => some { ctx with pass := some ⟨ctx.placement, ctx.roster, 0⟩ }
    | some _ => none
  | .visit around =>
    match ctx.pass with
    | none => none
    | some pass =>
      if pass.next < ctx.count.toNat then
        let (after, goesOn) := ctx.visit pass pass.next.toUInt16 around
        some { after with pass := if goesOn then some { pass with next := pass.next + 1 } else none }
      else some { ctx with pass := none }
  | .promote idx server =>
    if (idx, server) ∈ ctx.promoting then
      some { ctx.replace idx (.hosted server) with
        executors := ctx.executors.insert (roomGroup idx) server
        promoting := ctx.promoting.erase (idx, server) }
    else none

/-- A node that comes up runs the groups of the shards that are placed on it, or of all of them where it
founds the cluster. -/
def boot (nodeId : NodeId) (founding : Bool) (placement : Placement) (roster : Roster)
    (count : UInt16) : LifecycleCtx :=
  let hosts (idx : UInt16) : Bool :=
    founding || (placement.replicas (roomGroup idx)).contains nodeId
  let hosted := (List.range count.toNat).filter fun i => hosts i.toUInt16
  { nodeId, placement, roster, count
    rooms := fun idx => if hosts idx then .hosted idx.toNat
      else .remote (addrsOf roster (placement.replicas (roomGroup idx)))
    registry := hosted.foldl (fun m i => m.insert (roomGroup i.toUInt16) i) ∅
    executors := hosted.foldl (fun m i => m.insert (roomGroup i.toUInt16) i) ∅
    localGroups := hosted.map fun i => (roomGroup i.toUInt16, i)
    live := hosted.map fun i => (i.toUInt16, i)
    promoting := []
    pass := none
    started := count.toNat }

/-- Every group of the shard that runs is the one that the router shows. -/
def Settled (ctx : LifecycleCtx) (idx : UInt16) : Prop :=
  ∀ server, (idx, server) ∈ ctx.live → ctx.rooms idx = .hosted server

def InTime (ctx : LifecycleCtx) : LifecycleEvent → Prop
  | .visit _ => ∀ pass, ctx.pass = some pass → pass.next < ctx.count.toNat →
      pass.placement.replicas (roomGroup pass.next.toUInt16) ≠ [] → ctx.Settled pass.next.toUInt16
  | _ => True

/-- The states of a node that has come up, after events in time. -/
inductive Reached : LifecycleCtx → Prop
  | boot (nodeId : NodeId) (founding : Bool) (placement : Placement) (roster : Roster)
      (count : UInt16) : Reached (boot nodeId founding placement roster count)
  | step {s t : LifecycleCtx} {event : LifecycleEvent} (before : Reached s) (inTime : s.InTime event)
      (moved : s.step event = some t) : Reached t

/-! ## One group for each shard -/

section Runs

variable {ctx t : LifecycleCtx} {pass : Pass} {idx : UInt16} {around : Around} {event : LifecycleEvent}
  {server : Instance} {roster : Roster}

/-- The shard is placed on other nodes, and its voters do without this one. -/
def Departed (ctx : LifecycleCtx) (pass : Pass) (idx : UInt16) (around : Around) : Prop :=
  let replicas := pass.placement.replicas (roomGroup idx)
  ctx.nodeId ∉ replicas ∧ addrsOf pass.roster replicas ≠ [] ∧
    ∃ voters, around.gate = .voters voters ∧ ctx.nodeId ∉ voters

theorem addLocal_live {group : UInt64} : (ctx.addLocal group server).live = ctx.live := by
  unfold addLocal
  split <;> rfl

theorem gainGroup_live {start : Start} : (ctx.gainGroup idx start).1.live =
    if start = .refused then ctx.live else (idx, ctx.started) :: ctx.live := by
  cases start with
  | refused => rfl
  | unread => rfl
  | started => exact addLocal_live

/-- The groups that run once the shard is handed over. -/
def stopped (ctx : LifecycleCtx) (idx : UInt16) : List (UInt16 × Instance) :=
  match ctx.rooms idx with
  | .hosted server => ctx.live.filter fun g => g ≠ (idx, server)
  | .remote _ => ctx.live

theorem mem_stopped {other : UInt16} : (other, server) ∈ ctx.stopped idx ↔
    (other, server) ∈ ctx.live ∧ ¬(other = idx ∧ ctx.rooms idx = .hosted server) := by
  unfold stopped
  split
  · rename_i shown slot
    rw [List.mem_filter, decide_eq_true_iff, ne_eq, Prod.mk.injEq, slot, Slot.hosted.injEq,
      eq_comm (a := shown)]
  · rename_i addrs slot
    simp [slot]

theorem loseGroup_live {replicas : List NodeId} :
    (ctx.loseGroup idx replicas roster around).1.live = ctx.live ∨
      (ctx.loseGroup idx replicas roster around).1.live = ctx.stopped idx := by
  simp only [loseGroup]
  split
  · exact .inl rfl
  split
  · exact .inl rfl
  · exact .inl rfl
  split
  · exact .inl rfl
  · exact .inr rfl

theorem visit_live : (ctx.visit pass idx around).1.live = ctx.live ∨
    (ctx.visit pass idx around).1.live = (idx, ctx.started) :: ctx.live ∧
      pass.placement.replicas (roomGroup idx) ≠ [] ∧ (ctx.rooms idx).isHosted = false ∨
    (ctx.visit pass idx around).1.live = ctx.stopped idx := by
  simp only [visit]
  split
  · exact .inl rfl
  rename_i placed
  split
  · rename_i gained
    rw [gainGroup_live]
    split
    · exact .inl rfl
    · exact .inr (.inl ⟨rfl, placed, by simpa using (Bool.and_eq_true_iff.1 gained).2⟩)
  split
  · obtain kept | lost := @loseGroup_live ctx idx around _ _
    · exact .inl kept
    · exact .inr (.inr lost)
  split
  · split
    · exact .inl rfl
    · exact .inl rfl
  · exact .inl rfl

theorem visit_departed (departed : ctx.Departed pass idx around) :
    (ctx.visit pass idx around).1.live = ctx.stopped idx := by
  obtain ⟨elsewhere, addrs, voters, gate, out⟩ := departed
  have placed : pass.placement.replicas (roomGroup idx) ≠ [] := by
    intro none
    rw [none] at addrs
    exact addrs rfl
  have notHere : (pass.placement.replicas (roomGroup idx)).contains ctx.nodeId = false := by
    simpa using elsewhere
  have notVoter : ¬voters.contains ctx.nodeId = true := by simpa using out
  simp only [visit, if_neg placed, notHere, Bool.false_and, Bool.not_false, Bool.true_and]
  cases slot : ctx.rooms idx with
  | hosted server =>
    simp only [Slot.isHosted, loseGroup, if_neg addrs, gate, if_neg notVoter, stopped]
    rfl
  | remote old =>
    simp only [Slot.isHosted, if_neg addrs, stopped, slot]
    rfl

theorem step_live (moved : ctx.step event = some t) : t.live = ctx.live ∨
    ∃ around pass, event = .visit around ∧ ctx.pass = some pass ∧ pass.next < ctx.count.toNat ∧
      t.live = (ctx.visit pass pass.next.toUInt16 around).1.live := by
  cases event with
  | place placement roster =>
    cases moved
    exact .inl rfl
  | wake =>
    simp only [step] at moved
    split at moved
    · cases moved
      exact .inl rfl
    · cases moved
  | promote idx server =>
    simp only [step] at moved
    split at moved
    · cases moved
      exact .inl rfl
    · cases moved
  | visit around =>
    simp only [step] at moved
    split at moved
    · cases moved
    · rename_i pass current
      split at moved
      · rename_i lt
        cases moved
        exact .inr ⟨around, pass, rfl, current, lt, rfl⟩
      · cases moved
        exact .inl rfl

theorem boot_live {nodeId : NodeId} {founding : Bool} {placement : Placement} {count : UInt16}
    (mem : (idx, server) ∈ (boot nodeId founding placement roster count).live) : server = idx.toNat := by
  obtain ⟨n, hosted, same⟩ := List.mem_map.1 mem
  obtain ⟨rfl, rfl⟩ := Prod.mk.inj same
  have lt := List.mem_range.1 (List.mem_filter.1 hosted).1
  exact (UInt16.toNat_ofNat_of_lt' (lt.trans count.toNat_lt)).symm

theorem live_unique (h : Reached ctx) : ∀ idx i j, (idx, i) ∈ ctx.live → (idx, j) ∈ ctx.live → i = j := by
  induction h with
  | boot nodeId founding placement roster count =>
    intro idx i j mem mem'
    rw [boot_live mem, boot_live mem']
  | @step s t event before inTime moved ih =>
    intro idx i j mem mem'
    obtain same | ⟨around, pass, rfl, current, lt, visited⟩ := step_live moved
    · exact ih idx i j (same ▸ mem) (same ▸ mem')
    rw [visited] at mem mem'
    have settled := inTime pass current lt
    obtain same | ⟨begun, placed, shown⟩ | stops := @visit_live s pass pass.next.toUInt16 around
    · exact ih idx i j (same ▸ mem) (same ▸ mem')
    · -- The shard had no group, since the router showed none.
      have alone : ∀ {server}, (pass.next.toUInt16, server) ∉ s.live := by
        intro server old
        rw [settled placed server old] at shown
        cases shown
      obtain first | old := List.mem_cons.1 (begun ▸ mem)
      · obtain first' | old' := List.mem_cons.1 (begun ▸ mem')
        · exact (Prod.mk.inj (first.trans first'.symm)).2
        · exact absurd ((Prod.mk.inj first).1 ▸ old') alone
      · obtain first' | old' := List.mem_cons.1 (begun ▸ mem')
        · exact absurd ((Prod.mk.inj first').1 ▸ old) alone
        · exact ih idx i j old old'
    · exact ih idx i j (mem_stopped.1 (stops ▸ mem)).1 (mem_stopped.1 (stops ▸ mem')).1

/-- A node runs one group for each of its shards, and none for a shard that a visit has found departed. -/
theorem one_group_per_shard (h : Reached ctx) :
    (∀ idx i j, (idx, i) ∈ ctx.live → (idx, j) ∈ ctx.live → i = j) ∧
    ∀ pass around t, ctx.pass = some pass → pass.next < ctx.count.toNat →
      ctx.Departed pass pass.next.toUInt16 around → ctx.InTime (.visit around) →
      ctx.step (.visit around) = some t → ∀ server, (pass.next.toUInt16, server) ∉ t.live := by
  refine ⟨live_unique h, fun pass around t current lt departed inTime moved server mem => ?_⟩
  simp only [step, current, if_pos lt] at moved
  cases moved
  have stops := visit_departed departed
  obtain ⟨old, gone⟩ := mem_stopped.1 (stops ▸ mem)
  have placed : pass.placement.replicas (roomGroup pass.next.toUInt16) ≠ [] := by
    intro none
    exact departed.2.1 (congrArg (addrsOf pass.roster) none)
  exact gone ⟨rfl, inTime pass current lt placed server old⟩

end Runs

/-! ## A sample node -/

section Samples

def run (ctx : LifecycleCtx) (events : List LifecycleEvent) : Option LifecycleCtx :=
  events.foldlM step ctx

def samplePlaced (node : NodeId) : LifecycleEvent :=
  .place ⟨(∅ : OrdMap UInt64 (List NodeId)).insert (roomGroup 0) [node]⟩
    (((∅ : Roster).insert 1 ⟨"a:1", .active⟩).insert 2 ⟨"b:1", .active⟩)

def sampleAround : Around := ⟨.started, .voters ((∅ : OrdSet NodeId).insert 2), true⟩

def sampleNode : LifecycleCtx := boot 1 false default ∅ 1

theorem one_group_per_shard_started : ∃ ctx, Reached ctx ∧ (0, 1) ∈ ctx.live ∧
    ∀ i j, ((0 : UInt16), i) ∈ ctx.live → (0, j) ∈ ctx.live → i = j := by
  have h : (sampleNode.run [samplePlaced 1, .wake]).any (fun s =>
      decide (s.live = []) && (s.step (.visit sampleAround)).any fun t =>
        decide ((0, 1) ∈ t.live)) = true := by decide +kernel
  obtain ⟨s, first, checks⟩ := (Option.any_eq_true _ _).1 h
  obtain ⟨idle, rest⟩ := Bool.and_eq_true_iff.1 checks
  obtain ⟨t, moved, runs⟩ := (Option.any_eq_true _ _).1 rest
  have first : (sampleNode.step (samplePlaced 1)).bind (fun u => (u.step .wake).bind some) = some s :=
    first
  obtain ⟨u, placed, first⟩ := Option.bind_eq_some_iff.1 first
  obtain ⟨v, woken, ended⟩ := Option.bind_eq_some_iff.1 first
  obtain rfl := Option.some.inj ended
  have booted : Reached sampleNode := .boot ..
  have inTime : v.InTime (.visit sampleAround) := by
    intro pass _ _ _ server mem
    rw [of_decide_eq_true idle] at mem
    cases mem
  have first : sampleNode.InTime (samplePlaced 1) := trivial
  have second : u.InTime .wake := trivial
  have reached := ((booted.step first placed).step second woken).step inTime moved
  exact ⟨t, reached, of_decide_eq_true runs, (one_group_per_shard reached).1 0⟩

/-- The driver wakes twice before the group is promoted, and two groups run. Or the shard is withdrawn
before the group is promoted, and a pass that finds it departed leaves the group running. -/
theorem second_group_starts : (∃ events t, sampleNode.run events = some t ∧
      ∃ i j, ((0 : UInt16), i) ∈ t.live ∧ (0, j) ∈ t.live ∧ i ≠ j) ∧
    ∃ events s pass t, sampleNode.run events = some s ∧ s.pass = some pass ∧
      pass.next < s.count.toNat ∧ s.Departed pass pass.next.toUInt16 sampleAround ∧
      s.step (.visit sampleAround) = some t ∧ ∃ server, (pass.next.toUInt16, server) ∈ t.live := by
  constructor
  · have h : (sampleNode.run [samplePlaced 1, .wake, .visit sampleAround, .visit sampleAround, .wake,
        .visit sampleAround]).any (fun t => decide (((0 : UInt16), 1) ∈ t.live) &&
          decide ((0, 2) ∈ t.live)) = true := by decide +kernel
    obtain ⟨t, ran, checks⟩ := (Option.any_eq_true _ _).1 h
    obtain ⟨first, second⟩ := Bool.and_eq_true_iff.1 checks
    exact ⟨_, t, ran, 1, 2, of_decide_eq_true first, of_decide_eq_true second, by decide⟩
  · have h : (sampleNode.run [samplePlaced 1, .wake, .visit sampleAround, .visit sampleAround,
        samplePlaced 2, .wake]).any (fun s => s.pass.any fun pass =>
          decide (pass.next < s.count.toNat) &&
          decide (s.nodeId ∉ pass.placement.replicas (roomGroup pass.next.toUInt16)) &&
          decide (addrsOf pass.roster (pass.placement.replicas (roomGroup pass.next.toUInt16)) ≠ []) &&
          decide (s.nodeId ∉ (∅ : OrdSet NodeId).insert 2) &&
          (s.step (.visit sampleAround)).any fun t =>
            decide ((pass.next.toUInt16, 1) ∈ t.live)) = true := by decide +kernel
    obtain ⟨s, ran, checks⟩ := (Option.any_eq_true _ _).1 h
    obtain ⟨pass, current, checks⟩ := (Option.any_eq_true _ _).1 checks
    obtain ⟨checks, visited⟩ := Bool.and_eq_true_iff.1 checks
    obtain ⟨checks, out⟩ := Bool.and_eq_true_iff.1 checks
    obtain ⟨checks, addrs⟩ := Bool.and_eq_true_iff.1 checks
    obtain ⟨lt, elsewhere⟩ := Bool.and_eq_true_iff.1 checks
    obtain ⟨t, moved, runs⟩ := (Option.any_eq_true _ _).1 visited
    have departed : s.Departed pass pass.next.toUInt16 sampleAround :=
      ⟨of_decide_eq_true elsewhere, of_decide_eq_true addrs, _, rfl, of_decide_eq_true out⟩
    exact ⟨_, s, pass, t, ran, current, of_decide_eq_true lt, departed, moved, 1, of_decide_eq_true runs⟩

end Samples

end LifecycleCtx

end Saltator.Cluster
