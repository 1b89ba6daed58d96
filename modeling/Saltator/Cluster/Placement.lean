import Mathlib.Data.List.Sort
import Saltator.Shard.Engine

/-!
# Shard placement

Which nodes host a replica of each data group. The groups are ranked over the active nodes of the
roster, each by its own weights. What operators and the failure detector make of the roster is a plan:
the roster after the change, or why the change is refused.
-/

namespace Saltator.Shard

def ShardId.group (shard : ShardId) : UInt64 :=
  (shard.keyspace.byte.toUInt64 <<< 16) ||| shard.index.toUInt64

def ShardId.fromGroup (group : UInt64) : Option ShardId :=
  ([.metadata, .room, .user, .fedOut].find? fun ks : Keyspace => group >>> 16 = ks.byte.toUInt64).map
    fun ks => ⟨ks, (group &&& 0xffff).toUInt16⟩

end Saltator.Shard

namespace Saltator.Cluster

open Std Shard

abbrev NodeId := UInt64

/-- The topology, fixed when the cluster is founded. -/
structure ClusterConfig where
  roomShards : UInt16
  userShards : UInt16
  replicationFactor : UInt8
  deriving DecidableEq

instance : Inhabited ClusterConfig := ⟨1, 1, 3⟩

/-- The data groups of a topology: those of rooms and of users, and the one for outgoing
federation. -/
def ClusterConfig.dataGroups (config : ClusterConfig) : List UInt64 :=
  (List.range config.roomShards.toNat).map (fun i => ShardId.group ⟨.room, i.toUInt16⟩) ++
    (List.range config.userShards.toNat).map (fun i => ShardId.group ⟨.user, i.toUInt16⟩) ++
    [ShardId.group ⟨.fedOut, 0⟩]

inductive NodeStatus where
  | active
  /-- Being removed: an operator's intent. -/
  | draining
  /-- It failed its liveness checks. -/
  | unreachable
  deriving DecidableEq

structure NodeInfo where
  advertiseAddr : String
  status : NodeStatus
  deriving DecidableEq

abbrev Roster := OrdMap NodeId NodeInfo

def activeNodes (roster : Roster) : OrdSet NodeId :=
  OrdSet.extend ∅ ((roster.toList.filter fun e => e.2.status = .active).map Prod.fst)

def Roster.status (roster : Roster) (node : NodeId) : Option NodeStatus :=
  roster[node]?.map NodeInfo.status

def Roster.setStatus (roster : Roster) (node : NodeId) (status : NodeStatus) : Roster :=
  roster.modify node fun info => { info with status := status }

section Roster

variable {roster : Roster} {node other : NodeId} {status : NodeStatus}

theorem mem_activeNodes : node ∈ activeNodes roster ↔ Roster.status roster node = some .active := by
  rw [activeNodes, OrdSet.mem_extend, Roster.status]
  simp

theorem status_setStatus : (Roster.setStatus roster node status).status other =
    if other = node then (Roster.status roster node).map fun _ => status
    else Roster.status roster other := by
  rw [Roster.status, Roster.setStatus, ExtTreeMap.getElem?_modify]
  by_cases same : other = node
  · subst same
    simp [Roster.status, Function.comp_def]
  · have apart : compare node other ≠ .eq := fun h => same (LawfulEqOrd.eq_of_compare h).symm
    rw [if_neg apart, if_neg same, Roster.status]

theorem getElem?_setStatus (ne : other ≠ node) :
    (Roster.setStatus roster node status)[other]? = roster[other]? := by
  rw [Roster.setStatus, ExtTreeMap.getElem?_modify, if_neg]
  exact fun h => ne (LawfulEqOrd.eq_of_compare h).symm

theorem exists_active_ne (many : ¬(activeNodes roster).size ≤ 1) :
    ∃ other ∈ activeNodes roster, other ≠ node := by
  have left : ((activeNodes roster).erase node).toList.length ≠ 0 := by
    rw [ExtTreeSet.length_toList, ExtTreeSet.size_erase]
    split <;> omega
  obtain ⟨other, mem⟩ := List.exists_mem_of_length_pos (Nat.pos_of_ne_zero left)
  obtain ⟨apart, mem⟩ := ExtTreeSet.mem_erase.1 (OrdSet.mem_toList'.1 mem)
  refine ⟨other, mem, ?_⟩
  rintro rfl
  exact apart ReflOrd.compare_self

end Roster

/-! ## Plans -/

/-- Why a change of the roster is refused. -/
inductive RosterError where
  | unknownNode
  | lastActiveNode
  | notDraining
  deriving DecidableEq, Repr

def Roster.known (roster : Roster) (node : NodeId) : Except RosterError NodeInfo :=
  roster[node]?.elim (.error .unknownNode) .ok

/-- The node stops being a placement target and stays in the roster. -/
def planDrain (roster : Roster) (node : NodeId) : Except RosterError Roster := do
  let info ← roster.known node
  if info.status = .active ∧ (activeNodes roster).size ≤ 1 then .error .lastActiveNode
  else .ok (roster.setStatus node .draining)

/-- The node returns to service, which is always allowed. -/
def planUndrain (roster : Roster) (node : NodeId) : Except RosterError Roster :=
  if ¬roster.contains node then .error .unknownNode
  else .ok (roster.setStatus node .active)

/-- The failure detector loses the node. A node that an operator drains stays as it is. -/
def planMarkUnreachable (roster : Roster) (node : NodeId) : Except RosterError Roster := do
  let info ← roster.known node
  if info.status ≠ .active then .ok roster
  else if (activeNodes roster).size ≤ 1 then .error .lastActiveNode
  else .ok (roster.setStatus node .unreachable)

/-- The failure detector hears from the node again. -/
def planMarkReachable (roster : Roster) (node : NodeId) : Except RosterError Roster := do
  let info ← roster.known node
  if info.status ≠ .unreachable then .ok roster
  else .ok (roster.setStatus node .active)

def planRemoval (roster : Roster) (node : NodeId) : Except RosterError Roster := do
  let info ← roster.known node
  if info.status ≠ .draining then .error .notDraining
  else .ok (roster.erase node)

/-! ## Assignment -/

/-- The replicas of each data group, the highest rank first. -/
structure Placement where
  groups : OrdMap UInt64 (List NodeId)
  deriving DecidableEq

instance : Inhabited Placement := ⟨⟨∅⟩⟩

def Placement.replicas (placement : Placement) (group : UInt64) : List NodeId :=
  placement.groups[group]?.getD []

def score (group : UInt64) (node : NodeId) : UInt64 :=
  let x := (group * 0x9E3779B97F4A7C15) ^^^ (node * 0xD6E8FEB86659FD93)
  let x := (x ^^^ (x >>> 30)) * 0xBF58476D1CE4E5B9
  let x := (x ^^^ (x >>> 27)) * 0x94D049BB133111EB
  x ^^^ (x >>> 31)

/-- Of two nodes, the one with the greater weight goes first, and the one with the smaller id where
the weights are equal. -/
def outranks (group : UInt64) (a b : NodeId) : Prop :=
  score group b < score group a ∨ (score group b = score group a ∧ a ≤ b)

instance (group : UInt64) : DecidableRel (outranks group) := fun _ _ =>
  inferInstanceAs (Decidable (_ ∨ _))

def assign (config : ClusterConfig) (rfCap : Option UInt8) (nodes : OrdSet NodeId) : Placement :=
  let roomRf := match rfCap with
    | some cap => max cap.toNat 1
    | none => max (min config.replicationFactor.toNat nodes.size) 1
  ⟨config.dataGroups.foldl (fun groups g =>
    let isRoom := (ShardId.fromGroup g).any fun shard => shard.keyspace = .room
    let rf := if isRoom then roomRf else nodes.size
    groups.insert g ((nodes.toList.insertionSort (outranks g)).take rf)) ∅⟩

end Saltator.Cluster
