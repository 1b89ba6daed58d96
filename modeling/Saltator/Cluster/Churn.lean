import Saltator.Cluster.Blobs
import Saltator.Lib.Ranking

/-!
# Placement churns as little as it can

Groups and blobs are placed on the top of a ranking of the nodes. A node that joins enters the replicas of
a key at its rank, and at most the last of them makes room. A node that leaves moves only what it held,
and that to the next one in the ranking.
-/

namespace Saltator.Cluster

open Std Shard Ranking

instance instAntisymmOutranks (key : UInt64) : Std.Antisymm (outranks key) :=
  ⟨fun _ _ h h' => outranks_antisymm h h'⟩

/-- The newcomer `x` is not in the list, or it is, and at most the last one is gone for it. -/
def Joins (x : NodeId) (before after : List NodeId) : Prop :=
  after = before ∨ (x ∈ after ∧ (after.erase x = before ∨ after.erase x = before.dropLast))

/-- What `x` leaves to the others: nothing if it was not in the list, and else its place to the one that
ranks next, unless all nodes are in the list. -/
structure Leaves (key : UInt64) (nodes : OrdSet NodeId) (x : NodeId) (before after : List NodeId) : Prop where
  outside : x ∉ before → after = before
  inside : x ∈ before → (after = before.erase x ∧ ∀ n ∈ nodes, n ∈ before) ∨
    ∃ y ∈ nodes, y ∉ before ∧ (∀ z ∈ nodes, z ∉ before → outranks key y z) ∧ after = before.erase x ++ [y]

/-- How the replicas of a key depend on the nodes. `bound` says how many there are. They are in the order
of the ranking, so that whoever joins them is at its rank. -/
structure Minimal (key : UInt64) (bound : Nat → Nat) (replicas : OrdSet NodeId → List NodeId) : Prop where
  members : ∀ nodes, ∀ n ∈ replicas nodes, n ∈ nodes
  distinct : ∀ nodes, (replicas nodes).Nodup
  ranked : ∀ nodes, (replicas nodes).Pairwise (outranks key)
  length : ∀ nodes, (replicas nodes).length = bound nodes.size
  joins : ∀ nodes x, x ∉ nodes → Joins x (replicas nodes) (replicas (nodes.insert x))
  leaves : ∀ nodes x, x ∈ nodes → Leaves key nodes x (replicas nodes) (replicas (nodes.erase x))

section Top

variable {key : UInt64} {nodes : OrdSet NodeId} {x : NodeId} {k : Nat}

theorem nodup_nodes (nodes : OrdSet NodeId) : nodes.toList.Nodup := by
  have sorted : nodes.toList.Pairwise fun a b => compare a b = .lt := ExtTreeSet.ordered_toList
  refine sorted.imp fun less same => ?_
  rw [same, ReflOrd.compare_self] at less
  cases less

theorem erase_perm (nodes : OrdSet NodeId) (x : NodeId) :
    (nodes.erase x).toList.Perm (nodes.toList.erase x) := by
  refine (List.perm_ext_iff_of_nodup (nodup_nodes _) ((nodup_nodes nodes).erase x)).2 fun a => ?_
  rw [OrdSet.mem_toList', ExtTreeSet.mem_erase, (nodup_nodes nodes).mem_erase_iff, OrdSet.mem_toList', ne_eq,
    LawfulEqOrd.compare_eq_iff_eq, ne_comm]

theorem leaves_top (nodes : OrdSet NodeId) (x : NodeId) : Leaves key nodes x
    (top (outranks key) k nodes.toList) (top (outranks key) k (nodes.erase x).toList) where
  outside := top_erase_of_notMem (erase_perm nodes x)
  inside held := by
    rw [top_erase_of_mem (erase_perm nodes x) held]
    cases h : next (outranks key) k nodes.toList with
    | none =>
      exact .inl ⟨List.append_nil _, fun n mem =>
        mem_top_of_next (nodup_nodes nodes) h (OrdSet.mem_toList'.2 mem)⟩
    | some y =>
      obtain ⟨mem, outside, first⟩ := rel_of_next (nodup_nodes nodes) h
      exact .inr ⟨y, OrdSet.mem_toList'.1 mem, outside,
        fun z mem' outside' => first z (OrdSet.mem_toList'.2 mem') outside', rfl⟩

theorem joins_of_leaves {before after : List NodeId} (h : Leaves key nodes x after before) :
    Joins x before after := by
  by_cases held : x ∈ after
  · refine .inr ⟨held, ?_⟩
    obtain ⟨same, -⟩ | ⟨y, -, -, -, same⟩ := h.inside held
    · exact .inl same.symm
    · rw [same, List.dropLast_concat]
      exact .inr rfl
  · exact .inl (h.outside held).symm

theorem erase_insert (fresh : x ∉ nodes) : (nodes.insert x).erase x = nodes := by
  refine ExtTreeSet.ext_mem fun a => ?_
  rw [ExtTreeSet.mem_erase, OrdSet.mem_insert', ne_eq, LawfulEqOrd.compare_eq_iff_eq]
  constructor
  · rintro ⟨apart, same | mem⟩
    · exact absurd same.symm apart
    · exact mem
  · intro mem
    exact ⟨fun same => fresh (same ▸ mem), .inr mem⟩

/-- Whatever is placed on the top of the ranking churns minimally. The bound may be the number of the
nodes itself, as for the groups that are on all of them. -/
theorem minimal_of_top {bound : Nat → Nat} {replicas : OrdSet NodeId → List NodeId}
    (cap : ∀ n, ∃ k, ∀ m ≤ n, bound m = min k m)
    (placed : ∀ nodes, replicas nodes = top (outranks key) (bound nodes.size) nodes.toList) :
    Minimal key bound replicas := by
  have fixed (n : Nat) : ∃ k, ∀ nodes : OrdSet NodeId, nodes.size ≤ n →
      replicas nodes = top (outranks key) k nodes.toList := by
    obtain ⟨k, below⟩ := cap n
    refine ⟨k, fun nodes few => ?_⟩
    rw [placed nodes]
    refine top_eq_top ?_
    rw [ExtTreeSet.length_toList, below _ few, Nat.min_assoc, Nat.min_self]
  have leaves (nodes : OrdSet NodeId) (x : NodeId) :
      Leaves key nodes x (replicas nodes) (replicas (nodes.erase x)) := by
    obtain ⟨k, same⟩ := fixed nodes.size
    rw [same nodes le_rfl, same (nodes.erase x) ExtTreeSet.size_erase_le]
    exact leaves_top nodes x
  refine ⟨fun nodes n mem => ?_, fun nodes => ?_, fun nodes => ?_, fun nodes => ?_, fun nodes x fresh => ?_,
    fun nodes x _ => leaves nodes x⟩
  · exact OrdSet.mem_toList'.1 (mem_of_mem_top (placed nodes ▸ mem))
  · exact placed nodes ▸ nodup_top (nodup_nodes nodes)
  · exact placed nodes ▸ pairwise_top
  · obtain ⟨k, below⟩ := cap nodes.size
    rw [placed nodes, length_top, ExtTreeSet.length_toList, below _ le_rfl, Nat.min_assoc, Nat.min_self]
  · have back := leaves (nodes.insert x) x
    rw [erase_insert fresh] at back
    exact joins_of_leaves back

end Top

/-! ## Groups and blobs -/

def isRoomGroup (group : UInt64) : Bool :=
  (ShardId.fromGroup group).any fun shard => shard.keyspace = .room

def replicaBound (config : ClusterConfig) (rfCap : Option UInt8) (group : UInt64) (nodes : Nat) : Nat :=
  if isRoomGroup group then min (max (rfCap.getD config.replicationFactor).toNat 1) nodes else nodes

theorem replicas_assign {config : ClusterConfig} {group : UInt64} (listed : group ∈ config.dataGroups)
    (rfCap : Option UInt8) (nodes : OrdSet NodeId) :
    (assign config rfCap nodes).replicas group =
      top (outranks group) (replicaBound config rfCap group nodes.size) nodes.toList := by
  obtain ⟨g, -, rfl, found⟩ | ⟨apart, -⟩ := OrdMap.foldl_insert_cases id (fun g =>
    (nodes.toList.insertionSort (outranks g)).take (if isRoomGroup g then rfCap.elim
      (max (min config.replicationFactor.toNat nodes.size) 1) fun cap => max cap.toNat 1 else nodes.size))
    config.dataGroups ∅ group
  · rw [Placement.replicas]
    refine (congrArg (Option.getD · []) (Eq.trans ?_ found)).trans (top_eq_top ?_)
    · cases rfCap <;> rfl
    rw [ExtTreeSet.length_toList, replicaBound, id]
    split
    · cases rfCap with
      | none =>
        simp only [Option.getD_none, Option.elim_none]
        omega
      | some cap =>
        simp only [Option.getD_some, Option.elim_some]
        omega
    · rfl
  · exact absurd rfl (apart group listed)

/-- **Placement churns minimally**, for every group of every topology and for every blob. -/
theorem placement_minimal : (∀ config rfCap, ∀ group ∈ ClusterConfig.dataGroups config,
      Minimal group (replicaBound config rfCap group) fun nodes =>
        (assign config rfCap nodes).replicas group) ∧
    ∀ blobId (rf : UInt8),
      Minimal (blobKey blobId) (fun n => min (max rf.toNat 1) n) (blobReplicas blobId rf) := by
  constructor
  · intro config rfCap group listed
    refine minimal_of_top (fun n => ?_) (replicas_assign listed rfCap)
    cases room : isRoomGroup group with
    | true =>
      exact ⟨max (rfCap.getD config.replicationFactor).toNat 1, fun m _ => by simp [replicaBound, room]⟩
    | false =>
      exact ⟨n, fun m few => by simp [replicaBound, room, few]⟩
  · intro blobId rf
    refine minimal_of_top (fun n => ⟨_, fun _ _ => rfl⟩) fun nodes => top_eq_top ?_
    rw [ExtTreeSet.length_toList]
    omega

/-- A user group is on every node, whatever the replication factor, and where a list has all nodes none
takes the place of the one that leaves. -/
theorem replicas_beyond_factor :
    ((assign ⟨1, 1, 1⟩ none (OrdSet.extend ∅ [1, 2])).replicas (ShardId.group ⟨.user, 0⟩)).length ≠ min 1 2 ∧
    (assign ⟨1, 1, 1⟩ none (OrdSet.extend ∅ [1])).replicas (ShardId.group ⟨.user, 0⟩) =
      ((assign ⟨1, 1, 1⟩ none (OrdSet.extend ∅ [1, 2])).replicas (ShardId.group ⟨.user, 0⟩)).erase 2 := by
  decide +kernel

end Saltator.Cluster
