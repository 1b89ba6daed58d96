import Saltator.Cluster.Placement
import Saltator.Lib.Steps

/-!
# Media blobs

Blobs are ranked over the active nodes as groups are, each by a key of its own. A node pulls the blobs
that are its to hold from the others that hold them, and deletes those that are not once a majority of
their holders confirms. All of it goes by the node's own view of the roster, which it reads anew each
time.
-/

namespace Saltator.Cluster

open Std

/-! ## Placement -/

def blobKey (blobId : String) : UInt64 :=
  blobId.toUTF8.toList.foldl (fun h b => (h ^^^ b.toUInt64) * 0x100000001B3) 0xCBF29CE484222325 ^^^
    0x424C4F42424C4F42

def blobReplicas (blobId : String) (rf : UInt8) (nodes : OrdSet NodeId) : List NodeId :=
  (nodes.toList.insertionSort (outranks (blobKey blobId))).take (max (min rf.toNat nodes.size) 1)

/-- Only a node that takes part in the placement deletes blobs. -/
def mayEvict (roster : Roster) (node : NodeId) : Bool := (activeNodes roster).contains node

def blobQuorum (replicas : Nat) : Nat := replicas / 2 + 1

section Rank

variable {key : UInt64} {a b c : NodeId} {blobId : String} {rf : UInt8} {nodes : OrdSet NodeId}

def Above (key : UInt64) (a b : NodeId) : Prop := outranks key a b ∧ a ≠ b

instance Above.decidable (key : UInt64) (a b : NodeId) : Decidable (Above key a b) :=
  inferInstanceAs (Decidable (_ ∧ _))

instance instTotalOutranks (key : UInt64) : Std.Total (outranks key) where
  total a b := by
    unfold outranks
    grind

instance instIsTransOutranks (key : UInt64) : IsTrans NodeId (outranks key) where
  trans a b c h h' := by
    unfold outranks at *
    grind

theorem outranks_antisymm (h : outranks key a b) (h' : outranks key b a) : a = b := by
  unfold outranks at *
  grind

theorem Above.trans (h : Above key a b) (h' : Above key b c) : Above key a c := by
  refine ⟨IsTrans.trans _ _ _ h.1 h'.1, ?_⟩
  rintro rfl
  exact h.2 (outranks_antisymm h.1 h'.1)

theorem mem_of_mem_blobReplicas (replica : a ∈ blobReplicas blobId rf nodes) : a ∈ nodes :=
  OrdSet.mem_toList'.1 ((List.mem_insertionSort _).1 (List.mem_of_mem_take replica))

theorem above_of_not_replica (active : a ∈ nodes) (outside : a ∉ blobReplicas blobId rf nodes)
    (replica : b ∈ blobReplicas blobId rf nodes) : Above (blobKey blobId) b a := by
  unfold blobReplicas at outside replica
  generalize max (min rf.toNat nodes.size) 1 = k at outside replica
  have ranked := List.pairwise_insertionSort (outranks (blobKey blobId)) nodes.toList
  have mem : a ∈ nodes.toList.insertionSort (outranks (blobKey blobId)) :=
    (List.mem_insertionSort _).2 (OrdSet.mem_toList'.2 active)
  rw [← List.take_append_drop k (nodes.toList.insertionSort _)] at ranked mem
  have after := (List.mem_append.1 mem).resolve_left outside
  refine ⟨(List.pairwise_append.1 ranked).2.2 b replica a after, ?_⟩
  rintro rfl
  exact outside replica

end Rank

/-! ## Sweeps -/

structure ClusterView where
  roster : Option Roster
  /-- The replication factor of the configuration, where that is known. -/
  rf : Option UInt8
  deriving DecidableEq

namespace ClusterView

variable (v : ClusterView) (blobId : String) (node : NodeId)

def replicas : List NodeId :=
  match v.roster with
  | none => []
  | some roster => (blobReplicas blobId (v.rf.getD 3) (activeNodes roster)).filter fun id => roster.contains id

def holds : Bool := (v.replicas blobId).contains node

def mayEvict : Bool := v.roster.any fun roster => Cluster.mayEvict roster node

/-- The other nodes that should hold the blob. -/
def peers : List NodeId := (v.replicas blobId).filter fun id => id ≠ node

end ClusterView

/-- Where a sweep stands with one blob that the media table names, and what it does next. -/
inductive SweepPhase where
  | idle
  /-- Is it ours to hold? -/
  | wanting
  /-- Is it on our disk? -/
  | checking
  /-- Whom to ask for it. -/
  | pulling
  /-- The next of these is asked for it. -/
  | fetching (candidates : List NodeId)
  /-- The bytes are here. Are they ours to keep? -/
  | fetched
  /-- May we delete anything? -/
  | gating
  | listing
  /-- Is it another's to hold? -/
  | choosing
  /-- Whom to ask whether they hold it. -/
  | asking
  /-- These have not answered yet, and those hold it. -/
  | confirming (quorum : Nat) (waiting confirmed : List NodeId)
  deriving DecidableEq

structure BlobNode where
  view : ClusterView
  /-- The blob is on its disk. -/
  held : Bool
  phase : SweepPhase
  /-- The view is the one that the sweep began with. The code does not keep this, nor the next two. -/
  steady : Bool
  /-- Whoever was asked in the sweep has answered. -/
  heard : Bool
  /-- With this view, a sweep has come to its end in which all have answered. -/
  settled : Bool

namespace BlobNode

variable (blobId : String) (n : NodeId) (x : BlobNode)

def finish : BlobNode := { x with phase := .idle, settled := x.settled || (x.steady && x.heard) }

/-- What a sweep does next on its own. -/
def advance : BlobNode :=
  match x.phase with
  | .idle => x
  | .wanting => { x with phase := if x.view.holds blobId n then .checking else .gating }
  | .checking => { x with phase := if x.held then .gating else .pulling }
  | .pulling => { x with phase := .fetching (x.view.peers blobId n) }
  | .fetching [] => { x with phase := .gating }
  | .fetching _ => x
  -- a node that is handed the bytes and should not hold them keeps nothing
  | .fetched => { x with held := x.held || x.view.holds blobId n, phase := .gating }
  | .gating => if x.view.mayEvict n then { x with phase := .listing } else x.finish
  | .listing => if x.held then { x with phase := .choosing } else x.finish
  | .choosing => if x.view.holds blobId n then x.finish else { x with phase := .asking }
  | .asking =>
    if x.view.replicas blobId = [] then x.finish
    else { x with
      phase := .confirming (blobQuorum (x.view.replicas blobId).length) (x.view.peers blobId n) [] }
  | .confirming quorum [] confirmed =>
    if quorum ≤ confirmed.length then { x.finish with held := false } else x.finish
  | .confirming .. => x

def answer (peer : NodeId) (has : Bool) : BlobNode :=
  match x.phase with
  | .fetching (p :: rest) =>
    if p = peer then { x with phase := if has then .fetched else .fetching rest } else x
  | .confirming quorum waiting confirmed =>
    if peer ∈ waiting then
      { x with
        phase := .confirming quorum (waiting.erase peer) (if has then confirmed ++ [peer] else confirmed) }
    else x
  | _ => x

end BlobNode

abbrev BlobCluster := NodeId → BlobNode

inductive BlobAct where
  /-- A node learns of a change of the cluster, early or late. -/
  | see (n : NodeId) (view : ClusterView)
  | begin (n : NodeId)
  | advance (n : NodeId)
  | answer (n peer : NodeId) (reached : Bool)
  /-- A copy comes by an upload, a push, or a read that is passed on. -/
  | gain (n : NodeId)

def BlobAct.node : BlobAct → NodeId
  | .see n _ | .begin n | .advance n | .answer n _ _ | .gain n => n

def BlobAct.next (blobId : String) (w : BlobCluster) (act : BlobAct) : BlobNode :=
  let x := w act.node
  match act with
  | .see _ view => { x with view := view, steady := false, settled := false }
  | .begin _ => if x.phase = .idle then { x with phase := .wanting, steady := true, heard := true } else x
  | .advance n => x.advance blobId n
  | .answer _ peer reached => { x.answer peer (reached && (w peer).held) with heard := x.heard && reached }
  | .gain _ => { x with held := true }

def BlobCluster.step (blobId : String) (w : BlobCluster) (act : BlobAct) : BlobCluster :=
  Function.update w act.node (act.next blobId w)

/-! ## The last copy -/

/-- The condition on a step: a node that asks who else holds the blob still takes part in the placement,
and is still no replica. -/
def StillElsewhere (blobId : String) (w : BlobCluster) : BlobAct → Prop
  | .advance n => (w n).phase = .asking →
    (w n).view.mayEvict n = true ∧ (w n).view.holds blobId n = false
  | _ => True

section Copies

variable {blobId : String} {w w' : BlobCluster} {n m : NodeId} {x : BlobNode}
  {waiting confirmed : List NodeId} {act : BlobAct} {quorum : Nat} {phase : SweepPhase}
  {v : ClusterView}

def SomeHolds (w : BlobCluster) : Prop := ∃ n, (w n).held = true

def Backed (blobId : String) (w : BlobCluster) (m : NodeId) : Prop :=
  ∃ h, (w h).held = true ∧ (h = m ∨ Above (blobKey blobId) h m)

structure Asks (blobId : String) (w : BlobCluster) (n : NodeId) (phase : SweepPhase) : Prop where
  quorum : ∀ quorum waiting confirmed, phase = .confirming quorum waiting confirmed → 0 < quorum
  waiting : ∀ quorum waiting confirmed, phase = .confirming quorum waiting confirmed →
    ∀ m ∈ waiting, Above (blobKey blobId) m n
  confirmed : ∀ quorum waiting confirmed, phase = .confirming quorum waiting confirmed →
    ∀ m ∈ confirmed, Above (blobKey blobId) m n ∧ Backed blobId w m

theorem Backed.mono (h : Backed blobId w m) (keeps : ∀ k, (w k).held = true → (w' k).held = true) :
    Backed blobId w' m := by
  obtain ⟨k, held, rank⟩ := h
  exact ⟨k, keeps k held, rank⟩

theorem Backed.delete {c : NodeId} (h : Backed blobId w m) (above : Above (blobKey blobId) c n)
    (backed : Backed blobId w c) (keeps : ∀ k, k ≠ n → (w k).held = true → (w' k).held = true) :
    Backed blobId w' m := by
  have below : ∀ k, (k = c ∨ Above (blobKey blobId) k c) → Above (blobKey blobId) k n := by
    rintro k (rfl | rank)
    · exact above
    · exact rank.trans above
  obtain ⟨k, held, rank⟩ := h
  by_cases gone : k = n
  · subst gone
    obtain ⟨b, held, rank'⟩ := backed
    have higher := below b rank'
    refine ⟨b, keeps b higher.2 held, .inr ?_⟩
    obtain rfl | rank := rank
    · exact higher
    · exact higher.trans rank
  · exact ⟨k, keeps k gone held, rank⟩

theorem ClusterView.mem_replicas (replica : m ∈ v.replicas blobId) :
    ∃ roster, v.roster = some roster ∧ m ∈ blobReplicas blobId (v.rf.getD 3) (activeNodes roster) := by
  unfold ClusterView.replicas at replica
  split at replica
  · cases replica
  · rename_i roster known
    exact ⟨roster, known, (List.mem_filter.1 replica).1⟩

theorem mem_of_active {roster : Roster} (active : n ∈ activeNodes roster) : roster.contains n = true := by
  have status := mem_activeNodes.1 active
  rw [Roster.status, Option.map_eq_some_iff] at status
  obtain ⟨info, found, -⟩ := status
  rw [← ExtTreeMap.mem_iff_contains, ExtTreeMap.mem_iff_isSome_getElem?, found]
  rfl

theorem ClusterView.above_of_not_holds (active : v.mayEvict n = true)
    (outside : v.holds blobId n = false) (replica : m ∈ v.replicas blobId) :
    Above (blobKey blobId) m n := by
  obtain ⟨roster, known, ranked⟩ := v.mem_replicas replica
  have active : n ∈ activeNodes roster := by
    rw [ClusterView.mayEvict, known] at active
    exact active
  refine above_of_not_replica active (fun own => ?_) ranked
  have held : v.holds blobId n = true := by
    rw [ClusterView.holds, ClusterView.replicas, known, List.contains_iff_mem]
    exact List.mem_filter.2 ⟨own, mem_of_active active⟩
  rw [outside] at held
  cases held

theorem BlobNode.advance_held (held : x.held = true) : (x.advance blobId n).held = true ∨
    ∃ quorum confirmed, x.phase = .confirming quorum [] confirmed ∧ quorum ≤ confirmed.length := by
  unfold BlobNode.advance BlobNode.finish
  split
  all_goals grind

theorem BlobNode.advance_phase
    (phase : (x.advance blobId n).phase = .confirming quorum waiting confirmed) :
    x.phase = .confirming quorum waiting confirmed ∨
      (x.phase = .asking ∧ quorum = blobQuorum (x.view.replicas blobId).length ∧
        waiting = x.view.peers blobId n ∧ confirmed = []) := by
  unfold BlobNode.advance BlobNode.finish at phase
  split at phase
  all_goals grind

theorem BlobNode.answer_held {peer : NodeId} {has : Bool} : (x.answer peer has).held = x.held := by
  unfold BlobNode.answer
  grind

theorem BlobNode.answer_phase {peer : NodeId} {has : Bool}
    (phase : (x.answer peer has).phase = .confirming quorum waiting confirmed) :
    ∃ waiting' confirmed', x.phase = .confirming quorum waiting' confirmed' ∧
      (∀ m ∈ waiting, m ∈ waiting') ∧
      ∀ m ∈ confirmed, m ∈ confirmed' ∨ (m = peer ∧ peer ∈ waiting' ∧ has = true) := by
  unfold BlobNode.answer at phase
  split at phase
  · grind
  · rename_i quorum' waiting' confirmed' before
    split at phase
    · rename_i asked
      obtain ⟨rfl, rfl, rfl⟩ := SweepPhase.confirming.inj phase
      refine ⟨waiting', confirmed', before, fun m mem => List.mem_of_mem_erase mem, fun m mem => ?_⟩
      split at mem
      · rename_i yes
        obtain old | new := List.mem_append.1 mem
        · exact .inl old
        · exact .inr ⟨List.mem_singleton.1 new, asked, yes⟩
      · exact .inl mem
    · exact ⟨waiting, confirmed, phase, fun m mem => mem, fun m mem => .inl mem⟩
  · rename_i unanswered
    exact absurd phase (unanswered _ _ _)

theorem Asks.of_ne
    (other : ∀ quorum waiting confirmed, phase ≠ .confirming quorum waiting confirmed) :
    Asks blobId w n phase where
  quorum _ _ _ own := absurd own (other _ _ _)
  waiting _ _ _ own := absurd own (other _ _ _)
  confirmed _ _ _ own := absurd own (other _ _ _)

theorem Asks.mono (h : Asks blobId w n phase)
    (backed : ∀ m, Backed blobId w m → Backed blobId w' m) : Asks blobId w' n phase where
  quorum := h.quorum
  waiting := h.waiting
  confirmed quorum waiting confirmed own m mem :=
    (h.confirmed quorum waiting confirmed own m mem).imp_right (backed m)

theorem Asks.above {confirmed : List NodeId}
    (h : Asks blobId w n (.confirming quorum [] confirmed)) (enough : quorum ≤ confirmed.length) :
    ∃ c, Above (blobKey blobId) c n ∧ Backed blobId w c := by
  have positive := h.quorum quorum [] confirmed rfl
  obtain ⟨c, mem⟩ := List.exists_mem_of_length_pos (positive.trans_le enough)
  exact ⟨c, h.confirmed quorum [] confirmed rfl c mem⟩

theorem Asks.next (h : Asks blobId w act.node (w act.node).phase)
    (still : StillElsewhere blobId w act) : Asks blobId w act.node (act.next blobId w).phase := by
  cases act with
  | see n view => exact h
  | gain n => exact h
  | begin n =>
    unfold BlobAct.next
    dsimp only
    split
    · exact .of_ne fun _ _ _ => nofun
    · exact h
  | advance n =>
    have own : ∀ quorum waiting confirmed, ((w n).advance blobId n).phase = .confirming quorum waiting confirmed →
        (w n).phase = .confirming quorum waiting confirmed ∨ (0 < quorum ∧ confirmed = [] ∧
          ∀ m ∈ waiting, Above (blobKey blobId) m n) := by
      intro quorum waiting confirmed phase
      refine (BlobNode.advance_phase phase).imp_right ?_
      rintro ⟨asks, rfl, rfl, rfl⟩
      obtain ⟨active, outside⟩ := still asks
      refine ⟨Nat.succ_pos _, rfl, fun m mem => ?_⟩
      exact ClusterView.above_of_not_holds active outside (List.mem_filter.1 mem).1
    refine ⟨fun q a c phase => ?_, fun q a c phase m mem => ?_, fun q a c phase m mem => ?_⟩
    · obtain before | ⟨positive, -, -⟩ := own q a c phase
      · exact h.quorum q a c before
      · exact positive
    · obtain before | ⟨-, -, above⟩ := own q a c phase
      · exact h.waiting q a c before m mem
      · exact above m mem
    · obtain before | ⟨-, rfl, -⟩ := own q a c phase
      · exact h.confirmed q a c before m mem
      · cases mem
  | answer n peer reached =>
    refine ⟨fun q a c phase => ?_, fun q a c phase m mem => ?_, fun q a c phase m mem => ?_⟩
    all_goals
      obtain ⟨a', c', before, asked, confirmed⟩ := BlobNode.answer_phase phase
    · exact h.quorum q a' c' before
    · exact h.waiting q a' c' before m (asked m mem)
    · obtain old | ⟨rfl, waiting, yes⟩ := confirmed m mem
      · exact h.confirmed q a' c' before m old
      · exact ⟨h.waiting q a' c' before m waiting, m, (Bool.and_eq_true_iff.1 yes).2, .inl rfl⟩

theorem step_backed (h : ∀ n, Asks blobId w n (w n).phase) :
    (∀ m, Backed blobId w m → Backed blobId (w.step blobId act) m) ∧
      (SomeHolds w → SomeHolds (w.step blobId act)) := by
  have others : ∀ k, k ≠ act.node → w.step blobId act k = w k := fun k ne => Function.update_of_ne ne _ _
  have own : w.step blobId act act.node = act.next blobId w := Function.update_self _ _ _
  by_cases keeps : (w act.node).held = true → (act.next blobId w).held = true
  · have kept : ∀ k, (w k).held = true → (w.step blobId act k).held = true := by
      intro k held
      by_cases same : k = act.node
      · subst same
        rw [own]
        exact keeps held
      · rw [others k same]
        exact held
    exact ⟨fun m backed => backed.mono kept, fun ⟨k, held⟩ => ⟨k, kept k held⟩⟩
  · -- the step deletes a copy
    obtain ⟨held, gone⟩ := Classical.not_imp.1 keeps
    obtain ⟨c, above, backed⟩ : ∃ c, Above (blobKey blobId) c act.node ∧ Backed blobId w c := by
      cases act with
      | advance n =>
        obtain kept | ⟨quorum, confirmed, phase, enough⟩ := BlobNode.advance_held held
        · exact absurd kept gone
        · exact Asks.above (phase ▸ h n) enough
      | answer n peer reached => exact absurd (BlobNode.answer_held.trans held) gone
      | see n view => exact absurd held gone
      | gain n => exact absurd rfl gone
      | begin n =>
        refine absurd ?_ gone
        unfold BlobAct.next
        dsimp only
        split <;> exact held
    have kept : ∀ k, k ≠ act.node → (w k).held = true → (w.step blobId act k).held = true := by
      intro k ne held
      rw [others k ne]
      exact held
    have delete : ∀ m, Backed blobId w m → Backed blobId (w.step blobId act) m :=
      fun m before => before.delete above backed kept
    refine ⟨delete, fun _ => ?_⟩
    obtain ⟨k, still, -⟩ := delete c backed
    exact ⟨k, still⟩

theorem step_asks (h : ∀ n, Asks blobId w n (w n).phase)
    (still : StillElsewhere blobId w act) (n : NodeId) :
    Asks blobId (w.step blobId act) n (w.step blobId act n).phase := by
  have backed : ∀ m, Backed blobId w m → Backed blobId (w.step blobId act) m := (step_backed h).1
  by_cases same : n = act.node
  · subst same
    rw [BlobCluster.step, Function.update_self]
    exact ((h act.node).next still).mono backed
  · have frame : w.step blobId act n = w n := Function.update_of_ne same _ _
    rw [frame]
    exact (h n).mono backed

/-- **The last copy is not deleted.** In a run whose steps all meet the condition, a blob that some node
holds is held by some node ever after. -/
theorem last_copy_survives {w₀ : BlobCluster} (idle : ∀ n, (w₀ n).phase = .idle)
    (start : Steps.Reaches (BlobCluster.step blobId) (StillElsewhere blobId) w₀ w) (held : SomeHolds w)
    (run : Steps.Reaches (BlobCluster.step blobId) (StillElsewhere blobId) w w') : SomeHolds w' := by
  have init : ∀ n, Asks blobId w₀ n (w₀ n).phase := by
    intro n
    rw [idle n]
    exact .of_ne fun _ _ _ => nofun
  have asks : ∀ n, Asks blobId w n (w n).phase :=
    start.invariant (I := fun w : BlobCluster => ∀ n, Asks blobId w n (w n).phase)
      (fun _ _ h still n => step_asks h still n) init
  have kept := run.invariant (I := fun w => (∀ n, Asks blobId w n (w n).phase) ∧ SomeHolds w)
    (fun _ _ h still => ⟨step_asks h.1 still, (step_backed h.1).2 h.2⟩) ⟨asks, held⟩
  exact kept.2

instance StillElsewhere.decidable (w : BlobCluster) (act : BlobAct) : Decidable (StillElsewhere blobId w act) := by
  unfold StillElsewhere
  split <;> infer_instance

theorem foldl_step_frame {acts : List BlobAct} (other : ∀ act ∈ acts, act.node ≠ n) :
    acts.foldl (BlobCluster.step blobId) w n = w n := by
  induction acts generalizing w with
  | nil => rfl
  | cons act acts ih =>
    rw [List.foldl_cons, ih fun a mem => other a (List.mem_cons_of_mem _ mem)]
    exact Function.update_of_ne (other act List.mem_cons_self).symm _ _

def sampleView (second : NodeStatus) : ClusterView :=
  ⟨some (((∅ : Roster).insert 1 ⟨"a:1", .active⟩).insert 2 ⟨"b:1", second⟩), some 1⟩

def sampleBlobs : BlobCluster := fun n =>
  ⟨sampleView .active, decide (n = 1) || decide (n = 2), .idle, true, true, false⟩

def sampleSweep : List BlobAct :=
  [.begin 1, .advance 1, .advance 1, .advance 1, .advance 1, .advance 1, .answer 1 2 true]

theorem sampleBlobs_held : SomeHolds sampleBlobs := ⟨1, by decide +kernel⟩

theorem last_copy_survives_sample : ∃ w w' : BlobCluster,
    (∀ n, (sampleBlobs n).phase = .idle) ∧
    Steps.Reaches (BlobCluster.step "b") (StillElsewhere "b") sampleBlobs w ∧ SomeHolds w ∧
    Steps.Reaches (BlobCluster.step "b") (StillElsewhere "b") w w' ∧ (w' 1).held = false ∧ SomeHolds w' := by
  have permitted : Steps.Permitted (BlobCluster.step "b") (StillElsewhere "b") sampleBlobs
      (sampleSweep ++ [BlobAct.advance 1]) := by
    decide +kernel
  have run := Steps.Reaches.of_permitted permitted
  have gone : ((sampleSweep ++ [BlobAct.advance 1]).foldl (BlobCluster.step "b") sampleBlobs 1).held = false := by
    decide +kernel
  exact ⟨_, _, fun _ => rfl, .refl, sampleBlobs_held, run, gone,
    last_copy_survives (fun _ => rfl) .refl sampleBlobs_held run⟩

/-- The second node is found unreachable after it saw that it may delete blobs. Each node deletes its
copy by the confirmation of the other. -/
def sampleLoss : List BlobAct :=
  [.begin 2, .advance 2, .advance 2, .advance 2, .advance 2, .see 2 (sampleView .unreachable),
    .advance 2, .advance 2, .answer 2 1 true] ++ sampleSweep ++ [.advance 2, .advance 1]

theorem last_copy_lost : ∃ w : BlobCluster,
    (∀ n, (sampleBlobs n).phase = .idle) ∧ SomeHolds sampleBlobs ∧
    Steps.Reaches (BlobCluster.step "b") (fun _ _ => True) sampleBlobs w ∧ ¬ SomeHolds w := by
  have permitted : Steps.Permitted (BlobCluster.step "b") (fun _ _ => True) sampleBlobs sampleLoss := by
    decide +kernel
  refine ⟨_, fun _ => rfl, sampleBlobs_held, .of_permitted permitted, ?_⟩
  have first : (sampleLoss.foldl (BlobCluster.step "b") sampleBlobs 1).held = false := by decide +kernel
  have second : (sampleLoss.foldl (BlobCluster.step "b") sampleBlobs 2).held = false := by decide +kernel
  rintro ⟨n, held⟩
  by_cases one : n = 1
  · subst one
    rw [first] at held
    cases held
  by_cases two : n = 2
  · subst two
    rw [second] at held
    cases held
  have nodes : ∀ act ∈ sampleLoss, act.node = 1 ∨ act.node = 2 := by decide
  rw [foldl_step_frame fun act mem same => (nodes act mem).elim (fun own => one (same.symm.trans own))
    fun own => two (same.symm.trans own)] at held
  simp [sampleBlobs, one, two] at held

end Copies

end Saltator.Cluster
