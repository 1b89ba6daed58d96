import Saltator.Cluster.Blobs

/-!
# Blobs that move

When the roster changes, the replicas of a blob change with it. A node that is to hold a blob asks the
other replicas of now, and no one else. Once every node has swept with the last roster, the blob is where
it belongs, if there was a copy among the replicas whenever a node set out to ask them.
-/

namespace Saltator.Cluster

open Std

def SweepPhase.pulls : SweepPhase → Bool
  | .checking | .pulling | .fetching _ | .fetched => true
  | _ => false

/-- The pull is behind, and nothing was decided about a deletion. -/
def SweepPhase.pulled : SweepPhase → Bool
  | .gating | .listing | .choosing => true
  | _ => false

def SweepPhase.deletes : SweepPhase → Bool
  | .asking | .confirming .. => true
  | _ => false

section Movement

variable {blobId : String} {w : BlobCluster} {n m : NodeId} {x : BlobNode} {copies : Prop}
  {act : BlobAct} {roster : Roster} {v : ClusterView}

/-- A copy is on some disk, or on its way to one. -/
def Copies (w : BlobCluster) : Prop := SomeHolds w ∨ ∃ n, (w n).phase = .fetched

def HeldAmong (w : BlobCluster) (nodes : List NodeId) : Prop := ∃ peer ∈ nodes, (w peer).held = true

/-- A node still has these to ask for the blob, in a sweep that may count. -/
structure Seeks (x : BlobNode) (candidates : List NodeId) : Prop where
  phase : x.phase = .fetching candidates
  steady : x.steady = true
  heard : x.heard = true

/-- The condition on a step. When a node sets out to ask the other replicas, one of them holds the blob, or
there is no copy at all. Whoever deletes its copy leaves one to those that still have it to ask. And no upload
makes a first copy. -/
def Supplied (blobId : String) (w : BlobCluster) : BlobAct → Prop
  | .advance n =>
    ((w n).phase = .pulling → (w n).steady = true → Copies w → HeldAmong w ((w n).view.peers blobId n)) ∧
    ∀ quorum confirmed, (w n).phase = .confirming quorum [] confirmed → quorum ≤ confirmed.length →
      ∀ m candidates, Seeks (w m) candidates → n ∈ candidates → HeldAmong w (candidates.filter (· ≠ n))
  | .gain _ => Copies w
  | _ => True

/-- What a node without a change of its view has come to. -/
structure Placed (blobId : String) (n : NodeId) (copies : Prop) (x : BlobNode) : Prop where
  steady : x.settled = true → x.steady = true
  settled : x.settled = true → x.view.holds blobId n = true → x.held = true ∨ ¬ copies
  pulled : x.steady = true → x.heard = true → x.phase.pulled = true → x.view.holds blobId n = true →
    x.held = true ∨ ¬ copies
  pulls : x.steady = true → x.phase.pulls = true → x.view.holds blobId n = true
  deletes : x.steady = true → x.phase.deletes = true → x.view.holds blobId n = false

theorem Placed.mono {copies copies' : Prop} (h : Placed blobId n copies x)
    (le : copies' → copies) : Placed blobId n copies' x where
  steady := h.steady
  settled done own := (h.settled done own).imp_right fun none some => none (le some)
  pulled still all behind own := (h.pulled still all behind own).imp_right fun none some => none (le some)
  pulls := h.pulls
  deletes := h.deletes

theorem Placed.inPhase (h : Placed blobId n copies x) (phase : SweepPhase)
    (pulled : x.steady = true → x.heard = true → phase.pulled = true → x.view.holds blobId n = true →
      x.held = true ∨ ¬ copies)
    (pulls : x.steady = true → phase.pulls = true → x.view.holds blobId n = true)
    (deletes : x.steady = true → phase.deletes = true → x.view.holds blobId n = false) :
    Placed blobId n copies { x with phase } :=
  ⟨h.steady, h.settled, pulled, pulls, deletes⟩

theorem Placed.finish (h : Placed blobId n copies x)
    (done : x.steady = true → x.heard = true → x.view.holds blobId n = true → x.held = true ∨ ¬ copies) :
    Placed blobId n copies x.finish := by
  refine ⟨fun ended => ?_, fun ended own => ?_, nofun, nofun, nofun⟩
  all_goals obtain before | now := Bool.or_eq_true_iff.1 ended
  · exact h.steady before
  · exact (Bool.and_eq_true_iff.1 now).1
  · exact h.settled before own
  · obtain ⟨still, all⟩ := Bool.and_eq_true_iff.1 now
    exact done still all own

theorem Placed.not_holds (h : Placed blobId n copies x)
    (still : x.steady = true) (deletes : x.phase.deletes = true) : ¬ x.view.holds blobId n = true := by
  rw [h.deletes still deletes]
  exact Bool.false_ne_true

theorem Placed.advance (h : Placed blobId n copies x)
    (vain : Seeks x [] → ¬ copies) : Placed blobId n copies (x.advance blobId n) := by
  have pulled := h.pulled
  have pulls := h.pulls
  have deletes := h.deletes
  unfold BlobNode.advance
  split <;> rename_i phase <;> rw [phase] at pulled pulls deletes
  · exact h
  · split
    · rename_i own
      exact h.inPhase .checking nofun (fun _ _ => own) nofun
    · rename_i other
      exact h.inPhase .gating (fun _ _ _ own => (other own).elim) nofun nofun
  · split
    · rename_i held
      exact h.inPhase .gating (fun _ _ _ _ => .inl held) nofun nofun
    · exact h.inPhase .pulling nofun (fun still _ => pulls still rfl) nofun
  · exact h.inPhase _ nofun (fun still _ => pulls still rfl) nofun
  · exact h.inPhase .gating (fun still all _ _ => .inr (vain ⟨phase, still, all⟩)) nofun nofun
  · exact h
  · refine ⟨h.steady, fun done own => (h.settled done own).imp_left fun held => ?_, fun _ _ _ own => .inl ?_,
      nofun, nofun⟩
    · exact Bool.or_eq_true_iff.2 (.inl held)
    · exact Bool.or_eq_true_iff.2 (.inr own)
  · split
    · exact h.inPhase .listing (fun still all _ => pulled still all rfl) nofun nofun
    · exact h.finish fun still all => pulled still all rfl
  · split
    · exact h.inPhase .choosing (fun still all _ => pulled still all rfl) nofun nofun
    · exact h.finish fun still all => pulled still all rfl
  · split
    · exact h.finish fun still all => pulled still all rfl
    · rename_i other
      exact h.inPhase .asking nofun nofun fun _ _ => Bool.eq_false_iff.2 other
  · split
    · exact h.finish fun still _ own => (h.not_holds still (phase ▸ rfl) own).elim
    · exact h.inPhase _ nofun nofun fun still _ => deletes still rfl
  · have done : Placed blobId n copies x.finish :=
      h.finish fun still _ own => (h.not_holds still (phase ▸ rfl) own).elim
    split
    · exact ⟨done.steady, fun ended own => (h.not_holds (done.steady ended) (phase ▸ rfl) own).elim,
        nofun, nofun, nofun⟩
    · exact done
  · exact h

theorem Placed.answer (h : Placed blobId n copies x) (peer : NodeId) (has reached : Bool) :
    Placed blobId n copies { x.answer peer has with heard := x.heard && reached } := by
  obtain ⟨steady, settled, pulled, pulls, deletes⟩ := h
  unfold BlobNode.answer
  split
  all_goals constructor
  all_goals grind [SweepPhase.pulled, SweepPhase.pulls, SweepPhase.deletes]

theorem Placed.next (h : Placed blobId act.node (Copies w) (w act.node))
    (vain : Seeks (w act.node) [] → ¬ Copies w) : Placed blobId act.node (Copies w) (act.next blobId w) := by
  cases act with
  | see n view =>
    exact ⟨nofun, nofun, nofun, nofun, nofun⟩
  | begin n =>
    unfold BlobAct.next
    dsimp only
    split
    · exact ⟨fun _ => rfl, h.settled, fun _ _ => nofun, fun _ => nofun, fun _ => nofun⟩
    · exact h
  | advance n => exact h.advance vain
  | answer n peer reached => exact h.answer peer _ reached
  | gain n =>
    exact ⟨h.steady, fun _ _ => .inl rfl, fun _ _ _ _ => .inl rfl, h.pulls, h.deletes⟩

theorem BlobNode.advance_gains (held : (x.advance blobId n).held = true) :
    x.held = true ∨ x.phase = .fetched := by
  unfold BlobNode.advance BlobNode.finish at held
  split at held
  all_goals grind

theorem BlobNode.advance_fetched (fetched : (x.advance blobId n).phase = .fetched) : False := by
  unfold BlobNode.advance BlobNode.finish at fetched
  split at fetched
  all_goals grind

theorem BlobNode.answer_fetched {peer : NodeId} {has : Bool}
    (fetched : (x.answer peer has).phase = .fetched) : x.phase = .fetched ∨ has = true := by
  unfold BlobNode.answer at fetched
  split at fetched
  all_goals grind

theorem copies_of_step (supplied : Supplied blobId w act) (copies : Copies (w.step blobId act)) : Copies w := by
  have others : ∀ k, k ≠ act.node → w.step blobId act k = w k := fun k ne => Function.update_of_ne ne _ _
  have own : w.step blobId act act.node = act.next blobId w := Function.update_self _ _ _
  obtain ⟨k, held⟩ | ⟨k, fetched⟩ := copies
  · by_cases same : k = act.node
    · subst same
      rw [own] at held
      cases act with
      | see n view => exact .inl ⟨n, held⟩
      | gain n => exact supplied
      | begin n =>
        unfold BlobAct.next at held
        dsimp only at held
        split at held
        · exact .inl ⟨n, held⟩
        · exact .inl ⟨n, held⟩
      | advance n =>
        obtain before | bytes := BlobNode.advance_gains held
        · exact .inl ⟨n, before⟩
        · exact .inr ⟨n, bytes⟩
      | answer n peer reached => exact .inl ⟨n, BlobNode.answer_held.symm.trans held⟩
    · rw [others k same] at held
      exact .inl ⟨k, held⟩
  · by_cases same : k = act.node
    · subst same
      rw [own] at fetched
      cases act with
      | see n view => exact .inr ⟨n, fetched⟩
      | gain n => exact supplied
      | begin n =>
        unfold BlobAct.next at fetched
        dsimp only at fetched
        split at fetched
        · cases fetched
        · exact .inr ⟨n, fetched⟩
      | advance n => exact (BlobNode.advance_fetched fetched).elim
      | answer n peer reached =>
        obtain before | has := BlobNode.answer_fetched fetched
        · exact .inr ⟨n, before⟩
        · exact .inl ⟨peer, (Bool.and_eq_true_iff.1 has).2⟩
    · rw [others k same] at fetched
      exact .inr ⟨k, fetched⟩

theorem step_held (blobId : String) (act : BlobAct) (held : (w m).held = true) : (w.step blobId act m).held = true ∨
    act = .advance m ∧ ∃ quorum confirmed, (w m).phase = .confirming quorum [] confirmed ∧
      quorum ≤ confirmed.length := by
  by_cases same : m = act.node
  · subst same
    have own : w.step blobId act act.node = act.next blobId w := Function.update_self _ _ _
    rw [own]
    cases act with
    | see n view => exact .inl held
    | gain n => exact .inl rfl
    | begin n =>
      unfold BlobAct.next
      dsimp only
      split <;> exact .inl held
    | advance n => exact (BlobNode.advance_held held).imp_right fun gone => ⟨rfl, gone⟩
    | answer n peer reached => exact .inl (BlobNode.answer_held.trans held)
  · rw [BlobCluster.step, Function.update_of_ne same]
    exact .inl held

theorem BlobNode.advance_fetching {candidates : List NodeId}
    (phase : (x.advance blobId n).phase = .fetching candidates) :
    x.phase = .fetching candidates ∨ x.phase = .pulling ∧ candidates = x.view.peers blobId n := by
  unfold BlobNode.advance BlobNode.finish at phase
  split at phase
  all_goals grind

theorem BlobNode.advance_steady : (x.advance blobId n).steady = x.steady ∧ (x.advance blobId n).heard = x.heard := by
  unfold BlobNode.advance BlobNode.finish
  split
  all_goals grind

theorem BlobNode.answer_steady {peer : NodeId} {has : Bool} : (x.answer peer has).steady = x.steady := by
  unfold BlobNode.answer
  grind

theorem BlobNode.answer_fetching {peer : NodeId} {has : Bool} {candidates : List NodeId}
    (phase : (x.answer peer has).phase = .fetching candidates) :
    x.phase = .fetching candidates ∨ x.phase = .fetching (peer :: candidates) ∧ has = false := by
  unfold BlobNode.answer at phase
  split at phase
  all_goals grind

/-- Where a node still asks, one of those that it has to ask holds the blob. -/
def Found (w : BlobCluster) : Prop :=
  ∀ m candidates, Seeks (w m) candidates → Copies w → HeldAmong w candidates

theorem seeks_of_step {candidates : List NodeId} (seeks : Seeks (w.step blobId act m) candidates) :
    (∃ before, Seeks (w m) before ∧ ∀ peer ∈ before, (w peer).held = true → peer ∈ candidates) ∨
      act = .advance m ∧ (w m).phase = .pulling ∧ (w m).steady = true ∧
        candidates = (w m).view.peers blobId m := by
  have same (kept : Seeks (w m) candidates) : ∃ before, Seeks (w m) before ∧
      ∀ peer ∈ before, (w peer).held = true → peer ∈ candidates := ⟨candidates, kept, fun _ mem _ => mem⟩
  by_cases own : m = act.node
  · subst own
    rw [BlobCluster.step, Function.update_self] at seeks
    obtain ⟨phase, steady, heard⟩ := seeks
    cases act with
    | see n view => cases steady
    | gain n => exact .inl (same ⟨phase, steady, heard⟩)
    | begin n =>
      unfold BlobAct.next at phase steady heard
      dsimp only at phase steady heard
      split at phase
      · cases phase
      · rename_i busy
        rw [if_neg busy] at steady heard
        exact .inl (same ⟨phase, steady, heard⟩)
    | advance n =>
      have still := BlobNode.advance_steady.1.symm.trans steady
      obtain before | ⟨pulling, rfl⟩ := BlobNode.advance_fetching phase
      · exact .inl (same ⟨before, still, BlobNode.advance_steady.2.symm.trans heard⟩)
      · exact .inr ⟨rfl, pulling, still, rfl⟩
    | answer n peer reached =>
      obtain ⟨all, yes⟩ := Bool.and_eq_true_iff.1 heard
      have still : (w n).steady = true := BlobNode.answer_steady.symm.trans steady
      obtain before | ⟨before, no⟩ := BlobNode.answer_fetching phase
      · exact .inl (same ⟨before, still, all⟩)
      · refine .inl ⟨_, ⟨before, still, all⟩, fun other mem held => ?_⟩
        obtain rfl | rest := List.mem_cons.1 mem
        · rw [yes, held] at no
          cases no
        · exact rest
  · rw [BlobCluster.step, Function.update_of_ne own] at seeks
    exact .inl (same seeks)

theorem Found.step (h : Found w) (supplied : Supplied blobId w act) : Found (w.step blobId act) := by
  intro m candidates seeks copies
  have some : Copies w := copies_of_step supplied copies
  have keeps {peer : NodeId} (mem : peer ∈ candidates) (held : (w peer).held = true)
      (stays : act ≠ .advance peer) : HeldAmong (w.step blobId act) candidates :=
    ⟨peer, mem, (step_held blobId act held).resolve_right fun gone => stays gone.1⟩
  obtain ⟨before, asked, rest⟩ | ⟨rfl, pulling, steady, rfl⟩ := seeks_of_step seeks
  · obtain ⟨peer, mem, held⟩ := h m before asked some
    obtain still | ⟨rfl, quorum, confirmed, deletes, enough⟩ := step_held blobId act held
    · exact ⟨peer, rest peer mem held, still⟩
    · -- the copy goes, and another one is left
      obtain ⟨other, mem, held⟩ := supplied.2 quorum confirmed deletes enough m before asked mem
      obtain ⟨mem, ne⟩ := List.mem_filter.1 mem
      exact keeps (rest other mem held) held fun same => of_decide_eq_true ne (BlobAct.advance.inj same).symm
  · obtain ⟨peer, mem, held⟩ := supplied.1 pulling steady some
    refine keeps mem held fun same => ?_
    obtain rfl := BlobAct.advance.inj same
    exact of_decide_eq_true (List.mem_filter.1 mem).2 rfl

theorem step_placed (h : ∀ n, Placed blobId n (Copies w) (w n)) (found : Found w)
    (supplied : Supplied blobId w act) (n : NodeId) :
    Placed blobId n (Copies (w.step blobId act)) (w.step blobId act n) := by
  have le : Copies (w.step blobId act) → Copies w := copies_of_step supplied
  by_cases same : n = act.node
  · subst same
    have own : w.step blobId act act.node = act.next blobId w := Function.update_self _ _ _
    rw [own]
    refine ((h act.node).next fun seeks copies => ?_).mono le
    obtain ⟨peer, mem, -⟩ := found act.node [] seeks copies
    cases mem
  · have frame : w.step blobId act n = w n := Function.update_of_ne same _ _
    rw [frame]
    exact (h n).mono le

def BlobCluster.reads (blobId : String) (w : BlobCluster) (n : NodeId) : Bool :=
  (w n).held || ((w n).view.peers blobId n).any fun peer => (w peer).held

theorem ClusterView.mem_roster (known : v.roster = some roster)
    (replica : n ∈ v.replicas blobId) : n ∈ roster := by
  unfold ClusterView.replicas at replica
  rw [known] at replica
  exact ExtTreeMap.mem_iff_contains.2 (List.mem_filter.1 replica).2

theorem ClusterView.replicas_ne_nil (known : v.roster = some roster)
    (active : n ∈ activeNodes roster) : v.replicas blobId ≠ [] := by
  intro none
  unfold ClusterView.replicas at none
  rw [known] at none
  have ranked : blobReplicas blobId (v.rf.getD 3) (activeNodes roster) ≠ [] := by
    unfold blobReplicas
    have some : n ∈ (activeNodes roster).toList.insertionSort (outranks (blobKey blobId)) :=
      (List.mem_insertionSort _).2 (OrdSet.mem_toList'.2 active)
    have positive := List.length_pos_of_mem some
    refine List.ne_nil_of_length_pos ?_
    rw [List.length_take]
    omega
  obtain ⟨first, mem⟩ := List.exists_mem_of_ne_nil _ ranked
  have present := List.filter_eq_nil_iff.1 none first mem
  exact present (mem_of_active (mem_of_mem_blobReplicas mem))

/-- **Blobs get to where they belong.** In a run whose steps all meet the condition, once every node of
the roster has swept with it and the blob is on the disk of some of them, all its replicas hold it, and a
read on any of them finds it. -/
theorem blobs_settle {w₀ : BlobCluster} (fresh : ∀ n, (w₀ n).phase = .idle ∧ (w₀ n).settled = false)
    (run : Steps.Reaches (BlobCluster.step blobId) (Supplied blobId) w₀ w) {v : ClusterView} {roster : Roster}
    (known : v.roster = some roster) (active : m ∈ activeNodes roster)
    (swept : ∀ n ∈ roster, (w n).view = v ∧ (w n).settled = true) (held : (w n).held = true) :
    (∀ r ∈ v.replicas blobId, (w r).held = true) ∧ ∀ r ∈ roster, w.reads blobId r = true := by
  have init : ∀ n, Placed blobId n (Copies w₀) (w₀ n) := by
    intro n
    obtain ⟨idle, unsettled⟩ := fresh n
    refine ⟨fun done => ?_, fun done => ?_, fun _ _ behind => ?_, fun _ ahead => ?_, fun _ about => ?_⟩
    all_goals simp_all [SweepPhase.pulled, SweepPhase.pulls, SweepPhase.deletes]
  have none : Found w₀ := by
    intro m candidates seeks
    have busy := (fresh m).1.symm.trans seeks.phase
    cases busy
  have placed := (run.invariant (I := fun w => (∀ n, Placed blobId n (Copies w) (w n)) ∧ Found w)
    (fun _ _ h supplied => ⟨step_placed h.1 h.2 supplied, h.2.step supplied⟩) ⟨init, none⟩).1
  have all : ∀ r ∈ v.replicas blobId, (w r).held = true := by
    intro r replica
    obtain ⟨view, settled⟩ := swept r (ClusterView.mem_roster known replica)
    have own : (w r).view.holds blobId r = true := by
      rw [view]
      exact List.contains_iff_mem.2 replica
    exact ((placed r).settled settled own).resolve_right fun none => none (.inl ⟨n, held⟩)
  refine ⟨all, fun r member => ?_⟩
  obtain ⟨view, -⟩ := swept r member
  unfold BlobCluster.reads
  obtain ⟨first, replica⟩ := List.exists_mem_of_ne_nil _ (ClusterView.replicas_ne_nil known active)
  by_cases same : first = r
  · subst same
    simp [all first replica]
  · have peer : first ∈ (w r).view.peers blobId r := by
      rw [view]
      exact List.mem_filter.2 ⟨replica, by simpa using same⟩
    have found : ((w r).view.peers blobId r).any fun peer => (w peer).held :=
      List.any_eq_true.2 ⟨first, peer, all first replica⟩
    rw [found, Bool.or_true]

def sampleHolder (view : ClusterView) : BlobCluster := fun n => ⟨view, decide (n = 2), .idle, true, true, false⟩

theorem sampleRoster_cases {second : NodeStatus}
    (known : (sampleView second).roster = some roster) (member : n ∈ roster) : n = 1 ∨ n = 2 := by
  obtain rfl := Option.some.inj known
  rw [OrdMap.mem_iff_getElem?] at member
  obtain ⟨info, found⟩ := member
  rw [OrdMap.getElem?_insert'] at found
  split at found
  · exact .inr ‹_›
  rw [OrdMap.getElem?_insert'] at found
  split at found
  · exact .inl ‹_›
  · simp at found

def samplePull : List BlobAct :=
  [.begin 1, .advance 1, .advance 1, .advance 1, .answer 1 2 true, .advance 1, .advance 1, .advance 1,
    .advance 1, .begin 2, .advance 2, .advance 2, .advance 2, .advance 2, .advance 2]

/-- Whoever sets out to ask finds the blob at a replica, nothing is deleted, and no copy comes from elsewhere. -/
def Answered (w : BlobCluster) : BlobAct → Prop
  | .advance n => ((w n).phase = .pulling → ((w n).view.peers "b" n).any fun peer => (w peer).held) ∧
    (w n).phase.deletes = false
  | .gain _ => False
  | _ => True

instance Answered.decidable (w : BlobCluster) : (act : BlobAct) → Decidable (Answered w act)
  | .advance _ => inferInstanceAs (Decidable (_ ∧ _))
  | .gain _ => inferInstanceAs (Decidable False)
  | .see .. | .begin _ | .answer .. => inferInstanceAs (Decidable True)

theorem Answered.supplied (h : Answered w act) : Supplied "b" w act := by
  cases act with
  | advance n =>
    refine ⟨fun pulling _ _ => List.any_eq_true.1 (h.1 pulling), fun quorum confirmed deletes => ?_⟩
    have keeps := h.2
    rw [deletes] at keeps
    cases keeps
  | gain n => exact h.elim
  | _ => trivial

theorem blobs_settle_sample : ∃ (w₀ w : BlobCluster) (v : ClusterView) (roster : Roster),
    (∀ n, (w₀ n).phase = .idle ∧ (w₀ n).settled = false) ∧
    Steps.Reaches (BlobCluster.step "b") (Supplied "b") w₀ w ∧ v.roster = some roster ∧
    (1 : NodeId) ∈ activeNodes roster ∧ (∀ n ∈ roster, (w n).view = v ∧ (w n).settled = true) ∧
    (w 2).held = true ∧ (w₀ 1).held = false ∧
    ((∀ r ∈ v.replicas "b", (w r).held = true) ∧ ∀ r ∈ roster, w.reads "b" r = true) := by
  let v : ClusterView := { sampleView .active with rf := some 2 }
  have answered : Steps.Permitted (BlobCluster.step "b") Answered (sampleHolder v) samplePull := by
    decide +kernel
  have run := (Steps.Reaches.of_permitted answered).mono fun _ _ => Answered.supplied
  have known : v.roster = (sampleView .active).roster := rfl
  obtain ⟨roster, same⟩ : ∃ roster, (sampleView .active).roster = some roster := ⟨_, rfl⟩
  have active : (1 : NodeId) ∈ activeNodes roster := by
    obtain rfl := Option.some.inj same
    decide +kernel
  have first : (samplePull.foldl (BlobCluster.step "b") (sampleHolder v) 1).view = v ∧
      (samplePull.foldl (BlobCluster.step "b") (sampleHolder v) 1).settled = true := by
    decide +kernel
  have second : (samplePull.foldl (BlobCluster.step "b") (sampleHolder v) 2).view = v ∧
      (samplePull.foldl (BlobCluster.step "b") (sampleHolder v) 2).settled = true := by
    decide +kernel
  have swept : ∀ n ∈ roster, (samplePull.foldl (BlobCluster.step "b") (sampleHolder v) n).view = v ∧
      (samplePull.foldl (BlobCluster.step "b") (sampleHolder v) n).settled = true := by
    intro n member
    obtain rfl | rfl := sampleRoster_cases same member
    · exact first
    · exact second
  have held : (samplePull.foldl (BlobCluster.step "b") (sampleHolder v) 2).held = true := by decide +kernel
  exact ⟨sampleHolder v, _, v, roster, fun _ => ⟨rfl, rfl⟩, run, known.trans same, active, swept, held, by
    decide +kernel, blobs_settle (fun _ => ⟨rfl, rfl⟩) run (known.trans same) active swept held⟩

def sampleStranding : List BlobAct :=
  [.see 1 (sampleView .draining), .see 2 (sampleView .draining), .begin 1, .advance 1, .advance 1, .advance 1,
    .advance 1, .advance 1, .advance 1, .begin 2, .advance 2, .advance 2]

/-- The only replica of now does not hold the blob that the drained node holds. -/
theorem blob_stranded : ∃ (w : BlobCluster) (v : ClusterView) (roster : Roster),
    (∀ n, (sampleHolder (sampleView .active) n).phase = .idle ∧
      (sampleHolder (sampleView .active) n).settled = false) ∧
    Steps.Reaches (BlobCluster.step "b") (fun _ _ => True) (sampleHolder (sampleView .active)) w ∧
    v.roster = some roster ∧ (1 : NodeId) ∈ activeNodes roster ∧
    (∀ n ∈ roster, (w n).view = v ∧ (w n).settled = true) ∧ (2 : NodeId) ∈ roster ∧ (w 2).held = true ∧
    1 ∈ v.replicas "b" ∧ (w 1).held = false ∧ w.reads "b" 1 = false := by
  have permitted : Steps.Permitted (BlobCluster.step "b") (fun _ _ => True)
      (sampleHolder (sampleView .active)) sampleStranding := by
    decide +kernel
  let w := sampleStranding.foldl (BlobCluster.step "b") (sampleHolder (sampleView .active))
  obtain ⟨roster, same⟩ : ∃ roster, (sampleView .draining).roster = some roster := ⟨_, rfl⟩
  have first : (w 1).view = sampleView .draining ∧ (w 1).settled = true := by decide +kernel
  have second : (w 2).view = sampleView .draining ∧ (w 2).settled = true := by decide +kernel
  refine ⟨w, sampleView .draining, roster, fun _ => ⟨rfl, rfl⟩, .of_permitted permitted, same, ?_, ?_, ?_,
    by decide +kernel, by decide +kernel, by decide +kernel, by decide +kernel⟩
  · obtain rfl := Option.some.inj same
    decide +kernel
  · intro n member
    obtain rfl | rfl := sampleRoster_cases same member
    · exact first
    · exact second
  · obtain rfl := Option.some.inj same
    decide +kernel

end Movement

end Saltator.Cluster
