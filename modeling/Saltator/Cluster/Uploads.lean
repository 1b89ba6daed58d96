import Saltator.Cluster.Blobs

/-!
# Uploads

A node that is given bytes writes them to its disk and pushes them to the replicas of their blob, and
answers once a majority of these has them. A file that is there already ends the call at once.
-/

namespace Saltator.Cluster

open Std

abbrev Bytes := List UInt8

inductive MediaError where
  | io (message : String)
  | badId
  | placement (message : String)
  deriving DecidableEq, Repr

/-- The characters of the name of a file. -/
def validMediaId (mediaId : String) : Bool :=
  decide (2 ≤ mediaId.utf8ByteSize) && mediaId.toList.all fun c => c.isAlphanum || c = '-' || c = '_'

/-- The answer of a replica to a push, if there is one yet. -/
abbrev Push := NodeId × Option (Except String Unit)

/-- Where a call stands, and what it does next. -/
inductive StoreStage where
  /-- Is the file there? -/
  | begun
  | writing
  /-- Whom to push the bytes to. -/
  | replicating
  | pushing (replicas : List NodeId) (pushes : List Push)
  | done (result : Except MediaError String)
  deriving DecidableEq

structure StoreCall where
  node : NodeId
  mediaId : String
  bytes : Bytes
  stage : StoreStage
  deriving DecidableEq

def heldCount (node : NodeId) (replicas : List NodeId) (pushes : List Push) : Nat :=
  replicas.countP (fun id => id = node) + pushes.countP fun p => p.2 = some (.ok ())

def lastError (pushes : List Push) : Option String :=
  pushes.foldl (fun last p => match p.2 with
    | some (.error e) => some e
    | _ => last) none

def pushError (mediaId : String) (held replicas : Nat) (last : Option String) : MediaError :=
  .placement ("blob " ++ mediaId ++ ": only " ++ toString held ++ " of " ++ toString replicas ++
    " replicas stored it (need " ++ toString (blobQuorum replicas) ++ ")" ++
    match last with
    | some e => ": " ++ e
    | none => "")

/-- A call that returned: the replicas of then, and all that was ever written by then. -/
structure Returned where
  mediaId : String
  bytes : Bytes
  replicas : List NodeId
  stored : List (NodeId × String × Bytes)
  deriving DecidableEq

/-- A quorum of the replicas had stored the bytes. -/
def Returned.Durable (r : Returned) : Prop :=
  blobQuorum r.replicas.length ≤ r.replicas.countP fun m => (m, r.mediaId, r.bytes) ∈ r.stored

structure UploadWorld where
  views : NodeId → ClusterView
  disk : OrdSet (NodeId × String)
  calls : List StoreCall
  /-- All that was ever written to a disk. -/
  stored : List (NodeId × String × Bytes)
  /-- The blobs that were pushed to a quorum of these replicas. -/
  pushed : List (String × Bytes × List NodeId)
  returned : List Returned

inductive UploadAct where
  | see (n : NodeId) (view : ClusterView)
  /-- Bytes are stored, under the hash of their content or under an id that was reserved for them. -/
  | store (n : NodeId) (bytes : Bytes)
  | storeAt (n : NodeId) (mediaId : String) (bytes : Bytes)
  | advance (i : Nat)
  /-- A disk fails the call. -/
  | fail (i : Nat) (message : String)
  /-- A replica is pushed the bytes: it writes them or not, and what its answer is. -/
  | answer (i : Nat) (peer : NodeId) (writes : Bool) (result : Except String Unit)
  /-- A file is written or deleted by something else. -/
  | keep (n : NodeId) (mediaId : String) (bytes : Bytes)
  | remove (n : NodeId) (mediaId : String)

namespace UploadWorld

variable (digest : Bytes → String) (w : UploadWorld)

def write (n : NodeId) (mediaId : String) (bytes : Bytes) : UploadWorld :=
  { w with disk := w.disk.insert (n, mediaId), stored := w.stored ++ [(n, mediaId, bytes)] }

def setStage (i : Nat) (c : StoreCall) (stage : StoreStage) : UploadWorld :=
  { w with calls := w.calls.set i { c with stage := stage } }

def replicas (c : StoreCall) : List NodeId := (w.views c.node).replicas c.mediaId

def succeed (i : Nat) (c : StoreCall) : UploadWorld :=
  { w.setStage i c (.done (.ok c.mediaId)) with
    returned := w.returned ++ [⟨c.mediaId, c.bytes, w.replicas c, w.stored⟩] }

def advance (i : Nat) (c : StoreCall) : UploadWorld :=
  match c.stage with
  | .begun =>
    if !validMediaId c.mediaId then w.setStage i c (.done (.error .badId))
    -- already here: from an earlier store, or a read that was passed on
    else if w.disk.contains (c.node, c.mediaId) then w.succeed i c
    else w.setStage i c .writing
  | .writing =>
    if !validMediaId c.mediaId then w.setStage i c (.done (.error .badId))
    else (w.write c.node c.mediaId c.bytes).setStage i c .replicating
  | .replicating =>
    -- no roster yet: the sweep will place the blob
    if w.replicas c = [] then w.succeed i c
    else w.setStage i c
      (.pushing (w.replicas c) (((w.replicas c).filter fun id => id ≠ c.node).map fun id => (id, none)))
  | .pushing replicas pushes =>
    if pushes.any fun p => p.2 = none then w
    else
      let held := heldCount c.node replicas pushes
      if blobQuorum replicas.length ≤ held then
        { w.succeed i c with pushed := w.pushed ++ [(c.mediaId, c.bytes, replicas)] }
      else w.setStage i c (.done (.error (pushError c.mediaId held replicas.length (lastError pushes))))
  | .done _ => w

def answered (peer : NodeId) (result : Except String Unit) : List Push → List Push
  | [] => []
  | p :: ps => if p = (peer, none) then (peer, some result) :: ps else p :: answered peer result ps

def step (w : UploadWorld) : UploadAct → UploadWorld
  | .see n view => { w with views := Function.update w.views n view }
  | .store n bytes => { w with calls := w.calls ++ [⟨n, digest bytes, bytes, .begun⟩] }
  | .storeAt n mediaId bytes => { w with calls := w.calls ++ [⟨n, mediaId, bytes, .writing⟩] }
  | .advance i =>
    match w.calls[i]? with
    | none => w
    | some c => w.advance i c
  | .fail i message =>
    match w.calls[i]? with
    | some ⟨node, mediaId, bytes, .begun⟩ =>
      w.setStage i ⟨node, mediaId, bytes, .begun⟩ (.done (.error (.io message)))
    | some ⟨node, mediaId, bytes, .writing⟩ =>
      w.setStage i ⟨node, mediaId, bytes, .writing⟩ (.done (.error (.io message)))
    | _ => w
  | .answer i peer writes result =>
    match w.calls[i]? with
    | some ⟨node, mediaId, bytes, .pushing replicas pushes⟩ =>
      let c : StoreCall := ⟨node, mediaId, bytes, .pushing replicas pushes⟩
      if (peer, none) ∈ pushes then
        if writes then
          (w.write peer mediaId bytes).setStage i c (.pushing replicas (answered peer result pushes))
        else
          -- a replica that wrote nothing does not answer that it did
          let result := match result with
            | .ok () => .error "not stored"
            | .error e => .error e
          w.setStage i c (.pushing replicas (answered peer result pushes))
      else w
    | _ => w
  | .keep n mediaId bytes => w.write n mediaId bytes
  | .remove n mediaId => { w with disk := w.disk.erase (n, mediaId) }

end UploadWorld

/-- What holds when a call goes on: if it finds its file there, the same bytes were pushed to a quorum of
the same replicas before; it knows of replicas to push to; and these are the same when it returns. -/
def Due (w : UploadWorld) (c : StoreCall) : Prop :=
  match c.stage with
  | .begun => w.disk.contains (c.node, c.mediaId) = true → (c.mediaId, c.bytes, w.replicas c) ∈ w.pushed
  | .replicating => w.replicas c ≠ []
  | .pushing replicas _ => w.replicas c = replicas
  | _ => True

/-- The condition on a step. -/
def Earned (w : UploadWorld) : UploadAct → Prop
  | .advance i => ∀ c ∈ w.calls[i]?, Due w c
  | _ => True

/-! ## What a call has established -/

section Calls

variable {digest : Bytes → String} {w : UploadWorld} {stored stored' : List (NodeId × String × Bytes)}
  {c : StoreCall} {i : Nat} {result : Except String Unit} {pushes : List Push}

structure CallSound (stored : List (NodeId × String × Bytes)) (c : StoreCall) : Prop where
  replicating : c.stage = .replicating → (c.node, c.mediaId, c.bytes) ∈ stored
  own : ∀ replicas pushes, c.stage = .pushing replicas pushes → (c.node, c.mediaId, c.bytes) ∈ stored
  peers : ∀ replicas pushes, c.stage = .pushing replicas pushes →
    pushes.map Prod.fst = replicas.filter fun id => id ≠ c.node
  answers : ∀ replicas pushes, c.stage = .pushing replicas pushes →
    ∀ p ∈ pushes, p.2 = some (.ok ()) → (p.1, c.mediaId, c.bytes) ∈ stored

theorem CallSound.mono (h : CallSound stored c) (sub : ∀ x ∈ stored, x ∈ stored') : CallSound stored' c where
  replicating stage := sub _ (h.replicating stage)
  own replicas pushes stage := sub _ (h.own replicas pushes stage)
  peers := h.peers
  answers replicas pushes stage p mem ok := sub _ (h.answers replicas pushes stage p mem ok)

theorem CallSound.of_ne (first : c.stage ≠ .replicating)
    (second : ∀ replicas pushes, c.stage ≠ .pushing replicas pushes) : CallSound stored c where
  replicating stage := absurd stage first
  own _ _ stage := absurd stage (second _ _)
  peers _ _ stage := absurd stage (second _ _)
  answers _ _ stage := absurd stage (second _ _)

theorem CallSound.heldCount_le (h : CallSound stored c) {replicas : List NodeId}
    (stage : c.stage = .pushing replicas pushes) :
    heldCount c.node replicas pushes ≤ replicas.countP fun m => (m, c.mediaId, c.bytes) ∈ stored := by
  have own := h.own replicas pushes stage
  have pushed : pushes.countP (fun p => p.2 = some (.ok ())) ≤
      (replicas.filter fun id => id ≠ c.node).countP fun m => (m, c.mediaId, c.bytes) ∈ stored := by
    rw [← h.peers replicas pushes stage, List.countP_map]
    refine List.countP_mono_left fun p mem ok => ?_
    simpa using h.answers replicas pushes stage p mem (of_decide_eq_true ok)
  have mine : replicas.countP (fun id => id = c.node) ≤
      (replicas.filter fun id => id = c.node).countP fun m => (m, c.mediaId, c.bytes) ∈ stored := by
    rw [List.countP_filter]
    refine List.countP_mono_left fun id _ same => ?_
    have same : id = c.node := of_decide_eq_true same
    simp [same, own]
  have split := List.countP_eq_countP_filter_add replicas
    (fun m => decide ((m, c.mediaId, c.bytes) ∈ stored)) fun id => decide (id = c.node)
  have rest : (replicas.filter fun id => !decide (id = c.node)) = replicas.filter fun id => id ≠ c.node := by
    simp
  unfold heldCount
  rw [rest] at split
  omega

theorem map_fst_answered {peer : NodeId} (pushes : List Push) :
    (UploadWorld.answered peer result pushes).map Prod.fst = pushes.map Prod.fst := by
  induction pushes with
  | nil => rfl
  | cons p ps ih =>
    unfold UploadWorld.answered
    split
    · rename_i same
      rw [same, List.map_cons, List.map_cons]
    · rw [List.map_cons, List.map_cons, ih]

theorem mem_answered {peer : NodeId} {p : Push}
    (mem : p ∈ UploadWorld.answered peer result pushes) : p ∈ pushes ∨ p = (peer, some result) := by
  induction pushes with
  | nil => cases mem
  | cons q qs ih =>
    unfold UploadWorld.answered at mem
    split at mem
    · grind
    · grind

structure Acknowledged (w : UploadWorld) : Prop where
  pushed : ∀ mediaId bytes replicas, (mediaId, bytes, replicas) ∈ w.pushed →
    blobQuorum replicas.length ≤ replicas.countP fun m => (m, mediaId, bytes) ∈ w.stored
  sound : ∀ c ∈ w.calls, CallSound w.stored c
  returned : ∀ r ∈ w.returned, r.Durable

theorem Acknowledged.write (h : Acknowledged w) (n : NodeId) (mediaId : String) (bytes : Bytes) :
    Acknowledged (w.write n mediaId bytes) where
  pushed id content replicas mem := by
    refine (h.pushed id content replicas mem).trans (List.countP_mono_left fun m _ before => ?_)
    exact decide_eq_true (List.mem_append_left _ (of_decide_eq_true before))
  sound c mem := (h.sound c mem).mono fun _ => List.mem_append_left _
  returned := h.returned

theorem Acknowledged.setStage (h : Acknowledged w) {stage : StoreStage}
    (sound : CallSound w.stored { c with stage := stage }) : Acknowledged (w.setStage i c stage) where
  pushed := h.pushed
  sound c' mem := by
    obtain old | rfl := List.mem_or_eq_of_mem_set mem
    · exact h.sound c' old
    · exact sound
  returned := h.returned

theorem Acknowledged.fail (h : Acknowledged w) (e : MediaError) :
    Acknowledged (w.setStage i c (.done (.error e))) :=
  h.setStage (.of_ne nofun fun _ _ => nofun)

theorem Acknowledged.succeed (h : Acknowledged w)
    (durable : Returned.Durable ⟨c.mediaId, c.bytes, w.replicas c, w.stored⟩) :
    Acknowledged (w.succeed i c) where
  pushed := h.pushed
  sound := by
    have ended : Acknowledged (w.setStage i c (.done (.ok c.mediaId))) :=
      h.setStage (.of_ne nofun fun _ _ => nofun)
    exact ended.sound
  returned r mem := by
    obtain old | new := List.mem_append.1 mem
    · exact h.returned r old
    · obtain rfl := List.mem_singleton.1 new
      exact durable

theorem Acknowledged.advance (h : Acknowledged w) (found : w.calls[i]? = some c)
    (earned : Earned w (.advance i)) : Acknowledged (w.advance i c) := by
  have sound := h.sound c (List.mem_of_getElem? found)
  have earned := earned c found
  unfold Due at earned
  unfold UploadWorld.advance
  split
  · rename_i stage
    rw [stage] at earned
    split
    · exact h.fail _
    split
    · rename_i there
      exact h.succeed (h.pushed _ _ _ (earned there))
    · exact h.setStage (.of_ne nofun fun _ _ => nofun)
  · split
    · exact h.fail _
    · refine (h.write _ _ _).setStage ⟨fun _ => ?_, fun _ _ => nofun, fun _ _ => nofun, fun _ _ => nofun⟩
      exact List.mem_append_right _ (List.mem_singleton_self _)
  · rename_i stage
    rw [stage] at earned
    split
    · rename_i none
      exact absurd none earned
    · refine h.setStage ⟨nofun, fun replicas pushes pushing => ?_, fun replicas pushes pushing => ?_,
        fun replicas pushes pushing p mem ok => ?_⟩
      · exact sound.replicating stage
      · obtain ⟨rfl, rfl⟩ := StoreStage.pushing.inj pushing
        simp [Function.comp_def]
      · obtain ⟨rfl, rfl⟩ := StoreStage.pushing.inj pushing
        obtain ⟨id, -, rfl⟩ := List.mem_map.1 mem
        cases ok
  · rename_i replicas pushes stage
    rw [stage] at earned
    split
    · exact h
    dsimp only
    split
    · rename_i enough
      have durable : Returned.Durable ⟨c.mediaId, c.bytes, replicas, w.stored⟩ :=
        enough.trans (sound.heldCount_le stage)
      have returns := h.succeed (i := i) (earned ▸ durable)
      refine ⟨fun id content reps mem => ?_, returns.sound, returns.returned⟩
      obtain old | new := List.mem_append.1 mem
      · exact h.pushed id content reps old
      · obtain ⟨rfl, rfl, rfl⟩ := by simpa using List.mem_singleton.1 new
        exact durable
    · exact h.fail _
  · exact h

theorem Acknowledged.step (h : Acknowledged w) {act : UploadAct} (earned : Earned w act) :
    Acknowledged (w.step digest act) := by
  cases act with
  | see n view => exact ⟨h.pushed, h.sound, h.returned⟩
  | store n bytes =>
    refine ⟨h.pushed, fun c mem => ?_, h.returned⟩
    obtain old | new := List.mem_append.1 mem
    · exact h.sound c old
    · obtain rfl := List.mem_singleton.1 new
      exact .of_ne nofun fun _ _ => nofun
  | storeAt n mediaId bytes =>
    refine ⟨h.pushed, fun c mem => ?_, h.returned⟩
    obtain old | new := List.mem_append.1 mem
    · exact h.sound c old
    · obtain rfl := List.mem_singleton.1 new
      exact .of_ne nofun fun _ _ => nofun
  | advance i =>
    unfold UploadWorld.step
    dsimp only
    split
    · exact h
    · rename_i c found
      exact h.advance found earned
  | fail i message =>
    unfold UploadWorld.step
    dsimp only
    split
    · exact h.fail _
    · exact h.fail _
    · exact h
  | answer i peer writes result =>
    unfold UploadWorld.step
    dsimp only
    split
    · rename_i node mediaId bytes replicas pushes found
      have sound := h.sound _ (List.mem_of_getElem? found)
      have asked : ∀ (r : Except String Unit),
          (UploadWorld.answered peer r pushes).map Prod.fst = replicas.filter fun id => id ≠ node :=
        fun r => (map_fst_answered pushes).trans (sound.peers replicas pushes rfl)
      split
      · split
        · refine (h.write _ _ _).setStage ⟨nofun, fun _ _ _ => ?_, fun _ _ pushing => ?_,
            fun _ _ pushing p mem ok => ?_⟩
          · exact List.mem_append_left _ (sound.own replicas pushes rfl)
          · obtain ⟨rfl, rfl⟩ := StoreStage.pushing.inj pushing
            exact asked result
          · obtain ⟨rfl, rfl⟩ := StoreStage.pushing.inj pushing
            obtain old | rfl := mem_answered mem
            · exact List.mem_append_left _ (sound.answers replicas pushes rfl p old ok)
            · exact List.mem_append_right _ (List.mem_singleton_self _)
        · refine h.setStage ⟨nofun, fun _ _ _ => sound.own replicas pushes rfl, fun _ _ pushing => ?_,
            fun _ _ pushing p mem ok => ?_⟩
          · obtain ⟨rfl, rfl⟩ := StoreStage.pushing.inj pushing
            exact asked _
          · obtain ⟨rfl, rfl⟩ := StoreStage.pushing.inj pushing
            obtain old | rfl := mem_answered mem
            · exact sound.answers replicas pushes rfl p old ok
            · cases result <;> cases ok
      · exact h
    · exact h
  | keep n mediaId bytes => exact h.write n mediaId bytes
  | remove n mediaId => exact ⟨h.pushed, h.sound, h.returned⟩

end Calls

/-! ## Runs -/

/-- No call, and nothing written. -/
def UploadWorld.fresh (views : NodeId → ClusterView) : UploadWorld := ⟨views, ∅, [], [], [], []⟩

/-- **An acknowledged upload is durable.** In a run whose steps all meet the condition, whenever a call
returns the id of a blob, a quorum of the blob's replicas of then has stored its bytes. -/
theorem acknowledged_durable {digest : Bytes → String} {views : NodeId → ClusterView} {w : UploadWorld}
    (run : Steps.Reaches (UploadWorld.step digest) Earned (.fresh views) w) :
    ∀ r ∈ w.returned, r.Durable := by
  have init : Acknowledged (.fresh views) :=
    ⟨fun _ _ _ mem => absurd mem List.not_mem_nil, fun c mem => absurd mem List.not_mem_nil,
      fun r mem => absurd mem List.not_mem_nil⟩
  exact (run.invariant (I := Acknowledged) (fun _ _ h earned => h.step earned) init).returned

/-! ## Two nodes, both of which should hold the blob -/

instance Due.decidable (w : UploadWorld) (c : StoreCall) : Decidable (Due w c) := by
  unfold Due
  split <;> infer_instance

instance Earned.decidable (w : UploadWorld) (act : UploadAct) : Decidable (Earned w act) := by
  unfold Earned
  split <;> infer_instance

def sampleDigest (_ : Bytes) : String := "47DEQpj8HBSa-_TImW-5JCeuQeRkm5NMpJWZG3hSuFU"

def sampleUploads : UploadWorld := .fresh fun _ => { sampleView .active with rf := some 2 }

def sampleUpload (writes : Bool) (result : Except String Unit) : List UploadAct :=
  [.store 1 [], .advance 0, .advance 0, .advance 0, .answer 0 2 writes result, .advance 0]

theorem acknowledged_durable_sample : ∃ w : UploadWorld,
    Steps.Reaches (UploadWorld.step sampleDigest) Earned sampleUploads w ∧ w.returned ≠ [] ∧
    ∀ r ∈ w.returned, r.Durable := by
  have earned : Steps.Permitted (UploadWorld.step sampleDigest) Earned sampleUploads
      (sampleUpload true (.ok ())) := by
    decide +kernel
  have run := Steps.Reaches.of_permitted earned
  have answered : ((sampleUpload true (.ok ())).foldl (UploadWorld.step sampleDigest) sampleUploads).returned ≠ [] := by
    decide +kernel
  exact ⟨_, run, answered, acknowledged_durable run⟩

/-- The push fails, and so does the call. The next one finds the file that it left behind. -/
theorem acknowledged_unpushed : ∃ w : UploadWorld,
    Steps.Reaches (UploadWorld.step sampleDigest) (fun _ _ => True) sampleUploads w ∧
    ∃ r ∈ w.returned, ¬ r.Durable := by
  let acts := sampleUpload false (.error "unreachable") ++ [UploadAct.store 1 [], .advance 1]
  have permitted : Steps.Permitted (UploadWorld.step sampleDigest) (fun _ _ => True) sampleUploads acts := by
    decide +kernel
  refine ⟨_, .of_permitted permitted, ?_⟩
  have undurable : (acts.foldl (UploadWorld.step sampleDigest) sampleUploads).returned.any (fun r : Returned =>
      !decide (blobQuorum r.replicas.length ≤
        r.replicas.countP fun m : NodeId => (m, r.mediaId, r.bytes) ∈ r.stored)) = true := by
    decide +kernel
  obtain ⟨r, mem, fails⟩ := List.any_eq_true.1 undurable
  refine ⟨r, mem, ?_⟩
  unfold Returned.Durable
  simpa using fails

end Saltator.Cluster
