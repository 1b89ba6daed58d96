import Saltator.Shard.Changes

/-!
# Subscribing to a remote shard

A node that does not host a shard reads its changes from a replica. The replica's task first replays the
rows behind the number asked for, and then sends the live changes, with a replay wherever it has missed
some. The node goes through the replicas until one accepts, and where the stream breaks off it
goes on with another, from the last change it was given.
-/

namespace Saltator.Cluster

open Feed Shard

variable {ρ ι : Type} {payload : Nat → ρ}

/-! ## The replica's task -/

def replayBatch : Nat := 256

/-- What the task does next. -/
inductive TaskStage (ρ : Type) where
  /-- Subscribe to the live changes, anew after a lag. -/
  | subscribing
  /-- Replay the rows behind the last that was sent. -/
  | draining
  | tailing
  /-- Replay what is missing in front of the change. -/
  | hole (rec : ChangeRecord ρ)
  | finished
  deriving DecidableEq

structure SubscribeTask (ρ : Type) where
  /-- The receiver's position. -/
  live : Nat
  last : Nat
  stage : TaskStage ρ
  deriving DecidableEq

namespace SubscribeTask

variable {h h' : Host payload} {t t' : SubscribeTask ρ} {replay : Replay payload} {capacity : Nat}

def spawn (ρ : Type) (fromSeq : Nat) : SubscribeTask ρ := ⟨0, fromSeq, .subscribing⟩

def step (replay : Replay payload) (capacity : Nat) (h : Host payload) (t : SubscribeTask ρ) :
    Option (List (ChangeRecord ρ) × SubscribeTask ρ) :=
  match t.stage with
  | .subscribing => some ([], { t with live := h.sent.length, stage := .draining })
  | .draining =>
    match replay h t.last replayBatch with
    | .error _ => some ([], { t with stage := .finished })
    | .ok batch => some (batch,
      { t with
        last := (batch.getLast?.map ChangeRecord.seq).getD t.last
        stage := if batch.length < replayBatch then .tailing else .draining })
  | .tailing =>
    match receive capacity h.closed h.sent t.live with
    | none => none
    | some (.message rec, live) =>
      if rec.seq ≤ t.last then some ([], { t with live := live })
      else if t.last + 1 < rec.seq then some ([], { t with live := live, stage := .hole rec })
      else some ([rec], { t with live := live, last := rec.seq })
    | some (.lagged _, live) => some ([], { t with live := live, stage := .subscribing })
    | some (.closed, _) => some ([], { t with stage := .finished })
  | .hole rec =>
    match replay h t.last (rec.seq - t.last) with
    | .error _ => some ([], { t with stage := .finished })
    | .ok batch => some (batch.takeWhile (fun r => r.seq < rec.seq) ++ [rec],
      { t with last := rec.seq, stage := .tailing })
  | .finished => none

/-- A change in front of which some are missing is the shard's, and has a row. -/
def Sound (h : Host payload) (t : SubscribeTask ρ) : Prop :=
  ∀ rec, t.stage = .hole rec → rec = changeAt payload rec.seq ∧ t.last < rec.seq ∧ rec.seq ≤ h.stored

theorem Sound.grow (sound : Sound h t) (more : h.stored ≤ h'.stored) : Sound h' t :=
  fun rec at' => (sound rec at').imp_right fun found => found.imp_right (·.trans more)

theorem missing_follows {rec : ChangeRecord ρ} (own : rec = changeAt payload rec.seq)
    (ahead : t.last < rec.seq) (stored : rec.seq ≤ h.stored) :
    let missing := (h.rows t.last (rec.seq - t.last)).takeWhile fun r => r.seq < rec.seq
    Follows (changeAt payload) t.last (missing ++ [rec]) ∧ rec.seq = t.last + (missing ++ [rec]).length := by
  obtain ⟨k, split⟩ : ∃ k, rec.seq = t.last + 1 + k := ⟨rec.seq - t.last - 1, by omega⟩
  have count : min (rec.seq - t.last) (h.stored - t.last) = k + 1 := by omega
  have below : ∀ r ∈ (List.range' (t.last + 1) k).map (changeAt payload),
      decide (r.seq < rec.seq) = true := by
    intro r mem
    obtain ⟨n, range, rfl⟩ := List.mem_map.1 mem
    rw [List.mem_range'_1] at range
    exact decide_eq_true (show n < rec.seq by omega)
  have missing : (h.rows t.last (rec.seq - t.last)).takeWhile (fun r => r.seq < rec.seq) =
      (List.range' (t.last + 1) k).map (changeAt payload) := by
    rw [Host.rows, page, count, List.range'_concat, List.map_append, List.takeWhile_append_of_pos below]
    simp [changeAt, split]
  simp only [missing, follows_append, List.length_append, List.length_map, List.length_range',
    List.length_singleton]
  refine ⟨⟨follows_iff.2 (by simp), ?_, trivial⟩, by omega⟩
  rw [own, split, Nat.add_right_comm]

theorem step_follows (stored : replay.Stored) (sound : Sound h t) {sent : List (ChangeRecord ρ)}
    (served : t.step replay capacity h = some (sent, t')) :
    Follows (changeAt payload) t.last sent ∧ t'.last = t.last + sent.length ∧ Sound h t' := by
  unfold step at served
  split at served
  · cases served
    exact ⟨trivial, rfl, fun rec at' => by cases at'⟩
  · simp only [stored h, Option.some.injEq, Prod.mk.injEq] at served
    obtain ⟨rfl, rfl⟩ := served
    refine ⟨Host.rows_follows, ?_, fun rec at' => ?_⟩
    · cases last : (h.rows t.last replayBatch).getLast? with
      | none => simp [List.getLast?_eq_none_iff.1 last]
      | some rec => simp [Host.rows_follows.getLast? last, changeAt]
    · dsimp only at at'
      split at at' <;> cases at'
  · next tailing =>
    split at served
    · cases served
    · next rec live got =>
      obtain ⟨found, -⟩ := receive_message got
      have mem := List.mem_of_getElem? found
      split at served
      · cases served
        exact ⟨trivial, rfl, sound⟩
      · split at served
        · next ahead =>
          cases served
          refine ⟨trivial, rfl, fun rec' at' => ?_⟩
          cases at'
          exact ⟨h.eq_changeAt_of_sent mem, Nat.lt_of_succ_lt ahead, h.seq_le_of_sent mem⟩
        · cases served
          have next : rec.seq = t.last + 1 := by omega
          refine ⟨⟨?_, trivial⟩, next, fun rec at' => ?_⟩
          · rw [h.eq_changeAt_of_sent mem, next]
          · cases tailing.symm.trans at'
    · cases served
      exact ⟨trivial, rfl, fun rec at' => by cases at'⟩
    · cases served
      exact ⟨trivial, rfl, fun rec at' => by cases at'⟩
  · next rec at' =>
    simp only [stored h, Option.some.injEq, Prod.mk.injEq] at served
    obtain ⟨rfl, rfl⟩ := served
    obtain ⟨own, ahead, row⟩ := sound rec at'
    obtain ⟨follows, moved⟩ := missing_follows own ahead row
    exact ⟨follows, moved, fun rec at' => by cases at'⟩
  · cases served

/-- The task has sent what its receiver was told of, or drains the rows. -/
def Covers (h : Host payload) (t : SubscribeTask ρ) : Prop :=
  match t.stage with
  | .draining => t.live ≤ h.sent.length
  | .tailing => h.Told t.live t.last
  | .hole rec => h.Told t.live rec.seq
  | _ => True

theorem Covers.grow (covers : Covers h t) (step : Host.Step h h') : Covers h' t := by
  unfold Covers at covers ⊢
  split at covers
  · exact (Host.Told.grow (n := h.stored) ⟨covers, .inr fun _ mem => h.seq_le_of_sent mem⟩ step).1
  · exact covers.grow step
  · exact covers.grow step
  · trivial

theorem step_covers (stored : replay.Stored) (ordered : h.Ordered) (covers : Covers h t)
    {sent : List (ChangeRecord ρ)} (served : t.step replay capacity h = some (sent, t')) : Covers h t' := by
  unfold step at served
  split at served
  · cases served
    exact le_rfl
  · next draining =>
    simp only [Covers, draining] at covers
    simp only [stored h, Option.some.injEq, Prod.mk.injEq] at served
    obtain ⟨rfl, rfl⟩ := served
    by_cases more : (h.rows t.last replayBatch).length < replayBatch
    · -- the last batch comes to the end of the rows
      simp only [Covers, if_pos more]
      refine ⟨covers, .inr fun rec mem => (h.seq_le_of_sent mem).trans ?_⟩
      rw [Host.rows, length_page] at more
      cases last : (h.rows t.last replayBatch).getLast? with
      | none =>
        have none := congrArg List.length (List.getLast?_eq_none_iff.1 last)
        rw [Host.rows, length_page, List.length_nil] at none
        simp only [Option.map_none, Option.getD_none]
        unfold replayBatch at none
        omega
      | some rec =>
        rw [Host.rows_follows.getLast? last, Host.rows, length_page]
        simp only [Option.map_some, Option.getD_some, changeAt]
        omega
    · simpa only [Covers, if_neg more] using covers
  · next tailing =>
    simp only [Covers, tailing] at covers
    split at served
    · cases served
    · next rec live got =>
      obtain ⟨found, rfl⟩ := receive_message got
      split at served
      · next old =>
        cases served
        simpa only [Covers, tailing] using Host.Told.received ordered found old
      · split at served
        · cases served
          exact Host.Told.received ordered found le_rfl
        · cases served
          simpa only [Covers, tailing] using Host.Told.received ordered found le_rfl
    · cases served
      trivial
    · cases served
      trivial
  · next rec at' =>
    simp only [Covers, at'] at covers
    simp only [stored h, Option.some.injEq, Prod.mk.injEq] at served
    obtain ⟨rfl, rfl⟩ := served
    exact covers
  · cases served

end SubscribeTask

/-! ## The node's stream -/

/-- Where the loop over the replicas stands. -/
inductive Link (ρ ι : Type) where
  /-- These of the `n` candidates are left to be tried. -/
  | choosing (n : Nat) (left : List String)
  /-- A host serves, and these frames of its are on the way. -/
  | connected (host : ι) (task : SubscribeTask ρ) (frames : List (ChangeRecord ρ))

/-- The stream of changes of a shard that is hosted elsewhere. -/
structure RemoteChanges (ρ ι : Type) where
  last : Nat
  /-- How many refusals there have been in a row. -/
  refused : Nat
  link : Link ρ ι

namespace RemoteChanges

variable {hosts hosts' : ι → Host payload} {c : RemoteChanges ρ ι} {replay : Replay payload} {capacity : Nat}

def subscribe (ρ ι : Type) (fromSeq : Nat) : RemoteChanges ρ ι := ⟨fromSeq, 0, .choosing 0 []⟩

/-- A replica does not serve subscriptions: the stream ends when as many as there are have said so. -/
def refuse (c : RemoteChanges ρ ι) (n : Nat) (left : List String) : Polled ρ (RemoteChanges ρ ι) :=
  if n ≤ c.refused + 1 then .ended else .again { c with refused := c.refused + 1, link := .choosing n left }

def arrive (c : RemoteChanges ρ ι) (host : ι) (task : SubscribeTask ρ) (frame : ChangeRecord ρ)
    (frames : List (ChangeRecord ρ)) : Polled ρ (RemoteChanges ρ ι) :=
  if frame.seq ≤ c.last then .again { c with link := .connected host task frames }
  else .returned frame { c with last := frame.seq, link := .connected host task frames }

/-- A step of the stream or of the task that serves it. Which candidates there are, what becomes of a call
and when a connection breaks is up to the surroundings; whoever answers at an address is a host. -/
inductive Step (replay : Replay payload) (capacity : Nat) (hosts : ι → Host payload) :
    RemoteChanges ρ ι → Polled ρ (RemoteChanges ρ ι) → Prop where
  | candidates {c n} (addrs : List String) (link : c.link = .choosing n []) :
    Step replay capacity hosts c (.again { c with link := .choosing (max addrs.length 1) addrs })
  | unreachable {c n addr left} (link : c.link = .choosing n (addr :: left)) :
    Step replay capacity hosts c (.again { c with link := .choosing n left })
  | refused {c n addr left} (link : c.link = .choosing n (addr :: left)) :
    Step replay capacity hosts c (c.refuse n left)
  | accepted {c n addr left} (host : ι) (link : c.link = .choosing n (addr :: left)) :
    Step replay capacity hosts c
      (.again { c with refused := 0, link := .connected host (.spawn ρ c.last) [] })
  | serve {c host task frames sent task'} (link : c.link = .connected host task frames)
    (served : task.step replay capacity (hosts host) = some (sent, task')) :
    Step replay capacity hosts c (.again { c with link := .connected host task' (frames ++ sent) })
  | arrive {c host task frame frames} (link : c.link = .connected host task (frame :: frames)) :
    Step replay capacity hosts c (c.arrive host task frame frames)
  | broken {c host task frames} (link : c.link = .connected host task frames) :
    Step replay capacity hosts c (.again { c with link := .choosing 0 [] })

/-- The frames on the way are the next changes, and the task has sent the last of them. -/
def Sound (hosts : ι → Host payload) (c : RemoteChanges ρ ι) : Prop :=
  ∀ host task frames, c.link = .connected host task frames →
    Follows (changeAt payload) c.last frames ∧ task.last = c.last + frames.length ∧ task.Sound (hosts host)

theorem Sound.grow (sound : Sound hosts c) (more : ∀ i, (hosts i).stored ≤ (hosts' i).stored) :
    Sound hosts' c := by
  intro host task frames link
  obtain ⟨follows, sent, own⟩ := sound host task frames link
  exact ⟨follows, sent, own.grow (more host)⟩

theorem sound_choosing {last refused n : Nat} {left : List String} :
    Sound hosts ⟨last, refused, .choosing n left⟩ := by
  intro host task frames link
  cases link

theorem step_advances (stored : replay.Stored) (sound : Sound hosts c)
    {polled : Polled ρ (RemoteChanges ρ ι)} (step : Step replay capacity hosts c polled) :
    polled.Advances payload (Sound hosts) last c := by
  cases step with
  | candidates addrs link => exact ⟨sound_choosing, rfl⟩
  | unreachable link => exact ⟨sound_choosing, rfl⟩
  | refused link =>
    unfold refuse
    split
    · trivial
    · exact ⟨sound_choosing, rfl⟩
  | accepted host link =>
    refine ⟨fun host' task frames same => ?_, rfl⟩
    cases same
    exact ⟨trivial, rfl, fun rec at' => by cases at'⟩
  | serve link served =>
    obtain ⟨follows, sent, own⟩ := sound _ _ _ link
    obtain ⟨more, moved, own'⟩ := SubscribeTask.step_follows stored own served
    refine ⟨fun host' task frames same => ?_, rfl⟩
    cases same
    refine ⟨follows_append.2 ⟨follows, sent ▸ more⟩, ?_, own'⟩
    rw [moved, sent, List.length_append, Nat.add_assoc]
  | arrive link =>
    obtain ⟨⟨next, follows⟩, sent, own⟩ := sound _ _ _ link
    unfold arrive
    split
    · next old =>
      simp only [next, changeAt] at old
      omega
    · refine ⟨fun host' task frames same => ?_, next, by rw [next]; rfl⟩
      cases same
      rw [List.length_cons] at sent
      exact ⟨by rw [next]; exact follows, by rw [sent, next]; simp only [changeAt]; omega, own⟩
  | broken link => exact ⟨sound_choosing, rfl⟩

/-- The task that serves has sent what its receiver was told of. -/
def Covers (hosts : ι → Host payload) (c : RemoteChanges ρ ι) : Prop :=
  ∀ host task frames, c.link = .connected host task frames → task.Covers (hosts host)

theorem Covers.grow (covers : Covers hosts c)
    (moved : ∀ i, hosts' i = hosts i ∨ Host.Step (hosts i) (hosts' i)) : Covers hosts' c := by
  intro host task frames link
  obtain same | step := moved host
  · rw [same]
    exact covers host task frames link
  · exact (covers host task frames link).grow step

theorem covers_choosing {last refused n : Nat} {left : List String} :
    Covers hosts ⟨last, refused, .choosing n left⟩ := by
  intro host task frames link
  cases link

theorem step_covers (stored : replay.Stored) (ordered : ∀ i, (hosts i).Ordered) (covers : Covers hosts c)
    {c' : RemoteChanges ρ ι} {polled : Polled ρ (RemoteChanges ρ ι)}
    (step : Step replay capacity hosts c polled) (stays : polled.stream = some c') : Covers hosts c' := by
  cases step with
  | candidates addrs link =>
    cases stays
    exact covers_choosing
  | unreachable link =>
    cases stays
    exact covers_choosing
  | refused link =>
    unfold refuse at stays
    split at stays
    · cases stays
    · cases stays
      exact covers_choosing
  | accepted host link =>
    cases stays
    intro host' task frames same
    cases same
    trivial
  | serve link served =>
    cases stays
    intro host' task frames same
    cases same
    exact SubscribeTask.step_covers stored (ordered _) (covers _ _ _ link) served
  | arrive link =>
    unfold arrive at stays
    have own := covers _ _ _ link
    split at stays <;> cases stays <;> intro host' task frames same <;> cases same <;> exact own
  | broken link =>
    cases stays
    exact covers_choosing

def Waits (capacity : Nat) (hosts : ι → Host payload) (c : RemoteChanges ρ ι) (host : ι) : Prop :=
  ∃ task, c.link = .connected host task [] ∧ task.stage = .tailing ∧
    receive capacity (hosts host).closed (hosts host).sent task.live = none

theorem waits_covers {host : ι} (sound : Sound hosts c) (covers : Covers hosts c)
    (waits : Waits capacity hosts c host) : ∀ rec ∈ (hosts host).sent, rec.seq ≤ c.last := by
  obtain ⟨task, link, tailing, none⟩ := waits
  obtain ⟨-, same, -⟩ := sound _ _ _ link
  have told := covers _ _ _ link
  simp only [SubscribeTask.Covers, tailing, same, List.length_nil, Nat.add_zero] at told
  exact told.2.resolve_left fun ahead => receive_ne_none ahead none

end RemoteChanges
end Saltator.Cluster
