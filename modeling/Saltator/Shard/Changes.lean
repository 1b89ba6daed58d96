import Saltator.Lib.Feed
import Saltator.Shard.Context

/-!
# The change stream of a shard

Every replica of a shard applies the same changes, each under its number. A node that hosts a replica
keeps the changes it has applied as rows, and sends those of a batch to its subscribers once the batch is
written. A snapshot that is installed brings rows that are never sent.
-/

namespace Saltator.Shard

open Feed

/-- A change as subscribers get it. -/
structure ChangeRecord (ρ : Type) where
  seq : Nat
  payload : ρ
  deriving DecidableEq

variable {ρ : Type} {payload : Nat → ρ}

def changeAt (payload : Nat → ρ) (n : Nat) : ChangeRecord ρ := ⟨n, payload n⟩

def changeStreamCapacity : Nat := 1024

/-- A hosted replica as its subscribers see it. -/
structure Host (payload : Nat → ρ) where
  /-- The number of the last change that has a row. -/
  stored : Nat
  /-- What has been written, and is to be sent. -/
  pending : List (ChangeRecord ρ)
  /-- What has been sent. -/
  sent : List (ChangeRecord ρ)
  /-- Whether every sender of the channel is gone. -/
  closed : Bool
  /-- Only what has a row is sent. -/
  written : ∀ rec ∈ sent ++ pending, rec = changeAt payload rec.seq ∧ rec.seq ≤ stored

namespace Host

variable {h h' : Host payload} {rec : ChangeRecord ρ} {fromSeq limit : Nat}

/-- A replica that has applied nothing. -/
def fresh (payload : Nat → ρ) : Host payload := ⟨0, [], [], false, by simp⟩

/-- A batch that publishes so many changes is written. -/
def apply (h : Host payload) (count : Nat) : Host payload where
  stored := h.stored + count
  pending := page (changeAt payload) (h.stored + count) h.stored count
  sent := h.sent
  closed := h.closed
  written rec mem := by
    rcases List.mem_append.1 mem with before | now
    · obtain ⟨same, le⟩ := h.written rec (List.mem_append_left _ before)
      exact ⟨same, by omega⟩
    · obtain ⟨n, range, rfl⟩ := List.mem_map.1 now
      rw [List.mem_range'_1] at range
      exact ⟨rfl, by simp only [changeAt]; omega⟩

/-- The next of the batch's changes is sent. -/
def publish (h : Host payload) : Host payload where
  stored := h.stored
  pending := h.pending.drop 1
  sent := h.sent ++ h.pending.take 1
  closed := h.closed
  written := by simpa only [List.append_assoc, List.take_append_drop] using h.written

/-- The rows up to the number come with a snapshot. -/
def install (h : Host payload) (n : Nat) (newer : h.stored ≤ n) : Host payload where
  stored := n
  pending := h.pending
  sent := h.sent
  closed := h.closed
  written rec mem := (h.written rec mem).imp_right (·.trans newer)

def close (h : Host payload) : Host payload := { h with closed := true }

/-- What happens to a host. No batch is applied and no snapshot is installed before all of the last batch
has been sent. -/
inductive Step : Host payload → Host payload → Prop where
  | apply (h : Host payload) (count : Nat) (idle : h.pending = []) : Step h (h.apply count)
  | publish (h : Host payload) : Step h h.publish
  | install (h : Host payload) (n : Nat) (newer : h.stored ≤ n) (idle : h.pending = []) :
    Step h (h.install n newer)
  | close (h : Host payload) : Step h h.close

theorem Step.stored_le (step : Step h h') : h.stored ≤ h'.stored := by
  cases step with
  | apply count => exact Nat.le_add_right _ _
  | publish => exact le_rfl
  | install n newer => exact newer
  | close => exact le_rfl

/-- What has happened to a replica since it was fresh. -/
def Reached (h : Host payload) : Prop := Relation.ReflTransGen Step (fresh payload) h

/-- Changes are sent in their order. -/
def Ordered (h : Host payload) : Prop := (h.sent ++ h.pending).Pairwise fun a b => a.seq < b.seq

theorem Step.ordered (ordered : h.Ordered) (step : Step h h') : h'.Ordered := by
  cases step with
  | apply count idle =>
    rw [Ordered, idle, List.append_nil] at ordered
    refine List.pairwise_append.2 ⟨ordered, ?_, fun a sent b now => ?_⟩
    · exact List.Pairwise.map _ (fun _ _ lt => lt) List.pairwise_lt_range'
    · obtain ⟨n, range, rfl⟩ := List.mem_map.1 now
      rw [List.mem_range'_1] at range
      have before := (h.written a (List.mem_append_left _ sent)).2
      simp only [changeAt]
      omega
  | publish =>
    show ((h.sent ++ h.pending.take 1) ++ h.pending.drop 1).Pairwise fun a b => a.seq < b.seq
    rwa [List.append_assoc, List.take_append_drop]
  | install n newer idle => exact ordered
  | close => exact ordered

theorem Reached.ordered (reached : h.Reached) : h.Ordered := by
  induction reached with
  | refl => exact List.Pairwise.nil
  | tail _ step ih => exact step.ordered ih

/-- A receiver at the position has messages ahead, or none of what was sent is behind the number. -/
def Told (h : Host payload) (position n : Nat) : Prop :=
  position ≤ h.sent.length ∧ (position < h.sent.length ∨ ∀ rec ∈ h.sent, rec.seq ≤ n)

theorem Told.grow {position n : Nat} (told : h.Told position n) (step : Step h h') :
    h'.Told position n := by
  cases step with
  | apply count idle => exact told
  | publish =>
    obtain ⟨within, known⟩ := told
    cases next : h.pending with
    | nil => simpa [Told, publish, next] using And.intro within known
    | cons rec pending =>
      refine ⟨?_, .inl ?_⟩ <;> simp only [publish, next, List.take_succ_cons, List.length_append,
        List.length_cons] <;> omega
  | install n newer idle => exact told
  | close => exact told

theorem Told.received {position n : Nat} (ordered : h.Ordered) (at' : h.sent[position]? = some rec)
    (known : rec.seq ≤ n) : h.Told (position + 1) n := by
  obtain ⟨within, rfl⟩ := List.getElem?_eq_some_iff.1 at'
  refine ⟨within, (Nat.lt_or_ge (position + 1) h.sent.length).imp_right fun end' rec mem => ?_⟩
  obtain ⟨i, bound, rfl⟩ := List.mem_iff_getElem.1 mem
  obtain same | before : i = position ∨ i < position := by omega
  · simpa only [same] using known
  · have sorted := (List.pairwise_append.1 ordered).1
    exact (List.pairwise_iff_getElem.1 sorted i position bound within before).le.trans known

theorem eq_changeAt_of_sent (h : Host payload) (mem : rec ∈ h.sent) : rec = changeAt payload rec.seq :=
  (h.written rec (List.mem_append_left _ mem)).1

theorem seq_le_of_sent (h : Host payload) (mem : rec ∈ h.sent) : rec.seq ≤ h.stored :=
  (h.written rec (List.mem_append_left _ mem)).2

def rows (h : Host payload) (fromSeq limit : Nat) : List (ChangeRecord ρ) :=
  page (changeAt payload) h.stored fromSeq limit

theorem rows_follows : Follows (changeAt payload) fromSeq (h.rows fromSeq limit) :=
  page_follows

theorem rows_ne_nil (more : fromSeq < h.stored) (pos : 0 < limit) : h.rows fromSeq limit ≠ [] :=
  page_ne_nil more pos

end Host

/-- The answers of a handle that is asked to rebuild the changes behind a number. -/
abbrev Replay (payload : Nat → ρ) : Type :=
  Host payload → Nat → Nat → Except ShardError (List (ChangeRecord ρ))

/-- It answers with the rows. -/
def Replay.Stored (replay : Replay payload) : Prop :=
  ∀ h fromSeq limit, replay h fromSeq limit = .ok (h.rows fromSeq limit)

def Replay.ofRows (payload : Nat → ρ) : Replay payload := fun h fromSeq limit => .ok (h.rows fromSeq limit)

theorem Replay.ofRows_stored : (ofRows payload).Stored := fun _ _ _ => rfl

/-- What a step of a stream of changes comes to. -/
inductive Polled (ρ σ : Type) where
  | again (c : σ)
  | returned (rec : ChangeRecord ρ) (c : σ)
  /-- There will be no more changes. -/
  | ended
  deriving DecidableEq

def Polled.stream {σ : Type} : Polled ρ σ → Option σ
  | .again c => some c
  | .returned _ c => some c
  | .ended => none

def Polled.Advances {σ : Type} (payload : Nat → ρ) (I : σ → Prop) (last : σ → Nat) (c : σ) :
    Polled ρ σ → Prop
  | .again c' => I c' ∧ last c' = last c
  | .returned rec c' => I c' ∧ rec = changeAt payload (last c + 1) ∧ last c' = last c + 1
  | .ended => True

/-- The step of a stream within another. -/
def Polled.map {σ τ : Type} (f : σ → τ) : Polled ρ σ → Polled ρ τ
  | .again c => .again (f c)
  | .returned rec c => .returned rec (f c)
  | .ended => .ended

theorem Polled.stream_map {σ τ : Type} {f : σ → τ} {polled : Polled ρ σ} :
    (polled.map f).stream = polled.stream.map f := by
  cases polled <;> rfl

theorem Polled.Advances.map {σ τ : Type} {I : σ → Prop} {J : τ → Prop} {last : σ → Nat} {last' : τ → Nat}
    {c : σ} {polled : Polled ρ σ} {f : σ → τ} (keeps : ∀ c, I c → J (f c)) (same : ∀ c, last' (f c) = last c)
    (h : polled.Advances payload I last c) : (polled.map f).Advances payload J last' (f c) := by
  cases polled with
  | again c' => exact ⟨keeps c' h.1, by rw [same, same, h.2]⟩
  | returned rec c' => exact ⟨keeps c' h.1, by rw [same, h.2.1], by rw [same, same, h.2.2]⟩
  | ended => trivial

end Saltator.Shard
