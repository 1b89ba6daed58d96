import Saltator.Cluster.Subscriptions
import Saltator.Room.Replay

/-!
# Following a room shard's changes

A reader of a hosted shard has a receiver on the live changes and replays the rows where it has missed
some. The tail of a shard reads from whatever serves the shard at the time, and goes on with the next
change when another does.
-/

namespace Saltator.Room

open Feed Shard Cluster

variable {ρ ι : Type} {payload : Nat → ρ}

/-! ## On a node that hosts the shard -/

/-- What a reader does next. -/
inductive RecvStage (ρ : Type) where
  | receiving
  /-- Replay what is missing in front of the change. -/
  | gap (rec : ChangeRecord ρ)
  /-- Replay what the receiver has missed. -/
  | lagged
  | resubscribing
  deriving DecidableEq

/-- A reader of a hosted shard. -/
structure LocalChanges (ρ : Type) where
  /-- The receiver's position. -/
  rx : Nat
  last : Nat
  buffer : List (ChangeRecord ρ)
  stage : RecvStage ρ
  deriving DecidableEq

namespace LocalChanges

/-- A reader from now on of what is behind the number. -/
def subscribe (h : Host payload) (fromSeq : Nat) : LocalChanges ρ := ⟨h.sent.length, fromSeq, [], .receiving⟩

/-- The next step of a call; none while it waits. A step looks at the host once, and the host may move
between two steps. -/
def poll (replay : Replay payload) (capacity : Nat) (h : Host payload) (c : LocalChanges ρ) :
    Option (Polled ρ (LocalChanges ρ)) :=
  match c.stage with
  | .receiving =>
    match c.buffer with
    | rec :: buffer => some (.returned rec { c with last := rec.seq, buffer := buffer })
    | [] =>
      match receive capacity h.closed h.sent c.rx with
      | none => none
      | some (.message rec, rx) =>
        if rec.seq ≤ c.last then some (.again { c with rx := rx })
        else if c.last + 1 < rec.seq then some (.again { c with rx := rx, stage := .gap rec })
        else some (.returned rec { c with rx := rx, last := rec.seq })
      | some (.lagged _, rx) => some (.again { c with rx := rx, stage := .lagged })
      | some (.closed, _) => some .ended
  | .gap rec =>
    match replay h c.last 256 with
    | .ok batch => some (.again { c with buffer := c.buffer ++ batch, stage := .receiving })
    | .error _ => some (.returned rec { c with last := rec.seq, stage := .receiving })
  | .lagged =>
    match replay h c.last 256 with
    | .ok (rec :: batch) => some (.again { c with buffer := c.buffer ++ rec :: batch, stage := .receiving })
    | _ => some (.again { c with stage := .resubscribing })
  | .resubscribing => some (.again { c with rx := h.sent.length, stage := .receiving })

structure Sound (payload : Nat → ρ) (c : LocalChanges ρ) : Prop where
  follows : Follows (changeAt payload) c.last c.buffer
  empty : c.stage ≠ .receiving → c.buffer = []

variable {replay : Replay payload} {capacity : Nat} {h : Host payload} {c : LocalChanges ρ}

theorem subscribe_sound (fromSeq : Nat) : Sound payload (subscribe h fromSeq) := ⟨trivial, fun _ => rfl⟩

theorem poll_advances (stored : replay.Stored) (sound : Sound payload c) {polled : Polled ρ (LocalChanges ρ)}
    (ran : c.poll replay capacity h = some polled) : polled.Advances payload (Sound payload) last c := by
  have follows := sound.follows
  unfold poll at ran
  split at ran
  · next receiving =>
    split at ran
    · next rec buffer own =>
      cases ran
      rw [own] at follows
      have next : rec.seq = c.last + 1 := congrArg ChangeRecord.seq follows.1
      exact ⟨⟨next ▸ follows.2, fun busy => absurd receiving busy⟩, follows.1, next⟩
    · next own =>
      have idle {rx : Nat} {stage : RecvStage ρ} : Sound payload ⟨rx, c.last, c.buffer, stage⟩ :=
        ⟨follows, fun _ => own⟩
      split at ran
      · cases ran
      · next rec rx got =>
        have mem := List.mem_of_getElem? (receive_message got).1
        split at ran
        · cases ran
          exact ⟨idle, rfl⟩
        · split at ran
          · cases ran
            exact ⟨idle, rfl⟩
          · cases ran
            have next : rec.seq = c.last + 1 := by omega
            refine ⟨⟨own ▸ trivial, fun _ => own⟩, ?_, next⟩
            rw [h.eq_changeAt_of_sent mem, next]
      · cases ran
        exact ⟨idle, rfl⟩
      · cases ran
        trivial
  · next rec gap =>
    have own := sound.empty (by simp [gap])
    simp only [stored h, own, List.nil_append, Option.some.injEq] at ran
    cases ran
    exact ⟨⟨Host.rows_follows, fun busy => absurd rfl busy⟩, rfl⟩
  · next lagged =>
    have own := sound.empty (by simp [lagged])
    split at ran
    · next rec batch answer =>
      cases ran
      rw [stored h] at answer
      refine ⟨⟨?_, fun busy => absurd rfl busy⟩, rfl⟩
      dsimp only
      rw [own, List.nil_append, ← Except.ok.inj answer]
      exact Host.rows_follows
    · cases ran
      exact ⟨⟨follows, fun _ => own⟩, rfl⟩
  · next resubscribing =>
    cases ran
    have own := sound.empty (by simp [resubscribing])
    exact ⟨⟨follows, fun _ => own⟩, rfl⟩

/-- As far as the changes come that the reader has at hand or has been shown. -/
def reach (c : LocalChanges ρ) : Nat :=
  match c.stage with
  | .receiving => c.last + c.buffer.length
  | .gap rec => rec.seq
  | _ => c.last

/-- A replay comes as far as the change that shows the gap, or another message will show the rest of it;
and a receiver is given up only where it has nothing left to tell. -/
def Reaches (h : Host payload) (c : LocalChanges ρ) : Prop :=
  match c.stage with
  | .gap rec => c.rx < h.sent.length ∨ rec.seq ≤ c.last + 256
  | .resubscribing => ∀ rec ∈ h.sent, rec.seq ≤ c.last
  | _ => True

/-- What the receiver was told of is within reach. -/
def Covers (h : Host payload) (c : LocalChanges ρ) : Prop := h.Told c.rx c.reach

theorem step_covers (stored : replay.Stored) (pos : 0 < capacity) (ordered : h.Ordered)
    (sound : Sound payload c) (covers : Covers h c) (reaches : Reaches h c) {c' : LocalChanges ρ}
    {polled : Polled ρ (LocalChanges ρ)} (ran : c.poll replay capacity h = some polled)
    (stays : polled.stream = some c') : Covers h c' := by
  unfold Covers reach at covers
  unfold Reaches at reaches
  unfold poll at ran
  split at ran
  · next receiving =>
    simp only [receiving] at covers
    split at ran
    · next rec buffer own =>
      cases ran
      cases stays
      have follows := sound.follows
      rw [own] at follows covers
      have next : rec.seq = c.last + 1 := congrArg ChangeRecord.seq follows.1
      refine ⟨covers.1, covers.2.imp_right fun known r mem => ?_⟩
      have := known r mem
      simp only [reach, receiving, List.length_cons] at this ⊢
      omega
    · next own =>
      simp only [own, List.length_nil, Nat.add_zero] at covers
      split at ran
      · cases ran
      · next rec rx got =>
        obtain ⟨found, rfl⟩ := receive_message got
        split at ran
        · next old =>
          cases ran
          cases stays
          simpa only [Covers, reach, receiving, own, List.length_nil, Nat.add_zero] using
            Host.Told.received ordered found old
        · split at ran
          · cases ran
            cases stays
            exact Host.Told.received ordered found le_rfl
          · cases ran
            cases stays
            simpa only [Covers, reach, receiving, own, List.length_nil, Nat.add_zero] using
              Host.Told.received ordered found le_rfl
      · next missed rx got =>
        cases ran
        cases stays
        have ahead := receive_lagged pos got
        exact ⟨ahead.le, .inl ahead⟩
      · cases ran
        cases stays
  · next rec gap =>
    have own := sound.empty (by simp [gap])
    simp only [gap] at covers reaches
    simp only [stored h, own, List.nil_append, Option.some.injEq] at ran
    cases ran
    cases stays
    refine ⟨covers.1, ?_⟩
    obtain ahead | within := reaches
    · exact .inl ahead
    · refine covers.2.imp_right fun known r mem => ?_
      have shown := known r mem
      have row := h.seq_le_of_sent mem
      simp only [reach, Host.rows, length_page]
      omega
  · next lagged =>
    have own := sound.empty (by simp [lagged])
    simp only [lagged] at covers
    split at ran
    · cases ran
      cases stays
      refine ⟨covers.1, covers.2.imp_right fun known r mem => (known r mem).trans ?_⟩
      simp only [reach]
      omega
    · cases ran
      cases stays
      exact covers
  · next resubscribing =>
    have own := sound.empty (by simp [resubscribing])
    simp only [resubscribing] at reaches
    cases ran
    cases stays
    simpa only [Covers, reach, own, List.length_nil, Nat.add_zero] using
      show h.Told h.sent.length c.last from ⟨le_rfl, .inr reaches⟩

theorem subscribe_covers {fromSeq : Nat} (given : ∀ rec ∈ h.sent, rec.seq ≤ fromSeq) :
    Covers h (subscribe h fromSeq) := ⟨le_rfl, .inr given⟩

def Waits (capacity : Nat) (h : Host payload) (c : LocalChanges ρ) : Prop :=
  c.stage = .receiving ∧ c.buffer = [] ∧ receive capacity h.closed h.sent c.rx = none

theorem waits_covers (covers : Covers h c) (waits : Waits capacity h c) : ∀ rec ∈ h.sent, rec.seq ≤ c.last := by
  obtain ⟨receiving, own, none⟩ := waits
  simp only [Covers, reach, receiving, own, List.length_nil, Nat.add_zero] at covers
  exact covers.2.resolve_left fun ahead => receive_ne_none ahead none

theorem ahead_of_covers (ordered : h.Ordered) (covers : Covers h c) (receiving : c.stage = .receiving)
    (left : ∃ rec ∈ h.sent, c.last < rec.seq) :
    c.buffer ≠ [] ∨ ∃ rec ∈ h.sent.drop c.rx, c.last < rec.seq := by
  refine or_iff_not_imp_left.2 fun own => ?_
  rw [not_not] at own
  obtain ⟨rec, mem, lt⟩ := left
  simp only [Covers, reach, receiving, own, List.length_nil, Nat.add_zero] at covers
  obtain ⟨within, ahead | known⟩ := covers
  · -- the newest of the messages is ahead
    have bound : h.sent.length - 1 < h.sent.length := by omega
    refine ⟨h.sent[h.sent.length - 1], List.mem_iff_getElem.2 ⟨h.sent.length - 1 - c.rx, ?_, ?_⟩, ?_⟩
    · rw [List.length_drop]
      omega
    · rw [List.getElem_drop]
      congr 1
      omega
    · have told := Host.Told.received ordered (List.getElem?_eq_getElem bound) le_rfl
      exact lt.trans_le (told.2.resolve_left (by omega) rec mem)
  · exact absurd (known rec mem) (by omega)

/-- A call on a host that does not move meanwhile, in at most so many steps. -/
def recv (replay : Replay payload) (capacity : Nat) (h : Host payload) :
    Nat → LocalChanges ρ → Option (ChangeRecord ρ × LocalChanges ρ)
  | 0, _ => none
  | n + 1, c =>
    match c.poll replay capacity h with
    | some (.again c') => recv replay capacity h n c'
    | some (.returned rec c') => some (rec, c')
    | _ => none

theorem recv_next (stored : replay.Stored) {n : Nat} {rec : ChangeRecord ρ} {c' : LocalChanges ρ}
    (sound : Sound payload c) (done : c.recv replay capacity h n = some (rec, c')) :
    rec = changeAt payload (c.last + 1) := by
  induction n generalizing c with
  | zero => cases done
  | succ n ih =>
    rw [recv] at done
    split at done
    · next again ran =>
      obtain ⟨sound', same⟩ := poll_advances stored sound ran
      rw [← same]
      exact ih sound' done
    · next ran =>
      cases done
      exact (poll_advances stored sound ran).2.1
    · cases done

theorem recv_buffered (stage : c.stage = .receiving) (filled : c.buffer ≠ []) :
    ∃ r, c.recv replay capacity h 1 = some r := by
  obtain ⟨rec, buffer, own⟩ := List.exists_cons_of_ne_nil filled
  exact ⟨_, by simp only [recv, poll, stage, own]; rfl⟩

theorem recv_returns (stored : replay.Stored) (stage : c.stage = .receiving)
    (ahead : c.buffer ≠ [] ∨ ∃ rec ∈ h.sent.drop c.rx, c.last < rec.seq) :
    ∃ n r, c.recv replay capacity h n = some r := by
  -- by how many messages are ahead
  induction left : h.sent.length - c.rx generalizing c with
  | zero =>
    rw [List.drop_eq_nil_of_le (by omega)] at ahead
    exact ⟨1, recv_buffered stage (ahead.resolve_right (by simp))⟩
  | succ left' ih =>
    by_cases filled : c.buffer = []
    swap
    · exact ⟨1, recv_buffered stage filled⟩
    obtain ⟨rec, mem, lt⟩ := ahead.resolve_left (not_not.2 filled)
    have behind : c.last < h.stored := lt.trans_le (h.seq_le_of_sent (List.mem_of_mem_drop mem))
    obtain ⟨first, batch, rows⟩ :=
      List.exists_cons_of_ne_nil (Host.rows_ne_nil behind (show 0 < 256 by decide))
    -- a replay has something to return
    have refilled : ∀ rx, ∃ r, recv replay capacity h 1 ⟨rx, c.last, first :: batch, .receiving⟩ = some r :=
      fun rx => recv_buffered rfl (List.cons_ne_nil _ _)
    have within : c.rx < h.sent.length := by omega
    obtain ⟨missed, got⟩ | got : _ ∨ receive capacity h.closed h.sent c.rx = _ := receive_ahead within
    · obtain ⟨r, done⟩ := refilled (h.sent.length - capacity)
      exact ⟨3, r, by simpa only [recv, poll, stage, filled, got, stored h, rows, List.nil_append] using done⟩
    · by_cases old : h.sent[c.rx].seq ≤ c.last
      · have ahead' : rec ∈ h.sent.drop (c.rx + 1) := by
          rw [List.drop_eq_getElem_cons within] at mem
          refine (List.mem_cons.1 mem).resolve_left ?_
          rintro rfl
          omega
        obtain ⟨n, r, done⟩ := ih (c := ⟨c.rx + 1, c.last, [], .receiving⟩) rfl (.inr ⟨rec, ahead', lt⟩)
          (by dsimp only; omega)
        exact ⟨n + 1, r, by simpa only [recv, poll, stage, filled, got, if_pos old] using done⟩
      · by_cases jump : c.last + 1 < h.sent[c.rx].seq
        · obtain ⟨r, done⟩ := refilled (c.rx + 1)
          exact ⟨3, r, by simpa only [recv, poll, stage, filled, got, if_neg old, if_pos jump, stored h, rows,
            List.nil_append] using done⟩
        · exact ⟨1, _, by simp only [recv, poll, stage, filled, got, if_neg old, if_neg jump]; rfl⟩

end LocalChanges

/-- A host and a reader of it move in any order, the reader where the guard lets it. -/
inductive LocalStep (replay : Replay payload) (capacity : Nat)
    (guard : Host payload → LocalChanges ρ → Prop) :
    Host payload × LocalChanges ρ → List (ChangeRecord ρ) → Host payload × LocalChanges ρ → Prop where
  | host {h h' c} (moved : Host.Step h h') : LocalStep replay capacity guard (h, c) [] (h', c)
  | again {h c c'} (lets : guard h c) (ran : c.poll replay capacity h = some (.again c')) :
    LocalStep replay capacity guard (h, c) [] (h, c')
  | returned {h c rec c'} (lets : guard h c) (ran : c.poll replay capacity h = some (.returned rec c')) :
    LocalStep replay capacity guard (h, c) [rec] (h, c')

namespace LocalStep

variable {replay : Replay payload} {capacity : Nat} {guard : Host payload → LocalChanges ρ → Prop}
  {s s' : Host payload × LocalChanges ρ} {out : List (ChangeRecord ρ)}

theorem follows (stored : replay.Stored) (sound : s.2.Sound payload)
    (step : LocalStep replay capacity guard s out s') :
    s'.2.Sound payload ∧ Follows (changeAt payload) s.2.last out ∧ s'.2.last = s.2.last + out.length := by
  cases step with
  | host moved => exact ⟨sound, trivial, rfl⟩
  | again lets ran =>
    obtain ⟨sound', same⟩ := LocalChanges.poll_advances stored sound ran
    exact ⟨sound', trivial, same⟩
  | returned lets ran =>
    obtain ⟨sound', next, moved⟩ := LocalChanges.poll_advances stored sound ran
    exact ⟨sound', ⟨next, trivial⟩, moved⟩

theorem covers (stored : replay.Stored) (pos : 0 < capacity) (ordered : s.1.Ordered)
    (sound : s.2.Sound payload) (covers : s.2.Covers s.1)
    (step : LocalStep replay capacity (fun h c => c.Reaches h) s out s') :
    s'.1.Ordered ∧ s'.2.Covers s'.1 := by
  cases step with
  | host moved => exact ⟨moved.ordered ordered, Host.Told.grow covers moved⟩
  | again lets ran =>
    exact ⟨ordered, LocalChanges.step_covers stored pos ordered sound covers lets ran rfl⟩
  | returned lets ran =>
    exact ⟨ordered, LocalChanges.step_covers stored pos ordered sound covers lets ran rfl⟩

theorem drain {h : Host payload} {c : LocalChanges ρ} (lets : ∀ h c, guard h c) (receiving : c.stage = .receiving)
    (sound : c.Sound payload) : Trace (LocalStep replay capacity guard) (h, c) c.buffer
      (h, ⟨c.rx, c.last + c.buffer.length, [], .receiving⟩) := by
  obtain ⟨rx, last, buffer, stage⟩ := c
  cases receiving
  have follows := sound.follows
  clear sound
  induction buffer generalizing last with
  | nil => exact .start _
  | cons rec buffer ih =>
    have next : rec.seq = last + 1 := congrArg ChangeRecord.seq follows.1
    have first : LocalStep replay capacity guard (h, ⟨rx, last, rec :: buffer, .receiving⟩) [rec]
        (h, ⟨rx, rec.seq, buffer, .receiving⟩) := .returned (lets _ _) rfl
    have rest := ih (last + 1) (next ▸ follows.2)
    rw [← next] at rest
    have run := Trace.append (.step (.start _) first) rest
    simpa [next, Nat.add_assoc, Nat.add_comm 1] using run

end LocalStep

/-! ## On any node -/

/-- Where a handle's shard lives. -/
inductive RoomBackend (ι : Type) where
  | hosted (host : ι)
  | remote
  deriving DecidableEq

/-- A room shard's change stream. -/
inductive RoomChanges (ρ ι : Type) where
  | hosted (host : ι) (c : LocalChanges ρ)
  | remote (c : RemoteChanges ρ ι)

def RoomBackend.changes (hosts : ι → Host payload) (backend : RoomBackend ι) (fromSeq : Nat) :
    RoomChanges ρ ι :=
  match backend with
  | .hosted host => .hosted host (.subscribe (hosts host) fromSeq)
  | .remote => .remote (.subscribe ρ ι fromSeq)

namespace RoomChanges

variable {replay : Replay payload} {capacity : Nat} {hosts hosts' : ι → Host payload} {c : RoomChanges ρ ι}

def last : RoomChanges ρ ι → Nat
  | .hosted _ c => c.last
  | .remote c => c.last

inductive Step (replay : Replay payload) (capacity : Nat) (hosts : ι → Host payload) :
    RoomChanges ρ ι → Polled ρ (RoomChanges ρ ι) → Prop where
  | hosted {host c polled} (ran : c.poll replay capacity (hosts host) = some polled) :
    Step replay capacity hosts (.hosted host c) (polled.map (.hosted host))
  | remote {c polled} (ran : RemoteChanges.Step replay capacity hosts c polled) :
    Step replay capacity hosts (.remote c) (polled.map .remote)

def Sound (hosts : ι → Host payload) : RoomChanges ρ ι → Prop
  | .hosted _ c => c.Sound payload
  | .remote c => c.Sound hosts

theorem Sound.grow (sound : Sound hosts c) (more : ∀ i, (hosts i).stored ≤ (hosts' i).stored) :
    Sound hosts' c := by
  cases c with
  | hosted host c => exact sound
  | remote c => exact RemoteChanges.Sound.grow sound more

theorem changes_sound (backend : RoomBackend ι) (fromSeq : Nat) :
    Sound hosts (backend.changes hosts fromSeq) ∧ last (backend.changes hosts fromSeq) = fromSeq := by
  cases backend with
  | hosted host => exact ⟨LocalChanges.subscribe_sound fromSeq, rfl⟩
  | remote => exact ⟨RemoteChanges.sound_choosing, rfl⟩

theorem step_advances (stored : replay.Stored) (sound : Sound hosts c) {polled : Polled ρ (RoomChanges ρ ι)}
    (step : Step replay capacity hosts c polled) : polled.Advances payload (Sound hosts) last c := by
  cases step with
  | hosted ran => exact (LocalChanges.poll_advances stored sound ran).map (fun _ own => own) fun _ => rfl
  | remote ran => exact (RemoteChanges.step_advances stored sound ran).map (fun _ own => own) fun _ => rfl

def Covers (hosts : ι → Host payload) : RoomChanges ρ ι → Prop
  | .hosted host c => c.Covers (hosts host)
  | .remote c => c.Covers hosts

/-- A reader of a shard that is hosted here misses nothing by its next step. -/
def Reaches (hosts : ι → Host payload) : RoomChanges ρ ι → Prop
  | .hosted host c => c.Reaches (hosts host)
  | .remote _ => True

def Waits (capacity : Nat) (hosts : ι → Host payload) (c : RoomChanges ρ ι) (host : ι) : Prop :=
  match c with
  | .hosted host' c => host' = host ∧ c.Waits capacity (hosts host)
  | .remote c => c.Waits capacity hosts host

theorem Covers.grow (covers : Covers hosts c)
    (moved : ∀ i, hosts' i = hosts i ∨ Host.Step (hosts i) (hosts' i)) : Covers hosts' c := by
  cases c with
  | hosted host c =>
    obtain same | step := moved host
    · show LocalChanges.Covers (hosts' host) c
      rw [same]
      exact covers
    · exact Host.Told.grow covers step
  | remote c => exact RemoteChanges.Covers.grow covers moved

theorem step_covers (stored : replay.Stored) (pos : 0 < capacity) (ordered : ∀ i, (hosts i).Ordered)
    (sound : Sound hosts c) (covers : Covers hosts c) (reaches : Reaches hosts c) {c' : RoomChanges ρ ι}
    {polled : Polled ρ (RoomChanges ρ ι)} (step : Step replay capacity hosts c polled)
    (stays : polled.stream = some c') : Covers hosts c' := by
  cases step with
  | hosted ran =>
    rw [Polled.stream_map] at stays
    obtain ⟨c', stream, rfl⟩ := Option.map_eq_some_iff.1 stays
    exact LocalChanges.step_covers stored pos (ordered _) sound covers reaches ran stream
  | remote ran =>
    rw [Polled.stream_map] at stays
    obtain ⟨c', stream, rfl⟩ := Option.map_eq_some_iff.1 stays
    exact RemoteChanges.step_covers stored ordered covers ran stream

theorem waits_covers {host : ι} (sound : Sound hosts c) (covers : Covers hosts c)
    (waits : Waits capacity hosts c host) : ∀ rec ∈ (hosts host).sent, rec.seq ≤ c.last := by
  cases c with
  | hosted host' c =>
    obtain ⟨rfl, waits⟩ := waits
    exact LocalChanges.waits_covers covers waits
  | remote c => exact RemoteChanges.waits_covers sound covers waits

end RoomChanges

/-! ## Whatever serves the shard -/

/-- One shard's change stream, whatever the slot of the shard has. -/
structure ShardTail (ρ ι : Type) where
  last : Nat
  inner : Option (RoomChanges ρ ι)
  /-- Which handle `inner` came from. -/
  src : Nat

namespace ShardTail

def tail (ρ ι : Type) (fromSeq : Nat) : ShardTail ρ ι := ⟨fromSeq, none, 0⟩

/-- Look at the slot, where the handle `ptr` is now: another one's stream is given up. -/
def resolve (hosts : ι → Host payload) (ptr : Nat) (backend : RoomBackend ι) (t : ShardTail ρ ι) :
    ShardTail ρ ι :=
  let inner := if t.src = ptr then t.inner else none
  match inner with
  | some _ => t
  | none => { t with inner := some (backend.changes hosts t.last), src := ptr }

/-- What a call makes of a step of its stream. -/
def took (t : ShardTail ρ ι) : Polled ρ (RoomChanges ρ ι) → List (ChangeRecord ρ) × ShardTail ρ ι
  | .again c => ([], { t with inner := some c })
  | .returned rec c => ([rec], { t with last := max t.last rec.seq, inner := some c })
  | .ended => ([], { t with inner := none })

end ShardTail

structure Tailed (payload : Nat → ρ) (ι : Type) where
  hosts : ι → Host payload
  ptr : Nat
  backend : RoomBackend ι
  tail : ShardTail ρ ι

namespace Tailed

variable {replay : Replay payload} {capacity : Nat} {w w' : Tailed payload ι} {out : List (ChangeRecord ρ)}
  {looks : Tailed payload ι → Prop} {reads : (ι → Host payload) → RoomChanges ρ ι → Prop}

/-- The hosts move, the slot is swapped, and the tail looks at its slot or takes a step of its stream. A call
that is given up while it waits may be followed by another at any time. Guards say where the tail may look at
its slot and read. -/
inductive Step (replay : Replay payload) (capacity : Nat) (looks : Tailed payload ι → Prop)
    (reads : (ι → Host payload) → RoomChanges ρ ι → Prop) :
    Tailed payload ι → List (ChangeRecord ρ) → Tailed payload ι → Prop where
  | hosts {w : Tailed payload ι} (hosts : ι → Host payload)
    (moved : ∀ i, hosts i = w.hosts i ∨ Host.Step (w.hosts i) (hosts i)) :
    Step replay capacity looks reads w [] { w with hosts := hosts }
  | swap {w : Tailed payload ι} (ptr : Nat) (backend : RoomBackend ι) :
    Step replay capacity looks reads w [] { w with ptr := ptr, backend := backend }
  | resolve {w : Tailed payload ι} (lets : looks w) :
    Step replay capacity looks reads w [] { w with tail := w.tail.resolve w.hosts w.ptr w.backend }
  | recv {w : Tailed payload ι} {c : RoomChanges ρ ι} {polled : Polled ρ (RoomChanges ρ ι)}
    (inner : w.tail.inner = some c) (lets : reads w.hosts c)
    (ran : RoomChanges.Step replay capacity w.hosts c polled) :
    Step replay capacity looks reads w (w.tail.took polled).1 { w with tail := (w.tail.took polled).2 }

/-- The stream that is read goes on behind the last change returned. -/
def Sound (w : Tailed payload ι) : Prop :=
  ∀ c, w.tail.inner = some c → c.Sound w.hosts ∧ c.last = w.tail.last

theorem Step.follows (stored : replay.Stored) (sound : w.Sound)
    (step : Step replay capacity looks reads w out w') :
    w'.Sound ∧ Follows (changeAt payload) w.tail.last out ∧ w'.tail.last = w.tail.last + out.length := by
  cases step with
  | hosts hosts moved =>
    have more : ∀ i, (w.hosts i).stored ≤ (hosts i).stored := by
      intro i
      rcases moved i with same | step
      · rw [same]
      · exact step.stored_le
    exact ⟨fun c inner => (sound c inner).imp_left fun own => own.grow more, trivial, rfl⟩
  | swap ptr backend => exact ⟨sound, trivial, rfl⟩
  | resolve =>
    unfold ShardTail.resolve
    dsimp only
    split
    · exact ⟨sound, trivial, rfl⟩
    · refine ⟨fun c inner => ?_, trivial, rfl⟩
      cases inner
      exact RoomChanges.changes_sound w.backend w.tail.last
  | recv inner lets ran =>
    obtain ⟨own, same⟩ := sound _ inner
    have advanced := RoomChanges.step_advances stored own ran
    rename_i polled
    cases polled with
    | again c' =>
      refine ⟨fun c inner' => ?_, trivial, rfl⟩
      cases inner'
      exact ⟨advanced.1, advanced.2.trans same⟩
    | returned rec c' =>
      obtain ⟨own', next, moved⟩ := advanced
      have seq : rec.seq = w.tail.last + 1 := by rw [next, same]; rfl
      refine ⟨fun c inner' => ?_, ⟨by rw [next, same], trivial⟩, ?_⟩
      · cases inner'
        exact ⟨own', by simp only [ShardTail.took]; omega⟩
      · simp only [ShardTail.took, List.length_singleton]
        omega
    | ended =>
      refine ⟨fun c inner' => ?_, trivial, rfl⟩
      cases inner'

/-- Where the tail goes over to a host of this node, it has been given what that has sent. -/
def Looks (w : Tailed payload ι) : Prop :=
  ∀ host, w.backend = .hosted host → (w.tail.inner = none ∨ w.tail.src ≠ w.ptr) →
    ∀ rec ∈ (w.hosts host).sent, rec.seq ≤ w.tail.last

/-- What the stream was told of is within reach. -/
structure Covers (w : Tailed payload ι) : Prop where
  ordered : ∀ i, (w.hosts i).Ordered
  covers : ∀ c, w.tail.inner = some c → c.Covers w.hosts

theorem Step.covers (stored : replay.Stored) (pos : 0 < capacity) (sound : w.Sound) (covers : w.Covers)
    (step : Step replay capacity Looks RoomChanges.Reaches w out w') : w'.Covers := by
  obtain ⟨ordered, covers⟩ := covers
  cases step with
  | hosts hosts moved =>
    refine ⟨fun i => ?_, fun c inner => (covers c inner).grow moved⟩
    obtain same | step := moved i
    · show (hosts i).Ordered
      exact same ▸ ordered i
    · exact step.ordered (ordered i)
  | swap ptr backend => exact ⟨ordered, covers⟩
  | resolve lets =>
    refine ⟨ordered, ?_⟩
    unfold ShardTail.resolve
    dsimp only
    split
    · exact covers
    · next other =>
      intro c inner
      cases inner
      cases at' : w.backend with
      | hosted host =>
        refine LocalChanges.subscribe_covers (lets host at' ?_)
        split at other
        · exact .inl other
        · next differs => exact .inr differs
      | remote => exact RemoteChanges.covers_choosing
  | @recv c polled inner lets ran =>
    refine ⟨ordered, fun c' inner' => ?_⟩
    have reached : polled.stream = some c' → c'.Covers w.hosts :=
      RoomChanges.step_covers stored pos ordered (sound _ inner).1 (covers _ inner) lets ran
    cases polled with
    | again next => exact reached inner'
    | returned rec next => exact reached inner'
    | ended => cases inner'

end Tailed

def sampleHost : Host fun n => n := ((Host.fresh fun n => n).apply 2).publish

/-- Where a gap is of more changes than a replay brings and no other message is ahead, the reader comes to wait
in front of changes that the host has sent. -/
theorem gap_loses {replay : Replay payload} {capacity : Nat} (stored : replay.Stored) {h : Host payload}
    {last : Nat} {rec : ChangeRecord ρ} (serving : h.closed = false) (row : rec.seq ≤ h.stored)
    (far : last + 256 < rec.seq) :
    ∃ out c, Trace (LocalStep replay capacity fun _ _ => True) (h, ⟨h.sent.length, last, [], .gap rec⟩) out (h, c) ∧
      c.Waits capacity h ∧ c.last = last + 256 := by
  have refilled : LocalChanges.poll replay capacity h ⟨h.sent.length, last, [], .gap rec⟩ =
      some (.again ⟨h.sent.length, last, h.rows last 256, .receiving⟩) := by
    simp only [LocalChanges.poll, stored h, List.nil_append]
  have drained := @LocalStep.drain _ _ replay capacity (fun _ _ => True) h
    ⟨h.sent.length, last, h.rows last 256, .receiving⟩ (fun _ _ => trivial) rfl
    ⟨Host.rows_follows, fun busy => absurd rfl busy⟩
  have count : (h.rows last 256).length = 256 := by
    rw [Host.rows, length_page]
    omega
  refine ⟨_, _, Trace.append (.step (.start _) (.again trivial refilled)) drained, ⟨rfl, rfl, ?_⟩, by rw [count]⟩
  simp [receive, serving]

end Saltator.Room
