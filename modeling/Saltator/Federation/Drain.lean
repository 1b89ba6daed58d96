import Saltator.User.KeyLog

/-!
# The drain of the user outbox

The outbox of ephemeral messages moves from the user shard to the federation-out shard. A pass copies
the rows above a durable marker, one destination after the other, and then raises the marker to the
highest row it read. Rows are appended meanwhile, and a pass may die anywhere. A row that is appended
to a destination after the pass has read it is passed over for good if a row of a later destination is
numbered higher (`row_passed_over`). Where that does not happen, the marker covers no row that was not
copied (`marker_covers`).
-/

namespace Saltator.User.Store

def eduOutboxDestinations (s : Store) : List String :=
  s.eduOutbox.toList.foldl (fun out row =>
    if out.getLast? = some row.1.1 then out else out ++ [row.1.1]) []

/-- The highest number of the rows, if it is higher than `n`. -/
def highest (n : Nat) (rows : List ((String × Nat) × Bytes)) : Nat :=
  rows.foldl (fun n row => max n row.1.2) n

/-- The highest number of an outbox row, `0` where there is none. -/
def eduOutboxTail (s : Store) : Nat := highest 0 s.eduOutbox.toList

def eduOutboxOf (s : Store) (destination : String) : List ((String × Nat) × Bytes) :=
  s.eduOutbox.rows fun k => k.1 = destination

section Reads

variable {s : Store} {destination : String} {row : (String × Nat) × Bytes}
  {rows : List ((String × Nat) × Bytes)}

theorem mem_eduOutboxOf :
    row ∈ s.eduOutboxOf destination ↔ row ∈ s.eduOutbox.toList ∧ row.1.1 = destination := by
  rw [eduOutboxOf, OrdMap.rows, List.mem_filter, decide_eq_true_iff]

theorem le_highest {n m : Nat} : n ≤ highest m rows ↔ n ≤ m ∨ ∃ row ∈ rows, n ≤ row.1.2 := by
  induction rows generalizing m with
  | nil => simp [highest]
  | cons row rows ih =>
    rw [highest, List.foldl_cons, ← highest, ih, le_max_iff]
    simp [or_assoc]

theorem highest_le {n m : Nat} (start : m ≤ n)
    (below : ∀ row ∈ rows, row.1.2 ≤ n) : highest m rows ≤ n := by
  obtain old | ⟨row, mem, upto⟩ := le_highest.1 (Nat.le_refl (highest m rows))
  · exact old.trans start
  · exact upto.trans (below row mem)

theorem le_eduOutboxTail (listed : row ∈ s.eduOutbox.toList) : row.1.2 ≤ s.eduOutboxTail :=
  le_highest.2 (.inr ⟨row, listed, le_rfl⟩)

end Reads

end Saltator.User.Store

namespace Saltator.Federation

open Std
open Saltator.Outcome
open User (UserCommand UserResponse SerdeJson)
open FedOut (FedOutStore FedOutCommand OutboundEdu)

/-! ## The outbox while it is drained -/

abbrev OutboxRow := (String × Nat) × User.Bytes

def OutboxRow.edu (row : OutboxRow) : OutboundEdu := ⟨row.1.1, row.2⟩

def OutboxNumbered (s : User.Store) : Prop := ∀ row ∈ s.eduOutbox.toList, row.1.2 ≤ s.seq

/-- Every row was there, or has a new number. -/
def OutboxGrows (s t : User.Store) : Prop :=
  s.seq ≤ t.seq ∧ ∀ row ∈ t.eduOutbox.toList, row ∈ s.eduOutbox.toList ∨ s.seq < row.1.2 ∧ row.1.2 ≤ t.seq

section Outbox

variable {serde : SerdeJson} {e s t u : User.Store} {r : UserResponse}

theorem OutboxGrows.of_eq (seq : s.seq ≤ t.seq) (same : t.eduOutbox = s.eduOutbox) : OutboxGrows s t :=
  ⟨seq, fun _ listed => .inl (same ▸ listed)⟩

theorem OutboxGrows.trans (first : OutboxGrows s t) (second : OutboxGrows t u) : OutboxGrows s u := by
  refine ⟨first.1.trans second.1, fun row listed => ?_⟩
  obtain old | ⟨above, upto⟩ := second.2 row listed
  · obtain old | ⟨above, upto⟩ := first.2 row old
    · exact .inl old
    · exact .inr ⟨above, upto.trans second.1⟩
  · exact .inr ⟨first.1.trans_lt above, upto⟩

theorem OutboxNumbered.grows (numbered : OutboxNumbered s) (grows : OutboxGrows s t) :
    OutboxNumbered t := by
  intro row listed
  obtain old | ⟨-, upto⟩ := grows.2 row listed
  · exact (numbered row old).trans grows.1
  · exact upto

theorem OutboxGrows.queueEdu (s : User.Store) (edu : User.OutboundEdu) :
    OutboxGrows s (User.Machine.queueEdu s edu) := by
  refine ⟨Nat.le_succ _, ?_⟩
  rintro ⟨k, json⟩ listed
  have stored := OrdMap.mem_toList.1 listed
  simp only [User.Machine.queueEdu, User.Store.emitUserChange, OrdMap.getElem?_insert'] at stored
  split at stored
  · rename_i new
    obtain rfl := new
    exact .inr ⟨Nat.lt_succ_self _, le_rfl⟩
  · exact .inl (OrdMap.mem_toList.2 stored)

theorem OutboxGrows.eraseRows {rows : List OutboxRow} :
    OutboxGrows s { s with eduOutbox := s.eduOutbox.eraseRows rows } := by
  refine ⟨le_rfl, ?_⟩
  rintro ⟨k, json⟩ listed
  have stored := OrdMap.mem_toList.1 listed
  simp only [OrdMap.getElem?_eraseRows] at stored
  split at stored
  · cases stored
  · exact .inl (OrdMap.mem_toList.2 stored)

theorem OutboxGrows.apply {cmd : UserCommand}
    (applied : User.Machine.apply serde e s cmd = .ok (t, r)) : OutboxGrows s t := by
  have shape := User.Machine.apply_frame applied
  have seq := User.seq_le_apply applied
  cases cmd with
  | queueOutboundEdus entries =>
    obtain rfl := User.Machine.eq_of_ok applied
    exact List.foldlRecOn (motive := OutboxGrows s) entries _ (.of_eq le_rfl rfl)
      fun t ih edu _ => ih.trans (.queueEdu t edu)
  | ackOutboundEdus destination upTo =>
    obtain rfl := User.Machine.eq_of_ok applied
    exact .eraseRows
  | _ => exact .of_eq seq (by rw [shape]; rfl)

theorem OutboxGrows.migrate {target : Nat} (migrated : User.Machine.migrate e s target = .ok t) :
    OutboxGrows s t := by
  unfold User.Machine.migrate at migrated
  split at migrated
  · obtain rfl := Except.ok.inj migrated
    exact .eraseRows
  · have shape := User.Machine.migrateAccounts_frame migrated
    exact .of_eq (by rw [shape]) (by rw [shape])
  · obtain rfl := Except.ok.inj migrated
    exact .of_eq le_rfl rfl
  · have shape := User.Machine.migrateTokens_frame migrated
    exact .of_eq (by rw [shape]) (by rw [shape])
  · obtain rfl := Except.ok.inj migrated
    exact .of_eq le_rfl rfl
  · cases migrated

end Outbox

/-! ## Drain passes -/

/-- Where a pass stands, and what it has read. -/
inductive Drain where
  | start
  | marked (marker : Nat)
  | tailed (marker tail : Nat)
  /-- `dests` are read next; `entries` are the rows above the marker that were read. -/
  | reading (marker tail maxSeq : Nat) (dests : List String) (entries : List OutboxRow)
  | marking (tail maxSeq : Nat)
  /-- Whether nothing remains undrained. -/
  | done (covered : Bool)
  deriving DecidableEq

/-- The two shards, the passes under way, and the rows that were enqueued so far. -/
structure DrainWorld where
  users : User.Store
  fedOut : FedOutStore
  passes : List Drain
  enqueued : List OutboxRow

namespace DrainWorld

def init : DrainWorld := ⟨.empty, .empty, [], []⟩

def enqueue (w : DrainWorld) (entries : List OutboxRow) : DrainWorld :=
  { w with
    fedOut := FedOut.apply w.fedOut w.fedOut (.enqueueEdus (entries.map OutboxRow.edu))
    enqueued := w.enqueued ++ entries }

/-- `drain_user_outbox_once`, from one read or write to the next. -/
def drain (w : DrainWorld) : Drain → DrainWorld × Drain
  | .start => (w, .marked w.fedOut.drainMarker)
  | .marked marker =>
    if w.users.eduOutboxTail ≤ marker then (w, .done true)
    else (w, .tailed marker w.users.eduOutboxTail)
  | .tailed marker tail => (w, .reading marker tail marker w.users.eduOutboxDestinations [])
  | .reading marker tail maxSeq (dest :: dests) entries =>
    let rows := (w.users.eduOutboxOf dest).filter fun row => marker < row.1.2
    (w, .reading marker tail (User.Store.highest maxSeq rows) dests (entries ++ rows))
  | .reading _ tail maxSeq [] entries =>
    (if entries = [] then w else w.enqueue entries, .marking tail maxSeq)
  | .marking tail maxSeq =>
    ({ w with fedOut := FedOut.apply w.fedOut w.fedOut (.setDrainMarker maxSeq) }, .done (tail ≤ maxSeq))
  | .done covered => (w, .done covered)

/-- What happens next. -/
inductive Act where
  | user (engine : User.Store) (cmd : UserCommand)
  | migrate (engine : User.Store) (target : Nat)
  /-- A command that is not of a drain pass. -/
  | fedOut (engine : FedOutStore) (cmd : FedOutCommand)
  | spawn
  | advance (i : Nat)
  /-- A pass fails or dies at its next read or write, which may have taken effect. -/
  | broken (i : Nat) (acted : Bool)

def setsMarker : FedOutCommand → Bool
  | .setDrainMarker _ => true
  | _ => false

def step (serde : SerdeJson) (w : DrainWorld) : Act → Option DrainWorld
  | .user engine cmd =>
    (User.Machine.apply serde engine w.users cmd).toOption.map fun x => { w with users := x.1 }
  | .migrate engine target =>
    (User.Machine.migrate engine w.users target).toOption.map fun users => { w with users }
  | .fedOut engine cmd =>
    if setsMarker cmd then none else some { w with fedOut := FedOut.apply engine w.fedOut cmd }
  | .spawn => some { w with passes := .start :: w.passes }
  | .advance i => w.passes[i]?.map fun p =>
    { (w.drain p).1 with passes := w.passes.set i (w.drain p).2 }
  | .broken i acted => w.passes[i]?.map fun p =>
    { if acted then (w.drain p).1 else w with passes := w.passes.eraseIdx i }

/-- When the pass reads its next destination, every row above the marker that is numbered below one of
the rows it reads is among them, of a destination to be read yet, or read already. -/
def CleanRead (w : DrainWorld) : Drain → Prop
  | .reading marker _ _ (dest :: dests) entries =>
    ∀ row ∈ w.users.eduOutbox.toList, marker < row.1.2 →
      (∃ read ∈ w.users.eduOutboxOf dest, row.1.2 ≤ read.1.2) →
        row.1.1 = dest ∨ row.1.1 ∈ dests ∨ row ∈ entries
  | _ => True

def Clean (w : DrainWorld) : Act → Prop
  | .advance i => ∀ p ∈ w.passes[i]?, w.CleanRead p
  | _ => True

instance CleanRead.instDecidable (w : DrainWorld) (p : Drain) : Decidable (w.CleanRead p) := by
  unfold CleanRead
  split <;> infer_instance

instance Clean.instDecidable (w : DrainWorld) (act : Act) : Decidable (w.Clean act) := by
  unfold Clean
  split <;> infer_instance

/-- The worlds that steps lead to, each of them meeting `P` at its place. -/
inductive Reached (serde : SerdeJson) (P : DrainWorld → Act → Prop) : DrainWorld → Prop
  | init : Reached serde P init
  | step {w w' : DrainWorld} {act : Act} (before : Reached serde P w) (meets : P w act)
      (moved : w.step serde act = some w') : Reached serde P w'

/-! ## What the marker covers -/

structure Later (w w' : DrainWorld) : Prop where
  users : OutboxGrows w.users w'.users
  marker : w.fedOut.drainMarker ≤ w'.fedOut.drainMarker
  enqueued : ∀ row ∈ w.enqueued, row ∈ w'.enqueued

/-- What a pass has seen to. -/
def Holds (w : DrainWorld) : Drain → Prop
  | .start | .done _ => True
  | .marked marker | .tailed marker _ => marker ≤ w.fedOut.drainMarker
  | .reading marker _ maxSeq dests entries =>
    marker ≤ w.fedOut.drainMarker ∧ maxSeq ≤ w.users.seq ∧ ∀ row ∈ w.users.eduOutbox.toList,
      marker < row.1.2 → row.1.2 ≤ maxSeq → row.1.1 ∈ dests ∨ row ∈ entries
  | .marking _ maxSeq =>
    maxSeq ≤ w.users.seq ∧ ∀ row ∈ w.users.eduOutbox.toList, row.1.2 ≤ maxSeq → row ∈ w.enqueued

structure Covered (w : DrainWorld) : Prop where
  numbered : OutboxNumbered w.users
  marker : w.fedOut.drainMarker ≤ w.users.seq
  covered : ∀ row ∈ w.users.eduOutbox.toList, row.1.2 ≤ w.fedOut.drainMarker → row ∈ w.enqueued
  published : ∀ row ∈ w.enqueued, ∃ n, (n, row.2) ∈ w.fedOut.emits

section Spec

variable {serde : SerdeJson} {w w' : DrainWorld} {p : Drain}

theorem Later.refl (w : DrainWorld) : Later w w := ⟨.of_eq le_rfl rfl, le_rfl, fun _ mem => mem⟩

theorem Holds.later (holds : w.Holds p) (later : Later w w') : w'.Holds p := by
  cases p with
  | start => exact trivial
  | marked marker => exact Nat.le_trans holds later.marker
  | tailed marker tail => exact Nat.le_trans holds later.marker
  | reading marker tail maxSeq dests entries =>
    obtain ⟨below, counted, seen⟩ := holds
    refine ⟨below.trans later.marker, counted.trans later.users.1, fun row listed above upto => ?_⟩
    obtain old | ⟨new, -⟩ := later.users.2 row listed
    · exact seen row old above upto
    · omega
  | marking tail maxSeq =>
    obtain ⟨counted, seen⟩ := holds
    refine ⟨counted.trans later.users.1, fun row listed upto => ?_⟩
    obtain old | ⟨new, -⟩ := later.users.2 row listed
    · exact later.enqueued row (seen row old upto)
    · omega
  | done covered => exact trivial

theorem Covered.users {users : User.Store} (h : Covered w) (grows : OutboxGrows w.users users) :
    Covered { w with users } := by
  refine ⟨h.numbered.grows grows, h.marker.trans grows.1, fun row listed below => ?_, h.published⟩
  obtain old | ⟨new, -⟩ := grows.2 row listed
  · exact h.covered row old below
  · have := h.marker
    dsimp only at below
    omega

theorem foldl_enqueue (entries : List OutboundEdu) (s : FedOutStore) :
    (entries.foldl FedOutStore.enqueue s).drain = s.drain ∧
      (∀ x ∈ s.emits, x ∈ (entries.foldl FedOutStore.enqueue s).emits) ∧
      ∀ edu ∈ entries, ∃ n, (n, edu.json) ∈ (entries.foldl FedOutStore.enqueue s).emits := by
  induction entries generalizing s with
  | nil => simp
  | cons edu entries ih =>
    obtain ⟨marker, kept, published⟩ := ih (s.enqueue edu)
    refine ⟨marker, fun x mem => kept x (List.mem_append_left _ mem), fun edu' mem => ?_⟩
    obtain rfl | mem := List.mem_cons.1 mem
    · exact ⟨s.seq + 1, kept _ (List.mem_append_right _ (List.mem_singleton_self _))⟩
    · exact published edu' mem

theorem apply_marker {engine s : FedOutStore} {cmd : FedOutCommand} (other : setsMarker cmd = false) :
    (FedOut.apply engine s cmd).drain = s.drain ∧ ∀ x ∈ s.emits, x ∈ (FedOut.apply engine s cmd).emits := by
  cases cmd with
  | enqueueEdus entries =>
    obtain ⟨marker, kept, -⟩ := foldl_enqueue entries s
    exact ⟨marker, kept⟩
  | ackEdus destination upTo => exact ⟨rfl, fun _ mem => mem⟩
  | setDrainMarker upTo => cases other
  | advancePduCursor roomShard destination upTo =>
    simp only [FedOut.apply]
    split <;> exact ⟨rfl, fun _ mem => mem⟩
  | advanceAsCursor asId roomShard upTo =>
    simp only [FedOut.apply]
    split <;> exact ⟨rfl, fun _ mem => mem⟩

theorem Covered.fedOut {fedOut : FedOutStore} (h : Covered w) (marker : fedOut.drain = w.fedOut.drain)
    (kept : ∀ x ∈ w.fedOut.emits, x ∈ fedOut.emits) : Covered { w with fedOut } := by
  have same : fedOut.drainMarker = w.fedOut.drainMarker := by
    rw [FedOutStore.drainMarker, marker, FedOutStore.drainMarker]
  refine ⟨h.numbered, same.trans_le h.marker, fun row listed below => ?_, fun row mem => ?_⟩
  · exact h.covered row listed (below.trans_eq same)
  · obtain ⟨n, published⟩ := h.published row mem
    exact ⟨n, kept _ published⟩

theorem Covered.enqueue (h : Covered w) (entries : List OutboxRow) :
    Covered (w.enqueue entries) ∧ Later w (w.enqueue entries) := by
  obtain ⟨marker, kept, published⟩ := foldl_enqueue (entries.map OutboxRow.edu) w.fedOut
  have same : (w.enqueue entries).fedOut.drainMarker = w.fedOut.drainMarker := by
    rw [FedOutStore.drainMarker, FedOutStore.drainMarker, ← marker]
    rfl
  refine ⟨⟨h.numbered, same.trans_le h.marker, fun row listed below => ?_, fun row mem => ?_⟩,
    .of_eq le_rfl rfl, same.ge, fun row mem => List.mem_append_left _ mem⟩
  · exact List.mem_append_left _ (h.covered row listed (below.trans_eq same))
  · obtain old | new := List.mem_append.1 mem
    · obtain ⟨n, was⟩ := h.published row old
      exact ⟨n, kept _ was⟩
    · exact published row.edu (List.mem_map_of_mem new)

theorem Covered.setDrainMarker {upTo : Nat} (h : Covered w) (counted : upTo ≤ w.users.seq)
    (seen : ∀ row ∈ w.users.eduOutbox.toList, row.1.2 ≤ upTo → row ∈ w.enqueued) :
    Covered { w with fedOut := FedOut.apply w.fedOut w.fedOut (.setDrainMarker upTo) } ∧
      Later w { w with fedOut := FedOut.apply w.fedOut w.fedOut (.setDrainMarker upTo) } := by
  simp only [FedOut.apply]
  split
  · rename_i raised
    exact ⟨⟨h.numbered, counted, seen, h.published⟩, .of_eq le_rfl rfl, raised.le, fun _ mem => mem⟩
  · exact ⟨h, .refl w⟩

theorem Covered.drain (h : Covered w) (holds : w.Holds p) :
    Covered (w.drain p).1 ∧ Later w (w.drain p).1 := by
  cases p with
  | start => exact ⟨h, .refl w⟩
  | marked marker =>
    simp only [DrainWorld.drain]
    split <;> exact ⟨h, .refl w⟩
  | tailed marker tail => exact ⟨h, .refl w⟩
  | reading marker tail maxSeq dests entries =>
    cases dests with
    | cons dest dests => exact ⟨h, .refl w⟩
    | nil =>
      simp only [DrainWorld.drain]
      split
      · exact ⟨h, .refl w⟩
      · exact h.enqueue entries
  | marking tail maxSeq => exact h.setDrainMarker holds.1 holds.2
  | done covered => exact ⟨h, .refl w⟩

theorem Holds.drain (h : Covered w) (holds : w.Holds p) (clean : w.CleanRead p) :
    (w.drain p).1.Holds (w.drain p).2 := by
  cases p with
  | start => exact Nat.le_refl _
  | marked marker =>
    simp only [DrainWorld.drain]
    split
    · exact trivial
    · exact holds
  | tailed marker tail =>
    have counted : marker ≤ w.users.seq := Nat.le_trans holds h.marker
    refine ⟨holds, counted, fun row _ above upto => ?_⟩
    omega
  | reading marker tail maxSeq dests entries =>
    obtain ⟨below, counted, seen⟩ := holds
    cases dests with
    | nil =>
      -- All rows up to the highest that was read are collected or below the marker.
      have collected : ∀ row ∈ w.users.eduOutbox.toList, row.1.2 ≤ maxSeq →
          row ∈ w.enqueued ++ entries := by
        intro row listed upto
        by_cases above : marker < row.1.2
        · obtain none | read := seen row listed above upto
          · cases none
          · exact List.mem_append_right _ read
        · exact List.mem_append_left _ (h.covered row listed (by omega))
      simp only [DrainWorld.drain]
      split
      · rename_i empty
        exact ⟨counted, by simpa [empty] using collected⟩
      · exact ⟨counted, collected⟩
    | cons dest dests =>
      refine ⟨below, ?_, fun row listed above upto => ?_⟩
      · refine User.Store.highest_le counted fun read mem => h.numbered read ?_
        exact (User.Store.mem_eduOutboxOf.1 (List.mem_of_mem_filter mem)).1
      have seenTo : row.1.1 = dest ∨ row.1.1 ∈ dests ∨ row ∈ entries := by
        obtain old | ⟨read, mem, new⟩ := User.Store.le_highest.1 upto
        · obtain ahead | read := seen row listed above old
          · obtain same | ahead := List.mem_cons.1 ahead
            · exact .inl same
            · exact .inr (.inl ahead)
          · exact .inr (.inr read)
        · exact clean row listed above ⟨read, List.mem_of_mem_filter mem, new⟩
      obtain own | ahead | read := seenTo
      · refine .inr (List.mem_append_right _ (List.mem_filter.2 ⟨?_, by simpa using above⟩))
        exact User.Store.mem_eduOutboxOf.2 ⟨listed, own⟩
      · exact .inl ahead
      · exact .inr (List.mem_append_left _ read)
  | marking tail maxSeq => exact trivial
  | done covered => exact trivial

/-- The invariant of a run. -/
def Safe (w : DrainWorld) : Prop := Covered w ∧ ∀ p ∈ w.passes, w.Holds p

theorem Safe.step {act : Act} (safe : Safe w) (clean : w.Clean act)
    (moved : w.step serde act = some w') : Safe w' := by
  obtain ⟨h, passes⟩ := safe
  cases act with
  | user engine cmd =>
    obtain ⟨⟨users, r⟩, applied, rfl⟩ := Option.map_eq_some_iff.1 moved
    have grows := OutboxGrows.apply (toOption_eq_some.1 applied)
    exact ⟨h.users grows, fun p mem => (passes p mem).later ⟨grows, le_rfl, fun _ mem => mem⟩⟩
  | migrate engine target =>
    obtain ⟨users, migrated, rfl⟩ := Option.map_eq_some_iff.1 moved
    have grows := OutboxGrows.migrate (toOption_eq_some.1 migrated)
    exact ⟨h.users grows, fun p mem => (passes p mem).later ⟨grows, le_rfl, fun _ mem => mem⟩⟩
  | fedOut engine cmd =>
    simp only [DrainWorld.step] at moved
    split at moved
    · cases moved
    · rename_i other
      obtain rfl := Option.some.inj moved
      obtain ⟨marker, kept⟩ := apply_marker (Bool.eq_false_iff.2 other)
      refine ⟨h.fedOut marker kept, fun p mem => (passes p mem).later ⟨.of_eq le_rfl rfl, ?_, fun _ mem => mem⟩⟩
      exact (congrArg (·.getD 0) marker).ge
  | spawn =>
    obtain rfl := Option.some.inj moved
    refine ⟨⟨h.numbered, h.marker, h.covered, h.published⟩, fun p mem => ?_⟩
    obtain rfl | mem := List.mem_cons.1 mem
    · exact trivial
    · exact (passes p mem).later ⟨.of_eq le_rfl rfl, le_rfl, fun _ mem => mem⟩
  | advance i =>
    obtain ⟨p, found, rfl⟩ := Option.map_eq_some_iff.1 moved
    have holds := passes p (List.mem_of_getElem? found)
    obtain ⟨covered, later⟩ := h.drain holds
    have next := holds.drain h (clean p found)
    refine ⟨⟨covered.numbered, covered.marker, covered.covered, covered.published⟩, fun q mem => ?_⟩
    obtain mem | rfl := List.mem_or_eq_of_mem_set mem
    · exact ((passes q mem).later later).later ⟨.of_eq le_rfl rfl, le_rfl, fun _ mem => mem⟩
    · exact next.later ⟨.of_eq le_rfl rfl, le_rfl, fun _ mem => mem⟩
  | broken i acted =>
    obtain ⟨p, found, rfl⟩ := Option.map_eq_some_iff.1 moved
    have holds := passes p (List.mem_of_getElem? found)
    obtain ⟨covered, later⟩ : Covered (if acted then (w.drain p).1 else w) ∧
        Later w (if acted then (w.drain p).1 else w) := by
      split
      · exact h.drain holds
      · exact ⟨h, .refl w⟩
    refine ⟨⟨covered.numbered, covered.marker, covered.covered, covered.published⟩, fun q mem => ?_⟩
    have mem := List.mem_of_mem_eraseIdx mem
    exact ((passes q mem).later later).later ⟨.of_eq le_rfl rfl, le_rfl, fun _ mem => mem⟩

theorem Safe.init : Safe init := by
  refine ⟨⟨fun row listed => ?_, le_rfl, fun row listed => ?_, fun row mem => ?_⟩, fun p mem => ?_⟩
  · cases listed
  · cases listed
  · cases mem
  · cases mem

/-- Where every destination is read cleanly, a row that the marker covers was enqueued, and published by
the federation-out shard. So once the marker covers the tail, nothing is lost with the outbox. -/
theorem marker_covers (reached : Reached serde Clean w) :
    (∀ row ∈ w.users.eduOutbox.toList, row.1.2 ≤ w.fedOut.drainMarker →
      row ∈ w.enqueued ∧ ∃ n, (n, row.2) ∈ w.fedOut.emits) ∧
    (w.users.eduOutboxTail ≤ w.fedOut.drainMarker →
      ∀ row ∈ w.users.eduOutbox.toList, row ∈ w.enqueued) := by
  have safe : Safe w := by
    induction reached with
    | init => exact .init
    | step before clean moved ih => exact ih.step clean moved
  refine ⟨fun row listed below => ?_, fun gate row listed => ?_⟩
  · have enqueued := safe.1.covered row listed below
    exact ⟨enqueued, safe.1.published row enqueued⟩
  · exact safe.1.covered row listed ((User.Store.le_eduOutboxTail listed).trans gate)

end Spec

/-! ## Sample runs -/

section Samples

variable {serde : SerdeJson} {P : DrainWorld → Act → Prop} [∀ w act, Decidable (P w act)]

/-- Steps one after another, each of them meeting `P`. -/
def run (serde : SerdeJson) (P : DrainWorld → Act → Prop) [∀ w act, Decidable (P w act)]
    (w : DrainWorld) (acts : List Act) : Option DrainWorld :=
  acts.foldlM (fun w act => if P w act then w.step serde act else none) w

theorem Reached.run {acts : List Act} {w w' : DrainWorld} (reached : Reached serde P w)
    (ran : w.run serde P acts = some w') : Reached serde P w' := by
  induction acts generalizing w with
  | nil =>
    obtain rfl : w = w' := Option.some.inj ran
    exact reached
  | cons act acts ih =>
    obtain ⟨next, moved, rest⟩ := Option.bind_eq_some_iff.1 ran
    dsimp only at moved
    split at moved
    · rename_i meets
      exact ih (reached.step meets moved) rest
    · cases moved

def sampleEdus (destinations : List String) : Act :=
  .user .empty (.queueOutboundEdus (destinations.map fun d => ⟨d, [1]⟩))

def samplePass (between : List Act) : List Act :=
  [sampleEdus ["a", "b"], .spawn, .advance 0, .advance 0, .advance 0, .advance 0] ++ between ++
    [.advance 0, .advance 0, .advance 0]

theorem marker_covers_sample : ∃ w, Reached .sample Clean w ∧ w.fedOut.drainMarker = 2 ∧
    ((∀ row ∈ w.users.eduOutbox.toList, row.1.2 ≤ w.fedOut.drainMarker →
      row ∈ w.enqueued ∧ ∃ n, (n, row.2) ∈ w.fedOut.emits) ∧
    (w.users.eduOutboxTail ≤ w.fedOut.drainMarker →
      ∀ row ∈ w.users.eduOutbox.toList, row ∈ w.enqueued)) := by
  have h : (init.run .sample Clean (samplePass [])).any
      (fun w => w.fedOut.drainMarker = 2) = true := by decide +kernel
  obtain ⟨w, ran, marked⟩ := (Option.any_eq_true _ _).1 h
  have reached := Reached.init.run ran
  exact ⟨w, reached, of_decide_eq_true marked, marker_covers reached⟩

/-- A row is appended to `a`, which was read, and one to `b`, which is read next. The marker covers
both, and so the whole outbox, and one of them was never enqueued. -/
theorem row_passed_over : ∃ w, Reached .sample (fun _ _ => True) w ∧
    w.users.eduOutboxTail ≤ w.fedOut.drainMarker ∧
    ∃ row ∈ w.users.eduOutbox.toList, row.1.2 ≤ w.fedOut.drainMarker ∧ row ∉ w.enqueued := by
  have h : (init.run .sample (fun _ _ => True) (samplePass [sampleEdus ["a", "b"]])).any
      (fun w => w.users.eduOutboxTail ≤ w.fedOut.drainMarker ∧
        ∃ row ∈ w.users.eduOutbox.toList, row.1.2 ≤ w.fedOut.drainMarker ∧ row ∉ w.enqueued) =
        true := by decide +kernel
  obtain ⟨w, ran, lost⟩ := (Option.any_eq_true _ _).1 h
  exact ⟨w, Reached.init.run ran, of_decide_eq_true lost⟩

end Samples

end DrainWorld

end Saltator.Federation
