import Saltator.Federation.Destinations
import Saltator.Room.Replay

/-!
# The delivery worker

Events are sent to other servers from the room's timeline. A pass reads a window of the timeline
behind the worker's floor, looks the destinations of each event up, queues the event for those whose
durable cursor it lies behind, and sends the queues. The floor then moves up, but not past what a
destination has left. It is held in memory: a node that gains leadership starts from the lowest
cursor, or from the end of the timeline where there is no cursor yet.

A destination has a cursor only once it has acknowledged something. So an event that failed on first
contact may lie below every cursor when leadership moves (`first_contact_lost`), and a read that fails
counts as an event without destinations. Where neither happens, no event is passed over
(`none_passed_over`).
-/

namespace Saltator.Federation

open Std
open Room (Store SeqEntry RoomCommand)
open FedOut (FedOutStore FedOutCommand)

/-- Timeline entries examined in a pass. -/
def scanBatch : Nat := 256

/-- Events in a transaction. -/
def maxPdusPerTxn : Nat := 50

/-- What is to be sent to a destination, by timeline number. -/
abbrev SendQueue := List (Nat × JsonObject)

/-- Up to `limit` timeline entries behind `start`. -/
def timelineFrom (s : Store) (start limit : Nat) : List (Nat × SeqEntry) :=
  (s.timeline.rows fun seq => start < seq).take limit

def initialScanPos (cursors : List ((Nat × String) × Nat)) (roomShard tip : Nat) : Nat :=
  ((cursors.filter fun c => c.1.1 = roomShard).map Prod.snd).min?.getD tip

/-! ## A pass -/

structure Scan where
  cursors : OrdMap String Nat
  queues : OrdMap String SendQueue

namespace Scan

def empty : Scan := ⟨∅, ∅⟩

def queueOf (scan : Scan) (dest : String) : SendQueue := (scan.queues[dest]?).getD []

/-- The cursor is read once in a pass. A destination without one is taken to be just before the
event. -/
def cursorOf (scan : Scan) (durable : Option Nat) (seq : Nat) (dest : String) : Nat :=
  (scan.cursors[dest]?).getD (durable.getD (seq - 1))

/-- Queue an event for a destination, unless it was delivered before. -/
def enqueue (durable : String → Option Nat) (seq : Nat) (raw : JsonObject) (scan : Scan)
    (dest : String) : Scan :=
  let cursor := scan.cursorOf (durable dest) seq dest
  let scan := { scan with cursors := scan.cursors.insert dest cursor }
  if seq ≤ cursor then scan
  else { scan with queues := scan.queues.insert dest (scan.queueOf dest ++ [(seq, raw)]) }

end Scan

/-- The delivery of one destination's queue. -/
structure Sending where
  dest : String
  /-- The last event that the destination has acknowledged, as far as the pass knows. -/
  acked : Nat
  queued : SendQueue

namespace Sending

def chunk (t : Sending) : SendQueue := t.queued.take maxPdusPerTxn

def last (t : Sending) : Nat := (t.chunk.getLast?.map Prod.fst).getD t.acked

/-- The next transaction has been acknowledged. -/
def delivered (t : Sending) : Sending :=
  { t with acked := t.last, queued := t.queued.drop maxPdusPerTxn }

end Sending

def Scan.sendings (scan : Scan) : List Sending :=
  scan.queues.toList.map fun q => ⟨q.1, (scan.cursors[q.1]?).getD 0, q.2⟩

/-- Where a worker stands in its pass. -/
inductive Stage where
  | idle
  /-- `rows` are examined next, the last of which is numbered `last`. -/
  | scanning (rows : List (Nat × SeqEntry)) (last : Nat) (scan : Scan)
  /-- `newFloor` has been pulled back by the deliveries that stopped short. -/
  | sending (newFloor : Nat) (tasks : List Sending)

structure Worker where
  floor : Nat
  stage : Stage

/-! ## The window of a pass -/

section Window

variable {s : Store} {start limit n : Nat} {entry : SeqEntry} {row r : Nat × SeqEntry}

theorem mem_timelineFrom (mem : r ∈ timelineFrom s start limit) :
    s.timeline[r.1]? = some r.2 ∧ start < r.1 := by
  obtain ⟨found, above⟩ := OrdMap.mem_rows.1 (List.mem_of_mem_take mem)
  exact ⟨found, of_decide_eq_true above⟩

theorem timelineRows_sorted (s : Store) (start : Nat) :
    (s.timeline.rows fun seq => start < seq).Pairwise fun a b => a.1 < b.1 := by
  refine (ExtTreeMap.ordered_keys_toList.filter _).imp fun less => ?_
  exact Nat.compare_eq_lt.1 less

theorem timelineFrom_sorted : (timelineFrom s start limit).Pairwise fun a b => a.1 < b.1 :=
  (timelineRows_sorted s start).sublist (List.take_sublist _ _)

theorem timelineFrom_le_last (last : (timelineFrom s start limit).getLast? = some row)
    (mem : r ∈ timelineFrom s start limit) : r.1 ≤ row.1 := by
  obtain ⟨front, same⟩ := List.getLast?_eq_some_iff.1 last
  have sorted : (front ++ [row]).Pairwise fun a b => a.1 < b.1 := same ▸ timelineFrom_sorted
  rw [same] at mem
  obtain before | final := List.mem_append.1 mem
  · exact ((List.pairwise_append.1 sorted).2.2 r before row (List.mem_singleton_self row)).le
  · rw [List.mem_singleton.1 final]

theorem mem_timelineFrom_of_le (last : (timelineFrom s start limit).getLast? = some row)
    (found : s.timeline[n]? = some entry) (above : start < n) (upto : n ≤ row.1) :
    (n, entry) ∈ timelineFrom s start limit := by
  have listed : (n, entry) ∈ s.timeline.rows fun seq => start < seq :=
    OrdMap.mem_rows.2 ⟨found, decide_eq_true above⟩
  have sorted := timelineRows_sorted s start
  rw [← List.take_append_drop limit (s.timeline.rows fun seq => start < seq)] at listed sorted
  obtain inside | beyond := List.mem_append.1 listed
  · exact inside
  · have less := (List.pairwise_append.1 sorted).2.2 row (List.mem_of_getLast? last) _ beyond
    exact absurd upto (Nat.not_le_of_lt less)

end Window

/-! ## Runs -/

/-- The room shard, the federation-out shard and the workers. Beside them stands what has happened:
the end of the timeline when delivery first ran, the destinations that each examination found, and
the events that each destination acknowledged. -/
structure DeliveryWorld where
  rooms : Store
  fedOut : FedOutStore
  /-- The workers of nodes that lead the federation-out shard, or did. -/
  workers : List Worker
  /-- Cursors that were proposed, and may be applied. -/
  proposed : List (String × Nat)
  start : Option Nat
  examined : List (Nat × List String)
  acked : List (String × Nat)

namespace DeliveryWorld

def before (rooms : Store) : DeliveryWorld := ⟨rooms, .empty, [], [], none, [], []⟩

/-- What happens next. -/
inductive Act where
  | room (engine : Store) (cmd : RoomCommand)
  /-- A command that is not of a delivery to the room shard's destinations. -/
  | fedOut (engine : FedOutStore) (cmd : FedOutCommand)
  /-- A node gains leadership, and reads the cursors and the end of the timeline as far as that goes
  through. -/
  | gain (cursorsRead tipRead : Bool)
  /-- A node loses leadership, or dies. -/
  | lose (i : Nat)
  | scan (i : Nat)
  /-- The next row is examined. A read may fail, and so may the reads of some cursors. -/
  | examine (i : Nat) (fault : Option ReadFault) (cursorFaults : List String)
  /-- The queues go out. -/
  | fan (i : Nat)
  /-- A destination acknowledges the next transaction, or it does not, be it that it is not tried. -/
  | send (i k : Nat) (acknowledged : Bool)
  /-- A proposed cursor is applied. -/
  | advance (j : Nat)
  | finish (i : Nat)

section Model

variable (ruma : Ruma) (serverName : String) (roomShard fuel : Nat)

def Readable (w : DeliveryWorld) (room : RoomId) (id : EventId) : Prop :=
  (w.rooms.event[id]?).isSome ∧
    (Room.Serving.remoteServersInRoom ruma w.rooms fuel room serverName).toOption.isSome

instance Readable.instDecidable (w : DeliveryWorld) (room : RoomId) (id : EventId) :
    Decidable (w.Readable ruma serverName fuel room id) := by
  unfold Readable
  infer_instance

def knownCursors (w : DeliveryWorld) (cursorsRead : Bool) : List ((Nat × String) × Nat) :=
  if cursorsRead then w.fedOut.pduCursors else []

def durable (w : DeliveryWorld) (cursorFaults : List String) (dest : String) : Option Nat :=
  if dest ∈ cursorFaults then none else w.fedOut.pduCursorOf roomShard dest

def setWorker (w : DeliveryWorld) (i : Nat) (worker : Worker) : DeliveryWorld :=
  { w with workers := w.workers.set i worker }

def examineRow (w : DeliveryWorld) (fault : Option ReadFault) (cursorFaults : List String)
    (row : Nat × SeqEntry) (scan : Scan) : DeliveryWorld × Scan :=
  match row.2 with
  | .receipt .. => (w, scan)
  | .event room id =>
    match eventDestinations ruma serverName w.rooms fuel room id fault with
    | none => (w, scan)
    | some (raw, dests) =>
      (if fault = none ∧ w.Readable ruma serverName fuel room id then
          { w with examined := (row.1, dests) :: w.examined }
        else w,
        dests.foldl (Scan.enqueue (w.durable roomShard cursorFaults) row.1 raw) scan)

def sendChunk (w : DeliveryWorld) (t : Sending) : DeliveryWorld :=
  { w with
    acked := t.chunk.map (fun q => (t.dest, q.1)) ++ w.acked
    proposed := (t.dest, t.last) :: w.proposed }

def advancesCursor : FedOutCommand → Bool
  | .advancePduCursor shard _ _ => shard == roomShard
  | _ => false

def step (w : DeliveryWorld) : Act → Option DeliveryWorld
  | .room engine cmd =>
    (Room.Machine.apply engine w.rooms cmd).toOption.map fun x => { w with rooms := x.1 }
  | .fedOut engine cmd =>
    if advancesCursor roomShard cmd then none
    else some { w with fedOut := FedOut.apply engine w.fedOut cmd }
  | .gain cursorsRead tipRead =>
    let tip := if tipRead then w.rooms.seq else 0
    some { w with
      start := some (w.start.getD w.rooms.seq)
      workers := ⟨initialScanPos (w.knownCursors cursorsRead) roomShard tip, .idle⟩ :: w.workers }
  | .lose i => some { w with workers := w.workers.eraseIdx i }
  | .scan i =>
    match w.workers[i]? with
    | some ⟨floor, .idle⟩ =>
      let batch := timelineFrom w.rooms floor scanBatch
      match batch.getLast? with
      | none => some w
      | some row => some (w.setWorker i ⟨floor, .scanning batch row.1 .empty⟩)
    | _ => none
  | .examine i fault cursorFaults =>
    match w.workers[i]? with
    | some ⟨floor, .scanning (row :: rows) last scan⟩ =>
      let next := w.examineRow ruma serverName roomShard fuel fault cursorFaults row scan
      some (next.1.setWorker i ⟨floor, .scanning rows last next.2⟩)
    | _ => none
  | .fan i =>
    match w.workers[i]? with
    | some ⟨floor, .scanning [] last scan⟩ =>
      some (w.setWorker i ⟨floor, .sending last scan.sendings⟩)
    | _ => none
  | .send i k acknowledged =>
    match w.workers[i]? with
    | some ⟨floor, .sending newFloor tasks⟩ =>
      match tasks[k]? with
      | none => none
      | some t =>
        if acknowledged then
          let tasks := if t.delivered.queued = [] then tasks.eraseIdx k else tasks.set k t.delivered
          some ((w.sendChunk t).setWorker i ⟨floor, .sending newFloor tasks⟩)
        else some (w.setWorker i ⟨floor, .sending (min newFloor t.acked) (tasks.eraseIdx k)⟩)
    | _ => none
  | .advance j =>
    (w.proposed[j]?).map fun p =>
      { w with fedOut := FedOut.apply w.fedOut w.fedOut (.advancePduCursor roomShard p.1 p.2) }
  | .finish i =>
    match w.workers[i]? with
    | some ⟨floor, .sending newFloor []⟩ => some (w.setWorker i ⟨max newFloor floor, .idle⟩)
    | _ => none

end Model

/-! ## What is outstanding -/

/-- An event of the timeline that appeared after delivery first ran. -/
def Appeared (w : DeliveryWorld) (n : Nat) : Prop :=
  (∃ room id, w.rooms.timeline[n]? = some (.event room id)) ∧ ∃ start, w.start = some start ∧ start < n

def Examined (w : DeliveryWorld) (n : Nat) : Prop := ∃ dests, (n, dests) ∈ w.examined

/-- The server has acknowledged the event, or was not among its destinations when it was examined. -/
def Done (w : DeliveryWorld) (n : Nat) (dest : String) : Prop :=
  (dest, n) ∈ w.acked ∨ ∃ dests, (n, dests) ∈ w.examined ∧ dest ∉ dests

/-- The event is not examined yet, or has a destination that has not acknowledged it. -/
def Outstanding (w : DeliveryWorld) (n : Nat) : Prop :=
  w.Appeared n ∧ ¬ (w.Examined n ∧ ∀ dest, w.Done n dest)

/-- A worker that starts now passes over nothing that is outstanding: delivery has not run before, or
neither cursors nor the end of the timeline can be read, or a cursor that can be read lies below. -/
def Resumable (roomShard : Nat) (w : DeliveryWorld) (cursorsRead tipRead : Bool) : Prop :=
  w.start = none ∨
    (tipRead = false ∧ ∀ c ∈ w.knownCursors cursorsRead, c.1.1 ≠ roomShard) ∨
    ∀ n, w.Outstanding n → ∃ c ∈ w.knownCursors cursorsRead, c.1.1 = roomShard ∧ c.2 < n

/-- The event and its destinations can be read when it is examined, and a worker that starts does so
below what is outstanding. -/
def Clean (ruma : Ruma) (serverName : String) (roomShard fuel : Nat) (w : DeliveryWorld) : Act → Prop
  | .gain cursorsRead tipRead => w.Resumable roomShard cursorsRead tipRead
  | .examine i fault _ => ∀ floor seq room id rows last scan,
    w.workers[i]? = some ⟨floor, .scanning ((seq, .event room id) :: rows) last scan⟩ →
      fault = none ∧ w.Readable ruma serverName fuel room id
  | _ => True

/-- The worlds that steps lead to, each of them meeting `P` at its place. -/
inductive Reached (ruma : Ruma) (serverName : String) (roomShard fuel : Nat)
    (P : DeliveryWorld → Act → Prop) : DeliveryWorld → Prop
  | init : Reached ruma serverName roomShard fuel P (before .empty)
  | step {w w' : DeliveryWorld} {act : Act} (reached : Reached ruma serverName roomShard fuel P w)
      (meets : P w act) (moved : w.step ruma serverName roomShard fuel act = some w') :
      Reached ruma serverName roomShard fuel P w'

/-- Everything up to a number is examined and seen to, as far as the destination goes. -/
structure Upto (w : DeliveryWorld) (dest : String) (c : Nat) : Prop where
  bound : c ≤ w.rooms.seq
  seen : ∀ n, w.Appeared n → n ≤ c → w.Examined n ∧ w.Done n dest

/-- What time keeps. -/
structure Later (w w' : DeliveryWorld) : Prop where
  rooms : Room.Extends w.rooms w'.rooms
  start : ∀ a, w'.start = some a → w.start = some a ∨ w.start = none ∧ w.rooms.seq ≤ a
  examined : ∀ x ∈ w.examined, x ∈ w'.examined
  acked : ∀ x ∈ w.acked, x ∈ w'.acked

section Later

variable {w w' : DeliveryWorld} {n c : Nat} {dest : String}

theorem Appeared.earlier (h : w'.Appeared n) (later : Later w w') (old : n ≤ w.rooms.seq) :
    w.Appeared n := by
  obtain ⟨⟨room, id, row⟩, start, started, above⟩ := h
  refine ⟨⟨room, id, (later.rooms.rows n old).symm.trans row⟩, start, ?_, above⟩
  obtain same | ⟨-, new⟩ := later.start start started
  · exact same
  · omega

theorem Examined.later (h : w.Examined n) (later : Later w w') : w'.Examined n := by
  obtain ⟨dests, mem⟩ := h
  exact ⟨dests, later.examined _ mem⟩

theorem Done.later (h : w.Done n dest) (later : Later w w') : w'.Done n dest := by
  obtain acked | ⟨dests, mem, other⟩ := h
  · exact .inl (later.acked _ acked)
  · exact .inr ⟨dests, later.examined _ mem, other⟩

theorem Upto.later (h : w.Upto dest c) (later : Later w w') : w'.Upto dest c := by
  refine ⟨h.bound.trans later.rooms.seq, fun n appeared upto => ?_⟩
  have old := appeared.earlier later (upto.trans h.bound)
  exact ⟨(h.seen n old upto).1.later later, (h.seen n old upto).2.later later⟩

end Later

/-! ## What a worker holds -/

/-- The cursors of a pass are right, and its queues in order, up to a row. -/
structure ScanSound (w : DeliveryWorld) (upto : Nat) (scan : Scan) : Prop where
  cursors : ∀ dest c, scan.cursors[dest]? = some c → w.Upto dest c
  known : ∀ dest, scan.queueOf dest ≠ [] → ∃ c, scan.cursors[dest]? = some c
  sorted : ∀ dest, (scan.queueOf dest).Pairwise fun a b => a.1 ≤ b.1
  low : ∀ dest, ∀ q ∈ scan.queueOf dest, q.1 ≤ upto

/-- The event is examined, and seen to or queued for every destination. -/
def Covers (w : DeliveryWorld) (n : Nat) (scan : Scan) : Prop :=
  w.Examined n ∧ ∀ dest, w.Done n dest ∨ ∃ q ∈ scan.queueOf dest, q.1 = n

structure Scanning (w : DeliveryWorld) (rows : List (Nat × SeqEntry)) (last : Nat) (scan : Scan) :
    Prop where
  sorted : rows.Pairwise fun a b => a.1 < b.1
  held : ∀ row ∈ rows, row.1 ≤ last ∧ w.rooms.timeline[row.1]? = some row.2
  bound : last ≤ w.rooms.seq
  behind : ∃ upto ≤ last, w.ScanSound upto scan ∧ ∀ row ∈ rows, upto < row.1
  covered : ∀ n, w.Appeared n → n ≤ last → (∃ row ∈ rows, row.1 = n) ∨ w.Covers n scan

structure TaskSound (w : DeliveryWorld) (last : Nat) (t : Sending) : Prop where
  sorted : t.queued.Pairwise fun a b => a.1 ≤ b.1
  low : ∀ q ∈ t.queued, q.1 ≤ last
  acked : w.Upto t.dest t.acked
  covered : ∀ n, w.Appeared n → n ≤ last → w.Examined n ∧ (w.Done n t.dest ∨ ∃ q ∈ t.queued, q.1 = n)

structure Delivering (w : DeliveryWorld) (newFloor : Nat) (tasks : List Sending) (last : Nat) :
    Prop where
  floor : newFloor ≤ last
  bound : last ≤ w.rooms.seq
  left : ∀ t ∈ tasks, w.TaskSound last t
  settled : ∀ n, w.Appeared n → n ≤ newFloor →
    w.Examined n ∧ ∀ dest, w.Done n dest ∨ ∃ t ∈ tasks, t.dest = dest

def StageSound (w : DeliveryWorld) : Stage → Prop
  | .idle => True
  | .scanning rows last scan => w.Scanning rows last scan
  | .sending newFloor tasks => ∃ last, w.Delivering newFloor tasks last

/-- Nothing outstanding lies at or below the floor. -/
structure WorkerSound (w : DeliveryWorld) (worker : Worker) : Prop where
  floor : ∀ dest, w.Upto dest worker.floor
  stage : w.StageSound worker.stage

structure Sound (roomShard : Nat) (w : DeliveryWorld) : Prop where
  journal : Room.Journal w.rooms
  cursors : ∀ dest c, w.fedOut.pduCursorOf roomShard dest = some c → w.Upto dest c
  proposed : ∀ p ∈ w.proposed, w.Upto p.1 p.2
  workers : ∀ worker ∈ w.workers, w.WorkerSound worker

section Sound

variable {w w' : DeliveryWorld} {scan : Scan} {roomShard : Nat} {worker : Worker}

theorem ScanSound.later {upto : Nat} (h : w.ScanSound upto scan) (later : Later w w') :
    w'.ScanSound upto scan :=
  { h with cursors := fun dest c cached => (h.cursors dest c cached).later later }

theorem Covers.later {n : Nat} (h : w.Covers n scan) (later : Later w w') : w'.Covers n scan := by
  refine ⟨h.1.later later, fun dest => ?_⟩
  obtain done | queued := h.2 dest
  · exact .inl (done.later later)
  · exact .inr queued

theorem Scanning.later {rows : List (Nat × SeqEntry)} {last : Nat} (h : w.Scanning rows last scan)
    (later : Later w w') : w'.Scanning rows last scan where
  sorted := h.sorted
  held row mem := by
    refine ⟨(h.held row mem).1, ?_⟩
    rw [later.rooms.rows row.1 ((h.held row mem).1.trans h.bound)]
    exact (h.held row mem).2
  bound := h.bound.trans later.rooms.seq
  behind := by
    obtain ⟨upto, le, sound, ahead⟩ := h.behind
    exact ⟨upto, le, sound.later later, ahead⟩
  covered n appeared upto := by
    obtain left | covers := h.covered n (appeared.earlier later (upto.trans h.bound)) upto
    · exact .inl left
    · exact .inr (covers.later later)

theorem TaskSound.later {last : Nat} {t : Sending} (h : w.TaskSound last t) (later : Later w w')
    (bound : last ≤ w.rooms.seq) : w'.TaskSound last t where
  sorted := h.sorted
  low := h.low
  acked := h.acked.later later
  covered n appeared upto := by
    obtain ⟨examined, done | queued⟩ :=
      h.covered n (appeared.earlier later (upto.trans bound)) upto
    · exact ⟨examined.later later, .inl (done.later later)⟩
    · exact ⟨examined.later later, .inr queued⟩

theorem Delivering.later {newFloor last : Nat} {tasks : List Sending}
    (h : w.Delivering newFloor tasks last) (later : Later w w') :
    w'.Delivering newFloor tasks last where
  floor := h.floor
  bound := h.bound.trans later.rooms.seq
  left t mem := (h.left t mem).later later h.bound
  settled n appeared upto := by
    obtain ⟨examined, rest⟩ :=
      h.settled n (appeared.earlier later ((upto.trans h.floor).trans h.bound)) upto
    refine ⟨examined.later later, fun dest => ?_⟩
    obtain done | task := rest dest
    · exact .inl (done.later later)
    · exact .inr task

theorem WorkerSound.later (h : w.WorkerSound worker) (later : Later w w') : w'.WorkerSound worker := by
  refine ⟨fun dest => (h.floor dest).later later, ?_⟩
  have stage := h.stage
  cases worked : worker.stage with
  | idle => trivial
  | scanning rows last scan =>
    rw [worked] at stage
    exact Scanning.later stage later
  | sending newFloor tasks =>
    rw [worked] at stage
    obtain ⟨last, delivering⟩ := stage
    exact ⟨last, delivering.later later⟩

theorem Sound.next (h : w.Sound roomShard) (later : Later w w')
    (cursors : ∀ dest c, w'.fedOut.pduCursorOf roomShard dest = some c →
      w.fedOut.pduCursorOf roomShard dest = some c ∨ w'.Upto dest c)
    (proposed : ∀ p ∈ w'.proposed, p ∈ w.proposed ∨ w'.Upto p.1 p.2)
    (workers : ∀ worker ∈ w'.workers, worker ∈ w.workers ∨ w'.WorkerSound worker) :
    w'.Sound roomShard where
  journal := later.rooms.journal
  cursors dest c held := by
    obtain old | new := cursors dest c held
    · exact (h.cursors dest c old).later later
    · exact new
  proposed p mem := by
    obtain old | new := proposed p mem
    · exact (h.proposed p old).later later
    · exact new
  workers worker mem := by
    obtain old | new := workers worker mem
    · exact (h.workers worker old).later later
    · exact new

theorem Later.of_eq (journal : Room.Journal w.rooms) (rooms : w'.rooms = w.rooms)
    (start : w'.start = w.start) (examined : ∀ x ∈ w.examined, x ∈ w'.examined)
    (acked : ∀ x ∈ w.acked, x ∈ w'.acked) : Later w w' := by
  refine ⟨by rw [rooms]; exact .refl journal, fun a started => .inl (start ▸ started), examined, acked⟩

theorem Sound.setWorker {i : Nat} (h : w.Sound roomShard)
    (sound : w.WorkerSound worker) : (w.setWorker i worker).Sound roomShard := by
  have later : Later w (w.setWorker i worker) :=
    .of_eq h.journal rfl rfl (fun _ mem => mem) fun _ mem => mem
  refine h.next later (fun dest c held => .inl held) (fun p mem => .inl mem) fun other mem => ?_
  obtain old | rfl := List.mem_or_eq_of_mem_set mem
  · exact .inl old
  · exact .inr (sound.later later)

end Sound

end DeliveryWorld

/-! ## Queueing an event -/

namespace Scan

variable {durable : String → Option Nat} {seq : Nat} {raw : JsonObject} {scan : Scan} {dest d : String}

theorem cursors_enqueue : (scan.enqueue durable seq raw dest).cursors[d]? =
    if d = dest then some (scan.cursorOf (durable dest) seq dest) else scan.cursors[d]? := by
  unfold enqueue
  dsimp only
  split <;> exact OrdMap.getElem?_insert'

theorem queueOf_enqueue : (scan.enqueue durable seq raw dest).queueOf d =
    if d = dest ∧ scan.cursorOf (durable dest) seq dest < seq then
      scan.queueOf d ++ [(seq, raw)]
    else scan.queueOf d := by
  unfold enqueue
  dsimp only
  split
  · rename_i old
    rw [if_neg (by omega)]
    rfl
  · rename_i new
    by_cases same : d = dest
    · subst same
      rw [if_pos ⟨rfl, Nat.lt_of_not_le new⟩]
      simp [queueOf]
    · rw [if_neg (fun h => same h.1)]
      simp only [queueOf, OrdMap.getElem?_insert', if_neg same]

end Scan

namespace DeliveryWorld

section Examine

variable {w : DeliveryWorld} {durable : String → Option Nat} {seq : Nat} {raw : JsonObject}
  {scan : Scan} {dest : String}

theorem ScanSound.enqueue (raw : JsonObject) (h : w.ScanSound seq scan)
    (read : ∀ c, durable dest = some c → w.Upto dest c)
    (fresh : scan.cursors[dest]? = none → w.Upto dest (seq - 1)) :
    w.ScanSound seq (scan.enqueue durable seq raw dest) ∧ (w.Appeared seq →
      w.Done seq dest ∨ ∃ q ∈ (scan.enqueue durable seq raw dest).queueOf dest, q.1 = seq) := by
  have cursor : w.Upto dest (scan.cursorOf (durable dest) seq dest) := by
    unfold Scan.cursorOf
    cases cached : scan.cursors[dest]? with
    | some c => exact h.cursors dest c cached
    | none =>
      cases found : durable dest with
      | some c => exact read c found
      | none => exact fresh cached
  refine ⟨⟨fun d c cached => ?_, fun d nonempty => ?_, fun d => ?_, fun d q mem => ?_⟩, ?_⟩
  · rw [Scan.cursors_enqueue] at cached
    split at cached
    · rename_i same
      cases cached
      exact same ▸ cursor
    · exact h.cursors d c cached
  · rw [Scan.cursors_enqueue]
    split
    · exact ⟨_, rfl⟩
    · rename_i other
      rw [Scan.queueOf_enqueue, if_neg (fun h => other h.1)] at nonempty
      exact h.known d nonempty
  · rw [Scan.queueOf_enqueue]
    split
    · refine List.pairwise_append.2 ⟨h.sorted d, List.pairwise_singleton _ _, ?_⟩
      rintro a mem b new
      obtain rfl := List.mem_singleton.1 new
      exact h.low d a mem
    · exact h.sorted d
  · rw [Scan.queueOf_enqueue] at mem
    split at mem
    · obtain old | new := List.mem_append.1 mem
      · exact h.low d q old
      · obtain rfl := List.mem_singleton.1 new
        exact le_rfl
    · exact h.low d q mem
  · intro appeared
    rw [Scan.queueOf_enqueue]
    by_cases new : scan.cursorOf (durable dest) seq dest < seq
    · rw [if_pos ⟨rfl, new⟩]
      exact .inr ⟨(seq, raw), by simp, rfl⟩
    · exact .inl (cursor.seen seq appeared (Nat.le_of_not_lt new)).2

theorem queueOf_foldl_enqueue {dests : List String} {q : Nat × JsonObject}
    (mem : q ∈ scan.queueOf dest) :
    q ∈ (dests.foldl (Scan.enqueue durable seq raw) scan).queueOf dest := by
  refine List.foldlRecOn (motive := fun scan : Scan => q ∈ scan.queueOf dest) _ _ mem
    fun scan queued d _ => ?_
  rw [Scan.queueOf_enqueue]
  split
  · exact List.mem_append_left _ queued
  · exact queued

theorem ScanSound.enqueueAll (dests : List String) (raw : JsonObject) (h : w.ScanSound seq scan)
    (read : ∀ dest c, durable dest = some c → w.Upto dest c)
    (fresh : ∀ dest, scan.cursors[dest]? = none → w.Upto dest (seq - 1)) :
    w.ScanSound seq (dests.foldl (Scan.enqueue durable seq raw) scan) ∧ (w.Appeared seq →
      ∀ dest ∈ dests, w.Done seq dest ∨
        ∃ q ∈ (dests.foldl (Scan.enqueue durable seq raw) scan).queueOf dest, q.1 = seq) := by
  induction dests generalizing scan with
  | nil => exact ⟨h, fun _ dest mem => by cases mem⟩
  | cons d dests ih =>
    obtain ⟨sound, queued⟩ := h.enqueue raw (read d) (fresh d)
    have fresh' : ∀ dest, (scan.enqueue durable seq raw d).cursors[dest]? = none →
        w.Upto dest (seq - 1) := by
      intro dest missing
      rw [Scan.cursors_enqueue] at missing
      split at missing
      · cases missing
      · exact fresh dest missing
    obtain ⟨sound', rest⟩ := ih sound fresh'
    rw [List.foldl_cons]
    refine ⟨sound', fun appeared dest mem => ?_⟩
    obtain rfl | later := List.mem_cons.1 mem
    · obtain done | ⟨q, mem, same⟩ := queued appeared
      · exact .inl done
      · exact .inr ⟨q, queueOf_foldl_enqueue mem, same⟩
    · exact rest appeared dest later

end Examine

/-! ## One lemma for each step -/

section Step

variable {ruma : Ruma} {serverName : String} {roomShard fuel : Nat} {w w' : DeliveryWorld}
  {rows : List (Nat × SeqEntry)} {t : Sending} {dest : String} {cursorFaults : List String}
  {i k floor newFloor : Nat} {row : Nat × SeqEntry} {tasks : List Sending} {entry : SeqEntry}

theorem Sound.scan {i floor : Nat} (h : w.Sound roomShard) (idle : w.workers[i]? = some ⟨floor, .idle⟩)
    (last : (timelineFrom w.rooms floor scanBatch).getLast? = some row) :
    (w.setWorker i ⟨floor, .scanning (timelineFrom w.rooms floor scanBatch) row.1 .empty⟩).Sound
      roomShard := by
  have settled := (h.workers _ (List.mem_of_getElem? idle)).floor
  have final := mem_timelineFrom (List.mem_of_getLast? last)
  refine h.setWorker ⟨settled, ?_⟩
  refine ⟨timelineFrom_sorted,
    fun r mem => ⟨timelineFrom_le_last last mem, (mem_timelineFrom mem).1⟩, ?_,
    ⟨floor, final.2.le, ?_, fun r mem => (mem_timelineFrom mem).2⟩, ?_⟩
  · exact h.journal.mem_le (OrdMap.mem_iff_getElem?.2 ⟨_, final.1⟩)
  · exact ⟨by simp [Scan.empty], by simp [Scan.empty, Scan.queueOf],
      by simp [Scan.empty, Scan.queueOf], by simp [Scan.empty, Scan.queueOf]⟩
  · intro n appeared below
    by_cases old : n ≤ floor
    · refine .inr ⟨((settled "").seen n appeared old).1, fun dest => .inl ?_⟩
      exact ((settled dest).seen n appeared old).2
    · obtain ⟨⟨room, id, found⟩, -⟩ := appeared
      exact .inl ⟨_, mem_timelineFrom_of_le last found (Nat.lt_of_not_le old) below, rfl⟩

theorem durable_eq_some {c : Nat} (found : w.durable roomShard cursorFaults dest = some c) :
    w.fedOut.pduCursorOf roomShard dest = some c := by
  unfold durable at found
  split at found
  · cases found
  · exact found

theorem Scanning.receipt {seq last : Nat} {scan : Scan} (h : w.Scanning ((seq, entry) :: rows) last scan)
    (none : ∀ room id, entry ≠ .event room id) : w.Scanning rows last scan where
  sorted := (List.pairwise_cons.1 h.sorted).2
  held row mem := h.held row (List.mem_cons_of_mem _ mem)
  bound := h.bound
  behind := by
    obtain ⟨upto, le, sound, ahead⟩ := h.behind
    exact ⟨upto, le, sound, fun row mem => ahead row (List.mem_cons_of_mem _ mem)⟩
  covered n appeared upto := by
    obtain ⟨row, mem, same⟩ | covers := h.covered n appeared upto
    · obtain rfl | later := List.mem_cons.1 mem
      · subst same
        obtain ⟨⟨room, id, found⟩, -⟩ := appeared
        have held := (h.held _ List.mem_cons_self).2
        exact absurd (some_unique held found) (none room id)
      · exact .inl ⟨row, later, same⟩
    · exact .inr covers

theorem Scanning.event {seq last : Nat}
    {scan : Scan} {dests : List String} {raw : JsonObject} {durable : String → Option Nat}
    (h : w.Scanning ((seq, entry) :: rows) last scan)
    (read : ∀ dest c, durable dest = some c → w.Upto dest c) (later : Later w w')
    (examined : (seq, dests) ∈ w'.examined) :
    w'.Scanning rows last (dests.foldl (Scan.enqueue durable seq raw) scan) := by
  obtain ⟨upto, le, sound, ahead⟩ := h.behind
  obtain ⟨first, sorted⟩ := List.pairwise_cons.1 h.sorted
  have reach := (h.held _ List.mem_cons_self).1
  have seqBound : seq ≤ w.rooms.seq := reach.trans h.bound
  have fresh : ∀ dest, scan.cursors[dest]? = none → w.Upto dest (seq - 1) := by
    intro dest missing
    refine ⟨(Nat.sub_le seq 1).trans seqBound, fun n appeared below => ?_⟩
    have positive : upto < seq := ahead _ List.mem_cons_self
    obtain ⟨row, mem, same⟩ | covers := h.covered n appeared (by omega)
    · obtain rfl | other := List.mem_cons.1 mem
      · dsimp only at same
        omega
      · have := first row other
        omega
    · obtain ⟨seen, rest⟩ := covers
      refine ⟨seen, ?_⟩
      obtain done | ⟨q, queued, -⟩ := rest dest
      · exact done
      · obtain ⟨c, cached⟩ := sound.known dest (List.ne_nil_of_mem queued)
        rw [missing] at cached
        cases cached
  have raised : w.ScanSound seq scan :=
    { sound with low := fun dest q mem =>
        (sound.low dest q mem).trans (ahead _ List.mem_cons_self).le }
  obtain ⟨sound', queued⟩ := raised.enqueueAll dests raw read fresh
  refine ⟨sorted, fun row mem => ?_, h.bound.trans later.rooms.seq,
    ⟨seq, reach, sound'.later later, fun row mem => first row mem⟩, fun n appeared' below => ?_⟩
  · obtain ⟨upto, held⟩ := h.held row (List.mem_cons_of_mem _ mem)
    exact ⟨upto, (later.rooms.rows row.1 (upto.trans h.bound)).trans held⟩
  · have appeared := appeared'.earlier later (below.trans h.bound)
    obtain ⟨row, mem, same⟩ | covers := h.covered n appeared below
    · obtain rfl | other := List.mem_cons.1 mem
      · obtain rfl : seq = n := same
        refine .inr ⟨⟨dests, examined⟩, fun dest => ?_⟩
        by_cases listed : dest ∈ dests
        · obtain done | queued := queued appeared dest listed
          · exact .inl (done.later later)
          · exact .inr queued
        · exact .inl (.inr ⟨dests, examined, listed⟩)
      · exact .inl ⟨row, other, same⟩
    · obtain ⟨seen, rest⟩ := covers.later later
      refine .inr ⟨seen, fun dest => ?_⟩
      obtain done | ⟨q, mem, same⟩ := rest dest
      · exact .inl done
      · exact .inr ⟨q, queueOf_foldl_enqueue mem, same⟩

theorem Later.examine (journal : Room.Journal w.rooms) (x : Nat × List String) :
    Later w { w with examined := x :: w.examined } :=
  .of_eq journal rfl rfl (fun _ mem => List.mem_cons_of_mem _ mem) fun _ mem => mem

theorem Sound.examine {i floor last : Nat} {scan : Scan} {fault : Option ReadFault} (h : w.Sound roomShard)
    (worked : w.workers[i]? = some ⟨floor, .scanning (row :: rows) last scan⟩)
    (clean : w.Clean ruma serverName roomShard fuel (.examine i fault cursorFaults)) :
    ((w.examineRow ruma serverName roomShard fuel fault cursorFaults row scan).1.setWorker i
      ⟨floor, .scanning rows last
        (w.examineRow ruma serverName roomShard fuel fault cursorFaults row scan).2⟩).Sound
      roomShard := by
  obtain ⟨seq, entry⟩ := row
  have worker := h.workers _ (List.mem_of_getElem? worked)
  have scanning : w.Scanning ((seq, entry) :: rows) last scan := worker.stage
  cases entry with
  | receipt room user kind id ts =>
    exact h.setWorker ⟨worker.floor, scanning.receipt (by simp)⟩
  | event room id =>
    obtain ⟨rfl, readable⟩ := clean floor seq room id rows last scan worked
    obtain ⟨stored, held⟩ := Option.isSome_iff_exists.1 readable.1
    cases found : eventDestinations ruma serverName w.rooms fuel room id none with
    | none => simp [eventDestinations, held] at found
    | some answer =>
      obtain ⟨raw, dests⟩ := answer
      have next : w.examineRow ruma serverName roomShard fuel none cursorFaults
          (seq, .event room id) scan = ({ w with examined := (seq, dests) :: w.examined },
            dests.foldl (Scan.enqueue (w.durable roomShard cursorFaults) seq raw) scan) := by
        simp [examineRow, found, readable]
      rw [next]
      have later := Later.examine h.journal (seq, dests)
      have sound : Sound roomShard { w with examined := (seq, dests) :: w.examined } :=
        h.next later (fun dest c held => .inl held) (fun p mem => .inl mem) fun x mem => .inl mem
      refine sound.setWorker ⟨fun dest => (worker.floor dest).later later, ?_⟩
      exact scanning.event (fun dest c read => h.cursors dest c (durable_eq_some read)) later
        List.mem_cons_self

theorem Sound.fan {i floor last : Nat} {scan : Scan} (h : w.Sound roomShard)
    (worked : w.workers[i]? = some ⟨floor, .scanning [] last scan⟩) :
    (w.setWorker i ⟨floor, .sending last scan.sendings⟩).Sound roomShard := by
  have worker := h.workers _ (List.mem_of_getElem? worked)
  have scanning : w.Scanning [] last scan := worker.stage
  obtain ⟨upto, le, sound, -⟩ := scanning.behind
  have covered : ∀ n, w.Appeared n → n ≤ last → w.Covers n scan := by
    intro n appeared below
    obtain ⟨row, mem, -⟩ | covers := scanning.covered n appeared below
    · cases mem
    · exact covers
  refine h.setWorker ⟨worker.floor, last, le_rfl, scanning.bound, fun t mem => ?_,
    fun n appeared below => ?_⟩
  · obtain ⟨⟨dest, queued⟩, listed, rfl⟩ := List.mem_map.1 mem
    have queue : scan.queueOf dest = queued := by
      rw [Scan.queueOf, OrdMap.mem_toList.1 listed, Option.getD_some]
    refine ⟨queue ▸ sound.sorted dest, fun q mem => ?_, ?_, fun n appeared below => ?_⟩
    · exact (sound.low dest q (queue ▸ mem)).trans le
    · cases cached : scan.cursors[dest]? with
      | some c => simpa [cached] using sound.cursors dest c cached
      | none =>
        refine ⟨Nat.zero_le _, fun n appeared below => ?_⟩
        obtain ⟨-, start, -, above⟩ := appeared
        exact absurd (Nat.le_zero.1 below) (Nat.ne_zero_of_lt above)
    · obtain ⟨seen, rest⟩ := covered n appeared below
      obtain done | ⟨q, mem, same⟩ := rest dest
      · exact ⟨seen, .inl done⟩
      · exact ⟨seen, .inr ⟨q, queue ▸ mem, same⟩⟩
  · obtain ⟨seen, rest⟩ := covered n appeared below
    refine ⟨seen, fun dest => ?_⟩
    obtain done | ⟨q, mem, same⟩ := rest dest
    · exact .inl done
    · right
      cases found : scan.queues[dest]? with
      | none => simp [Scan.queueOf, found] at mem
      | some queued =>
        exact ⟨_, List.mem_map.2 ⟨(dest, queued), OrdMap.mem_toList.2 found, rfl⟩, rfl⟩

theorem Sound.stop (h : w.Sound roomShard) (worked : w.workers[i]? = some ⟨floor, .sending newFloor tasks⟩)
    (task : tasks[k]? = some t) :
    (w.setWorker i ⟨floor, .sending (min newFloor t.acked) (tasks.eraseIdx k)⟩).Sound roomShard := by
  have worker := h.workers _ (List.mem_of_getElem? worked)
  obtain ⟨last, delivering⟩ := worker.stage
  have stopped := delivering.left t (List.mem_of_getElem? task)
  refine h.setWorker ⟨worker.floor, last, (min_le_left _ _).trans delivering.floor,
    delivering.bound, fun other mem => delivering.left other (List.mem_of_mem_eraseIdx mem),
    fun n appeared below => ?_⟩
  obtain ⟨seen, rest⟩ := delivering.settled n appeared (below.trans (min_le_left _ _))
  refine ⟨seen, fun dest => ?_⟩
  obtain done | ⟨other, mem, same⟩ := rest dest
  · exact .inl done
  · by_cases here : dest = t.dest
    · subst here
      exact .inl (stopped.acked.seen n appeared (below.trans (min_le_right _ _))).2
    · refine .inr ⟨other, ?_, same⟩
      refine List.mem_eraseIdx_iff_getElem?.2 ?_
      obtain ⟨j, found⟩ := List.getElem?_of_mem mem
      refine ⟨j, fun equal => here ?_, found⟩
      rw [equal, task] at found
      rw [← same, Option.some.inj found]

theorem Later.sendChunk (journal : Room.Journal w.rooms) (t : Sending) : Later w (w.sendChunk t) :=
  .of_eq journal rfl rfl (fun _ mem => mem) fun _ mem => List.mem_append_right _ mem

theorem mem_acked_sendChunk {q : Nat × JsonObject} (mem : q ∈ t.chunk) : (w.sendChunk t).Done q.1 t.dest :=
  .inl (List.mem_append_left _ (List.mem_map_of_mem mem))

theorem TaskSound.delivered {last : Nat} (h : w.TaskSound last t)
    (journal : Room.Journal w.rooms) (bound : last ≤ w.rooms.seq) :
    (w.sendChunk t).TaskSound last t.delivered := by
  have later := Later.sendChunk journal t
  have parts : t.queued = t.chunk ++ t.delivered.queued := (List.take_append_drop _ _).symm
  have sorted := h.sorted
  rw [parts] at sorted
  have split : ∀ n, w.Appeared n → n ≤ last → w.Examined n ∧
      ((w.sendChunk t).Done n t.dest ∨ ∃ q ∈ t.delivered.queued, q.1 = n) := by
    intro n appeared below
    obtain ⟨seen, done | ⟨q, mem, same⟩⟩ := h.covered n appeared below
    · exact ⟨seen, .inl (done.later later)⟩
    · rw [parts] at mem
      obtain sent | left := List.mem_append.1 mem
      · exact ⟨seen, .inl (same ▸ mem_acked_sendChunk sent)⟩
      · exact ⟨seen, .inr ⟨q, left, same⟩⟩
  refine ⟨(List.pairwise_append.1 sorted).2.1,
    fun q mem => h.low q (List.mem_of_mem_drop mem), ?_, fun n appeared below => ?_⟩
  · cases final : t.chunk.getLast? with
    | none =>
      have same : t.delivered.acked = t.acked := by simp [Sending.delivered, Sending.last, final]
      exact same ▸ h.acked.later later
    | some final' =>
      have same : t.delivered.acked = final'.1 := by simp [Sending.delivered, Sending.last, final]
      have mem := List.mem_of_getLast? final
      have low := h.low final' (List.mem_of_mem_take mem)
      rw [same]
      refine ⟨low.trans (bound.trans later.rooms.seq), fun n appeared' below => ?_⟩
      have appeared := appeared'.earlier later ((below.trans low).trans bound)
      obtain ⟨seen, done | ⟨q, left, equal⟩⟩ := split n appeared (below.trans low)
      · exact ⟨seen.later later, done⟩
      · -- What is left is not numbered below the transaction's last event.
        have above := (List.pairwise_append.1 sorted).2.2 final' mem q left
        obtain rfl : final'.1 = n := by omega
        exact ⟨seen.later later, mem_acked_sendChunk mem⟩
  · obtain ⟨seen, rest⟩ := split n (appeared.earlier later (below.trans bound)) below
    exact ⟨seen.later later, rest⟩

theorem Sound.acknowledge
    (h : w.Sound roomShard) (worked : w.workers[i]? = some ⟨floor, .sending newFloor tasks⟩)
    (task : tasks[k]? = some t) : ((w.sendChunk t).setWorker i ⟨floor, .sending newFloor
      (if t.delivered.queued = [] then tasks.eraseIdx k else tasks.set k t.delivered)⟩).Sound
      roomShard := by
  have later := Later.sendChunk h.journal t
  have worker := h.workers _ (List.mem_of_getElem? worked)
  obtain ⟨last, delivering⟩ := worker.stage
  have delivered := (delivering.left t (List.mem_of_getElem? task)).delivered h.journal delivering.bound
  have sound : Sound roomShard (w.sendChunk t) := by
    refine h.next later (fun dest c held => .inl held) (fun p mem => ?_) fun x mem => .inl mem
    obtain rfl | old := List.mem_cons.1 mem
    · exact .inr delivered.acked
    · exact .inl old
  have advanced := delivering.later later
  refine sound.setWorker ⟨fun dest => (worker.floor dest).later later, last, advanced.floor,
    advanced.bound, fun other mem => ?_, fun n appeared below => ?_⟩
  · split at mem
    · exact advanced.left other (List.mem_of_mem_eraseIdx mem)
    · obtain old | rfl := List.mem_or_eq_of_mem_set mem
      · exact advanced.left other old
      · exact delivered
  · obtain ⟨seen, rest⟩ := advanced.settled n appeared below
    refine ⟨seen, fun dest => ?_⟩
    obtain done | ⟨other, mem, same⟩ := rest dest
    · exact .inl done
    · by_cases here : dest = t.dest
      · subst here
        split
        · rename_i emptied
          obtain ⟨-, done | ⟨q, left, -⟩⟩ := delivered.covered n appeared (below.trans advanced.floor)
          · exact .inl done
          · rw [emptied] at left
            cases left
        · exact .inr ⟨t.delivered, List.mem_set (List.getElem?_eq_some_iff.1 task).1 _, rfl⟩
      · obtain ⟨j, found⟩ := List.getElem?_of_mem mem
        have elsewhere : j ≠ k := by
          rintro rfl
          rw [task] at found
          exact here (same ▸ (Option.some.inj found) ▸ rfl)
        refine .inr ⟨other, ?_, same⟩
        split
        · exact List.mem_eraseIdx_iff_getElem?.2 ⟨j, elsewhere, found⟩
        · refine List.mem_of_getElem? (i := j) ?_
          rw [List.getElem?_set_ne elsewhere.symm]
          exact found

theorem Sound.finish {i floor newFloor : Nat} (h : w.Sound roomShard)
    (worked : w.workers[i]? = some ⟨floor, .sending newFloor []⟩) :
    (w.setWorker i ⟨max newFloor floor, .idle⟩).Sound roomShard := by
  have worker := h.workers _ (List.mem_of_getElem? worked)
  obtain ⟨last, delivering⟩ := worker.stage
  refine h.setWorker ⟨fun dest => ?_, trivial⟩
  refine ⟨max_le (delivering.floor.trans delivering.bound) (worker.floor dest).bound,
    fun n appeared below => ?_⟩
  rcases le_max_iff.1 below with new | old
  · obtain ⟨seen, rest⟩ := delivering.settled n appeared new
    obtain done | ⟨t, mem, -⟩ := rest dest
    · exact ⟨seen, done⟩
    · cases mem
  · exact (worker.floor dest).seen n appeared old

theorem mem_knownCursors {cursorsRead : Bool} {c : (Nat × String) × Nat}
    (mem : c ∈ w.knownCursors cursorsRead) (shard : c.1.1 = roomShard) :
    w.fedOut.pduCursorOf roomShard c.1.2 = some c.2 := by
  unfold knownCursors at mem
  split at mem
  · obtain ⟨⟨s, dest⟩, n⟩ := c
    obtain rfl : s = roomShard := shard
    exact OrdMap.mem_toList.1 mem
  · cases mem

theorem initialScanPos_cases (roomShard : Nat) (cursors : List ((Nat × String) × Nat)) (tip : Nat) :
    (initialScanPos cursors roomShard tip = tip ∧ ∀ c ∈ cursors, c.1.1 ≠ roomShard) ∨
      (∃ c ∈ cursors, c.1.1 = roomShard ∧ initialScanPos cursors roomShard tip = c.2) ∧
        ∀ c ∈ cursors, c.1.1 = roomShard → initialScanPos cursors roomShard tip ≤ c.2 := by
  unfold initialScanPos
  cases lowest : ((cursors.filter fun c => c.1.1 = roomShard).map Prod.snd).min? with
  | none =>
    refine .inl ⟨rfl, fun c mem shard => ?_⟩
    have none := List.map_eq_nil_iff.1 (List.min?_eq_none_iff.1 lowest)
    have kept : c ∈ cursors.filter fun c => c.1.1 = roomShard :=
      List.mem_filter.2 ⟨mem, decide_eq_true shard⟩
    rw [none] at kept
    cases kept
  | some n =>
    obtain ⟨mem, least⟩ := List.min?_eq_some_iff.1 lowest
    obtain ⟨c, kept, same⟩ := List.mem_map.1 mem
    obtain ⟨listed, shard⟩ := List.mem_filter.1 kept
    refine .inr ⟨⟨c, listed, of_decide_eq_true shard, same.symm⟩, fun c' mem' shard' => ?_⟩
    exact least c'.2 (List.mem_map_of_mem (List.mem_filter.2 ⟨mem', decide_eq_true shard'⟩))

theorem Sound.gain {cursorsRead tipRead : Bool} (h : w.Sound roomShard)
    (resumable : w.Resumable roomShard cursorsRead tipRead) {tip : Nat}
    (tipEq : tip = if tipRead then w.rooms.seq else 0) :
    Sound roomShard { w with
      start := some (w.start.getD w.rooms.seq)
      workers := ⟨initialScanPos (w.knownCursors cursorsRead) roomShard tip, .idle⟩ ::
        w.workers } := by
  have tipBound : tip ≤ w.rooms.seq := by
    rw [tipEq]
    split
    · exact le_rfl
    · exact Nat.zero_le _
  have later : Later w { w with
      start := some (w.start.getD w.rooms.seq)
      workers := ⟨initialScanPos (w.knownCursors cursorsRead) roomShard tip, .idle⟩ ::
        w.workers } := by
    refine ⟨.refl h.journal, fun a started => ?_, fun _ mem => mem, fun _ mem => mem⟩
    cases before : w.start with
    | none =>
      rw [before] at started
      cases started
      exact .inr ⟨rfl, le_rfl⟩
    | some start =>
      rw [before] at started
      exact .inl started
  have position := initialScanPos_cases roomShard (w.knownCursors cursorsRead) tip
  have bound : initialScanPos (w.knownCursors cursorsRead) roomShard tip ≤ w.rooms.seq := by
    obtain ⟨same, -⟩ | ⟨⟨c, mem, shard, same⟩, -⟩ := position
    · exact same.trans_le tipBound
    · exact same.trans_le (h.cursors _ _ (mem_knownCursors mem shard)).bound
  have settled : ∀ dest, w.Upto dest (initialScanPos (w.knownCursors cursorsRead) roomShard tip) := by
    refine fun dest => ⟨bound, fun n appeared below => ?_⟩
    by_contra missed
    have outstanding : w.Outstanding n := ⟨appeared, fun all => missed ⟨all.1, all.2 dest⟩⟩
    obtain ⟨⟨room, id, row⟩, start, started, above⟩ := appeared
    obtain fresh | ⟨unread, none⟩ | low := resumable
    · rw [fresh] at started
      cases started
    · obtain ⟨same, -⟩ | ⟨⟨c, mem, shard, -⟩, -⟩ := position
      · rw [same, tipEq, unread, if_neg Bool.false_ne_true] at below
        exact absurd (Nat.le_zero.1 below) (Nat.ne_zero_of_lt above)
      · exact none c mem shard
    · obtain ⟨c, mem, shard, beneath⟩ := low n outstanding
      obtain ⟨-, none⟩ | ⟨-, least⟩ := position
      · exact none c mem shard
      · have := least c mem shard
        omega
  refine h.next later (fun dest c held => .inl held) (fun p mem => .inl mem) fun worker mem => ?_
  obtain rfl | old := List.mem_cons.1 mem
  · exact .inr ⟨fun dest => (settled dest).later later, trivial⟩
  · exact .inl old

theorem pduCursorOf_apply {e s : FedOutStore} {cmd : FedOutCommand}
    (other : advancesCursor roomShard cmd = false) :
    (FedOut.apply e s cmd).pduCursorOf roomShard dest = s.pduCursorOf roomShard dest := by
  cases cmd with
  | enqueueEdus entries =>
    exact List.foldlRecOn (motive := fun t : FedOutStore =>
      t.pduCursorOf roomShard dest = s.pduCursorOf roomShard dest) entries _ rfl fun _ ih _ _ => ih
  | ackEdus destination upTo => rfl
  | advancePduCursor shard destination upTo =>
    have elsewhere : shard ≠ roomShard := by simpa [advancesCursor] using other
    simp only [FedOut.apply]
    split
    · simp only [FedOutStore.pduCursorOf, OrdMap.getElem?_insert']
      rw [if_neg fun same => elsewhere (Prod.mk.inj same).1.symm]
    · rfl
  | setDrainMarker upTo =>
    simp only [FedOut.apply]
    split <;> rfl
  | advanceAsCursor asId shard upTo =>
    simp only [FedOut.apply]
    split <;> rfl

theorem Sound.fedOut {fedOut : FedOutStore} (h : w.Sound roomShard)
    (cursors : ∀ dest c, fedOut.pduCursorOf roomShard dest = some c →
      w.fedOut.pduCursorOf roomShard dest = some c ∨ w.Upto dest c) :
    Sound roomShard { w with fedOut } := by
  have later : Later w { w with fedOut } :=
    .of_eq h.journal rfl rfl (fun _ mem => mem) fun _ mem => mem
  refine h.next later (fun dest c held => ?_) (fun p mem => .inl mem) fun worker mem => .inl mem
  obtain old | new := cursors dest c held
  · exact .inl old
  · exact .inr (new.later later)

theorem Sound.advance {j : Nat} {p : String × Nat} (h : w.Sound roomShard)
    (proposed : w.proposed[j]? = some p) :
    Sound roomShard { w with
      fedOut := FedOut.apply w.fedOut w.fedOut (.advancePduCursor roomShard p.1 p.2) } := by
  refine h.fedOut fun dest c held => ?_
  simp only [FedOut.apply] at held
  split at held
  · simp only [FedOutStore.pduCursorOf, OrdMap.getElem?_insert'] at held
    split at held
    · rename_i same
      cases held
      obtain rfl := (Prod.mk.inj same).2
      exact .inr (h.proposed p (List.mem_of_getElem? proposed))
    · exact .inl held
  · exact .inl held

theorem Sound.room {engine rooms : Store} {cmd : RoomCommand} {response : Room.RoomResponse}
    (h : w.Sound roomShard) (applied : Room.Machine.apply engine w.rooms cmd = .ok (rooms, response)) :
    Sound roomShard { w with rooms } := by
  have later : Later w { w with rooms } :=
    ⟨Room.Machine.apply_extends h.journal applied, fun _ started => .inl started,
      fun _ mem => mem, fun _ mem => mem⟩
  exact h.next later (fun dest c held => .inl held) (fun p mem => .inl mem) fun x mem => .inl mem

theorem Sound.step {act : Act} (h : w.Sound roomShard) (clean : w.Clean ruma serverName roomShard fuel act)
    (moved : w.step ruma serverName roomShard fuel act = some w') : w'.Sound roomShard := by
  cases act with
  | room engine cmd =>
    obtain ⟨⟨rooms, response⟩, applied, rfl⟩ := Option.map_eq_some_iff.1 moved
    exact h.room (Outcome.toOption_eq_some.1 applied)
  | fedOut engine cmd =>
    simp only [DeliveryWorld.step] at moved
    split at moved
    · cases moved
    · rename_i other
      cases moved
      refine h.fedOut fun dest c held => .inl ?_
      rwa [pduCursorOf_apply (by simpa using other)] at held
  | gain cursorsRead tipRead =>
    cases moved
    exact h.gain clean rfl
  | lose i =>
    cases moved
    have later : Later w { w with workers := w.workers.eraseIdx i } :=
      .of_eq h.journal rfl rfl (fun _ mem => mem) fun _ mem => mem
    exact h.next later (fun dest c held => .inl held) (fun p mem => .inl mem)
      fun worker mem => .inl (List.mem_of_mem_eraseIdx mem)
  | scan i =>
    simp only [DeliveryWorld.step] at moved
    split at moved
    · rename_i floor idle
      split at moved
      · cases moved
        exact h
      · rename_i row last
        cases moved
        exact h.scan idle last
    · cases moved
  | examine i fault cursorFaults =>
    simp only [DeliveryWorld.step] at moved
    split at moved
    · rename_i worked
      cases moved
      exact h.examine worked clean
    · cases moved
  | fan i =>
    simp only [DeliveryWorld.step] at moved
    split at moved
    · rename_i worked
      cases moved
      exact h.fan worked
    · cases moved
  | send i k acknowledged =>
    simp only [DeliveryWorld.step] at moved
    split at moved
    · rename_i worked
      split at moved
      · cases moved
      · rename_i t task
        split at moved
        · cases moved
          exact h.acknowledge worked task
        · cases moved
          exact h.stop worked task
    · cases moved
  | advance j =>
    obtain ⟨p, proposed, rfl⟩ := Option.map_eq_some_iff.1 moved
    exact h.advance proposed
  | finish i =>
    simp only [DeliveryWorld.step] at moved
    split at moved
    · rename_i worked
      cases moved
      exact h.finish worked
    · cases moved

theorem Sound.before : Sound roomShard (before .empty) := by
  refine ⟨.empty, fun dest c held => ?_, fun p mem => ?_, fun worker mem => ?_⟩
  · simp [DeliveryWorld.before, FedOutStore.pduCursorOf, FedOutStore.empty] at held
  · cases mem
  · cases mem

theorem Reached.sound
    (reached : Reached ruma serverName roomShard fuel (Clean ruma serverName roomShard fuel) w) :
    w.Sound roomShard := by
  induction reached with
  | init => exact .before
  | step before clean moved ih => exact ih.step clean moved

theorem Upto.acked {n c : Nat} (h : w.Upto dest c) (appeared : w.Appeared n)
    (destined : ∀ dests, (n, dests) ∈ w.examined → dest ∈ dests) (below : n ≤ c) :
    (dest, n) ∈ w.acked := by
  obtain acked | ⟨dests, found, other⟩ := (h.seen n appeared below).2
  · exact acked
  · exact absurd (destined dests found) other

/-- Where reads go through and workers start below what is outstanding, no event is passed over: one
whose destinations have the server whenever it is examined is acknowledged by the server, or lies
above every worker's floor and above the server's cursor. -/
theorem none_passed_over
    (reached : Reached ruma serverName roomShard fuel (Clean ruma serverName roomShard fuel) w)
    (n : Nat) (dest : String) (appeared : w.Appeared n)
    (destined : ∀ dests, (n, dests) ∈ w.examined → dest ∈ dests) :
    (dest, n) ∈ w.acked ∨ (∀ worker ∈ w.workers, worker.floor < n) ∧
      ∀ c, w.fedOut.pduCursorOf roomShard dest = some c → c < n := by
  have sound := reached.sound
  by_cases acked : (dest, n) ∈ w.acked
  · exact .inl acked
  · refine .inr ⟨fun worker mem => ?_, fun c held => ?_⟩
    · by_contra above
      exact acked (((sound.workers worker mem).floor dest).acked appeared destined (Nat.le_of_not_lt above))
    · by_contra above
      exact acked ((sound.cursors dest c held).acked appeared destined (Nat.le_of_not_lt above))

end Step

/-! ## Sample runs -/

section Samples

open Room (Call Server)

variable {P : DeliveryWorld → Act → Prop} [∀ w act, Decidable (P w act)] {w : DeliveryWorld}

/-- Calls of the room server, and steps of the delivery, each of them meeting `P`. -/
def play (P : DeliveryWorld → Act → Prop) [∀ w act, Decidable (P w act)] (w : DeliveryWorld) :
    List (Call ⊕ Act) → Option DeliveryWorld
  | [] => some w
  | .inl call :: events =>
    match call.prepare (Server.sample ["x", "y"]) w.rooms 9 with
    | .ok (.inr cmd) =>
      if P w (.room w.rooms cmd) then
        (w.step Ruma.sample "x" 0 9 (.room w.rooms cmd)).bind fun w' => w'.play P events
      else none
    | _ => none
  | .inr act :: events =>
    if P w act then (w.step Ruma.sample "x" 0 9 act).bind fun w' => w'.play P events else none

theorem Reached.play {w w' : DeliveryWorld} {events : List (Call ⊕ Act)}
    (reached : Reached Ruma.sample "x" 0 9 P w) (played : w.play P events = some w') :
    Reached Ruma.sample "x" 0 9 P w' := by
  induction events generalizing w with
  | nil =>
    cases played
    exact reached
  | cons event events ih =>
    cases event with
    | inl call =>
      simp only [DeliveryWorld.play] at played
      split at played
      · split at played
        · rename_i meets
          obtain ⟨u, moved, rest⟩ := Option.bind_eq_some_iff.1 played
          exact ih (reached.step meets moved) rest
        · cases played
      · cases played
    | inr act =>
      simp only [DeliveryWorld.play] at played
      split at played
      · rename_i meets
        obtain ⟨u, moved, rest⟩ := Option.bind_eq_some_iff.1 played
        exact ih (reached.step meets moved) rest
      · cases played

def sampleFailure : List (Call ⊕ Act) :=
  sampleOpening.map .inl ++ [.inl (.ingest (sampleVisitor "b" "join" ["$c", "$k"] "$m" 5) false)] ++
    [.inr (.gain true true), .inl (.ingest (sampleMessage "n" "$b" 6) false), .inr (.scan 0),
      .inr (.examine 0 none []), .inr (.fan 0), .inr (.send 0 0 false), .inr (.finish 0)]

def sampleMove : List (Call ⊕ Act) := [.inr (.lose 0), .inr (.gain true true)]

/-- The event failed on first contact, so its destination has no cursor; the next worker starts above
it. -/
theorem first_contact_lost : ∃ w, Reached Ruma.sample "x" 0 9 (fun _ _ => True) w ∧ w.Appeared 6 ∧
    w.examined = [(6, ["y"])] ∧ ("y", 6) ∉ w.acked ∧ ∃ worker ∈ w.workers, 6 ≤ worker.floor := by
  have found : ((before .empty).play (fun _ _ => True) (sampleFailure ++ sampleMove)).any (fun w =>
      decide (w.rooms.timeline[6]? = some (.event "!r:x" "$n")) && decide (w.start = some 5) &&
      decide (w.examined = [(6, ["y"])]) && decide (("y", 6) ∉ w.acked) &&
      w.workers.any fun worker => decide (6 ≤ worker.floor)) = true := by
    decide +kernel
  simp only [Option.any_eq_true, Bool.and_eq_true, decide_eq_true_iff, List.any_eq_true] at found
  obtain ⟨w, played, ⟨⟨⟨row, started⟩, examined⟩, unacked⟩, above⟩ := found
  exact ⟨w, Reached.init.play played, ⟨⟨_, _, row⟩, 5, started, by decide⟩, examined, unacked, above⟩

def sampleClean (w : DeliveryWorld) : Act → Bool
  | .gain _ _ => w.start.isNone
  | .examine i fault _ =>
    match w.workers[i]? with
    | some ⟨_, .scanning ((_, .event room id) :: _) _ _⟩ =>
      decide (fault = none) && decide (w.Readable Ruma.sample "x" 9 room id)
    | _ => true
  | _ => true

theorem sampleClean_clean {act : Act} (h : w.sampleClean act = true) : w.Clean Ruma.sample "x" 0 9 act := by
  cases act with
  | gain cursorsRead tipRead => exact .inl (by simpa [sampleClean] using h)
  | examine i fault cursorFaults =>
    intro floor seq room id rows last scan worked
    simpa [sampleClean, worked] using h
  | _ => trivial

theorem Reached.mono {ruma : Ruma} {serverName : String} {roomShard fuel : Nat}
    {P Q : DeliveryWorld → Act → Prop} (h : ∀ w act, P w act → Q w act)
    (reached : Reached ruma serverName roomShard fuel P w) :
    Reached ruma serverName roomShard fuel Q w := by
  induction reached with
  | init => exact .init
  | step before meets moved ih => exact ih.step (h _ _ meets) moved

/-- The failed event lies above the worker's floor as long as the worker lives. -/
theorem none_passed_over_failure : ∃ w, Reached Ruma.sample "x" 0 9 (Clean Ruma.sample "x" 0 9) w ∧
    w.Appeared 6 ∧ w.workers ≠ [] ∧ ∀ worker ∈ w.workers, worker.floor < 6 := by
  have found : ((before .empty).play (fun w act => w.sampleClean act = true) sampleFailure).any
      (fun w => decide (w.rooms.timeline[6]? = some (.event "!r:x" "$n")) &&
        decide (w.start = some 5) && decide (w.examined = [(6, ["y"])]) &&
        decide (("y", 6) ∉ w.acked) && !w.workers.isEmpty) = true := by
    decide +kernel
  simp only [Option.any_eq_true, Bool.and_eq_true, decide_eq_true_iff, Bool.not_eq_true',
    List.isEmpty_eq_false_iff] at found
  obtain ⟨w, played, ⟨⟨⟨row, started⟩, examined⟩, unacked⟩, working⟩ := found
  have reached : Reached Ruma.sample "x" 0 9 (Clean Ruma.sample "x" 0 9) w :=
    (Reached.init.play played).mono fun _ _ => sampleClean_clean
  have appeared : w.Appeared 6 := ⟨⟨_, _, row⟩, 5, started, by decide⟩
  have ahead := (none_passed_over reached 6 "y" appeared (by simp [examined])).resolve_left unacked
  exact ⟨w, reached, appeared, working, ahead.1⟩

end Samples

end DeliveryWorld

end Saltator.Federation
