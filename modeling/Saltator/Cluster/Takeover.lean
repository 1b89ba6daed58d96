import Saltator.Cluster.Roster
import Saltator.Lib.History

/-!
# Roster calls on several nodes

A node makes one roster call at a time, and starts it where it leads the metadata group. Leadership may
move while the call is under way. The roster that the call has read may then be out of date, and its
write still goes through, since proposals are forwarded to whoever leads.

A call that returns success keeps its effect until a later call about the same node, as long as no
write undoes what happened to other nodes since the roster was read (`no_lost_update`).
-/

namespace Saltator.Cluster

open Std Batch

/-- A call, with its number. -/
structure Made where
  id : Nat
  call : RosterCall
  deriving DecidableEq

inductive Entry where
  /-- The node of the call was seen to lead the group, before it reads a record. -/
  | confirmed (made : Made) (question : MetaQuestion)
  | committed (made : Made) (question : MetaQuestion)
  /-- There is no result where the process died, or whoever made the call went away. -/
  | ended (made : Made) (result : Option (Except ClusterError Unit))
  deriving DecidableEq

def recordsAfter (init : ControlPlane) (history : List Entry) : ControlPlane :=
  history.foldl (fun s entry => match entry with
    | .committed _ question => (s.answer question).2
    | .confirmed .. | .ended .. => s) init

/-- How far a call has come: the roster that it has read, and whether its own was written. -/
inductive Phase where
  | fresh
  | read (base : Roster)
  | wrote
  deriving DecidableEq

def Phase.after (phase : Phase) : (question : MetaQuestion) → question.Answer → Phase
  | .roster, blob => .read (blob.getD ∅)
  | .setRoster _, _ => .wrote
  | _, _ => phase

def Phase.base : Phase → Roster
  | read base => base
  | fresh | wrote => ∅

/-- A call under way. -/
structure Ongoing where
  made : Made
  phase : Phase
  /-- How long the history was when the node was seen to lead. -/
  confirmed : Option Nat
  task : MetaTask Unit

/-- A write on its way to whoever leads, with the roster that its call had read. -/
structure Write where
  made : Made
  base : Roster
  question : MetaQuestion
  deriving DecidableEq

/-- The nodes that make calls, and the metadata group. -/
structure Group where
  leader : Option NodeId
  /-- The number of calls so far. -/
  calls : Nat
  ongoing : NodeId → Option Ongoing
  writes : List Write
  history : List Entry

inductive GroupEvent where
  /-- Leadership moves. -/
  | elect (leader : Option NodeId)
  | call (node : NodeId) (call : RosterCall)
  /-- The node makes sure that it leads. -/
  | confirm (node : NodeId)
  /-- The node reads a record, of the state it has applied by then. -/
  | read (node : NodeId) (applied : Nat)
  /-- The membership of the group is changed, or asked for. -/
  | membership (node : NodeId) (voters : OrdSet NodeId)
  | propose (node : NodeId)
  /-- A leader appends and commits a write, perhaps not for the first time. -/
  | commit (write : Write)
  | acknowledge (node : NodeId)
  | fail (node : NodeId) (e : ClusterError)
  | finish (node : NodeId)
  | abandon (node : NodeId)

def ControlPlane.record (s : ControlPlane) : (question : MetaQuestion) → Option question.Answer
  | .config => some s.config
  | .roster => some s.roster
  | _ => none

/-- Questions that are answered from the applied state, by a node that leads. -/
def MetaQuestion.reads : MetaQuestion → Bool
  | .config | .roster => true
  | _ => false

def MetaQuestion.member (voters : OrdSet NodeId) : (question : MetaQuestion) → Option question.Answer
  | .addLearner .. => some ()
  | .voterIds => some voters
  | .setVoters _ => some ()
  | _ => none

def MetaQuestion.written : (question : MetaQuestion) → Option question.Answer
  | .setConfig _ => some ()
  | .setRoster _ => some ()
  | .setPlacement _ => some ()
  | _ => none

namespace Group

def init : Group := ⟨none, 0, fun _ => none, [], []⟩

def setOngoing (s : Group) (node : NodeId) (o : Option Ongoing) : Group :=
  { s with ongoing := fun i => if i = node then o else s.ongoing i }

def answer (s : Group) (node : NodeId) (o : Ongoing) (question : MetaQuestion)
    (next : question.Answer → MetaTask Unit) (a : Option question.Answer) : Option Group :=
  a.map fun a => s.setOngoing node (some
    { o with phase := o.phase.after question a, confirmed := none, task := next a })

variable (rfCap : NodeId → Option UInt8) (records : ControlPlane)

/-- One event, if it can happen. `records` are those that there were before the history. -/
def step (s : Group) : GroupEvent → Option Group
  | .elect leader => some { s with leader := leader }
  | .call node call =>
    if s.leader = some node ∧ s.ongoing node = none then
      some { s.setOngoing node (some ⟨⟨s.calls, call⟩, .fresh, none, call.task (rfCap node)⟩) with
        calls := s.calls + 1 }
    else none
  | .confirm node =>
    match s.ongoing node with
    | some ⟨made, phase, none, .ask question next⟩ =>
      if s.leader = some node ∧ question.reads then
        some { s.setOngoing node (some ⟨made, phase, some (s.history.length + 1), .ask question next⟩) with
          history := s.history ++ [.confirmed made question] }
      else none
    | _ => none
  | .read node applied =>
    match s.ongoing node with
    | some ⟨made, phase, some confirmed, .ask question next⟩ =>
      if confirmed ≤ applied ∧ applied ≤ s.history.length then
        s.answer node ⟨made, phase, some confirmed, .ask question next⟩ question next
          ((recordsAfter records (s.history.take applied)).record question)
      else none
    | _ => none
  | .membership node voters =>
    match s.ongoing node with
    | some ⟨made, phase, confirmed, .ask question next⟩ =>
      s.answer node ⟨made, phase, confirmed, .ask question next⟩ question next (question.member voters)
    | _ => none
  | .propose node =>
    match s.ongoing node with
    | some ⟨made, phase, _, .ask question _⟩ =>
      if question.written.isSome then
        some { s with writes := ⟨made, phase.base, question⟩ :: s.writes }
      else none
    | _ => none
  | .commit write =>
    if write ∈ s.writes then
      some { s with history := s.history ++ [.committed write.made write.question] }
    else none
  | .acknowledge node =>
    match s.ongoing node with
    | some ⟨made, phase, confirmed, .ask question next⟩ =>
      if .committed made question ∈ s.history then
        s.answer node ⟨made, phase, confirmed, .ask question next⟩ question next question.written
      else none
    | _ => none
  | .fail node e =>
    match s.ongoing node with
    | some ⟨made, phase, confirmed, .ask _ _⟩ =>
      some (s.setOngoing node (some ⟨made, phase, confirmed, .done (.error e)⟩))
    | _ => none
  | .finish node =>
    match s.ongoing node with
    | some ⟨made, _, _, .done result⟩ =>
      some { s.setOngoing node none with history := s.history ++ [.ended made (some result)] }
    | _ => none
  | .abandon node =>
    match s.ongoing node with
    | some o =>
      some { s.setOngoing node none with history := s.history ++ [.ended o.made none] }
    | _ => none

end Group

/-! ## What a call does, step by step -/

/-- What a call may ask, from where it stands: it reads the roster first, writes the one that it
planned, and writes the placement last. -/
def Phase.Allows (call : RosterCall) : Phase → MetaQuestion → Prop
  | _, .addLearner .. | _, .voterIds | _, .setVoters _ => True
  | .fresh, .roster => True
  | .read _, .config => True
  | .read base, .setRoster r => call.plan base = .ok r
  | .wrote, .setPlacement _ => True
  | _, _ => False

def Phase.Succeeds (call : RosterCall) : Phase → Prop
  | .fresh => False
  | .read base => call.plan base = .ok base
  | .wrote => True

def Conforms {ρ : Type} (call : RosterCall) : Phase → MetaTask ρ → Prop
  | phase, .ask question next =>
    phase.Allows call question ∧ ∀ a, Conforms call (phase.after question a) (next a)
  | phase, .done (.ok _) => phase.Succeeds call
  | _, .done (.error _) => True

section Calls

variable {ρ τ : Type} {call : RosterCall} {phase : Phase} {base next : Roster} {rfCap : Option UInt8}

theorem Conforms.map {t : MetaTask ρ} (h : Conforms call phase t) (f : ρ → τ) :
    Conforms call phase (t >>= fun r => .done (.ok (f r))) := by
  induction t generalizing phase with
  | done result =>
    cases result with
    | ok r => exact h
    | error e => trivial
  | ask question rest ih => exact ⟨h.1, fun a => ih a (h.2 a)⟩

theorem writeRoster_conforms {r : ρ} (planned : call.plan base = .ok next) :
    Conforms call (.read base) (do writeRoster rfCap next; return r) :=
  ⟨trivial, fun _ => ⟨planned, fun _ => ⟨trivial, fun _ => trivial⟩⟩⟩

theorem updateRoster_conforms : Conforms call .fresh (updateRoster rfCap call.plan) := by
  refine ⟨trivial, fun blob => ?_⟩
  change Conforms call (.read (blob.getD ∅))
    (.done ((call.plan (blob.getD ∅)).mapError .roster) >>= fun next => if next ≠ blob.getD ∅ then do
        writeRoster rfCap next
        return next
      else return next)
  cases planned : call.plan (blob.getD ∅) with
  | error e => trivial
  | ok next =>
    change Conforms call _ (if next ≠ _ then _ else _)
    split
    · exact writeRoster_conforms planned
    · rename_i same
      obtain rfl := Decidable.not_not.1 same
      exact planned

theorem removeNode_conforms {node : NodeId} : Conforms (.remove node) .fresh (removeNode rfCap node) := by
  refine ⟨trivial, fun blob => ?_⟩
  change Conforms _ (.read (blob.getD ∅)) (.done ((planRemoval (blob.getD ∅) node).mapError .roster) >>= _)
  cases planned : planRemoval (blob.getD ∅) node with
  | error e => trivial
  | ok next =>
    refine ⟨trivial, fun voters => ?_⟩
    change Conforms _ _ (if voters.contains node then _ else _)
    split
    · exact ⟨trivial, fun _ => writeRoster_conforms planned⟩
    · exact writeRoster_conforms planned

/-- The calls do what `Conforms` says. -/
theorem call_conforms : Conforms call .fresh (call.task rfCap) := by
  cases call with
  | join node addr =>
    refine ⟨trivial, fun _ => ⟨trivial, fun voters => ⟨trivial, fun _ => ⟨trivial, fun blob => ?_⟩⟩⟩⟩
    exact ⟨trivial, fun _ => ⟨rfl, fun _ => ⟨trivial, fun _ => trivial⟩⟩⟩
  | drain node => exact updateRoster_conforms.map _
  | undrain node => exact updateRoster_conforms.map _
  | markUnreachable node => exact (updateRoster_conforms.map _).map _
  | markReachable node => exact (updateRoster_conforms.map _).map _
  | remove node => exact removeNode_conforms.map _

end Calls

/-! ## Runs -/

def Ongoing.answered (o : Ongoing) (question : MetaQuestion) (next : question.Answer → MetaTask Unit)
    (a : question.Answer) : Ongoing :=
  { o with phase := o.phase.after question a, confirmed := none, task := next a }

def nodesAfter (records : ControlPlane) (history : List Entry) : Roster :=
  (recordsAfter records history).nodes

/-- A roster is written while its call waits for it, and the other nodes are as the call has read them;
or it is the roster that is there. -/
def Group.InTime (records : ControlPlane) (s : Group) : GroupEvent → Prop
  | .commit ⟨made, base, .setRoster r⟩ => nodesAfter records s.history = r ∨
    (∃ node o, s.ongoing node = some o ∧ o.made = made) ∧
      ∀ other, other ≠ made.call.node → (nodesAfter records s.history)[other]? = base[other]?
  | _ => True

/-- The states that events in time lead to. -/
inductive Reached (rfCap : NodeId → Option UInt8) (records : ControlPlane) : Group → Prop
  | init : Reached rfCap records Group.init
  | step {s t : Group} {event : GroupEvent} (before : Reached rfCap records s)
      (inTime : s.InTime records event) (moved : s.step rfCap records event = some t) :
      Reached rfCap records t

/-- What an event does to the group. -/
inductive Moved (records : ControlPlane) (s : Group) : Group → Prop
  | elected (leader : Option NodeId) : Moved records s { s with leader := leader }
  | called {node : NodeId} {o : Ongoing} (id : o.made.id = s.calls) (fresh : o.phase = .fresh)
      (unconfirmed : o.confirmed = none) (conforms : Conforms o.made.call .fresh o.task) :
      Moved records s { s.setOngoing node (some o) with calls := s.calls + 1 }
  | confirmed {node : NodeId} {o : Ongoing} {question : MetaQuestion}
      {next : question.Answer → MetaTask Unit} (here : s.ongoing node = some o)
      (task : o.task = .ask question next) (unconfirmed : o.confirmed = none) (reads : question.reads) :
      Moved records s { s.setOngoing node (some { o with confirmed := some (s.history.length + 1) }) with
        history := s.history ++ [.confirmed o.made question] }
  | read {node : NodeId} {o : Ongoing} {question : MetaQuestion} {next : question.Answer → MetaTask Unit}
      {a : question.Answer} {confirmed applied : Nat} (here : s.ongoing node = some o)
      (task : o.task = .ask question next) (since : o.confirmed = some confirmed)
      (le : confirmed ≤ applied) (seen : (recordsAfter records (s.history.take applied)).record question =
        some a) : Moved records s (s.setOngoing node (some (o.answered question next a)))
  | member {node : NodeId} {o : Ongoing} {question : MetaQuestion} {next : question.Answer → MetaTask Unit}
      {a : question.Answer} {voters : OrdSet NodeId} (here : s.ongoing node = some o)
      (task : o.task = .ask question next) (given : question.member voters = some a) :
      Moved records s (s.setOngoing node (some (o.answered question next a)))
  | proposed {node : NodeId} {o : Ongoing} {question : MetaQuestion}
      {next : question.Answer → MetaTask Unit} (here : s.ongoing node = some o)
      (task : o.task = .ask question next) :
      Moved records s { s with writes := ⟨o.made, o.phase.base, question⟩ :: s.writes }
  | committed {write : Write} (mem : write ∈ s.writes) (inTime : s.InTime records (.commit write)) :
      Moved records s { s with history := s.history ++ [.committed write.made write.question] }
  | acknowledged {node : NodeId} {o : Ongoing} {question : MetaQuestion}
      {next : question.Answer → MetaTask Unit} {a : question.Answer} (here : s.ongoing node = some o)
      (task : o.task = .ask question next) (mem : .committed o.made question ∈ s.history)
      (given : question.written = some a) :
      Moved records s (s.setOngoing node (some (o.answered question next a)))
  | failed {node : NodeId} {o : Ongoing} (e : ClusterError) (here : s.ongoing node = some o) :
      Moved records s (s.setOngoing node (some { o with task := .done (.error e) }))
  | ended {node : NodeId} {o : Ongoing} {result : Option (Except ClusterError Unit)}
      (here : s.ongoing node = some o) (fits : ∀ r, result = some r → o.task = .done r) :
      Moved records s { s.setOngoing node none with history := s.history ++ [.ended o.made result] }

section Steps

variable {rfCap : NodeId → Option UInt8} {records : ControlPlane} {s t : Group} {event : GroupEvent}
  {history : List Entry} {o : Ongoing} {x : Entry} {node : NodeId} {made : Made}
  {question : MetaQuestion}

theorem moved_of_step (inTime : s.InTime records event)
    (moved : s.step rfCap records event = some t) : Moved records s t := by
  cases event with
  | elect leader =>
    cases moved
    exact .elected leader
  | call node call =>
    simp only [Group.step] at moved
    split at moved
    · cases moved
      exact .called rfl rfl rfl call_conforms
    · cases moved
  | confirm node =>
    simp only [Group.step] at moved
    split at moved
    · rename_i here
      split at moved
      · rename_i leads
        cases moved
        exact .confirmed here rfl rfl leads.2
      · cases moved
    · cases moved
  | read node applied =>
    simp only [Group.step] at moved
    split at moved
    · rename_i here
      split at moved
      · rename_i bounds
        obtain ⟨a, seen, rfl⟩ := Option.map_eq_some_iff.1 moved
        exact .read here rfl rfl bounds.1 seen
      · cases moved
    · cases moved
  | membership node voters =>
    simp only [Group.step] at moved
    split at moved
    · rename_i here
      obtain ⟨a, given, rfl⟩ := Option.map_eq_some_iff.1 moved
      exact .member here rfl given
    · cases moved
  | propose node =>
    simp only [Group.step] at moved
    split at moved
    · rename_i here
      split at moved
      · cases moved
        exact .proposed here rfl
      · cases moved
    · cases moved
  | commit write =>
    simp only [Group.step] at moved
    split at moved
    · rename_i mem
      cases moved
      exact .committed mem inTime
    · cases moved
  | acknowledge node =>
    simp only [Group.step] at moved
    split at moved
    · rename_i here
      split at moved
      · rename_i mem
        obtain ⟨a, given, rfl⟩ := Option.map_eq_some_iff.1 moved
        exact .acknowledged here rfl mem given
      · cases moved
    · cases moved
  | fail node e =>
    simp only [Group.step] at moved
    split at moved
    · rename_i here
      cases moved
      exact .failed e here
    · cases moved
  | finish node =>
    simp only [Group.step] at moved
    split at moved
    · rename_i here
      cases moved
      exact .ended here fun r same => by rw [← Option.some.inj same]
    · cases moved
  | abandon node =>
    simp only [Group.step] at moved
    split at moved
    · rename_i here
      cases moved
      exact .ended here nofun
    · cases moved

def ReadAt (records : ControlPlane) (history : List Entry) (made : Made) (base : Roster) : Prop :=
  ∃ seen unseen, history = seen ++ unseen ∧ nodesAfter records seen = base ∧
    .confirmed made .roster ∈ seen ∧ .confirmed made .roster ∉ unseen

/-- What the history holds of a call under way. -/
def Standing (records : ControlPlane) (history : List Entry) (o : Ongoing) : Prop :=
  match o.phase with
  | .fresh => ∀ n, o.confirmed = some n →
      .confirmed o.made .roster ∈ history.take n ∧ .confirmed o.made .roster ∉ history.drop n
  | .read base => ReadAt records history o.made base
  | .wrote => ∃ r, .committed o.made (.setRoster r) ∈ history

/-- What it holds of a call that has succeeded. -/
def Settled (records : ControlPlane) (history : List Entry) (made : Made) : Prop :=
  (∃ r, .committed made (.setRoster r) ∈ history) ∨
    ∃ base, made.call.plan base = .ok base ∧ ReadAt records history made base

/-- A roster that is written was planned, and keeps the entries of other nodes, as those of its call are
not ended. -/
def Frames (records : ControlPlane) (before : List Entry) (x : Entry) : Prop :=
  ∀ made r, x = .committed made (.setRoster r) → (∃ base, made.call.plan base = .ok r) ∧
    (nodesAfter records before = r ∨ (∀ result, .ended made result ∉ before) ∧
      ∀ other, other ≠ made.call.node → r[other]? = (nodesAfter records before)[other]?)

structure Sound (records : ControlPlane) (s : Group) : Prop where
  ongoing_lt : ∀ {node o}, s.ongoing node = some o → o.made.id < s.calls
  unique : ∀ {i j o p}, s.ongoing i = some o → s.ongoing j = some p → o.made.id = p.made.id → i = j
  ended : ∀ {made result}, .ended made result ∈ s.history →
    made.id < s.calls ∧ ∀ {node o}, s.ongoing node = some o → o.made.id ≠ made.id
  conforms : ∀ {node o}, s.ongoing node = some o → Conforms o.made.call o.phase o.task
  standing : ∀ {node o}, s.ongoing node = some o → Standing records s.history o
  writes : ∀ {w r}, w ∈ s.writes → w.question = .setRoster r → w.made.call.plan w.base = .ok r
  frames : Due (Frames records) s.history
  settled : ∀ {made}, .ended made (some (.ok ())) ∈ s.history → Settled records s.history made

theorem ReadAt.append {base : Roster}
    (h : ReadAt records history made base) (ne : x ≠ .confirmed made .roster) :
    ReadAt records (history ++ [x]) made base := by
  obtain ⟨seen, unseen, rfl, same, mem, unmem⟩ := h
  refine ⟨seen, unseen ++ [x], List.append_assoc .., same, mem, fun last => ?_⟩
  obtain last | last := List.mem_append.1 last
  · exact unmem last
  · exact ne (List.mem_singleton.1 last).symm

theorem standing_fresh (phase : o.phase = .fresh) : Standing records history o ↔ ∀ n, o.confirmed = some n →
      .confirmed o.made .roster ∈ history.take n ∧ .confirmed o.made .roster ∉ history.drop n := by
  rw [Standing, phase]

theorem standing_read {base : Roster} (phase : o.phase = .read base) :
    Standing records history o ↔ ReadAt records history o.made base := by
  rw [Standing, phase]

theorem standing_wrote (phase : o.phase = .wrote) :
    Standing records history o ↔ ∃ r, .committed o.made (.setRoster r) ∈ history := by
  rw [Standing, phase]

theorem Standing.append (h : Standing records history o)
    (ne : x ≠ .confirmed o.made .roster) : Standing records (history ++ [x]) o := by
  unfold Standing at h ⊢
  split at h
  · intro n confirmed
    obtain ⟨mem, unmem⟩ := h n confirmed
    rw [List.take_append, List.drop_append]
    refine ⟨List.mem_append_left _ mem, fun last => ?_⟩
    obtain last | last := List.mem_append.1 last
    · exact unmem last
    · exact ne (List.mem_singleton.1 (List.mem_of_mem_drop last)).symm
  · exact h.append ne
  · obtain ⟨r, mem⟩ := h
    exact ⟨r, List.mem_append_left _ mem⟩

theorem Standing.kept {o p : Ongoing} (h : Standing records history o)
    (made : p.made = o.made) (phase : p.phase = o.phase) (unconfirmed : p.confirmed = none) :
    Standing records history p := by
  unfold Standing at h ⊢
  rw [phase, made]
  split
  · intro n some
    cases unconfirmed.symm.trans some
  · rename_i base stands
    rw [stands] at h
    exact h
  · rename_i stands
    rw [stands] at h
    exact h

theorem Settled.append (h : Settled records history made) (ne : x ≠ .confirmed made .roster) :
    Settled records (history ++ [x]) made := by
  obtain ⟨r, mem⟩ | ⟨base, planned, read⟩ := h
  · exact .inl ⟨r, List.mem_append_left _ mem⟩
  · exact .inr ⟨base, planned, read.append ne⟩

theorem Sound.replace {o p : Ongoing} (h : Sound records s)
    (here : s.ongoing node = some o) (made : p.made = o.made)
    (conforms : Conforms p.made.call p.phase p.task) (standing : Standing records s.history p) :
    Sound records (s.setOngoing node (some p)) := by
  have known : ∀ {i o'}, (s.setOngoing node (some p)).ongoing i = some o' →
      ∃ o, s.ongoing i = some o ∧ o'.made = o.made ∧ (o' = p ∨ o' = o) := by
    intro i o' found
    by_cases same : i = node
    · obtain rfl := same
      obtain rfl := some_unique (if_pos rfl) found
      exact ⟨o, here, made, .inl rfl⟩
    · exact ⟨o', (if_neg same).symm.trans found, rfl, .inr rfl⟩
  refine ⟨fun found => ?_, fun found found' same => ?_, fun mem => ⟨(h.ended mem).1, fun found => ?_⟩,
    fun found => ?_, fun found => ?_, h.writes, h.frames, h.settled⟩
  · obtain ⟨o', before, eq, -⟩ := known found
    rw [eq]
    exact h.ongoing_lt before
  · obtain ⟨o₁, before, eq, -⟩ := known found
    obtain ⟨o₂, before', eq', -⟩ := known found'
    rw [eq, eq'] at same
    exact h.unique before before' same
  · obtain ⟨o', before, eq, -⟩ := known found
    rw [eq]
    exact (h.ended mem).2 before
  · obtain ⟨o', before, -, rfl | rfl⟩ := known found
    · exact conforms
    · exact h.conforms before
  · obtain ⟨o', before, -, rfl | rfl⟩ := known found
    · exact standing
    · exact h.standing before

theorem Sound.clear (h : Sound records s) (node : NodeId) : Sound records (s.setOngoing node none) := by
  have known : ∀ {i o}, (s.setOngoing node none).ongoing i = some o → s.ongoing i = some o := by
    intro i o found
    by_cases same : i = node
    · cases (if_pos same).symm.trans found
    · exact (if_neg same).symm.trans found
  exact ⟨fun found => h.ongoing_lt (known found),
    fun found found' => h.unique (known found) (known found'),
    fun mem => ⟨(h.ended mem).1, fun found => (h.ended mem).2 (known found)⟩,
    fun found => h.conforms (known found), fun found => h.standing (known found), h.writes, h.frames,
    h.settled⟩

theorem Sound.append (h : Sound records s) (frames : Frames records s.history x)
    (confirmed : ∀ made, x = .confirmed made .roster →
      ∃ node o, s.ongoing node = some o ∧ o.made = made ∧ o.phase = .fresh ∧ o.confirmed = none)
    (ended : ∀ made result, x = .ended made result → (made.id < s.calls ∧
      ∀ {node o}, s.ongoing node = some o → o.made.id ≠ made.id) ∧
      (result = some (.ok ()) → Settled records s.history made)) :
    Sound records { s with history := s.history ++ [x] } := by
  refine ⟨h.ongoing_lt, h.unique, fun {made result} mem => ?_, h.conforms, fun {node p} found => ?_,
    h.writes, due_append_singleton.2 ⟨h.frames, frames⟩, fun {made} mem => ?_⟩
  · obtain mem | last := List.mem_append.1 mem
    · exact h.ended mem
    · exact (ended made result (List.mem_singleton.1 last).symm).1
  · by_cases same : x = .confirmed p.made .roster
    · obtain ⟨node', o, found', made, fresh, unconfirmed⟩ := confirmed _ same
      obtain rfl := h.unique found found' (congrArg Made.id made.symm)
      obtain rfl := some_unique found found'
      refine (standing_fresh fresh).2 fun n some => ?_
      cases unconfirmed.symm.trans some
    · exact (h.standing found).append same
  · have apart : ∀ {result}, .ended made result ∈ s.history → x ≠ .confirmed made .roster := by
      rintro result mem same
      obtain ⟨node, o, found, rfl, -⟩ := confirmed _ same
      exact (h.ended mem).2 found rfl
    obtain mem | last := List.mem_append.1 mem
    · exact (h.settled mem).append (apart mem)
    · obtain rfl := List.mem_singleton.1 last
      exact ((ended _ _ rfl).2 rfl).append nofun

theorem Sound.allows
    {next : question.Answer → MetaTask Unit} (h : Sound records s) (here : s.ongoing node = some o)
    (task : o.task = .ask question next) : o.phase.Allows o.made.call question := by
  have conforms := h.conforms here
  rw [task] at conforms
  exact conforms.1

theorem Sound.fresh_of_roster {next : Option Roster → MetaTask Unit}
    (h : Sound records s) (here : s.ongoing node = some o) (task : o.task = .ask .roster next) :
    o.phase = .fresh := by
  have allowed := h.allows here task
  cases phase : o.phase with
  | fresh => rfl
  | read base => exact (phase ▸ allowed : Phase.Allows _ (.read base) .roster).elim
  | wrote => exact (phase ▸ allowed : Phase.Allows _ .wrote .roster).elim

theorem Sound.answered {next : question.Answer → MetaTask Unit} {a : question.Answer} (h : Sound records s)
    (here : s.ongoing node = some o) (task : o.task = .ask question next)
    (standing : Standing records s.history (o.answered question next a)) :
    Sound records (s.setOngoing node (some (o.answered question next a))) := by
  have conforms := h.conforms here
  rw [task] at conforms
  exact h.replace here rfl (conforms.2 a) standing

theorem Sound.called (h : Sound records s) (id : o.made.id = s.calls) (fresh : o.phase = .fresh)
    (unconfirmed : o.confirmed = none) (conforms : Conforms o.made.call .fresh o.task) :
    Sound records { s.setOngoing node (some o) with calls := s.calls + 1 } := by
  have known : ∀ {i p}, (s.setOngoing node (some o)).ongoing i = some p →
      (i = node ∧ p = o) ∨ s.ongoing i = some p := by
    intro i p found
    by_cases same : i = node
    · exact .inl ⟨same, (some_unique (if_pos same) found).symm⟩
    · exact .inr ((if_neg same).symm.trans found)
  refine ⟨fun found => ?_, fun found found' same => ?_, fun mem => ⟨?_, fun found => ?_⟩,
    fun found => ?_, fun found => ?_, h.writes, h.frames, h.settled⟩
  · obtain ⟨-, rfl⟩ | before := known found
    · exact id ▸ Nat.lt_succ_self _
    · exact Nat.lt_succ_of_lt (h.ongoing_lt before)
  · obtain ⟨rfl, rfl⟩ | before := known found
    · obtain ⟨rfl, rfl⟩ | before' := known found'
      · rfl
      · have := h.ongoing_lt before'
        omega
    · obtain ⟨rfl, rfl⟩ | before' := known found'
      · have := h.ongoing_lt before
        omega
      · exact h.unique before before' same
  · exact Nat.lt_succ_of_lt (h.ended mem).1
  · obtain ⟨-, rfl⟩ | before := known found
    · have := (h.ended mem).1
      omega
    · exact (h.ended mem).2 before
  · obtain ⟨-, rfl⟩ | before := known found
    · exact fresh ▸ conforms
    · exact h.conforms before
  · obtain ⟨-, rfl⟩ | before := known found
    · refine (standing_fresh fresh).2 fun n some => ?_
      cases unconfirmed.symm.trans some
    · exact h.standing before

theorem Sound.confirmed {next : question.Answer → MetaTask Unit} (h : Sound records s)
    (here : s.ongoing node = some o) (task : o.task = .ask question next) (unconfirmed : o.confirmed = none)
    (reads : question.reads) :
    Sound records { s.setOngoing node (some { o with confirmed := some (s.history.length + 1) }) with
      history := s.history ++ [.confirmed o.made question] } := by
  have allowed := h.allows here task
  have appended : Sound records { s with history := s.history ++ [.confirmed o.made question] } := by
    refine h.append nofun (fun made same => ?_) nofun
    obtain ⟨rfl, rfl⟩ := Entry.confirmed.inj same
    exact ⟨node, o, here, rfl, h.fresh_of_roster here task, unconfirmed⟩
  have conforms := h.conforms here
  refine appended.replace here rfl conforms ?_
  have standing : Standing records (s.history ++ [.confirmed o.made question]) o :=
    appended.standing here
  cases phase : o.phase with
  | fresh =>
    have asked : question = .roster := by
      rw [phase] at allowed
      cases question with
      | roster => rfl
      | config => exact allowed.elim
      | _ => cases reads
    subst asked
    refine (standing_fresh rfl).2 ?_
    rintro n ⟨⟩
    have whole : ∀ x : Entry, x ∈ (s.history ++ [x]).take (s.history.length + 1) ∧
        x ∉ (s.history ++ [x]).drop (s.history.length + 1) := by
      intro x
      rw [List.take_of_length_le (by simp)]
      simp
    exact whole _
  | read base => exact (standing_read rfl).2 ((standing_read phase).1 standing)
  | wrote => exact (standing_wrote rfl).2 ((standing_wrote phase).1 standing)

theorem Sound.read {next : question.Answer → MetaTask Unit} {a : question.Answer} {confirmed applied : Nat}
    (h : Sound records s) (here : s.ongoing node = some o) (task : o.task = .ask question next)
    (since : o.confirmed = some confirmed) (le : confirmed ≤ applied)
    (seen : (recordsAfter records (s.history.take applied)).record question = some a) :
    Sound records (s.setOngoing node (some (o.answered question next a))) := by
  refine h.answered here task ?_
  have standing := h.standing here
  cases question with
  | config => exact standing.kept rfl rfl rfl
  | roster =>
    have fresh := h.fresh_of_roster here task
    obtain ⟨mem, unmem⟩ := (standing_fresh fresh).1 standing _ since
    obtain rfl := Option.some.inj seen
    refine ⟨s.history.take applied, s.history.drop applied, (List.take_append_drop ..).symm, rfl,
      List.take_subset_take_left _ le mem, fun last => unmem ?_⟩
    exact List.drop_subset_drop_left _ le last
  | _ => cases seen

theorem Sound.proposed {next : question.Answer → MetaTask Unit} (h : Sound records s)
    (here : s.ongoing node = some o) (task : o.task = .ask question next) :
    Sound records { s with writes := ⟨o.made, o.phase.base, question⟩ :: s.writes } := by
  refine ⟨h.ongoing_lt, h.unique, h.ended, h.conforms, h.standing, fun {w r} mem asks => ?_, h.frames,
    h.settled⟩
  obtain rfl | mem := List.mem_cons.1 mem
  · obtain rfl : question = .setRoster r := asks
    have allowed := h.allows here task
    change RosterCall.plan o.made.call o.phase.base = _
    cases phase : o.phase with
    | fresh => exact (phase ▸ allowed : Phase.Allows _ .fresh (.setRoster r)).elim
    | read base => exact (phase ▸ allowed : Phase.Allows _ (.read base) (.setRoster r))
    | wrote => exact (phase ▸ allowed : Phase.Allows _ .wrote (.setRoster r)).elim
  · exact h.writes mem asks

theorem Sound.committed {write : Write} (h : Sound records s) (mem : write ∈ s.writes)
    (inTime : s.InTime records (.commit write)) :
    Sound records { s with history := s.history ++ [.committed write.made write.question] } := by
  refine h.append (fun made r same => ?_) nofun nofun
  obtain ⟨made, base, question⟩ := write
  obtain ⟨rfl, rfl⟩ := Entry.committed.inj same
  have planned := h.writes mem rfl
  refine ⟨⟨base, planned⟩, ?_⟩
  obtain there | ⟨⟨node, o, here, rfl⟩, agree⟩ := inTime
  · exact .inl there
  · refine .inr ⟨fun result mem => (h.ended mem).2 here rfl, fun other ne => ?_⟩
    exact ((planned_of_plan planned).frame ne).trans (agree other ne).symm

theorem Sound.acknowledged {next : question.Answer → MetaTask Unit} {a : question.Answer} (h : Sound records s)
    (here : s.ongoing node = some o) (task : o.task = .ask question next)
    (mem : .committed o.made question ∈ s.history) (given : question.written = some a) :
    Sound records (s.setOngoing node (some (o.answered question next a))) := by
  refine h.answered here task ?_
  cases question with
  | setRoster r => exact ⟨r, mem⟩
  | setConfig config => exact (h.standing here).kept rfl rfl rfl
  | setPlacement placement => exact (h.standing here).kept rfl rfl rfl
  | addLearner node addr => cases given
  | voterIds => cases given
  | setVoters voters => cases given
  | config => cases given
  | roster => cases given

theorem Sound.ended_call {result : Option (Except ClusterError Unit)} (h : Sound records s)
    (here : s.ongoing node = some o) (fits : ∀ r, result = some r → o.task = .done r) :
    Sound records { s.setOngoing node none with history := s.history ++ [.ended o.made result] } := by
  refine (h.clear node).append nofun nofun fun made result' same => ?_
  obtain ⟨rfl, rfl⟩ := Entry.ended.inj same
  refine ⟨⟨h.ongoing_lt here, fun {i p} found same => ?_⟩, ?_⟩
  · by_cases there : i = node
    · cases (if_pos there).symm.trans found
    · exact there (h.unique ((if_neg there).symm.trans found) here same)
  · rintro rfl
    have conforms := h.conforms here
    have standing := h.standing here
    rw [fits _ rfl] at conforms
    change Settled records s.history o.made
    cases phase : o.phase with
    | fresh => exact (phase ▸ conforms : Phase.Succeeds _ .fresh).elim
    | read base =>
      exact .inr ⟨base, (phase ▸ conforms : Phase.Succeeds _ (.read base)),
        (standing_read phase).1 standing⟩
    | wrote => exact .inl ((standing_wrote phase).1 standing)

theorem sound_of_moved (h : Sound records s) (moved : Moved records s t) : Sound records t := by
  cases moved with
  | elected leader =>
    exact ⟨h.ongoing_lt, h.unique, h.ended, h.conforms, h.standing, h.writes, h.frames, h.settled⟩
  | called id fresh unconfirmed conforms => exact h.called id fresh unconfirmed conforms
  | confirmed here task unconfirmed reads => exact h.confirmed here task unconfirmed reads
  | read here task since le seen => exact h.read here task since le seen
  | @member node o question next a voters here task given =>
    refine h.answered here task ((h.standing here).kept rfl ?_ rfl)
    cases question with
    | addLearner node addr => rfl
    | voterIds => rfl
    | setVoters voters => rfl
    | config => cases given
    | roster => cases given
    | setConfig config => cases given
    | setRoster r => cases given
    | setPlacement placement => cases given
  | proposed here task => exact h.proposed here task
  | committed mem inTime => exact h.committed mem inTime
  | acknowledged here task mem given => exact h.acknowledged here task mem given
  | failed e here =>
    have standing := h.standing here
    exact h.replace here rfl trivial standing
  | ended here fits => exact h.ended_call here fits

theorem Reached.sound (h : Reached rfCap records s) : Sound records s := by
  induction h with
  | init => exact ⟨nofun, nofun, nofun, nofun, nofun, nofun, due_nil, nofun⟩
  | step before inTime moved ih => exact sound_of_moved ih (moved_of_step inTime moved)

/-! ## No update is lost -/

def RosterCall.Effect : RosterCall → Option NodeInfo → Prop
  | .join _ addr, entry => entry = some ⟨addr, .active⟩
  | .drain _, entry => entry.map NodeInfo.status = some .draining
  | .undrain _, entry => entry.map NodeInfo.status = some .active
  | .markUnreachable _, entry => ∃ status, entry.map NodeInfo.status = some status ∧ status ≠ .active
  | .markReachable _, entry => ∃ status, entry.map NodeInfo.status = some status ∧ status ≠ .unreachable
  | .remove _, entry => entry = none

theorem Planned.effect {roster next : Roster} {call : RosterCall} (h : Planned roster call next) :
    call.Effect next[call.node]? := by
  have set : ∀ {node old status}, Roster.status roster node = some old →
      Roster.status (Roster.setStatus roster node status) node = some status := by
    intro node old status was
    rw [status_setStatus, if_pos rfl, was]
    rfl
  cases h with
  | join node addr => exact OrdMap.getElem?_insert'.trans (if_pos rfl)
  | drain was more => exact set was
  | undrain was => exact set was
  | markUnreachable was more => exact ⟨.unreachable, set was, nofun⟩
  | markReachable was => exact ⟨.active, set was, nofun⟩
  | remove was => exact OrdMap.getElem?_erase'.trans (if_pos rfl)
  | notActive was ne => exact ⟨_, was, ne⟩
  | notUnreachable was ne => exact ⟨_, was, ne⟩

/-- Where a call takes effect: it writes the roster, or, if it never does, its node is seen to lead and
then reads a roster that needs no change. -/
def TakesEffect (history : List Entry) (made : Made) (x : Entry) : Prop :=
  (∃ r, x = .committed made (.setRoster r)) ∨
    x = .confirmed made .roster ∧ ∀ r, .committed made (.setRoster r) ∉ history

/-- The roster is written by a call about the same node that had not ended before. -/
def Reverses (before : List Entry) (made : Made) (x : Entry) : Prop :=
  ∃ later r, x = .committed later (.setRoster r) ∧ later ≠ made ∧ later.call.node = made.call.node ∧
    ∀ result, .ended later result ∉ before

/-- The call has taken effect, and its effect is in the roster unless a later call about the same node
has written since. -/
def Group.Keeps (records : ControlPlane) (s : Group) (made : Made) : Prop :=
  (∃ x ∈ s.history, TakesEffect s.history made x) ∧
  ∀ before x after, s.history = before ++ x :: after → TakesEffect s.history made x →
    (∀ y ∈ after, ¬Reverses before made y) →
      made.call.Effect (nodesAfter records s.history)[made.call.node]?

theorem nodesAfter_write {r : Roster} :
    nodesAfter records (history ++ [.committed made (.setRoster r)]) = r := by
  rw [nodesAfter, recordsAfter, List.foldl_append]
  rfl

theorem nodesAfter_other (other : ∀ made r, x ≠ .committed made (.setRoster r)) :
    nodesAfter records (history ++ [x]) = nodesAfter records history := by
  rw [nodesAfter, recordsAfter, List.foldl_append]
  cases x with
  | confirmed made question => rfl
  | committed made question =>
    cases question with
    | setRoster r => exact absurd rfl (other made r)
    | _ => rfl
  | ended made result => rfl

theorem effect_kept {before done rest : List Entry}
    (frames : Due (Frames records) (done ++ rest)) (sub : before ⊆ done)
    (unreversed : ∀ y ∈ rest, ¬Reverses before made y)
    (effect : made.call.Effect (nodesAfter records done)[made.call.node]?) :
    made.call.Effect (nodesAfter records (done ++ rest))[made.call.node]? := by
  induction rest generalizing done with
  | nil => rwa [List.append_nil]
  | cons x rest ih =>
    rw [List.append_cons] at frames ⊢
    refine ih frames (List.subset_append_of_subset_left _ sub)
      (fun y mem => unreversed y (List.mem_cons_of_mem _ mem)) ?_
    have step := frames done x rest (List.append_cons ..).symm
    by_cases write : ∃ later r, x = .committed later (.setRoster r)
    · obtain ⟨later, r, rfl⟩ := write
      obtain ⟨⟨base, planned⟩, frame⟩ := step later r rfl
      rw [nodesAfter_write]
      by_cases same : later = made
      · exact same ▸ (planned_of_plan planned).effect
      obtain there | ⟨running, frame⟩ := frame
      · exact there ▸ effect
      by_cases node : later.call.node = made.call.node
      · refine absurd ⟨later, r, rfl, same, node, fun result mem => ?_⟩
          (unreversed _ List.mem_cons_self)
        exact running result (sub mem)
      · rw [frame _ (Ne.symm node)]
        exact effect
    · rw [nodesAfter_other fun later r same => write ⟨later, r, same⟩]
      exact effect

/-- In every run whose roster writes are committed in time, a call that has returned success keeps its
effect until a later call about the same node. -/
theorem no_lost_update {made : Made} (h : Reached rfCap records s)
    (returned : .ended made (some (.ok ())) ∈ s.history) : s.Keeps records made := by
  have settled := h.sound.settled returned
  constructor
  · by_cases wrote : ∃ r, .committed made (.setRoster r) ∈ s.history
    · obtain ⟨r, mem⟩ := wrote
      exact ⟨_, mem, .inl ⟨r, rfl⟩⟩
    · obtain wrote' | ⟨base, planned, seen, unseen, cut, -, mem, -⟩ := settled
      · exact absurd wrote' wrote
      · rw [cut]
        refine ⟨_, List.mem_append_left _ mem, .inr ⟨rfl, fun r mem => wrote ⟨r, ?_⟩⟩⟩
        rwa [cut]
  · rintro before x after cut (⟨r, rfl⟩ | ⟨rfl, silent⟩) unreversed
    · have frames := h.sound.frames
      obtain ⟨⟨base, planned⟩, -⟩ := frames before _ after cut made r rfl
      rw [cut, List.append_cons] at frames ⊢
      refine effect_kept frames (List.subset_append_left ..) unreversed ?_
      rw [nodesAfter_write]
      exact (planned_of_plan planned).effect
    · obtain ⟨r, mem⟩ | ⟨base, planned, seen, unseen, cut', rfl, mem, unmem⟩ := settled
      · exact absurd mem (silent r)
      · have frames := h.sound.frames
        have split := cut.symm.trans cut'
        rw [cut'] at frames ⊢
        have effect := (planned_of_plan planned).effect
        obtain ⟨mid, rfl, rest⟩ | ⟨mid, -, rfl⟩ := List.append_eq_append_iff.1 split
        · cases mid with
          | nil =>
            obtain rfl : _ :: after = unseen := rest
            exact absurd List.mem_cons_self unmem
          | cons x mid =>
            obtain ⟨-, rfl⟩ := List.cons.inj rest
            exact effect_kept frames (List.subset_append_left ..)
              (fun y mem => unreversed y (List.mem_append_right _ mem)) effect
        · exact absurd (List.mem_append_right _ List.mem_cons_self) unmem

end Steps

/-! ## A sample cluster -/

section Samples

def Group.run (records : ControlPlane) (s : Group) (events : List GroupEvent) : Option Group :=
  events.foldlM (Group.step (fun _ => none) records) s

theorem Reached.run {records : ControlPlane} {s t : Group} {events : List GroupEvent}
    (h : Reached (fun _ => none) records s) (inTime : ∀ event ∈ events, ∀ s : Group, s.InTime records event)
    (ran : s.run records events = some t) : Reached (fun _ => none) records t := by
  induction events generalizing s with
  | nil =>
    obtain rfl := Option.some.inj ran
    exact h
  | cons event events ih =>
    obtain ⟨u, moved, rest⟩ := Option.bind_eq_some_iff.1 ran
    exact ih (h.step (inTime event List.mem_cons_self s) moved)
      (fun e mem => inTime e (List.mem_cons_of_mem _ mem)) rest

def sampleNodes : ControlPlane :=
  ⟨none, some (((∅ : Roster).insert 1 ⟨"a:1", .active⟩).insert 2 ⟨"b:1", .active⟩ |>.insert 3
    ⟨"c:1", .active⟩), none, ∅⟩

def sampleDraining : Made := ⟨0, .drain 3⟩

def sampleReads : List GroupEvent :=
  [.elect (some 1), .call 1 (.drain 3), .confirm 1, .read 1 1, .confirm 1, .read 1 2]

def sampleDrained : Roster := Roster.setStatus sampleNodes.nodes 3 .draining

def sampleJoining : Made := ⟨1, .join 4 "d:1"⟩

def sampleJoined : Roster := sampleNodes.nodes.insert 4 ⟨"d:1", .active⟩

/-- The write of a roster that implies a placement, and then of the placement, by a node that has read
the sample roster. -/
def sampleWrites (node : NodeId) (made : Made) (roster : Roster) : List GroupEvent :=
  let placement := assign default none (activeNodes roster)
  [.propose node, .commit ⟨made, sampleNodes.nodes, .setRoster roster⟩, .acknowledge node,
    .propose node, .commit ⟨made, ∅, .setPlacement placement⟩, .acknowledge node, .finish node]

theorem no_lost_update_drain : ∃ s, Reached (fun _ => none) sampleNodes s ∧
    .ended sampleDraining (some (.ok ())) ∈ s.history ∧ s.Keeps sampleNodes sampleDraining := by
  -- the run up to the commit of the roster, that commit, and the rest
  have h : (Group.init.run sampleNodes (sampleReads ++ [.propose 1])).any (fun u =>
      decide ((u.ongoing 1).map Ongoing.made = some sampleDraining) &&
      decide (nodesAfter sampleNodes u.history = sampleNodes.nodes) &&
      (u.run sampleNodes ((sampleWrites 1 sampleDraining sampleDrained).tail)).any fun s =>
        decide (.ended sampleDraining (some (.ok ())) ∈ s.history)) = true := by
    decide +kernel
  obtain ⟨u, first, checks⟩ := (Option.any_eq_true _ _).1 h
  obtain ⟨checks, rest⟩ := Bool.and_eq_true_iff.1 checks
  obtain ⟨waiting, same⟩ := Bool.and_eq_true_iff.1 checks
  obtain ⟨s, second, ended⟩ := (Option.any_eq_true _ _).1 rest
  obtain ⟨v, moved, second⟩ := Option.bind_eq_some_iff.1 second
  obtain ⟨o, here, made⟩ := Option.map_eq_some_iff.1 (of_decide_eq_true waiting)
  have quiet : ∀ event ∈ sampleReads ++ [.propose 1], ∀ s : Group, s.InTime sampleNodes event := by
    intro event mem s
    simp only [sampleReads, List.cons_append, List.nil_append, List.mem_cons, List.not_mem_nil,
      or_false] at mem
    obtain rfl | rfl | rfl | rfl | rfl | rfl | rfl := mem
    all_goals trivial
  have before := Reached.init.run quiet first
  have inTime : u.InTime sampleNodes
      (.commit ⟨sampleDraining, sampleNodes.nodes, .setRoster sampleDrained⟩) := by
    refine .inr ⟨⟨1, o, here, made⟩, fun other _ => ?_⟩
    rw [of_decide_eq_true same]
  have written := before.step inTime moved
  have reached : Reached (fun _ => none) sampleNodes s := by
    refine written.run (fun event mem s => ?_) second
    simp only [List.mem_cons, List.not_mem_nil, or_false] at mem
    obtain rfl | rfl | rfl | rfl | rfl := mem
    all_goals trivial
  have ended := of_decide_eq_true ended
  exact ⟨s, reached, ended, no_lost_update reached ended⟩

/-- The first node loses the lead between its reads and its write, and the second admits a node. The
write of the first goes through all the same, and the node that was admitted is gone. -/
theorem admission_lost : ∃ events s,
    Group.init.run sampleNodes events = some s ∧
    .ended sampleJoining (some (.ok ())) ∈ s.history ∧ ¬s.Keeps sampleNodes sampleJoining := by
  have h : (Group.init.run sampleNodes (sampleReads ++
      [.elect (some 2), .call 2 sampleJoining.call, .membership 2 ∅, .membership 2 ∅, .membership 2 ∅,
        .confirm 2, .read 2 3, .confirm 2, .read 2 4] ++
      sampleWrites 2 sampleJoining sampleJoined ++ sampleWrites 1 sampleDraining sampleDrained)).any
      (fun s => decide (.ended sampleJoining (some (.ok ())) ∈ s.history) &&
        decide (s.history[4]? = some (.committed sampleJoining (.setRoster sampleJoined))) &&
        ((s.history.drop 5).all fun y => match y with
          | .committed later (.setRoster _) => later.call.node ≠ sampleJoining.call.node
          | _ => true) &&
        decide ((nodesAfter sampleNodes s.history)[(4 : NodeId)]? = none)) = true := by
    decide +kernel
  obtain ⟨s, ran, checks⟩ := (Option.any_eq_true _ _).1 h
  obtain ⟨checks, gone⟩ := Bool.and_eq_true_iff.1 checks
  obtain ⟨checks, silent⟩ := Bool.and_eq_true_iff.1 checks
  obtain ⟨ended, found⟩ := Bool.and_eq_true_iff.1 checks
  refine ⟨_, s, ran, of_decide_eq_true ended, fun keeps => ?_⟩
  obtain ⟨lt, committed⟩ := List.getElem?_eq_some_iff.1 (of_decide_eq_true found)
  have cut : s.history = s.history.take 4 ++ s.history[4] :: s.history.drop 5 := by
    rw [← List.drop_eq_getElem_cons lt, List.take_append_drop]
  have effect := keeps.2 _ _ _ cut (.inl ⟨_, committed⟩) ?_
  · have gone : (nodesAfter sampleNodes s.history)[(4 : NodeId)]? = none := of_decide_eq_true gone
    cases gone.symm.trans effect
  · rintro y mem ⟨later, r, rfl, -, node, -⟩
    exact of_decide_eq_true (List.all_eq_true.1 silent _ mem) node

end Samples

end Saltator.Cluster
