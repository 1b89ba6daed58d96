import Saltator.User.History
import Saltator.User.MachineSpec

/-!
# User-interactive sessions

A session of user-interactive authentication carries the stages that were completed for one request.
Sessions expire, are swept, and are created again under the same id, by the same command. What is
answered for a request was completed for it, in the session that is there.
-/

namespace Saltator.User

open Machine
open Saltator.Outcome
open Batch (Since since_append_singleton Due due_nil due_append_singleton)

structure UiaAnswer where
  sessionId : String
  requestHash : Hash
  stage : String
  completed : List String
  deriving DecidableEq

def uiaAnswers (_ : Store) (cmd : UserCommand) (_ : Store) (r : UserResponse) : List UiaAnswer :=
  match cmd, r with
  | .completeUiaStage sessionId requestHash stage .., .uiaCompleted completed _ =>
    [⟨sessionId, requestHash, stage, completed⟩]
  | _, _ => []

def UiaAnswer.Opens (sessionId : String) (answer : UiaAnswer) : Prop :=
  answer.sessionId = sessionId ∧ answer.completed = [answer.stage]

/-- The stage was completed for this session and request, and the session was not opened again since. -/
def StageDone (sessionId : String) (requestHash : Hash) (stage : String) : List UiaAnswer → Prop :=
  Since (fun answer => answer.sessionId = sessionId ∧ answer.requestHash = requestHash ∧
    answer.stage = stage) (UiaAnswer.Opens sessionId)

section Commands

variable {serde : SerdeJson} {e s t : Store} {r : UserResponse} {history : List UiaAnswer}
  {registrationToken : Option String} {session : UiaSession} {sessionId : String}
  {cmd : UserCommand}

/-- The stages that the sessions carry were completed. -/
def Carried (s : Store) (history : List UiaAnswer) : Prop :=
  ∀ (sessionId : String) (session : UiaSession), s.uiaSession[sessionId]? = some session →
    ∀ stage ∈ session.completed, StageDone sessionId session.requestHash stage history

def Grounded (before : List UiaAnswer) (answer : UiaAnswer) : Prop :=
  ∀ stage ∈ answer.completed, stage = answer.stage ∨
    StageDone answer.sessionId answer.requestHash stage before

theorem sweepUiaSessions_session {expireBeforeTs : Nat}
    (stored : (sweepUiaSessions e s expireBeforeTs).uiaSession[sessionId]? = some session) :
    s.uiaSession[sessionId]? = some session := by
  refine List.foldlRecOn (motive := fun u : Store => u.uiaSession[sessionId]? = some session →
    s.uiaSession[sessionId]? = some session) _ _ id (fun u ih k _ stored => ih ?_) stored
  rw [OrdMap.getElem?_erase'] at stored
  split at stored
  · simp at stored
  · exact stored

theorem mem_completeStage {stage stage' : String}
    (mem : stage' ∈ (completeStage session stage registrationToken).completed) :
    stage' = stage ∨ stage' ∈ session.completed := by
  unfold completeStage at mem
  dsimp only at mem
  split at mem
  · exact .inr mem
  · simpa [or_comm] using mem

theorem completeUiaStage_cases {requestHash : Hash} {stage : String} {nowTs expireBeforeTs : Nat}
    (applied : completeUiaStage e s sessionId requestHash stage registrationToken nowTs expireBeforeTs =
      (t, r)) : (t = sweepUiaSessions e s expireBeforeTs ∧ r = .uiaRequestMismatch) ∨
      ∃ session : UiaSession, session.requestHash = requestHash ∧
        (s.uiaSession[sessionId]? = some session ∨ session.completed = []) ∧
        t.uiaSession = (sweepUiaSessions e s expireBeforeTs).uiaSession.insert sessionId
          (completeStage session stage registrationToken) ∧
        r = .uiaCompleted (completeStage session stage registrationToken).completed
          (completeStage session stage registrationToken).registrationToken := by
  unfold completeUiaStage at applied
  dsimp only at applied
  split at applied
  · rename_i session found
    split at applied
    · obtain ⟨rfl, rfl⟩ := Prod.mk.inj applied
      exact .inl ⟨rfl, rfl⟩
    · rename_i same
      obtain ⟨rfl, rfl⟩ := Prod.mk.inj applied
      exact .inr ⟨session, not_not.1 same, .inl (sweepUiaSessions_session found), rfl, rfl⟩
  · obtain ⟨rfl, rfl⟩ := Prod.mk.inj applied
    exact .inr ⟨⟨requestHash, [], none, nowTs⟩, rfl, .inr rfl, rfl, rfl⟩

theorem uia_opens (applied : apply serde e s cmd = .ok (t, r)) {answer : UiaAnswer}
    (told : answer ∈ uiaAnswers s cmd t r) (absent : answer.sessionId ∉ s.uiaSession) :
    answer.Opens answer.sessionId := by
  cases cmd with
  | completeUiaStage sessionId requestHash stage registrationToken nowTs expireBeforeTs =>
    obtain ⟨rfl, rfl⟩ | ⟨session, rfl, origin, -, rfl⟩ :=
      completeUiaStage_cases (Except.ok.inj applied)
    · simp [uiaAnswers] at told
    · obtain rfl := List.mem_singleton.1 told
      have new : session.completed = [] := origin.resolve_left fun found =>
        absent (OrdMap.mem_iff_getElem?.2 ⟨session, found⟩)
      refine ⟨rfl, ?_⟩
      simp [completeStage, new]
  | _ => exact absurd told List.not_mem_nil

theorem uia_apply (h : Carried s history) (due : Due Grounded history)
    (applied : apply serde e s cmd = .ok (t, r)) :
    Carried t (history ++ uiaAnswers s cmd t r) ∧ Due Grounded (history ++ uiaAnswers s cmd t r) := by
  have shape := apply_frame applied
  cases cmd with
  | completeUiaStage sessionId requestHash stage registrationToken nowTs expireBeforeTs =>
    obtain ⟨rfl, rfl⟩ | ⟨session, rfl, origin, table, rfl⟩ :=
      completeUiaStage_cases (Except.ok.inj applied)
    · have left : Carried (sweepUiaSessions e s expireBeforeTs) (history ++ []) := by
        rw [List.append_nil]
        exact fun k session stored => h k session (sweepUiaSessions_session stored)
      exact ⟨left, (List.append_nil history).symm ▸ due⟩
    -- a stage that the session had before is one of the session that is there
    have before : ∀ stage' ∈ session.completed, StageDone sessionId session.requestHash stage' history := by
      intro stage' mem
      obtain found | fresh := origin
      · exact h sessionId session found stage' mem
      · simp [fresh] at mem
    have grounded : Grounded history ⟨sessionId, session.requestHash, stage,
        (completeStage session stage registrationToken).completed⟩ :=
      fun stage' mem => by
        have mem : stage' ∈ (completeStage session stage registrationToken).completed := mem
        exact (mem_completeStage mem).imp_right (before stage')
    refine ⟨fun k row stored stage' mem => since_append_singleton.2 ?_,
      due_append_singleton.2 ⟨due, grounded⟩⟩
    rw [table, OrdMap.getElem?_insert'] at stored
    split at stored
    · rename_i own
      obtain rfl := Option.some.inj stored
      by_cases last : stage' = stage
      · exact .inl ⟨own.symm, rfl, last.symm⟩
      · refine .inr ⟨own ▸ (grounded stage' mem).resolve_left last, fun opened => ?_⟩
        have only : (completeStage session stage registrationToken).completed = [stage] := opened.2
        rw [only] at mem
        exact last (List.mem_singleton.1 mem)
    · rename_i other
      exact .inr ⟨h k row (sweepUiaSessions_session stored) stage' mem,
        fun opened => other opened.1.symm⟩
  | _ =>
    have same : Carried t (history ++ []) := by
      rw [List.append_nil, shape]
      exact h
    exact ⟨same, (List.append_nil history).symm ▸ due⟩

end Commands

/-! ## Runs -/

section Run

open Shard (applyEntry)

variable {serde : SerdeJson} {e s : Shard.State (UserApp serde)} {history : List UiaAnswer}

theorem UserRun.carried
    (run : UserRun (fun _ _ _ => True) (fun _ _ _ => True) uiaAnswers serde e s history) :
    Carried s.app history ∧ Due Grounded history := by
  refine UserRun.invariant (I := fun _ s history => Carried s history ∧ Due Grounded history)
    ⟨fun k session stored => ?_, due_nil⟩ id ?_ ?_ run
  · simp [Store.empty] at stored
  · exact fun h _ applied => uia_apply h.1 h.2 applied
  · intro e s t target history h _ migrated
    rw [migrate_frame migrated]
    exact h

/-- **Sessions are bound to their request.** In every run, what is answered for a session and a request
are the stage completed with it and stages that were completed before for the same session and request,
since the session was opened; and a session that is not there is opened. -/
theorem uia_bound (run : UserRun (fun _ _ _ => True) (fun _ _ _ => True) uiaAnswers serde e s history) :
    (∀ before answer after, history = before ++ answer :: after →
      ∀ stage ∈ answer.completed, stage = answer.stage ∨
        StageDone answer.sessionId answer.requestHash stage before) ∧
    ∀ entry t r answer, applyEntry (UserApp serde) e s entry = .ok (t, r) →
      answer ∈ entryEvents uiaAnswers s entry t r →
      answer.sessionId ∉ s.app.uiaSession → answer.Opens answer.sessionId := by
  have bound := run.carried
  refine ⟨bound.2, fun entry t r answer applied told absent => ?_⟩
  have did : EntryDid uiaAnswers e s entry t.app (entryEvents uiaAnswers s entry t r) :=
    applyEntry_did applied
  generalize entryEvents uiaAnswers s entry t r = recorded at did told
  cases did with
  | command payload step same => exact uia_opens step (same ▸ told) absent
  | migration payload step silent => exact absurd (silent ▸ told) List.not_mem_nil
  | nothing same silent => exact absurd (silent ▸ told) List.not_mem_nil

def sampleStage (requestHash : Hash) (stage : String) (nowTs expireBeforeTs : Nat) :
    Shard.Entry UserCommand :=
  ⟨⟨1, 1, 1⟩, .normal (.completeUiaStage "S" requestHash stage none nowTs expireBeforeTs)⟩

def sampleAnswers : List UiaAnswer :=
  [⟨"S", 1, "a", ["a"]⟩, ⟨"S", 1, "b", ["a", "b"]⟩, ⟨"S", 2, "b", ["b"]⟩]

theorem uia_bound_again : ∃ s : Shard.State (UserApp .sample),
    UserRun (fun _ _ _ => True) (fun _ _ _ => True) uiaAnswers .sample s s sampleAnswers ∧
    ∀ stage ∈ ["b"], stage = "b" ∨
      StageDone "S" 2 stage [⟨"S", 1, "a", ["a"]⟩, ⟨"S", 1, "b", ["a", "b"]⟩] := by
  have h : (Batch.record (applyEntry (UserApp .sample)) (entryEvents uiaAnswers)
      (.fresh Store.empty, []) ([sampleStage 1 "a" 5 0, sampleStage 1 "b" 6 0,
        sampleStage 2 "b" 7 0, sampleStage 2 "b" 20 10].map fun entry => [entry])).toOption.any
          (fun x => decide (x.2 = sampleAnswers)) = true := by
    decide +kernel
  obtain ⟨⟨s, history⟩, applied, told⟩ := (Option.any_eq_true _ _).1 h
  obtain rfl := of_decide_eq_true told
  have run : UserRun (fun _ _ _ => True) (fun _ _ _ => True) uiaAnswers .sample s s sampleAnswers :=
    Batch.Recorded.start.singly (toOption_eq_some.1 applied) fun _ entry _ => by
      unfold EntryMeets
      split <;> trivial
  exact ⟨s, run, (uia_bound run).1 [⟨"S", 1, "a", ["a"]⟩, ⟨"S", 1, "b", ["a", "b"]⟩]
    ⟨"S", 2, "b", ["b"]⟩ [] rfl⟩

end Run

end Saltator.User
