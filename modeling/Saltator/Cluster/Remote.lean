import Saltator.Shard.Proposals
import Saltator.User.OneTimeKeys

/-!
# Intents for a remote shard

A node that does not host a shard has its intents executed by the shard's leader. It asks the replicas
one after the other and follows the hints of those that do not lead. The leader proposes the command of
the intent, and may do so more than once while the node waits.

No attempt, here or in a proposal, carries the identity of the request. One that was applied, and whose
answer was lost, is followed by another (`lost_answer_applies_twice`). A call whose attempts are dead
when it is told of their failure has its command applied once (`call_applied_once`).
-/

namespace Saltator.Cluster

open Saltator.Retry Saltator.Shard Saltator.Outcome

/-- What a call finds around it. -/
structure Surroundings where
  /-- The last address that served, then the replicas. -/
  candidates : List String
  /-- Why the address cannot be dialled, if it cannot. -/
  dial : Option ShardError

/-- Where the loop over the hops stands. -/
inductive Hop (ρ : Type) where
  /-- Before a hop, with the number of those left. -/
  | next (hops : Nat) (queue : List String) (lastErr : Option ShardError)
  | calling (addr : String) (hops : Nat) (queue : List String) (lastErr : Option ShardError)
  | returned (response : ρ)
  deriving DecidableEq

def readMaxHops : Nat := 6

def retarget (addr : String) (leader : Option String) (queue : List String) : List String :=
  match leader with
  | some hint => if hint ≠ addr then hint :: queue else queue
  | none => queue

/-- One turn of the loop of `RemoteShard::execute`. -/
def Hop.move {ρ : Type} (group : Nat) : Hop ρ → Move (Hop ρ) Surroundings Refusal ShardError ρ
  | .next 0 _ lastErr => .finish (.error (lastErr.getD
      (.raft ("group " ++ toString group ++ ": no replica served the intent"))))
  | .next (hops + 1) [] lastErr => .choose fun around => .next hops around.candidates lastErr
  | .next (hops + 1) (addr :: queue) lastErr => .choose fun around =>
    match around.dial with
    | some e => .next hops queue (some e)
    | none => .calling addr hops queue lastErr
  | .calling addr hops queue lastErr => .submit .returned fun
    | .redirected leader => .next hops (retarget addr leader queue) lastErr
    | .failed reason => .next hops queue (some (.raft ("execute rpc " ++ addr ++ ": " ++ reason)))
  | .returned response => .finish (.ok response)

theorem next_unfinished {ρ : Type} {group hops : Nat} {queue : List String}
    {lastErr : Option ShardError} :
    ¬((Hop.next hops queue lastErr : Hop ρ).move group).Succeeds := by
  rintro ⟨r, done⟩
  cases hops with
  | zero => cases done
  | succ hops =>
    cases queue with
    | nil => cases done
    | cons addr queue => cases done

theorem calling_of_submit {ρ : Type} {group : Nat} {c : Hop ρ} {acked : ρ → Hop ρ}
    {failed : Refusal → Hop ρ} (now : c.move group = .submit acked failed) :
    ∃ addr hops queue lastErr, c = .calling addr hops queue lastErr := by
  cases c with
  | next hops queue lastErr =>
    cases hops with
    | zero => cases now
    | succ hops =>
      cases queue with
      | nil => cases now
      | cons addr queue => cases now
  | calling addr hops queue lastErr => exact ⟨addr, hops, queue, lastErr, rfl⟩
  | returned response => cases now

/-- `RemoteShard::execute`. -/
def execute (ρ : Type) (group : Nat) (candidates : List String) :
    Caller Surroundings Refusal ShardError ρ where
  Control := Hop ρ
  start := .next readMaxHops candidates none
  move := Hop.move group
  acked_finishes := by
    intro c acked failed now r
    obtain ⟨addr, hops, queue, lastErr, rfl⟩ := calling_of_submit now
    cases now
    rfl
  start_unfinished := next_unfinished
  failed_unfinished := by
    intro c acked failed now b
    obtain ⟨addr, hops, queue, lastErr, rfl⟩ := calling_of_submit now
    cases now
    cases b with
    | redirected leader => exact next_unfinished
    | failed reason => exact next_unfinished
  next_unfinished := by
    intro c next now around
    cases c with
    | next hops queue lastErr =>
      cases hops with
      | zero => cases now
      | succ hops =>
        cases queue with
        | nil =>
          cases now
          exact next_unfinished
        | cons addr queue =>
          cases now
          dsimp only
          split
          · exact next_unfinished
          · rintro ⟨r, done⟩
            cases done
    | calling addr hops queue lastErr => cases now
    | returned response => cases now

/-- Whatever the group applies, and whichever command is proposed or executed: if every failure that is
reported is that of an attempt which is dead, a call that returns success has had its command applied
once. -/
theorem call_applied_once {σ κ φ ρ : Type} (apply : σ → κ → Except φ (σ × ρ)) (command : κ) :
    (∀ shard forwarder (s : Call (Proposal ρ) σ ρ),
      Retry.Reached (propose ρ shard forwarder) apply command s →
      ∀ outcome response, s.control = .returned outcome → outcome.result = .ok response →
        ∃ n, s.applied = [(n, response)]) ∧
    (∀ group candidates (s : Call (Hop ρ) σ ρ),
      Retry.Reached (execute ρ group candidates) apply command s →
      ∀ response, s.control = .returned response → ∃ n, s.applied = [(n, response)]) := by
  constructor
  · intro shard forwarder s reached outcome response control ok
    have done : (propose ρ shard forwarder).move s.control = .finish (.ok response) := by
      rw [control, ← ok]
      rfl
    exact reached.applied_once done
  · intro group candidates s reached response control
    have done : (execute ρ group candidates).move s.control = .finish (.ok response) := by
      rw [control]
      rfl
    exact reached.applied_once done

/-! ## Claims for one-time keys -/

def sampleKeys : User.UserCommand := .uploadKeys "@a:x" "D" none [("alg:1", [1]), ("alg:2", [2])] []

def applyUser (s : User.Store) (cmd : User.UserCommand) :
    Except User.StoreError (User.Store × User.UserResponse) :=
  User.Machine.apply User.SerdeJson.sample s s cmd

def sampleEvents (ι : Type) (n : Nat) : List (Retry.Event User.UserCommand ι Refusal) :=
  [.submit, .accept n, .commit n, .acknowledge]

theorem call_applied_once_claim : (∃ s : Call (Proposal User.UserResponse) User.Store User.UserResponse,
      s.control = .returned (.applied (.claimedKeys [⟨"@a:x", "D", "alg:1", [1]⟩])) ∧
      ∃ n, s.applied = [(n, .claimedKeys [⟨"@a:x", "D", "alg:1", [1]⟩])]) ∧
    ∃ s : Call (Hop User.UserResponse) User.Store User.UserResponse,
      s.control = .returned (.claimedKeys [⟨"@a:x", "D", "alg:1", [1]⟩]) ∧
      ∃ n, s.applied = [(n, .claimedKeys [⟨"@a:x", "D", "alg:1", [1]⟩])] := by
  have silent : ∀ {γ ι : Type} (s : Call γ User.Store User.UserResponse) (event),
      event ∈ ([.other sampleKeys] ++ sampleEvents ι 0 : List (Retry.Event _ ι Refusal)) →
      s.Clean event := by
    intro γ ι s event mem
    simp only [sampleEvents, List.cons_append, List.nil_append, List.mem_cons,
      List.not_mem_nil, or_false] at mem
    obtain rfl | rfl | rfl | rfl | rfl := mem
    all_goals trivial
  constructor
  · have h : (Call.run (propose _ ⟨.user, 0⟩ true) applyUser (.claimKeys [User.sampleClaim])
        (.fresh _ User.Store.empty) ([.other sampleKeys] ++ sampleEvents _ 0)).any
        (fun s : Call (Proposal _) _ _ => decide (s.control =
          .returned (.applied (.claimedKeys [⟨"@a:x", "D", "alg:1", [1]⟩])))) = true := by
      decide +kernel
    obtain ⟨s, ran, control⟩ := (Option.any_eq_true _ _).1 h
    have control := of_decide_eq_true control
    have start : Retry.Reached (propose _ ⟨.user, 0⟩ true) applyUser (.claimKeys [User.sampleClaim])
        (.fresh _ User.Store.empty) := .fresh _
    have reached := start.run (fun event mem s => silent s event mem) ran
    exact ⟨s, control, (call_applied_once applyUser _).1 _ _ s reached _ _ control rfl⟩
  · have h : (Call.run (execute _ 7 ["a:1"]) applyUser (.claimKeys [User.sampleClaim])
        (.fresh _ User.Store.empty)
        (.choose ⟨[], none⟩ :: ([.other sampleKeys] ++ sampleEvents _ 0))).any
        (fun s : Call (Hop _) _ _ => decide (s.control =
          .returned (.claimedKeys [⟨"@a:x", "D", "alg:1", [1]⟩]))) = true := by
      decide +kernel
    obtain ⟨s, ran, control⟩ := (Option.any_eq_true _ _).1 h
    have control := of_decide_eq_true control
    have start : Retry.Reached (execute _ 7 ["a:1"]) applyUser (.claimKeys [User.sampleClaim])
        (.fresh _ User.Store.empty) := .fresh _
    have reached : Retry.Reached (execute _ 7 ["a:1"]) applyUser (.claimKeys [User.sampleClaim]) s := by
      refine start.run (fun event mem s => ?_) ran
      obtain rfl | mem := List.mem_cons.1 mem
      · trivial
      · exact silent s event mem
    exact ⟨s, control, (call_applied_once applyUser _).2 _ _ s reached _ control⟩

/-- The leader applies a forwarded claim, the answer is lost, and the claim is written again: two keys
are gone, and the caller has one. -/
theorem lost_answer_applies_twice : ∃ (events : List (Retry.Event User.UserCommand Bool Refusal))
      (s : Call (Proposal User.UserResponse) User.Store User.UserResponse),
      Call.run (propose _ ⟨.user, 0⟩ true) applyUser (.claimKeys [User.sampleClaim])
        (.fresh _ User.Store.empty) ([.other sampleKeys] ++ events) = some s ∧
      s.control = .returned (.applied (.claimedKeys [⟨"@a:x", "D", "alg:2", [2]⟩])) ∧
      s.applied = [(1, .claimedKeys [⟨"@a:x", "D", "alg:1", [1]⟩]),
        (2, .claimedKeys [⟨"@a:x", "D", "alg:2", [2]⟩])] := by
  have h : (Call.run (propose _ ⟨.user, 0⟩ true) applyUser (.claimKeys [User.sampleClaim])
      (.fresh _ User.Store.empty) ([.other sampleKeys] ++ ([.submit, .lose 0,
        .report (.redirected (some "b:1")), .submit, .accept 1, .commit 1,
        .report (.failed "forward rpc: connection reset"), .choose false] ++ sampleEvents _ 2))).any
      (fun s : Call (Proposal _) _ _ => decide (s.control =
          .returned (.applied (.claimedKeys [⟨"@a:x", "D", "alg:2", [2]⟩]))) &&
        decide (s.applied = [(1, .claimedKeys [⟨"@a:x", "D", "alg:1", [1]⟩]),
          (2, .claimedKeys [⟨"@a:x", "D", "alg:2", [2]⟩])])) = true := by
    decide +kernel
  obtain ⟨s, ran, checks⟩ := (Option.any_eq_true _ _).1 h
  obtain ⟨control, applied⟩ := Bool.and_eq_true_iff.1 checks
  exact ⟨_, s, ran, of_decide_eq_true control, of_decide_eq_true applied⟩

end Saltator.Cluster
