import Saltator.Lib.Retry
import Saltator.Shard.Context

/-!
# Proposals

How a shard's handle has a command applied: it writes to the group's log where it leads the group, and
hands the command to the leader where it does not, again and again until the command is applied or
nobody took it before the deadline.
-/

namespace Saltator.Shard

open Saltator.Retry

/-- How an attempt at having a command applied ends without its response. -/
inductive Refusal where
  /-- The node addressed does not lead the group; its best hint of who does. -/
  | redirected (leader : Option String)
  | failed (reason : String)
  deriving DecidableEq

/-- How a proposal ended, with the label that the metrics count it under. -/
structure ProposeOutcome (ρ : Type) where
  result : Except ShardError ρ
  kind : String
  deriving DecidableEq

namespace ProposeOutcome

variable {ρ : Type}

def applied (response : ρ) : ProposeOutcome ρ := ⟨.ok response, "local"⟩

def forwarded (response : ρ) : ProposeOutcome ρ := ⟨.ok response, "forwarded"⟩

def failed (e : ShardError) : ProposeOutcome ρ := ⟨.error e, "error"⟩

end ProposeOutcome

/-- Where the retry loop stands. The hint is that of the last redirect. -/
inductive Proposal (ρ : Type) where
  /-- Writing to the local log. -/
  | writing (hint : Option String)
  | forwarding (addr : String) (hint : Option String)
  /-- After an attempt, before the clock is read. -/
  | retrying (hint : Option String)
  | returned (outcome : ProposeOutcome ρ)
  deriving DecidableEq

def redirect {ρ : Type} (forwarder : Bool) (leader hint : Option String) : Proposal ρ :=
  if forwarder then
    match leader, hint with
    | some addr, hint => .forwarding addr hint
    | none, some addr => .forwarding addr none
    | none, none => .retrying none
  else .retrying hint

/-- One turn of `propose_inner`. The choice is whether the deadline has passed. -/
def Proposal.move {ρ : Type} (shard : ShardId) (forwarder : Bool) :
    Proposal ρ → Move (Proposal ρ) Bool Refusal ShardError ρ
  | .writing hint => .submit (fun r => .returned (.applied r)) fun
    | .redirected leader => redirect forwarder leader hint
    | .failed reason => .returned (.failed (.raft reason))
  | .forwarding _ hint => .submit (fun r => .returned (.forwarded r)) fun
    | .redirected leader => .retrying leader
    | .failed _ => .retrying hint
  | .retrying hint => .choose fun late =>
    if late then
      .returned (.failed (.raft (shard.text ++ ": no leader reachable to accept the proposal")))
    else .writing hint
  | .returned outcome => .finish outcome.result

theorem redirect_unfinished {ρ : Type} {shard : ShardId} {forwarder : Bool}
    {leader hint : Option String} :
    ¬((redirect forwarder leader hint : Proposal ρ).move shard forwarder).Succeeds := by
  rintro ⟨r, done⟩
  unfold redirect at done
  split at done
  · split at done <;> cases done
  · cases done

/-- `ShardHandle::propose`, with or without a way to forward. -/
def propose (ρ : Type) (shard : ShardId) (forwarder : Bool) : Caller Bool Refusal ShardError ρ where
  Control := Proposal ρ
  start := .writing none
  move := Proposal.move shard forwarder
  acked_finishes := by
    intro c acked failed now r
    cases c with
    | writing hint =>
      cases now
      rfl
    | forwarding addr hint =>
      cases now
      rfl
    | retrying hint => cases now
    | returned outcome => cases now
  start_unfinished := by
    rintro ⟨r, done⟩
    cases done
  failed_unfinished := by
    intro c acked failed now b
    cases c with
    | writing hint =>
      cases now
      cases b with
      | redirected leader => exact redirect_unfinished
      | failed reason =>
        rintro ⟨r, done⟩
        cases done
    | forwarding addr hint =>
      cases now
      rintro ⟨r, done⟩
      cases b <;> cases done
    | retrying hint => cases now
    | returned outcome => cases now
  next_unfinished := by
    intro c next now late
    cases c with
    | writing hint => cases now
    | forwarding addr hint => cases now
    | retrying hint =>
      cases now
      rintro ⟨r, done⟩
      cases late <;> cases done
    | returned outcome => cases now

end Saltator.Shard
