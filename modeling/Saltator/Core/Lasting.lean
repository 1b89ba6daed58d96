import Saltator.Core.StateRes
import Saltator.Lib.Fuel

/-!
# Answers of state resolution last

What a resolution answers with some fuel it answers with more.
-/

namespace Saltator.StateRes

open Std Loop

variable {E : Type} [Event E] (fetch : EventId → Option E)

theorem authChain_lasting (id : EventId) (cache : ChainCache) :
    Lasting fun fuel => authChain fetch fuel id cache := by
  unfold authChain
  cases cache[id]? with
  | some chain => exact .const _
  | none => exact (Lasting.run _ _ _).bind fun order => .const _

theorem setChain_lasting (set : StateIds) (cache : ChainCache) :
    Lasting fun fuel => setChain fetch fuel set cache := by
  unfold setChain
  exact .foldlM _ (fun id (acc : OrdSet EventId × ChainCache) => (authChain_lasting fetch id acc.2).bind fun _ => .const _) _

theorem setChains_lasting (sets : List StateIds) : Lasting fun fuel => setChains fetch fuel sets := by
  unfold setChains
  exact .foldlM _ (fun set (acc : List (OrdSet EventId) × ChainCache) =>
    (setChain_lasting fetch set acc.2).bind fun _ => .const _) _

theorem fullConflictedSet_lasting (version : RoomVersion) (conflicted difference : OrdSet EventId) :
    Lasting fun fuel => fullConflictedSet fetch fuel version conflicted difference := by
  unfold fullConflictedSet
  cases version.stateRes with
  | v2 => exact .const _
  | v2_1 =>
    have subgraph : Lasting fun fuel => conflictedSubgraph fetch fuel conflicted :=
      (Lasting.run _ _ _).bind fun _ => (Lasting.run _ _ _).bind fun _ => .const _
    exact subgraph.bind fun _ => .const _

theorem powerSet_lasting (full : OrdSet EventId) (cache : ChainCache) :
    Lasting fun fuel => powerSet fetch fuel full cache := by
  unfold powerSet
  refine .foldlM _ (fun id (acc : OrdSet EventId × ChainCache) => ?_) _
  refine (Lasting.const _).bind fun event => ?_
  cases isPowerEvent event with
  | true => exact (authChain_lasting fetch id acc.2).bind fun _ => .const _
  | false => exact .const _

theorem reverseTopologicalPowerOrder_lasting (version : RoomVersion) (events : OrdSet EventId)
    (creators : OrdSet UserId) (cache : ChainCache) :
    Lasting fun fuel => reverseTopologicalPowerOrder fetch fuel version events creators cache := by
  have tables := Lasting.foldlM (f := fun acc id fuel =>
      tabulate fetch fuel version events creators acc id) events.toList
    (fun id acc => (Lasting.const _).bind fun _ => (Lasting.const _).bind fun _ =>
      (authChain_lasting fetch id acc.2).bind fun _ => .const _) (⟨∅, ∅, ∅⟩, cache)
  exact tables.bind fun _ => (Lasting.const _).bind fun _ => .run _ _ _

theorem placeAll_lasting (mainline : OrdMap EventId Nat) (remaining : List EventId) :
    Lasting fun fuel => placeAll fetch fuel mainline remaining := by
  have position (event : E) (cache : OrdMap EventId Nat) :
      Lasting fun fuel => mainlinePosition fetch fuel mainline event cache := by
    unfold mainlinePosition
    cases cache[Event.eventId event]? with
    | some pos => exact .const _
    | none => exact (Lasting.const _).bind fun _ => (Lasting.run _ _ _).bind fun _ => .const _
  unfold placeAll
  exact (Lasting.foldlM _ (fun id (acc : List Placed × OrdMap EventId Nat) => (Lasting.const _).bind fun event =>
    (position event acc.2).bind fun _ => .const _) _).bind fun _ => .const _

/-- **More fuel changes no resolution.** -/
theorem resolve_lasting (ruma : Ruma) (version : RoomVersion) (sets : List StateIds) :
    Lasting fun fuel => resolve ruma version fetch fuel sets := by
  unfold resolve
  split
  · exact .const _
  dsimp only
  split
  · exact .const _
  refine (setChains_lasting fetch sets).bind fun chains => ?_
  refine (fullConflictedSet_lasting fetch version _ _).bind fun full => ?_
  refine (Lasting.const _).bind fun create => (Lasting.const _).bind fun createEvent => ?_
  refine (powerSet_lasting fetch full _).bind fun power => ?_
  refine (reverseTopologicalPowerOrder_lasting fetch version _ _ _).bind fun sorted => ?_
  refine (Lasting.const _).bind fun partialState => (Lasting.run _ _ _).bind fun mainline => ?_
  exact (placeAll_lasting fetch mainline _).bind fun ordered => .const _

end Saltator.StateRes
