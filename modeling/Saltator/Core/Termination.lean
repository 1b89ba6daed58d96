import Saltator.Core.AuthChain

/-!
# The loops of state resolution finish

On a finite acyclic store every `while` loop of the algorithm settles. The walks descend in the
weight of what is left to visit, the marking passes in the number of unmarked nodes, and Kahn's
algorithm in the remaining dependents and then in the ready events.
-/

namespace Saltator.StateRes

open Std Saltator.Graph Outcome Loop

variable {E : Type} [Event E] {fetch : EventId → Option E}

/-! ## Power-levels lookups -/

theorem firstPowerLevels_mem {l : List EventId} {id : EventId} {e : E}
    (h : firstPowerLevels fetch l = .ok (some (id, e))) : id ∈ l ∧ fetch id = some e := by
  induction l with
  | nil => simp [firstPowerLevels] at h
  | cons a l ih =>
    rw [firstPowerLevels, bind_eq_ok] at h
    obtain ⟨auth, hauth, h⟩ := h
    split at h
    · simp only [pure_eq_ok, Option.some.injEq, Prod.mk.injEq] at h
      obtain ⟨rfl, rfl⟩ := h
      exact ⟨by simp, require_eq_ok.1 hauth⟩
    · obtain ⟨hmem, he⟩ := ih h
      exact ⟨List.mem_cons_of_mem a hmem, he⟩

theorem firstPowerLevels_ne_outOfFuel (l : List EventId) :
    firstPowerLevels fetch l ≠ .error .outOfFuel := by
  induction l with
  | nil => simp [firstPowerLevels]
  | cons a l ih =>
    refine bind_ne_error require_ne_outOfFuel fun auth _ => ?_
    split
    · simp [pure, Except.pure]
    · exact ih

theorem plInAuthEvents_ne_outOfFuel (e : E) : plInAuthEvents fetch e ≠ .error .outOfFuel :=
  bind_ne_error (firstPowerLevels_ne_outOfFuel _) fun _ _ => by simp [pure, Except.pure]

theorem senderPowerAt_ne_outOfFuel (version : RoomVersion) (e : E) (creators : OrdSet UserId) :
    senderPowerAt fetch version e creators ≠ .error .outOfFuel := by
  unfold senderPowerAt
  split
  · simp
  · refine bind_ne_error (firstPowerLevels_ne_outOfFuel _) fun found _ => ?_
    cases found <;> simp [pure, Except.pure]

theorem plInAuthEvents_mem {e : E} {id : EventId} (h : plInAuthEvents fetch e = .ok (some id)) :
    id ∈ Event.authEvents e := by
  rw [plInAuthEvents, bind_eq_ok] at h
  obtain ⟨found, hfound, h⟩ := h
  rw [pure_eq_ok] at h
  cases found with
  | none => simp at h
  | some p =>
    simp only [Option.map_some, Option.some.injEq] at h
    exact h ▸ (firstPowerLevels_mem hfound).1

section Weighted

variable (wf : WellFounded fun b a => Edge (authGraph fetch) a b)
include wf

/-! ## Walks along the power-levels events -/

noncomputable def hereWeight (here : Option EventId) : Nat := (here.map (weight wf)).getD 0

theorem hereWeight_next {id : EventId} {e : E} {next : Option EventId} (he : fetch id = some e)
    (hnext : plInAuthEvents fetch e = .ok next) :
    hereWeight wf next < hereWeight wf (some id) := by
  have hid := weight_fetch wf he
  cases next with
  | none => simp [hereWeight, hid]
  | some a =>
    have ha : weight wf a ≤ ((Event.authEvents e).map (weight wf)).sum :=
      List.single_le_sum (by simp) _ (List.mem_map_of_mem (plInAuthEvents_mem hnext))
    simp only [hereWeight, Option.map_some, Option.getD_some, hid]
    omega

theorem buildMainline_settles (start : Option EventId) :
    Settles .outOfFuel (fun fuel => buildMainline fetch fuel start) := by
  refine run_settles (I := fun _ => True)
    (measure fun s : Option EventId × Nat × OrdMap EventId Nat => hereWeight wf s.1).wf
    (fun s s' _ h => ⟨trivial, ?_⟩) (fun s _ => ?_) trivial
  · obtain ⟨here, index, mainline⟩ := s
    cases here with
    | none => simp [mainlineRound] at h
    | some id =>
      rw [mainlineRound, bind_eq_ok] at h
      obtain ⟨e, he, h⟩ := h
      obtain ⟨next, hnext, h⟩ := bind_eq_ok.1 h
      simp only [pure_eq_ok, Sum.inl.injEq] at h
      exact h ▸ hereWeight_next wf (require_eq_ok.1 he) hnext
  · obtain ⟨here, index, mainline⟩ := s
    cases here with
    | none => simp [mainlineRound]
    | some id =>
      exact bind_ne_error require_ne_outOfFuel fun e _ =>
        bind_ne_error (plInAuthEvents_ne_outOfFuel e) fun _ _ => by simp [pure, Except.pure]

theorem positionWalk_settles (mainline cache : OrdMap EventId Nat) (start : Option EventId)
    (walked : List EventId) :
    Settles .outOfFuel
      (fun fuel => run .outOfFuel (positionRound fetch mainline cache) fuel (start, walked)) := by
  refine run_settles (I := fun _ => True)
    (measure fun s : Option EventId × List EventId => hereWeight wf s.1).wf
    (fun s s' _ h => ⟨trivial, ?_⟩) (fun s _ => ?_) trivial
  · obtain ⟨here, walked⟩ := s
    cases here with
    | none => simp [positionRound] at h
    | some id =>
      simp only [positionRound] at h
      split at h
      · simp at h
      split at h
      · simp at h
      obtain ⟨e, he, h⟩ := bind_eq_ok.1 h
      obtain ⟨next, hnext, h⟩ := bind_eq_ok.1 h
      simp only [pure_eq_ok, Sum.inl.injEq] at h
      exact h ▸ hereWeight_next wf (require_eq_ok.1 he) hnext
  · obtain ⟨here, walked⟩ := s
    cases here with
    | none => simp [positionRound]
    | some id =>
      simp only [positionRound]
      split
      · simp
      split
      · simp
      · exact bind_ne_error require_ne_outOfFuel fun e _ =>
          bind_ne_error (plInAuthEvents_ne_outOfFuel e) fun _ _ => by simp [pure, Except.pure]

theorem mainlinePosition_settles (mainline cache : OrdMap EventId Nat) (e : E) :
    Settles .outOfFuel (fun fuel => mainlinePosition fetch fuel mainline e cache) := by
  unfold mainlinePosition
  split
  · exact .const (by simp)
  · exact .bind (.const (plInAuthEvents_ne_outOfFuel e)) fun start =>
      .bind (positionWalk_settles wf mainline cache start _) fun _ =>
        .const (by simp [pure, Except.pure])

theorem placeAll_settles (mainline : OrdMap EventId Nat) (remaining : List EventId) :
    Settles .outOfFuel (fun fuel => placeAll fetch fuel mainline remaining) := by
  refine .bind (.foldlM remaining (fun id _ acc => ?_) _) fun _ => .const (by simp [pure, Except.pure])
  exact .bind (.const require_ne_outOfFuel) fun e =>
    .bind (mainlinePosition_settles wf mainline acc.2 e) fun _ => .const (by simp [pure, Except.pure])

/-! ## The conflicted state subgraph -/

theorem edgesWalk_settles (stack : List EventId) (edges : OrdMap EventId (List EventId)) :
    Settles .outOfFuel (fun fuel => run .outOfFuel (edgesRound fetch) fuel (stack, edges)) := by
  refine run_settles (I := fun _ => True) (measure fun s : List EventId × OrdMap EventId (List EventId) =>
      (s.1.map (weight wf)).sum).wf
    (fun s s' _ h => ⟨trivial, ?_⟩) (fun s _ => ?_) trivial
  · obtain ⟨stack, edges⟩ := s
    cases stack with
    | nil => simp [edgesRound] at h
    | cons id stack =>
      simp only [edgesRound] at h
      split at h
      · simp only [Except.ok.injEq, Sum.inl.injEq] at h
        subst h
        have := weight_pos wf id
        change (stack.map (weight wf)).sum < ((id :: stack).map (weight wf)).sum
        simp only [List.map_cons, List.sum_cons]
        omega
      · obtain ⟨e, he, h⟩ := bind_eq_ok.1 h
        simp only [pure_eq_ok, Sum.inl.injEq] at h
        subst h
        change (((Event.authEvents e).reverse ++ stack).map (weight wf)).sum <
          ((id :: stack).map (weight wf)).sum
        simp only [List.map_append, List.sum_append, List.map_reverse, List.sum_reverse,
          List.map_cons, List.sum_cons, weight_fetch wf (require_eq_ok.1 he)]
        omega
  · obtain ⟨stack, edges⟩ := s
    cases stack with
    | nil => simp [edgesRound]
    | cons id stack =>
      simp only [edgesRound]
      split
      · simp
      · exact bind_ne_error require_ne_outOfFuel fun _ _ => by simp [pure, Except.pure]

end Weighted

def marked (reaches : OrdMap EventId Bool) (id : EventId) : Bool := reaches[id]?.getD false

theorem marked_insert {reaches : OrdMap EventId Bool} {id a : EventId} :
    marked (reaches.insert id true) a = (decide (a = id) || marked reaches a) := by
  unfold marked
  rw [OrdMap.getElem?_insert']
  by_cases h : a = id <;> simp [h]

theorem reachesPass_spec (edges : OrdMap EventId (List EventId)) (reaches : OrdMap EventId Bool) :
    (∀ a, marked reaches a → marked (reachesPass edges reaches).1 a) ∧
    ((reachesPass edges reaches).2 = true →
      ∃ a ∈ edges.keys, marked reaches a = false ∧ marked (reachesPass edges reaches).1 a) := by
  have hkeys : ∀ p ∈ edges.toList, p.1 ∈ edges.keys := fun p hp => by
    rw [← ExtTreeMap.map_fst_toList_eq_keys]
    exact List.mem_map_of_mem hp
  unfold reachesPass
  refine List.foldlRecOn (motive := fun acc : OrdMap EventId Bool × Bool =>
    (∀ a, marked reaches a → marked acc.1 a) ∧
    (acc.2 = true → ∃ a ∈ edges.keys, marked reaches a = false ∧ marked acc.1 a))
    edges.toList _ (by simp) fun acc hacc p hp => ?_
  obtain ⟨reaches', changed⟩ := acc
  obtain ⟨node, auth⟩ := p
  obtain ⟨keep, added⟩ := hacc
  dsimp only
  split
  · rename_i hnew
    rw [Bool.and_eq_true, Bool.not_eq_true'] at hnew
    refine ⟨fun a ha => by simp [marked_insert, keep a ha], fun _ =>
      ⟨node, hkeys _ hp, ?_, by simp [marked_insert]⟩⟩
    rw [← Bool.not_eq_true]
    intro hm
    simpa using hnew.1.symm.trans (keep node hm)
  · exact ⟨keep, added⟩

theorem countP_lt_countP {α : Type} {p q : α → Bool} {l : List α} (h : ∀ x, p x → q x) {a : α}
    (ha : a ∈ l) (hq : q a) (hp : p a = false) : l.countP p < l.countP q := by
  obtain ⟨before, after, rfl⟩ := List.append_of_mem ha
  have hb : before.countP p ≤ before.countP q := List.countP_mono_left fun x _ => h x
  have hafter : after.countP p ≤ after.countP q := List.countP_mono_left fun x _ => h x
  simp only [List.countP_append, List.countP_cons, hq, hp, if_true, Bool.false_eq_true, if_false]
  omega

theorem reachesLoop_settles (edges : OrdMap EventId (List EventId)) (reaches : OrdMap EventId Bool) :
    Settles .outOfFuel (fun fuel => run .outOfFuel (reachesRound edges) fuel reaches) := by
  refine run_settles (I := fun _ => True) (measure fun r : OrdMap EventId Bool =>
    edges.keys.countP fun a => !marked r a).wf (fun r r' _ h => ⟨trivial, ?_⟩)
    (fun r _ => by simp [reachesRound]) trivial
  obtain ⟨keep, added⟩ := reachesPass_spec edges r
  simp only [reachesRound, Except.ok.injEq] at h
  split at h
  · rename_i changed
    obtain rfl := Sum.inl.inj h
    obtain ⟨a, ha, hbefore, hafter⟩ := added changed
    refine countP_lt_countP (fun x hx => ?_) ha (by simp [hbefore]) (by simp [hafter])
    rw [Bool.not_eq_true'] at hx ⊢
    rw [← Bool.not_eq_true] at hx ⊢
    exact fun hm => hx (keep x hm)
  · simp at h

theorem conflictedSubgraph_settles (wf : WellFounded fun b a => Edge (authGraph fetch) a b)
    (conflicted : OrdSet EventId) :
    Settles .outOfFuel (fun fuel => conflictedSubgraph fetch fuel conflicted) :=
  .bind (edgesWalk_settles wf _ _) fun edges =>
    .bind (reachesLoop_settles edges _) fun _ => .const (by simp [pure, Except.pure])

theorem fullConflictedSet_settles (wf : WellFounded fun b a => Edge (authGraph fetch) a b)
    (version : RoomVersion) (conflicted difference : OrdSet EventId) :
    Settles .outOfFuel (fun fuel => fullConflictedSet fetch fuel version conflicted difference) := by
  unfold fullConflictedSet
  cases version.stateRes with
  | v2 => exact .const (by simp)
  | v2_1 =>
    exact .bind (conflictedSubgraph_settles wf conflicted) fun _ =>
      .const (by simp [pure, Except.pure])

/-! ## Kahn's algorithm -/

theorem release_dependents {keys : OrdMap EventId SortKey} {id dependent : EventId} {k k' : Kahn}
    (h : release keys id k dependent = .ok k') : k'.dependents = k.dependents := by
  unfold release at h
  split at h
  · simp only [Except.ok.injEq] at h
    exact h ▸ rfl
  · simp at h

theorem kahnRound_ne_outOfFuel (keys : OrdMap EventId SortKey) (k : Kahn) :
    kahnRound keys k ≠ .error .outOfFuel := by
  unfold kahnRound
  split
  · simp
  · refine bind_ne_error (foldlM_ne_error (fun a _ k => ?_) _) fun _ _ => by
      simp [pure, Except.pure]
    unfold release
    split <;> simp

theorem kahn_settles (keys : OrdMap EventId SortKey) (k : Kahn) :
    Settles .outOfFuel (fun fuel => run .outOfFuel (kahnRound keys) fuel k) := by
  refine run_settles (I := fun _ => True) (InvImage.wf (fun k : Kahn => (k.dependents.size, k.ready.size))
      (Prod.lex Nat.lt_wfRel Nat.lt_wfRel).wf)
    (fun k k' _ h => ⟨trivial, ?_⟩) (fun k _ => kahnRound_ne_outOfFuel keys k) trivial
  unfold kahnRound at h
  split at h
  · simp at h
  · rename_i key id hmin
    obtain ⟨k'', hfold, h⟩ := bind_eq_ok.1 h
    simp only [pure_eq_ok, Sum.inl.injEq] at h
    subst h
    cases hd : k.dependents[id]? with
    | none =>
      -- Nothing waits for this event: the dependents stay and one event leaves the ready set.
      have hid : id ∉ k.dependents := fun hm => by
        simp [ExtTreeMap.getElem?_eq_some_getElem hm] at hd
      have hmem : (key, id) ∈ k.ready := OrdSet.mem_toList'.1 (List.mem_of_head? hmin)
      simp only [hd, Option.getD_none, List.foldlM_nil, pure_eq_ok] at hfold
      subst hfold
      have hsame : (k.dependents.erase id).size = k.dependents.size := by
        rw [ExtTreeMap.size_erase, if_neg fun hc => hid (ExtTreeMap.contains_iff_mem.1 hc)]
      change Prod.Lex _ _ ((k.dependents.erase id).size, _) (k.dependents.size, _)
      rw [hsame]
      exact .right _ (OrdSet.size_erase_lt hmem)
    | some waiting =>
      have hid : id ∈ k.dependents := OrdMap.mem_iff_getElem?.2 ⟨waiting, hd⟩
      have hdep : k''.dependents = k.dependents.erase id :=
        foldlM_invariant (fun _ (k' : Kahn) => k'.dependents = k.dependents.erase id)
          (fun a _ b b' hb h => (release_dependents h).trans hb) rfl hfold
      refine .left _ _ ?_
      change k''.dependents.size < k.dependents.size
      exact hdep ▸ OrdMap.size_erase_lt hid

end Saltator.StateRes
