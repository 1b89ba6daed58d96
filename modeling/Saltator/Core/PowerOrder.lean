import Mathlib.Data.String.Basic
import Saltator.Core.Presentation
import Saltator.Lib.Greedy

/-!
# The power ordering

Power events are sorted with Kahn's algorithm: an event is output once all its auth ancestors in the set are,
and of the events that may be output the one of the greatest sender power goes first, then the earliest, then
that of the smallest id. The order is the only one that takes the least event in this sense everywhere
(`power_order_greedy`).
-/

namespace Saltator.StateRes

open Std
open Saltator.Outcome
open Saltator.Loop
open Saltator.Graph
open Saltator.Greedy

section Order

variable {E : Type} [Event E] {fetch : EventId → Option E} {version : RoomVersion}
  {creators : OrdSet UserId} {events : OrdSet EventId} {keys : OrdMap EventId SortKey}
  {id : EventId} {p p' : PowerLevel}

def Needs (fetch : EventId → Option E) (events : OrdSet EventId) (x y : EventId) : Prop :=
  x ∈ events ∧ y ∈ events ∧ Below (authGraph fetch) x y

/-- The event is stored, with this power of its sender and this time. -/
def RankedAs (fetch : EventId → Option E) (version : RoomVersion) (creators : OrdSet UserId) (id : EventId)
    (power : PowerLevel) (ts : Nat) : Prop :=
  ∃ e, fetch id = some e ∧ senderPowerAt fetch version e creators = .ok power ∧ Event.originServerTs e = ts

/-- Greater sender power first, then the smaller time, then the smaller id. -/
def Precedes (fetch : EventId → Option E) (version : RoomVersion) (creators : OrdSet UserId)
    (a b : EventId) : Prop :=
  ∃ p t p' t', RankedAs fetch version creators a p t ∧ RankedAs fetch version creators b p' t' ∧
    (p'.lt p = true ∨ p = p' ∧ (t < t' ∨ t = t' ∧ a ≤ b))

/-! ## Sort keys -/

theorem RankedAs.unique {t t' : Nat}
    (h : RankedAs fetch version creators id p t) (h' : RankedAs fetch version creators id p' t') :
    p = p' ∧ t = t' := by
  obtain ⟨e, found, power, rfl⟩ := h
  obtain ⟨e', found', power', rfl⟩ := h'
  obtain rfl := some_unique found found'
  exact ⟨ok_unique power power', rfl⟩

theorem PowerLevel.lt_asymm {a b : PowerLevel} (h : a.lt b = true) : ¬ b.lt a = true ∧ a ≠ b := by
  cases a <;> cases b <;> simp [PowerLevel.lt, PowerLevel.le] at h ⊢
  omega

theorem Precedes.antisymm {a b : EventId} (h : Precedes fetch version creators a b)
    (h' : Precedes fetch version creators b a) : a = b := by
  obtain ⟨p, t, p', t', ra, rb, first⟩ := h
  obtain ⟨q', u', q, u, rb', ra', second⟩ := h'
  obtain ⟨rfl, rfl⟩ := ra.unique ra'
  obtain ⟨rfl, rfl⟩ := rb.unique rb'
  rcases first with stronger | ⟨rfl, first⟩
  · rcases second with weaker | ⟨same, -⟩
    · exact absurd weaker (PowerLevel.lt_asymm stronger).1
    · exact absurd same (PowerLevel.lt_asymm stronger).2
  rcases second with weaker | ⟨-, second⟩
  · exact absurd rfl (PowerLevel.lt_asymm weaker).2
  rcases first with earlier | ⟨rfl, first⟩
  · rcases second with later | ⟨same, -⟩ <;> omega
  rcases second with later | ⟨-, second⟩
  · omega
  exact String.le_antisymm first second

theorem compare_reverseKey (p p' : PowerLevel) :
    (compare p.reverseKey p'.reverseKey = .lt ↔ p'.lt p = true) ∧
      (compare p.reverseKey p'.reverseKey = .eq ↔ p = p') := by
  cases p <;> cases p' <;>
    simp [PowerLevel.reverseKey, PowerLevel.lt, PowerLevel.le, compare_mk, Int.compare_eq_lt,
      Ordering.then_eq_lt, Nat.compare_eq_lt]

theorem precedes_of_le {a b : EventId} {t t' : Nat}
    (ra : RankedAs fetch version creators a p t) (rb : RankedAs fetch version creators b p' t')
    (le : (compare ((p.reverseKey, t, a), a) ((p'.reverseKey, t', b), b)).isLE) :
    Precedes fetch version creators a b := by
  refine ⟨p, t, p', t', ra, rb, ?_⟩
  have named : (compare a b).isLE → a ≤ b := fun le =>
    compare_le_iff_le.1 (Ordering.isLE_iff_ne_gt.1 le)
  simp only [compare_mk, Ordering.isLE_then_iff_or, Ordering.then_eq_lt, Ordering.then_eq_eq,
    (compare_reverseKey p p').1, (compare_reverseKey p p').2, Nat.compare_eq_lt, Nat.compare_eq_eq] at le
  rcases le with (stronger | ⟨same, earlier | ⟨atOnce, smaller⟩⟩) | ⟨⟨same, atOnce, -⟩, smaller⟩
  · exact .inl stronger
  · exact .inr ⟨same, .inl earlier⟩
  · exact .inr ⟨same, .inr ⟨atOnce, named (by simp [smaller])⟩⟩
  · exact .inr ⟨same, .inr ⟨atOnce, named smaller⟩⟩

/-! ## The tables -/

theorem firstPowerLevels_held {l : List EventId} (held : ∀ a ∈ l, (fetch a).isSome) :
    ∃ found, firstPowerLevels fetch l = .ok found := by
  induction l with
  | nil => exact ⟨none, rfl⟩
  | cons a l ih =>
    obtain ⟨e, found⟩ := Option.isSome_iff_exists.1 (held a List.mem_cons_self)
    obtain ⟨rest, later⟩ := ih fun b mem => held b (List.mem_cons_of_mem a mem)
    simp only [firstPowerLevels, require_eq_ok.2 found, ok_bind]
    split
    · exact ⟨_, rfl⟩
    · exact ⟨rest, later⟩

theorem senderPowerAt_held {e : E} (found : fetch id = some e)
    (complete : Complete (authGraph fetch) id) : ∃ p, senderPowerAt fetch version e creators = .ok p := by
  have held : ∀ a ∈ Event.authEvents e, (fetch a).isSome := fun a cited => by
    have edge : Edge (authGraph fetch) id a := ⟨Event.authEvents e, by simp [authGraph, found], cited⟩
    simpa [authGraph] using complete a (.single edge)
  obtain ⟨first, known⟩ := firstPowerLevels_held held
  unfold senderPowerAt
  split
  · exact ⟨_, rfl⟩
  · rw [known, ok_bind]
    cases first <;> exact ⟨_, rfl⟩

def HasKeys (fetch : EventId → Option E) (version : RoomVersion) (creators : OrdSet UserId)
    (keys : OrdMap EventId SortKey) (ids : List EventId) : Prop :=
  ∀ x ∈ ids, ∃ p t, RankedAs fetch version creators x p t ∧ keys[x]? = some (p.reverseKey, t, x)

/-- The tables after some of the events have been entered. -/
structure Tabled (fetch : EventId → Option E) (version : RoomVersion) (creators : OrdSet UserId)
    (events : OrdSet EventId) (done : List EventId) (tables : PowerTables) : Prop where
  keys : HasKeys fetch version creators tables.keys done
  pending : ∀ x ∈ done, x ∈ tables.pending
  deps : ∀ x deps, tables.pending[x]? = some deps →
    x ∈ done ∧ ∀ y, y ∈ deps ↔ y ∈ events ∧ Below (authGraph fetch) x y
  dependents : ∀ x y, x ∈ tables.dependents[y]?.getD [] ↔
    x ∈ done ∧ y ∈ events ∧ Below (authGraph fetch) x y

theorem mem_enlisted {id x y : EventId} (deps : List EventId) (dependents : OrdMap EventId (List EventId)) :
    x ∈ (deps.foldl (fun dependents d => dependents.insert d (dependents[d]?.getD [] ++ [id]))
        dependents)[y]?.getD [] ↔ x ∈ dependents[y]?.getD [] ∨ x = id ∧ y ∈ deps := by
  induction deps generalizing dependents with
  | nil => simp
  | cons d deps ih =>
    rw [List.foldl_cons, ih, OrdMap.getElem?_insert']
    by_cases same : y = d
    · subst same
      simp
      tauto
    · simp [same]

theorem tabulate_spec {done : List EventId} {acc : PowerTables × ChainCache} (fuel : Nat)
    (tabled : Tabled fetch version creators events done acc.1) (coherent : Coherent fetch acc.2) :
    (∀ r, tabulate fetch fuel version events creators acc id = .ok r →
      Tabled fetch version creators events (done ++ [id]) r.1 ∧ Coherent fetch r.2) ∧
    (∀ err, tabulate fetch fuel version events creators acc id = .error err →
      err = .outOfFuel ∨ ¬ Complete (authGraph fetch) id) := by
  constructor
  · intro r entered
    simp only [tabulate, bind_eq_ok] at entered
    obtain ⟨e, found, p, power, ⟨chain, cache⟩, walked, same⟩ := entered
    obtain rfl := pure_eq_ok.1 same
    obtain ⟨-, isChain, coherent'⟩ := (authChain_spec coherent fuel).1 chain cache walked
    have below : ∀ y, y ∈ chain.filter (fun a => events.contains a) ↔
        y ∈ events ∧ Below (authGraph fetch) id y := fun y => by
      rw [OrdSet.mem_filter', isChain y, ExtTreeSet.contains_iff_mem]
      exact and_comm
    refine ⟨⟨fun x mem => ?_, fun x mem => ?_, fun x deps at_x => ?_, fun x y => ?_⟩, coherent'⟩
    · simp only [OrdMap.getElem?_insert']
      split
      · rename_i own
        subst own
        exact ⟨p, _, ⟨e, require_eq_ok.1 found, power, rfl⟩, rfl⟩
      · rename_i other
        exact tabled.keys x (by simpa [other] using mem)
    · by_cases own : x = id
      · simp [own]
      · exact ExtTreeMap.mem_insert.2 (.inr (tabled.pending x (by simpa [own] using mem)))
    · rw [OrdMap.getElem?_insert'] at at_x
      split at at_x
      · rename_i own
        obtain rfl := Option.some.inj at_x
        exact ⟨by simp [own], own ▸ below⟩
      · obtain ⟨mem, known⟩ := tabled.deps x deps at_x
        exact ⟨List.mem_append_left _ mem, known⟩
    · simp only [mem_enlisted, tabled.dependents, OrdSet.mem_toList', below, List.mem_append,
        List.mem_singleton, or_and_right]
      refine or_congr_right (and_congr_right fun own => ?_)
      rw [own]
  · intro err failed
    by_contra neither
    obtain ⟨inTime, complete⟩ := not_or.1 neither
    replace complete := not_not.1 complete
    obtain ⟨e, found⟩ : ∃ e, fetch id = some e := by
      simpa [authGraph, Option.isSome_iff_exists] using complete id .refl
    obtain ⟨p, power⟩ : ∃ p, senderPowerAt fetch version e creators = .ok p :=
      senderPowerAt_held found complete
    simp only [tabulate, require_eq_ok.2 found, power, ok_bind, bind_eq_error] at failed
    obtain walk | ⟨r, -, failed⟩ := failed
    · rcases (authChain_spec coherent fuel).2 err walk with late | partly
      · exact inTime late
      · exact partly complete
    · simp [pure, Except.pure] at failed

def markReady (keys : OrdMap EventId SortKey) (ready : OrdSet (SortKey × EventId))
    (row : EventId × OrdSet EventId) : Except StateResError (OrdSet (SortKey × EventId)) :=
  if row.2.isEmpty then
    match keys[row.1]? with
    | some key => .ok (ready.insert (key, row.1))
    | none => .error .panic
  else .ok ready

theorem markReady_spec {rows : List (EventId × OrdSet EventId)}
    (keyed : ∀ row ∈ rows, ∃ key, keys[row.1]? = some key) :
    ∃ ready, rows.foldlM (markReady keys) ∅ = .ok ready ∧ ∀ entry, entry ∈ ready ↔
      keys[entry.2]? = some entry.1 ∧ ∃ deps, (entry.2, deps) ∈ rows ∧ deps.isEmpty := by
  suffices general : ∀ start, ∃ ready, rows.foldlM (markReady keys) start = .ok ready ∧
      ∀ entry, entry ∈ ready ↔ entry ∈ start ∨
        keys[entry.2]? = some entry.1 ∧ ∃ deps, (entry.2, deps) ∈ rows ∧ deps.isEmpty by
    simpa using general ∅
  induction rows with
  | nil => exact fun start => ⟨start, rfl, by simp⟩
  | cons row rows ih =>
    intro start
    obtain ⟨id, deps⟩ := row
    obtain ⟨key, at_id⟩ := keyed (id, deps) List.mem_cons_self
    have later := ih fun row mem => keyed row (List.mem_cons_of_mem _ mem)
    by_cases free : deps.isEmpty = true
    · obtain ⟨ready, ran, known⟩ := later (start.insert (key, id))
      refine ⟨ready, by simpa [markReady, free, at_id] using ran, fun entry => ?_⟩
      rw [known, OrdSet.mem_insert']
      constructor
      · rintro ((rfl | early) | ⟨own, deps', mem, free'⟩)
        · exact .inr ⟨at_id, deps, List.mem_cons_self, free⟩
        · exact .inl early
        · exact .inr ⟨own, deps', List.mem_cons_of_mem _ mem, free'⟩
      · rintro (early | ⟨own, deps', mem, free'⟩)
        · exact .inl (.inr early)
        rcases List.mem_cons.1 mem with same | mem
        · obtain ⟨same, -⟩ := Prod.mk.inj same
          rw [same, at_id] at own
          exact .inl (.inl (Prod.ext (Option.some.inj own).symm same))
        · exact .inr ⟨own, deps', mem, free'⟩
    · obtain ⟨ready, ran, known⟩ := later start
      refine ⟨ready, by simpa [markReady, free] using ran, fun entry => ?_⟩
      rw [known]
      refine or_congr_right (and_congr_right fun _ => exists_congr fun deps' => ?_)
      refine and_congr_left fun free' => ?_
      refine ⟨List.mem_cons_of_mem _, fun mem => (List.mem_cons.1 mem).resolve_left fun same => ?_⟩
      obtain ⟨-, rfl⟩ := Prod.mk.inj same
      exact free free'

/-! ## The rounds -/

/-- Kahn's algorithm between two rounds. -/
structure Sorting (fetch : EventId → Option E) (version : RoomVersion) (creators : OrdSet UserId)
    (events : OrdSet EventId) (keys : OrdMap EventId SortKey) (k : Kahn) : Prop where
  nodup : k.out.Nodup
  within : ∀ x ∈ k.out, x ∈ events
  progress : Progress (· ∈ events) (Needs fetch events) (Precedes fetch version creators) k.out
  pending : ∀ x ∈ events, ∃ deps, k.pending[x]? = some deps ∧
    ∀ y, y ∈ deps ↔ Needs fetch events x y ∧ y ∉ k.out
  dependents : ∀ x y, y ∉ k.out → (x ∈ k.dependents[y]?.getD [] ↔ Needs fetch events x y)
  ready : ∀ entry, entry ∈ k.ready ↔ keys[entry.2]? = some entry.1 ∧ entry.2 ∈ events ∧
    entry.2 ∉ k.out ∧ Available (Needs fetch events) k.out entry.2

/-- While the dependents of `id` are being released, after those of `done`; `out` are the events before it. -/
structure Releasing (fetch : EventId → Option E) (events : OrdSet EventId) (keys : OrdMap EventId SortKey)
    (out : List EventId) (id : EventId) (done : List EventId) (k : Kahn) : Prop where
  pending : ∀ x ∈ events, ∃ deps, k.pending[x]? = some deps ∧
    ∀ y, y ∈ deps ↔ Needs fetch events x y ∧ y ∉ out ∧ (x ∈ done → y ≠ id)
  ready : ∀ entry, entry ∈ k.ready ↔ keys[entry.2]? = some entry.1 ∧ entry.2 ∈ events ∧
    entry.2 ∉ out ++ [id] ∧ ∀ y, Needs fetch events entry.2 y → y ∈ out ∨ entry.2 ∈ done ∧ y = id

section Rounds

variable {keys : OrdMap EventId SortKey} {k : Kahn}

theorem release_spec {out done : List EventId} {id dependent : EventId}
    (keyed : ∀ x ∈ events, ∃ key, keys[x]? = some key)
    (releasing : Releasing fetch events keys out id done k) (needs : Needs fetch events dependent id)
    (left : dependent ∉ out ++ [id]) :
    ∃ k', release keys id k dependent = .ok k' ∧ Releasing fetch events keys out id (done ++ [dependent]) k' ∧
      k'.out = k.out ∧ k'.dependents = k.dependents := by
  obtain ⟨deps, at_dependent, known⟩ := releasing.pending dependent needs.1
  obtain ⟨key, at_key⟩ := keyed dependent needs.1
  have remaining : ∀ y, y ∈ deps.erase id ↔ Needs fetch events dependent y ∧ y ∉ out ∧ y ≠ id := fun y => by
    rw [ExtTreeSet.mem_erase, known, ne_eq, LawfulEqOrd.compare_eq_iff_eq]
    grind
  have free : (deps.erase id).isEmpty = true ↔ ∀ y, Needs fetch events dependent y → y ∈ out ∨ y = id := by
    rw [ExtTreeSet.isEmpty_iff, ExtTreeSet.eq_empty_iff_forall_not_mem]
    simp only [remaining]
    grind
  have released : release keys id k dependent = .ok { k with
      pending := k.pending.insert dependent (deps.erase id)
      ready := if (deps.erase id).isEmpty then k.ready.insert (key, dependent) else k.ready } := by
    simp only [release, at_dependent, at_key]
  refine ⟨_, released, ⟨fun x mem => ?_, fun entry => ?_⟩, rfl, rfl⟩
  · by_cases own : x = dependent
    · subst own
      refine ⟨deps.erase id, by simp, fun y => ?_⟩
      simp [remaining]
    · obtain ⟨deps', at_x, known'⟩ := releasing.pending x mem
      refine ⟨deps', by simp [OrdMap.getElem?_insert', own, at_x], fun y => ?_⟩
      simp [known', own]
  · have before := releasing.ready entry
    by_cases own : entry.2 = dependent
    · have whole : (∀ y, Needs fetch events entry.2 y → y ∈ out ∨ entry.2 ∈ done ++ [dependent] ∧ y = id) ↔
          (deps.erase id).isEmpty = true := by
        rw [free, own]
        simp
      have entered : entry = (key, dependent) ↔ keys[entry.2]? = some entry.1 := by
        rw [own, at_key, Option.some.injEq]
        exact ⟨fun same => same ▸ rfl, fun same => Prod.ext same.symm own⟩
      have early : entry ∈ k.ready → (deps.erase id).isEmpty = true := fun mem => by
        refine free.2 fun y needs => ?_
        exact ((before.1 mem).2.2.2 y (own ▸ needs)).imp_right And.right
      have place : entry.2 ∈ events ∧ entry.2 ∉ out ++ [id] := own ▸ ⟨needs.1, left⟩
      rw [whole, ← entered]
      dsimp only
      split
      · rename_i empty
        rw [OrdSet.mem_insert']
        constructor
        · rintro (same | mem)
          · exact ⟨same, place.1, place.2, empty⟩
          · exact ⟨entered.2 (before.1 mem).1, place.1, place.2, empty⟩
        · exact fun h => .inl h.1
      · rename_i more
        exact ⟨fun mem => absurd (early mem) more, fun h => absurd h.2.2.2 more⟩
    · have same : entry ∈ (if (deps.erase id).isEmpty = true then k.ready.insert (key, dependent)
          else k.ready) ↔ entry ∈ k.ready := by
        split
        · rw [OrdSet.mem_insert']
          exact or_iff_right fun same => own (same ▸ rfl)
        · rfl
      rw [same, before]
      simp [own]

theorem Sorting.head_spec {key : SortKey} {id : EventId} (h : Sorting fetch version creators events keys k)
    (keyed : HasKeys fetch version creators keys events.toList)
    (head : k.ready.toList.head? = some (key, id)) :
    (key, id) ∈ k.ready ∧ ∀ y ∈ events, y ∉ k.out → Available (Needs fetch events) k.out y →
      Precedes fetch version creators id y := by
  have mem : (key, id) ∈ k.ready := OrdSet.mem_toList'.1 (List.mem_of_head? head)
  refine ⟨mem, fun y within left available => ?_⟩
  obtain ⟨at_id, inside, -, -⟩ := (h.ready _).1 mem
  obtain ⟨p, t, ranked, own⟩ := keyed id (OrdSet.mem_toList'.2 inside)
  obtain ⟨p', t', ranked', own'⟩ := keyed y (OrdSet.mem_toList'.2 within)
  obtain rfl : key = (p.reverseKey, t, id) := some_unique at_id own
  have other : ((p'.reverseKey, t', y), y) ∈ k.ready := (h.ready _).2 ⟨own', within, left, available⟩
  exact precedes_of_le ranked ranked' (OrdSet.head_least head other)

theorem kahnRound_spec (acyclic : ∀ id, ¬ Below (authGraph fetch) id id)
    (keyed : HasKeys fetch version creators keys events.toList)
    (h : Sorting fetch version creators events keys k) :
    kahnRound keys k = .ok (.inr k.out) ∧ k.ready = ∅ ∨
      ∃ k', kahnRound keys k = .ok (.inl k') ∧ Sorting fetch version creators events keys k' := by
  unfold kahnRound
  cases head : k.ready.toList.head? with
  | none =>
    refine .inl ⟨rfl, ExtTreeSet.eq_empty_iff_forall_not_mem.2 fun entry mem => ?_⟩
    rw [List.head?_eq_none_iff] at head
    simpa [head] using OrdSet.mem_toList'.2 mem
  | some first =>
    obtain ⟨key, id⟩ := first
    obtain ⟨mem, least⟩ := h.head_spec keyed head
    obtain ⟨at_id, inside, left, available⟩ := (h.ready _).1 mem
    have waiting : ∀ x ∈ k.dependents[id]?.getD [], Needs fetch events x id ∧ x ∉ k.out ++ [id] := by
      intro x listed
      have needs := (h.dependents x id left).1 listed
      refine ⟨needs, fun early => ?_⟩
      rcases List.mem_append.1 early with early | own
      · exact left (h.progress.available early needs)
      · obtain rfl := List.mem_singleton.1 own
        exact acyclic x needs.2.2
    have keyed' : ∀ x ∈ events, ∃ key, keys[x]? = some key := fun x within => by
      obtain ⟨p, t, -, own⟩ := keyed x (OrdSet.mem_toList'.2 within)
      exact ⟨_, own⟩
    have start : Releasing fetch events keys k.out id []
        { k with
          ready := k.ready.erase (key, id)
          dependents := k.dependents.erase id
          out := k.out ++ [id] } := by
      refine ⟨fun x within => ?_, fun entry => ?_⟩
      · simpa using h.pending x within
      · rw [ExtTreeSet.mem_erase, h.ready, ne_eq, LawfulEqOrd.compare_eq_iff_eq]
        have own : keys[entry.2]? = some entry.1 → ((key, id) = entry ↔ entry.2 = id) := fun at_entry => by
          refine ⟨fun same => same ▸ rfl, fun same => Prod.ext ?_ same.symm⟩
          exact some_unique at_id (same ▸ at_entry)
        simp only [List.mem_append, List.mem_singleton, List.not_mem_nil, false_and, or_false, not_or,
          Available]
        grind
    obtain ⟨done, failed⟩ := foldlM_spec (l := k.dependents[id]?.getD [])
      (I := fun done k' => Releasing fetch events keys k.out id done k' ∧ k'.out = k.out ++ [id] ∧
        k'.dependents = k.dependents.erase id) (F := fun _ => False)
      (fun done x k' k'' listed inv ran => by
        obtain ⟨k₁, released, releasing, out, dependents⟩ :=
          release_spec keyed' inv.1 (waiting x listed).1 (waiting x listed).2
        obtain rfl := ok_unique released ran
        exact ⟨releasing, out.trans inv.2.1, dependents.trans inv.2.2⟩)
      (fun done x k' err listed inv ran => by
        obtain ⟨k₁, released, -⟩ := release_spec keyed' inv.1 (waiting x listed).1 (waiting x listed).2
        rw [released] at ran
        cases ran)
      ⟨start, rfl, rfl⟩
    cases ran : (k.dependents[id]?.getD []).foldlM (release keys id)
        { k with
          ready := k.ready.erase (key, id)
          dependents := k.dependents.erase id
          out := k.out ++ [id] } with
    | error err => exact absurd ran (failed err)
    | ok k' =>
      obtain ⟨releasing, out, dependents⟩ := done k' ran
      refine .inr ⟨k', by simp only [ran]; rfl, ?_⟩
      have listed : ∀ x, x ∈ k.dependents[id]?.getD [] ↔ Needs fetch events x id :=
        fun x => h.dependents x id left
      refine ⟨?_, ?_, ?_, fun x within => ?_, fun x y later => ?_, fun entry => ?_⟩
      · rw [out]
        exact List.nodup_append.2 ⟨h.nodup, List.nodup_singleton id, fun a early b own => by
          obtain rfl := List.mem_singleton.1 own
          exact fun same => left (same ▸ early)⟩
      · intro x mem
        rw [out] at mem
        rcases List.mem_append.1 mem with early | own
        · exact h.within x early
        · exact List.mem_singleton.1 own ▸ inside
      · rw [out]
        exact h.progress.snoc available least
      · obtain ⟨deps, at_x, known⟩ := releasing.pending x within
        refine ⟨deps, at_x, fun y => ?_⟩
        rw [known, out, listed]
        grind
      · rw [out] at later
        rw [dependents, OrdMap.getElem?_erase', if_neg (by grind)]
        exact h.dependents x y (by grind)
      · rw [releasing.ready, out]
        refine and_congr_right fun _ => and_congr_right fun _ => and_congr_right fun _ => ?_
        simp only [listed, Available]
        grind

end Rounds

/-! ## The order -/

theorem Sorting.all_out {k : Kahn} (wf : WellFounded fun b a => Edge (authGraph fetch) a b)
    (keyed : HasKeys fetch version creators keys events.toList)
    (h : Sorting fetch version creators events keys k) (empty : k.ready = ∅) :
    ∀ x ∈ events, x ∈ k.out := by
  have below : WellFounded fun b a => Below (authGraph fetch) a b :=
    Subrelation.wf (fun h => Relation.transGen_swap.2 h) wf.transGen
  intro x
  induction x using below.induction with
  | h x ih =>
    intro within
    by_contra left
    obtain ⟨p, t, -, at_x⟩ := keyed x (OrdSet.mem_toList'.2 within)
    have ready : ((p.reverseKey, t, x), x) ∈ k.ready :=
      (h.ready _).2 ⟨at_x, within, left, fun y needs => ih y needs.2.2 needs.2.1⟩
    simp [empty] at ready

theorem Tabled.sorting {tables : PowerTables} {ready : OrdSet (SortKey × EventId)}
    (tabled : Tabled fetch version creators events events.toList tables)
    (known : ∀ entry, entry ∈ ready ↔ tables.keys[entry.2]? = some entry.1 ∧
      ∃ deps, (entry.2, deps) ∈ tables.pending.toList ∧ deps.isEmpty) :
    Sorting fetch version creators events tables.keys ⟨ready, tables.pending, tables.dependents, []⟩ := by
  have needs : ∀ x ∈ events, ∀ y, Needs fetch events x y ↔ y ∈ events ∧ Below (authGraph fetch) x y :=
    fun x within y => and_iff_right within
  refine ⟨List.nodup_nil, by simp, .nil, fun x within => ?_, fun x y _ => ?_, fun entry => ?_⟩
  · obtain ⟨deps, at_x⟩ := OrdMap.mem_iff_getElem?.1 (tabled.pending x (OrdSet.mem_toList'.2 within))
    refine ⟨deps, at_x, fun y => ?_⟩
    rw [(tabled.deps x deps at_x).2 y, needs x within]
    simp
  · rw [tabled.dependents, OrdSet.mem_toList']
    rfl
  · rw [known]
    refine and_congr_right fun _ => ⟨?_, ?_⟩
    · rintro ⟨deps, row, free⟩
      obtain ⟨within, below⟩ := tabled.deps _ _ (OrdMap.mem_toList.1 row)
      refine ⟨OrdSet.mem_toList'.1 within, by simp, fun y need => ?_⟩
      rw [ExtTreeSet.isEmpty_iff] at free
      simpa [free] using (below y).2 need.2
    · rintro ⟨within, -, available⟩
      obtain ⟨deps, at_x⟩ := OrdMap.mem_iff_getElem?.1 (tabled.pending _ (OrdSet.mem_toList'.2 within))
      refine ⟨deps, OrdMap.mem_toList.2 at_x, ?_⟩
      rw [ExtTreeSet.isEmpty_iff, ExtTreeSet.eq_empty_iff_forall_not_mem]
      intro y mem
      simpa using available y ((needs _ within y).2 (((tabled.deps _ _ at_x).2 y).1 mem))

theorem power_order_spec (wf : WellFounded fun b a => Edge (authGraph fetch) a b)
    (acyclic : ∀ id, ¬ Below (authGraph fetch) id id) {cache : ChainCache} (coherent : Coherent fetch cache)
    (fuel : Nat) :
    (∀ order, reverseTopologicalPowerOrder fetch fuel version events creators cache = .ok order →
      order.Perm events.toList ∧ LeastFirst (Needs fetch events) (Precedes fetch version creators) order) ∧
    (∀ err, reverseTopologicalPowerOrder fetch fuel version events creators cache = .error err →
      err = .outOfFuel ∨ ∃ id ∈ events, ¬ Complete (authGraph fetch) id) := by
  have tables := foldlM_spec (f := tabulate fetch fuel version events creators) (l := events.toList)
    (I := fun done (acc : PowerTables × ChainCache) =>
      Tabled fetch version creators events done acc.1 ∧ Coherent fetch acc.2)
    (F := fun err => err = .outOfFuel ∨ ∃ id ∈ events, ¬ Complete (authGraph fetch) id)
    (fun done id acc acc' _ inv ran => (tabulate_spec fuel inv.1 inv.2).1 acc' ran)
    (fun done id acc err mem inv ran => ((tabulate_spec fuel inv.1 inv.2).2 err ran).imp_right
      fun partly => ⟨id, OrdSet.mem_toList'.1 mem, partly⟩)
    (b := (⟨∅, ∅, ∅⟩, cache)) ⟨⟨by simp [HasKeys], by simp, by simp, by simp⟩, coherent⟩
  have unfolded : reverseTopologicalPowerOrder fetch fuel version events creators cache =
      (do let r ← events.toList.foldlM (tabulate fetch fuel version events creators) (⟨∅, ∅, ∅⟩, cache)
          let ready ← r.1.pending.toList.foldlM (markReady r.1.keys) ∅
          run .outOfFuel (kahnRound r.1.keys) fuel ⟨ready, r.1.pending, r.1.dependents, []⟩) :=
    rfl
  rw [unfolded]
  cases entered : events.toList.foldlM (tabulate fetch fuel version events creators)
      (⟨∅, ∅, ∅⟩, cache) with
  | error err =>
    refine ⟨fun order done => by simp at done, fun err' failed => ?_⟩
    simp only [error_bind, Except.error.injEq] at failed
    exact failed ▸ tables.2 err entered
  | ok r =>
    obtain ⟨tables', cache'⟩ := r
    obtain ⟨tabled, -⟩ := tables.1 _ entered
    have keyed : ∀ row ∈ tables'.pending.toList, ∃ key, tables'.keys[row.1]? = some key := fun row mem => by
      obtain ⟨p, t, -, own⟩ := tabled.keys row.1 (tabled.deps _ row.2 (OrdMap.mem_toList.1 mem)).1
      exact ⟨_, own⟩
    obtain ⟨ready, marked, known⟩ := markReady_spec keyed
    simp only [ok_bind, marked]
    refine And.imp_right (fun fails err failed => .inl ((fails err failed).resolve_right id)) (run_result
      (I := Sorting fetch version creators events tables'.keys)
      (Q := fun order => order.Perm events.toList ∧
        LeastFirst (Needs fetch events) (Precedes fetch version creators) order) (F := fun _ => False)
      (fun k k' sorting ran => by
        rcases kahnRound_spec acyclic tabled.keys sorting with ⟨left, -⟩ | ⟨k₁, again, next⟩
        · simp [left] at ran
        · obtain rfl := Sum.inl.inj (ok_unique again ran)
          exact next)
      (fun k order sorting ran => by
        rcases kahnRound_spec acyclic tabled.keys sorting with ⟨left, empty⟩ | ⟨k₁, again, -⟩
        · obtain rfl := Sum.inr.inj (ok_unique left ran)
          refine ⟨(List.perm_ext_iff_of_nodup sorting.nodup ?_).2 fun x => ?_,
            sorting.progress.leastFirst sorting.nodup sorting.within⟩
          · exact ExtTreeSet.distinct_toList.imp fun differ same => by simp [same] at differ
          · rw [OrdSet.mem_toList']
            exact ⟨sorting.within x, sorting.all_out wf tabled.keys empty x⟩
        · simp [again] at ran)
      (fun k err sorting ran => by
        rcases kahnRound_spec acyclic tabled.keys sorting with ⟨left, -⟩ | ⟨k₁, again, -⟩
        · simp [left] at ran
        · simp [again] at ran)
      fuel _ (tabled.sorting known))

/-- The power ordering of events of a finite acyclic store is the one that takes, of the events whose
ancestors in the set have all been taken, the one of the greatest sender power, then the earliest, then that
of the smallest id. -/
theorem power_order_greedy (version : RoomVersion) (events : OrdSet EventId) (creators : OrdSet UserId)
    (finite : {id | (fetch id).isSome}.Finite) (acyclic : ∀ id, ¬ Below (authGraph fetch) id id)
    {cache : ChainCache} (coherent : Coherent fetch cache) :
    ∃ r, SettlesTo .outOfFuel
        (fun fuel => reverseTopologicalPowerOrder fetch fuel version events creators cache) r ∧
      (∀ order, r = .ok order → order.Perm events.toList ∧
        LeastFirst (Needs fetch events) (Precedes fetch version creators) order ∧
        ∀ order', order'.Perm events.toList →
          LeastFirst (Needs fetch events) (Precedes fetch version creators) order' → order' = order) ∧
      ((∀ id ∈ events, Complete (authGraph fetch) id) → ∃ order, r = .ok order) := by
  have wf := authGraph_wellFounded finite acyclic
  obtain ⟨⟨r, settles⟩, -⟩ :=
    (reverseTopologicalPowerOrder_alike wf coherent coherent version events creators).settles
  obtain ⟨inTime, enough, same⟩ := id settles
  have spec := @power_order_spec _ _ _ version creators events wf acyclic cache coherent enough
  have last : reverseTopologicalPowerOrder fetch enough version events creators cache = r :=
    same enough le_rfl
  rw [last] at spec
  refine ⟨r, settles, fun order done => ?_, fun complete => ?_⟩
  · obtain ⟨perm, least⟩ := spec.1 order done
    refine ⟨perm, least, fun order' perm' least' => ?_⟩
    exact least'.unique (fun _ _ => Precedes.antisymm) least (perm'.trans perm.symm)
  · cases r with
    | ok order => exact ⟨order, rfl⟩
    | error err =>
      rcases spec.2 err rfl with rfl | ⟨id, mem, partly⟩
      · exact absurd rfl inTime
      · exact absurd (complete id mem) partly

end Order

theorem power_order_greedy_topics : ∃ r, SettlesTo .outOfFuel
    (fun fuel => reverseTopologicalPowerOrder sampleFetch fuel .v11 (OrdSet.extend ∅ ["$t", "$c"])
      (OrdSet.extend ∅ ["@a:x"]) ∅) r :=
  (power_order_greedy .v11 _ _
    sampleFetch_finite sampleFetch_acyclic coherent_empty).imp fun _ found => found.1

end Saltator.StateRes
