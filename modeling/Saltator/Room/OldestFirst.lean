import Mathlib.Data.String.Basic
import Saltator.Room.Birth
import Saltator.Room.Serving

/-!
# The order of the missing events

A request for missing events is answered with ancestors of the latest events, met without going through the
earliest, each once. The walk takes the deepest event ahead, and the answer is in the reverse order, for the
requester to apply. The depth is what an event says of itself: an ancestor of the greater depth is taken
before an event that names it, if both are ahead at the same time. It is the only way for the answer to be out
of order (`get_missing_events_ordered_iff`).
-/

namespace Saltator.Room.Serving

open Std
open Saltator.Outcome
open Saltator.Loop

section Model

variable (s : Store)

def Servable (id : EventId) (e : StoredEvent) : Prop := s.event[id]? = some e ∧ e.rejected = none

def Met (earliest latest : List EventId) (id : EventId) : Prop :=
  id ∉ earliest ∧ id ∉ latest ∧
    ∃ n ∈ latest, Relation.TransGen (fun a b => b ∈ parents s a ∧ b ∉ earliest) n id

/-- The answer consists of these events. -/
structure Recovered (earliest latest : List EventId) (limit minDepth : Nat) (ids : List EventId)
    (out : List JsonObject) : Prop where
  stored : List.Forall₂ (fun id raw => ∃ e, Servable s id e ∧ minDepth ≤ e.depth ∧ e.raw = raw) ids out
  few : ids.length ≤ limit
  nodup : ids.Nodup
  met : ∀ id ∈ ids, Met s earliest latest id

/-- No event comes before an ancestor of its own. -/
def OldestFirst (ids : List EventId) : Prop := ids.Pairwise fun a b => ¬ Ancestor s a b

/-- An ancestor of an event, both of them among these, has the greater depth, or the same and the greater id,
and events name the two, for the ancestor one that is not the event itself. -/
def Overtaken (among : EventId → Prop) : Prop :=
  ∃ id e a above, among id ∧ among a ∧ Servable s id e ∧ Servable s a above ∧ Ancestor s id a ∧
    (∃ n, id ∈ parents s n) ∧ (∃ n, n ≠ id ∧ a ∈ parents s n) ∧
    (e.depth < above.depth ∨ e.depth = above.depth ∧ id < a)

end Model

section Walk

variable {s : Store} {earliest latest : List EventId} {limit minDepth : Nat} {w w' : BackWalk}
  {ids : List EventId} {entry : Nat × EventId} {stored : StoredEvent} {entry' : Nat × EventId}
  {e above : StoredEvent}

theorem mem_parents_of {n p : EventId} (held : s.event[n]? = some stored) :
    p ∈ parents s n ↔ p ∈ prevEventIds stored.raw := by
  simp [parents, held]

theorem ancestor_of_parent {n p : EventId} (h : p ∈ parents s n) : Ancestor s n p := .single (mem_parents.1 h)

theorem mem_pushEvents {seen : OrdSet EventId} {prevs : List EventId} {frontier : OrdSet (Nat × EventId)} :
    entry ∈ prevs.foldl (pushEvent s seen) frontier ↔ entry ∈ frontier ∨
      entry.2 ∈ prevs ∧ entry.2 ∉ seen ∧ ∃ e, Servable s entry.2 e ∧ e.depth = entry.1 := by
  induction prevs generalizing frontier with
  | nil => simp
  | cons p prevs ih =>
    have pushed : entry ∈ pushEvent s seen frontier p ↔ entry ∈ frontier ∨
        entry.2 = p ∧ entry.2 ∉ seen ∧ ∃ e, Servable s entry.2 e ∧ e.depth = entry.1 := by
      unfold pushEvent
      split
      · rename_i old
        rw [ExtTreeSet.contains_iff_mem] at old
        exact (or_iff_left fun h => h.2.1 (h.1 ▸ old)).symm
      rename_i new
      rw [ExtTreeSet.contains_iff_mem] at new
      split
      · rename_i unheld
        refine (or_iff_left ?_).symm
        rintro ⟨rfl, -, e, ⟨held, -⟩, -⟩
        rw [unheld] at held
        cases held
      rename_i e held
      split
      · rename_i accepted
        rw [Option.isNone_iff_eq_none] at accepted
        rw [OrdSet.mem_insert', or_comm]
        refine or_congr_right ⟨?_, ?_⟩
        · rintro rfl
          exact ⟨rfl, new, e, ⟨held, accepted⟩, rfl⟩
        · rintro ⟨rfl, -, e', ⟨held', -⟩, depth⟩
          obtain rfl := some_unique held held'
          exact Prod.ext depth.symm rfl
      · rename_i rejected
        refine (or_iff_left ?_).symm
        rintro ⟨rfl, -, e', ⟨held', accepted⟩, -⟩
        obtain rfl := some_unique held held'
        simp [accepted] at rejected
    rw [List.foldl_cons, ih, pushed, List.mem_cons, or_and_right, or_assoc]

/-! ## What the walk answers -/

structure Recovers (s : Store) (earliest latest : List EventId) (limit minDepth : Nat) (w : BackWalk)
    (ids : List EventId) : Prop where
  out : Recovered s earliest latest limit minDepth ids w.out
  seen : ∀ id, id ∈ ids ∨ id ∈ earliest ∨ id ∈ latest → id ∈ w.seen
  ahead : ∀ entry ∈ w.frontier, entry.2 ∉ w.seen ∧ Met s earliest latest entry.2 ∧
    (∃ n ∈ w.seen, entry.2 ∈ parents s n) ∧ ∃ e, Servable s entry.2 e ∧ e.depth = entry.1

/-- What is ahead has no ancestor among the events that the walk has collected, nor has one of these among
those before it. -/
structure InOrder (s : Store) (w : BackWalk) (ids : List EventId) : Prop where
  collected : ids.Pairwise fun a b => ¬ Ancestor s b a
  ahead : ∀ entry ∈ w.frontier, ∀ a ∈ ids, ¬ Ancestor s entry.2 a

theorem Recovers.unique (h : Recovers s earliest latest limit minDepth w ids)
    (mem : entry ∈ w.frontier) (mem' : entry' ∈ w.frontier) (same : entry.2 = entry'.2) : entry = entry' := by
  obtain ⟨-, -, -, e, ⟨held, -⟩, depth⟩ := h.ahead entry mem
  obtain ⟨-, -, -, e', ⟨held', -⟩, depth'⟩ := h.ahead entry' mem'
  obtain rfl := some_unique held (same ▸ held')
  exact Prod.ext (depth.symm.trans depth') same

theorem Recovers.left (h : Recovers s earliest latest limit minDepth w ids) (mem : entry ∈ w.frontier)
    (mem' : entry' ∈ w.frontier.erase entry) :
    entry' ∈ w.frontier ∧ entry'.2 ∉ w.seen.insert entry.2 := by
  have before := ExtTreeSet.mem_of_mem_erase mem'
  refine ⟨before, fun seen => ?_⟩
  rcases OrdSet.mem_insert'.1 seen with same | seen
  · rw [h.unique before mem same, ExtTreeSet.mem_erase] at mem'
    simp at mem'
  · exact (h.ahead entry' before).1 seen

theorem Recovers.pass (h : Recovers s earliest latest limit minDepth w ids) (mem : entry ∈ w.frontier) :
    Recovers s earliest latest limit minDepth
      { w with seen := w.seen.insert entry.2, frontier := w.frontier.erase entry } ids := by
  refine ⟨h.out, fun id known => OrdSet.mem_insert'.2 (.inr (h.seen id known)), fun entry' mem' => ?_⟩
  obtain ⟨before, left⟩ := h.left mem mem'
  obtain ⟨-, met, ⟨n, seen, named⟩, held⟩ := h.ahead entry' before
  exact ⟨left, met, ⟨n, OrdSet.mem_insert'.2 (.inr seen), named⟩, held⟩

theorem Recovers.collect (h : Recovers s earliest latest limit minDepth w ids)
    (more : w.out.length < limit) (mem : entry ∈ w.frontier) (held : s.event[entry.2]? = some stored)
    (accepted : stored.rejected = none) (deep : minDepth ≤ stored.depth) :
    Recovers s earliest latest limit minDepth
      { seen := w.seen.insert entry.2
        frontier := (prevEventIds stored.raw).foldl (pushEvent s (w.seen.insert entry.2))
          (w.frontier.erase entry)
        out := w.out ++ [stored.raw] } (ids ++ [entry.2]) := by
  obtain ⟨new, met, -, -⟩ := h.ahead entry mem
  have passed := h.pass mem
  have length : ids.length = w.out.length := h.out.stored.length_eq
  refine ⟨⟨?_, ?_, ?_, ?_⟩, ?_, fun entry' mem' => ?_⟩
  · exact List.rel_append h.out.stored (.cons ⟨stored, ⟨held, accepted⟩, deep, rfl⟩ .nil)
  · rw [List.length_append, List.length_singleton]
    omega
  · refine List.nodup_append.2 ⟨h.out.nodup, List.nodup_singleton _, fun a mem b own same => ?_⟩
    rw [same, List.mem_singleton.1 own] at mem
    exact new (h.seen _ (.inl mem))
  · intro id mem
    rcases List.mem_append.1 mem with mem | own
    · exact h.out.met id mem
    · exact List.mem_singleton.1 own ▸ met
  · rintro id (mem | stop)
    · rcases List.mem_append.1 mem with mem | own
      · exact passed.seen id (.inl mem)
      · exact OrdSet.mem_insert'.2 (.inl (List.mem_singleton.1 own))
    · exact passed.seen id (.inr stop)
  · rcases mem_pushEvents.1 mem' with mem' | ⟨listed, fresh, held'⟩
    · exact passed.ahead entry' mem'
    · have named : entry'.2 ∈ parents s entry.2 := (mem_parents_of held).2 listed
      have out : entry'.2 ∉ earliest ∧ entry'.2 ∉ latest :=
        ⟨fun stop => fresh (passed.seen _ (.inr (.inl stop))),
          fun stop => fresh (passed.seen _ (.inr (.inr stop)))⟩
      obtain ⟨-, -, n, latest, way⟩ := met
      exact ⟨fresh, ⟨out.1, out.2, n, latest, way.tail ⟨named, out.1⟩⟩, ⟨entry.2, by simp, named⟩, held'⟩

theorem InOrder.pass (h : InOrder s w ids) :
    InOrder s { w with seen := w.seen.insert entry.2, frontier := w.frontier.erase entry } ids :=
  ⟨h.collected, fun entry' mem' => h.ahead entry' (ExtTreeSet.mem_of_mem_erase mem')⟩

theorem Recovers.deepest (h : Recovers s earliest latest limit minDepth w ids)
    (clear : ¬ Overtaken s (Met s earliest latest)) (last : w.frontier.toList.getLast? = some entry)
    (mem' : entry' ∈ w.frontier) (other : entry' ≠ entry) :
    ¬ Ancestor s entry'.2 entry.2 := by
  intro behind
  obtain ⟨mem, greatest⟩ := OrdSet.getLast?_toList.1 last
  obtain ⟨-, met, ⟨n, seen, named⟩, above, servable, depth⟩ := h.ahead entry mem
  obtain ⟨new, met', ⟨n', -, named'⟩, e, servable', depth'⟩ := h.ahead entry' mem'
  refine clear ⟨entry'.2, e, entry.2, above, met', met, servable', servable, behind, ⟨n', named'⟩,
    ⟨n, fun same => new (same ▸ seen), named⟩, ?_⟩
  have less := (greatest entry' mem').resolve_left other
  obtain ⟨d, id⟩ := entry
  obtain ⟨d', id'⟩ := entry'
  rw [compare_mk, Ordering.then_eq_lt, Nat.compare_eq_lt, Nat.compare_eq_eq, compare_lt_iff_lt] at less
  rw [depth, depth']
  exact less

theorem InOrder.collect (dag : ∀ id, ¬ Ancestor s id id)
    (clear : ¬ Overtaken s (Met s earliest latest)) (h : InOrder s w ids)
    (walk : Recovers s earliest latest limit minDepth w ids)
    (last : w.frontier.toList.getLast? = some entry) (held : s.event[entry.2]? = some stored) :
    InOrder s
      { seen := w.seen.insert entry.2
        frontier := (prevEventIds stored.raw).foldl (pushEvent s (w.seen.insert entry.2))
          (w.frontier.erase entry)
        out := w.out ++ [stored.raw] } (ids ++ [entry.2]) := by
  have mem := (OrdSet.getLast?_toList.1 last).1
  refine ⟨List.pairwise_append.2 ⟨h.collected, List.pairwise_singleton _ _, fun a mem' b own => ?_⟩,
    fun entry' mem' a collected => ?_⟩
  · rw [List.mem_singleton.1 own]
    exact h.ahead entry mem a mem'
  · rcases mem_pushEvents.1 mem' with mem' | ⟨listed, -, -⟩
    · rcases List.mem_append.1 collected with before | own
      · exact h.ahead entry' (ExtTreeSet.mem_of_mem_erase mem') a before
      · rw [List.mem_singleton.1 own]
        refine walk.deepest clear last (ExtTreeSet.mem_of_mem_erase mem') ?_
        rintro rfl
        rw [ExtTreeSet.mem_erase] at mem'
        simp at mem'
    · -- a prev of the event has no ancestor that the event has not
      have step : Ancestor s entry.2 entry'.2 := ancestor_of_parent ((mem_parents_of held).2 listed)
      intro behind
      rcases List.mem_append.1 collected with before | own
      · exact h.ahead entry mem a before (step.trans behind)
      · exact dag _ (step.trans (List.mem_singleton.1 own ▸ behind))

theorem mem_stop {id : EventId} :
    id ∈ OrdSet.extend (OrdSet.extend ∅ earliest) latest ↔ id ∈ earliest ∨ id ∈ latest := by
  rw [OrdSet.mem_extend, OrdSet.mem_extend, or_comm]
  simp

def firstAhead (s : Store) (earliest latest : List EventId) : BackWalk :=
  ⟨OrdSet.extend (OrdSet.extend ∅ earliest) latest, (latest.flatMap (parents s)).foldl
      (pushEvent s (OrdSet.extend (OrdSet.extend ∅ earliest) latest)) ∅, []⟩

theorem Recovers.begin : Recovers s earliest latest limit minDepth (firstAhead s earliest latest) [] := by
  refine ⟨⟨.nil, by simp, .nil, by simp⟩, fun id known => ?_, fun entry mem => ?_⟩
  · exact mem_stop.2 (known.resolve_left (List.not_mem_nil))
  · rcases mem_pushEvents.1 mem with none | ⟨listed, new, held⟩
    · simp at none
    · obtain ⟨n, mem, named⟩ := List.mem_flatMap.1 listed
      obtain ⟨free, other⟩ := not_or.1 (fun stop => new (mem_stop.2 stop))
      exact ⟨new, ⟨free, other, n, mem, .single ⟨named, free⟩⟩, ⟨n, mem_stop.2 (.inr mem), named⟩, held⟩

theorem walkBack_spec (dag : ∀ id, ¬ Ancestor s id id) (earliest latest : List EventId)
    (limit minDepth fuel : Nat) :
    (∀ out, run .outOfFuel (walkRound s limit minDepth) fuel (firstAhead s earliest latest) = .ok out →
      ∃ ids, Recovered s earliest latest limit minDepth ids out ∧
        (¬ Overtaken s (Met s earliest latest) → ids.Pairwise fun a b => ¬ Ancestor s b a)) ∧
    ∀ e, run .outOfFuel (walkRound s limit minDepth) fuel (firstAhead s earliest latest) = .error e →
      e = .outOfFuel := by
  refine And.imp_right (fun fails e failed => (fails e failed).resolve_right id) (run_result
    (I := fun w => ∃ ids, Recovers s earliest latest limit minDepth w ids ∧
      (¬ Overtaken s (Met s earliest latest) → InOrder s w ids))
    (Q := fun out => ∃ ids, Recovered s earliest latest limit minDepth ids out ∧
      (¬ Overtaken s (Met s earliest latest) → ids.Pairwise fun a b => ¬ Ancestor s b a))
    (F := fun _ => False)
    (fun w w' inv again => by
      obtain ⟨ids, walk, order⟩ := inv
      obtain ⟨left, -⟩ | ⟨entry, w'', same, more, last, visited⟩ := walkRound_cases again
      · cases left
      cases same
      have mem := (OrdSet.getLast?_toList.1 last).1
      cases visited with
      | again old => exact absurd old (walk.ahead entry mem).1
      | passed new out => exact ⟨ids, walk.pass mem, fun clear => (order clear).pass⟩
      | @collected stored new held accepted deep =>
        exact ⟨ids ++ [entry.2], walk.collect more mem held accepted deep,
          fun clear => (order clear).collect dag clear walk last held⟩)
    (fun w out inv left => by
      obtain ⟨ids, walk, order⟩ := inv
      obtain ⟨same, -⟩ | ⟨entry, w', again, -⟩ := walkRound_cases left
      · cases same
        exact ⟨ids, walk.out, fun clear => (order clear).collected⟩
      · cases again)
    (fun w e _ failed => walkRound_ne_error failed) fuel (firstAhead s earliest latest)
    ⟨[], .begin, fun _ => ⟨.nil, fun _ _ => by simp⟩⟩)

theorem getMissingEvents_answers (dag : ∀ id, ¬ Ancestor s id id) (earliest latest : List EventId)
    (limit minDepth : Nat) : ∃ out ids,
      SettlesTo .outOfFuel (fun fuel => getMissingEvents s fuel earliest latest limit minDepth) (.ok out) ∧
      Recovered s earliest latest limit minDepth ids out ∧
      (¬ Overtaken s (Met s earliest latest) → OldestFirst s ids) := by
  obtain ⟨r, intime, enough, settled⟩ : Loop.Settles .outOfFuel fun fuel =>
      walkBack s fuel (latest.flatMap (parents s)) (OrdSet.extend (OrdSet.extend ∅ earliest) latest)
        limit minDepth := walkBack_settles _
  have spec := walkBack_spec dag earliest latest limit minDepth enough
  have last : run .outOfFuel (walkRound s limit minDepth) enough (firstAhead s earliest latest) = r :=
    settled enough le_rfl
  cases r with
  | error e => exact absurd (congrArg Except.error (spec.2 e last)) intime
  | ok out =>
    obtain ⟨ids, recovered, order⟩ := spec.1 out last
    refine ⟨out.reverse, ids.reverse, ⟨by simp, enough, fun fuel le => ?_⟩, ⟨?_, ?_, ?_, ?_⟩,
      fun clear => List.pairwise_reverse.2 (order clear)⟩
    · have walked : walkBack s fuel (latest.flatMap (parents s))
          (OrdSet.extend (OrdSet.extend ∅ earliest) latest) limit minDepth = .ok out := settled fuel le
      simp only [getMissingEvents, walked, ok_bind]
      rfl
    · exact List.forall₂_reverse_iff.2 recovered.stored
    · rw [List.length_reverse]
      exact recovered.few
    · exact List.nodup_reverse.2 recovered.nodup
    · exact fun id mem => recovered.met id (List.mem_reverse.1 mem)

/-! ## A request that meets two events -/

theorem walkRound_collects (more : w.out.length < limit)
    (last : w.frontier.toList.getLast? = some entry) (new : entry.2 ∉ w.seen)
    (held : s.event[entry.2]? = some stored) (accepted : stored.rejected = none)
    (deep : minDepth ≤ stored.depth) :
    walkRound s limit minDepth w = .ok (.inl
      { seen := w.seen.insert entry.2
        frontier := (prevEventIds stored.raw).foldl (pushEvent s (w.seen.insert entry.2))
          (w.frontier.erase entry)
        out := w.out ++ [stored.raw] }) := by
  have unseen : w.seen.contains entry.2 = false := OrdSet.contains_eq_false.2 new
  have kept : ¬ (stored.rejected.isSome ∨ stored.depth < minDepth) := by simp [accepted, deep]
  simp only [walkRound, if_pos more, last, unseen, held, if_neg kept, Bool.false_eq_true, if_false]

/-- All that these events name, apart from the two. -/
def beside (s : Store) (id a : EventId) (names : List EventId) : List EventId :=
  (names.flatMap (parents s)).filter fun p => p ≠ id ∧ p ≠ a

theorem not_mem_beside {id a p n : EventId} {names : List EventId} (named : p ∈ parents s n) (mem : n ∈ names)
    (out : p ∉ beside s id a names) : p = id ∨ p = a := by
  by_contra neither
  exact out (List.mem_filter.2 ⟨List.mem_flatMap.2 ⟨n, mem, named⟩, decide_eq_true (not_or.1 neither)⟩)

theorem met_pair {id a n n' x : EventId} (met : Met s (beside s id a [n, n', id, a]) [n, n'] x) :
    x = id ∨ x = a := by
  obtain ⟨-, -, start, latest, way⟩ := met
  induction way with
  | single step =>
    have listed : start ∈ [n, n', id, a] := by
      rcases List.mem_cons.1 latest with rfl | other
      · exact List.mem_cons_self
      · rw [List.mem_singleton.1 other]
        simp
    exact not_mem_beside step.1 listed step.2
  | tail way step ih =>
    refine not_mem_beside step.1 ?_ step.2
    rcases ih with rfl | rfl <;> simp

theorem run_pair {id a : EventId} (servable : Servable s id e)
    (servable' : Servable s a above) (new : id ∉ w.seen) (new' : a ∉ w.seen) (none : w.out = [])
    (ahead : ∀ entry, entry ∈ w.frontier ↔ entry = (e.depth, id) ∨ entry = (above.depth, a))
    (closed : ∀ p ∈ parents s a, p ∉ w.seen → p = id ∨ p = a)
    (before : e.depth < above.depth ∨ e.depth = above.depth ∧ id < a) :
    run .outOfFuel (walkRound s 2 0) 3 w = .ok [above.raw, e.raw] := by
  have less : compare (e.depth, id) (above.depth, a) = .lt := by
    rwa [compare_mk, Ordering.then_eq_lt, Nat.compare_eq_lt, Nat.compare_eq_eq, compare_lt_iff_lt]
  have ne : id ≠ a := by
    rintro rfl
    rcases before with deeper | ⟨-, greater⟩
    · obtain rfl := some_unique servable.1 servable'.1
      exact lt_irrefl _ deeper
    · exact lt_irrefl _ greater
  have last : w.frontier.toList.getLast? = some (above.depth, a) := by
    refine OrdSet.getLast?_toList.2 ⟨(ahead _).2 (.inr rfl), fun entry mem => ?_⟩
    rcases (ahead entry).1 mem with rfl | rfl
    · exact .inr less
    · exact .inl rfl
  have first : walkRound s 2 0 w = _ := walkRound_collects (by simp [none]) last new' servable'.1
    servable'.2 (Nat.zero_le _)
  have rest : ∀ entry, entry ∈ (prevEventIds above.raw).foldl (pushEvent s (w.seen.insert a))
      (w.frontier.erase (above.depth, a)) ↔ entry = (e.depth, id) := by
    intro entry
    rw [mem_pushEvents, ExtTreeSet.mem_erase, ahead]
    constructor
    · rintro (⟨other, rfl | rfl⟩ | ⟨listed, fresh, e', ⟨held, -⟩, depth⟩)
      · rfl
      · simp at other
      · obtain ⟨off, unseen⟩ := not_or.1 (fun mem => fresh (OrdSet.mem_insert'.2 mem))
        have own := (closed _ ((mem_parents_of servable'.1).2 listed) unseen).resolve_right off
        rw [own] at held
        obtain rfl := some_unique servable.1 held
        exact Prod.ext depth.symm own
    · rintro rfl
      refine .inl ⟨fun same => ne (Prod.mk.inj (LawfulEqOrd.eq_of_compare same)).2.symm, .inl rfl⟩
  have last' : ((prevEventIds above.raw).foldl (pushEvent s (w.seen.insert a))
      (w.frontier.erase (above.depth, a))).toList.getLast? = some (e.depth, id) :=
    OrdSet.getLast?_toList.2 ⟨(rest _).2 rfl, fun entry mem => .inl ((rest entry).1 mem)⟩
  have second : walkRound s 2 0 ⟨w.seen.insert a, (prevEventIds above.raw).foldl
      (pushEvent s (w.seen.insert a)) (w.frontier.erase (above.depth, a)), w.out ++ [above.raw]⟩ = _ :=
    walkRound_collects (by simp [none]) last' (fun mem => (OrdSet.mem_insert'.1 mem).elim ne new)
      servable.1 servable.2 (Nat.zero_le _)
  simp only [run, first, second]
  simp [walkRound, none]

theorem overtaken_answered (dag : ∀ id, ¬ Ancestor s id id) {id a n n' : EventId}
    (servable : Servable s id e) (servable' : Servable s a above) (behind : Ancestor s id a)
    (named : id ∈ parents s n) (other : n' ≠ id) (named' : a ∈ parents s n')
    (before : e.depth < above.depth ∨ e.depth = above.depth ∧ id < a) :
    SettlesTo .outOfFuel (fun fuel => getMissingEvents s fuel (beside s id a [n, n', id, a]) [n, n'] 2 0)
      (.ok [e.raw, above.raw]) := by
  obtain ⟨free, free'⟩ : id ∉ [n, n'] ∧ a ∉ [n, n'] := by
    have step := ancestor_of_parent named
    have step' := ancestor_of_parent named'
    simp only [List.mem_cons, List.not_mem_nil, or_false, not_or]
    exact ⟨⟨fun same => dag id (same ▸ step), fun same => other same.symm⟩,
      fun same => dag a (.trans (same ▸ step : Ancestor s a id) behind), fun same => dag a (same ▸ step')⟩
  have unstopped : ∀ x, x = id ∨ x = a →
      x ∉ OrdSet.extend (OrdSet.extend ∅ (beside s id a [n, n', id, a])) [n, n'] := by
    intro x own mem
    rcases mem_stop.1 mem with side | latest
    · have off := of_decide_eq_true (List.mem_filter.1 side).2
      exact own.elim off.1 off.2
    · rcases own with rfl | rfl
      · exact free latest
      · exact free' latest
  have pair : ∀ x ∈ [n, n', id, a], ∀ y ∈ parents s x,
      y ∉ OrdSet.extend (OrdSet.extend ∅ (beside s id a [n, n', id, a])) [n, n'] → y = id ∨ y = a :=
    fun x mem y named new => not_mem_beside named mem fun side => new (mem_stop.2 (.inl side))
  have walked := run_pair (w := firstAhead s (beside s id a [n, n', id, a]) [n, n']) servable servable'
    (unstopped id (.inl rfl)) (unstopped a (.inr rfl)) rfl
    (fun entry => by
      refine mem_pushEvents.trans ((or_iff_right (by simp)).trans ⟨?_, ?_⟩)
      · rintro ⟨listed, new, e', ⟨held, -⟩, depth⟩
        obtain ⟨x, mem, named⟩ := List.mem_flatMap.1 listed
        rcases pair x (List.mem_append_left [id, a] mem) _ named new with own | own <;> rw [own] at held
        · obtain rfl := some_unique servable.1 held
          exact .inl (Prod.ext depth.symm own)
        · obtain rfl := some_unique servable'.1 held
          exact .inr (Prod.ext depth.symm own)
      · rintro (rfl | rfl)
        · exact ⟨List.mem_flatMap.2 ⟨n, by simp, named⟩, unstopped id (.inl rfl), e, servable, rfl⟩
        · exact ⟨List.mem_flatMap.2 ⟨n', by simp, named'⟩, unstopped a (.inr rfl), above, servable', rfl⟩)
    (fun p named => pair a (by simp) p named) before
  obtain ⟨-, enough, settled⟩ := run_settlesTo walked (by simp)
  refine ⟨by simp, enough, fun fuel le => ?_⟩
  have done : walkBack s fuel ([n, n'].flatMap (parents s))
      (OrdSet.extend (OrdSet.extend ∅ (beside s id a [n, n', id, a])) [n, n']) 2 0 =
        .ok [above.raw, e.raw] := settled fuel le
  simp only [getMissingEvents, done, ok_bind]
  rfl

end Walk

/-- **The missing events.** In an acyclic store, every request is answered with at most `limit` accepted
events, each once, each an ancestor of one of the latest that is met without going through the earliest, and
none of them one of the latest or earliest. Of no request the answer has an event before its own ancestor
exactly if no ancestor in the store overtakes; and for a single request it is enough that none does that the
request meets. -/
theorem get_missing_events_ordered_iff (s : Store) (dag : ∀ id, ¬ Ancestor s id id) :
    (∀ earliest latest limit minDepth, ∃ out ids,
      SettlesTo .outOfFuel (fun fuel => getMissingEvents s fuel earliest latest limit minDepth) (.ok out) ∧
      Recovered s earliest latest limit minDepth ids out ∧
      (¬ Overtaken s (Met s earliest latest) → OldestFirst s ids)) ∧
    ((∀ earliest latest limit minDepth, ∃ out ids,
      SettlesTo .outOfFuel (fun fuel => getMissingEvents s fuel earliest latest limit minDepth) (.ok out) ∧
      Recovered s earliest latest limit minDepth ids out ∧ OldestFirst s ids) ↔
    ¬ Overtaken s fun _ => True) := by
  have answers := getMissingEvents_answers (s := s) dag
  refine ⟨answers, fun served overtaken => ?_, fun clear earliest latest limit minDepth => ?_⟩
  · obtain ⟨id, e, a, above, -, -, servable, servable', behind, ⟨n, named⟩, ⟨n', other, named'⟩, before⟩ :=
      overtaken
    obtain ⟨out, ids, settles, recovered, order⟩ := served (beside s id a [n, n', id, a]) [n, n'] 2 0
    obtain rfl := Except.ok.inj (settles.unique
      (overtaken_answered dag servable servable' behind named other named' before))
    obtain ⟨x, xs, ⟨ex, sx, -, rawx⟩, more, rfl⟩ := List.forall₂_cons_right_iff.1 recovered.stored
    obtain ⟨y, ys, ⟨ey, sy, -, rawy⟩, none, rfl⟩ := List.forall₂_cons_right_iff.1 more
    obtain rfl := List.forall₂_nil_right_iff.1 none
    have differ : x ≠ y := by simpa using recovered.nodup
    have apart : ¬ Ancestor s x y := by simpa [OldestFirst] using order
    -- the two events that are met are the two that are answered
    rcases met_pair (recovered.met x (by simp)) with rfl | rfl
    · obtain rfl := (met_pair (recovered.met y (by simp))).resolve_left (Ne.symm differ)
      exact apart behind
    · obtain rfl := (met_pair (recovered.met y (by simp))).resolve_right (Ne.symm differ)
      -- they would have the same prevs
      obtain rfl := some_unique sx.1 servable'.1
      have same : ∀ p, p ∈ parents s y ↔ p ∈ parents s x := fun p => by
        rw [mem_parents_of servable.1, mem_parents_of sx.1, rawx]
      obtain ⟨p, step, rest⟩ := Relation.TransGen.head'_iff.1 behind
      obtain ⟨stored, held, listed⟩ := step
      have step' := ancestor_of_parent ((same p).1 ((mem_parents_of held).2 listed))
      exact dag x (step'.trans_left rest)
  · obtain ⟨out, ids, settles, recovered, order⟩ := answers earliest latest limit minDepth
    refine ⟨out, ids, settles, recovered, order fun overtaken => clear ?_⟩
    obtain ⟨id, e, a, above, -, -, rest⟩ := overtaken
    exact ⟨id, e, a, above, trivial, trivial, rest⟩

/-! ## An ancestor that says it is deeper -/

def sampleDeep : List Call :=
  [.ingest Ruma.sampleCreate false, .ingest Ruma.sampleJoin false,
    .ingest (Ruma.samplePdu "b" "m.room.message" none "@a:x" [] ["$c", "$j"] ["$j"] 100) false,
    .ingest (Ruma.samplePdu "m" "m.room.message" none "@a:x" [] ["$c", "$j"] ["$b"] 3) false,
    .ingest (Ruma.samplePdu "n" "m.room.message" none "@a:x" [] ["$c", "$j"] ["$m"] 4) false,
    .ingest (Ruma.samplePdu "o" "m.room.message" none "@a:x" [] ["$c", "$j"] ["$b"] 4) false]

def samplePlace (id : EventId) : Nat := ["$c", "$j", "$b", "$m", "$n", "$o"].idxOf id

def deepAt (s : Store) (id : EventId) (depth : Nat) (prevs : List EventId) : Bool :=
  (s.event[id]?).any fun e : StoredEvent =>
    decide (e.rejected = none ∧ e.depth = depth ∧ prevEventIds e.raw = prevs)

theorem deepAt_iff {s : Store} {id : EventId} {depth : Nat} {prevs : List EventId} :
    deepAt s id depth prevs = true ↔ ∃ e, Servable s id e ∧ e.depth = depth ∧ parents s id = prevs := by
  simp only [deepAt, Option.any_eq_true, decide_eq_true_eq, Servable, and_assoc]
  refine exists_congr fun e => and_congr_right fun held => ?_
  simp only [parents, held]

theorem exists_deep : ∃ s, Runs (Serial Ruma.sample) Store.empty s ∧ (∀ id, ¬ Ancestor s id id) ∧
    deepAt s "$b" 100 ["$j"] = true ∧ deepAt s "$m" 3 ["$b"] = true ∧
    deepAt s "$n" 4 ["$m"] = true ∧ deepAt s "$o" 4 ["$b"] = true := by
  have run : ((Server.sample ["x"]).serveAll (fun _ _ => True) 30 Store.empty sampleDeep).any (fun s =>
      s.event.toList.all (fun row => (prevEventIds row.2.raw).all fun p =>
        decide (samplePlace p < samplePlace row.1)) &&
      deepAt s "$b" 100 ["$j"] && deepAt s "$m" 3 ["$b"] && deepAt s "$n" 4 ["$m"] &&
      deepAt s "$o" 4 ["$b"]) = true := by
    decide +kernel
  obtain ⟨s, served, facts⟩ := (Option.any_eq_true _ _).1 run
  simp only [Bool.and_eq_true] at facts
  obtain ⟨⟨⟨⟨later, b⟩, m⟩, n⟩, o⟩ := facts
  refine ⟨s, (serveAll_runs served).mono fun _ _ => And.left, fun id around => ?_, b, m, n, o⟩
  have step : ∀ x y, (∃ e : StoredEvent, s.event[x]? = some e ∧ y ∈ prevEventIds e.raw) →
      samplePlace y < samplePlace x := by
    rintro x y ⟨e, held, listed⟩
    have row := List.all_eq_true.1 later (x, e) (OrdMap.mem_toList.2 held)
    exact of_decide_eq_true (List.all_eq_true.1 row y listed)
  have lower : ∀ x, Ancestor s id x → samplePlace x < samplePlace id := by
    intro x way
    induction way with
    | single edge => exact step _ _ edge
    | tail _ edge ih => exact (step _ _ edge).trans ih
  exact Nat.lt_irrefl _ (lower id around)

theorem get_missing_events_ordered_deep : ∃ s, Runs (Serial Ruma.sample) Store.empty s ∧
    ¬ ∀ earliest latest limit minDepth, ∃ out ids,
      SettlesTo .outOfFuel (fun fuel => getMissingEvents s fuel earliest latest limit minDepth) (.ok out) ∧
      Recovered s earliest latest limit minDepth ids out ∧ OldestFirst s ids := by
  obtain ⟨s, runs, dag, b, m, n, o⟩ := exists_deep
  refine ⟨s, runs, fun served => (get_missing_events_ordered_iff s dag).2.1 served ?_⟩
  obtain ⟨eb, sb, depthb, -⟩ := deepAt_iff.1 b
  obtain ⟨em, sm, depthm, prevsm⟩ := deepAt_iff.1 m
  obtain ⟨en, -, -, prevsn⟩ := deepAt_iff.1 n
  obtain ⟨eo, -, -, prevso⟩ := deepAt_iff.1 o
  exact ⟨"$m", em, "$b", eb, trivial, trivial, sm, sb, ancestor_of_parent (by simp [prevsm]),
    ⟨"$n", by simp [prevsn]⟩, ⟨"$o", by decide, by simp [prevso]⟩, .inl (by omega)⟩

/-- `$m` is answered before the event that it names. -/
theorem deep_ancestor_last : ∃ s m b, Runs (Serial Ruma.sample) Store.empty s ∧ Servable s "$m" m ∧
    Servable s "$b" b ∧ Ancestor s "$m" "$b" ∧
    SettlesTo .outOfFuel (fun fuel => getMissingEvents s fuel ["$j"] ["$n", "$o"] 2 0)
      (.ok [m.raw, b.raw]) := by
  obtain ⟨s, runs, dag, b, m, n, o⟩ := exists_deep
  obtain ⟨eb, sb, depthb, prevsb⟩ := deepAt_iff.1 b
  obtain ⟨em, sm, depthm, prevsm⟩ := deepAt_iff.1 m
  obtain ⟨en, -, -, prevsn⟩ := deepAt_iff.1 n
  obtain ⟨eo, -, -, prevso⟩ := deepAt_iff.1 o
  have behind : Ancestor s "$m" "$b" := ancestor_of_parent (by simp [prevsm])
  have around : beside s "$m" "$b" ["$n", "$o", "$m", "$b"] = ["$j"] := by
    simp [beside, prevsb, prevsm, prevsn, prevso]
  have answered := overtaken_answered dag sm sb behind (by simp [prevsn] : "$m" ∈ parents s "$n")
    (by decide : "$o" ≠ "$m") (by simp [prevso]) (.inl (by omega))
  rw [around] at answered
  exact ⟨s, em, eb, runs, sm, sb, behind, answered⟩

end Saltator.Room.Serving
