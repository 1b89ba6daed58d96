import Saltator.Core.AuthChain

/-!
# Auth chains from any true cache

A cache may know the chains of events that cannot be fetched, or that lead to such events. The walk stops at
what is cached, so it fails only for what it has to fetch itself. Otherwise it answers with the chain that the
event has among all events that there are, and what it adds to the cache is true again.
-/

namespace Saltator.StateRes

open Std
open Saltator.Graph
open Outcome
open Loop

variable {E : Type} [Event E] {known fetch : EventId → Option E} {cache : ChainCache} {id : EventId}
  {fuel : Nat} {order : List EventId}

def Fetches (known fetch : EventId → Option E) : Prop := ∀ id e, fetch id = some e → known id = some e

def TrueChains (known : EventId → Option E) (cache : ChainCache) : Prop := Chains (IsChain known) cache

def Sought (known : EventId → Option E) (cache : ChainCache) : EventId → EventId → Prop :=
  Relation.ReflTransGen fun a b => a ∉ cache ∧ Edge (authGraph known) a b

def Lacking (known fetch : EventId → Option E) (cache : ChainCache) (id : EventId) : Prop :=
  ∃ a, Sought known cache id a ∧ a ∉ cache ∧ fetch a = none

/-! ## The walk -/

theorem walkRound_cached {w : ChainWalk} {n : EventId} {rest : List (EventId × Bool)}
    (top : w.stack = (n, false) :: rest) (cached : n ∈ cache) :
    walkRound fetch cache w = .ok (.inl { w with stack := rest }) := by
  unfold walkRound
  rw [top]
  dsimp only
  rw [if_pos (by simp [cached])]

theorem walkRound_sought {w w' : ChainWalk} (fetches : Fetches known fetch)
    (h : ∀ n b, (n, b) ∈ w.stack → Sought known cache id n)
    (round : walkRound fetch cache w = .ok (.inl w')) :
    ∀ n b, (n, b) ∈ w'.stack → Sought known cache id n := by
  rcases walkRound_cases round with ⟨_, hout⟩ | ⟨n, b, rest, top, _, hout⟩ | ⟨n, rest, top, hout⟩ |
    ⟨n, rest, e, top, held, hout⟩
  · cases hout
  · obtain rfl := Sum.inl.inj hout
    exact fun m b' mem => h m b' (top ▸ List.mem_cons_of_mem _ mem)
  · obtain rfl := Sum.inl.inj hout
    exact fun m b' mem => h m b' (top ▸ List.mem_cons_of_mem _ mem)
  · by_cases cached : n ∈ cache
    · obtain rfl := Sum.inl.inj (ok_unique round (walkRound_cached top cached))
      exact fun m b' mem => h m b' (top ▸ List.mem_cons_of_mem _ mem)
    · obtain rfl := Sum.inl.inj hout
      intro m b' mem
      have here := h n false (top ▸ List.mem_cons_self)
      simp only [List.mem_append, List.mem_map, List.mem_reverse, List.mem_filter, Prod.mk.injEq,
        List.mem_cons] at mem
      obtain ⟨a, ⟨cites, _⟩, rfl, _⟩ | ⟨rfl, _⟩ | mem := mem
      · exact here.tail ⟨cached, Event.authEvents e, by simp [authGraph, fetches n e held], cites⟩
      · exact here
      · exact h m b' (top ▸ List.mem_cons_of_mem _ mem)

theorem walk_lacking (fetches : Fetches known fetch) {err : StateResError}
    (h : run .outOfFuel (walkRound fetch cache) fuel ⟨[(id, false)], ∅, []⟩ = .error err) :
    err = .outOfFuel ∨ Lacking known fetch cache id := by
  refine (run_result (I := fun w : ChainWalk => ∀ n b, (n, b) ∈ w.stack → Sought known cache id n)
    (Q := fun _ => True) (F := fun _ => Lacking known fetch cache id)
    (fun w w' inv round => walkRound_sought fetches inv round) (fun _ _ _ _ => trivial)
    (fun w err inv round => ?_) fuel _ fun n b mem => ?_).2 err h
  · obtain ⟨n, rest, top, missing, rfl⟩ := walkRound_error round
    refine ⟨n, inv n false (top ▸ List.mem_cons_self), fun cached => ?_, missing⟩
    cases round.symm.trans (walkRound_cached top cached)
  · obtain ⟨rfl, -⟩ := Prod.mk.inj (List.mem_singleton.1 mem)
    exact .refl

/-! ## The post-order -/

theorem Postorder.fetched (h : Postorder fetch cache order) {n : EventId}
    (mem : n ∈ order) : ∃ e, fetch n = some e ∧ ∀ c ∈ Event.authEvents e, c ∈ order ∨ c ∈ cache := by
  induction h with
  | nil => cases mem
  | @snoc order m e _ held cites ih =>
    have grow (c : EventId) : c ∈ order ∨ c ∈ cache → c ∈ order ++ [m] ∨ c ∈ cache :=
      .imp_left (List.mem_append_left _)
    obtain mem | mem := List.mem_append.1 mem
    · obtain ⟨e', held', cites'⟩ := ih mem
      exact ⟨e', held', fun c cited => grow c (cites' c cited)⟩
    · obtain rfl := List.mem_singleton.1 mem
      exact ⟨e, held, fun c cited => grow c (cites c cited)⟩

theorem Postorder.not_lacking (fetches : Fetches known fetch)
    (h : Postorder fetch cache order) (root : id ∈ order) : ¬ Lacking known fetch cache id := by
  have dealt (a : EventId) (sought : Sought known cache id a) : a ∈ order ∨ a ∈ cache := by
    induction sought with
    | refl => exact .inl root
    | @tail b c _ step ih =>
      obtain ⟨uncached, l, cites, mem⟩ := step
      obtain ⟨e, held, stays⟩ := h.fetched (ih.resolve_right uncached)
      rw [authGraph, fetches b e held] at cites
      exact stays c (Option.some.inj cites ▸ mem)
  rintro ⟨a, sought, uncached, missing⟩
  obtain ⟨e, held, -⟩ := h.fetched ((dealt a sought).resolve_right uncached)
  rw [missing] at held
  cases held

theorem not_lacking_of_cached (cached : id ∈ cache) : ¬ Lacking known fetch cache id := by
  rintro ⟨a, sought, uncached, -⟩
  obtain rfl | ⟨b, ⟨uncached', -⟩, -⟩ := sought.cases_head
  · exact uncached cached
  · exact uncached' cached

theorem assembles_true (fetches : Fetches known fetch) : Assembles (IsChain known) fetch :=
  fun _ n e cached held cites => assemble_chain cached held (by simp [authGraph, fetches n e held]) cites

/-- **Auth chains with a true cache.** On a finite acyclic store the call finishes. It fails exactly if
an event reached through events that are not cached, the root included, is neither cached nor to be
fetched, and otherwise answers with the chain and leaves a true cache. -/
theorem authChain_cached (finite : {id | (fetch id).isSome}.Finite)
    (acyclic : ∀ id, ¬ Below (authGraph fetch) id id) (fetches : Fetches known fetch)
    (cached : TrueChains known cache) (id : EventId) :
    ∃ r, SettlesTo .outOfFuel (fun fuel => authChain fetch fuel id cache) r ∧
      ((∃ err, r = .error err) ↔ Lacking known fetch cache id) ∧
      ∀ chain cache', r = .ok (chain, cache') → IsChain known id chain ∧ TrueChains known cache' := by
  obtain ⟨r, intime, enough, answers⟩ := authChain_settles (authGraph_wellFounded finite acyclic) id cache
  refine ⟨r, ⟨intime, enough, answers⟩, ?_⟩
  rw [← answers enough le_rfl] at intime ⊢
  dsimp only at intime ⊢
  obtain ⟨chain, hit, out⟩ | ⟨-, err, failed, out⟩ |
      ⟨-, order, chain, cache', post, root, exact, kept, out⟩ := authChain_cases
    (assembles_true fetches) cached id enough
  all_goals rw [out] at intime ⊢
  · refine ⟨⟨nofun, fun lacking => ?_⟩, fun chain' cache' h => ?_⟩
    · exact absurd lacking (not_lacking_of_cached (OrdMap.mem_iff_getElem?.2 ⟨chain, hit⟩))
    · obtain ⟨rfl, rfl⟩ := ok_pair h
      exact ⟨cached id _ hit, cached⟩
  · refine ⟨⟨fun _ => (walk_lacking fetches failed).resolve_left ?_, fun _ => ⟨err, rfl⟩⟩, nofun⟩
    rintro rfl
    exact intime rfl
  · refine ⟨⟨nofun, fun lacking => absurd lacking (post.not_lacking fetches root)⟩,
      fun chain' cache'' h => ?_⟩
    obtain ⟨rfl, rfl⟩ := ok_pair h
    exact ⟨exact, kept⟩

/-! ## A gap behind the cache -/

def gapEvent (id : EventId) (authEvents : List EventId) : IdentifiedPdu where
  eventId := id
  pdu := ⟨some "!r:x", "@a:x", 0, "m.room.topic", some "", [], authEvents, authEvents, 1, none, [], none⟩

/-- `$i` cites `$y`, and `$y` cites `$x`, which nobody has. -/
def gapFetch (id : EventId) : Option IdentifiedPdu :=
  if id = "$i" then some (gapEvent id ["$y"]) else if id = "$y" then some (gapEvent id ["$x"]) else none

/-- The chain of `$y`. -/
def gapCache : ChainCache := (∅ : ChainCache).insert "$y" (OrdSet.extend ∅ ["$x"])

theorem gapFetch_finite : {id | (gapFetch id).isSome}.Finite := by
  refine (Set.toFinite {"$i", "$y"}).subset fun id held => ?_
  change (gapFetch id).isSome = true at held
  rw [gapFetch] at held
  split at held
  · simp [*]
  · split at held
    · simp [*]
    · cases held

theorem gapFetch_edge {a b : EventId} (h : Edge (authGraph gapFetch) a b) :
    a = "$i" ∧ b = "$y" ∨ a = "$y" ∧ b = "$x" := by
  obtain ⟨l, cites, mem⟩ := h
  simp only [authGraph, gapFetch] at cites
  split at cites
  · next same =>
    obtain rfl := Option.some.inj cites
    exact .inl ⟨same, List.mem_singleton.1 mem⟩
  · split at cites
    · next same =>
      obtain rfl := Option.some.inj cites
      exact .inr ⟨same, List.mem_singleton.1 mem⟩
    · cases cites

theorem gapFetch_acyclic (id : EventId) : ¬ Below (authGraph gapFetch) id id := by
  refine not_below_self_of_rank (fun id => if id = "$i" then 2 else if id = "$y" then 1 else 0) ?_ id
  intro a b edge
  obtain ⟨rfl, rfl⟩ | ⟨rfl, rfl⟩ := gapFetch_edge edge <;> decide

theorem gapCache_true : TrueChains gapFetch gapCache := by
  intro id chain cached
  rw [gapCache, OrdMap.getElem?_insert'] at cached
  split at cached
  · next same =>
    obtain rfl := Option.some.inj cached
    subst same
    intro a
    have below : authGraph gapFetch "$y" = some ["$x"] := rfl
    have nothing : ¬ Below (authGraph gapFetch) "$x" a := by
      intro h
      obtain ⟨b, edge, -⟩ := Relation.TransGen.head'_iff.1 h
      obtain ⟨same, -⟩ | ⟨same, -⟩ := gapFetch_edge edge <;> exact absurd same (by decide)
    rw [below_iff below, OrdSet.mem_extend]
    simp [nothing]
  · simp at cached

/-- The chain of `$i` is found, though `$x` in it is neither cached nor to be fetched. -/
theorem authChain_past_gap : {id | (gapFetch id).isSome}.Finite ∧
    (∀ id, ¬ Below (authGraph gapFetch) id id) ∧ TrueChains gapFetch gapCache ∧
    (Below (authGraph gapFetch) "$i" "$x" ∧ gapFetch "$x" = none ∧ "$x" ∉ gapCache) ∧
      ∃ chain cache', authChain gapFetch 9 "$i" gapCache = .ok (chain, cache') := by
  refine ⟨gapFetch_finite, gapFetch_acyclic, gapCache_true, ⟨?_, rfl, by decide +kernel⟩, ?_⟩
  · have first : Edge (authGraph gapFetch) "$i" "$y" := ⟨["$y"], rfl, by simp⟩
    exact .head first (.single ⟨["$x"], rfl, by simp⟩)
  · have found : (authChain gapFetch 9 "$i" gapCache).toOption.isSome = true := by decide +kernel
    obtain ⟨out, found⟩ := Option.isSome_iff_exists.1 found
    exact ⟨out.1, out.2, toOption_eq_some.1 found⟩

/-- Nothing that has to be fetched for `$i` is lacking. -/
theorem authChain_cached_gap : ∃ r,
    SettlesTo .outOfFuel (fun fuel => authChain gapFetch fuel "$i" gapCache) r ∧
      ((∃ err, r = .error err) ↔ Lacking gapFetch gapFetch gapCache "$i") ∧
      ∀ chain cache', r = .ok (chain, cache') → IsChain gapFetch "$i" chain ∧ TrueChains gapFetch cache' :=
  authChain_cached gapFetch_finite gapFetch_acyclic (fun _ _ => id) gapCache_true "$i"

end Saltator.StateRes
