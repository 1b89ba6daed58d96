import Mathlib.Algebra.GroupWithZero.Nat
import Mathlib.Data.Set.Finite.Basic
import Saltator.Client.Error
import Saltator.Federation.JoinClient
import Saltator.Lib.Decimal
import Saltator.Lib.Loop

/-!
# The hierarchy of a space

A space links to rooms, which may be spaces. The walk from a root lists the rooms that the user may see, and
goes on behind the spaces among them, the first link first.
-/

namespace Saltator.Client.Hierarchy

open Saltator.Outcome
open Decimal (digits parse parse_digits not_mem_digits isDigit_of_mem_digits)
open Federation (insertMember)

structure ChildLink where
  target : String
  order : Option String
  ts : Int
  suggested : Bool
  stripped : JsonObject

/-- The servers to reach the child through. -/
def ChildLink.via (link : ChildLink) : List String :=
  ((objProp link.stripped "content").map (idList · "via")).getD []

/-- Links with an order key come first. -/
def ChildLink.cmp (a b : ChildLink) : Ordering :=
  let byTime := (compare a.ts b.ts).then (compare a.target b.target)
  match a.order, b.order with
  | some x, some y => (compare x y).then byTime
  | some _, none => .lt
  | none, some _ => .gt
  | none, none => byTime

def orderedChildren (children : List ChildLink) (suggestedOnly : Bool) : List ChildLink :=
  (children.filter fun c => !suggestedOnly || c.suggested).insertionSort fun a b => (a.cmp b).isLE

/-- A room, as the user's server or another one summarises it. -/
structure Node where
  base : JsonObject
  children : List ChildLink
  isSpace : Bool
  viewable : Bool

def Node.chunk (node : Node) (suggestedOnly : Bool) : JsonObject :=
  insertMember "children_state"
    (.array ((orderedChildren node.children suggestedOnly).map fun c => .object c.stripped)) node.base

/-! ## The walk -/

inductive Failure where
  | api (e : ApiError)
  | outOfFuel
  | panicked
  deriving DecidableEq

/-- What a request walks, once its root is resolved. -/
structure Request where
  localNode : String → Except ApiError (Option Node)
  /-- What one of these servers answers. -/
  remoteNode : String → List String → Option Node
  root : String
  rootNode : Node
  suggestedOnly : Bool
  maxDepth : Option Nat

structure Walk where
  nodes : String → Option Node
  ordered : List String
  visited : List String
  /-- Rooms to go to, with their depths and the servers to ask, the next one first. -/
  stack : List (String × Nat × List String)

section Walk

variable (q : Request)

def resolve (nodes : String → Option Node) (rid : String) (via : List String) : Except Failure (Option Node) :=
  match nodes rid with
  | some node => .ok (some node)
  | none =>
    match q.localNode rid with
    | .error e => .error (.api e)
    | .ok (some node) => .ok (some node)
    | .ok none => .ok (q.remoteNode rid via)

def followed (depth : Nat) (node : Node) : List ChildLink :=
  if node.isSpace && q.maxDepth.all (depth < ·) then orderedChildren node.children q.suggestedOnly else []

/-- One room off the stack. -/
def walkRound (w : Walk) : Except Failure (Walk ⊕ Walk) :=
  match w.stack with
  | [] => .ok (.inr w)
  | (rid, depth, via) :: stack =>
    if rid ∈ w.visited then .ok (.inl { w with stack := stack })
    else do
      let visited := rid :: w.visited
      let found ← resolve q w.nodes rid via
      match found.filter (·.viewable) with
      | none => return .inl ⟨Function.update w.nodes rid none, w.ordered, visited, stack⟩
      | some node =>
        let links := (followed q depth node).filter fun link => link.target ∉ visited
        return .inl ⟨Function.update w.nodes rid (some node), w.ordered ++ [rid], visited,
          links.map (fun link => (link.target, depth + 1, link.via)) ++ stack⟩

def Walk.start : Walk := ⟨Function.update (fun _ => none) q.root (some q.rootNode), [], [], [(q.root, 0, [])]⟩

def walk (fuel : Nat) : Except Failure Walk := Loop.run .outOfFuel (walkRound q) fuel (.start q)

/-! ## What it lists -/

/-- The room is this node when it is reached through these servers. -/
def Found (rid : String) (via : List String) (node : Node) : Prop :=
  if rid = q.root then node = q.rootNode else resolve q (fun _ => none) rid via = .ok (some node)

/-- The links that may be followed lead to the room: to a depth, and through servers. -/
inductive Reach : Nat → String → List String → Prop
  | root : Reach 0 q.root []
  | child {depth : Nat} {rid : String} {via : List String} {node : Node} {link : ChildLink}
    (parent : Reach depth rid via) (found : Found q rid via node) (viewable : node.viewable)
    (follows : link ∈ followed q depth node) : Reach (depth + 1) link.target link.via

/-- The walk has been at the room, or goes there. -/
def Walk.Covers (w : Walk) (rid : String) : Prop := rid ∈ w.visited ∨ rid ∈ w.stack.map Prod.fst

/-- What is behind the walk. -/
structure Sound (w : Walk) : Prop where
  nodup : w.ordered.Nodup
  queued : ∀ r ∈ w.stack, Reach q r.2.1 r.1 r.2.2
  first : q.root ∉ w.visited → w.nodes q.root = some q.rootNode
  ahead : ∀ rid ∉ w.visited, rid ≠ q.root → w.nodes rid = none
  listed : ∀ rid ∈ w.ordered, rid ∈ w.visited ∧
    ∃ depth via node, Reach q depth rid via ∧ Found q rid via node ∧ node.viewable ∧ w.nodes rid = some node
  passed : ∀ rid ∈ w.visited, ∃ depth via, Reach q depth rid via ∧ ∀ node, Found q rid via node → node.viewable →
    rid ∈ w.ordered ∧ ∀ link ∈ followed q depth node, w.Covers link.target
  begun : w.Covers q.root

variable {q} {w w' : Walk}

theorem Sound.start : Sound q (.start q) where
  nodup := List.nodup_nil
  queued r mem := by
    obtain rfl := List.mem_singleton.1 mem
    exact .root
  first _ := by simp [Walk.start]
  ahead rid _ other := by simp [Walk.start, other]
  listed := by simp [Walk.start]
  passed := by simp [Walk.start]
  begun := .inr (by simp [Walk.start])

theorem covers_round {rid : String} (covered : w.Covers rid) (ran : walkRound q w = .ok (.inl w')) :
    w'.Covers rid := by
  unfold walkRound at ran
  unfold Walk.Covers at covered ⊢
  split at ran
  · cases ran
  next top =>
  rw [top] at covered
  split at ran
  · cases ran
    grind
  · obtain ⟨found, -, ran⟩ := bind_eq_ok.1 ran
    split at ran
    all_goals
      obtain rfl := Sum.inl.inj (pure_eq_ok.1 ran)
      grind

theorem Sound.found (h : Sound q w) {rid : String} (new : rid ∉ w.visited) {via : List String}
    {found : Option Node} (done : resolve q w.nodes rid via = .ok found) (node : Node) :
    Found q rid via node ↔ found = some node := by
  by_cases own : rid = q.root
  · subst own
    rw [resolve, h.first new] at done
    obtain rfl := Except.ok.inj done
    simp [Found, eq_comm]
  · have silent := h.ahead rid new own
    rw [Found, if_neg own]
    rw [resolve, silent] at done
    exact ⟨fun same => Except.ok.inj (done.symm.trans same), fun same => same ▸ done⟩

theorem Sound.round (h : Sound q w) (ran : walkRound q w = .ok (.inl w')) : Sound q w' := by
  have covers {rid : String} (covered : w.Covers rid) := covers_round covered ran
  unfold walkRound at ran
  split at ran
  · cases ran
  next rid depth via stack top =>
  have reach : Reach q depth rid via := h.queued _ (top ▸ List.mem_cons_self)
  have queued : ∀ r ∈ stack, Reach q r.2.1 r.1 r.2.2 := fun r mem =>
    h.queued r (top ▸ List.mem_cons_of_mem _ mem)
  split at ran
  · next seen =>
    cases ran
    refine ⟨h.nodup, queued, h.first, h.ahead, h.listed, fun rid' mem => ?_, covers h.begun⟩
    obtain ⟨depth', via', reach', passed⟩ := h.passed rid' mem
    exact ⟨depth', via', reach', fun node found viewable =>
      (passed node found viewable).imp_right fun links link mem => covers (links link mem)⟩
  next new =>
  obtain ⟨found, done, ran⟩ := bind_eq_ok.1 ran
  have found_iff := h.found new done
  have fresh : rid ∉ w.ordered := fun mem => new (h.listed rid mem).1
  split at ran
  · next hidden =>
    obtain rfl := Sum.inl.inj (pure_eq_ok.1 ran)
    refine ⟨h.nodup, queued, fun away => ?_, fun rid' away other => ?_, fun rid' mem => ?_, fun rid' mem => ?_,
      covers h.begun⟩
    · grind [h.first]
    · grind [h.ahead rid']
    · obtain ⟨seen, depth', via', node, reach', found', viewable, kept⟩ := h.listed rid' mem
      refine ⟨List.mem_cons_of_mem _ seen, depth', via', node, reach', found', viewable,
        (Function.update_of_ne (by grind) ..).trans kept⟩
    · obtain rfl | mem := List.mem_cons.1 mem
      · refine ⟨depth, via, reach, fun node found' viewable => ?_⟩
        rw [(found_iff node).1 found'] at hidden
        simp [viewable] at hidden
      · obtain ⟨depth', via', reach', passed⟩ := h.passed rid' mem
        exact ⟨depth', via', reach', fun node found viewable =>
          (passed node found viewable).imp_right fun links link mem => covers (links link mem)⟩
  · next node visible =>
    obtain rfl := Sum.inl.inj (pure_eq_ok.1 ran)
    obtain ⟨rfl, viewable⟩ := Option.filter_eq_some_iff.1 visible
    have own : Found q rid via node := (found_iff node).2 rfl
    refine ⟨?_, fun r mem => ?_, fun away => ?_, fun rid' away other => ?_, fun rid' mem => ?_, fun rid' mem => ?_,
      covers h.begun⟩
    · exact List.nodup_append.2 ⟨h.nodup, List.nodup_singleton _, by grind⟩
    · obtain mem | mem := List.mem_append.1 mem
      · obtain ⟨link, follows, rfl⟩ := List.mem_map.1 mem
        exact .child reach own viewable (List.mem_of_mem_filter follows)
      · exact queued r mem
    · grind [h.first]
    · grind [h.ahead rid']
    · obtain mem | mem := List.mem_append.1 mem
      · obtain ⟨seen, depth', via', node', reach', found', viewable', kept⟩ := h.listed rid' mem
        refine ⟨List.mem_cons_of_mem _ seen, depth', via', node', reach', found', viewable',
          (Function.update_of_ne (by grind) ..).trans kept⟩
      · obtain rfl := List.mem_singleton.1 mem
        exact ⟨List.mem_cons_self, depth, via, node, reach, own, viewable, Function.update_self ..⟩
    · obtain rfl | mem := List.mem_cons.1 mem
      · refine ⟨depth, via, reach, fun node' found' _ => ⟨by simp, fun link mem => ?_⟩⟩
        obtain rfl := Option.some.inj ((found_iff node').1 found')
        by_cases seen : link.target ∈ rid' :: w.visited
        · exact .inl seen
        · exact .inr (List.mem_map.2 ⟨_, List.mem_append_left _ (List.mem_map.2
            ⟨link, List.mem_filter.2 ⟨mem, by simpa using seen⟩, rfl⟩), rfl⟩)
      · obtain ⟨depth', via', reach', passed⟩ := h.passed rid' mem
        exact ⟨depth', via', reach', fun node found viewable =>
          (passed node found viewable).imp (List.mem_append_left _) fun links link mem => covers (links link mem)⟩

theorem walkRound_left {r : Walk} (left : walkRound q w = .ok (.inr r)) : w.stack = [] ∧ w = r := by
  unfold walkRound at left
  split at left
  · next top =>
    cases left
    exact ⟨top, rfl⟩
  · split at left
    · cases left
    · obtain ⟨found, -, left⟩ := bind_eq_ok.1 left
      split at left <;> cases left

theorem Reach.within {depth : Nat} {rid : String} {via : List String} (h : Reach q depth rid via) :
    ∀ m ∈ q.maxDepth, depth ≤ m := by
  induction h with
  | root => exact fun m _ => Nat.zero_le m
  | child _ _ _ follows _ =>
    intro m own
    unfold followed at follows
    split at follows
    · next deeper =>
      rw [own, Bool.and_eq_true] at deeper
      exact of_decide_eq_true deeper.2
    · cases follows

theorem walk_settles (finite : {rid | ∃ depth via, Reach q depth rid via}.Finite) :
    Loop.Settles .outOfFuel (walk q) := by
  let left (w : Walk) : Nat × Nat := ((Set.Finite.toFinset finite \ w.visited.toFinset).card, w.stack.length)
  refine Loop.run_settles (I := Sound q) (InvImage.wf left (Prod.lex Nat.lt_wfRel Nat.lt_wfRel).wf)
    (fun w w' h ran => ⟨h.round ran, ?_⟩) (fun w _ failed => ?_) .start
  · unfold walkRound at ran
    split at ran
    · cases ran
    next rid depth via stack top =>
    split at ran
    · cases ran
      exact Prod.Lex.right _ (top ▸ Nat.lt_succ_self stack.length)
    next new =>
    have fewer (stack : List (String × Nat × List String)) (nodes ordered) :
        Prod.Lex (· < ·) (· < ·) (left ⟨nodes, ordered, rid :: w.visited, stack⟩) (left w) := by
      refine Prod.Lex.left _ _ (Finset.card_lt_card ((Finset.ssubset_iff_of_subset ?_).2 ⟨rid, ?_, ?_⟩))
      · exact Finset.sdiff_subset_sdiff le_rfl (by simp)
      · have reach := h.queued (rid, depth, via) (top ▸ List.mem_cons_self)
        simpa [new] using ⟨depth, via, reach⟩
      · simp
    obtain ⟨found, -, ran⟩ := bind_eq_ok.1 ran
    split at ran
    all_goals
      obtain rfl := Sum.inl.inj (pure_eq_ok.1 ran)
      exact fewer ..
  · unfold walkRound at failed
    split at failed
    · cases failed
    · split at failed
      · cases failed
      · obtain failed | ⟨found, -, failed⟩ := bind_eq_error.1 failed
        · unfold resolve at failed
          grind
        · split at failed <;> cases failed

/-- **The hierarchy of a space.** Where finitely many rooms can be reached, the walk ends. It lists a room once,
and only one that the user may see and that links lead to, none of them behind a room that the user may not
see or too deep; without a bound on the depth, and where it does not matter which server is asked, all of
them. -/
theorem hierarchy_exact (q : Request) (finite : {rid | ∃ depth via, Reach q depth rid via}.Finite) :
    ∃ r, Loop.SettlesTo .outOfFuel (walk q) r ∧ ∀ w, r = .ok w → w.ordered.Nodup ∧
      (∀ rid ∈ w.ordered, ∃ depth via node, Reach q depth rid via ∧ (∀ m ∈ q.maxDepth, depth ≤ m) ∧
        Found q rid via node ∧ node.viewable ∧ w.nodes rid = some node) ∧
      (q.maxDepth = none → (∀ rid via via', q.remoteNode rid via = q.remoteNode rid via') →
        ∀ depth rid via node, Reach q depth rid via → Found q rid via node → node.viewable → rid ∈ w.ordered) := by
  obtain ⟨r, settles⟩ := walk_settles finite
  refine ⟨r, settles, fun w ended => ?_⟩
  obtain ⟨-, enough, runs⟩ := settles
  have done : walk q enough = .ok w := (runs enough le_rfl).trans ended
  obtain ⟨sound, empty⟩ : Sound q w ∧ w.stack = [] :=
    (Loop.run_result (I := Sound q) (Q := fun w => Sound q w ∧ w.stack = []) (F := fun _ => True)
      (fun _ _ h ran => h.round ran) (fun w r h left => (walkRound_left left).2 ▸ ⟨h, (walkRound_left left).1⟩)
      (fun _ _ _ _ => trivial) enough _ .start).1 w done
  refine ⟨sound.nodup, fun rid mem => ?_, fun unbounded indifferent => ?_⟩
  · obtain ⟨-, depth, via, node, reach, found, viewable, kept⟩ := sound.listed rid mem
    exact ⟨depth, via, node, reach, reach.within, found, viewable, kept⟩
  · have same {rid : String} {via : List String} {node : Node} (found : Found q rid via node)
        (via' : List String) : Found q rid via' node := by
      unfold Found resolve at found ⊢
      grind
    have visited {depth : Nat} {rid : String} {via : List String} (reach : Reach q depth rid via) :
        rid ∈ w.visited := by
      have covered {rid : String} (h : w.Covers rid) : rid ∈ w.visited := h.resolve_right (by simp [empty])
      induction reach with
      | root => exact covered sound.begun
      | child _ found viewable follows ih =>
        obtain ⟨_, via', -, passed⟩ := sound.passed _ ih
        refine covered ((passed _ (same found via') viewable).2 _ ?_)
        simpa [followed, unbounded] using follows
    intro depth rid via node reach found viewable
    obtain ⟨_, via', -, passed⟩ := sound.passed rid (visited reach)
    exact (passed node (same found via') viewable).1

/-- A space that links to itself and to one room. -/
def sampleSpace : Request where
  localNode rid := .ok (if rid = "b" then some ⟨[], [], false, true⟩ else none)
  remoteNode _ _ := none
  root := "a"
  rootNode := ⟨[], [⟨"b", none, 1, false, []⟩, ⟨"a", none, 2, false, []⟩], true, true⟩
  suggestedOnly := false
  maxDepth := none

theorem hierarchy_exact_sample : ∃ r, Loop.SettlesTo .outOfFuel (walk sampleSpace) r ∧
    ∀ w, r = .ok w → w.ordered.Nodup := by
  have within {depth : Nat} {rid : String} {via : List String} (reach : Reach sampleSpace depth rid via) :
      rid ∈ ({"a", "b"} : Set String) := by
    induction reach with
    | root => exact .inl rfl
    | @child _ rid _ node link _ found _ follows ih =>
      obtain rfl | rfl := ih
      · obtain rfl : node = sampleSpace.rootNode := found
        change link ∈ orderedChildren sampleSpace.rootNode.children false at follows
        have listed := List.mem_of_mem_filter ((List.mem_insertionSort _).1 follows)
        simp only [sampleSpace, List.mem_cons, List.not_mem_nil, or_false] at listed
        obtain rfl | rfl := listed <;> simp
      · obtain rfl := Option.some.inj (Except.ok.inj found)
        cases follows
  obtain ⟨r, settles, exact_⟩ := hierarchy_exact sampleSpace
    ((Set.toFinite {"a", "b"}).subset fun rid ⟨_, _, reach⟩ => within reach)
  exact ⟨r, settles, fun w own => (exact_ w own).1⟩

end Walk

/-! ## Pages -/

/-- What a token says: the place in the list, and what shaped the list. -/
structure Cursor where
  offset : Nat
  suggestedOnly : Bool
  maxDepth : Option Nat
  deriving DecidableEq

def encodeCursor (c : Cursor) : String :=
  String.ofList (['.'].intercalate
    [digits c.offset, if c.suggestedOnly then ['1'] else ['0'], c.maxDepth.elim ['n'] digits])

def invalidToken : ApiError := .invalidParam "invalid from token"

def decodeCursor (token : String) : Except ApiError Cursor := do
  let parts := token.toList.splitOn '.'
  let offset ← (parse (2 ^ 64) (parts.headD [])).elim (.error invalidToken) .ok
  let suggestedOnly := parts[1]? = some ['1']
  match parts[2]? with
  | none => return ⟨offset, suggestedOnly, none⟩
  | some d =>
    if d = ['n'] then return ⟨offset, suggestedOnly, none⟩
    else return ⟨offset, suggestedOnly, some (← (parse (2 ^ 64) d).elim (.error invalidToken) .ok)⟩

theorem decodeCursor_encode {c : Cursor} (offset : c.offset < 2 ^ 64) (depth : ∀ m ∈ c.maxDepth, m < 2 ^ 64) :
    decodeCursor (encodeCursor c) = .ok c := by
  obtain ⟨n, suggestedOnly, maxDepth⟩ := c
  have undotted (n : Nat) : '.' ∉ digits n := not_mem_digits (by decide)
  have parts : (encodeCursor ⟨n, suggestedOnly, maxDepth⟩).toList.splitOn '.' =
      [digits n, if suggestedOnly then ['1'] else ['0'], maxDepth.elim ['n'] digits] := by
    rw [encodeCursor, String.toList_ofList]
    refine List.splitOn_intercalate '.' (fun l mem => ?_) (List.cons_ne_nil _ _)
    cases suggestedOnly <;> cases maxDepth <;> grind
  have suggested :
      ((some (if suggestedOnly then ['1'] else ['0']) = some ['1'] : Prop) : Bool) = suggestedOnly := by
    cases suggestedOnly <;> decide
  simp only [decodeCursor, parts, List.headD_cons, parse_digits offset, List.getElem?_cons_succ,
    List.getElem?_cons_zero, suggested]
  cases maxDepth with
  | none => rfl
  | some m =>
    have named : digits m ≠ ['n'] := fun same => by
      have digit : ('n').isDigit = true := isDigit_of_mem_digits (same ▸ List.mem_cons_self)
      cases digit
    simp only [Option.elim_some, named, if_false, parse_digits (depth m rfl)]
    rfl

/-- The parameters of a request, as they are given. -/
structure Query where
  suggestedOnly : Option String
  maxDepth : Option String
  limit : Option String
  token : Option String

def chunks (q : Request) (w : Walk) (rids : List String) : List JsonObject :=
  rids.filterMap fun rid => (w.nodes rid).map (·.chunk q.suggestedOnly)

def tokenAt (q : Request) (w : Walk) (offset : Nat) : Option String :=
  if offset < w.ordered.length then some (encodeCursor ⟨offset, q.suggestedOnly, q.maxDepth⟩) else none

/-- A page of the list, and the token of the next one. Where a limit overflows the place, the slice ends
before it begins. -/
def page (q : Request) (w : Walk) (offset : Nat) (limit : Option Nat) :
    Except Failure (List JsonObject × Option String) :=
  let total := w.ordered.length
  let stop := limit.elim total fun l => min ((offset + l) % 2 ^ 64) total
  if offset < total ∧ stop < offset then .error .panicked
  else
    let rids := if offset < total then (w.ordered.drop offset).take (stop - offset) else []
    .ok (chunks q w rids, tokenAt q w stop)

def number (text : Option String) (message : String) : Except Failure (Option Nat) :=
  text.elim (.ok none) fun s => (parse (2 ^ 64) s.toList).elim (.error (.api (.invalidParam message))) (.ok ∘ some)

/-- Where a request begins, and the most that it asks for. The filters of a token may be said again, and not
changed. -/
def cursorOf (p : Query) : Except Failure (Cursor × Option Nat) := do
  let suggestedOnly := p.suggestedOnly = some "true"
  let maxDepth ← number p.maxDepth "max_depth: integer"
  let limit ← number p.limit "limit: integer"
  match p.token with
  | none => return (⟨0, suggestedOnly, maxDepth⟩, limit)
  | some token =>
    let c ← (decodeCursor token).mapError .api
    if p.suggestedOnly.isSome ∧ suggestedOnly ≠ c.suggestedOnly ∨ p.maxDepth.isSome ∧ maxDepth ≠ c.maxDepth then
      .error (.api (.invalidParam "suggested_only and max_depth cannot change on paginated requests"))
    else return (c, limit)

def getHierarchy (resolved : Bool → Option Nat → Except ApiError Request) (fuel : Nat) (p : Query) :
    Except Failure (List JsonObject × Option String) := do
  let (c, limit) ← cursorOf p
  let q ← (resolved c.suggestedOnly c.maxDepth).mapError .api
  if q.rootNode.viewable then page q (← walk q fuel) c.offset limit
  else .error (.api (.forbidden "You are not allowed to view this room"))

def follow (serve : Query → Except Failure (List JsonObject × Option String)) :
    Query → List Nat → Except Failure (List JsonObject × Option String)
  | p, [] => serve p
  | p, l :: ls => do
    let (rooms, next) ← serve p
    match next with
    | none => return (rooms, none)
    | some token =>
      let (more, last) ← follow serve ⟨none, none, some (String.ofList (digits l)), some token⟩ ls
      return (rooms ++ more, last)

section Pages

variable {resolved : Bool → Option Nat → Except ApiError Request} {fuel : Nat} {q : Request} {w : Walk}

theorem page_eq {offset l : Nat} (small : offset + l < 2 ^ 64) : page q w offset (some l) =
    .ok (chunks q w ((w.ordered.drop offset).take l), tokenAt q w (offset + l)) := by
  have next : tokenAt q w (min (offset + l) w.ordered.length) = tokenAt q w (offset + l) := by
    unfold tokenAt
    grind
  simp only [page, Option.elim_some, Nat.mod_eq_of_lt small, next]
  by_cases within : offset < w.ordered.length
  · have same : (w.ordered.drop offset).take (min (offset + l) w.ordered.length - offset) =
        (w.ordered.drop offset).take l := by
      rw [List.take_eq_take_iff, List.length_drop]
      omega
    rw [if_neg (by omega), if_pos within, same]
  · rw [if_neg (by omega), if_neg within, List.drop_eq_nil_of_le (Nat.le_of_not_lt within), List.take_nil]

/-- **The pages of a hierarchy** that stays put: every request resolves the same root and walks the same tree.
However a client cuts the list, from the first request or from a token on, the pages are the list from there on,
in its order, and there is a next one as long as something is left. -/
theorem pages_join (answer : resolved q.suggestedOnly q.maxDepth = .ok q) (viewable : q.rootNode.viewable)
    (walked : walk q fuel = .ok w) (depth : ∀ m ∈ q.maxDepth, m < 2 ^ 64) {p : Query} {offset l : Nat}
    {ls : List Nat} (cursor : cursorOf p = .ok (⟨offset, q.suggestedOnly, q.maxDepth⟩, some l))
    (small : offset + (l :: ls).sum < 2 ^ 64) :
    follow (getHierarchy resolved fuel) p ls = .ok (chunks q w ((w.ordered.drop offset).take (l :: ls).sum),
      tokenAt q w (offset + (l :: ls).sum)) := by
  have served {p : Query} {offset l : Nat}
      (cursor : cursorOf p = .ok (⟨offset, q.suggestedOnly, q.maxDepth⟩, some l)) (small : offset + l < 2 ^ 64) :
      getHierarchy resolved fuel p =
        .ok (chunks q w ((w.ordered.drop offset).take l), tokenAt q w (offset + l)) := by
    simp only [getHierarchy, cursor, answer, viewable, walked, ok_bind, Except.mapError, if_true]
    exact page_eq small
  induction ls generalizing p offset l with
  | nil =>
    rw [List.sum_singleton] at small ⊢
    exact served cursor small
  | cons l' ls ih =>
    simp only [List.sum_cons] at small ih ⊢
    simp only [follow, served cursor (by omega), ok_bind]
    by_cases more : offset + l < w.ordered.length
    · have token : tokenAt q w (offset + l) = some (encodeCursor ⟨offset + l, q.suggestedOnly, q.maxDepth⟩) :=
        if_pos more
      have next : cursorOf ⟨none, none, some (String.ofList (digits l')),
          some (encodeCursor ⟨offset + l, q.suggestedOnly, q.maxDepth⟩)⟩ =
            .ok (⟨offset + l, q.suggestedOnly, q.maxDepth⟩, some l') := by
        have limit : parse (2 ^ 64) (digits l') = some l' := parse_digits (by omega)
        have read := decodeCursor_encode (c := ⟨offset + l, q.suggestedOnly, q.maxDepth⟩)
          (by dsimp only; omega) depth
        simp only [cursorOf, number, Option.elim_none, Option.elim_some, String.toList_ofList, limit,
          Function.comp_apply, ok_bind, read, Except.mapError]
        rfl
      have parts : (w.ordered.drop offset).take (l + (l' + ls.sum)) =
          (w.ordered.drop offset).take l ++ (w.ordered.drop (offset + l)).take (l' + ls.sum) := by
        rw [List.take_add, List.drop_drop]
      simp only [token, ih next (by omega), ok_bind, parts, chunks, List.filterMap_append, Nat.add_assoc]
      rfl
    · have all (n : Nat) : (w.ordered.drop offset).take (l + n) = w.ordered.drop offset :=
        List.take_of_length_le (by rw [List.length_drop]; omega)
      have done (n : Nat) : tokenAt q w (offset + (l + n)) = none := if_neg (by omega)
      have own := all 0
      have last := done 0
      rw [Nat.add_zero] at own last
      simp only [last, all, done, own]
      rfl

theorem pages_join_sample : ∃ w, walk sampleSpace 4 = .ok w ∧
    follow (getHierarchy (fun s d => .ok { sampleSpace with suggestedOnly := s, maxDepth := d }) 4)
      ⟨none, none, some "1", none⟩ [1] = .ok (chunks sampleSpace w (w.ordered.take 2), none) :=
  ⟨_, rfl, pages_join (q := sampleSpace) (l := 1) rfl rfl rfl (by simp [sampleSpace]) rfl
    (by decide : 0 + [1, 1].sum < _)⟩

end Pages

end Saltator.Client.Hierarchy
