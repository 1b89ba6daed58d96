import Saltator.Core.Presentation

/-!
# Mainline positions do not depend on the cache

All queries of one ordering share a cache, into which a walk writes every event it passed. What is written
is the position that a walk of its own would find: a query answers with the cache as it does without, in
whatever order the events are asked for.
-/

namespace Saltator.StateRes

open Std Saltator.Graph Outcome Loop

variable {E : Type} [Event E] {fetch : EventId → Option E} {mainline cache cache' : OrdMap EventId Nat}
  {here next : Option EventId} {walked : List EventId} {id : EventId} {pos pos' fuel : Nat}
  {e : E} {r r' : Except StateResError Nat}

/-! ## Walks -/

/-- What a walk along the power-levels events comes to: the end of the path, the mainline, a cached position,
or an event that it cannot read. -/
inductive Walks (fetch : EventId → Option E) (mainline cache : OrdMap EventId Nat) :
    Option EventId → Except StateResError Nat → Prop
  | out : Walks fetch mainline cache none (.ok usizeMax)
  | main {id : EventId} {i : Nat} (found : mainline[id]? = some i) :
      Walks fetch mainline cache (some id) (.ok i)
  | memo {id : EventId} {i : Nat} (off : mainline[id]? = none) (found : cache[id]? = some i) :
      Walks fetch mainline cache (some id) (.ok i)
  | missing {id : EventId} (off : mainline[id]? = none) (new : cache[id]? = none) (absent : fetch id = none) :
      Walks fetch mainline cache (some id) (.error (.missingEvent id))
  | unread {id : EventId} {e : E} {err : StateResError} (off : mainline[id]? = none) (new : cache[id]? = none)
      (held : fetch id = some e) (failed : plInAuthEvents fetch e = .error err) :
      Walks fetch mainline cache (some id) (.error err)
  | on {id : EventId} {e : E} {next : Option EventId} {r : Except StateResError Nat}
      (off : mainline[id]? = none) (new : cache[id]? = none) (held : fetch id = some e)
      (cites : plInAuthEvents fetch e = .ok next) (rest : Walks fetch mainline cache next r) :
      Walks fetch mainline cache (some id) r

theorem positionRound_cases (fetch : EventId → Option E) (mainline cache : OrdMap EventId Nat) (id : EventId)
    (walked : List EventId) :
    (∃ i, (mainline[id]? = some i ∨ (mainline[id]? = none ∧ cache[id]? = some i)) ∧
      positionRound fetch mainline cache (some id, walked) = .ok (.inr (i, walked))) ∨
    (mainline[id]? = none ∧ cache[id]? = none ∧
      ((fetch id = none ∧ positionRound fetch mainline cache (some id, walked) = .error (.missingEvent id)) ∨
      ∃ e, fetch id = some e ∧ ((∃ err, plInAuthEvents fetch e = .error err ∧
          positionRound fetch mainline cache (some id, walked) = .error err) ∨
        ∃ next, plInAuthEvents fetch e = .ok next ∧
          positionRound fetch mainline cache (some id, walked) = .ok (.inl (next, walked ++ [id]))))) := by
  rw [positionRound]
  cases main : mainline[id]? with
  | some i => exact .inl ⟨i, .inl rfl, rfl⟩
  | none =>
    cases memo : cache[id]? with
    | some i => exact .inl ⟨i, .inr ⟨rfl, rfl⟩, rfl⟩
    | none =>
      refine .inr ⟨rfl, rfl, ?_⟩
      cases held : fetch id with
      | none => exact .inl ⟨rfl, by rw [require_eq_error.2 ⟨held, rfl⟩]; rfl⟩
      | some e =>
        rw [require_eq_ok.2 held]
        cases cites : plInAuthEvents fetch e with
        | error err => exact .inr ⟨e, rfl, .inl ⟨err, cites, by simp [cites]⟩⟩
        | ok next => exact .inr ⟨e, rfl, .inr ⟨next, cites, by simp [cites, pure, Except.pure]⟩⟩

def position (out : Except StateResError (Nat × List EventId)) : Except StateResError Nat := out.map Prod.fst

theorem walks_of_run
    (h : position (run .outOfFuel (positionRound fetch mainline cache) fuel (here, walked)) = r)
    (intime : r ≠ .error .outOfFuel) : Walks fetch mainline cache here r := by
  induction fuel generalizing here walked with
  | zero => exact absurd h.symm intime
  | succ fuel ih =>
    rw [run] at h
    cases here with
    | none => exact h ▸ .out
    | some id =>
      obtain ⟨i, found | ⟨off, found⟩, round⟩ | ⟨off, new, ⟨absent, round⟩ | ⟨e, held, ⟨err, failed, round⟩ |
        ⟨next, cites, round⟩⟩⟩ := positionRound_cases fetch mainline cache id walked
      all_goals rw [round] at h
      · exact h ▸ .main found
      · exact h ▸ .memo off found
      · exact h ▸ .missing off new absent
      · exact h ▸ .unread off new held failed
      · exact .on off new held cites (ih h)

theorem settles_first {s : Option EventId × List EventId} (out : Except StateResError (Nat × List EventId))
    (h : run .outOfFuel (positionRound fetch mainline cache) 1 s = out) (intime : out ≠ .error .outOfFuel) :
    SettlesTo .outOfFuel (fun fuel => position (run .outOfFuel (positionRound fetch mainline cache) fuel s))
      (position out) := by
  obtain ⟨-, enough, answers⟩ := run_settlesTo h intime
  refine ⟨?_, enough, fun fuel more => congrArg position (answers fuel more)⟩
  cases out with
  | ok out => simp [position, Except.map]
  | error err => exact fun same => intime (congrArg _ (Except.error.inj same))

theorem Walks.settles (h : Walks fetch mainline cache here r) (walked : List EventId) :
    SettlesTo .outOfFuel (fun fuel =>
      position (run .outOfFuel (positionRound fetch mainline cache) fuel (here, walked))) r := by
  induction h generalizing walked with
  | out => exact settles_first (.ok (usizeMax, walked)) rfl (by simp)
  | @main _ i found => exact settles_first (.ok (i, walked)) (by simp [run, positionRound, found]) (by simp)
  | @memo _ i off found =>
    exact settles_first (.ok (i, walked)) (by simp [run, positionRound, off, found]) (by simp)
  | missing off new absent =>
    exact settles_first (.error _)
      (by simp [run, positionRound, off, new, require_eq_error.2 ⟨absent, rfl⟩]) (by simp)
  | @unread _ e err off new held failed =>
    exact settles_first (.error err) (by simp [run, positionRound, off, new, require_eq_ok.2 held, failed])
      (fun same => plInAuthEvents_ne_outOfFuel e (failed.trans (congrArg _ (Except.error.inj same))))
  | @on id e next r off new held cites rest ih =>
    obtain ⟨intime, enough, answers⟩ := ih (walked ++ [id])
    refine ⟨intime, enough + 1, fun fuel more => ?_⟩
    obtain ⟨n, rfl⟩ : ∃ n, fuel = n + 1 := ⟨fuel - 1, by omega⟩
    rw [← answers n (by omega)]
    simp only [run, positionRound, off, new, require_eq_ok.2 held, ok_bind, cites]
    rfl

theorem Walks.unique (h : Walks fetch mainline cache here r) (h' : Walks fetch mainline cache here r') :
    r = r' :=
  (h.settles []).unique (h'.settles [])

/-- What a cached position must be: the one that the uncached walk from the event finds. -/
def Memo (fetch : EventId → Option E) (mainline : OrdMap EventId Nat) (id : EventId) (pos : Nat) : Prop :=
  ∃ e next, fetch id = some e ∧ plInAuthEvents fetch e = .ok next ∧ Walks fetch mainline ∅ next (.ok pos)

def Faithful (fetch : EventId → Option E) (mainline cache : OrdMap EventId Nat) : Prop :=
  ∀ id pos, cache[id]? = some pos → Memo fetch mainline id pos

theorem Memo.walks (memo : Memo fetch mainline id pos) (off : mainline[id]? = none) :
    Walks fetch mainline ∅ (some id) (.ok pos) := by
  obtain ⟨e, next, held, cites, rest⟩ := memo
  exact .on off ExtTreeMap.getElem?_empty held cites rest

theorem walks_iff (faithful : Faithful fetch mainline cache) :
    Walks fetch mainline cache here r ↔ Walks fetch mainline ∅ here r := by
  constructor
  · intro h
    induction h with
    | out => exact .out
    | main found => exact .main found
    | memo off found => exact (faithful _ _ found).walks off
    | missing off new absent => exact .missing off ExtTreeMap.getElem?_empty absent
    | unread off new held failed => exact .unread off ExtTreeMap.getElem?_empty held failed
    | on off new held cites rest ih => exact .on off ExtTreeMap.getElem?_empty held cites ih
  · intro h
    -- where the cache stops the walk, the rest of it is what the cache holds
    have stops {id : EventId} {i : Nat} {r : Except StateResError Nat} (off : mainline[id]? = none)
        (found : cache[id]? = some i) (walk : Walks fetch mainline ∅ (some id) r) :
        Walks fetch mainline cache (some id) r :=
      walk.unique ((faithful _ _ found).walks off) ▸ .memo off found
    induction h with
    | out => exact .out
    | main found => exact .main found
    | memo off found => simp at found
    | @missing id off new absent =>
      cases found : cache[id]? with
      | some i => exact stops off found (.missing off new absent)
      | none => exact .missing off found absent
    | @unread id _ _ off new held failed =>
      cases found : cache[id]? with
      | some i => exact stops off found (.unread off new held failed)
      | none => exact .unread off found held failed
    | @on id _ _ _ off new held cites rest ih =>
      cases found : cache[id]? with
      | some i => exact stops off found (.on off new held cites rest)
      | none => exact .on off found held cites ih

/-! ## Queries -/

/-- The caches of the queries of one ordering, whichever events they ask for. -/
inductive Cached (fetch : EventId → Option E) (mainline : OrdMap EventId Nat) : OrdMap EventId Nat → Prop
  | empty : Cached fetch mainline ∅
  | query {cache cache' : OrdMap EventId Nat} {e : E} {fuel pos : Nat}
      (cached : Cached fetch mainline cache) (stored : fetch (Event.eventId e) = some e)
      (answer : mainlinePosition fetch fuel mainline e cache = .ok (pos, cache')) :
      Cached fetch mainline cache'

theorem noted_of_run (faithful : Faithful fetch mainline cache)
    (noted : ∀ pos, Walks fetch mainline ∅ here (.ok pos) → ∀ id ∈ walked, Memo fetch mainline id pos)
    {walked' : List EventId}
    (h : run .outOfFuel (positionRound fetch mainline cache) fuel (here, walked) = .ok (pos, walked')) :
    ∀ id ∈ walked', Memo fetch mainline id pos := by
  induction fuel generalizing here walked with
  | zero => simp [run] at h
  | succ fuel ih =>
    rw [run] at h
    cases here with
    | none =>
      obtain ⟨rfl, rfl⟩ := ok_pair h
      exact noted _ .out
    | some id =>
      obtain ⟨i, found, round⟩ | ⟨off, new, ⟨absent, round⟩ | ⟨e, held, ⟨err, failed, round⟩ |
        ⟨next, cites, round⟩⟩⟩ := positionRound_cases fetch mainline cache id walked
      all_goals rw [round] at h
      · obtain ⟨rfl, rfl⟩ := ok_pair h
        refine noted _ ((walks_iff faithful).1 ?_)
        obtain found | ⟨off, found⟩ := found
        · exact .main found
        · exact .memo off found
      · cases h
      · cases h
      · refine ih (fun pos rest a mem => ?_) h
        obtain mem | mem := List.mem_append.1 mem
        · exact noted pos (.on off ExtTreeMap.getElem?_empty held cites rest) a mem
        · exact List.mem_singleton.1 mem ▸ ⟨e, next, held, cites, rest⟩

theorem Faithful.query (faithful : Faithful fetch mainline cache) (stored : fetch (Event.eventId e) = some e)
    (answer : mainlinePosition fetch fuel mainline e cache = .ok (pos, cache')) :
    Faithful fetch mainline cache' := by
  unfold mainlinePosition at answer
  split at answer
  · obtain ⟨-, rfl⟩ := ok_pair answer
    exact faithful
  · obtain ⟨next, cites, answer⟩ := bind_eq_ok.1 answer
    obtain ⟨⟨pos', walked⟩, walk, answer⟩ := bind_eq_ok.1 answer
    obtain ⟨rfl, rfl⟩ := ok_pair answer
    have noted := noted_of_run faithful (fun pos rest id mem =>
      List.mem_singleton.1 mem ▸ ⟨e, next, stored, cites, rest⟩) walk
    intro id pos found
    obtain ⟨a, mem, rfl, written⟩ | ⟨-, kept⟩ :=
      OrdMap.foldl_insert_cases (fun a => a) (fun _ => pos') walked cache id
    · exact some_unique written found ▸ noted a mem
    · exact faithful id pos (kept.symm.trans found)

theorem Cached.faithful (cached : Cached fetch mainline cache) : Faithful fetch mainline cache := by
  induction cached with
  | empty =>
    intro id pos found
    simp at found
  | query cached stored answer ih => exact ih.query stored answer

/-- The answer to a query, as the cache and the walk have it. -/
def Asks (fetch : EventId → Option E) (mainline cache : OrdMap EventId Nat) (e : E)
    (r : Except StateResError Nat) : Prop :=
  match cache[Event.eventId e]? with
  | some pos => r = .ok pos
  | none =>
    match plInAuthEvents fetch e with
    | .error err => r = .error err
    | .ok next => Walks fetch mainline cache next r

def query (fetch : EventId → Option E) (mainline cache : OrdMap EventId Nat) (e : E) (fuel : Nat) :
    Except StateResError Nat :=
  (mainlinePosition fetch fuel mainline e cache).map Prod.fst

theorem settlesTo_const_iff {x : Except StateResError Nat} (intime : x ≠ .error .outOfFuel) :
    SettlesTo .outOfFuel (fun _ => x) r ↔ r = x :=
  ⟨fun settles => settles.unique (.const intime), by rintro rfl; exact .const intime⟩

theorem query_settles_iff :
    SettlesTo .outOfFuel (query fetch mainline cache e) r ↔ Asks fetch mainline cache e r := by
  unfold Asks
  cases found : cache[Event.eventId e]? with
  | some pos =>
    have same : query fetch mainline cache e = fun _ => .ok pos := by
      funext fuel
      rw [query, mainlinePosition, found]
      rfl
    rw [same]
    exact settlesTo_const_iff (by simp)
  | none =>
    dsimp only
    cases cites : plInAuthEvents fetch e with
    | error err =>
      have same : query fetch mainline cache e = fun _ => .error err := by
        funext fuel
        rw [query, mainlinePosition, found, cites]
        rfl
      rw [same]
      exact settlesTo_const_iff fun timeout =>
        plInAuthEvents_ne_outOfFuel e (cites.trans (congrArg _ (Except.error.inj timeout)))
    | ok next =>
      have same : query fetch mainline cache e = fun fuel => position (run .outOfFuel
          (positionRound fetch mainline cache) fuel (next, [Event.eventId e])) := by
        funext fuel
        rw [query, mainlinePosition, found, cites]
        dsimp only [ok_bind]
        cases run .outOfFuel (positionRound fetch mainline cache) fuel (next, [Event.eventId e]) <;> rfl
      rw [same]
      exact ⟨fun settles => walks_of_run (settles.2.choose_spec _ le_rfl) settles.1,
        fun walk => walk.settles _⟩

theorem asks_iff (faithful : Faithful fetch mainline cache) (stored : fetch (Event.eventId e) = some e) :
    Asks fetch mainline cache e r ↔ Asks fetch mainline ∅ e r := by
  unfold Asks
  rw [ExtTreeMap.getElem?_empty]
  cases found : cache[Event.eventId e]? with
  | some pos =>
    obtain ⟨e', next, held, cites, rest⟩ := faithful _ _ found
    obtain rfl : e' = e := some_unique held stored
    rw [cites]
    exact ⟨fun same => same ▸ rest, fun walk => walk.unique rest⟩
  | none =>
    dsimp only
    cases plInAuthEvents fetch e with
    | error err => rfl
    | ok next => exact walks_iff faithful

/-! ## The closest mainline event -/

/-- The index of the first mainline event on the path of power-levels events, or the maximum when there is
none. -/
inductive Ahead (fetch : EventId → Option E) (mainline : OrdMap EventId Nat) : Option EventId → Nat → Prop
  | out : Ahead fetch mainline none usizeMax
  | here {id : EventId} {i : Nat} (found : mainline[id]? = some i) : Ahead fetch mainline (some id) i
  | further {id : EventId} {e : E} {next : Option EventId} {i : Nat} (off : mainline[id]? = none)
      (held : fetch id = some e) (cites : plInAuthEvents fetch e = .ok next)
      (rest : Ahead fetch mainline next i) : Ahead fetch mainline (some id) i

theorem walks_ok_iff : Walks fetch mainline ∅ here (.ok pos) ↔ Ahead fetch mainline here pos := by
  constructor
  · intro h
    generalize out : Except.ok pos = r at h
    induction h with
    | out => exact Except.ok.inj out ▸ .out
    | main found => exact Except.ok.inj out ▸ .here found
    | memo off found => simp at found
    | missing off new absent => cases out
    | unread off new held failed => cases out
    | on off new held cites rest ih => exact .further off held cites (ih out)
  · intro h
    induction h with
    | out => exact .out
    | here found => exact .main found
    | further off held cites rest ih => exact .on off ExtTreeMap.getElem?_empty held cites ih

/-- **The position cache changes no answer.** After any queries, one for an event of the store comes to what
it comes to with an empty cache: the index of the first mainline event on the path of the event. On a finite
acyclic store it comes to something. -/
theorem mainlinePosition_cached (cached : Cached fetch mainline cache)
    (stored : fetch (Event.eventId e) = some e) :
    (∀ r, SettlesTo .outOfFuel (query fetch mainline cache e) r ↔
      SettlesTo .outOfFuel (query fetch mainline ∅ e) r) ∧
    (∀ pos, SettlesTo .outOfFuel (query fetch mainline cache e) (.ok pos) ↔
      ∃ next, plInAuthEvents fetch e = .ok next ∧ Ahead fetch mainline next pos) ∧
    ({id | (fetch id).isSome}.Finite → (∀ id, ¬ Below (authGraph fetch) id id) →
      Settles .outOfFuel (query fetch mainline cache e)) := by
  have same (r : Except StateResError Nat) : SettlesTo .outOfFuel (query fetch mainline cache e) r ↔
      SettlesTo .outOfFuel (query fetch mainline ∅ e) r :=
    query_settles_iff.trans ((asks_iff cached.faithful stored).trans query_settles_iff.symm)
  refine ⟨same, fun pos => ?_, fun finite acyclic => ?_⟩
  · rw [same, query_settles_iff, Asks, ExtTreeMap.getElem?_empty]
    dsimp only
    cases plInAuthEvents fetch e with
    | error err => simp
    | ok next => simpa using walks_ok_iff
  · obtain ⟨r, intime, enough, answers⟩ :=
      mainlinePosition_settles (authGraph_wellFounded finite acyclic) mainline cache e
    refine ⟨r.map Prod.fst, ?_, enough, fun fuel more => congrArg (Except.map Prod.fst) (answers fuel more)⟩
    cases r with
    | ok out => simp [Except.map]
    | error err => exact fun timeout => intime (congrArg _ (Except.error.inj timeout))

def sampleLine (id : EventId) : Option IdentifiedPdu :=
  let events := [("$c", Ruma.sampleCreate),
    ("$p", Ruma.samplePdu "p" "m.room.power_levels" (some "") "@a:x" [] ["$c"] ["$c"] 2),
    ("$q", Ruma.samplePdu "q" "m.room.power_levels" (some "") "@a:x" [] ["$c", "$p"] ["$p"] 3),
    ("$t", Ruma.samplePdu "t" "m.room.topic" (some "") "@a:x" [] ["$c", "$q"] ["$q"] 4)]
  (events.lookup id).bind fun raw =>
    ((Pdu.fromCanonical Ruma.sample raw).toOption).map (IdentifiedPdu.mk id)

def sampleMainline : OrdMap EventId Nat := OrdMap.extend ∅ [("$q", 0), ("$p", 1)]

/-- The change of the levels is in the mainline. A query for the topic that it allows finds it at once, and
one for the change comes to the levels before. -/
theorem mainlinePosition_cached_levels : ∃ (topic levels : IdentifiedPdu) (cache : OrdMap EventId Nat),
    mainlinePosition sampleLine 9 sampleMainline topic ∅ = .ok (0, cache) ∧
    SettlesTo .outOfFuel (query sampleLine sampleMainline cache levels) (.ok 1) := by
  obtain ⟨topic, held⟩ : ∃ topic, sampleLine "$t" = some topic :=
    Option.isSome_iff_exists.1 (by decide +kernel)
  obtain ⟨levels, held'⟩ : ∃ levels, sampleLine "$q" = some levels :=
    Option.isSome_iff_exists.1 (by decide +kernel)
  have named : (sampleLine "$t").map Event.eventId = some "$t" := by decide +kernel
  have named' : (sampleLine "$q").map Event.eventId = some "$q" := by decide +kernel
  have answer : (sampleLine "$t").map (fun topic => query sampleLine sampleMainline ∅ topic 9) =
      some (.ok 0) := by decide +kernel
  have cites : (sampleLine "$q").map (plInAuthEvents sampleLine) = some (.ok (some "$p")) := by decide +kernel
  rw [held, Option.map_some, Option.some.injEq] at named answer
  rw [held', Option.map_some, Option.some.injEq] at named' cites
  obtain ⟨cache, found⟩ : ∃ cache, mainlinePosition sampleLine 9 sampleMainline topic ∅ = .ok (0, cache) := by
    rw [query] at answer
    cases out : mainlinePosition sampleLine 9 sampleMainline topic ∅ with
    | error err =>
      rw [out] at answer
      cases answer
    | ok out' =>
      rw [out] at answer
      exact ⟨out'.2, congrArg Except.ok (Prod.ext (Except.ok.inj answer) rfl)⟩
  have cached := Cached.empty.query (by rw [named, held]) found
  obtain ⟨-, answers, -⟩ := mainlinePosition_cached cached (by rw [named', held'])
  exact ⟨topic, levels, cache, found, (answers 1).2 ⟨_, cites, .here (by decide +kernel)⟩⟩

end Saltator.StateRes
