import Saltator.Client.Chain
import Saltator.Lib.Decimal

/-!
# Tokens

Positions as the text that clients hand back. A sync token has a position of every room shard, and sits
after it; a topological token has a position of one room's order, and sits at the event there. Which of
them a text is, is told by its first letter and by its separators.
-/

namespace Saltator.Client

open Std
open Saltator.Outcome
open Room
open Decimal (digits joined parse parseAll splitOnce)

/-! ## Sync tokens -/

/-- The positions that a sync token stands for. -/
structure TokenPos extends SyncPos where
  typing : Nat
  presence : Nat
  deriving DecidableEq

def u64Bound : Nat := 2 ^ 64

/-- A position vector over at least one room shard. -/
structure TokenPos.Valid (p : TokenPos) : Prop where
  shards : p.room ≠ []
  room : ∀ n ∈ p.room, n < u64Bound
  user : p.user < u64Bound
  typing : p.typing < u64Bound
  presence : p.presence < u64Bound

/-- One room shard has a form of its own, which is older. -/
def tokenChars (p : TokenPos) : List Char :=
  if p.room.length ≤ 1 then
    's' :: joined '_' [p.room.headD 0, p.user, p.typing, p.presence]
  else 's' :: (joined '_' [p.user, p.typing, p.presence] ++ 'r' :: joined '.' p.room)

def formatToken (p : TokenPos) : String := String.ofList (tokenChars p)

def invalidSyncToken : ApiError := .invalidParam "Invalid sync token"

def afterLetter (letter : Char) (s : String) : Option (List Char) :=
  match s.toList with
  | [] => none
  | c :: rest => if c = letter then some rest else none

theorem afterLetter_ofList {letter c : Char} {rest : List Char} :
    afterLetter letter (String.ofList (c :: rest)) = if c = letter then some rest else none := by
  unfold afterLetter
  rw [String.toList_ofList]

def parseTokenN (s : String) (roomShards : Option UInt16) : Except ApiError TokenPos :=
  match afterLetter 's' s with
  | none => .error invalidSyncToken
  | some body =>
    match splitOnce 'r' body with
    | some (head, rooms) =>
      match parseAll u64Bound '_' head, parseAll u64Bound '.' rooms with
      | some [user, typing, presence], some room =>
        if roomShards.any fun n => room.length ≠ n.toNat then .error invalidSyncToken
        else .ok ⟨⟨room, user⟩, typing, presence⟩
      | _, _ => .error invalidSyncToken
    | none =>
      if roomShards.any fun n => 1 < n then .error invalidSyncToken
      else
        match parseAll u64Bound '_' body with
        -- Tokens of three parts are older than the presence part.
        | some [room, user, typing] => .ok ⟨⟨[room], user⟩, typing, 0⟩
        | some [room, user, typing, presence] => .ok ⟨⟨[room], user⟩, typing, presence⟩
        | _ => .error invalidSyncToken

def tokenRoomSeq (s : String) (shardIdx : UInt16) : Except ApiError Nat := do
  return (← parseTokenN s none).roomAt shardIdx

/-! ## Page tokens -/

def invalidPageToken : ApiError := .invalidParam "Invalid pagination token"

def RowPos.token : RowPos → String
  | .timeline seq => String.ofList ('t' :: digits seq)
  | .history idx => String.ofList ('h' :: digits idx)

def prevBatchToken (firstSeq stream : Nat) : String :=
  String.ofList ('t' :: joined '_' [firstSeq, stream])

def parseSeq (cs : List Char) : Except ApiError Nat :=
  match parse u64Bound cs with
  | some n => .ok n
  | none => .error invalidPageToken

def parseTopoToken (token : String) (shardIdx : UInt16) : Except ApiError PaginationBound :=
  if (afterLetter 's' token).isSome then do
    let seq ← tokenRoomSeq token shardIdx
    return ⟨seq, false, some seq⟩
  else
    match afterLetter 't' token with
    | none => .error invalidPageToken
    | some body =>
      match splitOnce '_' body with
      | some (seq, stream) => do return ⟨← parseSeq seq, true, some (← parseSeq stream)⟩
      | none => do return ⟨← parseSeq body, true, none⟩

def parsePagePos (token : String) (shardIdx : UInt16) : Except ApiError PagePos :=
  match afterLetter 'h' token with
  | some idx => do return .history (← parseSeq idx)
  | none => do return .timeline (← parseTopoToken token shardIdx)

/-! ## Reading what was made -/

section Tokens

variable {p q : TokenPos} {n m : Nat} {idx : UInt16} {shards : Option UInt16}

theorem not_mem_joined {c sep : Char} {ns : List Nat} (other : c ≠ sep) (letter : c.isDigit = false) :
    c ∉ joined sep ns := by
  intro mem
  obtain same | digit := Decimal.mem_joined mem
  · exact other same
  · rw [letter] at digit
    cases digit

theorem parseTokenN_single {room user typing presence : Nat} (hr : room < u64Bound)
    (hu : user < u64Bound) (ht : typing < u64Bound) (hp : presence < u64Bound) :
    parseTokenN (String.ofList ('s' :: joined '_' [room, user, typing, presence])) shards =
      if shards.any fun n => 1 < n then .error invalidSyncToken
      else .ok ⟨⟨[room], user⟩, typing, presence⟩ := by
  have body : parseAll u64Bound '_' (joined '_' [room, user, typing, presence]) =
      some [room, user, typing, presence] :=
    Decimal.parseAll_joined rfl (by simp) (by simp [hr, hu, ht, hp])
  unfold parseTokenN
  rw [afterLetter_ofList, if_pos rfl]
  dsimp only
  rw [Decimal.splitOnce_none (not_mem_joined (by decide) rfl)]
  dsimp only
  rw [body]

theorem parseTokenN_several {room : List Nat} {user typing presence : Nat} (filled : room ≠ [])
    (hr : ∀ n ∈ room, n < u64Bound) (hu : user < u64Bound) (ht : typing < u64Bound)
    (hp : presence < u64Bound) :
    parseTokenN (String.ofList
        ('s' :: (joined '_' [user, typing, presence] ++ 'r' :: joined '.' room))) shards =
      if shards.any fun n => room.length ≠ n.toNat then .error invalidSyncToken
      else .ok ⟨⟨room, user⟩, typing, presence⟩ := by
  have head : parseAll u64Bound '_' (joined '_' [user, typing, presence]) = some [user, typing, presence] :=
    Decimal.parseAll_joined rfl (by simp) (by simp [hu, ht, hp])
  have tail : parseAll u64Bound '.' (joined '.' room) = some room :=
    Decimal.parseAll_joined rfl filled hr
  unfold parseTokenN
  rw [afterLetter_ofList, if_pos rfl]
  dsimp only
  rw [Decimal.splitOnce_append (not_mem_joined (by decide) rfl)]
  dsimp only
  rw [head, tail]

theorem parseTokenN_formatToken (valid : p.Valid) (counted : ∀ n, shards = some n → 1 ≤ n.toNat) :
    parseTokenN (formatToken p) shards =
      if shards.any fun n => p.room.length ≠ n.toNat then .error invalidSyncToken else .ok p := by
  obtain ⟨⟨room, user⟩, typing, presence⟩ := p
  obtain ⟨filled, rooms, hu, ht, hp⟩ := valid
  dsimp only at filled rooms hu ht hp ⊢
  unfold formatToken tokenChars
  by_cases single : room.length ≤ 1
  · obtain ⟨r, rfl⟩ : ∃ r, room = [r] := by
      rw [← List.length_eq_one_iff]
      have := List.length_pos_iff.2 filled
      omega
    rw [if_pos single]
    refine (parseTokenN_single (rooms r (List.mem_singleton_self r)) hu ht hp).trans ?_
    have many : (shards.any fun n => decide (1 < n)) =
        shards.any fun n => decide ([r].length ≠ n.toNat) := by
      cases shards with
      | none => rfl
      | some n =>
        have := counted n rfl
        have one : (1 : UInt16).toNat = 1 := rfl
        simp only [Option.any_some, decide_eq_decide, UInt16.lt_iff_toNat_lt, List.length_singleton]
        omega
    rw [many]
  · rw [if_neg single]
    exact parseTokenN_several filled rooms hu ht hp

theorem formatToken_injective (hp : p.Valid) (hq : q.Valid) (same : formatToken p = formatToken q) :
    p = q := by
  have first : parseTokenN (formatToken p) none = .ok p := parseTokenN_formatToken hp nofun
  have second : parseTokenN (formatToken q) none = .ok q := parseTokenN_formatToken hq nofun
  rw [same, second] at first
  exact (Except.ok.inj first).symm

theorem parseSeq_digits (fits : n < u64Bound) : parseSeq (digits n) = .ok n := by
  rw [parseSeq, Decimal.parse_digits fits]

theorem parsePagePos_timeline (fits : n < u64Bound) :
    parsePagePos (RowPos.timeline n).token idx = .ok (.timeline ⟨n, true, none⟩) := by
  have body : splitOnce '_' (digits n) = none := Decimal.splitOnce_none (Decimal.not_mem_digits rfl)
  simp [-String.ofList_cons, parsePagePos, parseTopoToken, RowPos.token, afterLetter_ofList, body, parseSeq_digits fits]

theorem parsePagePos_history (fits : n < u64Bound) :
    parsePagePos (RowPos.history n).token idx = .ok (.history n) := by
  simp [-String.ofList_cons, parsePagePos, RowPos.token, afterLetter_ofList, parseSeq_digits fits]

theorem parsePagePos_prevBatch (fits : n < u64Bound) (fits' : m < u64Bound) :
    parsePagePos (prevBatchToken n m) idx = .ok (.timeline ⟨n, true, some m⟩) := by
  have text : joined '_' [n, m] = digits n ++ '_' :: digits m := by simp [joined]
  have body : splitOnce '_' (joined '_' [n, m]) = some (digits n, digits m) :=
    text ▸ Decimal.splitOnce_append (Decimal.not_mem_digits rfl)
  simp [-String.ofList_cons, parsePagePos, parseTopoToken, prevBatchToken, afterLetter_ofList, body, parseSeq_digits fits,
    parseSeq_digits fits']

theorem parsePagePos_sync (valid : p.Valid) : parsePagePos (formatToken p) idx =
      .ok (.timeline ⟨p.roomAt idx, false, some (p.roomAt idx)⟩) := by
  have whole : parseTokenN (formatToken p) none = .ok p := parseTokenN_formatToken valid nofun
  have letter (c : Char) : afterLetter c (formatToken p) =
      if 's' = c then some ((tokenChars p).drop 1) else none := by
    unfold formatToken tokenChars
    split <;> exact afterLetter_ofList
  simp [-String.ofList_cons, parsePagePos, parseTopoToken, tokenRoomSeq, letter, whole]

end Tokens

/-! ## Pages -/

section Pages

variable (s : Store) (room : RoomId) (idx : UInt16) (cap : Option Nat) (dir : Direction)
  (limit : Option Nat)

def pageRows (start : PagePos) : List Row :=
  match dir with
  | .backward => CsState.backwardRows s room cap ⟨.backward, limit, some start, none, none, false⟩
  | .forward => CsState.forwardRows s room cap ⟨.forward, limit, some start, none, none, false⟩

inductive Paged : String → Nat × EventId → Prop
  | listed {token : String} {start : PagePos} {r : Nat × EventId}
      (read : parsePagePos token idx = .ok start)
      (mem : timelineRow r ∈ pageRows s room cap dir limit start) : Paged token r
  | further {token : String} {start : PagePos} {last : Row} {r : Nat × EventId}
      (read : parsePagePos token idx = .ok start)
      (full : (pageRows s room cap dir limit start).length = max 1 (min 1000 (limit.getD 10)))
      (ends : (pageRows s room cap dir limit start).getLast? = some last)
      (next : Paged last.1.token r) : Paged token r

/-- The position is on the side of the bound that pages go to. -/
def Ahead (b : PaginationBound) (n : Nat) : Prop :=
  match dir with
  | .backward => n ≤ b.upper
  | .forward => b.lower < n

end Pages

section Paging

variable {s : Store} {room : RoomId} {idx : UInt16} {cap : Option Nat} {dir : Direction}
  {limit : Option Nat} {token : String} {b : PaginationBound} {r : Nat × EventId}

theorem pageRows_timeline : pageRows s room cap dir limit (.timeline b) =
    (match dir with
    | .backward => scan s.roomSeq room 0 (Option.merge min (some b.upper) cap)
        (max 1 (min 1000 (limit.getD 10))) true
    | .forward => scan s.roomSeq room b.lower cap (max 1 (min 1000 (limit.getD 10))) false).map
      timelineRow := by
  -- a forward page from the room's order has no history before it
  cases dir with
  | backward => rfl
  | forward =>
    simp [pageRows, CsState.forwardRows, CsState.forwardHistoryRows, MessagesQuery.forwardHistory,
      MessagesQuery.forwardSpan, MessagesQuery.size, roomTimeline]

theorem scan_oldest {table : OrdMap (RoomId × Nat) EventId} {after n size : Nat} {upto : Option Nat}
    {id : EventId} (row : (n, id) ∈ scanned table room after upto) :
    (n, id) ∈ scan table room after upto size false ∨
      (scan table room after upto size false).length = size ∧
        ∀ r ∈ scan table room after upto size false, r.1 < n := by
  have sorted := scanned_sorted table room after upto
  rw [← List.take_append_drop size (scanned table room after upto)] at sorted row
  refine (List.mem_append.1 row).imp (fun taken => taken) fun dropped => ⟨?_, fun r mem => ?_⟩
  · have := List.length_pos_of_mem dropped
    rw [List.length_drop] at this
    simp only [scan, Bool.false_eq_true, if_false, List.length_take]
    omega
  · exact (List.pairwise_append.1 sorted).2.2 r mem (n, id) dropped

theorem timelineRow_injective {l : Nat × EventId} (same : timelineRow r = timelineRow l) : r = l := by
  obtain ⟨n, id⟩ := r
  obtain ⟨n', id'⟩ := l
  simpa [timelineRow] using same

/-- The reader may read the row. -/
def Visible (s : Store) (room : RoomId) (cap : Option Nat) (r : Nat × EventId) : Prop :=
  s.roomSeq[(room, r.1)]? = some r.2 ∧ ∀ c, cap = some c → r.1 ≤ c

theorem le_merge {n u : Nat} :
    (∀ k, Option.merge min (some u) cap = some k → n ≤ k) ↔ n ≤ u ∧ ∀ c, cap = some c → n ≤ c := by
  cases cap <;> simp

theorem mem_pageRows {row : Row} (mem : row ∈ pageRows s room cap dir limit (.timeline b)) :
    ∃ r, row = timelineRow r ∧ Visible s room cap r ∧ Ahead dir b r.1 := by
  rw [pageRows_timeline] at mem
  obtain ⟨r, listed, rfl⟩ := List.mem_map.1 mem
  refine ⟨r, rfl, ?_⟩
  cases dir with
  | backward =>
    obtain ⟨held, -, below⟩ := mem_scan listed
    obtain ⟨upper, capped⟩ := le_merge.1 below
    exact ⟨⟨held, capped⟩, upper⟩
  | forward =>
    obtain ⟨held, above, below⟩ := mem_scan listed
    exact ⟨⟨held, below⟩, above⟩

theorem pageRows_complete (visible : Visible s room cap r) (positive : 0 < r.1) (ahead : Ahead dir b r.1) :
    timelineRow r ∈ pageRows s room cap dir limit (.timeline b) ∨
      (pageRows s room cap dir limit (.timeline b)).length = max 1 (min 1000 (limit.getD 10)) ∧
        ∃ last, (pageRows s room cap dir limit (.timeline b)).getLast? = some (timelineRow last) ∧
          Visible s room cap last ∧ Ahead dir b last.1 ∧ Ahead dir ⟨last.1, true, none⟩ r.1 := by
  have size : 0 < max 1 (min 1000 (limit.getD 10)) := by omega
  have inner : timelineRow r ∈ pageRows s room cap dir limit (.timeline b) ∨
      (pageRows s room cap dir limit (.timeline b)).length = max 1 (min 1000 (limit.getD 10)) ∧
        ∀ row ∈ pageRows s room cap dir limit (.timeline b), ∀ l, row = timelineRow l →
          Ahead dir ⟨l.1, true, none⟩ r.1 := by
    rw [pageRows_timeline]
    cases dir with
    | backward =>
      have inReach := mem_scanned.2 ⟨visible.1, positive, le_merge.2 ⟨ahead, visible.2⟩⟩
      rcases scan_newest (max 1 (min 1000 (limit.getD 10))) inReach with mem | ⟨full, past⟩
      · exact .inl (List.mem_map_of_mem mem)
      · refine .inr ⟨(List.length_map ..).trans full, fun row mem l same => ?_⟩
        obtain ⟨l', listed, rfl⟩ := List.mem_map.1 mem
        obtain rfl := timelineRow_injective same
        have := past _ listed
        simp only [Ahead, PaginationBound.upper, if_true]
        omega
    | forward =>
      have inReach := mem_scanned.2 ⟨visible.1, ahead, visible.2⟩
      rcases scan_oldest inReach with mem | ⟨full, past⟩
      · exact .inl (List.mem_map_of_mem mem)
      · refine .inr ⟨(List.length_map ..).trans full, fun row mem l same => ?_⟩
        obtain ⟨l', listed, rfl⟩ := List.mem_map.1 mem
        obtain rfl := timelineRow_injective same
        exact past _ listed
  refine inner.imp_right fun outer => ⟨outer.1, ?_⟩
  obtain ⟨full, past⟩ := outer
  have filled : pageRows s room cap dir limit (.timeline b) ≠ [] := by
    intro empty
    rw [empty] at full
    exact size.ne full
  have mem := List.getLast_mem filled
  obtain ⟨last, same, seen, further⟩ := mem_pageRows mem
  exact ⟨last, (List.getLast?_eq_some_getLast filled).trans (congrArg some same), seen, further,
    past _ mem last same⟩

theorem Paged.ahead (ordered : InOrder s) (sized : s.seq < u64Bound)
    (paged : Paged s room idx cap dir limit token r)
    (read : parsePagePos token idx = .ok (.timeline b)) : Visible s room cap r ∧ Ahead dir b r.1 := by
  induction paged generalizing b with
  | listed read' mem =>
    obtain rfl := ok_unique read' read
    obtain ⟨l, same, visible, ahead⟩ := mem_pageRows mem
    obtain rfl := timelineRow_injective same
    exact ⟨visible, ahead⟩
  | further read' full ends next ih =>
    obtain rfl := ok_unique read' read
    obtain ⟨l, rfl, held, before⟩ := mem_pageRows (List.mem_of_getLast? ends)
    obtain ⟨-, known, -⟩ := ordered.row room l.1 l.2 held.1
    obtain ⟨visible, behind⟩ := ih (parsePagePos_timeline (by omega))
    refine ⟨visible, ?_⟩
    cases dir with
    | backward =>
      simp only [Ahead, PaginationBound.upper, if_true] at before behind ⊢
      omega
    | forward =>
      simp only [Ahead, PaginationBound.lower] at before behind ⊢
      omega

theorem upper_at {n k : Nat} {stream : Option Nat} (positive : 0 < k) :
    k ≤ (PaginationBound.mk n true stream).upper ↔ k < n := by
  simp only [PaginationBound.upper, if_true]
  omega

def PaginationBound.reach (b : PaginationBound) (s : Store) : Direction → Nat
  | .backward => b.upper
  | .forward => s.seq - b.lower

theorem paged_of_ahead (ordered : InOrder s) (sized : s.seq < u64Bound)
    (read : parsePagePos token idx = .ok (.timeline b)) (visible : Visible s room cap r)
    (ahead : Ahead dir b r.1) : Paged s room idx cap dir limit token r := by
  obtain ⟨positive, -, -⟩ := ordered.row room r.1 r.2 visible.1
  generalize size : b.reach s dir = k
  induction k using Nat.strong_induction_on generalizing token b with
  | _ k ih =>
    subst size
    obtain mem | ⟨full, last, ends, held, before, behind⟩ : timelineRow r ∈ _ ∨ _ :=
      pageRows_complete visible positive ahead
    · exact .listed read mem
    · obtain ⟨start, known, -⟩ := ordered.row room last.1 last.2 held.1
      refine .further read full ends (ih _ ?_ (parsePagePos_timeline (by omega)) behind rfl)
      cases dir with
      | backward =>
        simp only [Ahead, PaginationBound.reach, PaginationBound.upper, if_true] at before ⊢
        omega
      | forward =>
        simp only [Ahead, PaginationBound.reach, PaginationBound.lower] at before ⊢
        omega

theorem paged_iff (ordered : InOrder s) (sized : s.seq < u64Bound)
    (read : parsePagePos token idx = .ok (.timeline b)) :
    Paged s room idx cap dir limit token r ↔ Visible s room cap r ∧ Ahead dir b r.1 :=
  ⟨fun paged => paged.ahead ordered sized read,
    fun h => paged_of_ahead ordered sized read h.1 h.2⟩

/-- **Tokens are faithful.** A sync token is read back as the positions it was made of, and refused for
another number of shards; different positions have different tokens. A token at an event leaves the
event out on either side, and a sync token has its position below it. Pages from a token on, back and
forth, have every row that the reader may read on one side, but for the event that the token is at. -/
theorem tokens_faithful {P : Store → RoomCommand → Prop} (run : Runs P Store.empty s)
    (sized : s.seq < u64Bound) (room : RoomId) (idx : UInt16) (cap : Option Nat) :
    (∀ p : TokenPos, p.Valid → ∀ n : UInt16, 1 ≤ n.toNat → parseTokenN (formatToken p) (some n) =
        if p.room.length = n.toNat then .ok p else .error invalidSyncToken) ∧
    (∀ p q : TokenPos, p.Valid → q.Valid → formatToken p = formatToken q → p = q) ∧
    (∀ n m token, n < u64Bound → m < u64Bound →
      token = (RowPos.timeline n).token ∨ token = prevBatchToken n m →
        ∃ b, parsePagePos token idx = .ok (.timeline b) ∧
          ∀ k, 0 < k → (k ≤ b.upper ↔ k < n) ∧ (b.lower < k ↔ n < k)) ∧
    (∀ p : TokenPos, p.Valid → ∃ b, parsePagePos (formatToken p) idx = .ok (.timeline b) ∧
      ∀ k, (k ≤ b.upper ↔ k ≤ p.roomAt idx) ∧ (b.lower < k ↔ p.roomAt idx < k)) ∧
    ∀ token b limit, parsePagePos token idx = .ok (.timeline b) →
      (∀ dir r, Paged s room idx cap dir limit token r → Visible s room cap r) ∧
      ∀ r, Visible s room cap r → (Paged s room idx cap .backward limit token r ↔
          r.1 < b.seq ∨ b.atEvent = false ∧ r.1 = b.seq) ∧
        (Paged s room idx cap .forward limit token r ↔ b.seq < r.1) := by
  have ordered := run_inOrder run
  refine ⟨fun p valid n counted => ?_, fun p q hp hq => formatToken_injective hp hq, ?_, ?_, ?_⟩
  · rw [parseTokenN_formatToken valid fun n' same => Option.some.inj same ▸ counted]
    by_cases same : p.room.length = n.toNat <;> simp [same]
  · rintro n m token fits fits' (rfl | rfl)
    · exact ⟨_, parsePagePos_timeline fits, fun k positive =>
        ⟨upper_at positive, Iff.rfl⟩⟩
    · exact ⟨_, parsePagePos_prevBatch fits fits', fun k positive =>
        ⟨upper_at positive, Iff.rfl⟩⟩
  · intro p valid
    refine ⟨_, parsePagePos_sync valid, fun k => ?_⟩
    simp [PaginationBound.upper, PaginationBound.lower]
  · intro token b limit read
    refine ⟨fun dir r paged => (paged.ahead ordered sized read).1, fun r visible => ?_⟩
    obtain ⟨positive, -, -⟩ := ordered.row room r.1 r.2 visible.1
    rw [paged_iff ordered sized read, paged_iff ordered sized read]
    refine ⟨(and_iff_right visible).trans ?_, and_iff_right visible⟩
    simp only [Ahead, PaginationBound.upper]
    cases b.atEvent
    · simp
      omega
    · simp
      omega

theorem tokens_faithful_sample : ∃ s : Store,
    Runs (fun s cmd => Serial Ruma.sample s cmd ∧ True) Store.empty s ∧ s.seq < u64Bound ∧
    s.roomSeq[("!r:x", 1)]? = some "$c" ∧ s.roomSeq[("!r:x", 2)]? = some "$j" ∧
    (Paged s "!r:x" 0 none .backward none "t2" (1, "$c") ∧
      ¬ Paged s "!r:x" 0 none .forward none "t2" (1, "$c")) ∧
    ¬ Paged s "!r:x" 0 none .backward none "t2" (2, "$j") ∧
    ¬ Paged s "!r:x" 0 none .forward none "t2" (2, "$j") := by
  obtain ⟨s, run, h⟩ := exists_run (fun _ _ => True)
    [.ingest Ruma.sampleCreate false, .ingest Ruma.sampleJoin false]
    (fun s : Store => decide (s.seq = 2) && decide (s.roomSeq[("!r:x", 1)]? = some "$c") &&
      decide (s.roomSeq[("!r:x", 2)]? = some "$j"))
    (by decide +kernel)
  simp only [Bool.and_eq_true, decide_eq_true_eq] at h
  obtain ⟨⟨seq, create⟩, join⟩ := h
  have sized : s.seq < u64Bound := by
    rw [seq]
    decide
  have read : parsePagePos "t2" 0 = .ok (.timeline ⟨2, true, none⟩) :=
    parsePagePos_timeline (by decide : 2 < u64Bound)
  obtain ⟨-, -, -, -, pages⟩ := tokens_faithful run sized "!r:x" 0 none
  have parted := (pages "t2" _ none read).2
  have first := parted (1, "$c") ⟨create, nofun⟩
  have anchor := parted (2, "$j") ⟨join, nofun⟩
  refine ⟨s, run, sized, create, join, ⟨first.1.2 (.inl (by decide)), fun paged => ?_⟩,
    fun paged => ?_, fun paged => ?_⟩
  · exact absurd (first.2.1 paged) (by decide)
  · exact absurd (anchor.1.1 paged) (by decide)
  · exact absurd (anchor.2.1 paged) (by decide)

end Paging

end Saltator.Client
