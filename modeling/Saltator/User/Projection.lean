import Saltator.User.KeyLog

/-!
# The membership projection

A projection reads the change stream of a room shard past its durable cursor and applies what it
reads in chunks. It reads again after a crash, so a chunk may be delivered again or overlap what was
delivered before. `projection_independent` says that only the position reached matters: any such
sequence of chunks leads to the store that the stream up to there leads to in one piece.
-/

namespace Saltator.User

open Saltator.Outcome
open Machine

def MembershipChange.pair (c : MembershipChange) : UserId × RoomId := (c.userId, c.roomId)

def MembershipChange.row (c : MembershipChange) (seq : Nat) : MembershipEntry where
  membership := c.membership
  eventId := c.eventId
  sender := c.sender
  roomSeq := c.roomSeq
  seq := seq
  forgotten := false

def window (stream : List MembershipChange) (after upto : Nat) : List MembershipChange :=
  stream.filter fun c => after < c.roomSeq ∧ c.roomSeq ≤ upto

/-- A stream in the order of its positions, which tell the changes of one pair apart. -/
def InSequence (stream : List MembershipChange) : Prop :=
  stream.Pairwise fun c c' => c.roomSeq ≤ c'.roomSeq ∧ (c.pair = c'.pair → c.roomSeq ≠ c'.roomSeq)

/-- One delivery: what was read past a position, up to another. -/
structure Delivery where
  after : Nat
  upto : Nat
  deriving DecidableEq

def Delivery.command (source : String) (stream : List MembershipChange) (d : Delivery) : UserCommand :=
  .applyRoomChanges source d.upto (window stream d.after d.upto)

/-- Nothing is left out: each delivery begins at or before the position reached. -/
def Contiguous : Nat → List Delivery → Prop
  | _, [] => True
  | reached, d :: ds => d.after ≤ reached ∧ Contiguous (max reached d.upto) ds

def greatest (ds : List Delivery) : Nat := ds.foldl (fun reached d => max reached d.upto) 0

def Store.cursorOf (s : Store) (source : String) : Nat := s.cursor[source]?.getD 0

/-- The store that a projection starts from: nothing of the source has been delivered, and the rows
it will write are not ahead of it. -/
structure Untouched (s : Store) (source : String) (stream : List MembershipChange) : Prop where
  cursor : s.cursor[source]? = none
  behind : ∀ c ∈ stream, ∀ row, s.membership[c.pair]? = some row → row.roomSeq < c.roomSeq

/-! ## Windows -/

section Windows

variable {stream : List MembershipChange} {after mid upto : Nat} {c : MembershipChange}

theorem mem_window : c ∈ window stream after upto ↔ c ∈ stream ∧ after < c.roomSeq ∧ c.roomSeq ≤ upto := by
  simp [window]

theorem window_append (ordered : stream.Pairwise fun c c' => c.roomSeq ≤ c'.roomSeq)
    (first : after ≤ mid) (second : mid ≤ upto) :
    window stream after upto = window stream after mid ++ window stream mid upto := by
  induction stream with
  | nil => rfl
  | cons c stream ih =>
    obtain ⟨below, rest⟩ := List.pairwise_cons.1 ordered
    have ih := ih rest
    by_cases early : c.roomSeq ≤ mid
    · have later : ¬ mid < c.roomSeq := not_lt.2 early
      simp only [window, List.filter_cons, later, early.trans second, early, and_true, decide_false] at ih ⊢
      split
      · rw [ih]
        rfl
      · exact ih
    · -- The rest of the stream is past `mid` as well.
      have past : ∀ c' ∈ c :: stream, mid < c'.roomSeq := by
        intro c' mem
        obtain rfl | mem := List.mem_cons.1 mem
        · exact not_le.1 early
        · exact (not_le.1 early).trans_le (below c' mem)
      have none_left : window (c :: stream) after mid = [] :=
        List.filter_eq_nil_iff.2 fun c' mem => by simp [not_le.2 (past c' mem)]
      rw [none_left, List.nil_append]
      exact List.filter_congr fun c' mem => by
        simp [past c' mem, first.trans_lt (past c' mem)]

theorem InSequence.window (h : InSequence stream) (after upto : Nat) :
    InSequence (window stream after upto) :=
  h.filter _

theorem InSequence.ordered (h : InSequence stream) :
    stream.Pairwise fun c c' => c.roomSeq ≤ c'.roomSeq := h.imp fun h => h.1

theorem InSequence.unique (h : InSequence stream) {c c' : MembershipChange} (mem : c ∈ stream)
    (mem' : c' ∈ stream) (pair : c.pair = c'.pair) (seq : c.roomSeq = c'.roomSeq) : c = c' := by
  by_contra apart
  have : Std.Symm fun c c' : MembershipChange => c.pair = c'.pair → c.roomSeq ≠ c'.roomSeq :=
    ⟨fun _ _ h pair seq => h pair.symm seq.symm⟩
  exact (h.imp fun h => h.2).forall mem mem' apart pair seq

end Windows

/-! ## One piece of the stream -/

section Fold

variable {s : Store} {l : List MembershipChange} {c : MembershipChange}

theorem foldl_stale
    (stale : ∀ c ∈ l, ∃ row, s.membership[c.pair]? = some row ∧ c.roomSeq ≤ row.roomSeq) :
    l.foldl applyRoomChange s = s := by
  induction l with
  | nil => rfl
  | cons c l ih =>
    obtain ⟨row, found, ahead⟩ := stale c List.mem_cons_self
    have skipped : applyRoomChange s c = s := by
      rw [applyRoomChange_eq, show s.membership[(c.userId, c.roomId)]? = some row from found]
      exact if_pos (decide_eq_true ahead)
    rw [List.foldl_cons, skipped]
    exact ih fun c mem => stale c (List.mem_cons_of_mem _ mem)

theorem membership_applyRoomChange
    (behind : ∀ row, s.membership[c.pair]? = some row → row.roomSeq < c.roomSeq) :
    (applyRoomChange s c).membership = s.membership.insert c.pair (c.row (s.seq + 1)) := by
  have fresh : ¬ (s.membership[(c.userId, c.roomId)]?.any fun m => c.roomSeq ≤ m.roomSeq) = true := by
    intro stale
    obtain ⟨row, found, ahead⟩ := (Option.any_eq_true _ _).1 stale
    exact absurd (behind row found) (not_lt.2 (of_decide_eq_true ahead))
  rw [applyRoomChange_eq, if_neg fresh]
  rfl

theorem foldl_rows (ordered : InSequence l)
    (behind : ∀ c ∈ l, ∀ row, s.membership[c.pair]? = some row → row.roomSeq < c.roomSeq)
    (pair : UserId × RoomId) :
    (∃ c ∈ l, c.pair = pair ∧ (∀ c' ∈ l, c'.pair = pair → c'.roomSeq ≤ c.roomSeq) ∧
      ∃ seq, (l.foldl applyRoomChange s).membership[pair]? = some (c.row seq)) ∨
    ((∀ c ∈ l, c.pair ≠ pair) ∧ (l.foldl applyRoomChange s).membership[pair]? = s.membership[pair]?) := by
  induction l generalizing s with
  | nil => exact .inr ⟨by simp, rfl⟩
  | cons c l ih =>
    obtain ⟨first, rest⟩ := List.pairwise_cons.1 ordered
    have written := membership_applyRoomChange (behind c List.mem_cons_self)
    have ahead : ∀ c' ∈ l, ∀ row, (applyRoomChange s c).membership[c'.pair]? = some row →
        row.roomSeq < c'.roomSeq := by
      intro c' mem row found
      rw [written, OrdMap.getElem?_insert'] at found
      split at found
      · rename_i same
        obtain rfl := Option.some.inj found
        exact lt_of_le_of_ne (first c' mem).1 ((first c' mem).2 same.symm)
      · exact behind c' (List.mem_cons_of_mem _ mem) row found
    rw [List.foldl_cons]
    obtain ⟨last, mem, own, greatest, row⟩ | ⟨none_left, row⟩ := ih rest ahead
    · refine .inl ⟨last, List.mem_cons_of_mem _ mem, own, fun c' mem' own' => ?_, row⟩
      obtain rfl | mem' := List.mem_cons.1 mem'
      · exact (first last mem).1
      · exact greatest c' mem' own'
    · by_cases own : c.pair = pair
      · refine .inl ⟨c, List.mem_cons_self, own, fun c' mem' own' => ?_, s.seq + 1, ?_⟩
        · obtain rfl | mem' := List.mem_cons.1 mem'
          · exact le_rfl
          · exact absurd own' (none_left c' mem')
        · rw [row, written, own, OrdMap.getElem?_insert', if_pos rfl]
      · refine .inr ⟨?_, ?_⟩
        · intro c' mem'
          obtain rfl | mem' := List.mem_cons.1 mem'
          · exact own
          · exact none_left c' mem'
        · rw [row, written, OrdMap.getElem?_insert', if_neg (Ne.symm own)]

theorem foldl_cursor (cursor : OrdMap String Nat) :
    l.foldl applyRoomChange { s with cursor := cursor } =
      { l.foldl applyRoomChange s with cursor := cursor } := by
  induction l generalizing s with
  | nil => rfl
  | cons c l ih =>
    have one : applyRoomChange { s with cursor := cursor } c =
        { applyRoomChange s c with cursor := cursor } := by
      rw [applyRoomChange_eq, applyRoomChange_eq]
      split
      · rfl
      · rfl
    rw [List.foldl_cons, one, ih, List.foldl_cons]

theorem cursor_foldl : (l.foldl applyRoomChange s).cursor = s.cursor := by
  have kept := congrArg Store.cursor (foldl_cursor (s := s) (l := l) s.cursor)
  exact kept

end Fold

/-! ## Deliveries -/

section Deliveries

variable {serde : SerdeJson} {s t : Store} {source : String} {stream : List MembershipChange}
  {reached : Nat}

def projected (s : Store) (source : String) (stream : List MembershipChange) (upto : Nat) : Store :=
  (applyRoomChanges s source upto (window stream 0 upto)).1

def cursorsAt (s : Store) (source : String) (reached : Nat) : OrdMap String Nat :=
  if reached = 0 then s.cursor else s.cursor.insert source reached

theorem cursorsAt_insert (reached upto : Nat) :
    (cursorsAt s source reached).insert source upto = s.cursor.insert source upto := by
  unfold cursorsAt
  split
  · rfl
  · apply Std.ExtTreeMap.ext_getElem?
    intro k
    simp only [OrdMap.getElem?_insert']
    split <;> rfl

theorem Untouched.projected_eq (h : Untouched s source stream) : projected s source stream reached =
      { (window stream 0 reached).foldl applyRoomChange s with
        cursor := cursorsAt s source reached } := by
  unfold projected applyRoomChanges cursorsAt
  rw [h.cursor]
  by_cases start : reached = 0
  · have nothing : window stream 0 0 = [] :=
      List.filter_eq_nil_iff.2 fun c _ => by simp; omega
    rw [if_pos (show reached ≤ (none : Option Nat).getD 0 from start.le), if_pos start, start, nothing]
    rfl
  · have ahead : ¬ reached ≤ (none : Option Nat).getD 0 := fun h => start (Nat.le_zero.1 h)
    rw [if_neg ahead, if_neg start]
    dsimp only
    rw [cursor_foldl]

theorem Untouched.projected_zero (h : Untouched s source stream) : projected s source stream 0 = s := by
  unfold projected applyRoomChanges
  rw [h.cursor]
  rfl

theorem Untouched.membership_projected (h : Untouched s source stream) :
    (projected s source stream reached).membership =
      ((window stream 0 reached).foldl applyRoomChange s).membership := by
  rw [h.projected_eq]

theorem Untouched.cursor_projected (h : Untouched s source stream) :
    (projected s source stream reached).cursorOf source = reached := by
  rw [h.projected_eq, Store.cursorOf, cursorsAt]
  by_cases start : reached = 0
  · rw [if_pos start, h.cursor, start]
    rfl
  · rw [if_neg start, OrdMap.getElem?_insert', if_pos rfl]
    rfl

theorem Untouched.deliver (h : Untouched s source stream) (ordered : InSequence stream)
    {d : Delivery} (meets : d.after ≤ reached) :
    applyRoomChanges (projected s source stream reached) source d.upto (window stream d.after d.upto) =
      (projected s source stream (max reached d.upto),
        if d.upto ≤ reached then .stale else .ok) := by
  have cursor : (projected s source stream reached).cursor[source]?.getD 0 = reached :=
    h.cursor_projected
  unfold applyRoomChanges
  rw [cursor]
  split
  · rename_i behind
    rw [max_eq_left behind]
  · rename_i ahead
    have ahead := not_le.1 ahead
    have stale : ∀ c ∈ window stream d.after reached,
        ∃ row, (projected s source stream reached).membership[c.pair]? = some row ∧
          c.roomSeq ≤ row.roomSeq := by
      intro c mem
      obtain ⟨listed, past, within⟩ := mem_window.1 mem
      have mem : c ∈ window stream 0 reached := mem_window.2 ⟨listed, by omega, within⟩
      obtain ⟨last, -, -, greatest, seq, row⟩ | ⟨none_left, -⟩ := foldl_rows (s := s)
        (ordered.window _ _) (fun c mem => h.behind c (mem_window.1 mem).1) c.pair
      · exact ⟨last.row seq, h.membership_projected ▸ row, greatest c mem rfl⟩
      · exact absurd rfl (none_left c mem)
    have onward : (window stream d.after d.upto).foldl applyRoomChange (projected s source stream reached) =
          (window stream reached d.upto).foldl applyRoomChange (projected s source stream reached) := by
      rw [window_append ordered.ordered meets ahead.le, List.foldl_append, foldl_stale stale]
    rw [onward, max_eq_right ahead.le, h.projected_eq, h.projected_eq, foldl_cursor,
      window_append ordered.ordered (Nat.zero_le reached) ahead.le, List.foldl_append]
    have past : cursorsAt s source d.upto = s.cursor.insert source d.upto :=
      if_neg (Nat.ne_of_gt (Nat.zero_lt_of_lt ahead))
    rw [past, ← cursorsAt_insert reached d.upto]

theorem cursorOf_applyRoomChanges (s : Store) (source : String) (upto : Nat)
    (changes : List MembershipChange) :
    s.cursorOf source ≤ (applyRoomChanges s source upto changes).1.cursorOf source := by
  unfold applyRoomChanges
  split
  · exact le_rfl
  · rename_i ahead
    have moved : (((changes.foldl applyRoomChange s).cursor.insert source upto)[source]?).getD 0 =
        upto := by
      rw [OrdMap.getElem?_insert', if_pos rfl]
      rfl
    exact (not_le.1 ahead).le.trans moved.ge

theorem redeliver (serde : SerdeJson) (e t : Store) (d : Delivery) :
    ∃ t' r, apply serde e t (d.command source stream) = .ok (t', r) ∧
      t.cursorOf source ≤ t'.cursorOf source ∧
      (d.upto ≤ t.cursorOf source → t' = t ∧ r = .stale) := by
  obtain ⟨t', r, result⟩ : ∃ t' r,
      applyRoomChanges t source d.upto (window stream d.after d.upto) = (t', r) := ⟨_, _, rfl⟩
  have forward := cursorOf_applyRoomChanges t source d.upto (window stream d.after d.upto)
  rw [result] at forward
  refine ⟨t', r, congrArg Except.ok result, forward, fun behind => ?_⟩
  have idle : applyRoomChanges t source d.upto (window stream d.after d.upto) = (t, .stale) :=
    if_pos behind
  exact Prod.mk.inj (result.symm.trans idle)

theorem Untouched.deliverAll (serde : SerdeJson) (h : Untouched s source stream) (ordered : InSequence stream)
    {ds : List Delivery} (meets : Contiguous reached ds) :
    ∃ rs, Batch.applySingly (apply serde) (projected s source stream reached)
      (ds.map (Delivery.command source stream)) =
        .ok (projected s source stream (ds.foldl (fun reached d => max reached d.upto) reached), rs) := by
  induction ds generalizing reached with
  | nil => exact ⟨[], rfl⟩
  | cons d ds ih =>
    obtain ⟨now, later⟩ := meets
    obtain ⟨rs, rest⟩ := ih later
    have first : apply serde (projected s source stream reached) (projected s source stream reached)
        (d.command source stream) = .ok (applyRoomChanges (projected s source stream reached) source
          d.upto (window stream d.after d.upto)) := rfl
    rw [h.deliver ordered now] at first
    refine ⟨(if d.upto ≤ reached then .stale else .ok) :: rs, ?_⟩
    rw [List.map_cons, Batch.applySingly, first, ok_bind]
    dsimp only
    rw [rest]
    rfl

theorem applyAll_deliveries (batches : List (List Delivery)) (s : Store) :
    Batch.applyAll (apply serde) s (batches.map (List.map (Delivery.command source stream))) =
      Batch.applySingly (apply serde) s (batches.flatten.map (Delivery.command source stream)) := by
  have within : ∀ (ds : List Delivery) (e s : Store),
      Batch.Fresh (apply serde) (fun _ _ cmd => ∃ d, cmd = Delivery.command source stream d) e s
        (ds.map (Delivery.command source stream)) := by
    intro ds e
    induction ds with
    | nil => exact fun _ => trivial
    | cons d ds ih => exact fun _ => ⟨⟨d, rfl⟩, fun t _ _ => ih t⟩
  have fresh : Batch.FreshAll (apply serde) (fun _ _ cmd => ∃ d, cmd = Delivery.command source stream d) s
      (batches.map (List.map (Delivery.command source stream))) := by
    induction batches generalizing s with
    | nil => trivial
    | cons ds batches ih => exact ⟨within ds s s, fun t _ _ => ih t⟩
  rw [Batch.applyAll_eq_singly (fun e s c ⟨d, hd⟩ => by rw [hd]; rfl) fresh, List.map_flatten]

/-- **The membership projection is independent of its delivery.** Contiguous deliveries of a stream,
repeated and overlapping as they may be, and cut into batches in any way, lead to the store that the
stream up to the greatest position delivered leads to in one piece. There every row is the change of
its pair with the greatest position, the cursor is at the greatest position delivered, and one more
delivery does not take it back; one that ends at or behind it changes nothing at all. -/
theorem projection_independent (serde : SerdeJson) {s : Store} {source : String}
    {stream : List MembershipChange} (untouched : Untouched s source stream)
    (ordered : InSequence stream) {batches : List (List Delivery)}
    (contiguous : Contiguous 0 batches.flatten) :
    ∃ t rs, Batch.applyAll (apply serde) s
        (batches.map (List.map (Delivery.command source stream))) = .ok (t, rs) ∧
      t = projected s source stream (greatest batches.flatten) ∧
      t.cursorOf source = greatest batches.flatten ∧
      (∀ c ∈ window stream 0 (greatest batches.flatten),
        (∀ c' ∈ window stream 0 (greatest batches.flatten), c'.pair = c.pair →
          c'.roomSeq ≤ c.roomSeq) → ∃ seq, t.membership[c.pair]? = some (c.row seq)) ∧
      (∀ pair, (∀ c ∈ window stream 0 (greatest batches.flatten), c.pair ≠ pair) →
        t.membership[pair]? = s.membership[pair]?) ∧
      ∀ (e : Store) (d : Delivery), ∃ t' r, apply serde e t (d.command source stream) = .ok (t', r) ∧
          t.cursorOf source ≤ t'.cursorOf source ∧
          (d.upto ≤ t.cursorOf source → t' = t ∧ r = .stale) := by
  obtain ⟨rs, run⟩ := untouched.deliverAll serde ordered contiguous
  rw [untouched.projected_zero, ← applyAll_deliveries] at run
  have rows := foldl_rows (s := s) (ordered.window 0 (greatest batches.flatten))
    fun c mem => untouched.behind c (mem_window.1 mem).1
  rw [← untouched.membership_projected] at rows
  refine ⟨_, rs, run, rfl, untouched.cursor_projected, fun c mem last => ?_, fun pair none_left => ?_,
    fun e d => redeliver serde e _ d⟩
  · obtain ⟨c', mem', own, greatest, row⟩ | ⟨none_left, -⟩ := rows c.pair
    · obtain rfl := ordered.unique (mem_window.1 mem').1 (mem_window.1 mem).1 own
        (Nat.le_antisymm (last c' mem' own) (greatest c mem rfl))
      exact row
    · exact absurd rfl (none_left c mem)
  · obtain ⟨c, mem, own, -⟩ | ⟨-, kept⟩ := rows pair
    · exact absurd own (none_left c mem)
    · exact kept

def sampleStream : List MembershipChange :=
  [⟨"@a:x", "!r:y", "join", "$1", "@a:x", 1⟩, ⟨"@b:x", "!r:y", "join", "$2", "@b:x", 2⟩,
    ⟨"@a:x", "!r:y", "leave", "$3", "@a:x", 3⟩]

def sampleBatches : List (List Delivery) := [[⟨0, 2⟩, ⟨1, 3⟩], [⟨0, 2⟩]]

theorem projection_independent_overlapping : ∃ t rs, Batch.applyAll (apply SerdeJson.sample) .empty
      (sampleBatches.map (List.map (Delivery.command "r" sampleStream))) = .ok (t, rs) ∧
    t.cursorOf "r" = 3 ∧
    ∃ seq, t.membership[("@a:x", "!r:y")]? = some ⟨"leave", "$3", "@a:x", 3, seq, false⟩ := by
  have untouched : Untouched .empty "r" sampleStream :=
    ⟨rfl, fun _ _ _ found => by simp [Store.empty] at found⟩
  have ordered : InSequence sampleStream := by
    unfold InSequence
    decide
  have contiguous : Contiguous 0 sampleBatches.flatten :=
    ⟨by decide, by decide, by decide, trivial⟩
  obtain ⟨t, rs, run, -, cursor, rows, -⟩ :=
    projection_independent SerdeJson.sample untouched ordered contiguous
  exact ⟨t, rs, run, cursor, rows ⟨"@a:x", "!r:y", "leave", "$3", "@a:x", 3⟩ (by decide) (by decide)⟩

end Deliveries

end Saltator.User
