import Mathlib.Data.List.Basic

/-!
# An index behind a log

A log says things at positions. An index keeps one row, a position with what was said there, and is
delivered the log up to a cursor; a row may also be written from elsewhere, ahead of the cursor. A row
only gives way to a later position (`put`).

`Covers` says that the row has no position behind it that was delivered, and `Tells` that the index is
going to have a value: the log says it at the last position that is still to be put in, or there is
none and the row has it. Both survive deliveries, and when all is delivered the row has the value
(`Tells.value`).
-/

namespace Saltator.Index

variable {α : Type}

def put (row : Option (Nat × α)) (e : Nat × α) : Option (Nat × α) :=
  if row.any fun r => e.1 ≤ r.1 then row else some e

def Behind (row : Option (Nat × α)) (n : Nat) : Prop := ∀ r, row = some r → r.1 < n

def Reached (row : Option (Nat × α)) (n : Nat) : Prop := ∃ r, row = some r ∧ n ≤ r.1

section Rows

variable {row : Option (Nat × α)} {e : Nat × α} {n : Nat}

theorem behind_or_reached (row : Option (Nat × α)) (n : Nat) : Behind row n ∨ Reached row n := by
  cases row with
  | none => exact .inl fun r h => by cases h
  | some r =>
    rcases Nat.lt_or_ge r.1 n with less | le
    · exact .inl fun r' h => Option.some.inj h ▸ less
    · exact .inr ⟨r, rfl, le⟩

theorem Behind.not_reached (h : Behind row n) : ¬ Reached row n := by
  rintro ⟨r, found, le⟩
  exact Nat.not_lt.2 le (h r found)

theorem put_behind (h : Behind row e.1) : put row e = some e := by
  refine if_neg fun stale => ?_
  obtain ⟨r, found, le⟩ := (Option.any_eq_true _ _).1 stale
  exact h.not_reached ⟨r, found, of_decide_eq_true le⟩

theorem put_reached (h : Reached row e.1) : put row e = row := by
  obtain ⟨r, found, le⟩ := h
  exact if_pos ((Option.any_eq_true _ _).2 ⟨r, found, decide_eq_true le⟩)

theorem foldl_put {l : List (Nat × α)} (sorted : l.Pairwise fun a b => a.1 < b.1) (row : Option (Nat × α)) :
    (l.foldl put row = row ∧ ∀ e ∈ l, Reached row e.1) ∨
      ∃ e ∈ l, l.foldl put row = some e ∧ Behind row e.1 ∧ ∀ e' ∈ l, e'.1 ≤ e.1 := by
  induction l generalizing row with
  | nil => exact .inl ⟨rfl, by simp⟩
  | cons e l ih =>
    obtain ⟨first, sorted⟩ := List.pairwise_cons.1 sorted
    rw [List.foldl_cons]
    rcases behind_or_reached row e.1 with behind | reached
    · rw [put_behind behind]
      right
      rcases ih sorted (some e) with ⟨same, past⟩ | ⟨last, mem, same, after, greatest⟩
      · refine ⟨e, List.mem_cons_self, same, behind, fun e' mem' => ?_⟩
        rcases List.mem_cons.1 mem' with rfl | mem'
        · exact Nat.le_refl _
        · obtain ⟨r, found, le⟩ := past e' mem'
          exact Option.some.inj found ▸ le
      · refine ⟨last, List.mem_cons_of_mem _ mem, same, fun r found => ?_, fun e' mem' => ?_⟩
        · exact Nat.lt_trans (behind r found) (after e rfl)
        · rcases List.mem_cons.1 mem' with rfl | mem'
          · exact Nat.le_of_lt (first last mem)
          · exact greatest e' mem'
    · rw [put_reached reached]
      rcases ih sorted row with ⟨same, past⟩ | ⟨last, mem, same, after, greatest⟩
      · refine .inl ⟨same, fun e' mem' => ?_⟩
        rcases List.mem_cons.1 mem' with rfl | mem'
        · exact reached
        · exact past e' mem'
      · refine .inr ⟨last, List.mem_cons_of_mem _ mem, same, after, fun e' mem' => ?_⟩
        rcases List.mem_cons.1 mem' with rfl | mem'
        · exact Nat.le_of_lt (first last mem)
        · exact greatest e' mem'

end Rows

/-- No position that was delivered is ahead of the row. -/
def Covers (log : Nat → Option α) (row : Option (Nat × α)) (cursor : Nat) : Prop :=
  ∀ n, n ≤ cursor → log n ≠ none → Reached row n

/-- The log says nothing past a position. -/
def Quiet (log : Nat → Option α) (n : Nat) : Prop := ∀ m, n < m → log m = none

/-- What the index is going to have. -/
def Tells (log : Nat → Option α) (row : Option (Nat × α)) (cursor : Nat) (a : α) : Prop :=
  (∃ q, Behind row q ∧ cursor < q ∧ log q = some a ∧ Quiet log q) ∨
    (∀ n, cursor < n → Behind row n → log n = none) ∧ row.map Prod.snd = some a

section Logs

variable {log : Nat → Option α} {row : Option (Nat × α)} {cursor upto n : Nat} {a b : α}

theorem Tells.value (h : Tells log row cursor a) (quiet : Quiet log cursor) :
    row.map Prod.snd = some a := by
  rcases h with ⟨q, -, ahead, said, -⟩ | ⟨-, same⟩
  · rw [quiet q ahead] at said
    cases said
  · exact same

theorem Tells.of_last (behind : Behind row n) (ahead : cursor < n) (said : log n = some a)
    (quiet : Quiet log n) : Tells log row cursor a := .inl ⟨n, behind, ahead, said, quiet⟩

theorem deliver {l : List (Nat × α)} {after : Nat} (sorted : l.Pairwise fun a b => a.1 < b.1)
    (listed : ∀ e : Nat × α, e ∈ l ↔ log e.1 = some e.2 ∧ after < e.1 ∧ e.1 ≤ upto)
    (meets : after ≤ cursor) (onward : cursor ≤ upto) (covers : Covers log row cursor) :
    Covers log (l.foldl put row) upto ∧ (Tells log row cursor a → Tells log (l.foldl put row) upto a) := by
  rcases foldl_put sorted row with ⟨same, past⟩ | ⟨e, mem, same, behind, greatest⟩
  · rw [same]
    have reached : ∀ n, cursor < n → n ≤ upto → log n ≠ none → Reached row n := by
      intro n ahead within said
      obtain ⟨v, said⟩ := Option.ne_none_iff_exists'.1 said
      exact past (n, v) ((listed (n, v)).2 ⟨said, by omega, within⟩)
    refine ⟨fun n within said => ?_, ?_⟩
    · rcases Nat.lt_or_ge cursor n with ahead | old
      · exact reached n ahead within said
      · exact covers n old said
    · rintro (⟨q, behind, ahead, said, quiet⟩ | ⟨nothing, same⟩)
      · refine .inl ⟨q, behind, ?_, said, quiet⟩
        by_contra within
        exact behind.not_reached (reached q ahead (Nat.not_lt.1 within) (by simp [said]))
      · exact .inr ⟨fun n ahead => nothing n (by omega), same⟩
  · rw [same]
    obtain ⟨said, fresh, within⟩ := (listed e).1 mem
    have later : ∀ n v, log n = some v → n ≤ upto → n ≤ e.1 := by
      intro n v said within
      rcases Nat.lt_or_ge after n with fresh | old
      · exact greatest (n, v) ((listed (n, v)).2 ⟨said, fresh, within⟩)
      · omega
    refine ⟨fun n within said => ?_, ?_⟩
    · obtain ⟨v, said⟩ := Option.ne_none_iff_exists'.1 said
      exact ⟨e, rfl, later n v said within⟩
    · have ahead : cursor < e.1 := by
        by_contra old
        exact behind.not_reached (covers e.1 (Nat.not_lt.1 old) (by simp [said]))
      rintro (⟨q, -, -, told, quiet⟩ | ⟨nothing, -⟩)
      · rcases Nat.lt_trichotomy q e.1 with less | rfl | greater
        · rw [quiet e.1 less] at said
          cases said
        · rw [said] at told
          refine .inr ⟨fun n ahead _ => quiet n (by omega), told⟩
        · refine .inl ⟨q, fun r found => Option.some.inj found ▸ greater, ?_, told, quiet⟩
          by_contra within
          have := later q a told (Nat.not_lt.1 within)
          omega
      · rw [nothing e.1 ahead behind] at said
        cases said

theorem Tells.replace (h : Tells log (some (n, b)) 0 a) (behind : Behind row n)
    (covers : Covers log row cursor) : Tells log (some (n, b)) cursor a := by
  rcases h with ⟨q, past, -, said, quiet⟩ | ⟨nothing, same⟩
  · refine .inl ⟨q, past, ?_, said, quiet⟩
    by_contra old
    obtain ⟨r, found, le⟩ := covers q (Nat.not_lt.1 old) (by simp [said])
    have := behind r found
    have := past (n, b) rfl
    dsimp only at this
    omega
  · exact .inr ⟨fun m ahead => nothing m (by omega), same⟩

theorem Covers.replace (covers : Covers log row cursor) (behind : Behind row n) :
    Covers log (some (n, b)) cursor := by
  intro m old said
  obtain ⟨r, found, le⟩ := covers m old said
  exact ⟨(n, b), rfl, Nat.le_trans le (Nat.le_of_lt (behind r found))⟩

theorem Tells.read (h : Tells log row cursor a) (covers : Covers log row cursor)
    (behind : Behind row n) : Tells log (some (n, a)) 0 a := by
  rcases h with ⟨q, past, ahead, said, quiet⟩ | ⟨nothing, -⟩
  · rcases Nat.lt_or_ge n q with later | old
    · exact .inl ⟨q, fun r found => Option.some.inj found ▸ later, by omega, said, quiet⟩
    · refine .inr ⟨fun m _ after => quiet m ?_, rfl⟩
      have := after (n, a) rfl
      dsimp only at this
      omega
  · refine .inr ⟨fun m _ after => ?_, rfl⟩
    have later : n < m := after (n, a) rfl
    by_contra said
    rcases Nat.lt_or_ge cursor m with ahead | old
    · exact said (nothing m ahead fun r found => Nat.lt_trans (behind r found) later)
    · obtain ⟨r, found, le⟩ := covers m old said
      have := behind r found
      omega

end Logs

end Saltator.Index
