import Saltator.Core.Acl

/-!
# What a glob matches

The declarative meaning of a glob, and that the matcher decides it. The matcher only ever goes back
to the last `*`: a text that an earlier one could still match is matched by the later one as well,
since what is between them has been read already.

A `*` that the text itself contains is taken literally before the wildcard is looked for, so the
matcher misses matches there; what it does accept is a match always.
-/

namespace Saltator

namespace Glob

/-- `*` stands for any run of characters, `?` for exactly one, another character for itself. -/
inductive Matches : List Char → List Char → Prop
  | nil : Matches [] []
  | run {pattern text others : List Char} (stands : List Char) (cut : text = stands ++ others)
    (rest : Matches pattern others) : Matches ('*' :: pattern) text
  | any {pattern text : List Char} (c : Char) (rest : Matches pattern text) :
    Matches ('?' :: pattern) (c :: text)
  | literal {pattern text : List Char} {c : Char} (plain : c ≠ '*' ∧ c ≠ '?')
    (rest : Matches pattern text) : Matches (c :: pattern) (c :: text)

variable {P T p q t u w x : List Char} {a b : Char} {c c' : Cursor}

namespace Matches

theorem star_iff : Matches ('*' :: q) u ↔ ∃ n ≤ u.length, Matches q (u.drop n) := by
  constructor
  · intro h
    cases h with
    | run stands cut rest => exact ⟨stands.length, by simp [cut], by simpa [cut] using rest⟩
    | literal plain rest => exact absurd rfl plain.1
  · rintro ⟨n, -, rest⟩
    exact .run (u.take n) (List.take_append_drop n u).symm rest

theorem extend (h : Matches ('*' :: q) t) : Matches ('*' :: q) (u ++ t) := by
  obtain ⟨n, bound, rest⟩ := star_iff.1 h
  exact star_iff.2 ⟨u.length + n, by simpa using bound, by rwa [List.drop_length_add_append]⟩

theorem cons (same : a = '?' ∨ a = b) (rest : Matches q u) : Matches (a :: q) (b :: u) := by
  by_cases wild : a = '*'
  · subst wild
    exact .run [b] rfl rest
  · by_cases any : a = '?'
    · subst any
      exact .any b rest
    · obtain rfl := same.resolve_left any
      exact .literal ⟨wild, any⟩ rest

theorem cons_iff (plain : a ≠ '*') : Matches (a :: q) (b :: u) ↔ (a = '?' ∨ a = b) ∧ Matches q u := by
  constructor
  · intro h
    cases h with
    | run => exact absurd rfl plain
    | any _ rest => exact ⟨.inl rfl, rest⟩
    | literal _ rest => exact ⟨.inr rfl, rest⟩
  · rintro ⟨same, rest⟩
    exact cons same rest

theorem nil_iff : Matches q [] ↔ q.all (· = '*') = true := by
  induction q with
  | nil => simpa using Matches.nil
  | cons a q ih =>
    by_cases star : a = '*'
    · subst star
      simp [star_iff, ih]
    · have never : ¬ Matches (a :: q) [] := by
        intro h
        cases h
        exact star rfl
      simp [never, star]

theorem split (plain : '*' ∉ w) (h : Matches (w ++ q) u) :
    ∃ y z, u = y ++ z ∧ y.length = w.length ∧ Matches q z := by
  induction w generalizing u with
  | nil => exact ⟨[], u, rfl, rfl, h⟩
  | cons a w ih =>
    rw [List.mem_cons, not_or] at plain
    cases u with
    | nil => simp [nil_iff, Ne.symm plain.1] at h
    | cons b u =>
      obtain ⟨-, rest⟩ := (cons_iff (Ne.symm plain.1)).1 h
      obtain ⟨y, z, rfl, length, matched⟩ := ih plain.2 rest
      exact ⟨b :: y, z, rfl, by simp [length], matched⟩

end Matches

/-! ## The matcher -/

/-- What the matcher can still find: a match from where it is, or one where the last `*` stands for
more than it does now. -/
def Hope (c : Cursor) : Prop := Matches c.pattern c.text ∨
  ∃ q u, c.star = some (q, u) ∧ ∃ n, 1 ≤ n ∧ n ≤ u.length ∧ Matches q (u.drop n)

/-- Where the matcher can be. Since the last `*`, it has read as much of the text as of the pattern,
and where no `*` is taken literally there was none in it. -/
structure Placed (P T : List Char) (c : Cursor) : Prop where
  pattern : c.pattern <:+ P
  text : c.text <:+ T
  star : ∀ q u, c.star = some (q, u) → q <:+ P ∧ u <:+ T ∧ ∃ w x,
    q = w ++ c.pattern ∧ u = x ++ c.text ∧ w.length = x.length ∧ ('*' ∉ P ∨ '*' ∉ T → '*' ∉ w)

theorem round_cases {out : Cursor ⊕ Bool} (h : round c = .ok out) :
    (c.text = [] ∧ out = .inr (c.pattern.all (· = '*'))) ∨
    (∃ a p b t, c.pattern = a :: p ∧ c.text = b :: t ∧ (a = '?' ∨ a = b) ∧
      out = .inl { c with pattern := p, text := t }) ∨
    (∃ p b t, c.pattern = '*' :: p ∧ c.text = b :: t ∧ b ≠ '*' ∧ out = .inl ⟨p, b :: t, some (p, b :: t)⟩) ∨
    ((∃ b t, c.text = b :: t ∧
      (c.pattern = [] ∨ ∃ a p, c.pattern = a :: p ∧ a ≠ '*' ∧ ¬ (a = '?' ∨ a = b))) ∧
      ((∃ q a u, c.star = some (q, a :: u) ∧ out = .inl ⟨q, u, some (q, u)⟩) ∨
        (∀ q a u, c.star ≠ some (q, a :: u)) ∧ out = .inr false)) := by
  obtain ⟨pattern, text, star⟩ := c
  have again : ∀ {out}, retry ⟨pattern, text, star⟩ = .ok out →
      (∃ q a u, star = some (q, a :: u) ∧ out = .inl ⟨q, u, some (q, u)⟩) ∨
        (∀ q a u, star ≠ some (q, a :: u)) ∧ out = .inr false := by
    intro out h
    unfold retry at h
    split at h
    · next q a u last => exact .inl ⟨q, a, u, last, (Except.ok.inj h).symm⟩
    · next none => exact .inr ⟨none, (Except.ok.inj h).symm⟩
  unfold round at h
  split at h
  · exact .inl ⟨‹_›, (Except.ok.inj h).symm⟩
  · next b t a p text pattern =>
    split at h
    · next same => exact .inr (.inl ⟨a, p, b, t, pattern, text, same, (Except.ok.inj h).symm⟩)
    · next differs =>
      split at h
      · next wild =>
        subst wild
        exact .inr (.inr (.inl ⟨p, b, t, pattern, text, fun same => differs (.inr same.symm),
          (Except.ok.inj h).symm⟩))
      · next plain =>
        exact .inr (.inr (.inr ⟨⟨b, t, text, .inr ⟨a, p, pattern, plain, differs⟩⟩, again h⟩))
  · next b t text pattern =>
    exact .inr (.inr (.inr ⟨⟨b, t, text, .inl pattern⟩, again h⟩))

theorem Placed.literal {star : Option (List Char × List Char)}
    (at_ : Placed P T ⟨a :: p, b :: t, star⟩) (clear : '*' ∉ P ∨ '*' ∉ T) (same : a = '?' ∨ a = b) :
    a ≠ '*' := by
  rintro rfl
  obtain absent | absent := clear
  · exact absent (at_.pattern.subset List.mem_cons_self)
  · obtain wild | rfl := same
    · simp at wild
    · exact absent (at_.text.subset List.mem_cons_self)

theorem placed_round (at_ : Placed P T c) (h : round c = .ok (.inl c')) : Placed P T c' := by
  obtain ⟨pattern, text, star⟩ := c
  have hp := at_.pattern
  have ht := at_.text
  have hs := at_.star
  rcases round_cases h with ⟨-, out⟩ | ⟨a, p, b, t, rfl, rfl, same, out⟩ |
    ⟨p, b, t, rfl, rfl, -, out⟩ | ⟨-, ⟨q, a, u, rfl, out⟩ | ⟨-, out⟩⟩
  · simp at out
  · obtain rfl := Sum.inl.inj out
    refine ⟨(List.suffix_cons a p).trans hp, (List.suffix_cons b t).trans ht, fun q u last => ?_⟩
    obtain ⟨hq, hu, w, x, rfl, rfl, length, plain⟩ := hs q u last
    refine ⟨hq, hu, w ++ [a], x ++ [b], by simp, by simp, by simp [length], fun clear => ?_⟩
    have literal := at_.literal clear same
    simp [plain clear, literal.symm]
  · obtain rfl := Sum.inl.inj out
    have hp := (List.suffix_cons '*' p).trans hp
    refine ⟨hp, ht, fun q u last => ?_⟩
    obtain ⟨rfl, rfl⟩ := some_pair last
    exact ⟨hp, ht, [], [], rfl, rfl, rfl, by simp⟩
  · obtain rfl := Sum.inl.inj out
    obtain ⟨hq, hu, -⟩ := hs q (a :: u) rfl
    have hu := (List.suffix_cons a u).trans hu
    refine ⟨hq, hu, fun q' u' last => ?_⟩
    obtain ⟨rfl, rfl⟩ := some_pair last
    exact ⟨hq, hu, [], [], rfl, rfl, rfl, by simp⟩
  · simp at out

/-- The matcher starts again after a `*`. -/
theorem hope_restart : Hope ⟨q, u, some (q, u)⟩ ↔ Matches ('*' :: q) u := by
  rw [Matches.star_iff]
  constructor
  · rintro (rest | ⟨q', u', last, n, -, bound, rest⟩)
    · exact ⟨0, by simp, rest⟩
    · obtain ⟨rfl, rfl⟩ := some_pair last
      exact ⟨n, bound, rest⟩
  · rintro ⟨n, bound, rest⟩
    cases n with
    | zero => exact .inl rest
    | succ n => exact .inr ⟨q, u, rfl, n + 1, by omega, bound, rest⟩

theorem later_iff : (∃ n, 1 ≤ n ∧ n ≤ (a :: u).length ∧ Matches q ((a :: u).drop n)) ↔
    Matches ('*' :: q) u := by
  rw [Matches.star_iff]
  constructor
  · rintro ⟨_ | n, low, bound, rest⟩
    · omega
    · exact ⟨n, by simpa using bound, rest⟩
  · rintro ⟨n, bound, rest⟩
    exact ⟨n + 1, by omega, by simpa using bound, rest⟩

theorem round_sound : (round c = .ok (.inl c') → Hope c' → Hope c) ∧
    (round c = .ok (.inr true) → Hope c) := by
  obtain ⟨pattern, text, star⟩ := c
  refine ⟨fun h hope => ?_, fun h => ?_⟩
  · rcases round_cases h with ⟨-, out⟩ | ⟨a, p, b, t, rfl, rfl, same, out⟩ |
      ⟨p, b, t, rfl, rfl, -, out⟩ | ⟨-, ⟨q, a, u, rfl, out⟩ | ⟨-, out⟩⟩
    · simp at out
    · obtain rfl := Sum.inl.inj out
      exact hope.imp_left (Matches.cons same)
    · obtain rfl := Sum.inl.inj out
      exact .inl (hope_restart.1 hope)
    · obtain rfl := Sum.inl.inj out
      exact .inr ⟨q, a :: u, rfl, later_iff.2 (hope_restart.1 hope)⟩
    · simp at out
  · rcases round_cases h with ⟨rfl, out⟩ | ⟨_, _, _, _, -, -, -, out⟩ | ⟨_, _, _, -, -, -, out⟩ |
      ⟨-, ⟨_, _, _, -, out⟩ | ⟨-, out⟩⟩
    · exact .inl (Matches.nil_iff.2 (Sum.inr.inj out).symm)
    all_goals simp at out

/-- Where the last `*` can stand for more, what follows it is matched further on. -/
theorem Placed.resumed (at_ : Placed P T c) (clear : '*' ∉ P ∨ '*' ∉ T) (last : c.star = some (q, u))
    {n : Nat} (bound : n ≤ u.length) (rest : Matches q (u.drop n)) :
    n ≤ c.text.length ∧ Matches c.pattern (c.text.drop n) := by
  obtain ⟨-, -, w, x, rfl, rfl, length, plain⟩ := at_.star q u last
  obtain ⟨y, z, cut, taken, matched⟩ := Matches.split (plain clear) rest
  have total := congrArg List.length cut
  simp only [List.length_drop, List.length_append] at total bound
  have same : c.text.drop n = z := by
    have cut := congrArg (List.drop y.length) cut
    rw [List.drop_left, List.drop_drop, taken, length, Nat.add_comm, List.drop_length_add_append] at cut
    exact cut
  exact ⟨by omega, same ▸ matched⟩

theorem not_matches_cons (differs : p = [] ∨ ∃ a q, p = a :: q ∧ a ≠ '*' ∧ ¬ (a = '?' ∨ a = b)) :
    ¬ Matches p (b :: t) := by
  rintro h
  obtain rfl | ⟨a, q, rfl, plain, differs⟩ := differs
  · cases h
  · exact differs ((Matches.cons_iff plain).1 h).1

theorem round_complete (at_ : Placed P T c) (clear : '*' ∉ P ∨ '*' ∉ T) :
    (round c = .ok (.inl c') → Hope c → Hope c') ∧ (round c = .ok (.inr false) → ¬ Hope c) := by
  obtain ⟨pattern, text, star⟩ := c
  refine ⟨fun h hope => ?_, fun h hope => ?_⟩
  · rcases round_cases h with ⟨-, out⟩ | ⟨a, p, b, t, rfl, rfl, same, out⟩ |
      ⟨p, b, t, rfl, rfl, -, out⟩ | ⟨⟨b, t, rfl, differs⟩, ⟨q, a, u, rfl, out⟩ | ⟨-, out⟩⟩
    · simp at out
    · obtain rfl := Sum.inl.inj out
      have literal : a ≠ '*' := at_.literal clear same
      exact hope.imp_left fun h => ((Matches.cons_iff literal).1 h).2
    · obtain rfl := Sum.inl.inj out
      refine hope_restart.2 (hope.elim id ?_)
      rintro ⟨q, u, last, n, -, bound, rest⟩
      have further := (at_.resumed clear last bound rest).2
      simpa using further.extend (u := (b :: t).take n)
    · obtain rfl := Sum.inl.inj out
      obtain here | ⟨q', u', last, later⟩ := hope
      · exact absurd here (not_matches_cons differs)
      · obtain ⟨rfl, rfl⟩ := some_pair last
        exact hope_restart.2 (later_iff.1 later)
    · simp at out
  · rcases round_cases h with ⟨rfl, out⟩ | ⟨_, _, _, _, -, -, -, out⟩ | ⟨_, _, _, -, -, -, out⟩ |
      ⟨⟨b, t, rfl, differs⟩, ⟨_, _, _, -, out⟩ | ⟨none, -⟩⟩
    · obtain here | ⟨q, u, last, n, low, bound, rest⟩ := hope
      · rw [Matches.nil_iff, ← Sum.inr.inj out] at here
        simp at here
      · have := (at_.resumed clear last bound rest).1
        simp at this
        omega
    · simp at out
    · simp at out
    · simp at out
    · obtain here | ⟨q, u, last, n, low, bound, -⟩ := hope
      · exact not_matches_cons differs here
      · cases u with
        | nil => simp at bound; omega
        | cons a u => exact none q a u last

/-- What is left to do: each try of a `*` goes through what is left of the pattern and the text. -/
def left (P T : List Char) (c : Cursor) : Nat :=
  (c.star.elim (T.length + 1) fun s => s.2.length) * (P.length + T.length + 1) + c.pattern.length +
    c.text.length

theorem left_round (at_ : Placed P T c) (h : round c = .ok (.inl c')) : left P T c' < left P T c := by
  obtain ⟨pattern, text, star⟩ := c
  rcases round_cases h with ⟨-, out⟩ | ⟨a, p, b, t, rfl, rfl, same, out⟩ |
    ⟨p, b, t, rfl, rfl, -, out⟩ | ⟨-, ⟨q, a, u, rfl, out⟩ | ⟨-, out⟩⟩
  · simp at out
  · obtain rfl := Sum.inl.inj out
    simp only [left, List.length_cons]
    omega
  · obtain rfl := Sum.inl.inj out
    have tries : (b :: t).length ≤ star.elim (T.length + 1) fun s => s.2.length := by
      cases star with
      | none => exact (at_.text.length_le).trans (Nat.le_succ _)
      | some s =>
        obtain ⟨-, -, w, x, -, cut, -⟩ := at_.star s.1 s.2 rfl
        simp [cut]
    have := Nat.mul_le_mul_right (P.length + T.length + 1) tries
    simp only [left, List.length_cons, Option.elim_some] at this ⊢
    omega
  · obtain rfl := Sum.inl.inj out
    obtain ⟨hq, hu, -⟩ := at_.star q (a :: u) rfl
    have := hq.length_le
    have := hu.length_le
    simp only [left, List.length_cons, Option.elim_some, Nat.succ_mul] at this ⊢
    omega
  · simp at out

theorem round_ne_error : round c ≠ .error () := by
  have again : retry c ≠ .error () := by
    unfold retry
    split <;> simp
  unfold round
  split
  · simp
  · split
    · simp
    · split
      · simp
      · exact again
  · exact again

end Glob

open Glob

section Match

variable {pattern s : String}

theorem globMatch_sound (h : globMatch pattern s = true) : Matches pattern.toList s.toList := by
  unfold globMatch at h
  split at h
  · next b ended =>
    subst h
    have found := (Loop.run_result (I := fun c => Hope c → Matches pattern.toList s.toList)
      (Q := fun b => b = true → Matches pattern.toList s.toList) (F := fun _ => True)
      (fun c c' inv round hope => inv (round_sound.1 round hope))
      (fun c b inv round accepts => inv ((@round_sound c c).2 (accepts ▸ round)))
      (fun _ _ _ _ => trivial) _ _ (by simp [Hope])).1 true ended
    exact found rfl
  · cases h

/-- The matcher ends, and finds every match unless it takes a `*` literally. -/
theorem globMatch_complete (clear : '*' ∉ pattern.toList ∨ '*' ∉ s.toList)
    (h : Matches pattern.toList s.toList) : globMatch pattern s = true := by
  have start : Placed pattern.toList s.toList ⟨pattern.toList, s.toList, none⟩ :=
    ⟨List.suffix_refl _, List.suffix_refl _, nofun⟩
  have ends : Loop.run () round (rounds pattern.toList s.toList) ⟨pattern.toList, s.toList, none⟩ ≠
      .error () := by
    refine Loop.run_ne_timeout (left pattern.toList s.toList)
      (fun c c' at_ round => ⟨placed_round at_ round, left_round at_ round⟩)
      (fun c _ => round_ne_error) start ?_
    simp only [left, rounds, Option.elim_none, Nat.succ_mul]
    omega
  unfold globMatch
  split
  · next b ended =>
    have kept := (Loop.run_result
      (I := fun c => Placed pattern.toList s.toList c ∧ Hope c) (Q := fun b => b = true)
      (F := fun _ => True)
      (fun c c' inv round => ⟨placed_round inv.1 round, (round_complete inv.1 clear).1 round inv.2⟩)
      (fun c b inv round => by
        cases b with
        | true => rfl
        | false => exact absurd inv.2 ((@round_complete _ _ c c inv.1 clear).2 round))
      (fun _ _ _ _ => trivial) _ _ ⟨start, .inl h⟩).1 b ended
    exact kept
  · next ended => exact absurd ended ends

end Match

/-- The matcher accepts matches only, and all of them when the text or the pattern has no `*`. A
server whose name has none is allowed if it is no unpermitted IP literal and some allow glob, but no
deny glob, matches its name. -/
theorem isAllowed_iff : (∀ pattern s, globMatch pattern s = true → Matches pattern.toList s.toList) ∧
    (∀ pattern s, '*' ∉ pattern.toList ∨ '*' ∉ s.toList →
      (globMatch pattern s = true ↔ Matches pattern.toList s.toList)) ∧
    ∀ (acl : ServerAcl) (name : String), '*' ∉ name.toList → (acl.isAllowed name = true ↔
      (isIpLiteral (hostWithoutPort name.toList) = true → acl.allowIpLiterals = true) ∧
        (∃ g ∈ acl.allow, Matches g.toList name.toList) ∧
        ¬ ∃ g ∈ acl.deny, Matches g.toList name.toList) := by
  have exact_ : ∀ pattern s, '*' ∉ pattern.toList ∨ '*' ∉ s.toList →
      (globMatch pattern s = true ↔ Matches pattern.toList s.toList) := fun pattern s clear =>
    ⟨globMatch_sound, globMatch_complete clear⟩
  refine ⟨fun pattern s => globMatch_sound, exact_, fun acl name plain => ?_⟩
  have decides := fun g : String => exact_ g name (.inr plain)
  simp only [ServerAcl.isAllowed, ← decides]
  by_cases literal : isIpLiteral (hostWithoutPort name.toList) = true
  · cases acl.allowIpLiterals with
    | false => simp [literal]
    | true => simp [literal, and_comm]
  · simp [literal, and_comm]

theorem isAllowed_iff_subdomain : Matches "one?.*.com".toList "one5.example.com".toList :=
  (isAllowed_iff.2.1 "one?.*.com" "one5.example.com" (.inr (by decide))).1 (by decide +kernel)

/-- An address that an allow glob matches can be kept out, and a `*` of the text is taken
literally. -/
theorem isAllowed_gate : (ServerAcl.mk ["*"] [] false).isAllowed "1.2.3.4" = false ∧
    Matches "*".toList "1.2.3.4".toList ∧ globMatch "*" "*a" = false ∧ Matches "*".toList "*a".toList :=
  ⟨by decide +kernel, .run _ (List.append_nil _).symm .nil, by decide +kernel,
    .run _ (List.append_nil _).symm .nil⟩

end Saltator
