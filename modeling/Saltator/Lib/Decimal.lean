import Mathlib.Data.List.Basic

/-!
# Decimal numbers in text

Numbers are written in decimal, and joined by a separator that is no digit. Reading takes what writing
makes, and some more: a sign before the digits, and zeros.
-/

namespace Saltator.Decimal

def digits (n : Nat) : List Char := Nat.toDigits 10 n

/-- The numbers, with the separator between them. -/
def joined (sep : Char) (ns : List Nat) : List Char := [sep].intercalate (ns.map digits)

/-- A text without its sign. -/
def unsigned : List Char → List Char
  | '+' :: rest => rest
  | cs => cs

/-- The number that a text has, if it is below the bound. -/
def parse (bound : Nat) (cs : List Char) : Option Nat :=
  if unsigned cs ≠ [] ∧ (unsigned cs).all Char.isDigit then
    (some (Nat.ofDigitChars 10 (unsigned cs) 0)).filter (· < bound)
  else none

/-- The numbers that a text has between the separators. -/
def parseAll (bound : Nat) (sep : Char) (cs : List Char) : Option (List Nat) :=
  (cs.splitOn sep).mapM (parse bound)

/-- What is before the first separator, and what is after it. -/
def splitOnce (sep : Char) : List Char → Option (List Char × List Char)
  | [] => none
  | c :: cs => if c = sep then some ([], cs) else (splitOnce sep cs).map fun r => (c :: r.1, r.2)

section

variable {bound n : Nat} {ns : List Nat} {sep c : Char} {cs rest : List Char}

theorem isDigit_of_mem_digits (mem : c ∈ digits n) : c.isDigit :=
  Nat.isDigit_of_mem_toDigits (by decide) (by decide) mem

theorem digits_ne_nil : digits n ≠ [] := Nat.toDigits_ne_nil

theorem unsigned_digits : unsigned (digits n) = digits n := by
  unfold unsigned
  split
  · rename_i rest same
    have sign : ('+').isDigit = true := isDigit_of_mem_digits (same ▸ List.mem_cons_self)
    cases sign
  · rfl

theorem parse_digits (fits : n < bound) : parse bound (digits n) = some n := by
  have digital : (digits n).all Char.isDigit = true :=
    List.all_eq_true.2 fun c mem => isDigit_of_mem_digits mem
  have value : Nat.ofDigitChars 10 (digits n) 0 = n := Nat.ofDigitChars_ten_toDigits
  rw [parse, unsigned_digits, if_pos ⟨digits_ne_nil, digital⟩, value]
  exact Option.filter_some_pos (decide_eq_true fits)

theorem eq_of_parse_digits {m : Nat} (h : parse bound (digits n) = some m) : m = n := by
  have fits : parse (max bound (n + 1)) (digits n) = some n := parse_digits (by omega)
  unfold parse at h fits
  split at h
  · rename_i digital
    rw [if_pos digital] at fits
    exact (Option.some.inj (Option.filter_eq_some_iff.1 h).1).symm.trans
      (Option.some.inj (Option.filter_eq_some_iff.1 fits).1)
  · cases h

theorem not_mem_digits (other : sep.isDigit = false) : sep ∉ digits n := by
  intro mem
  rw [isDigit_of_mem_digits mem] at other
  cases other

theorem digits_injective : Function.Injective digits := by
  intro n m same
  have value : Nat.ofDigitChars 10 (digits n) 0 = Nat.ofDigitChars 10 (digits m) 0 := by rw [same]
  rwa [digits, digits, Nat.ofDigitChars_ten_toDigits, Nat.ofDigitChars_ten_toDigits] at value

theorem mem_joined (mem : c ∈ joined sep ns) : c = sep ∨ c.isDigit := by
  induction ns with
  | nil => simp [joined] at mem
  | cons n ns ih =>
    cases ns with
    | nil =>
      rw [joined, List.map_singleton, List.intercalate_singleton] at mem
      exact .inr (isDigit_of_mem_digits mem)
    | cons m ns =>
      rw [joined, List.map_cons, List.map_cons, List.intercalate_cons_cons, List.mem_append,
        List.mem_append, List.mem_singleton] at mem
      obtain (own | rfl) | later := mem
      · exact .inr (isDigit_of_mem_digits own)
      · exact .inl rfl
      · exact ih later

theorem splitOn_joined (other : sep.isDigit = false) (filled : ns ≠ []) :
    (joined sep ns).splitOn sep = ns.map digits := by
  have apart : ∀ l ∈ ns.map digits, sep ∉ l := by
    intro l mem
    obtain ⟨n, -, rfl⟩ := List.mem_map.1 mem
    exact not_mem_digits other
  rw [joined, List.splitOn_intercalate sep apart (by simpa using filled)]

theorem joined_inj {ms : List Nat} (other : sep.isDigit = false) (filled : ns ≠ []) (filled' : ms ≠ [])
    (same : joined sep ns = joined sep ms) : ns = ms := by
  have texts : ns.map digits = ms.map digits := by
    rw [← splitOn_joined other filled, same, splitOn_joined other filled']
  exact List.map_injective_iff.2 digits_injective texts

theorem parseAll_joined (other : sep.isDigit = false) (filled : ns ≠ [])
    (fits : ∀ n ∈ ns, n < bound) : parseAll bound sep (joined sep ns) = some ns := by
  rw [parseAll, splitOn_joined other filled]
  clear filled
  induction ns with
  | nil => rfl
  | cons n ns ih =>
    rw [List.map_cons, List.mapM_cons, parse_digits (fits n List.mem_cons_self),
      ih fun m mem => fits m (List.mem_cons_of_mem _ mem)]
    rfl

theorem splitOnce_none (absent : sep ∉ cs) : splitOnce sep cs = none := by
  induction cs with
  | nil => rfl
  | cons c cs ih =>
    rw [List.mem_cons, not_or] at absent
    rw [splitOnce, if_neg (Ne.symm absent.1), ih absent.2]
    rfl

theorem eq_of_splitOnce {before : List Char} (h : splitOnce sep cs = some (before, rest)) :
    cs = before ++ sep :: rest := by
  induction cs generalizing before with
  | nil => cases h
  | cons c cs ih =>
    rw [splitOnce] at h
    split at h
    · cases h
      simp_all
    · obtain ⟨⟨before', rest'⟩, inner, same⟩ := Option.map_eq_some_iff.1 h
      cases same
      rw [ih inner, List.cons_append]

theorem splitOnce_append (absent : sep ∉ cs) : splitOnce sep (cs ++ sep :: rest) = some (cs, rest) := by
  induction cs with
  | nil => exact if_pos rfl
  | cons c cs ih =>
    rw [List.mem_cons, not_or] at absent
    rw [List.cons_append, splitOnce, if_neg (Ne.symm absent.1), ih absent.2]
    rfl

end

end Saltator.Decimal
