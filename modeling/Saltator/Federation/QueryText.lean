import Saltator.Lib.Loop
import Saltator.Lib.Percent

/-!
# Query text

Four parts of the server read the values of a query with a percent decoder of their own, and the requests of
a backfill are written with `queryEncode`. The decoders are one loop over the bytes of the text. It takes two
bytes after a percent sign out of the text as a slice, which panics inside a character, and reads them as a
number, which may begin with a plus sign.
-/

namespace Saltator.Federation

open Saltator.Outcome
open Saltator.Loop
open Percent (sign plus space hexValue escape? unescape)
open Utf8 (encode fromUtf8Lossy isTail)

/-! ## The decoders -/

inductive Halt where
  | panic
  | outOfFuel
  deriving DecidableEq

def isCharBoundary (bytes : List UInt8) (i : Nat) : Bool :=
  i == 0 || match bytes[i]? with
    | some b => !isTail b
    | none => i == bytes.length

/-- `&s[i..j]`, which panics off the boundaries of characters. -/
def slice (bytes : List UInt8) (i j : Nat) : Except Halt (List UInt8) :=
  if i ≤ j ∧ isCharBoundary bytes i ∧ isCharBoundary bytes j then .ok ((bytes.take j).drop i)
  else .error .panic

def ofDigits (digits : List UInt8) : Option UInt8 :=
  digits.foldlM (fun acc d => (hexValue d).bind fun x =>
    if acc.toNat * 16 + x.toNat < 256 then some (16 * acc + x) else none) 0

/-- `u8::from_str_radix` in base 16. A sign alone is not a number. -/
def fromStrRadix : List UInt8 → Option UInt8
  | [] => none
  | [b] => ofDigits [b]
  | b :: bs => ofDigits (if b = plus then bs else b :: bs)

structure Decoding where
  i : Nat
  out : List UInt8

def decodeRound (bytes : List UInt8) (d : Decoding) : Except Halt (Decoding ⊕ String) :=
  match bytes[d.i]? with
  | none => .ok (.inr (String.ofList (fromUtf8Lossy d.out)))
  | some b =>
    if b = sign ∧ d.i + 2 < bytes.length then do
      match fromStrRadix (← slice bytes (d.i + 1) (d.i + 3)) with
      | some v => return .inl ⟨d.i + 3, d.out ++ [v]⟩
      | none => return .inl ⟨d.i + 1, d.out ++ [sign]⟩
    else if b = plus then .ok (.inl ⟨d.i + 1, d.out ++ [space]⟩)
    else .ok (.inl ⟨d.i + 1, d.out ++ [b]⟩)

def decodeText (fuel : Nat) (s : String) : Except Halt String :=
  run .outOfFuel (decodeRound (encode s.toList)) fuel ⟨0, []⟩

def Backfill.percentDecode := decodeText
def Query.percentDecode := decodeText
def Membership.percentDecode := decodeText

def urlDecodeRound (bytes : List UInt8) (d : Decoding) : Except Halt (Decoding ⊕ String) :=
  if h : d.i < bytes.length then do
    if bytes[d.i] = sign ∧ d.i + 2 < bytes.length then
      if let some b := fromStrRadix (← slice bytes (d.i + 1) (d.i + 3)) then
        return .inl ⟨d.i + 3, d.out ++ [b]⟩
      return .inl ⟨d.i + 1, d.out ++ [sign]⟩
    else if bytes[d.i] = plus then return .inl ⟨d.i + 1, d.out ++ [space]⟩
    else return .inl ⟨d.i + 1, d.out ++ [bytes[d.i]]⟩
  else .ok (.inr (String.ofList (fromUtf8Lossy d.out)))

def Extract.urlDecode (fuel : Nat) (s : String) : Except Halt String :=
  run .outOfFuel (urlDecodeRound (encode s.toList)) fuel ⟨0, []⟩

def decoders : List (Nat → String → Except Halt String) :=
  [Backfill.percentDecode, Query.percentDecode, Membership.percentDecode, Extract.urlDecode]

def queryEncodeChar (c : Char) : List Char :=
  if c = '%' then ['%', '2', '5']
  else if c = '&' then ['%', '2', '6']
  else if c = '+' then ['%', '2', 'B']
  else if c = '#' then ['%', '2', '3']
  else if c = '=' then ['%', '3', 'D']
  else if c = '?' then ['%', '3', 'F']
  else [c]

def Backfill.queryEncode (s : String) : String := String.ofList (s.toList.flatMap queryEncodeChar)

theorem urlDecodeRound_eq : urlDecodeRound = decodeRound := by
  funext bytes d
  unfold urlDecodeRound decodeRound
  by_cases h : d.i < bytes.length
  · rw [dif_pos h, List.getElem?_eq_getElem h]
    dsimp only
    split_ifs
    · cases slice bytes (d.i + 1) (d.i + 3) with
      | error e => rfl
      | ok src =>
        simp only [ok_bind]
        cases fromStrRadix src <;> rfl
    · rfl
    · rfl
  · rw [dif_neg h, List.getElem?_eq_none (Nat.le_of_not_lt h)]

theorem decoders_agree {decode : Nat → String → Except Halt String} (mem : decode ∈ decoders) :
    decode = decodeText := by
  simp only [decoders, List.mem_cons, List.not_mem_nil, or_false] at mem
  rcases mem with rfl | rfl | rfl | rfl
  · rfl
  · rfl
  · rfl
  · funext fuel s
    rw [Extract.urlDecode, urlDecodeRound_eq, decodeText]

/-! ## One round -/

section Round

variable {b h l v : UInt8} {front tail rest out : List UInt8}

theorem ofDigits_single : ofDigits [l] = hexValue l := by
  cases digit : hexValue l with
  | none => simp [ofDigits, digit]
  | some y =>
    have small := (Percent.hexValue_eq_some digit).2.2.2
    simp [ofDigits, digit]
    omega

theorem ofDigits_pair (rest : List UInt8) : ofDigits [h, l] = escape? (h :: l :: rest) := by
  cases first : hexValue h with
  | none => simp [ofDigits, escape?, first]
  | some x =>
    have small := (Percent.hexValue_eq_some first).2.2.2
    have within : x.toNat < 256 := by omega
    cases second : hexValue l with
    | none => simp [ofDigits, escape?, first, second, within]
    | some y =>
      have small' := (Percent.hexValue_eq_some second).2.2.2
      have within' : x.toNat * 16 + y.toNat < 256 := by omega
      simp [ofDigits, escape?, first, second, within, within']

theorem fromStrRadix_pair (rest : List UInt8) : fromStrRadix [h, l] = some v ↔
    escape? (h :: l :: rest) = some v ∨ h = plus ∧ hexValue l = some v := by
  have read : fromStrRadix [h, l] = ofDigits (if h = plus then [l] else [h, l]) := rfl
  rw [read]
  by_cases signed : h = plus
  · subst signed
    have digit : hexValue plus = none := rfl
    simp [ofDigits_single, escape?, digit]
  · rw [if_neg signed, ofDigits_pair rest]
    simp [signed]

theorem decodeRound_end : decodeRound front ⟨front.length, out⟩ =
    .ok (.inr (String.ofList (fromUtf8Lossy out))) := by
  simp [decodeRound]

theorem decodeRound_pass (plain : b ≠ sign ∨ tail.length < 2) :
    decodeRound (front ++ b :: tail) ⟨front.length, out⟩ =
      .ok (.inl ⟨(front ++ [b]).length, out ++ [if b = plus then space else b]⟩) := by
  have short : ¬ (b = sign ∧ front.length + 2 < (front ++ b :: tail).length) := by
    simp only [List.length_append, List.length_cons]
    rcases plain with other | few
    · exact fun h => other h.1
    · omega
  simp only [decodeRound, List.getElem?_append_right le_rfl, Nat.sub_self, List.getElem?_cons_zero]
  rw [if_neg short]
  split_ifs <;> simp

theorem decodeRound_sign (starts : isTail h = false) :
    decodeRound (front ++ sign :: h :: l :: rest) ⟨front.length, out⟩ =
      if rest.head?.any isTail then .error .panic
      else match fromStrRadix [h, l] with
        | some v => .ok (.inl ⟨(front ++ [sign, h, l]).length, out ++ [v]⟩)
        | none => .ok (.inl ⟨(front ++ [sign]).length, out ++ [sign]⟩) := by
  have long : front.length + 2 < (front ++ sign :: h :: l :: rest).length := by
    simp only [List.length_append, List.length_cons]
    omega
  have left : isCharBoundary (front ++ sign :: h :: l :: rest) (front.length + 1) := by
    simp [isCharBoundary, starts]
  have right : isCharBoundary (front ++ sign :: h :: l :: rest) (front.length + 3) =
      !rest.head?.any isTail := by
    cases rest <;> simp [isCharBoundary]
  have sliced : ((front ++ sign :: h :: l :: rest).take (front.length + 3)).drop (front.length + 1) =
      [h, l] := by
    rw [List.take_append, List.take_of_length_le (Nat.le_add_right _ _), List.drop_append]
    simp
  simp only [decodeRound, List.getElem?_append_right le_rfl, Nat.sub_self, List.getElem?_cons_zero,
    long, and_true, if_true, slice, left, right, sliced]
  cases inside : rest.head?.any isTail
  · cases read : fromStrRadix [h, l] <;> simp [read, pure, Except.pure]
  · simp

end Round

/-! ## What a decoder makes of a text -/

/-- After some percent sign of the text comes what the predicate says. -/
def Opens (P : List UInt8 → Prop) (bytes : List UInt8) : Prop :=
  ∃ tail, sign :: tail <:+ bytes ∧ P tail

/-- The second byte after the percent sign is inside a character. -/
def Splits (tail : List UInt8) : Prop := ∃ h l b rest, tail = h :: l :: b :: rest ∧ isTail b = true

def Signed (tail : List UInt8) : Prop := ∃ d rest, tail = plus :: d :: rest ∧ (hexValue d).isSome

/-- The text that the value stands for. -/
def unescaped (s : String) : String := String.ofList (fromUtf8Lossy (unescape (encode s.toList)))

/-- The second list has a percent sign, a space and a byte at each of `k` places where the first has a
single byte, and otherwise they are the same. -/
inductive Trails : List UInt8 → List UInt8 → Nat → Prop
  | same (bytes : List UInt8) : Trails bytes bytes 0
  | signed (front : List UInt8) {v d : UInt8} {o u : List UInt8} {k : Nat} (value : v.toNat < 128)
      (digit : d.toNat < 128) (h : Trails o u k) :
      Trails (front ++ v :: o) (front ++ sign :: space :: d :: u) (k + 1)

/-- The loop's result from the rest of the text on: a panic, or what it reads in place of the text. -/
def Reads (rest out : List UInt8) (r : Except Halt String) : Prop :=
  Opens Splits rest ∧ r = .error .panic ∨ ¬ Opens Splits rest ∧ ∃ o k, Trails o (unescape rest) k ∧
      r = .ok (String.ofList (fromUtf8Lossy (out ++ o))) ∧ (k = 0 ↔ ¬ Opens Signed rest)

section Decoding

variable {b h l v d : UInt8} {bytes front tail rest out o u : List UInt8} {k : Nat}
  {P : List UInt8 → Prop} {r : Except Halt String}

theorem opens_cons : Opens P (b :: rest) ↔ b = sign ∧ P rest ∨ Opens P rest := by
  constructor
  · rintro ⟨tail, suffix, holds⟩
    rcases List.suffix_cons_iff.1 suffix with same | later
    · obtain ⟨own, rfl⟩ := List.cons.inj same
      exact .inl ⟨own.symm, holds⟩
    · exact .inr ⟨tail, later, holds⟩
  · rintro (⟨rfl, holds⟩ | ⟨tail, suffix, holds⟩)
    · exact ⟨rest, List.suffix_refl _, holds⟩
    · exact ⟨tail, suffix.trans (List.suffix_cons b rest), holds⟩

theorem Trails.cons (h : Trails o u k) : Trails (b :: o) (b :: u) k := by
  cases h with
  | same => exact .same _
  | signed front value digit later => exact .signed (b :: front) value digit later

theorem Trails.eq (h : Trails o u 0) : o = u := by
  cases h
  rfl

theorem Trails.length (h : Trails o u k) : (fromUtf8Lossy o).length + 2 * k = (fromUtf8Lossy u).length := by
  induction h with
  | same => rfl
  | @signed front v d o u k value digit _ ih =>
    have first : fromUtf8Lossy (front ++ v :: o) = fromUtf8Lossy front ++ Char.ofUInt8 v :: fromUtf8Lossy o :=
      Utf8.lossyFrom_ascii value (Nat.zero_le _)
    have second : fromUtf8Lossy (front ++ sign :: space :: d :: u) = fromUtf8Lossy front ++
        Char.ofUInt8 sign :: fromUtf8Lossy ([] ++ space :: d :: u) :=
      Utf8.lossyFrom_ascii (by decide) (Nat.zero_le _)
    have third : fromUtf8Lossy ([] ++ space :: d :: u) = fromUtf8Lossy [] ++
        Char.ofUInt8 space :: fromUtf8Lossy ([] ++ d :: u) :=
      Utf8.lossyFrom_ascii (by decide) (Nat.zero_le _)
    have fourth : fromUtf8Lossy ([] ++ d :: u) = fromUtf8Lossy [] ++ Char.ofUInt8 d :: fromUtf8Lossy u :=
      Utf8.lossyFrom_ascii digit (Nat.zero_le _)
    have empty : fromUtf8Lossy [] = [] := rfl
    rw [first, second, third, fourth, empty]
    simp only [List.length_append, List.length_cons, List.length_nil]
    omega

theorem Reads.same (splits : Opens Splits bytes ↔ Opens Splits rest)
    (signed : Opens Signed bytes ↔ Opens Signed rest) (read : unescape bytes = v :: unescape rest)
    (h : Reads rest (out ++ [v]) r) : Reads bytes out r := by
  unfold Reads at *
  rw [splits, signed, read]
  rcases h with panics | ⟨whole, o, k, trails, rfl, count⟩
  · exact .inl panics
  · exact .inr ⟨whole, v :: o, k, trails.cons, by simp, count⟩

theorem Reads.signed (splits : Opens Splits bytes ↔ Opens Splits rest) (signed : Opens Signed bytes)
    (read : unescape bytes = sign :: space :: d :: unescape rest) (value : v.toNat < 128)
    (digit : d.toNat < 128) (h : Reads rest (out ++ [v]) r) : Reads bytes out r := by
  unfold Reads at *
  rw [splits, read]
  rcases h with panics | ⟨whole, o, k, trails, rfl, -⟩
  · exact .inl panics
  · exact .inr ⟨whole, v :: o, k + 1, .signed [] value digit trails, by simp, by simp [signed]⟩

theorem opens_of_ne (other : b ≠ sign) : Opens P (b :: rest) ↔ Opens P rest :=
  opens_cons.trans (or_iff_right fun own => other own.1)

theorem opens_of_not (other : ¬ P rest) : Opens P (b :: rest) ↔ Opens P rest :=
  opens_cons.trans (or_iff_right fun own => other own.2)

theorem not_opens_nil : ¬ Opens P [] := by
  rintro ⟨tail, suffix, -⟩
  cases List.suffix_nil.1 suffix

theorem Reads.pass (plain : b ≠ sign ∨ tail.length < 2)
    (h : Reads tail (out ++ [if b = plus then space else b]) r) : Reads (b :: tail) out r := by
  by_cases other : b = sign
  · have short := plain.resolve_left (absurd other)
    subst other
    have splits : ¬ Splits tail := by
      rintro ⟨h, l, b, rest, rfl, -⟩
      simp only [List.length_cons] at short
      omega
    have signed : ¬ Signed tail := by
      rintro ⟨d, rest, rfl, -⟩
      simp only [List.length_cons] at short
      omega
    have none' : escape? tail = none := by
      match tail, short with
      | [], _ => rfl
      | [_], _ => rfl
    exact h.same (opens_of_not splits) (opens_of_not signed) (Percent.unescape_sign none')
  · exact h.same (opens_of_ne other) (opens_of_ne other) (Percent.unescape_other other)

theorem Reads.escape (whole : ¬ Splits (h :: l :: rest)) (read : fromStrRadix [h, l] = some v)
    (next : Reads rest (out ++ [v]) r) : Reads (sign :: h :: l :: rest) out r := by
  rcases (fromStrRadix_pair rest).1 read with escaped | ⟨rfl, digit⟩
  · obtain ⟨x, y, first, second⟩ := Percent.digits_of_escape? escaped
    obtain ⟨-, noSign, noPlus, -⟩ := Percent.hexValue_eq_some first
    obtain ⟨-, noSign', -⟩ := Percent.hexValue_eq_some second
    have unsigned : ¬ Signed (h :: l :: rest) := by
      rintro ⟨d, rest, same, -⟩
      exact noPlus (List.cons.inj same).1
    exact next.same ((opens_of_not whole).trans ((opens_of_ne noSign).trans (opens_of_ne noSign')))
      ((opens_of_not unsigned).trans ((opens_of_ne noSign).trans (opens_of_ne noSign')))
      (Percent.unescape_escape escaped)
  · obtain ⟨small, noSign, noPlus, value⟩ := Percent.hexValue_eq_some digit
    have plain : escape? (plus :: l :: rest) = none := rfl
    refine next.signed ((opens_of_not whole).trans ((opens_of_ne (by decide)).trans (opens_of_ne noSign)))
      (opens_cons.2 (.inl ⟨rfl, l, rest, rfl, by simp [digit]⟩)) ?_ (by omega) small
    rw [Percent.unescape_sign plain, Percent.unescape_other (by decide), if_pos rfl,
      Percent.unescape_other noSign, if_neg noPlus]

theorem Reads.percent (whole : ¬ Splits (h :: l :: rest)) (read : fromStrRadix [h, l] = none)
    (next : Reads (h :: l :: rest) (out ++ [sign]) r) : Reads (sign :: h :: l :: rest) out r := by
  have none' : ∀ v, ¬ (escape? (h :: l :: rest) = some v ∨ h = plus ∧ hexValue l = some v) :=
    fun v found => by
      rw [← fromStrRadix_pair rest, read] at found
      cases found
  have unsigned : ¬ Signed (h :: l :: rest) := by
    rintro ⟨d, rest', same, digit⟩
    obtain ⟨rfl, rfl, -⟩ := List.cons.inj same |>.imp id List.cons.inj
    obtain ⟨v, value⟩ := Option.isSome_iff_exists.1 digit
    exact none' v (.inr ⟨rfl, value⟩)
  have plain : escape? (h :: l :: rest) = none :=
    Option.eq_none_iff_forall_ne_some.2 fun v escaped => none' v (.inl escaped)
  exact next.same (opens_of_not whole) (opens_of_not unsigned) (Percent.unescape_sign plain)

/-- **The loop from the middle on.** -/
theorem run_reads (starts : ∀ tail, sign :: tail <:+ rest → ∀ h ∈ tail.head?, isTail h = false)
    {fuel : Nat} (enough : rest.length < fuel) :
    Reads rest out (run .outOfFuel (decodeRound (front ++ rest)) fuel ⟨front.length, out⟩) := by
  induction fuel generalizing front rest out with
  | zero => omega
  | succ fuel ih =>
    -- what the loop makes of the text after `done`
    have later : ∀ {done rest' : List UInt8} (out' : List UInt8), rest = done ++ rest' → done ≠ [] →
        Reads rest' out' (run .outOfFuel (decodeRound (front ++ rest)) fuel ⟨(front ++ done).length, out'⟩) := by
      rintro done rest' out' rfl filled
      have size := List.length_pos_iff.2 filled
      rw [List.length_append] at enough
      rw [← List.append_assoc]
      exact ih (fun tail suffix => starts tail (suffix.trans (List.suffix_append done rest'))) (by omega)
    cases rest with
    | nil =>
      rw [run, List.append_nil, decodeRound_end]
      exact .inr ⟨not_opens_nil, [], 0, .same _, by simp, by simp [not_opens_nil]⟩
    | cons b tail =>
      by_cases plain : b ≠ sign ∨ tail.length < 2
      · rw [run, decodeRound_pass plain]
        exact (later _ rfl (List.cons_ne_nil b [])).pass plain
      push Not at plain
      obtain ⟨rfl, long⟩ := plain
      obtain ⟨h, l, rest, rfl⟩ : ∃ h l rest, tail = h :: l :: rest := by
        obtain _ | ⟨h, _ | ⟨l, rest⟩⟩ := tail <;> simp at long ⊢
      have start := starts _ (List.suffix_refl _) h rfl
      rw [run, decodeRound_sign start]
      by_cases inside : rest.head?.any isTail = true
      · rw [if_pos inside]
        obtain ⟨b, same, isTail⟩ := (Option.any_eq_true _ _).1 inside
        obtain ⟨rest, rfl⟩ := List.head?_eq_some_iff.1 same
        exact .inl ⟨opens_cons.2 (.inl ⟨rfl, h, l, b, rest, rfl, isTail⟩), rfl⟩
      rw [if_neg inside]
      have whole : ¬ Splits (h :: l :: rest) := by
        rintro ⟨_, _, b, rest, same, isTail⟩
        simp only [List.cons.injEq] at same
        obtain ⟨-, -, rfl⟩ := same
        exact inside isTail
      cases read : fromStrRadix [h, l] with
      | none => exact (later _ rfl (List.cons_ne_nil sign [])).percent whole read
      | some v => exact (later _ rfl (List.cons_ne_nil sign [h, l])).escape whole read

end Decoding

/-- The text does without the two ways in which the decoders go wrong. -/
def Decodable (s : String) : Prop :=
  ¬ Opens Splits (encode s.toList) ∧ ¬ Opens Signed (encode s.toList)

theorem decodeText_settles (s : String) : ∃ r, SettlesTo .outOfFuel (fun fuel => decodeText fuel s) r ∧
    (r = .error .panic ↔ Opens Splits (encode s.toList)) ∧ (r = .ok (unescaped s) ↔ Decodable s) := by
  have starts : ∀ tail, sign :: tail <:+ encode s.toList → ∀ h ∈ tail.head?, isTail h = false := by
    intro tail suffix h mem
    obtain ⟨cs, rfl⟩ := Utf8.exists_of_suffix_encode (by decide) suffix
    exact Utf8.isTail_head_encode mem
  have reads : Reads (encode s.toList) [] (decodeText ((encode s.toList).length + 1) s) := by
    have middle : ∀ front out, Reads (encode s.toList) out (run .outOfFuel
        (decodeRound (front ++ encode s.toList)) ((encode s.toList).length + 1) ⟨front.length, out⟩) :=
      fun front out => run_reads starts (Nat.lt_succ_self _)
    exact middle [] []
  unfold Reads at reads
  rcases reads with ⟨splits, panics⟩ | ⟨whole, o, k, trails, reads, count⟩
  · exact ⟨_, run_settlesTo panics (by simp), by simp [splits], by simp [Decodable, splits]⟩
  · refine ⟨_, run_settlesTo reads (by simp), by simp [whole], ?_⟩
    have length := trails.length
    rw [List.nil_append, Except.ok.injEq, unescaped, String.ofList_inj]
    constructor
    · intro same
      rw [same] at length
      exact ⟨whole, count.1 (by omega)⟩
    · rintro ⟨-, unsigned⟩
      obtain rfl := count.2 unsigned
      rw [trails.eq]

/-! ## What the requests of a backfill say -/

section Encoding

variable {c : Char} {cs : List Char} {P : List UInt8 → Prop} {front rest : List UInt8}

theorem queryEncodeChar_cases (c : Char) :
    (∃ h l v, encode (queryEncodeChar c) = [sign, h, l] ∧ encode [c] = [v] ∧
      ∀ rest, escape? (h :: l :: rest) = some v) ∨
    queryEncodeChar c = [c] ∧ c ≠ '%' ∧ c ≠ '+' := by
  unfold queryEncodeChar
  split_ifs with percent ampersand plus number equals question
  · exact .inl ⟨0x32, 0x35, 0x25, rfl, by rw [percent]; rfl, fun _ => rfl⟩
  · exact .inl ⟨0x32, 0x36, 0x26, rfl, by rw [ampersand]; rfl, fun _ => rfl⟩
  · exact .inl ⟨0x32, 0x42, 0x2B, rfl, by rw [plus]; rfl, fun _ => rfl⟩
  · exact .inl ⟨0x32, 0x33, 0x23, rfl, by rw [number]; rfl, fun _ => rfl⟩
  · exact .inl ⟨0x33, 0x44, 0x3D, rfl, by rw [equals]; rfl, fun _ => rfl⟩
  · exact .inl ⟨0x33, 0x46, 0x3F, rfl, by rw [question]; rfl, fun _ => rfl⟩
  · exact .inr ⟨rfl, percent, plus⟩

theorem opens_of_append (plain : sign ∉ front) : Opens P (front ++ rest) → Opens P rest := by
  rintro ⟨tail, suffix, holds⟩
  exact ⟨tail, Utf8.suffix_of_not_mem plain suffix, holds⟩

theorem queryEncode_spec (cs : List Char) :
    ¬ Opens Splits (encode (cs.flatMap queryEncodeChar)) ∧
    ¬ Opens Signed (encode (cs.flatMap queryEncodeChar)) ∧
    unescape (encode (cs.flatMap queryEncodeChar)) = encode cs := by
  induction cs with
  | nil => exact ⟨not_opens_nil, not_opens_nil, rfl⟩
  | cons c cs ih =>
    obtain ⟨whole, unsigned, read⟩ := ih
    have own : encode ([c] ++ cs) = encode [c] ++ encode cs := Utf8.encode_append
    rw [List.singleton_append] at own
    rw [List.flatMap_cons, Utf8.encode_append, own]
    rcases queryEncodeChar_cases c with ⟨h, l, v, written, single, escaped⟩ | ⟨plain, noSign, noPlus⟩
    · rw [written, single]
      have start : ¬ (encode (cs.flatMap queryEncodeChar)).head?.any isTail = true := by
        simp only [Option.any_eq_true, not_exists, not_and]
        exact fun b mem => by simp [Utf8.isTail_head_encode mem]
      obtain ⟨x, y, first, second⟩ := Percent.digits_of_escape? (escaped [])
      obtain ⟨-, noSign, noPlus, -⟩ := Percent.hexValue_eq_some first
      obtain ⟨-, noSign', -⟩ := Percent.hexValue_eq_some second
      refine ⟨?_, ?_, ?_⟩
      · rw [List.cons_append, opens_of_not, List.cons_append, opens_of_ne noSign, List.cons_append,
          opens_of_ne noSign']
        · exact whole
        · rintro ⟨_, _, b, rest, same, isTail⟩
          simp only [List.cons_append, List.nil_append, List.cons.injEq] at same
          exact start (by simp [same.2.2, isTail])
      · rw [List.cons_append, opens_of_not, List.cons_append, opens_of_ne noSign, List.cons_append,
          opens_of_ne noSign']
        · exact unsigned
        · rintro ⟨d, rest, same, -⟩
          exact noPlus (List.cons.inj same).1
      · exact (Percent.unescape_escape (escaped _)).trans (congrArg (v :: ·) read)
    · have bytes : ∀ b ∈ encode [c], b ≠ sign ∧ b ≠ plus := by
        intro b mem
        have own : b ∈ String.utf8EncodeChar c := by simpa [encode] using mem
        constructor
        · rintro rfl
          exact noSign (Utf8.eq_of_mem_utf8EncodeChar (by decide) own)
        · rintro rfl
          exact noPlus (Utf8.eq_of_mem_utf8EncodeChar (by decide) own)
      rw [plain]
      refine ⟨fun opens => whole (opens_of_append (fun mem => (bytes _ mem).1 rfl) opens),
        fun opens => unsigned (opens_of_append (fun mem => (bytes _ mem).1 rfl) opens), ?_⟩
      rw [Percent.unescape_append bytes, read]

end Encoding

/-- **The four decoders** read a value as the text that it stands for exactly if it is decodable. They end on
every value, all four in the same way, and what `queryEncode` writes is read back. -/
theorem decoders_read_iff (s : String) :
    ((∀ decode ∈ decoders, SettlesTo .outOfFuel (fun fuel => decode fuel s) (.ok (unescaped s))) ↔
      Decodable s) ∧
    (∃ r, (r = .error .panic ↔ Opens Splits (encode s.toList)) ∧
      ∀ decode ∈ decoders, SettlesTo .outOfFuel (fun fuel => decode fuel s) r) ∧
    SettlesTo .outOfFuel (fun fuel => Backfill.percentDecode fuel (Backfill.queryEncode s)) (.ok s) := by
  obtain ⟨r, settles, panics, reads⟩ := decodeText_settles s
  have all : ∀ decode ∈ decoders, SettlesTo .outOfFuel (fun fuel => decode fuel s) r := by
    intro decode mem
    rw [decoders_agree mem]
    exact settles
  refine ⟨⟨fun faithful => ?_, fun decodable decode mem => ?_⟩, ⟨r, panics, all⟩, ?_⟩
  · have mem : Backfill.percentDecode ∈ decoders := by simp [decoders]
    exact reads.1 ((all _ mem).unique (faithful _ mem))
  · exact reads.2 decodable ▸ all decode mem
  · obtain ⟨r, settles, -, reads⟩ := decodeText_settles (Backfill.queryEncode s)
    obtain ⟨whole, unsigned, read⟩ := queryEncode_spec s.toList
    have text : (Backfill.queryEncode s).toList = s.toList.flatMap queryEncodeChar := String.toList_ofList
    obtain rfl := reads.2 (by unfold Decodable; rw [text]; exact ⟨whole, unsigned⟩)
    have same : unescaped (Backfill.queryEncode s) = s := by
      rw [unescaped, text, read, Utf8.fromUtf8Lossy_encode, String.ofList_toList]
    rw [same] at settles
    exact settles

/-- A plus sign is taken for part of a number, and a slice that ends inside a character panics. -/
theorem signed_digit_read :
    SettlesTo .outOfFuel (fun fuel => Backfill.percentDecode fuel "%+5") (.ok "\x05") ∧
    unescaped "%+5" = "% 5" ∧
    SettlesTo .outOfFuel (fun fuel => Backfill.percentDecode fuel "%€") (.error .panic) ∧
    unescaped "%€" = "%€" ∧
    ¬ ∀ s, ∀ decode ∈ decoders, SettlesTo .outOfFuel (fun fuel => decode fuel s) (.ok (unescaped s)) := by
  have number : decodeText 9 "%+5" = .ok "\x05" := by decide +kernel
  have panics : decodeText 9 "%€" = .error .panic := by decide +kernel
  have split : SettlesTo .outOfFuel (fun fuel => decodeText fuel "%€") (.error .panic) :=
    run_settlesTo panics (by simp)
  refine ⟨run_settlesTo number (by simp), by decide +kernel, split, by decide +kernel, fun faithful => ?_⟩
  have mem : Backfill.percentDecode ∈ decoders := by simp [decoders]
  cases split.unique (faithful _ _ mem)

end Saltator.Federation
