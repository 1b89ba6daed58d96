import Saltator.Lib.Utf8

/-!
# Percent escapes

The bytes that a query text stands for: a percent sign with two hexadecimal digits is the byte that these
give, a plus sign is a space, and all other bytes stand for themselves.
-/

namespace Saltator.Percent

def sign : UInt8 := 0x25
def plus : UInt8 := 0x2B
def space : UInt8 := 0x20

def hexValue (b : UInt8) : Option UInt8 :=
  if 0x30 ≤ b ∧ b ≤ 0x39 then some (b - 0x30)
  else if 0x61 ≤ b ∧ b ≤ 0x66 then some (b - 0x57)
  else if 0x41 ≤ b ∧ b ≤ 0x46 then some (b - 0x37)
  else none

def escape? : List UInt8 → Option UInt8
  | h :: l :: _ =>
    match hexValue h, hexValue l with
    | some x, some y => some (16 * x + y)
    | _, _ => none
  | _ => none

/-- The bytes of a text after the first `skip`, which belong to an escape. -/
def unescapeFrom : Nat → List UInt8 → List UInt8
  | _, [] => []
  | skip + 1, _ :: bytes => unescapeFrom skip bytes
  | 0, b :: bytes =>
    if b = sign then
      match escape? bytes with
      | some v => v :: unescapeFrom 2 bytes
      | none => sign :: unescapeFrom 0 bytes
    else (if b = plus then space else b) :: unescapeFrom 0 bytes

def unescape (bytes : List UInt8) : List UInt8 := unescapeFrom 0 bytes

variable {b h l v : UInt8} {bytes front rest : List UInt8}

theorem unescape_other (other : b ≠ sign) :
    unescape (b :: bytes) = (if b = plus then space else b) :: unescape bytes := by
  rw [unescape, unescapeFrom, if_neg other]
  rfl

theorem unescape_sign (plain : escape? bytes = none) :
    unescape (sign :: bytes) = sign :: unescape bytes := by
  rw [unescape, unescapeFrom, if_pos rfl, plain]
  rfl

theorem unescape_escape (escaped : escape? (h :: l :: rest) = some v) :
    unescape (sign :: h :: l :: rest) = v :: unescape rest := by
  rw [unescape, unescapeFrom, if_pos rfl, escaped]
  rfl

theorem unescape_append (plain : ∀ b ∈ front, b ≠ sign ∧ b ≠ plus) :
    unescape (front ++ rest) = front ++ unescape rest := by
  induction front with
  | nil => rfl
  | cons b front ih =>
    obtain ⟨noSign, noPlus⟩ := plain b List.mem_cons_self
    rw [List.cons_append, unescape_other noSign, if_neg noPlus,
      ih fun b mem => plain b (List.mem_cons_of_mem _ mem)]
    rfl

theorem hexValue_eq_some (digit : hexValue b = some v) :
    b.toNat < 128 ∧ b ≠ sign ∧ b ≠ plus ∧ v.toNat < 16 := by
  have noSign : b ≠ sign := by
    rintro rfl
    simp [hexValue, sign] at digit
  have noPlus : b ≠ plus := by
    rintro rfl
    simp [hexValue, plus] at digit
  unfold hexValue at digit
  split_ifs at digit with decimal lower upper
  · obtain rfl := Option.some.inj digit
    rw [UInt8.toNat_sub_of_le _ _ decimal.1]
    simp only [UInt8.le_iff_toNat_le, UInt8.toNat_ofNat] at decimal ⊢
    exact ⟨by omega, noSign, noPlus, by omega⟩
  · obtain rfl := Option.some.inj digit
    simp only [UInt8.le_iff_toNat_le] at lower
    rw [UInt8.toNat_sub_of_le _ _ (UInt8.le_iff_toNat_le.2 (le_trans (by decide) lower.1))]
    simp only [UInt8.toNat_ofNat] at lower ⊢
    exact ⟨by omega, noSign, noPlus, by omega⟩
  · obtain rfl := Option.some.inj digit
    simp only [UInt8.le_iff_toNat_le] at upper
    rw [UInt8.toNat_sub_of_le _ _ (UInt8.le_iff_toNat_le.2 (le_trans (by decide) upper.1))]
    simp only [UInt8.toNat_ofNat] at upper ⊢
    exact ⟨by omega, noSign, noPlus, by omega⟩

theorem digits_of_escape? (escaped : escape? (h :: l :: rest) = some v) :
    ∃ x y, hexValue h = some x ∧ hexValue l = some y := by
  cases first : hexValue h with
  | none => simp [escape?, first] at escaped
  | some x =>
    cases second : hexValue l with
    | none => simp [escape?, first, second] at escaped
    | some y => exact ⟨x, y, rfl, rfl⟩

end Saltator.Percent
