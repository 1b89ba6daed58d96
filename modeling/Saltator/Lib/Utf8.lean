import Saltator.Lib.Pattern

/-!
# Text as bytes

Text is written in UTF-8. Reading takes any bytes: what is no character is read as the replacement
character, once for a start of a character that breaks off.
-/

namespace Saltator.Utf8

def encode (cs : List Char) : List UInt8 := cs.flatMap String.utf8EncodeChar

def decodeChar? (bytes : List UInt8) : Option Char := bytes.toByteArray.utf8DecodeChar? 0

def isTail (b : UInt8) : Bool := 0x80 ≤ b && b ≤ 0xBF

/-- The second bytes of the characters of three or four bytes that begin with a byte. -/
def isSecond (first b : UInt8) : Bool :=
  if first = 0xE0 then 0xA0 ≤ b && b ≤ 0xBF
  else if first = 0xED then 0x80 ≤ b && b ≤ 0x9F
  else if first = 0xF0 then 0x90 ≤ b && b ≤ 0xBF
  else if first = 0xF4 then 0x80 ≤ b && b ≤ 0x8F
  else 0xE1 ≤ first && first ≤ 0xF3 && isTail b

def brokenTail (first : UInt8) : List UInt8 → Nat
  | [] => 0
  | [b] => if isSecond first b then 1 else 0
  | b :: b' :: _ =>
    if isSecond first b then (if 0xF0 ≤ first ∧ isTail b' then 2 else 1) else 0

/-- The text of bytes, the first `skip` of which have been read. -/
def lossyFrom : Nat → List UInt8 → List Char
  | _, [] => []
  | skip + 1, _ :: bytes => lossyFrom skip bytes
  | 0, b :: bytes =>
    match decodeChar? (b :: bytes) with
    | some c => c :: lossyFrom (c.utf8Size - 1) bytes
    | none => '\uFFFD' :: lossyFrom (brokenTail b bytes) bytes

def fromUtf8Lossy (bytes : List UInt8) : List Char := lossyFrom 0 bytes

variable {c : Char} {cs cs' pat : List Char} {bytes rest : List UInt8} {a : UInt8} {b : UInt8}

theorem encode_append : encode (cs ++ cs') = encode cs ++ encode cs' := List.flatMap_append

theorem encode_ne_nil (filled : cs ≠ []) : encode cs ≠ [] := by
  cases cs with
  | nil => exact absurd rfl filled
  | cons c cs => exact List.append_ne_nil_of_left_ne_nil String.utf8EncodeChar_ne_nil _

theorem encode_infix (h : cs <:+: cs') : encode cs <:+: encode cs' := by
  obtain ⟨u, v, rfl⟩ := h
  exact ⟨encode u, encode v, by simp only [encode_append]⟩

theorem encode_suffix (h : cs <:+ cs') : encode cs <:+ encode cs' := by
  obtain ⟨u, rfl⟩ := h
  exact ⟨encode u, encode_append.symm⟩

theorem lt_of_mem_utf8EncodeChar (mem : b ∈ String.utf8EncodeChar c) : b.toNat < 128 ↔ c.val ≤ 127 := by
  have small : c.val ≤ 127 ↔ c.val.toNat ≤ 127 := UInt32.le_iff_toNat_le
  rw [small]
  unfold String.utf8EncodeChar at mem
  generalize c.val.toNat = v at *
  dsimp only at mem
  split_ifs at mem <;> simp only [List.mem_cons, List.not_mem_nil, or_false] at mem
  · subst mem
    simp only [UInt8.toNat_ofNat']
    omega
  · obtain rfl | rfl := mem <;> simp only [UInt8.toNat_ofNat'] <;> omega
  · obtain rfl | rfl | rfl := mem <;> simp only [UInt8.toNat_ofNat'] <;> omega
  · obtain rfl | rfl | rfl | rfl := mem <;> simp only [UInt8.toNat_ofNat'] <;> omega

theorem decodeChar?_append : decodeChar? (String.utf8EncodeChar c ++ rest) = some c := by
  rw [decodeChar?, List.toByteArray_append]
  exact ByteArray.utf8DecodeChar?_utf8EncodeChar_append

theorem exists_of_decodeChar? (h : decodeChar? bytes = some c) :
    ∃ rest, bytes = String.utf8EncodeChar c ++ rest := by
  obtain ⟨l, hl⟩ := ByteArray.exists_of_utf8DecodeChar?_eq_some h
  refine ⟨l.data.toList, ?_⟩
  simpa using congrArg (fun b => b.data.toList) hl

theorem lossyFrom_append {read : List UInt8} : lossyFrom read.length (read ++ rest) = lossyFrom 0 rest := by
  induction read with
  | nil => rfl
  | cons b read ih => exact ih

theorem fromUtf8Lossy_encode : fromUtf8Lossy (encode cs) = cs := by
  induction cs with
  | nil => rfl
  | cons c cs ih =>
    have read : decodeChar? (encode (c :: cs)) = some c := decodeChar?_append
    have size : (String.utf8EncodeChar c).length = c.utf8Size := String.length_utf8EncodeChar c
    cases own : String.utf8EncodeChar c with
    | nil => exact absurd own String.utf8EncodeChar_ne_nil
    | cons b tail =>
      rw [own, List.length_cons] at size
      have text : encode (c :: cs) = b :: (tail ++ encode cs) := by simp [encode, own]
      rw [text] at read ⊢
      rw [fromUtf8Lossy, lossyFrom, read]
      dsimp only
      rw [← size, Nat.add_sub_cancel, lossyFrom_append]
      exact congrArg (c :: ·) ih

theorem suffix_of_not_mem {tail front : List UInt8} (other : b ∉ front)
    (h : b :: tail <:+ front ++ rest) : b :: tail <:+ rest := by
  induction front with
  | nil => exact h
  | cons d front ih =>
    rw [List.mem_cons, not_or] at other
    rcases List.suffix_cons_iff.1 h with same | later
    · exact absurd (List.cons.inj same).1 other.1
    · exact ih other.2 later

theorem exists_of_suffix_encode {tail : List UInt8} (small : b.toNat < 128)
    (h : b :: tail <:+ encode cs) : ∃ cs', tail = encode cs' := by
  induction cs with
  | nil => simp [encode] at h
  | cons c cs ih =>
    have text : encode (c :: cs) = String.utf8EncodeChar c ++ encode cs := by simp [encode]
    rw [text] at h
    by_cases mem : b ∈ String.utf8EncodeChar c
    · have size : (String.utf8EncodeChar c).length = 1 := by
        rw [String.length_utf8EncodeChar,
          Char.utf8Size_eq_one_iff.2 ((lt_of_mem_utf8EncodeChar mem).1 small)]
      obtain ⟨b', single⟩ := List.length_eq_one_iff.1 size
      rw [single, List.singleton_append] at h
      rcases List.suffix_cons_iff.1 h with same | later
      · exact ⟨cs, (List.cons.inj same).2⟩
      · exact ih later
    · exact ih (suffix_of_not_mem mem h)

theorem isTail_head_encode (h : b ∈ (encode cs).head?) : isTail b = false := by
  cases cs with
  | nil => simp [encode] at h
  | cons c cs =>
    have own : b ∈ (String.utf8EncodeChar c).head? := by
      have text : encode (c :: cs) = String.utf8EncodeChar c ++ encode cs := by simp [encode]
      rw [text, List.head?_append_of_ne_nil _ String.utf8EncodeChar_ne_nil] at h
      exact h
    unfold String.utf8EncodeChar at own
    have valid : c.val.toNat < 0x110000 := by
      rcases c.valid with low | ⟨-, high⟩
      · exact low.trans (by decide)
      · exact high
    generalize c.val.toNat = v at *
    dsimp only at own
    simp only [isTail, UInt8.le_iff_toNat_le, Bool.and_eq_false_iff, decide_eq_false_iff_not]
    split_ifs at own <;> obtain rfl : _ = b := by simpa using own
    all_goals
      simp only [UInt8.toNat_ofNat', UInt8.toNat_ofNat, UInt8.toNat_add]
      omega
theorem utf8EncodeChar_ofUInt8 (small : a.toNat < 128) : String.utf8EncodeChar (Char.ofUInt8 a) = [a] := by
  have value : (Char.ofUInt8 a).val.toNat = a.toNat := UInt8.toNat_toUInt32 a
  unfold String.utf8EncodeChar
  simp [value, Nat.le_of_lt_succ small]

theorem eq_of_mem_utf8EncodeChar (small : a.toNat < 128) (mem : a ∈ String.utf8EncodeChar c) :
    c = Char.ofUInt8 a := by
  have size : (String.utf8EncodeChar c).length = 1 := by
    rw [String.length_utf8EncodeChar, Char.utf8Size_eq_one_iff.2 ((lt_of_mem_utf8EncodeChar mem).1 small)]
  obtain ⟨b, single⟩ := List.length_eq_one_iff.1 size
  obtain rfl : a = b := by simpa [single] using mem
  have read : decodeChar? (String.utf8EncodeChar c ++ []) = some c := decodeChar?_append
  rw [single, ← utf8EncodeChar_ofUInt8 small, decodeChar?_append] at read
  exact (Option.some.inj read).symm

theorem decodeChar?_ascii (small : a.toNat < 128) : decodeChar? (a :: rest) = some (Char.ofUInt8 a) := by
  rw [← List.singleton_append, ← utf8EncodeChar_ofUInt8 small]
  exact decodeChar?_append

theorem not_isTail (small : a.toNat < 128) : isTail a = false := by
  simp [isTail, UInt8.le_iff_toNat_le]
  omega

theorem not_isSecond {a first : UInt8} (small : a.toNat < 128) : isSecond first a = false := by
  simp only [isSecond, not_isTail small, UInt8.le_iff_toNat_le]
  split_ifs <;> simp <;> omega

theorem brokenTail_ascii {first a : UInt8} (small : a.toNat < 128) (front : List UInt8) :
    brokenTail first (front ++ a :: rest) = brokenTail first front ∧
      brokenTail first front ≤ front.length := by
  match front with
  | [] => cases rest <;> simp [brokenTail, not_isSecond small]
  | [b] =>
    simp only [List.cons_append, List.nil_append, brokenTail, not_isTail small]
    split_ifs <;> simp_all
  | b :: b' :: _ =>
    simp only [List.cons_append, brokenTail]
    split_ifs <;> simp_all

theorem lossyFrom_ascii (small : a.toNat < 128) {front : List UInt8} {skip : Nat}
    (within : skip ≤ front.length) : lossyFrom skip (front ++ a :: rest) =
      lossyFrom skip front ++ Char.ofUInt8 a :: fromUtf8Lossy rest := by
  induction front generalizing skip with
  | nil =>
    obtain rfl := Nat.le_zero.1 within
    have size : (Char.ofUInt8 a).utf8Size = 1 := by
      rw [← String.length_utf8EncodeChar, utf8EncodeChar_ofUInt8 small]
      rfl
    simp [lossyFrom, decodeChar?_ascii small, size, fromUtf8Lossy]
  | cons b front ih =>
    cases skip with
    | succ skip => exact ih (Nat.le_of_succ_le_succ within)
    | zero =>
      rw [List.cons_append, lossyFrom, lossyFrom]
      cases read : decodeChar? (b :: front) with
      | some c =>
        obtain ⟨later, same⟩ := exists_of_decodeChar? read
        have length := congrArg List.length same
        rw [List.length_append, String.length_utf8EncodeChar, List.length_cons] at length
        have read' : decodeChar? (b :: (front ++ a :: rest)) = some c := by
          rw [← List.cons_append, same, List.append_assoc]
          exact decodeChar?_append
        rw [read']
        exact congrArg (c :: ·) (ih (by omega))
      | none =>
        have read' : decodeChar? (b :: (front ++ a :: rest)) = none := by
          cases other : decodeChar? (b :: (front ++ a :: rest)) with
          | none => rfl
          | some c =>
            obtain ⟨later, same⟩ := exists_of_decodeChar? other
            -- the character is within the front
            by_cases inside : c.utf8Size ≤ (b :: front).length
            · have front' : String.utf8EncodeChar c <+: b :: front :=
                List.prefix_of_prefix_length_le ⟨later, same.symm⟩ (List.prefix_append (b :: front) _)
                  (by rwa [String.length_utf8EncodeChar])
              obtain ⟨later', same'⟩ := front'
              rw [← same', decodeChar?_append] at read
              cases read
            · -- and otherwise the byte belongs to it
              rw [Nat.not_le, List.length_cons] at inside
              have mem : a ∈ String.utf8EncodeChar c := by
                have front' : b :: front ++ [a] <+: String.utf8EncodeChar c := by
                  have text : b :: front ++ [a] <+: b :: (front ++ a :: rest) := ⟨rest, by simp⟩
                  refine List.prefix_of_prefix_length_le text ⟨later, same.symm⟩ ?_
                  simp only [List.length_append, List.length_cons, List.length_nil,
                    String.length_utf8EncodeChar]
                  omega
                exact front'.subset (by simp)
              have single := Char.utf8Size_eq_one_iff.2 ((lt_of_mem_utf8EncodeChar mem).1 small)
              omega
        obtain ⟨same, le⟩ : brokenTail b (front ++ a :: rest) = brokenTail b front ∧
            brokenTail b front ≤ front.length := brokenTail_ascii small front
        rw [read', same]
        exact congrArg (_ :: ·) (ih le)
theorem prefix_of_prefix_lossy (ascii : ∀ c ∈ pat, c.val ≤ 127) (h : pat <+: fromUtf8Lossy bytes) :
    encode pat <+: bytes := by
  induction bytes generalizing pat with
  | nil =>
    obtain rfl := List.prefix_nil.1 h
    exact List.prefix_refl []
  | cons b bytes ih =>
    cases pat with
    | nil => exact List.nil_prefix
    | cons d pat =>
      have small := ascii d List.mem_cons_self
      rw [fromUtf8Lossy, lossyFrom] at h
      split at h
      · rename_i c read
        obtain ⟨rfl, later⟩ := List.cons_prefix_cons.1 h
        have size := Char.utf8Size_eq_one_iff.2 small
        have length : (String.utf8EncodeChar d).length = 1 := by rw [String.length_utf8EncodeChar, size]
        obtain ⟨rest, same⟩ := exists_of_decodeChar? read
        obtain ⟨b', single⟩ := List.length_eq_one_iff.1 length
        rw [single, List.singleton_append] at same
        obtain ⟨rfl, rfl⟩ := List.cons.inj same
        rw [size] at later
        rw [encode, List.flatMap_cons, single, List.singleton_append, List.cons_prefix_cons]
        exact ⟨rfl, ih (fun c mem => ascii c (List.mem_cons_of_mem _ mem)) later⟩
      · obtain ⟨rfl, -⟩ := List.cons_prefix_cons.1 h
        exact absurd small (by decide)

theorem infix_of_infix_lossyFrom (ascii : ∀ c ∈ pat, c.val ≤ 127) {skip : Nat}
    (h : pat <:+: lossyFrom skip bytes) : encode pat <:+: bytes := by
  induction bytes generalizing skip with
  | nil =>
    obtain rfl := List.infix_nil.1 (by simpa [lossyFrom] using h)
    exact List.infix_refl []
  | cons b bytes ih =>
    cases skip with
    | succ skip => exact (ih h).trans (List.suffix_cons b bytes).isInfix
    | zero =>
      have front : pat <+: fromUtf8Lossy (b :: bytes) ∨ ∃ skip, pat <:+: lossyFrom skip bytes := by
        unfold fromUtf8Lossy
        rw [lossyFrom] at h ⊢
        split at h
        · exact (List.infix_cons_iff.1 h).imp_right fun later => ⟨_, later⟩
        · exact (List.infix_cons_iff.1 h).imp_right fun later => ⟨_, later⟩
      obtain front | ⟨skip, later⟩ := front
      · exact (prefix_of_prefix_lossy ascii front).isInfix
      · exact (ih later).trans (List.suffix_cons b bytes).isInfix

theorem infix_of_infix_lossy (ascii : ∀ c ∈ pat, c.val ≤ 127) (h : pat <:+: fromUtf8Lossy bytes) :
    encode pat <:+: bytes := infix_of_infix_lossyFrom ascii h

theorem prefix_of_prefix_encode (h : encode pat <+: encode cs) : pat <+: cs := by
  induction cs generalizing pat with
  | nil =>
    cases pat with
    | nil => exact List.nil_prefix
    | cons d pat => exact absurd (List.prefix_nil.1 h) (encode_ne_nil (List.cons_ne_nil d pat))
  | cons c cs ih =>
    cases pat with
    | nil => exact List.nil_prefix
    | cons d pat =>
      obtain ⟨t, same⟩ := h
      rw [encode, List.flatMap_cons, List.append_assoc] at same
      have read : decodeChar? (String.utf8EncodeChar d ++ (encode pat ++ t)) = some c := by
        rw [encode, same]
        exact decodeChar?_append
      obtain rfl : d = c := Option.some.inj (decodeChar?_append.symm.trans read)
      exact List.cons_prefix_cons.2 ⟨rfl, ih ⟨t, List.append_cancel_left same⟩⟩

theorem infix_of_infix_encode (ascii : ∀ c ∈ pat, c.val ≤ 127) (h : encode pat <:+: encode cs) :
    pat <:+: cs := by
  by_cases empty : pat = []
  · subst empty
    exact List.nil_infix
  induction cs with
  | nil => exact absurd (List.infix_nil.1 h) (encode_ne_nil empty)
  | cons c cs ih =>
    by_cases small : c.val ≤ 127
    · have size : (String.utf8EncodeChar c).length = 1 := by
        rw [String.length_utf8EncodeChar, Char.utf8Size_eq_one_iff.2 small]
      obtain ⟨b, single⟩ := List.length_eq_one_iff.1 size
      have text : encode (c :: cs) = b :: encode cs := by simp [encode, single]
      obtain front | later := List.infix_cons_iff.1 (text ▸ h)
      · exact (prefix_of_prefix_encode (text ▸ front)).isInfix
      · exact (ih later).trans (List.suffix_cons c cs).isInfix
    · -- the bytes of `c` are none of the pattern
      have later : encode pat <:+: encode cs := by
        refine Pattern.infix_of_append_disjoint (encode_ne_nil empty) (fun b mem mem' => small ?_) h
        obtain ⟨d, listed, own⟩ := List.mem_flatMap.1 mem'
        exact (lt_of_mem_utf8EncodeChar mem).1 ((lt_of_mem_utf8EncodeChar own).2 (ascii d listed))
      exact (ih later).trans (List.suffix_cons c cs).isInfix

end Saltator.Utf8
