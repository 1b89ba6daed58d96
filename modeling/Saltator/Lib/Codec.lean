import Mathlib.Tactic.Common
import Mathlib.Tactic.Ring

/-!
# Positional codecs

A value is written part after part, with no names for the parts, and read off the front of the input.
A `Codec` carries the proof that reading what was written gives the value back, whatever follows it.
The building blocks are those of a compact binary format: variable-length numbers, tagged options,
sequences and strings with their length in front, and tuples.
-/

namespace Saltator

structure Codec (α : Type) where
  /-- The bytes of a value, unless the format cannot represent it. -/
  encode : α → Option (List UInt8)
  /-- The value at the front of the input, and the rest of the input. -/
  decode : List UInt8 → Option (α × List UInt8)
  decode_encode : ∀ {a : α} {bytes : List UInt8} (rest : List UInt8), encode a = some bytes →
    decode (bytes ++ rest) = some (a, rest)

namespace Codec

variable {α β : Type}

/-- The value at the front; what follows it is ignored. -/
def fromBytes (c : Codec α) (bytes : List UInt8) : Option α := (c.decode bytes).map Prod.fst

theorem fromBytes_encode (c : Codec α) {a : α} {bytes : List UInt8} (h : c.encode a = some bytes) :
    c.fromBytes bytes = some a := by
  have read := c.decode_encode [] h
  rw [List.append_nil] at read
  rw [fromBytes, read]
  rfl

/-! ## Numbers -/

/-- Seven bits a byte, the low ones first. All bytes but the last are marked by the high bit; there
are at most `more` of them. -/
def lebEncode : Nat → Nat → List UInt8
  | 0, n => [UInt8.ofNat n]
  | more + 1, n =>
    if n < 128 then [UInt8.ofNat n]
    else UInt8.ofNat (n % 128 + 128) :: lebEncode more (n / 128)

/-- After `more` marked bytes, the last may be `limit` at most. -/
def lebDecode (limit : Nat) : Nat → List UInt8 → Option (Nat × List UInt8)
  | _, [] => none
  | 0, b :: rest => if b.toNat ≤ limit then some (b.toNat, rest) else none
  | more + 1, b :: rest =>
    if b.toNat < 128 then some (b.toNat, rest)
    else (lebDecode limit more rest).map fun p => (b.toNat - 128 + 128 * p.1, p.2)

theorem toNat_ofNat {n : Nat} (h : n < 256) : (UInt8.ofNat n).toNat = n := by
  rw [UInt8.toNat_ofNat']
  omega

theorem lebDecode_encode {limit more n : Nat} (small : limit < 128)
    (h : n < 128 ^ more * (limit + 1)) (rest : List UInt8) :
    lebDecode limit more (lebEncode more n ++ rest) = some (n, rest) := by
  induction more generalizing n with
  | zero =>
    have fits : n ≤ limit := by omega
    have byte : (UInt8.ofNat n).toNat = n := toNat_ofNat (by omega)
    simp [lebEncode, lebDecode, byte, fits]
  | succ more ih =>
    rw [lebEncode]
    split
    · rename_i last
      have byte : (UInt8.ofNat n).toNat = n := toNat_ofNat (by omega)
      simp [lebDecode, byte, last]
    · have byte : (UInt8.ofNat (n % 128 + 128)).toNat = n % 128 + 128 := toNat_ofNat (by omega)
      have bound : n / 128 < 128 ^ more * (limit + 1) := by
        rw [Nat.div_lt_iff_lt_mul (by omega)]
        calc n < 128 ^ (more + 1) * (limit + 1) := h
          _ = 128 ^ more * (limit + 1) * 128 := by ring
      have value : n % 128 + 128 - 128 + 128 * (n / 128) = n := by omega
      rw [List.cons_append, lebDecode, byte, if_neg (by omega), ih bound, Option.map_some, value]

/-- A number below `128 ^ more * (limit + 1)`. -/
def varint (more limit : Nat) (small : limit < 128) : Codec Nat where
  encode n := if n < 128 ^ more * (limit + 1) then some (lebEncode more n) else none
  decode := lebDecode limit more
  decode_encode := by
    intro n bytes rest h
    split at h
    · rename_i bound
      obtain rfl := Option.some.inj h
      exact lebDecode_encode small bound rest
    · simp at h

def u64 : Codec Nat := varint 9 1 (by omega)

def u32 : Codec Nat := varint 4 15 (by omega)

def u16 : Codec Nat := varint 2 3 (by omega)

/-! ## Parts -/

def byte : Codec UInt8 where
  encode b := some [b]
  decode
    | [] => none
    | b :: rest => some (b, rest)
  decode_encode := by
    intro b bytes rest h
    obtain rfl := Option.some.inj h
    rfl

/-- One part after the other. -/
def pair (c : Codec α) (d : Codec β) : Codec (α × β) where
  encode p := (c.encode p.1).bind fun first => (d.encode p.2).map (first ++ ·)
  decode bytes := (c.decode bytes).bind fun (a, rest) => (d.decode rest).map fun (b, rest) =>
    ((a, b), rest)
  decode_encode := by
    rintro ⟨a, b⟩ bytes rest h
    obtain ⟨first, hfirst, h⟩ := Option.bind_eq_some_iff.1 h
    obtain ⟨second, hsecond, rfl⟩ := Option.map_eq_some_iff.1 h
    simp [List.append_assoc, c.decode_encode _ hfirst, d.decode_encode _ hsecond]

/-- A tag, and the value if there is one. -/
def option (c : Codec α) : Codec (Option α) where
  encode
    | none => some [0]
    | some a => (c.encode a).map (1 :: ·)
  decode
    | 0 :: rest => some (none, rest)
    | 1 :: rest => (c.decode rest).map fun (a, rest) => (some a, rest)
    | _ => none
  decode_encode := by
    intro x bytes rest h
    cases x with
    | none =>
      obtain rfl := Option.some.inj h
      rfl
    | some a =>
      obtain ⟨body, hbody, rfl⟩ := Option.map_eq_some_iff.1 h
      simp [c.decode_encode _ hbody]

/-- The values one after another. -/
def writeAll (c : Codec α) : List α → Option (List UInt8)
  | [] => some []
  | a :: l => (c.encode a).bind fun first => (writeAll c l).map (first ++ ·)

def readCount (c : Codec α) : Nat → List UInt8 → Option (List α × List UInt8)
  | 0, bytes => some ([], bytes)
  | n + 1, bytes => (c.decode bytes).bind fun (a, rest) =>
    (readCount c n rest).map fun (l, rest) => (a :: l, rest)

theorem readCount_writeAll (c : Codec α) {l : List α} {bytes : List UInt8}
    (h : c.writeAll l = some bytes) (rest : List UInt8) :
    c.readCount l.length (bytes ++ rest) = some (l, rest) := by
  induction l generalizing bytes with
  | nil =>
    obtain rfl := Option.some.inj h
    rfl
  | cons a l ih =>
    obtain ⟨first, hfirst, h⟩ := Option.bind_eq_some_iff.1 h
    obtain ⟨others, hothers, rfl⟩ := Option.map_eq_some_iff.1 h
    simp [readCount, List.append_assoc, c.decode_encode _ hfirst, ih hothers]

/-- The number of values, and the values. -/
def list (c : Codec α) : Codec (List α) where
  encode l := (u64.encode l.length).bind fun length => (c.writeAll l).map (length ++ ·)
  decode bytes := (u64.decode bytes).bind fun (length, rest) => c.readCount length rest
  decode_encode := by
    intro l bytes rest h
    obtain ⟨length, hlength, h⟩ := Option.bind_eq_some_iff.1 h
    obtain ⟨values, hvalues, rfl⟩ := Option.map_eq_some_iff.1 h
    simp [List.append_assoc, u64.decode_encode _ hlength, readCount_writeAll c hvalues]

def variants {n : Nat} {fields : Fin n → Type} (c : ∀ i, Codec (fields i)) : Codec (Σ i, fields i) where
  encode v := (u32.encode v.1).bind fun tag => ((c v.1).encode v.2).map (tag ++ ·)
  decode bytes := (u32.decode bytes).bind fun (i, rest) =>
    if h : i < n then ((c ⟨i, h⟩).decode rest).map fun (a, rest) => (⟨⟨i, h⟩, a⟩, rest) else none
  decode_encode := by
    rintro ⟨i, a⟩ bytes rest h
    obtain ⟨tag, htag, h⟩ := Option.bind_eq_some_iff.1 h
    obtain ⟨body, hbody, rfl⟩ := Option.map_eq_some_iff.1 h
    simp [List.append_assoc, u32.decode_encode _ htag, (c i).decode_encode _ hbody]

/-- A value that is written as another one. -/
def via (c : Codec β) (repr : α → β) (make : β → Option α) (made : ∀ a, make (repr a) = some a) :
    Codec α where
  encode a := c.encode (repr a)
  decode bytes := (c.decode bytes).bind fun (b, rest) => (make b).map fun a => (a, rest)
  decode_encode := by
    intro a bytes rest h
    simp [c.decode_encode _ h, made]

def bytes : Codec (List UInt8) := list byte

/-- The length in bytes, and the UTF-8 bytes. -/
def string : Codec String :=
  bytes.via (fun s => s.toUTF8.data.toList) (fun l => String.fromUTF8? ⟨l.toArray⟩) fun s => by
    change String.fromUTF8? s.toByteArray = some s
    exact dif_pos s.isValidUTF8

end Codec

end Saltator
