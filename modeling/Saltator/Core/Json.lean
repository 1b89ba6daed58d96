import Mathlib.Algebra.Group.Int.Defs
import Mathlib.Data.List.DropRight
import Saltator.Lib.Ordered
import Saltator.Lib.Outcome

/-!
# Canonical JSON

Events travel and are stored as canonical JSON objects. An object is the list of its members in key
order; keys are unique in canonical form, so the first match of a lookup is the only one.
-/

namespace Saltator

/-- A canonical JSON value: numbers are integers. -/
inductive Json where
  | null
  | bool (b : Bool)
  | integer (i : Int)
  | string (s : String)
  | array (items : List Json)
  | object (members : List (String × Json))
  deriving Repr, Inhabited

abbrev JsonObject := List (String × Json)

mutual

def Json.inRange : Json → Bool
  | .integer i => -(2 ^ 53) < i && i < 2 ^ 53
  | .array items => Json.itemsInRange items
  | .object members => Json.membersInRange members
  | .null | .bool _ | .string _ => true

def Json.itemsInRange : List Json → Bool
  | [] => true
  | item :: items => item.inRange && Json.itemsInRange items

def Json.membersInRange : List (String × Json) → Bool
  | [] => true
  | member :: members => Json.memberInRange member && Json.membersInRange members

def Json.memberInRange : String × Json → Bool
  | (_, value) => value.inRange

end

namespace Json

@[simp] theorem itemsInRange_strings (l : List String) : itemsInRange (l.map Json.string) = true := by
  induction l with
  | nil => rw [List.map_nil, itemsInRange]
  | cons s l ih => rw [List.map_cons, itemsInRange, ih, inRange, Bool.and_true]

def asStr : Json → Option String
  | .string s => some s
  | _ => none

def asInteger : Json → Option Int
  | .integer i => some i
  | _ => none

def asArray : Json → Option (List Json)
  | .array a => some a
  | _ => none

end Json

/-- `str_prop`: a string member. -/
def strProp (o : JsonObject) (key : String) : Option String := (o.lookup key).bind Json.asStr

instance instLawfulBEqMember : LawfulBEq (Option String) := inferInstance

theorem strProp_congr {raw raw' : JsonObject} {key : String}
    (h : raw'.lookup key = raw.lookup key) : strProp raw' key = strProp raw key := by
  rw [strProp, strProp, h]

/-- `obj_prop`: an object member. -/
def objProp (o : JsonObject) (key : String) : Option JsonObject :=
  match o.lookup key with
  | some (.object members) => some members
  | _ => none

/-- `id_list`: the strings of an array member, and nothing for any other value. -/
def idList (o : JsonObject) (key : String) : List String :=
  match o.lookup key with
  | some (.array items) => items.filterMap Json.asStr
  | _ => []

/-- Event ids in an event's `auth_events`. -/
def authEventIds (o : JsonObject) : List String := idList o "auth_events"

/-- Event ids in an event's `prev_events`. -/
def prevEventIds (o : JsonObject) : List String := idList o "prev_events"

/-- A non-negative integer member, `0` when absent or of another shape. -/
def natProp (o : JsonObject) (key : String) : Nat :=
  match (o.lookup key).bind Json.asInteger with
  | some i => i.toNat
  | none => 0

/-! ## Identifier strings -/

/-- The identifier without its one-byte sigil (`&id[1..]`). -/
def withoutSigil (id : String) : String := String.ofList (id.toList.drop 1)

def afterColon (id : String) : Option String :=
  match id.toList.dropWhile (· ≠ ':') with
  | [] => none
  | _ :: rest => some (String.ofList rest)

/-! ## Decimal integers -/

/-- Unicode `White_Space`, which is what trimming removes. -/
def isWhiteSpace (c : Char) : Bool :=
  let n := c.toNat
  (9 ≤ n && n ≤ 13) || n == 0x20 || n == 0x85 || n == 0xA0 || n == 0x1680 ||
    (0x2000 ≤ n && n ≤ 0x200A) || n == 0x2028 || n == 0x2029 || n == 0x202F || n == 0x205F ||
    n == 0x3000

def trim (cs : List Char) : List Char :=
  ((cs.dropWhile isWhiteSpace).reverse.dropWhile isWhiteSpace).reverse

variable {cs : List Char}

theorem trim_infix : trim cs <:+: cs :=
  (List.rdropWhile_prefix _ _).isInfix.trans (List.dropWhile_suffix _).isInfix

theorem trim_eq_self (first : ∀ c ∈ cs.head?, isWhiteSpace c = false)
    (last : ∀ c ∈ cs.getLast?, isWhiteSpace c = false) : trim cs = cs := by
  have front : cs.dropWhile isWhiteSpace = cs := by
    cases cs with
    | nil => rfl
    | cons c cs => simp [first c rfl]
  have back : cs.reverse.dropWhile isWhiteSpace = cs.reverse := by
    cases h : cs.reverse with
    | nil => rfl
    | cons c rest =>
      have : c ∈ cs.getLast? := by simp [← List.head?_reverse, h]
      simp [last c this]
  rw [trim, front, back, List.reverse_reverse]

theorem trim_trim : trim (trim cs) = trim cs := by
  have start : trim cs <+: cs.dropWhile isWhiteSpace := List.rdropWhile_prefix _ _
  refine trim_eq_self (fun c mem => ?_) fun c mem => ?_
  · obtain ⟨rest, own⟩ := List.head?_eq_some_iff.1 mem
    obtain ⟨t, whole⟩ := start
    rw [own] at whole
    have := List.head?_dropWhile_not isWhiteSpace cs
    rw [← whole] at this
    exact this
  · have filled : trim cs ≠ [] := by
      intro empty
      simp [empty] at mem
    rw [List.getLast?_eq_some_getLast filled] at mem
    exact Option.some.inj mem ▸ Bool.eq_false_iff.2 (List.rdropWhile_last_not _ _ filled)

def digitsValue (cs : List Char) : Option Nat :=
  if cs.isEmpty then none
  else cs.foldl (fun acc c => acc.bind fun n =>
    if c.isDigit then some (n * 10 + (c.toNat - '0'.toNat)) else none) (some 0)

/-- `s.trim().parse::<i64>()`: an optional sign and digits, inside the range of the type. -/
def parseI64 (s : String) : Option Int :=
  let value : Option Int :=
    match trim s.toList with
    | '-' :: rest => (digitsValue rest).map fun n => -(n : Int)
    | '+' :: rest => (digitsValue rest).map fun n => (n : Int)
    | cs => (digitsValue cs).map fun n => (n : Int)
  value.filter fun i => -(2 ^ 63) ≤ i && i < 2 ^ 63

example : parseI64 " -50 " = some (-50) := by decide

end Saltator
