import Saltator.Core.Json
import Saltator.Lib.Loop

/-!
# Server access control lists

An `m.room.server_acl` state event names the servers that may participate in a room. Entries are globs
over server names; servers that go by an IP literal can be kept out altogether.
-/

namespace Saltator

/-! ## Globs -/

namespace Glob

/-- Where the matcher is: what is left of the pattern and of the text, and the last `*` with the place
in the text from which it was tried. -/
structure Cursor where
  pattern : List Char
  text : List Char
  star : Option (List Char × List Char)

/-- Try the last `*` again, with one more character in it. -/
def retry (c : Cursor) : Except Unit (Cursor ⊕ Bool) :=
  match c.star with
  | some (pattern, _ :: text) => .ok (.inl ⟨pattern, text, some (pattern, text)⟩)
  | _ => .ok (.inr false)

/-- One round: a character of the text is taken literally before a `*` is looked for. -/
def round (c : Cursor) : Except Unit (Cursor ⊕ Bool) :=
  match c.text, c.pattern with
  | [], pattern => .ok (.inr (pattern.all (· = '*')))
  | t :: text, p :: pattern =>
    if p = '?' ∨ p = t then .ok (.inl { c with pattern, text })
    else if p = '*' then .ok (.inl ⟨pattern, t :: text, some (pattern, t :: text)⟩)
    else retry c
  | _ :: _, [] => retry c

/-- The rounds that suffice: a `*` is tried at every place of the text, and from each try on the pattern
and the text only get shorter. -/
def rounds (pattern text : List Char) : Nat :=
  (text.length + 2) * (pattern.length + text.length + 1)

end Glob

/-- Glob match with `*` (any run, including empty) and `?` (exactly one character). -/
def globMatch (pattern s : String) : Bool :=
  match Loop.run () Glob.round (Glob.rounds pattern.toList s.toList) ⟨pattern.toList, s.toList, none⟩
  with
  | .ok b => b
  | .error _ => false

/-! ## IP literals -/

namespace IpParser

def digit (hex : Bool) (c : Char) : Option Nat :=
  if c.isDigit then some (c.toNat - '0'.toNat)
  else if hex ∧ 'a' ≤ c ∧ c ≤ 'f' then some (c.toNat - 'a'.toNat + 10)
  else if hex ∧ 'A' ≤ c ∧ c ≤ 'F' then some (c.toNat - 'A'.toNat + 10)
  else none

def readNumber (hex : Bool) (maxDigits : Nat) (allowZeroPrefix : Bool) (cs : List Char) :
    Option (Nat × List Char) :=
  let digits := cs.takeWhile fun c => (digit hex c).isSome
  if digits.isEmpty ∨ maxDigits < digits.length then none
  else if !allowZeroPrefix ∧ digits.head? = some '0' ∧ 1 < digits.length then none
  else
    let base := if hex then 16 else 10
    some (digits.foldl (fun n c => n * base + (digit hex c).getD 0) 0, cs.drop digits.length)

def readChar (c : Char) : List Char → Option (List Char)
  | [] => none
  | d :: cs => if d = c then some cs else none

def readSeparator (c : Char) (first : Bool) (cs : List Char) : Option (List Char) :=
  if first then some cs else readChar c cs

def readOctet (first : Bool) (cs : List Char) : Option (List Char) := do
  let cs ← readSeparator '.' first cs
  let (n, cs) ← readNumber false 3 false cs
  if n < 256 then some cs else none

def readIpv4 (cs : List Char) : Option (List Char) := do
  let cs ← readOctet true cs
  let cs ← readOctet false cs
  let cs ← readOctet false cs
  readOctet false cs

/-- Groups of an IPv6 address, `left` of them at most: how many, whether the last two are an IPv4
address, and what follows. -/
def readGroups : Nat → Nat → List Char → Nat × Bool × List Char
  | 0, i, cs => (i, false, cs)
  | left + 1, i, cs =>
    let group := readSeparator ':' (i = 0) cs
    match if 0 < left then group.bind readIpv4 else none with
    | some cs => (i + 2, true, cs)
    | none =>
      match group.bind (readNumber true 4 true) with
      | some (_, cs) => readGroups left (i + 1) cs
      | none => (i, false, cs)

def readIpv6 (cs : List Char) : Option (List Char) :=
  match readGroups 8 0 cs with
  | (8, _, cs) => some cs
  | (_, true, _) => none
  | (head, false, cs) => do
    let cs ← readChar ':' cs
    let cs ← readChar ':' cs
    return (readGroups (8 - (head + 1)) 0 cs).2.2

def parses (read : List Char → Option (List Char)) (cs : List Char) : Bool := read cs = some []

end IpParser

def hostWithoutPort (name : List Char) : List Char :=
  match name with
  | '[' :: rest => if ']' ∈ rest then '[' :: rest.takeWhile (· ≠ ']') ++ [']'] else name
  | _ =>
    let port := (name.reverse.takeWhile (· ≠ ':')).reverse
    if ':' ∈ name ∧ !port.isEmpty ∧ port.all Char.isDigit then name.take (name.length - port.length - 1)
    else name

def isIpLiteral (host : List Char) : Bool :=
  match host with
  | '[' :: rest =>
    if rest.getLast? = some ']' then IpParser.parses IpParser.readIpv6 rest.dropLast
    else IpParser.parses IpParser.readIpv4 host
  | _ => IpParser.parses IpParser.readIpv4 host

/-! ## Lists -/

/-- A parsed `m.room.server_acl` content. -/
structure ServerAcl where
  allow : List String
  deny : List String
  allowIpLiterals : Bool
  deriving DecidableEq

namespace ServerAcl

def fromContent (content : JsonObject) : ServerAcl where
  allow := idList content "allow"
  deny := idList content "deny"
  allowIpLiterals :=
    match content.lookup "allow_ip_literals" with
    | some (.bool false) => false
    | _ => true

/-- Whether a server may participate: it is no unpermitted IP literal, matches no `deny` entry and
matches an `allow` entry. -/
def isAllowed (acl : ServerAcl) (serverName : String) : Bool :=
  if isIpLiteral (hostWithoutPort serverName.toList) && !acl.allowIpLiterals then false
  else if acl.deny.any fun g => globMatch g serverName then false
  else acl.allow.any fun g => globMatch g serverName

end ServerAcl

example : (ServerAcl.mk ["*.example.com", "one?.net"] [] true).isAllowed "a.example.com" = true := by
  decide +kernel

example : (ServerAcl.mk ["*"] [] false).isAllowed "[::1]:8448" = false := by decide +kernel

end Saltator
