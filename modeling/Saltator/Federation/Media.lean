import Mathlib.Data.Bool.AllAny
import Saltator.Core.Json
import Saltator.Lib.Decimal
import Saltator.Lib.Utf8

/-!
# Federation media

A file goes to another server as a body of two parts with a fixed boundary between them: empty metadata,
and the file under a header of its own. The reader takes the last part that is not JSON. A file comes
back as it was unless it, its type or its name has the boundary, its type is that of JSON, or its type
does not keep to one trimmed line (`multipart_iff`).
-/

namespace Saltator.Federation

open Pattern (cut pieces Unbordered)
open Utf8 (encode fromUtf8Lossy)
open Decimal (splitOnce)

abbrev Bytes := List UInt8

/-! ## The file name -/

/-- The `Content-Disposition` header: how an attachment with a file name is written, and the file name
that a text is read as, if it is read at all. What is written is one trimmed line. -/
structure Disposition where
  format : Option String → String
  parse : String → Option (Option String)
  format_none : format none = "attachment"
  oneLine : ∀ filename, ∀ c ∈ (format filename).toList, c ≠ '\r' ∧ c ≠ '\n'
  trimmed : ∀ filename, trim (format filename).toList = (format filename).toList

/-! ## Writing -/

def boundary : List Char := "saltator-media-boundary".toList

def crlf : List Char := ['\r', '\n']

def blank : List Char := crlf ++ crlf

def boundaryLine (boundary : List Char) : List Char := '-' :: '-' :: boundary

def multipartType : List Char := "multipart/mixed; boundary=".toList ++ boundary

def buildMultipart (d : Disposition) (contentType : String) (file : Bytes) (filename : Option String) :
    Bytes :=
  encode (boundaryLine boundary ++ crlf) ++ encode ("Content-Type: application/json".toList ++ blank) ++
    encode ("{}".toList ++ crlf) ++ encode (boundaryLine boundary ++ crlf) ++
    encode ("Content-Type: ".toList ++ contentType.toList ++ crlf) ++
    encode ("Content-Disposition: ".toList ++ (d.format filename).toList ++ blank) ++ file ++
    encode (crlf ++ boundaryLine boundary ++ "--".toList ++ crlf)

/-! ## Reading -/

def trimQuotes (cs : List Char) : List Char :=
  ((cs.dropWhile (· = '"')).reverse.dropWhile (· = '"')).reverse

def boundaryOf (contentType : List Char) : Option (List Char) :=
  ((contentType.splitOn ';').findSome? fun p => (trim p).dropPrefix? "boundary=".toList).map trimQuotes

def stripLeadingCrlf : Bytes → Bytes
  | 13 :: 10 :: bytes => stripLeadingCrlf bytes
  | bytes => bytes

def eqIgnoreAsciiCase (a b : List Char) : Bool := a.map Char.toLower = b.map Char.toLower

def lineValue (name line : List Char) : Option (List Char) :=
  match splitOnce ':' line with
  | some (key, value) => if eqIgnoreAsciiCase (trim key) name then some (trim value) else none
  | none => none

def headerValue (headers : Bytes) (name : String) : Option String :=
  ((pieces crlf (fromUtf8Lossy headers)).findSome? (lineValue name.toList)).map String.ofList

/-- A file that was read, with its declared type and name. -/
structure MediaFile where
  file : Bytes
  contentType : Option String
  filename : Option String
  deriving DecidableEq

/-- The line end before the closing boundary is none of the file. -/
def trimTrailingCrlf (file : Bytes) : Bytes :=
  if encode crlf <:+ file then file.take (file.length - 2) else file

def filePart (d : Disposition) (part : Bytes) : Option MediaFile :=
  match cut (encode blank) (stripLeadingCrlf part) with
  | none => none
  | some (headers, rest) =>
    let contentType := headerValue headers "content-type"
    if contentType.any fun c => "application/json".toList.isPrefixOf c.toList then none
    else
      some ⟨trimTrailingCrlf rest, contentType,
        ((headerValue headers "content-disposition").bind d.parse).join⟩

/-- The last part that is not metadata. -/
def parseMultipartFile (d : Disposition) (contentTypeHeader : List Char) (body : Bytes) :
    Option MediaFile :=
  match boundaryOf contentTypeHeader with
  | none => none
  | some boundary => (pieces (encode (boundaryLine boundary)) body).reverse.findSome? (filePart d)

/-! ## Headers -/

section Headers

variable {headers : Bytes} {name other : String} {key line : List Char} {v v' : String}

theorem crlf_unbordered : Unbordered crlf := by decide

theorem lineValue_eq_some {value : List Char} (h : lineValue key line = some value) :
    ∃ k w, line = k ++ ':' :: w ∧ splitOnce ':' line = some (k, w) ∧
      eqIgnoreAsciiCase (trim k) key ∧ value = trim w := by
  unfold lineValue at h
  split at h
  · rename_i k w cut
    split at h
    · rename_i named
      exact ⟨k, w, Decimal.eq_of_splitOnce cut, cut, named, (Option.some.inj h).symm⟩
    · cases h
  · cases h

theorem headerValue_eq_some (h : headerValue headers name = some v) :
    ∃ line ∈ pieces crlf (fromUtf8Lossy headers), lineValue name.toList line = some v.toList := by
  obtain ⟨value, found, rfl⟩ := Option.map_eq_some_iff.1 h
  obtain ⟨line, mem, own⟩ := List.exists_of_findSome?_eq_some found
  exact ⟨line, mem, by rw [own, String.toList_ofList]⟩

theorem headerValue_spec (h : headerValue headers name = some v) :
    v.toList <:+: fromUtf8Lossy headers ∧ ¬ crlf <:+: v.toList ∧ trim v.toList = v.toList := by
  obtain ⟨line, mem, own⟩ := headerValue_eq_some h
  obtain ⟨k, w, rfl, -, -, value⟩ := lineValue_eq_some own
  obtain ⟨free, before, after, whole, -⟩ := Pattern.mem_pieces crlf_unbordered.1 mem
  have inner : v.toList <:+: k ++ ':' :: w := by
    rw [value]
    exact trim_infix.trans ⟨k ++ [':'], [], by simp⟩
  refine ⟨?_, fun broken => free (broken.trans inner), ?_⟩
  · rw [whole]
    exact inner.trans (List.infix_append before _ after)
  · rw [value, trim_trim]

theorem crlf_infix_of_two (h : headerValue headers name = some v) (h' : headerValue headers other = some v')
    (ne : name.toList.map Char.toLower ≠ other.toList.map Char.toLower) :
    encode crlf <:+: headers := by
  obtain ⟨line, mem, own⟩ := headerValue_eq_some h
  obtain ⟨line', mem', own'⟩ := headerValue_eq_some h'
  refine Utf8.infix_of_infix_lossy (List.all_iff_forall_prop.1 (by decide)) ?_
  by_contra single
  rw [Pattern.pieces_of_absent crlf_unbordered.1 single, List.mem_singleton] at mem mem'
  subst mem mem'
  obtain ⟨k, w, -, cut, named, -⟩ := lineValue_eq_some own
  obtain ⟨k', w', -, cut', named', -⟩ := lineValue_eq_some own'
  obtain ⟨rfl, -⟩ := Prod.mk.inj (some_unique cut cut')
  exact ne ((of_decide_eq_true named).symm.trans (of_decide_eq_true named'))

end Headers

/-! ## Parts -/

section Parts

variable {d : Disposition} {contentType : String} {file part headers rest : Bytes}
  {filename : Option String} {read : MediaFile} {a b : List Char}

def delimiter : Bytes := encode (boundaryLine boundary)

theorem delimiter_unbordered : Unbordered delimiter := by decide

def fileHeaders (contentType disposition : List Char) : List Char :=
  ("Content-Type: ".toList ++ contentType) ++ crlf ++ ("Content-Disposition: ".toList ++ disposition)

theorem fileHeaders_suffix : "Content-Disposition: ".toList ++ b <:+ crlf ++ fileHeaders a b :=
  (List.suffix_append _ _).trans (List.suffix_append crlf _)

def writtenPart (d : Disposition) (contentType : String) (file : Bytes) (filename : Option String) : Bytes :=
  encode (crlf ++ fileHeaders contentType.toList (d.format filename).toList) ++ encode blank ++
    (file ++ encode crlf)

def metadataPart : Bytes :=
  encode (crlf ++ "Content-Type: application/json".toList ++ blank ++ "{}".toList ++ crlf)

def closingPart : Bytes := encode ("--".toList ++ crlf)

theorem buildMultipart_eq : buildMultipart d contentType file filename =
    [] ++ delimiter ++ (metadataPart ++ delimiter ++
      (writtenPart d contentType file filename ++ delimiter ++ closingPart)) := by
  unfold buildMultipart metadataPart writtenPart fileHeaders delimiter closingPart blank
  generalize boundaryLine boundary = line
  simp only [Utf8.encode_append, List.append_assoc, List.nil_append]

theorem filePart_eq_some (h : filePart d part = some read) : ∃ headers rest,
    cut (encode blank) (stripLeadingCrlf part) = some (headers, rest) ∧
    read.file = trimTrailingCrlf rest ∧ read.contentType = headerValue headers "content-type" ∧
    read.filename = ((headerValue headers "content-disposition").bind d.parse).join ∧
    ∀ c, read.contentType = some c → ¬ "application/json".toList <+: c.toList := by
  unfold filePart at h
  split at h
  · cases h
  · rename_i headers rest found
    dsimp only at h
    split at h
    · cases h
    · rename_i other
      cases h
      refine ⟨headers, rest, found, rfl, rfl, rfl, fun c typed json => other ?_⟩
      simp only at typed
      rw [typed, Option.any_some]
      exact List.isPrefixOf_iff_prefix.2 json

theorem filePart_of_uncut (uncut : cut (encode blank) (stripLeadingCrlf part) = none) :
    filePart d part = none := by
  rw [filePart, uncut]

theorem filePart_metadata : filePart d metadataPart = none := by
  have parted : cut (encode blank) (stripLeadingCrlf metadataPart) =
      some (encode "Content-Type: application/json".toList, encode ("{}".toList ++ crlf)) := by decide
  have typed : headerValue (encode "Content-Type: application/json".toList) "content-type" =
      some "application/json" := by decide
  rw [filePart, parted]
  dsimp only
  rw [typed, if_pos (by decide)]

theorem parseMultipartFile_build :
    parseMultipartFile d multipartType (buildMultipart d contentType file filename) =
      (pieces delimiter (writtenPart d contentType file filename)).reverse.findSome? (filePart d) := by
  have own : boundaryOf multipartType = some boundary := by decide
  have absent : ¬ delimiter <:+: metadataPart := by decide
  have absent' : ¬ delimiter <:+: closingPart := by decide
  have filled := delimiter_unbordered.1
  unfold parseMultipartFile
  rw [own]
  dsimp only
  rw [← delimiter, buildMultipart_eq, delimiter_unbordered.pieces_append,
    delimiter_unbordered.pieces_append, delimiter_unbordered.pieces_append,
    Pattern.pieces_of_absent filled absent, Pattern.pieces_of_absent filled absent',
    Pattern.pieces_of_absent filled (by simpa using filled)]
  have empty : filePart d [] = none := filePart_of_uncut (by decide)
  have closing : filePart d closingPart = none := filePart_of_uncut (by decide)
  simp [List.findSome?_append, filePart_metadata, empty, closing]

/-! ## The written part -/

theorem crlf_not_infix_disposition :
    '\r' ∉ "Content-Disposition: ".toList ++ (d.format filename).toList ∧
    '\n' ∉ "Content-Disposition: ".toList ++ (d.format filename).toList := by
  constructor
  · intro mem
    obtain mem | mem := List.mem_append.1 mem
    · exact absurd mem (by decide)
    · exact (d.oneLine filename _ mem).1 rfl
  · intro mem
    obtain mem | mem := List.mem_append.1 mem
    · exact absurd mem (by decide)
    · exact (d.oneLine filename _ mem).2 rfl

theorem not_blank_infix (oneLine : ¬ crlf <:+: a) (lineFree : '\n' ∉ b)
    (headed : ∃ c a', a = c :: a' ∧ c ∉ blank) (headed' : ∃ c b', b = c :: b' ∧ c ∉ blank) :
    ¬ blank <:+: crlf ++ (a ++ crlf ++ b) ++ (crlf ++ ['\r']) := by
  obtain ⟨c, a', rfl, other⟩ := headed
  obtain ⟨c', b', rfl, other'⟩ := headed'
  intro h
  have split : crlf ++ (c :: a' ++ crlf ++ c' :: b') ++ (crlf ++ ['\r']) =
      crlf ++ c :: ((a' ++ crlf) ++ c' :: ((b' ++ ['\r']) ++ ['\n', '\r'])) := by
    simp [crlf]
  rw [split, Pattern.infix_append_cons other, Pattern.infix_append_cons other'] at h
  obtain h | h | h := h
  · exact absurd h (by decide)
  · refine oneLine ((Pattern.infix_of_append h (Nat.le_refl _)).trans ?_)
    exact (List.suffix_cons c a').isInfix
  · have inner : crlf <:+: b' ++ ['\r'] := Pattern.infix_of_append h (Nat.le_refl _)
    have mem : '\n' ∈ b' ++ ['\r'] := inner.mem (by decide)
    simp only [List.mem_append, List.mem_singleton] at mem
    obtain mem | same := mem
    · exact lineFree (List.mem_cons_of_mem _ mem)
    · exact absurd same (by decide)

theorem crlf_not_infix_typed (oneLine : ¬ crlf <:+: contentType.toList) :
    ¬ crlf <:+: "Content-Type: ".toList ++ contentType.toList :=
  mt (Pattern.infix_of_append_disjoint crlf_unbordered.1 (List.all_iff_forall_prop.1 (by decide))) oneLine

theorem blank_first (oneLine : ¬ crlf <:+: contentType.toList) :
    ¬ encode blank <:+: encode (crlf ++ fileHeaders contentType.toList (d.format filename).toList) ++
      (encode blank).dropLast := by
  have start : (encode blank).dropLast = encode (crlf ++ ['\r']) := by decide
  rw [start, ← Utf8.encode_append]
  refine mt (Utf8.infix_of_infix_encode (List.all_iff_forall_prop.1 (by decide))) ?_
  refine not_blank_infix (crlf_not_infix_typed oneLine) crlf_not_infix_disposition.2
    ⟨'C', "ontent-Type: ".toList ++ contentType.toList, ?_, by decide⟩
    ⟨'C', "ontent-Disposition: ".toList ++ (d.format filename).toList, ?_, by decide⟩
  · exact congrArg (· ++ contentType.toList)
      (by decide : "Content-Type: ".toList = 'C' :: "ontent-Type: ".toList)
  · exact congrArg (· ++ (d.format filename).toList)
      (by decide : "Content-Disposition: ".toList = 'C' :: "ontent-Disposition: ".toList)

theorem stripLeadingCrlf_encode {cs : List Char} :
    stripLeadingCrlf (encode (crlf ++ 'C' :: cs) ++ rest) = encode ('C' :: cs) ++ rest := rfl

theorem stripLeadingCrlf_written : stripLeadingCrlf (writtenPart d contentType file filename) =
    encode (fileHeaders contentType.toList (d.format filename).toList) ++ encode blank ++
      (file ++ encode crlf) := by
  have label : "Content-Type: ".toList = 'C' :: "ontent-Type: ".toList := by decide
  unfold writtenPart fileHeaders
  rw [label]
  generalize "ontent-Type: ".toList = type
  generalize "Content-Disposition: ".toList = disposition
  simp only [List.append_assoc, List.cons_append, stripLeadingCrlf_encode]

theorem cut_written (oneLine : ¬ crlf <:+: contentType.toList) :
    cut (encode blank) (stripLeadingCrlf (writtenPart d contentType file filename)) =
      some (encode (fileHeaders contentType.toList (d.format filename).toList), file ++ encode crlf) := by
  rw [stripLeadingCrlf_written]
  have first : ¬ encode blank <:+: encode (crlf ++ fileHeaders contentType.toList
      (d.format filename).toList) ++ (encode blank).dropLast := blank_first oneLine
  refine Pattern.cut_append (by decide) fun early => first ?_
  rw [Utf8.encode_append, List.append_assoc]
  exact early.trans (List.suffix_append _ _).isInfix

theorem pieces_two (oneLine : ¬ crlf <:+: a) (oneLine' : ¬ crlf <:+: b) :
    pieces crlf (a ++ crlf ++ b) = [a, b] := by
  have filled := crlf_unbordered.1
  rw [crlf_unbordered.pieces_append, Pattern.pieces_of_absent filled oneLine,
    Pattern.pieces_of_absent filled oneLine']
  rfl

theorem pieces_fileHeaders (oneLine : ¬ crlf <:+: contentType.toList) :
    pieces crlf (fromUtf8Lossy (encode (fileHeaders contentType.toList (d.format filename).toList))) =
      ["Content-Type: ".toList ++ contentType.toList,
        "Content-Disposition: ".toList ++ (d.format filename).toList] := by
  rw [Utf8.fromUtf8Lossy_encode]
  refine pieces_two (crlf_not_infix_typed oneLine) fun h => ?_
  exact crlf_not_infix_disposition.1 (h.mem (by decide))

theorem splitOnce_typed : splitOnce ':' ("Content-Type: ".toList ++ contentType.toList) =
    some ("Content-Type".toList, ' ' :: contentType.toList) := by
  have label : "Content-Type: ".toList = "Content-Type".toList ++ [':', ' '] := by decide
  rw [label, List.append_assoc]
  exact Decimal.splitOnce_append (by decide)

theorem splitOnce_disposition : splitOnce ':' ("Content-Disposition: ".toList ++ (d.format filename).toList) =
    some ("Content-Disposition".toList, ' ' :: (d.format filename).toList) := by
  have label : "Content-Disposition: ".toList = "Content-Disposition".toList ++ [':', ' '] := by decide
  rw [label, List.append_assoc]
  exact Decimal.splitOnce_append (by decide)

theorem headerValue_type (oneLine : ¬ crlf <:+: contentType.toList) :
    headerValue (encode (fileHeaders contentType.toList (d.format filename).toList)) "content-type" =
      some (String.ofList (trim contentType.toList)) := by
  have own : lineValue "content-type".toList ("Content-Type: ".toList ++ contentType.toList) =
      some (trim contentType.toList) := by
    rw [lineValue, splitOnce_typed]
    exact if_pos (by decide)
  rw [headerValue, pieces_fileHeaders oneLine, List.findSome?_cons, own]
  rfl

theorem headerValue_disposition (oneLine : ¬ crlf <:+: contentType.toList) :
    headerValue (encode (fileHeaders contentType.toList (d.format filename).toList))
      "content-disposition" = some (d.format filename) := by
  have other : lineValue "content-disposition".toList ("Content-Type: ".toList ++ contentType.toList) =
      none := by
    rw [lineValue, splitOnce_typed]
    exact if_neg (by decide)
  have own : lineValue "content-disposition".toList
      ("Content-Disposition: ".toList ++ (d.format filename).toList) =
        some (trim (d.format filename).toList) := by
    rw [lineValue, splitOnce_disposition]
    exact if_pos (by decide)
  rw [headerValue, pieces_fileHeaders oneLine, List.findSome?_cons, other]
  dsimp only
  rw [List.findSome?_cons, own, d.trimmed]
  exact congrArg some String.ofList_toList

theorem trimTrailingCrlf_append : trimTrailingCrlf (file ++ encode crlf) = file := by
  have size : (encode crlf).length = 2 := by decide
  rw [trimTrailingCrlf, if_pos (List.suffix_append _ _), List.length_append, size, Nat.add_sub_cancel,
    List.take_left]

theorem trimTrailingCrlf_prefix : trimTrailingCrlf rest <+: rest := by
  unfold trimTrailingCrlf
  split
  · exact List.take_prefix _ _
  · exact List.prefix_refl _

theorem stripLeadingCrlf_suffix (part : List UInt8) : stripLeadingCrlf part <:+ part := by
  fun_induction stripLeadingCrlf part with
  | case1 bytes ih => exact ih.trans (List.suffix_append [13, 10] bytes)
  | case2 bytes => exact List.suffix_refl bytes

theorem filePart_within (h : filePart d part = some read) : ∃ before headers rest,
    part = before ++ headers ++ encode blank ++ rest ∧
    ¬ encode blank <:+: headers ++ (encode blank).dropLast ∧ read.file <+: rest ∧
    read.contentType = headerValue headers "content-type" ∧
    read.filename = ((headerValue headers "content-disposition").bind d.parse).join := by
  obtain ⟨headers, rest, found, file, typed, named, -⟩ := filePart_eq_some h
  obtain ⟨whole, first⟩ := Pattern.cut_eq_some (by decide) found
  obtain ⟨before, same⟩ := stripLeadingCrlf_suffix part
  refine ⟨before, headers, rest, ?_, first, file ▸ trimTrailingCrlf_prefix, typed, named⟩
  rw [← same, whole]
  simp only [List.append_assoc]

end Parts

/-! ## The round trip -/

structure Carried (d : Disposition) (contentType : String) (file : Bytes) (filename : Option String) :
    Prop where
  file : ¬ encode (boundaryLine boundary) <:+: file
  type : ¬ boundaryLine boundary <:+: contentType.toList
  name : ¬ boundaryLine boundary <:+: (d.format filename).toList
  oneLine : ¬ crlf <:+: contentType.toList
  trimmed : trim contentType.toList = contentType.toList
  notJson : ¬ "application/json".toList <+: contentType.toList

section RoundTrip

variable {d : Disposition} {contentType : String} {file part : Bytes} {filename : Option String}

theorem boundaryLine_ascii : ∀ c ∈ boundaryLine boundary, c.val ≤ 127 :=
  List.all_iff_forall_prop.1 (by decide)

theorem infix_fileHeaders {a b : List Char} (h : boundaryLine boundary <:+: crlf ++ fileHeaders a b) :
    boundaryLine boundary <:+: a ∨ boundaryLine boundary <:+: b := by
  have type : "Content-Type: ".toList = "Content-Type:".toList ++ [' '] := by decide
  have disposition : "Content-Disposition: ".toList = "Content-Disposition:".toList ++ [' '] := by decide
  have free : ¬ boundaryLine boundary <:+: "Content-Type:".toList := by decide
  have free' : ¬ boundaryLine boundary <:+: "Content-Disposition:".toList := by decide
  unfold fileHeaders at h
  rw [type, disposition] at h
  generalize "Content-Type:".toList = label at h free
  generalize "Content-Disposition:".toList = label' at h free'
  have split : crlf ++ (label ++ [' '] ++ a ++ crlf ++ (label' ++ [' '] ++ b)) =
      crlf ++ (label ++ ' ' :: (a ++ '\r' :: (['\n'] ++ (label' ++ ' ' :: b)))) := by
    simp [crlf]
  rw [split] at h
  replace h := Pattern.infix_of_append_disjoint (by decide) (List.all_iff_forall_prop.1 (by decide)) h
  rw [Pattern.infix_append_cons (by decide), Pattern.infix_append_cons (by decide)] at h
  obtain h | h | h := h
  · exact absurd h free
  · exact .inl h
  · replace h := Pattern.infix_of_append_disjoint (by decide) (List.all_iff_forall_prop.1 (by decide)) h
    rw [Pattern.infix_append_cons (by decide)] at h
    exact .inr (h.resolve_left free')

theorem Carried.delimiter_absent (carried : Carried d contentType file filename) :
    ¬ delimiter <:+: writtenPart d contentType file filename := by
  intro h
  have split : writtenPart d contentType file filename =
      encode (crlf ++ fileHeaders contentType.toList (d.format filename).toList) ++
        13 :: ([10, 13, 10] ++ (file ++ 13 :: [10])) := by
    rw [writtenPart, List.append_assoc]
    rfl
  rw [split, Pattern.infix_append_cons (by decide)] at h
  obtain h | h := h
  · exact (infix_fileHeaders (Utf8.infix_of_infix_encode boundaryLine_ascii h)).elim carried.type
      carried.name
  · replace h := Pattern.infix_of_append_disjoint (by decide) (List.all_iff_forall_prop.1 (by decide)) h
    rw [Pattern.infix_append_cons (by decide)] at h
    exact h.elim carried.file (by decide)

theorem Carried.reads (carried : Carried d contentType file filename)
    (inverse : d.parse (d.format filename) = some filename) :
    filePart d (writtenPart d contentType file filename) = some ⟨file, some contentType, filename⟩ := by
  have typed : headerValue (encode (fileHeaders contentType.toList (d.format filename).toList))
      "content-type" = _ := headerValue_type carried.oneLine
  rw [carried.trimmed, String.ofList_toList] at typed
  rw [filePart, cut_written carried.oneLine]
  dsimp only
  rw [typed, headerValue_disposition carried.oneLine, trimTrailingCrlf_append, Option.any_some,
    if_neg (mt List.isPrefixOf_iff_prefix.1 carried.notJson), Option.bind_some, inverse]
  rfl

theorem blank_at {z rest after : Bytes} (all : file.length ≤ rest.length)
    (placed : z ++ ([13, 10, 13, 10] ++ (rest ++ after)) = [13, 10, 13, 10] ++ (file ++ [13, 10])) :
    z = [] ∨ z = [13, 10] := by
  have lengths := congrArg List.length placed
  simp only [List.length_append, List.length_cons, List.length_nil] at lengths
  match z with
  | [] => exact .inl rfl
  | [a] => simp at placed
  | [a, b] => exact .inr (by simp_all)
  | a :: b :: c :: z =>
    simp only [List.length_cons] at lengths
    omega

theorem boundaryLine_not_infix_name {q headers rest before : Bytes}
    (oneLine : ¬ crlf <:+: contentType.toList)
    (mem : q ∈ pieces delimiter (writtenPart d contentType file filename))
    (whole : q = before ++ headers ++ encode blank ++ rest)
    (first : ¬ encode blank <:+: headers ++ (encode blank).dropLast) (all : file.length ≤ rest.length)
    (two : encode crlf <:+: headers) : ¬ boundaryLine boundary <:+: (d.format filename).toList := by
  intro broken
  obtain ⟨free, u, v, part, -⟩ := Pattern.mem_pieces delimiter_unbordered.1 mem
  have early : ¬ encode blank <:+: encode (crlf ++ fileHeaders contentType.toList
      (d.format filename).toList) ++ (encode blank).dropLast := blank_first oneLine
  have within : headers <:+: q := ⟨before, encode blank ++ rest, by simp [whole]⟩
  have lineEnd : encode crlf = [13, 10] := by decide
  have blankLine : encode blank = [13, 10, 13, 10] := by decide
  have noCr : '\r' ∉ "Content-Disposition: ".toList ++ (d.format filename).toList :=
    crlf_not_infix_disposition.1
  rw [writtenPart, whole] at part
  generalize disposed : "Content-Disposition: ".toList ++ (d.format filename).toList = text at noCr
  generalize topped : encode (crlf ++ fileHeaders contentType.toList (d.format filename).toList) = top
    at early part
  have placed : u ++ before ++ headers ++ encode blank ++ (rest ++ v) =
      top ++ encode blank ++ (file ++ encode crlf) := by
    rw [part]
    simp only [List.append_assoc]
  -- the headers end where the written ones do, or a line end later
  obtain ⟨z, ended⟩ := Pattern.prefix_of_first early placed
  have last : headers <:+ top ++ z := ended ▸ List.suffix_append _ _
  rw [← ended, List.append_assoc, List.append_assoc, List.append_assoc, List.append_cancel_left_eq,
    blankLine, lineEnd] at placed
  obtain rfl | rfl := blank_at all placed
  · have tail : encode text <:+ top := by
      rw [← topped, ← disposed]
      exact Utf8.encode_suffix fileHeaders_suffix
    rw [List.append_nil] at last
    obtain shorter | longer := List.suffix_or_suffix_of_suffix last tail
    · have inner := Utf8.infix_of_infix_encode (List.all_iff_forall_prop.1 (by decide))
        (two.trans shorter.isInfix)
      exact noCr (inner.mem (by decide))
    · refine free (List.IsInfix.trans ?_ (longer.isInfix.trans within))
      rw [← disposed]
      exact Utf8.encode_infix (broken.trans (List.suffix_append _ _).isInfix)
  · have atEnd : [13, 10] <:+ headers := by
      refine List.suffix_of_suffix_length_le (List.suffix_append top _) last ?_
      exact lineEnd ▸ two.length_le
    obtain ⟨h, rfl⟩ := atEnd
    rw [blankLine] at first
    exact first ⟨h, [13], by simp⟩

theorem carried_of_read {read : MediaFile}
    (h : parseMultipartFile d multipartType (buildMultipart d contentType file filename) = some read)
    (same : read = ⟨file, some contentType, filename⟩) : Carried d contentType file filename := by
  rw [parseMultipartFile_build] at h
  obtain ⟨q, mem, own⟩ := List.exists_of_findSome?_eq_some h
  rw [List.mem_reverse] at mem
  obtain ⟨-, -, -, -, -, -, notJson⟩ := filePart_eq_some own
  obtain ⟨before, headers, rest, whole, first, inner, typed, named⟩ := filePart_within own
  subst same
  dsimp only at inner typed named
  have free := (Pattern.mem_pieces delimiter_unbordered.1 mem).1
  have within : headers <:+: q := ⟨before, encode blank ++ rest, by simp [whole]⟩
  obtain ⟨part, oneLine, trimmed⟩ := headerValue_spec typed.symm
  refine ⟨fun broken => free ?_, fun broken => free ?_, fun broken => ?_, oneLine, trimmed,
    notJson contentType rfl⟩
  · refine broken.trans (inner.isInfix.trans ?_)
    rw [whole]
    exact (List.suffix_append _ rest).isInfix
  · exact (Utf8.infix_of_infix_lossy boundaryLine_ascii (broken.trans part)).trans within
  · cases filename with
    | none =>
      rw [d.format_none] at broken
      exact absurd broken (by decide)
    | some name =>
      obtain ⟨value, disposition⟩ : ∃ v, headerValue headers "content-disposition" = some v := by
        rw [← Option.ne_none_iff_exists']
        intro absent
        rw [absent] at named
        cases named
      have two := crlf_infix_of_two typed.symm disposition (by decide)
      exact boundaryLine_not_infix_name oneLine mem whole first inner.length_le two broken

/-- **A file comes back from a federation media body** exactly when neither it nor its type nor its name
has the boundary, its type is not that of JSON, and its type is one trimmed line. -/
theorem multipart_iff (inverse : d.parse (d.format filename) = some filename) :
    parseMultipartFile d multipartType (buildMultipart d contentType file filename) =
      some ⟨file, some contentType, filename⟩ ↔ Carried d contentType file filename := by
  refine ⟨fun h => carried_of_read h rfl, fun carried => ?_⟩
  rw [parseMultipartFile_build,
    Pattern.pieces_of_absent delimiter_unbordered.1 carried.delimiter_absent, List.reverse_singleton,
    List.findSome?_cons, carried.reads inverse]

end RoundTrip

def Disposition.sampleFormat : Option String → String
  | none => "attachment"
  | some name =>
    if name.toList ≠ [] ∧ name.toList.all fun c => c ∈ "abcdefghijklmnopqrstuvwxyz.".toList then
      "attachment; filename=" ++ name
    else "attachment; filename=\"\""

theorem Disposition.sampleFormat_spec (filename : Option String) :
    (∀ c ∈ (sampleFormat filename).toList, c ≠ '\r' ∧ c ≠ '\n') ∧
      trim (sampleFormat filename).toList = (sampleFormat filename).toList := by
  have visible : ∀ c ∈ "abcdefghijklmnopqrstuvwxyz.".toList, isWhiteSpace c = false ∧ c ≠ '\r' ∧ c ≠ '\n' :=
    List.all_iff_forall_prop.1 (by decide)
  have label : ∀ c ∈ "attachment; filename=".toList, c ≠ '\r' ∧ c ≠ '\n' :=
    List.all_iff_forall_prop.1 (by decide)
  unfold sampleFormat
  split
  · exact ⟨List.all_iff_forall_prop.1 (by decide), by decide⟩
  · split
    · rename_i name plain
      obtain ⟨filled, plain⟩ := plain
      replace plain := List.all_iff_forall_prop.1 plain
      rw [String.toList_append]
      refine ⟨fun c mem => ?_, trim_eq_self (fun c mem => ?_) fun c mem => ?_⟩
      · exact (List.mem_append.1 mem).elim (label c) fun own => (visible c (plain c own)).2
      · obtain rfl : 'a' = c := Option.some.inj mem
        decide
      · rw [List.getLast?_append_of_ne_nil _ filled] at mem
        exact (visible c (plain c (List.mem_of_getLast? mem))).1
    · exact ⟨List.all_iff_forall_prop.1 (by decide), by decide⟩

def Disposition.sample : Disposition where
  format := sampleFormat
  parse text :=
    if text = "attachment" then some none
    else (text.toList.dropPrefix? "attachment; filename=".toList).map fun rest =>
      some (String.ofList (trimQuotes rest))
  format_none := rfl
  oneLine filename := (sampleFormat_spec filename).1
  trimmed filename := (sampleFormat_spec filename).2

theorem multipart_iff_sample : parseMultipartFile .sample multipartType
        (buildMultipart .sample "image/png" [0x89, 80, 78, 71, 13, 10] (some "pic.png")) =
      some ⟨[0x89, 80, 78, 71, 13, 10], some "image/png", some "pic.png"⟩ :=
  (multipart_iff (by decide)).2 ⟨by decide, by decide, by decide, by decide, by decide, by decide⟩

/-- A JSON file is taken for the metadata, and a file with the boundary line in it is cut there. -/
theorem json_file_lost : parseMultipartFile .sample multipartType
        (buildMultipart .sample "application/json" (encode "[1]".toList) none) = none ∧
    parseMultipartFile .sample multipartType
        (buildMultipart .sample "text/plain" (encode "a--saltator-media-boundary".toList) none) =
      some ⟨encode "a".toList, some "text/plain", none⟩ := by
  decide +kernel

end Saltator.Federation
