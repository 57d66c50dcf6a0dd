/-
  Kubek.Properties.Document

  The `.properties` documents of `core/properties/properties-document.ts`.

  A text is the list of its UTF-16 code units, as JavaScript indexes it: an escape
  `\uXXXX` stands for one unit, be it half of a pair or not. The loop of `parse` over the
  physical lines is `readLines`, which carries the entry that a backslash at the end of a
  line has left open.
-/

import Kubek.Lib.JsObject
import Kubek.Lib.TextSearch

namespace Kubek.Properties

open JsMap

abbrev CodeUnit := UInt16

abbrev Text := List CodeUnit

def TAB : CodeUnit := 0x09
def LF : CodeUnit := 0x0A
def FF : CodeUnit := 0x0C
def CR : CodeUnit := 0x0D
def SPACE : CodeUnit := 0x20
def BANG : CodeUnit := 0x21
def HASH : CodeUnit := 0x23
def COLON : CodeUnit := 0x3A
def EQUALS : CodeUnit := 0x3D
def BACKSLASH : CodeUnit := 0x5C
def LETTER_F : CodeUnit := 0x66
def LETTER_N : CodeUnit := 0x6E
def LETTER_R : CodeUnit := 0x72
def LETTER_T : CodeUnit := 0x74
def LETTER_U : CodeUnit := 0x75

/-! ## White space -/

/-- `WHITESPACE`. -/
def isBlank (c : CodeUnit) : Bool := c == SPACE || c == TAB || c == FF

/-- White space and line terminators, as `trimStart` reads them. -/
def isTrimmed (c : CodeUnit) : Bool :=
  let n := c.toNat
  (9 ≤ n && n ≤ 13) || n == 0x20 || n == 0xA0 || n == 0x1680 ||
    (0x2000 ≤ n && n ≤ 0x200A) || n == 0x2028 || n == 0x2029 || n == 0x202F ||
    n == 0x205F || n == 0x3000 || n == 0xFEFF

/-! ## Physical lines -/

/-- `split(/\r\n|\n|\r/)`; the flag says that the unit before was a CR, with which a LF
    makes one line end. -/
def splitFrom : Bool → Text → List Text
  | _, [] => [[]]
  | afterCR, c :: text =>
      if c = LF then
        if afterCR then splitFrom false text else [] :: splitFrom false text
      else if c = CR then [] :: splitFrom true text
      else
        match splitFrom false text with
        | [] => [[c]]
        | line :: rest => (c :: line) :: rest

def splitLines (text : Text) : List Text := splitFrom false text

/-- `parts.join(sep)`. -/
def joinWith (sep : Text) (parts : List Text) : Text := sep.intercalate parts

/-! ## Escapes -/

/-- An odd number of backslashes at the end. -/
def endsWithContinuation (line : Text) : Bool :=
  (line.reverse.takeWhile (· == BACKSLASH)).length % 2 == 1

def hexValue (c : CodeUnit) : Option Nat :=
  let n := c.toNat
  if 0x30 ≤ n ∧ n ≤ 0x39 then some (n - 0x30)
  else if 0x61 ≤ n ∧ n ≤ 0x66 then some (n - 0x61 + 10)
  else if 0x41 ≤ n ∧ n ≤ 0x46 then some (n - 0x41 + 10)
  else none

/-- The unit that four hexadecimal digits name. -/
def hexUnit : Text → Option CodeUnit
  | [a, b, c, d] => do
      let a ← hexValue a
      let b ← hexValue b
      let c ← hexValue c
      let d ← hexValue d
      return UInt16.ofNat (((a * 16 + b) * 16 + c) * 16 + d)
  | _ => none

/-- `ESCAPES[next] ?? next`. -/
def escaped (next : CodeUnit) : CodeUnit :=
  if next = LETTER_T then TAB
  else if next = LETTER_N then LF
  else if next = LETTER_R then CR
  else if next = LETTER_F then FF
  else next

/-- The loop of `unescape`; so many units are already read. -/
def unescapeFrom : Nat → Text → Text
  | _, [] => []
  | skip + 1, _ :: text => unescapeFrom skip text
  | 0, c :: text =>
      if c ≠ BACKSLASH then c :: unescapeFrom 0 text
      else
        match text with
        | [] => []
        | next :: digits =>
            match if next = LETTER_U then hexUnit (digits.take 4) else none with
            | some unit => unit :: unescapeFrom 5 text
            | none => escaped next :: unescapeFrom 1 text

def unescape (text : Text) : Text :=
  if text.contains BACKSLASH then unescapeFrom 0 text else text

/-- `text.replace(/c/g, by)`. -/
def replaceAll (c : CodeUnit) (new : Text) (text : Text) : Text :=
  text.flatMap fun x => if x = c then new else [x]

def escapeCommon (text : Text) : Text :=
  replaceAll FF [BACKSLASH, LETTER_F]
    (replaceAll TAB [BACKSLASH, LETTER_T]
      (replaceAll CR [BACKSLASH, LETTER_R]
        (replaceAll LF [BACKSLASH, LETTER_N]
          (replaceAll BACKSLASH [BACKSLASH, BACKSLASH] text))))

def escapeKey (key : Text) : Text :=
  let text := (escapeCommon key).flatMap fun c =>
    if c = SPACE ∨ c = EQUALS ∨ c = COLON then [BACKSLASH, c] else [c]
  match text with
  | c :: rest => if c = HASH ∨ c = BANG then BACKSLASH :: c :: rest else c :: rest
  | [] => []

/-- Leading spaces would be eaten by the reader, inner ones are kept as is. -/
def escapeValue (value : Text) : Text :=
  match escapeCommon value with
  | c :: rest => if c = SPACE then BACKSLASH :: c :: rest else c :: rest
  | [] => []

/-! ## Entries -/

/-- The line up to the first separator that is not escaped, and the rest. -/
def splitKey : Text → Text × Text
  | [] => ([], [])
  | [c] => if c = EQUALS ∨ c = COLON ∨ isBlank c then ([], [c]) else ([c], [])
  | c :: d :: text =>
      if c = BACKSLASH then
        let found := splitKey text
        (c :: d :: found.1, found.2)
      else if c = EQUALS ∨ c = COLON ∨ isBlank c then ([], c :: d :: text)
      else
        let found := splitKey (d :: text)
        (c :: found.1, found.2)

def skipSeparator : Text → Text
  | c :: text => if c = EQUALS ∨ c = COLON then text else c :: text
  | [] => []

def parseEntry (line : Text) : Text × Text :=
  let found := splitKey line
  (unescape found.1,
    unescape ((skipSeparator (found.2.dropWhile isBlank)).dropWhile isBlank))

/-! ## Documents -/

inductive Line
  | text (raw : Text)
  /-- `raw` is `none` once the entry was changed and has to be serialized again. -/
  | entry (key value : Text) (raw : Option Text)
  deriving DecidableEq

structure PropertiesDocument where
  lines : List Line
  eol : Text
  trailingEol : Bool
  deriving DecidableEq

/-- An entry that goes on: the physical lines so far and the logical line they make. -/
structure Pending where
  rawParts : List Text
  logical : Text

section Read

variable (eol : Text)

def entryOf (p : Pending) : Line :=
  .entry (parseEntry p.logical).1 (parseEntry p.logical).2 (some (joinWith eol p.rawParts))

/-- Close the entry, or wait for the next line. -/
def offer (p : Pending) : List Line × Option Pending :=
  if endsWithContinuation p.logical then ([], some p) else ([entryOf eol p], none)

/-- A blank line or a comment, by what is left of it after `trimStart`. -/
def isNote : Text → Bool
  | [] => true
  | c :: _ => c == HASH || c == BANG

/-- What one physical line adds. -/
def readLine (pending : Option Pending) (line : Text) : List Line × Option Pending :=
  match pending with
  | none =>
      if isNote (line.dropWhile isTrimmed) then ([.text line], none)
      else offer eol ⟨[line], line.dropWhile isTrimmed⟩
  | some p => offer eol ⟨p.rawParts ++ [line], p.logical.dropLast ++ line.dropWhile isBlank⟩

def readLines : Option Pending → List Text → List Line × Option Pending
  | pending, [] => ([], pending)
  | pending, line :: rest =>
      let read := readLine eol pending line
      let more := readLines read.2 rest
      (read.1 ++ more.1, more.2)

/-- An entry that the last line leaves open loses its backslash. -/
def flush : Option Pending → List Line
  | none => []
  | some p => [entryOf eol ⟨p.rawParts, p.logical.dropLast⟩]

end Read

def parse (text : Text) : PropertiesDocument :=
  let eol := if TextSearch.includes [CR, LF] text then [CR, LF] else [LF]
  let physical := splitLines text
  let trailingEol := text == [] || physical.getLast? == some []
  let read := readLines eol none (if trailingEol then physical.dropLast else physical)
  ⟨read.1 ++ flush eol read.2, eol, trailingEol⟩

def Line.written : Line → Text
  | .text raw => raw
  | .entry key value raw => raw.getD (escapeKey key ++ EQUALS :: escapeValue value)

def Line.hasKey (key : Text) : Line → Bool
  | .text _ => false
  | .entry k _ _ => k == key

def Line.value? : Line → Option Text
  | .text _ => none
  | .entry _ value _ => some value

namespace PropertiesDocument

/-- `toString`. -/
def toText (doc : PropertiesDocument) : Text :=
  let body := joinWith doc.eol (doc.lines.map Line.written)
  if doc.trailingEol && doc.lines ≠ [] then body ++ doc.eol else body

/-- The value of `lastEntry`. -/
def get (doc : PropertiesDocument) (key : Text) : Option Text :=
  (doc.lines.reverse.find? (Line.hasKey key)).bind Line.value?

def has (doc : PropertiesDocument) (key : Text) : Bool := (doc.get key).isSome

/-- Effective values, a later duplicate wins. -/
def toRecord (doc : PropertiesDocument) : JsObject Text Text :=
  doc.lines.foldl (fun values line =>
    match line with
    | .text _ => values
    | .entry key value _ => values.set key value) .empty

def keys (doc : PropertiesDocument) : List Text := doc.toRecord.entries.map Prod.fst

/-- Change the last entry of the key. -/
def replaceLast (key value : Text) : List Line → List Line
  | [] => []
  | line :: rest =>
      if rest.any (Line.hasKey key) then line :: replaceLast key value rest
      else if line.hasKey key then .entry key value none :: rest
      else line :: rest

def set (doc : PropertiesDocument) (key value : Text) : PropertiesDocument :=
  match doc.get key with
  | none => { doc with lines := doc.lines ++ [.entry key value none] }
  | some old =>
      if old = value then doc else { doc with lines := replaceLast key value doc.lines }

/-- Removes every entry with the key; was there one? -/
def delete (doc : PropertiesDocument) (key : Text) : Bool × PropertiesDocument :=
  (doc.lines.any (Line.hasKey key),
    { doc with lines := doc.lines.filter fun line => !line.hasKey key })

/-- The entries whose keys the record has not are removed first. -/
def pruned (doc : PropertiesDocument) (record : JsObject Text Text) : PropertiesDocument :=
  (doc.keys.filter fun key => (record.get key).isNone).foldl (fun d key => (d.delete key).2) doc

def assign (doc : PropertiesDocument) (record : JsObject Text Text) : PropertiesDocument :=
  record.entries.foldl (fun d e => d.set e.1 e.2) (doc.pruned record)

end PropertiesDocument

/-- A call on a document. -/
inductive Edit
  | set (key value : Text)
  | delete (key : Text)
  | assign (record : JsObject Text Text)

def PropertiesDocument.apply (doc : PropertiesDocument) : Edit → PropertiesDocument
  | .set key value => doc.set key value
  | .delete key => (doc.delete key).2
  | .assign record => doc.assign record

end Kubek.Properties
