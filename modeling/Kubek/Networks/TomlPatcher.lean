/-
  Kubek.Networks.TomlPatcher

  The line based TOML editor of `config/toml-patcher.ts`.

  A line is what `split(/\r?\n/)` leaves, or what an edit puts in: the latter may hold line
  ends of its own (`tomlValue.list`). The regular expressions for a header and for a key are
  functions that take the line apart from the left.
-/

import Kubek.Properties.Restore

namespace Kubek.Toml

open Properties

def DOUBLE_QUOTE : CodeUnit := 0x22
def SINGLE_QUOTE : CodeUnit := 0x27
def DOT : CodeUnit := 0x2E
def OPEN_BRACKET : CodeUnit := 0x5B
def CLOSE_BRACKET : CodeUnit := 0x5D

/-- `/[A-Za-z0-9_-]/`. -/
def isBareUnit (c : CodeUnit) : Bool :=
  (0x41 ≤ c && c ≤ 0x5A) || (0x61 ≤ c && c ≤ 0x7A) || (0x30 ≤ c && c ≤ 0x39) || c == 0x5F ||
    c == 0x2D

/-- The units that `.` does not match. -/
def isTerminator (c : CodeUnit) : Bool := c == LF || c == CR || c == 0x2028 || c == 0x2029

/-! ## `JSON.stringify` of a string -/

def hexDigit (n : Nat) : CodeUnit := UInt16.ofNat (if n < 10 then 0x30 + n else 0x57 + n)

/-- `\uXXXX`. -/
def unicodeEscape (c : CodeUnit) : Text :=
  [BACKSLASH, LETTER_U, hexDigit (c.toNat / 4096), hexDigit (c.toNat / 256 % 16),
    hexDigit (c.toNat / 16 % 16), hexDigit (c.toNat % 16)]

def isLead (c : CodeUnit) : Bool := 0xD800 ≤ c && c ≤ 0xDBFF

def isTrail (c : CodeUnit) : Bool := 0xDC00 ≤ c && c ≤ 0xDFFF

/-- A unit that is no half of a pair. -/
def jsonUnit (c : CodeUnit) : Text :=
  if c = DOUBLE_QUOTE then [BACKSLASH, DOUBLE_QUOTE]
  else if c = BACKSLASH then [BACKSLASH, BACKSLASH]
  else if c = 0x08 then [BACKSLASH, 0x62]
  else if c = TAB then [BACKSLASH, LETTER_T]
  else if c = LF then [BACKSLASH, LETTER_N]
  else if c = FF then [BACKSLASH, LETTER_F]
  else if c = CR then [BACKSLASH, LETTER_R]
  else if c < 0x20 || isLead c || isTrail c then unicodeEscape c
  else [c]

/-- What stands between the quotes; the flag says that the unit is the second half of a pair. -/
def jsonFrom : Bool → Text → Text
  | _, [] => []
  | true, c :: text => c :: jsonFrom false text
  | false, c :: text =>
      if isLead c && text.head?.any isTrail then c :: jsonFrom true text
      else jsonUnit c ++ jsonFrom false text

def jsonBody (text : Text) : Text := jsonFrom false text

def stringify (text : Text) : Text := DOUBLE_QUOTE :: jsonBody text ++ [DOUBLE_QUOTE]

/-! ## Literals -/

namespace TomlValue

def string (value : Text) : Text := stringify value

def bool (value : Bool) : Text := unitsOf (if value then "true" else "false")

def key (key : Text) : Text := if key ≠ [] ∧ key.all isBareUnit then key else stringify key

def list (values : List Text) : Text :=
  if values = [] then unitsOf "[]"
  else
    unitsOf "[\n" ++ joinWith (unitsOf ",\n") (values.map fun v => unitsOf "    " ++ stringify v) ++
      unitsOf "\n]"

end TomlValue

/-! ## Strings and brackets of a line -/

structure ScanState where
  depth : Int
  /-- The quote of the multi-line string that is open. -/
  multiline : Option CodeUnit
  deriving DecidableEq, Repr

def ScanState.start : ScanState := ⟨0, none⟩

/-- Outside of every value. -/
def ScanState.atTop (state : ScanState) : Bool := state.depth == 0 && state.multiline.isNone

/-- Three quotes begin the text. -/
def triple (quote : CodeUnit) (text : Text) : Bool := [quote, quote, quote].isPrefixOf text

/-- The loop of `scan`: so many units are already read, and the quote is of the string that
    the line is in. -/
def scanFrom : Nat → Option CodeUnit → ScanState → Text → ScanState
  | _, _, state, [] => state
  | skip + 1, quote, state, _ :: text => scanFrom skip quote state text
  | 0, some quote, state, c :: text =>
      if c = quote then scanFrom 0 none state text
      else if quote = DOUBLE_QUOTE ∧ c = BACKSLASH then scanFrom 1 (some quote) state text
      else scanFrom 0 (some quote) state text
  | 0, none, ⟨depth, some quote⟩, c :: text =>
      if triple quote (c :: text) then scanFrom 2 none ⟨depth, none⟩ text
      else scanFrom 0 none ⟨depth, some quote⟩ text
  | 0, none, ⟨depth, none⟩, c :: text =>
      if c = HASH then ⟨depth, none⟩
      else if c = DOUBLE_QUOTE ∨ c = SINGLE_QUOTE then
        if triple c (c :: text) then scanFrom 2 none ⟨depth, some c⟩ text
        else scanFrom 0 (some c) ⟨depth, none⟩ text
      else if c = OPEN_BRACKET then scanFrom 0 none ⟨depth + 1, none⟩ text
      else if c = CLOSE_BRACKET then scanFrom 0 none ⟨depth - 1, none⟩ text
      else scanFrom 0 none ⟨depth, none⟩ text

def scan (line : Text) (state : ScanState) : ScanState := scanFrom 0 none state line

/-! ## Headers and keys -/

def isQuote (c : CodeUnit) : Bool := c == DOUBLE_QUOTE || c == SINGLE_QUOTE

def unquote (key : Text) : Text :=
  match trim key with
  | [] => []
  | c :: rest =>
      if isQuote c && rest.getLast?.any isQuote && !rest.dropLast.any isTerminator then
        rest.dropLast
      else c :: rest

def isBracket (c : CodeUnit) : Bool := c == OPEN_BRACKET || c == CLOSE_BRACKET

/-- `/\s*(#.*)?$/`. -/
def isRemark (text : Text) : Bool :=
  match text.dropWhile isTrimmed with
  | [] => true
  | c :: comment => c == HASH && !comment.any isTerminator

/-- The text behind one unit, if it begins with it. -/
def dropUnit (c : CodeUnit) (text : Text) : Text :=
  if text.head? = some c then text.tail else text

/-- `HEADER`: the name between the brackets. -/
def headerOf (line : Text) : Option Text :=
  match line.dropWhile isTrimmed with
  | [] => none
  | c :: text =>
      let inner := dropUnit OPEN_BRACKET text
      let name := inner.takeWhile fun c => !isBracket c
      match inner.dropWhile fun c => !isBracket c with
      | [] => none
      | d :: rest =>
          if c = OPEN_BRACKET ∧ d = CLOSE_BRACKET ∧ name ≠ [] ∧
              isRemark (dropUnit CLOSE_BRACKET rest) then some (unquote name)
          else none

/-- The text up to the quote that ends a basic string, and what follows; none when the line
    ends first. -/
def basicString : Text → Option (Text × Text)
  | [] => none
  | [c] => if c = DOUBLE_QUOTE then some ([], []) else none
  | c :: d :: text =>
      if c = DOUBLE_QUOTE then some ([], d :: text)
      else if c = BACKSLASH then
        if isTerminator d then none
        else (basicString text).map fun found => (c :: d :: found.1, found.2)
      else (basicString (d :: text)).map fun found => (c :: found.1, found.2)

/-- A key with its quotes, and what follows it. -/
def keyToken : Text → Option (Text × Text)
  | [] => none
  | c :: text =>
      if c = DOUBLE_QUOTE then
        (basicString text).map fun found => (c :: found.1 ++ [DOUBLE_QUOTE], found.2)
      else if c = SINGLE_QUOTE then
        match text.dropWhile (· ≠ SINGLE_QUOTE) with
        | [] => none
        | d :: rest => some (c :: text.takeWhile (· ≠ SINGLE_QUOTE) ++ [d], rest)
      else
        let isKey := fun c => isBareUnit c || c == DOT
        if isKey c then some ((c :: text).takeWhile isKey, (c :: text).dropWhile isKey) else none

def keyOf (line : Text) : Option Text :=
  match keyToken (line.dropWhile isTrimmed) with
  | none => none
  | some found =>
      if (found.2.dropWhile isTrimmed).head? = some EQUALS then some (unquote found.1) else none

/-! ## The editor -/

structure Header where
  name : Text
  index : Nat
  deriving DecidableEq, Repr

structure Entry where
  key : Text
  start : Nat
  stop : Nat
  deriving DecidableEq, Repr

def headersFrom : ScanState → Nat → List Text → List Header
  | _, _, [] => []
  | state, index, line :: lines =>
      match if state.atTop then headerOf line else none with
      | some name => ⟨name, index⟩ :: headersFrom state (index + 1) lines
      | none => headersFrom (scan line state) (index + 1) lines

/-- A line that can begin an entry. -/
def isContent (line : Text) : Bool :=
  match trim line with
  | [] => false
  | c :: _ => c != HASH

/-- The loop of `entries`, with the entry that is open. -/
def entriesFrom : ScanState → Option (Text × Nat) → Nat → List Text → List Entry
  | _, _, _, [] => []
  | state, opened, index, line :: lines =>
      let found := if state.atTop && isContent line then keyOf line else none
      let opened := match found with
        | some key => some (key, index)
        | none => opened
      let state := scan line state
      match opened with
      | some (key, start) =>
          if state.atTop then ⟨key, start, index⟩ :: entriesFrom state none (index + 1) lines
          else entriesFrom state opened (index + 1) lines
      | none => entriesFrom state none (index + 1) lines

structure TomlPatcher where
  lines : List Text
  eol : Text
  deriving DecidableEq, Repr

namespace TomlPatcher

def parse (text : Text) : TomlPatcher where
  lines := splitLf text
  eol := if TextSearch.includes [CR, LF] text then [CR, LF] else [LF]

def toText (p : TomlPatcher) : Text := joinWith p.eol p.lines

def headers (p : TomlPatcher) : List Header := headersFrom .start 0 p.lines

def entries (p : TomlPatcher) (start stop : Nat) : List Entry :=
  entriesFrom .start none start ((p.lines.take stop).drop start)

/-- `splice`. -/
def splice (p : TomlPatcher) (start count : Nat) (new : List Text) : TomlPatcher :=
  { p with lines := p.lines.take start ++ new ++ p.lines.drop (start + count) }

/-- The entry of the key among those between two lines, or behind the last of them. -/
def setBetween (p : TomlPatcher) (start stop : Nat) (key line : Text) : TomlPatcher :=
  let entries := p.entries start stop
  match entries.find? fun e => e.key == key with
  | some e => p.splice e.start (e.stop - e.start + 1) [line]
  | none =>
      match entries.getLast? with
      | some e => p.splice (e.stop + 1) 0 [line]
      | none => p.splice start 0 [line]

/-- `${tomlValue.key(key)} = ${literal}`. -/
def entryLine (key literal : Text) : Text := TomlValue.key key ++ unitsOf " = " ++ literal

def setTopLevel (p : TomlPatcher) (key literal : Text) : TomlPatcher :=
  let stop := match p.headers.head? with
    | some header => header.index
    | none => p.lines.length
  p.setBetween 0 stop key (entryLine key literal)

/-- The lines of a table behind its header; none when it is missing. -/
def tableBetween (p : TomlPatcher) (name : Text) : Option (Nat × Nat) :=
  match p.headers.dropWhile fun header => header.name ≠ name with
  | [] => none
  | [header] => some (header.index + 1, p.lines.length)
  | header :: next :: _ => some (header.index + 1, next.index)

/-- Lines that are blank, from the end. -/
def withoutBlanks (lines : List Text) : List Text :=
  (lines.reverse.dropWhile fun line => trim line = []).reverse

def replaceTable (p : TomlPatcher) (name : Text) (body : List Text) : TomlPatcher :=
  match p.tableBetween name with
  | none =>
      { p with
        lines := withoutBlanks p.lines ++ [[], OPEN_BRACKET :: name ++ [CLOSE_BRACKET]] ++ body ++ [[]] }
  | some (start, stop) =>
      let entries := p.entries start stop
      match entries.head?, entries.getLast? with
      | some first, some last => p.splice first.start (last.stop - first.start + 1) body
      | _, _ =>
          let blanks := ((p.lines.take stop).drop start).reverse.takeWhile fun line => trim line = []
          p.splice (stop - blanks.length) 0 body

def setInTable (p : TomlPatcher) (name key literal : Text) : TomlPatcher :=
  match p.tableBetween name with
  | none => p.replaceTable name [entryLine key literal]
  | some (start, stop) => p.setBetween start stop key (entryLine key literal)

end TomlPatcher

end Kubek.Toml
