import SourceOutline.Yaml.Fault

/-! A place in YAML text, and the classes of characters that its rules speak of. -/
namespace SourceOutline.Yaml

/-- Stands for what follows the last character. -/
def textEnd : Char := Char.ofNat 0

def isBreak (c : Char) : Bool :=
  c == '\n' || c == '\r' || c == '\x85' || c == '\u2028' || c == '\u2029'

def endsLine (c : Char) : Bool :=
  c == textEnd || isBreak c

/-- What ends a word: a line end or a space. -/
def endsWord (c : Char) : Bool :=
  endsLine c || c == ' '

/-- What ends an indicator: a line end, a space or a tab. -/
def endsMark (c : Char) : Bool :=
  endsWord c || c == '\t'

/-- The characters of names in directives, anchors and tag handles. -/
def isNameChar (c : Char) : Bool :=
  c.isAlphanum || c == '-' || c == '_'

def isHexDigit (c : Char) : Bool :=
  c.isDigit || ('a' ≤ c && c ≤ 'f') || ('A' ≤ c && c ≤ 'F')

def digitValue (c : Char) : Nat :=
  if c.isDigit then c.toNat - '0'.toNat
  else if 'a' ≤ c && c ≤ 'z' then c.toNat - 'a'.toNat + 10
  else c.toNat - 'A'.toNat + 10

def ofDigits (base : Nat) (digits : List Char) : Nat :=
  digits.foldl (fun n c => n * base + digitValue c) 0

def isAllowed (c : Char) : Bool :=
  c == '\t' || c == '\n' || c == '\r' || (' ' ≤ c && c ≤ '~') || c == '\x85' ||
    (0xA0 ≤ c.toNat && c.toNat ≤ 0xFFFD) || 0x10000 ≤ c.toNat

structure Cursor where
  rest : List Char
  index : Nat := 0
  line : Nat := 0
  column : Nat := 0

namespace Cursor

def peek (c : Cursor) (k : Nat) : Char :=
  c.rest.getD k textEnd

def next (c : Cursor) : Char :=
  c.rest.headD textEnd

def fail {α : Type} (c : Cursor) (f : Fault) : Except Trouble α :=
  .error ⟨f, c.index⟩

/-- One place further. A byte order mark takes no column. -/
def step (c : Cursor) : Cursor :=
  match c.rest with
  | [] => c
  | ch :: rest =>
    if isBreak ch then { rest := rest, index := c.index + 1, line := c.line + 1, column := 0 }
    else { c with
      rest := rest, index := c.index + 1
      column := if ch == '\ufeff' then c.column else c.column + 1 }

def advance : Nat → Cursor → Cursor
  | 0, c => c
  | n + 1, c => c.step.advance n

/-- The characters up to one that fails the test. -/
def run (p : Char → Bool) (c : Cursor) : List Char :=
  c.rest.takeWhile p

/-- The place after the characters that pass a test. -/
def skip (p : Char → Bool) (c : Cursor) : Cursor :=
  c.advance (c.run p).length

/-- A line break as it counts in a scalar, and the place after it. -/
def lineBreak (c : Cursor) : List Char × Cursor :=
  if c.next == '\u2028' || c.next == '\u2029' then ([c.next], c.step)
  else if isBreak c.next then (['\n'], c.step)
  else ([], c)

/-- Whether a mark of three characters that separates documents stands here. -/
def atSeparator (c : Cursor) : Bool :=
  let mark := c.rest.take 3
  (mark == ['-', '-', '-'] || mark == ['.', '.', '.']) && endsMark (c.peek 3)

end Cursor

end SourceOutline.Yaml
