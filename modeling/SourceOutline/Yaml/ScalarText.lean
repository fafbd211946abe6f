import SourceOutline.Text.Surrogate
import SourceOutline.Yaml.Cursor

/-!
The texts of scalars. Where a scalar goes over several lines, one line break becomes a space and further
ones stay; a literal block keeps all of them.
-/
namespace SourceOutline.Yaml

/-- One character for a break, or the breaks after it. -/
def folded (first : List Char) (more : List Char) : List Char :=
  if first != ['\n'] then first ++ more else if more.isEmpty then [' '] else more

/-! Plain scalars -/

/-- The length of a plain word: up to a blank, a colon before one, or a flow indicator in a flow
collection. -/
def wordLength (inFlow : Bool) : List Char → Nat
  | [] => 0
  | c :: rest =>
    let next := rest.headD textEnd
    if endsMark c then 0
    else if c == ':' && (endsMark next || (inFlow && ",[]\x7b\x7d".contains next)) then 0
    else if inFlow && ",?[]\x7b\x7d".contains c then 0
    else wordLength inFlow rest + 1

/-- Blank lines and indentation after a line break; none when a document separator stands after one. -/
def plainBreaks : Nat → Cursor → Option (List Char × Cursor)
  | 0, c => some ([], c)
  | fuel + 1, c =>
    if c.next == ' ' then plainBreaks fuel c.step
    else if isBreak c.next then
      let (first, after) := c.lineBreak
      if after.atSeparator then none
      else (plainBreaks fuel after).map fun (more, c) => (first ++ more, c)
    else some ([], c)

/-- What stands between two words of a plain scalar. -/
structure PlainGap where
  text : List Char
  newLine : Bool
  after : Cursor

def plainGap (c : Cursor) : PlainGap :=
  let blanks := c.run (· == ' ')
  let c := c.advance blanks.length
  if isBreak c.next then
    let (first, after) := c.lineBreak
    if after.atSeparator then ⟨[], true, after⟩
    else match plainBreaks after.rest.length after with
      | none => ⟨[], true, after⟩
      | some (more, after) => ⟨folded first more, true, after⟩
  else ⟨blanks, false, c⟩

/-- The words of a plain scalar from `c` on, with the gap before them. The result says whether a line
break came last. -/
def plainFrom (inFlow : Bool) (indent : Int) : Nat → List Char → Bool → Cursor →
    List Char × Bool × Cursor
  | 0, _, newLine, c => ([], newLine, c)
  | fuel + 1, before, newLine, c =>
    let length := if c.next == '#' then 0 else wordLength inFlow c.rest
    if length = 0 then ([], newLine, c)
    else
      let word := c.rest.take length
      let gap := plainGap (c.advance length)
      if gap.text.isEmpty || gap.after.next == '#' || (!inFlow && gap.after.column < indent) then
        (before ++ word, gap.newLine, gap.after)
      else
        let (more, newLine, c) := plainFrom inFlow indent fuel gap.text gap.newLine gap.after
        (before ++ word ++ more, newLine, c)

/-! Scalars in quotes -/

def escapes : List (Char × Char) :=
  [('0', Char.ofNat 0), ('a', '\x07'), ('b', '\x08'), ('t', '\t'), ('\t', '\t'), ('n', '\n'),
    ('v', '\x0b'), ('f', '\x0c'), ('r', '\r'), ('e', '\x1b'), (' ', ' '), ('"', '"'), ('\\', '\\'),
    ('/', '/'), ('N', '\x85'), ('_', '\xa0'), ('L', '\u2028'), ('P', '\u2029')]

/-- How many digits follow the letter of an escape by number. -/
def escapeWidth? : Char → Option Nat
  | 'x' => some 2
  | 'u' => some 4
  | 'U' => some 8
  | _ => none

/-- Blank lines inside quotes, each line's indentation dropped. -/
def quotedBreaks : Nat → Cursor → Except Trouble (List Char × Cursor)
  | 0, c => c.fail .malformed
  | fuel + 1, c =>
    if c.atSeparator then c.fail .malformed
    else
      let c := c.skip fun ch => ch == ' ' || ch == '\t'
      if isBreak c.next then do
        let (first, after) := c.lineBreak
        let (more, c) ← quotedBreaks fuel after
        return (first ++ more, c)
      else return ([], c)

def escapeByNumber (width : Nat) (c : Cursor) : Except Trouble (List Char × Cursor) :=
  let digits := (c.rest.take width).takeWhile isHexDigit
  if digits.length < width then (c.advance digits.length).fail .malformed
  else
    let code := ofDigits 16 digits
    if 0x10FFFF < code then c.fail .character else .ok ([Text.ofCode code], c.advance width)

/-- What a backslash and the characters after it stand for; `c` is the place after the backslash. -/
def escape (c : Cursor) : Except Trouble (List Char × Cursor) :=
  match escapes.lookup c.next, escapeWidth? c.next with
  | some ch, _ => .ok ([ch], c.step)
  | none, some width => escapeByNumber width c.step
  | none, none =>
    if isBreak c.next then
      let after := c.lineBreak.2
      quotedBreaks (after.rest.length + 1) after
    else c.fail .malformed

/-- The blanks inside quotes: a line break among them folds them. -/
def quotedBlanks (c : Cursor) : Except Trouble (List Char × Cursor) :=
  let blanks := c.run fun ch => ch == ' ' || ch == '\t'
  let c := c.advance blanks.length
  if c.rest.isEmpty then c.fail .malformed
  else if isBreak c.next then do
    let (first, after) := c.lineBreak
    let (more, c) ← quotedBreaks (after.rest.length + 1) after
    return (folded first more, c)
  else return (blanks, c)

/-- The rest of a scalar after its opening quote. -/
def quotedFrom (double : Bool) : Nat → Cursor → Except Trouble (List Char × Cursor)
  | 0, c => c.fail .malformed
  | fuel + 1, c => do
    let ch := c.next
    let continueWith := fun (piece : List Char) (c : Cursor) => do
      let (more, c) ← quotedFrom double fuel c
      return (piece ++ more, c)
    if c.rest.isEmpty then c.fail .malformed
    else if double then
      if ch == '"' then return ([], c.step)
      else if ch == '\\' then
        let (piece, c) ← escape c.step
        continueWith piece c
      else if ch == ' ' || ch == '\t' || isBreak ch then
        let (piece, c) ← quotedBlanks c
        continueWith piece c
      else continueWith [ch] c.step
    else if ch == '\'' then
      if c.peek 1 == '\'' then continueWith ['\''] (c.advance 2) else return ([], c.step)
    else if ch == ' ' || ch == '\t' || isBreak ch then
      let (piece, c) ← quotedBlanks c
      continueWith piece c
    else continueWith [ch] c.step

/-! Block scalars -/

/-- What happens to the line breaks at the end of a block. -/
inductive Chomping where
  | strip
  | clip
  | keep
deriving DecidableEq, Repr

/-- The indicators after a block's mark: how it ends, and how deep it is indented. -/
def blockHeader (c : Cursor) : Except Trouble (Chomping × Option Nat × Cursor) := do
  let chomping? := fun (ch : Char) =>
    if ch == '+' then some Chomping.keep else if ch == '-' then some .strip else none
  let depth? := fun (ch : Char) => if ch.isDigit then some (digitValue ch) else none
  let (chomping, depth, c) := match chomping? c.next, depth? c.next with
    | some chomping, _ => match depth? c.step.next with
      | some depth => (chomping, some depth, c.advance 2)
      | none => (chomping, none, c.step)
    | none, some depth => match chomping? c.step.next with
      | some chomping => (chomping, some depth, c.advance 2)
      | none => (Chomping.clip, some depth, c.step)
    | none, none => (Chomping.clip, none, c)
  if depth == some 0 || !endsWord c.next then c.fail .malformed
  else return (chomping, depth, c)

/-- The rest of a line that holds at most a comment. -/
def restOfLine (c : Cursor) : Except Trouble Cursor :=
  let c := c.skip (· == ' ')
  let c := if c.next == '#' then c.skip (!endsLine ·) else c
  if endsLine c.next then .ok c.lineBreak.2 else c.fail .malformed

/-- The blank lines before a block, and the deepest indentation among them and its first line. -/
def blockDepth : Nat → Nat → Cursor → List Char × Nat × Cursor
  | 0, depth, c => ([], depth, c)
  | fuel + 1, depth, c =>
    if c.next == ' ' then blockDepth fuel (max depth c.step.column) c.step
    else if isBreak c.next then
      let (first, after) := c.lineBreak
      let (more, depth, c) := blockDepth fuel depth after
      (first ++ more, depth, c)
    else ([], depth, c)

def skipIndent (depth : Nat) (c : Cursor) : Cursor :=
  c.advance (min (depth - c.column) (c.run (· == ' ')).length)

def blockBreaks (depth : Nat) : Nat → Cursor → List Char × Cursor
  | 0, c => ([], c)
  | fuel + 1, c =>
    let c := skipIndent depth c
    if isBreak c.next then
      let (first, after) := c.lineBreak
      let (more, c) := blockBreaks depth fuel after
      (first ++ more, c)
    else ([], c)

/-- The lines of a block, its last line break, and the breaks after it. -/
def blockLines (fold : Bool) (depth : Nat) : Nat → List Char → Cursor →
    List Char × List Char × List Char × Cursor
  | 0, breaks, c => ([], [], breaks, c)
  | fuel + 1, breaks, c =>
    if c.column != depth || c.rest.isEmpty then ([], [], breaks, c)
    else
      let startsBlank := c.next == ' ' || c.next == '\t'
      let line := c.run (!endsLine ·)
      let (last, after) := (c.advance line.length).lineBreak
      let (more, after) := blockBreaks depth (after.rest.length + 1) after
      if after.column == depth && !after.rest.isEmpty then
        let nextBlank := after.next == ' ' || after.next == '\t'
        let joint :=
          if fold && last == ['\n'] && !startsBlank && !nextBlank then
            if more.isEmpty then [' '] else []
          else last
        let (text, last, rest, c) := blockLines fold depth fuel more after
        (breaks ++ line ++ joint ++ text, last, rest, c)
      else (breaks ++ line, last, more, after)

/-- A block scalar after its mark, inside an indentation. -/
def blockScalar (fold : Bool) (indent : Int) (c : Cursor) : Except Trouble (List Char × Cursor) := do
  let (chomping, depth?, c) ← blockHeader c
  let c ← restOfLine c
  let least := max 1 (indent + 1).toNat
  let fuel := c.rest.length + 1
  let (breaks, depth, c) := match depth? with
    | none =>
      let (breaks, depth, c) := blockDepth fuel 0 c
      (breaks, max least depth, c)
    | some more =>
      let depth := least + more - 1
      let (breaks, c) := blockBreaks depth fuel c
      (breaks, depth, c)
  let (text, last, after, c) := blockLines fold depth fuel breaks c
  let ending := match chomping with
    | .strip => []
    | .clip => last
    | .keep => last ++ after
  return (text ++ ending, c)

end SourceOutline.Yaml
