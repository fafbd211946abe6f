import SourceOutline.Syntax.Source
import SourceOutline.Text.Blank

/-! Comments: their lines without delimiters, and the block of comments that documents a node. -/
namespace SourceOutline.Comment

open SourceOutline.Syntax

/-- A line of a block comment without its margin: the blanks around it and one leading star. -/
def cleanLine (line : List Char) : List Char :=
  match Text.trim line with
  | '*' :: rest => Text.trimStart rest
  | line => line

def dropOpening : List Char → List Char
  | '/' :: '*' :: rest => rest
  | cs => cs

def dropClosing (cs : List Char) : List Char :=
  match cs.reverse with
  | '/' :: '*' :: rest => rest.reverse
  | _ => cs

/-- The lines of a comment. A line comment has one line, empty or not; of a block comment the empty
lines are left out. -/
def cleanChars (text : List Char) : List (List Char) :=
  match Text.trim text with
  | '/' :: '/' :: rest => [Text.trim rest]
  | cs =>
    (((dropClosing (dropOpening cs)).splitOn '\n').map cleanLine).filter (· ≠ [])

def lines (text : String) : List String :=
  (cleanChars text.toList).map String.ofList

/-- Directives to the Go tools document nothing. -/
def isDirective (text : String) : Bool :=
  "//go:".toList.isPrefixOf text.toList

/-- A comment that follows other text on its first row; `earlier` are the named siblings before it,
the nearest first. -/
def isTrailing (comment : Node) (earlier : List Node) : Bool :=
  match earlier with
  | [] => false
  | previous :: _ => previous.endRow == comment.startRow

/-- The comments directly above a row, the nearest first: no empty row lies between them and none
of them trails other text. -/
def block (row : Nat) : List Node → List Node
  | [] => []
  | n :: earlier =>
    if n.isComment && row ≤ n.endRow + 1 && !isTrailing n earlier then
      n :: block n.startRow earlier
    else []

/-- The text that documents a node at `row` with the named siblings `earlier` before it, the nearest
first. -/
def doc (source : Source) (row : Nat) (earlier : List Node) : Option String :=
  let texts := ((block row earlier).map source.text).filter (!isDirective ·)
  match texts.reverse.flatMap lines with
  | [] => none
  | line :: rest => some ("\n".intercalate (line :: rest))

end SourceOutline.Comment
