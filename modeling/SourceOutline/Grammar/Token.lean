import SourceOutline.Syntax.Node

/-! Tokens of Go text. -/
namespace SourceOutline.Grammar

open SourceOutline.Syntax

/-- What a token is. The end of a statement is a line break where one may end, or the end of the text;
`stray` is a run of characters that starts no token. -/
inductive TokenKind where
  | name (text : String)
  | keyword (text : String)
  | literal (kind : String)
  | symbol (text : String)
  | lineEnd
  | stray
  | textEnd
deriving DecidableEq, Repr

structure Span where
  startByte : Nat
  endByte : Nat
  startRow : Nat
  endRow : Nat
deriving Repr, Inhabited

structure Token where
  kind : TokenKind
  span : Span
  comments : List Node := []

def leaf (kind : String) (named : Bool) (span : Span) : Node :=
  { kind := kind, named := named, missing := false, startByte := span.startByte
    endByte := span.endByte, startRow := span.startRow, endRow := span.endRow, field := none
    children := [] }

def keywords : List String :=
  ["break", "case", "chan", "const", "continue", "default", "defer", "else", "fallthrough", "for",
    "func", "go", "goto", "if", "import", "interface", "map", "package", "range", "return", "select",
    "struct", "switch", "type", "var"]

/-- Operators and punctuation, longer ones before those they start with. -/
def symbols : List String :=
  ["<<=", ">>=", "&^=", "...", "&&", "||", "<-", "++", "--", "==", "!=", "<=", ">=", ":=", "+=", "-=",
    "*=", "/=", "%=", "&=", "|=", "^=", "<<", ">>", "&^", "+", "-", "*", "/", "%", "&", "|", "^", "<",
    ">", "=", "!", "(", ")", "[", "]", "\x7b", "\x7d", ",", ";", ".", ":", "~"]

/-- Whether a line break after a token ends a statement. -/
def TokenKind.mayEnd : TokenKind → Bool
  | .name _ => true
  | .literal _ => true
  | .keyword word => ["break", "continue", "fallthrough", "return"].contains word
  | .symbol s => ["++", "--", ")", "]", "\x7d"].contains s
  | _ => false

end SourceOutline.Grammar
