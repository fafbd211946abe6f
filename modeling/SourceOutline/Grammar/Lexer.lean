import SourceOutline.Grammar.Token
import SourceOutline.Syntax.Source

/-! Go text as tokens. Octets are read as characters below U+0100; rows are counted as they pass. -/
namespace SourceOutline.Grammar

open SourceOutline.Syntax

def octets (source : Source) : List Char :=
  source.bytes.toList.map fun b => Char.ofNat b.toNat

/-- Letters, the underscore and every octet of a letter beyond ASCII. -/
def isLetter (c : Char) : Bool :=
  c.isAlpha || c == '_' || 0x80 ≤ c.toNat

def isNameChar (c : Char) : Bool :=
  isLetter c || c.isDigit

/-- Blanks between tokens, line breaks apart. -/
def isSpace (c : Char) : Bool :=
  c == ' ' || c == '\t' || c == '\r' || c.toNat == 11 || c.toNat == 12

/-- What a number continues with: digits, letters and points, and a sign right after an exponent
mark. -/
def numberLength (hex : Bool) : List Char → Nat
  | 'e' :: '+' :: rest => if hex then 1 else 2 + numberLength hex rest
  | 'e' :: '-' :: rest => if hex then 1 else 2 + numberLength hex rest
  | 'E' :: '+' :: rest => if hex then 1 else 2 + numberLength hex rest
  | 'E' :: '-' :: rest => if hex then 1 else 2 + numberLength hex rest
  | 'p' :: '+' :: rest => 2 + numberLength hex rest
  | 'p' :: '-' :: rest => 2 + numberLength hex rest
  | 'P' :: '+' :: rest => 2 + numberLength hex rest
  | 'P' :: '-' :: rest => 2 + numberLength hex rest
  | c :: rest => if c.isAlphanum || c == '_' || c == '.' then 1 + numberLength hex rest else 0
  | [] => 0

/-- Whether a number is written in base sixteen. -/
def isHex : List Char → Bool
  | '0' :: 'x' :: _ => true
  | '0' :: 'X' :: _ => true
  | _ => false

/-- The kind of literal a number is: imaginary with an `i` at its end, a fraction with a point or an
exponent, else an integer. -/
def numberKind (digits : List Char) : String :=
  if digits.getLast? == some 'i' then "imaginary_literal"
  else if digits.contains '.' then "float_literal"
  else if isHex digits then
    if digits.contains 'p' || digits.contains 'P' then "float_literal" else "int_literal"
  else if digits.contains 'e' || digits.contains 'E' then "float_literal"
  else "int_literal"

/-- The length of a quoted text after its opening quote, the closing quote included; none when the line
or the text ends first. A backslash keeps the character after it from closing. -/
def quotedLength? (quote : Char) : List Char → Option Nat
  | [] => none
  | '\n' :: _ => none
  | '\\' :: _ :: rest => (quotedLength? quote rest).map (· + 2)
  | c :: rest => if c == quote then some 1 else (quotedLength? quote rest).map (· + 1)

def rawLength? : List Char → Option Nat
  | [] => none
  | c :: rest => if c.toNat == 96 then some 1 else (rawLength? rest).map (· + 1)

def blockLength? : List Char → Option Nat
  | [] => none
  | '*' :: '/' :: _ => some 2
  | _ :: rest => (blockLength? rest).map (· + 1)

inductive Lexeme where
  | lineBreak
  | space
  | comment (length : Nat)
  | token (kind : TokenKind) (length : Nat)

/-- A stray run: characters that start nothing. -/
def strayLength (cs : List Char) : Nat :=
  (cs.takeWhile fun c =>
    !(isNameChar c || isSpace c || c == '\n' || c == '"' || c == '\'' || c.toNat == 96 ||
      symbols.any (·.toList.isPrefixOf [c]))).length

def symbolAt? (cs : List Char) : Option String :=
  symbols.find? (·.toList.isPrefixOf cs)

/-- A quoted literal, or the rest of its line when it is not closed. -/
def quotedLexeme (kind : String) (closed : Option Nat) (rest : List Char) : Lexeme :=
  match closed with
  | some n => .token (.literal kind) (n + 1)
  | none => .token .stray (1 + (rest.takeWhile (· != '\n')).length)

def wordLexeme (cs : List Char) : Lexeme :=
  let text := cs.takeWhile isNameChar
  let word := String.ofList text
  .token (if keywords.contains word then .keyword word else .name word) text.length

def numberLexeme (cs : List Char) : Lexeme :=
  let length := numberLength (isHex cs) cs
  .token (.literal (numberKind (cs.take length))) length

/-- Punctuation, or a run of characters that is none. -/
def symbolLexeme (cs : List Char) : Lexeme :=
  match symbolAt? cs with
  | some s => .token (.symbol s) s.length
  | none => .token .stray (max 1 (strayLength cs))

def lexeme (c : Char) (rest : List Char) : Lexeme :=
  if c == '\n' then .lineBreak
  else if isSpace c then .space
  else if isLetter c then wordLexeme (c :: rest)
  else if c.isDigit then numberLexeme (c :: rest)
  else if c == '"' then quotedLexeme "interpreted_string_literal" (quotedLength? '"' rest) rest
  else if c == '\'' then quotedLexeme "rune_literal" (quotedLength? '\'' rest) rest
  else if c.toNat == 96 then quotedLexeme "raw_string_literal" (rawLength? rest) rest
  else match c, rest with
    | '/', '/' :: tail => .comment (2 + (tail.takeWhile (· != '\n')).length)
    | '/', '*' :: tail =>
      match blockLength? tail with
      | some n => .comment (n + 2)
      | none => .token .stray (2 + tail.length)
    | '.', d :: _ => if d.isDigit then numberLexeme (c :: rest) else symbolLexeme (c :: rest)
    | _, _ => symbolLexeme (c :: rest)

/-- Where the lexer stands, and the comments met since the last token, the latest first. -/
structure Place where
  byte : Nat := 0
  row : Nat := 0
  comments : List Node := []
  mayEnd : Bool := false

def lineBreaks (cs : List Char) : Nat :=
  cs.count '\n'

def Place.span (p : Place) (cs : List Char) : Span :=
  ⟨p.byte, p.byte + cs.length, p.row, p.row + lineBreaks cs⟩

def Place.advance (p : Place) (cs : List Char) : Place :=
  { p with byte := p.byte + cs.length, row := p.row + lineBreaks cs }

def Place.token (p : Place) (kind : TokenKind) (cs : List Char) : Token :=
  { kind := kind, span := p.span cs, comments := p.comments.reverse }

/-- The tokens of a text; `fuel` bounds the number of steps. -/
def tokensFrom : Nat → Place → List Char → List Token
  | 0, p, _ => [p.token .textEnd []]
  | _ + 1, p, [] =>
    if p.mayEnd then [p.token .lineEnd [], { p with comments := [] }.token .textEnd []]
    else [p.token .textEnd []]
  | fuel + 1, p, c :: rest =>
    match lexeme c rest with
    | .lineBreak =>
      let after := p.advance [c]
      if p.mayEnd then
        p.token .lineEnd [c] :: tokensFrom fuel { after with comments := [], mayEnd := false } rest
      else tokensFrom fuel after rest
    | .space => tokensFrom fuel (p.advance [c]) rest
    | .comment n =>
      let text := (c :: rest).take n
      let after := p.advance text
      tokensFrom fuel { after with comments := leaf "comment" true (p.span text) :: p.comments }
        ((c :: rest).drop n)
    | .token kind n =>
      let text := (c :: rest).take n
      let after := p.advance text
      p.token kind text ::
        tokensFrom fuel { after with comments := [], mayEnd := kind.mayEnd } ((c :: rest).drop n)

/-- A byte order mark at the start of a text says nothing. -/
def dropMark : List Char → Nat × List Char
  | 'ï' :: '»' :: '¿' :: rest => (3, rest)
  | cs => (0, cs)

def tokens (source : Source) : List Token :=
  let (skipped, cs) := dropMark (octets source)
  tokensFrom (cs.length + 1) { byte := skipped } cs

end SourceOutline.Grammar
