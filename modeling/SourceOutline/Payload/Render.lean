import SourceOutline.Payload.Basic
import SourceOutline.Text.Quoted

/-!
Payloads as JSON text, one item a line. Inside text the quote, the backslash and control characters are
escaped; on request everything beyond printable ASCII is too, as one or two units of sixteen bits.
-/
namespace SourceOutline.Payload

structure Style where
  ascii : Bool := false
  step : Nat := 2

def unitEscape (n : Nat) : List Char :=
  '\\' :: 'u' :: Text.hexDigits 4 n

/-- A character by number, as a pair of units if it needs one. -/
def charEscape (c : Char) : List Char :=
  let n := Text.code c
  if n < 0x10000 then unitEscape n
  else
    let above := n - 0x10000
    unitEscape (0xD800 + above / 0x400) ++ unitEscape (0xDC00 + above % 0x400)

def renderChar (ascii : Bool) (c : Char) : List Char :=
  if c == '"' then ['\\', '"']
  else if c == '\\' then ['\\', '\\']
  else if c == '\n' then ['\\', 'n']
  else if c == '\r' then ['\\', 'r']
  else if c == '\t' then ['\\', 't']
  else if c.toNat == 8 then ['\\', 'b']
  else if c.toNat == 12 then ['\\', 'f']
  else if c.toNat < 0x20 || (ascii && 0x7e < c.toNat) then charEscape c
  else [c]

def renderText (ascii : Bool) (s : String) : String :=
  String.ofList ('"' :: s.toList.flatMap (renderChar ascii) ++ ['"'])

def lineStart (style : Style) (depth : Nat) : String :=
  String.ofList ('\n' :: List.replicate (style.step * depth) ' ')

mutual

/-- A value whose own lines are indented by `depth` steps. -/
def renderAt (style : Style) (depth : Nat) : Payload → String
  | .null => "null"
  | .bool b => if b then "true" else "false"
  | .int n => toString n
  | .decimal digits => digits
  | .text s => renderText style.ascii s
  | .list [] => "[]"
  | .list (value :: rest) =>
    "[" ++ lineStart style (depth + 1) ++ renderAt style (depth + 1) value ++
      renderItems style (depth + 1) rest ++ lineStart style depth ++ "]"
  | .object [] => "\x7b\x7d"
  | .object (entry :: rest) =>
    "\x7b" ++ lineStart style (depth + 1) ++ renderEntry style (depth + 1) entry ++
      renderEntries style (depth + 1) rest ++ lineStart style depth ++ "\x7d"

def renderItems (style : Style) (depth : Nat) : List Payload → String
  | [] => ""
  | value :: rest =>
    "," ++ lineStart style depth ++ renderAt style depth value ++ renderItems style depth rest

def renderEntries (style : Style) (depth : Nat) : List (String × Payload) → String
  | [] => ""
  | entry :: rest =>
    "," ++ lineStart style depth ++ renderEntry style depth entry ++ renderEntries style depth rest

def renderEntry (style : Style) (depth : Nat) : String × Payload → String
  | (key, value) => renderText style.ascii key ++ ": " ++ renderAt style depth value

end

def render (style : Style) (value : Payload) : String :=
  renderAt style 0 value

end SourceOutline.Payload
