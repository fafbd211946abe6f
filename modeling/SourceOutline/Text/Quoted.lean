import SourceOutline.Text.Printable
import SourceOutline.Text.Surrogate

/-!
Text in quotes. Single quotes stand around it unless the text itself has some and no double ones; the
quote, the backslash and characters that do not show as themselves are escaped.
-/
namespace SourceOutline.Text

def hexDigits (width n : Nat) : List Char :=
  let digits := Nat.toDigits 16 n
  List.replicate (width - digits.length) '0' ++ digits

/-- An escape by number, as short as the number allows. -/
def numericEscape (n : Nat) : List Char :=
  if n < 0x100 then ['\\', 'x'] ++ hexDigits 2 n
  else if n < 0x10000 then ['\\', 'u'] ++ hexDigits 4 n
  else ['\\', 'U'] ++ hexDigits 8 n

def quotedChar (quote c : Char) : List Char :=
  if c == quote || c == '\\' then ['\\', c]
  else if c == '\n' then ['\\', 'n']
  else if c == '\r' then ['\\', 'r']
  else if c == '\t' then ['\\', 't']
  else if isPrintable c then [c]
  else numericEscape (code c)

def quoteFor (cs : List Char) : Char :=
  if cs.contains '\'' && !cs.contains '"' then '"' else '\''

def quoted (text : String) : String :=
  let quote := quoteFor text.toList
  String.ofList (quote :: text.toList.flatMap (quotedChar quote) ++ [quote])

def EncodeError.message (e : EncodeError) : String :=
  if e.first = e.last then
    s!"'utf-8' codec can't encode character '{String.ofList (numericEscape e.code)}' in position " ++
      s!"{e.first}: surrogates not allowed"
  else
    s!"'utf-8' codec can't encode characters in position {e.first}-{e.last}: surrogates not allowed"

end SourceOutline.Text
