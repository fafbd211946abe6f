import SourceOutline.Decl.Basic

/-! The text of a type expression. -/
namespace SourceOutline

/-- An array length in brackets; a missing or empty length leaves them empty. -/
def lengthText : Option String → String
  | none => ""
  | some n => n

/-- Writes a type back as text. Anonymous structs are `struct`, and an uncovered shape without a text
goes by the name of its node. -/
def TypeExpr.text : TypeExpr → String
  | .named name => name
  | .qualified package name => package ++ "." ++ name
  | .pointer target => "*" ++ target.text
  | .array element length => "[" ++ lengthText length ++ "]" ++ element.text
  | .map key value => "map[" ++ key.text ++ "]" ++ value.text
  | .struct _ => "struct"
  | .unsupported shape text => if text = "" then shape else text

end SourceOutline
