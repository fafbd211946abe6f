import SourceOutline.Decl.TypeText

/-! What an extraction leaves out, and why. -/
namespace SourceOutline

/-- The kind of thing that was left out. -/
inductive Subject where
  | field
  | initializer
  | declaration
  | other (label : String)
deriving DecidableEq, Repr

def Subject.label : Subject → String
  | .field => "field"
  | .initializer => "initializer"
  | .declaration => "declaration"
  | .other label => label

/-- Why something was left out. -/
inductive Reason where
  | embeddedType
  | aliasCycle (name : String)
  | elementType (text : String)
  | pointerToArray
  | pointerToMap
  | pointerTo (text : String)
  | type (shape : String)
  | keylessElement
  | duplicateKey (key : String)
  | indexedLiteral
  | referenceCycle (name : String)
  | unresolved (name : String)
  | compositeType (text : String)
  | initializer (shape : String)
  | other (text : String)
deriving DecidableEq, Repr

def Reason.text : Reason → String
  | .embeddedType => "unsupported embedded type"
  | .aliasCycle name => "cyclic type alias '" ++ name ++ "'"
  | .elementType text => "unsupported element type '" ++ text ++ "'"
  | .pointerToArray => "pointer to array"
  | .pointerToMap => "pointer to map"
  | .pointerTo text => "pointer to '" ++ text ++ "'"
  | .type shape => "unsupported type '" ++ shape ++ "'"
  | .keylessElement => "map element without key"
  | .duplicateKey key => "duplicate map key " ++ key
  | .indexedLiteral => "indexed array/slice literal"
  | .referenceCycle name => "cyclic reference to '" ++ name ++ "'"
  | .unresolved name => "unresolved identifier '" ++ name ++ "'"
  | .compositeType text => "unsupported composite literal '" ++ text ++ "'"
  | .initializer shape => "unsupported initializer '" ++ shape ++ "'"
  | .other text => text

/-- One thing left out of the model, with the line of its declaration. -/
structure Omission where
  subject : Subject
  name : String
  reason : Reason
  line : Int := 0
deriving DecidableEq, Repr

/-- A result together with what was left out on the way to it, in order. -/
structure Noted (α : Type) where
  value : α
  omitted : List Omission := []

namespace Noted

def pure {α : Type} (a : α) : Noted α :=
  { value := a }

def map {α β : Type} (f : α → β) (x : Noted α) : Noted β :=
  { value := f x.value, omitted := x.omitted }

/-- The results of a list of steps, and what they leave out, in order. -/
def collect {α : Type} (xs : List (Noted α)) : Noted (List α) :=
  { value := xs.map (·.value), omitted := xs.flatMap (·.omitted) }

end Noted

end SourceOutline
