/-! The model of a scanned file: its structs and its initial values. -/
namespace SourceOutline.Model

/-- What kind of thing an entry or a field holds. -/
inductive Form where
  | const
  | var
  | map
  | slice
  | struct
deriving DecidableEq, Repr, Inhabited

def Form.tag : Form → String
  | .const => "const"
  | .var => "var"
  | .map => "map"
  | .slice => "slice"
  | .struct => "struct"

/-- Where a package-qualified type comes from. The path is absent when the file does not import the
package. -/
structure Origin where
  package : String
  entity : String
  path : Option String := none
deriving DecidableEq, Repr, Inhabited

/-- One field of a struct. Only anonymous structs have sub-fields. -/
structure Field where
  name : String
  kind : String
  tag : String := ""
  doc : Option String := none
  isPointer : Bool := false
  origin : Option Origin := none
  subFields : Option (List Field) := none
  form : Form := .var
deriving Inhabited

structure Struct where
  name : String
  doc : Option String := none
  fields : List Field := []
  line : Int := 0
deriving Inhabited

/-- The initial value of an entry: none, a literal, the items of a slice, or the entries of a map in
order. -/
inductive Value where
  | absent
  | literal (text : String)
  | items (values : List String)
  | entries (pairs : List (String × String))
deriving DecidableEq, Repr, Inhabited

structure Entry where
  name : String
  kind : String
  value : Value := .absent
  doc : Option String := none
  form : Form := .const
  isPointer : Bool := false
  origin : Option Origin := none
deriving DecidableEq, Repr, Inhabited

structure Outline where
  structs : List Struct := []
  entries : List Entry := []
deriving Inhabited

namespace Outline

def append (a b : Outline) : Outline :=
  ⟨a.structs ++ b.structs, a.entries ++ b.entries⟩

def size (o : Outline) : Nat :=
  o.structs.length + o.entries.length

/-- Whether there is neither a struct nor an entry. -/
def isEmpty (o : Outline) : Bool :=
  o.structs.isEmpty && o.entries.isEmpty

def join (os : List Outline) : Outline :=
  os.foldl append {}

end Outline

end SourceOutline.Model
