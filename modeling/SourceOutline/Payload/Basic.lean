import SourceOutline.Number.Shortest
import SourceOutline.Text.Surrogate

/-! Structured output: values whose objects keep the order of their keys. -/
namespace SourceOutline

/-- A value of structured output. A decimal is given by its text. -/
inductive Payload where
  | null
  | bool (b : Bool)
  | int (n : Int)
  | decimal (text : String)
  | text (s : String)
  | list (items : List Payload)
  | object (entries : List (String × Payload))

namespace Payload

instance : Inhabited Payload := ⟨.null⟩

def ofText? : Option String → Payload
  | none => .null
  | some s => .text s

/-- A number. Those that are not finite have names. -/
def ofFloat (x : Float) : Payload :=
  .decimal (if x.isNaN then "NaN"
    else if x.isInf then (if x < 0 then "-Infinity" else "Infinity")
    else Number.floatText x)

/-- An object with one more key, unless the key is there. -/
def withDefault (key : String) (value : Payload) (entries : List (String × Payload)) :
    List (String × Payload) :=
  if (entries.lookup key).isSome then entries else entries ++ [(key, value)]

/-- An object whose key has the given value: in its place if the key is there, else at the end. -/
def withValue (key : String) (value : Payload) :
    List (String × Payload) → List (String × Payload)
  | [] => [(key, value)]
  | entry :: rest =>
    if entry.1 == key then (key, value) :: rest else entry :: withValue key value rest

mutual

/-- The value with the keys of every object in increasing order. -/
def sorted : Payload → Payload
  | .list items => .list (sortedItems items)
  | .object entries => .object ((sortedEntries entries).mergeSort fun a b => Text.precedes a.1 b.1)
  | value => value

def sortedItems : List Payload → List Payload
  | [] => []
  | value :: rest => sorted value :: sortedItems rest

/-- The entries, in the same order, with the keys inside them in order. -/
def sortedEntries : List (String × Payload) → List (String × Payload)
  | [] => []
  | entry :: rest => sortedEntry entry :: sortedEntries rest

/-- An entry with the keys inside it in order. -/
def sortedEntry : String × Payload → String × Payload
  | (key, value) => (key, sorted value)

end

end Payload

end SourceOutline
