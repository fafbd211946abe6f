import SourceOutline.Datum.Moment
import SourceOutline.Number.Shortest
import SourceOutline.Text.Digit
import SourceOutline.Text.Quoted

/-!
Values as settings are given: numbers, texts, lists, mappings in the order they are written. A collection
may hold itself; where it stands inside of itself, `again` stands for it.
-/
namespace SourceOutline

mutual

inductive Datum where
  | null
  | bool (b : Bool)
  | int (n : Int)
  | float (x : Float)
  | text (s : String)
  | bytes (octets : List UInt8)
  | day (d : Day)
  | moment (m : Moment)
  | list (items : List Datum)
  | pair (first second : Datum)
  | set (items : List Datum)
  | map (entries : List DatumEntry)
  | again (mapping : Bool)

structure DatumEntry where
  key : Datum
  value : Datum

end

namespace Datum

instance : Inhabited Datum := ⟨.null⟩

def kind : Datum → String
  | .null => "NoneType"
  | .bool _ => "bool"
  | .int _ => "int"
  | .float _ => "float"
  | .text _ => "str"
  | .bytes _ => "bytes"
  | .day _ => "date"
  | .moment _ => "datetime"
  | .list _ => "list"
  | .pair _ _ => "tuple"
  | .set _ => "set"
  | .map _ => "dict"
  | .again mapping => if mapping then "dict" else "list"

def boolText (b : Bool) : String :=
  if b then "True" else "False"

def quotedOctet (quote : Char) (b : UInt8) : List Char :=
  let c := Char.ofNat b.toNat
  if c.toNat < 0x7f then Text.quotedChar quote c else Text.numericEscape b.toNat

def quotedBytes (octets : List UInt8) : String :=
  let quote := Text.quoteFor (octets.map fun b => Char.ofNat b.toNat)
  String.ofList ('b' :: quote :: octets.flatMap (quotedOctet quote) ++ [quote])

mutual

/-- A value as it is shown inside a message, texts in quotes. -/
def quoted : Datum → String
  | .null => "None"
  | .bool b => boolText b
  | .int n => toString n
  | .float x => Number.floatText x
  | .text s => Text.quoted s
  | .bytes octets => quotedBytes octets
  | .day d => d.quoted
  | .moment m => m.quoted
  | .list items => "[" ++ quotedItems items ++ "]"
  | .pair first second => "(" ++ quoted first ++ ", " ++ quoted second ++ ")"
  | .set [] => "set()"
  | .set items => "\x7b" ++ quotedItems items ++ "\x7d"
  | .map entries => "\x7b" ++ quotedEntries entries ++ "\x7d"
  | .again mapping => if mapping then "\x7b...\x7d" else "[...]"

def quotedItems : List Datum → String
  | [] => ""
  | [x] => quoted x
  | x :: rest => quoted x ++ ", " ++ quotedItems rest

/-- Keys and values with commas between the pairs. -/
def quotedEntries : List DatumEntry → String
  | [] => ""
  | [e] => quotedEntry e
  | e :: rest => quotedEntry e ++ ", " ++ quotedEntries rest

def quotedEntry : DatumEntry → String
  | ⟨key, value⟩ => quoted key ++ ": " ++ quoted value

end

/-- Whether a whole number has no more digits than may be shown. -/
def isShort (n : Int) : Bool :=
  n.natAbs < Nat.pow 10 Text.digitLimit

mutual

/-- Whether a value can be shown: no whole number in it is too long. -/
def isShowable : Datum → Bool
  | .int n => isShort n
  | .list items => areShowable items
  | .pair first second => isShowable first && isShowable second
  | .set items => areShowable items
  | .map entries => areEntriesShowable entries
  | _ => true

def areShowable : List Datum → Bool
  | [] => true
  | x :: rest => isShowable x && areShowable rest

def areEntriesShowable : List DatumEntry → Bool
  | [] => true
  | ⟨key, value⟩ :: rest => isShowable key && isShowable value && areEntriesShowable rest

end

def plain : Datum → String
  | .text s => s
  | .day d => d.iso
  | .moment m => m.iso " "
  | other => other.quoted

/-- The whole number a value is equal to, if it is a number; truth values count as zero and one. -/
def whole? : Datum → Option Int
  | .bool b => some (if b then 1 else 0)
  | .int n => some n
  | .float x => Number.whole? x
  | _ => none

/-- Whether two values are the same key of a mapping. Numbers are compared by value, whatever their
kind, and moments by the instant they name; collections are no keys. -/
def sameKey : Datum → Datum → Bool
  | .null, .null => true
  | .text s, .text t => s == t
  | .bytes s, .bytes t => s == t
  | .day d, .day e => d == e
  | .moment m, .moment n => m.sameInstant n
  | x, y =>
    match x.whole?, y.whole? with
    | some m, some n => m == n
    | none, none => match x, y with
      | .float a, .float b => a == b
      | _, _ => false
    | _, _ => false

/-- Whether a value comes before another one, as far as both are whole numbers. -/
def precedes : Datum → Datum → Bool
  | .int m, .int n => m ≤ n
  | _, _ => true

/-- The members of a set: whole numbers in their order, and others as they are given. -/
def members (items : List Datum) : List Datum :=
  if items.all fun | .int _ => true | _ => false then items.mergeSort precedes else items

end Datum

end SourceOutline
