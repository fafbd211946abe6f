import SourceOutline.Datum.Moment
import SourceOutline.Text.Digit
import SourceOutline.Text.Quoted
import SourceOutline.Text.Utf8

/-! What can be wrong with YAML text. -/
namespace SourceOutline.Yaml

/-- What can be wrong: the text follows no rule, it is no text, or one of its scalars names no value. -/
inductive Fault where
  | malformed (reason : String := "the text follows no rule")
  | undecodable (e : Text.Utf8.DecodeError)
  | character
  | digits (count : Nat)
  | whole (base : Nat) (text : String)
  | decimal (text : String)
  | emptyNumber
  | tooLarge
  | truth (word : String)
  | calendar (fault : CalendarFault)
  | stamp
  | stampOfMapping
deriving DecidableEq, Repr

/-- What is said about a fault. Of a text that is no whole number only the start is shown. -/
def Fault.message : Fault → String
  | .malformed reason => reason
  | .undecodable e => e.message
  | .character => "chr() arg not in range(0x110000)"
  | .digits count =>
    s!"Exceeds the limit ({Text.digitLimit} digits) for integer string conversion: value has {count} " ++
      "digits; use sys.set_int_max_str_digits() to increase the limit"
  | .whole base text =>
    let shown := String.ofList ((Text.quoted text).toList.take 200)
    s!"invalid literal for int() with base {base}: {shown}"
  | .decimal text => s!"could not convert string to float: {Text.quoted text}"
  | .emptyNumber => "string index out of range"
  | .tooLarge => "int too large to convert to float"
  | .truth word => Text.quoted word
  | .calendar fault => fault.message
  | .stamp => "'NoneType' object has no attribute 'groupdict'"
  | .stampOfMapping => "expected string or bytes-like object, got 'list'"

/-- Whether a value is there that cannot be used, other than a word that is not known, a text that has no
such parts, or a number beyond all others. -/
def Fault.isValue : Fault → Bool
  | .truth _ => false
  | .emptyNumber => false
  | .tooLarge => false
  | .stamp => false
  | .stampOfMapping => false
  | _ => true

/-- What is wrong, and how far the text had been read. -/
structure Trouble where
  fault : Fault
  index : Nat
deriving DecidableEq, Repr

end SourceOutline.Yaml
