import SourceOutline.Datum.Basic

/-! Severities of log records. -/
namespace SourceOutline.Log

/-- How severe a record is; a greater number is more severe. -/
abbrev Level := Int

namespace Level

def debug : Level := 10
def info : Level := 20
def warning : Level := 30
def error : Level := 40
def critical : Level := 50

/-- The levels with a name, each under the name it is shown by. -/
def named : List (String × Level) :=
  [("CRITICAL", critical), ("ERROR", error), ("WARNING", warning), ("INFO", info), ("DEBUG", debug),
    ("NOTSET", 0)]

def synonyms : List (String × Level) :=
  [("FATAL", critical), ("WARN", warning)]

def name (level : Level) : String :=
  match named.find? (·.2 == level) with
  | some (shown, _) => shown
  | none => s!"Level {level}"

/-- The capital of a letter, as far as a capital letter of ASCII is concerned: the dotless i and the
long s have one too. -/
def capital (c : Char) : Char :=
  if c == 'ı' then 'I' else if c == 'ſ' then 'S' else c.toUpper

/-- The level a name stands for, in any case; a name that is none stands for `info`. -/
def ofName (text : String) : Level :=
  let capitals := String.ofList (text.toList.map capital)
  ((named ++ synonyms).lookup capitals).getD info

/-- The level a value stands for: a number is one, and a text names one. -/
def ofDatum? (d : Datum) : Option Level :=
  match d with
  | .bool _ => d.whole?
  | .int n => some n
  | .text name => some (ofName name)
  | _ => none

/-- What is said about a value that stands for no level. -/
def refused (d : Datum) : String :=
  s!"'{d.kind}' object has no attribute 'upper'"

/-- What is said about a record whose level is no number. -/
def notWhole : String :=
  "level must be an integer"

end Level

end SourceOutline.Log
