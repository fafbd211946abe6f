import SourceOutline.Datum.Basic
import SourceOutline.Text.Blank
import SourceOutline.Text.SmallLetters
import SourceOutline.Yaml.Cursor

/-! What plain scalars mean: truth values, numbers, days and moments, nothing, or text. -/
namespace SourceOutline.Yaml

/-- The kinds of scalars that a tag or a plain text can name. -/
inductive ScalarKind where
  | null
  | bool
  | int
  | float
  | timestamp
  | text
  | merge
  | default
  | mark
deriving DecidableEq, Repr

def trueWords : List String :=
  ["yes", "true", "on"]

def falseWords : List String :=
  ["no", "false", "off"]

def spellings (word : String) : List String :=
  match word.toList with
  | [] => []
  | c :: rest =>
    [word, String.ofList (c.toUpper :: rest), String.ofList ((c :: rest).map Char.toUpper)]

def nullTexts : List String :=
  ["", "~"] ++ spellings "null"

def unsigned : List Char → List Char
  | '+' :: rest => rest
  | '-' :: rest => rest
  | cs => cs

/-- Digits and the underscores that group them. -/
def isGrouped (c : Char) : Bool :=
  c.isDigit || c == '_'

/-- An exponent with its sign, or nothing. -/
def isExponent : List Char → Bool
  | [] => true
  | e :: sign :: digits =>
    (e == 'e' || e == 'E') && (sign == '+' || sign == '-') && !digits.isEmpty && digits.all (·.isDigit)
  | _ => false

/-- A part below sixty of a number in base sixty. -/
def isSixtieth : List Char → Bool
  | [d] => d.isDigit
  | [t, d] => '0' ≤ t && t ≤ '5' && d.isDigit
  | _ => false

/-- Parts in base sixty after a colon each. -/
def areSixtieths (cs : List Char) : Bool :=
  match cs.splitOn ':' with
  | [] => false
  | start :: parts => start.isEmpty && !parts.isEmpty && parts.all isSixtieth

/-- A digit first, and then digits and underscores. -/
def startsWithDigit (cs : List Char) : Bool :=
  (cs.head?.map Char.isDigit).getD false

def isFloatText (cs : List Char) : Bool :=
  let body := unsigned cs
  let whole := body.takeWhile isGrouped
  let rest := body.dropWhile isGrouped
  let fraction := rest.drop 1
  let pointed := startsWithDigit body && rest.head? == some '.' &&
    isExponent (fraction.dropWhile isGrouped)
  let leading := cs.head? == some '.' && startsWithDigit (cs.drop 1) &&
    isExponent ((cs.drop 1).dropWhile isGrouped)
  let sixties := rest.takeWhile (· != '.')
  let inSixties := startsWithDigit whole && areSixtieths sixties &&
    rest.contains '.' && ((rest.dropWhile (· != '.')).drop 1).all isGrouped
  let named := (spellings "inf").any (fun w => body == '.' :: w.toList) ||
    [".nan", ".NaN", ".NAN"].contains (String.ofList cs)
  pointed || leading || inSixties || named

/-- Whether a text is a whole number: binary, octal, decimal, in base sixteen or in base sixty. -/
def isIntText (cs : List Char) : Bool :=
  let body := unsigned cs
  match body with
  | '0' :: 'b' :: rest => !rest.isEmpty && rest.all fun c => c == '0' || c == '1' || c == '_'
  | '0' :: 'x' :: rest => !rest.isEmpty && rest.all fun c => isHexDigit c || c == '_'
  | '0' :: rest => rest.all fun c => ('0' ≤ c && c ≤ '7') || c == '_'
  | _ =>
    let rest := body.dropWhile isGrouped
    startsWithDigit body && (rest.isEmpty || areSixtieths rest)

/-! Days and moments -/

/-- A day and perhaps a time as written. -/
structure Stamp where
  year : Nat
  month : Nat
  day : Nat
  wideDay : Bool
  time : Option (Nat × Nat × Nat × Nat × Option Int)

def shortNumber? (cs : List Char) : Option (List Char × List Char) :=
  let digits := (cs.take 2).takeWhile (·.isDigit)
  if digits.isEmpty then none else some (digits, cs.drop digits.length)

def after? (c : Char) : List Char → Option (List Char)
  | d :: rest => if c == d then some rest else none
  | [] => none

/-- Exactly two digits, and the rest. -/
def twoDigits? (cs : List Char) : Option (Nat × List Char) :=
  let digits := (cs.take 2).takeWhile (·.isDigit)
  if digits.length = 2 then some (ofDigits 10 digits, cs.drop 2) else none

/-- The offset of a zone in seconds; nothing is an unknown zone. -/
def zone? (cs : List Char) : Option (Option Int) :=
  match cs.dropWhile fun c => c == ' ' || c == '\t' with
  | [] => if cs.isEmpty then some none else none
  | ['Z'] => some (some 0)
  | sign :: rest =>
    if sign != '+' && sign != '-' then none
    else do
      let (hours, rest) ← shortNumber? rest
      let minutes ← match rest with
        | [] => some 0
        | ':' :: rest => (twoDigits? rest).bind fun (n, rest) => if rest.isEmpty then some n else none
        | _ => none
      let seconds : Int := (ofDigits 10 hours * 60 + minutes) * 60
      return some (if sign == '-' then -seconds else seconds)

/-- The first six digits after a point, as millionths. -/
def millionths (digits : List Char) : Nat :=
  let kept := digits.take 6
  ofDigits 10 (kept ++ List.replicate (6 - kept.length) '0')

def time? (cs : List Char) : Option (Nat × Nat × Nat × Nat × Option Int) := do
  let rest ← match cs with
    | 'T' :: rest => some rest
    | 't' :: rest => some rest
    | c :: _ =>
      if c == ' ' || c == '\t' then some (cs.dropWhile fun c => c == ' ' || c == '\t') else none
    | [] => none
  let (hour, rest) ← shortNumber? rest
  let (minute, rest) ← twoDigits? (← after? ':' rest)
  let (second, rest) ← twoDigits? (← after? ':' rest)
  let (micros, rest) := match rest with
    | '.' :: rest => (millionths (rest.takeWhile (·.isDigit)), rest.dropWhile (·.isDigit))
    | rest => (0, rest)
  let zone ← zone? rest
  return (ofDigits 10 hour, minute, second, micros, zone)

def stamp? (cs : List Char) : Option Stamp := do
  let year := (cs.take 4).takeWhile (·.isDigit)
  if year.length ≠ 4 then none
  else
    let (month, rest) ← shortNumber? (← after? '-' (cs.drop 4))
    let (day, rest) ← shortNumber? (← after? '-' rest)
    let stamp : Stamp :=
      { year := ofDigits 10 year, month := ofDigits 10 month, day := ofDigits 10 day
        wideDay := month.length == 2 && day.length == 2, time := none }
    if rest.isEmpty then return stamp
    else return { stamp with time := some (← time? rest) }

/-- Whether a text is a day or a moment; a day alone has two digits for month and day. -/
def isStampText (cs : List Char) : Bool :=
  match stamp? cs with
  | none => false
  | some stamp => stamp.time.isSome || stamp.wideDay

def lineKind (text : String) : ScalarKind :=
  let cs := text.toList
  if (trueWords ++ falseWords).any (spellings · |>.contains text) then .bool
  else if isFloatText cs then .float
  else if isIntText cs then .int
  else if text == "<<" then .merge
  else if nullTexts.contains text then .null
  else if isStampText cs then .timestamp
  else if text == "=" then .default
  else if ["!", "&", "*"].contains text then .mark
  else .text

/-- A text without the one line break that may end it; a line break alone stays. -/
def withoutLastBreak (cs : List Char) : List Char :=
  if 1 < cs.length && cs.getLast? == some '\n' then cs.dropLast else cs

/-- The kind of a scalar that is resolved; one line break at its end does not count. -/
def plainKind (text : String) : ScalarKind :=
  lineKind (String.ofList (withoutLastBreak text.toList))

/-! Values -/

/-- The digits of a base after the mark it may have. -/
def withoutBaseMark (base : Nat) (cs : List Char) : List Char :=
  match base, cs with
  | 2, '0' :: c :: rest => if c == 'b' || c == 'B' then rest else cs
  | 8, '0' :: c :: rest => if c == 'o' || c == 'O' then rest else cs
  | 16, '0' :: c :: rest => if c == 'x' || c == 'X' then rest else cs
  | _, _ => cs

def isDigitOf (base : Nat) (c : Char) : Bool :=
  c.isAlphanum && digitValue c < base

/-- A whole number in a base, blanks around it and a sign before it allowed. The digits of ten may be of
any script, and of a decimal number there may not be too many. -/
def wholeIn (base : Nat) (cs : List Char) : Except Fault Int :=
  let body := (Text.trim cs).map Text.asciiDigit
  let digits := withoutBaseMark base (unsigned body)
  let count := (digits.takeWhile (isDigitOf base)).length
  if base = 10 && Text.digitLimit < count then .error (.digits count)
  else if digits.isEmpty || !digits.all (isDigitOf base) then .error (.whole base (String.ofList cs))
  else
    let n : Int := ofDigits base digits
    .ok (if body.head? == some '-' then -n else n)

/-- Parts in base sixty, the first one counting most. -/
def wholeInSixties (parts : List (List Char)) : Except Fault Int :=
  parts.foldlM (fun n part => do return n * 60 + (← wholeIn 10 part)) 0

/-- The whole number of a text; underscores do not count. -/
def intValue (text : String) : Except Fault Int :=
  let cs := text.toList.filter (· != '_')
  let sign : Int := if cs.head? == some '-' then -1 else 1
  let body := unsigned cs
  let size := match body with
    | '0' :: 'b' :: rest => wholeIn 2 rest
    | '0' :: 'x' :: rest => wholeIn 16 rest
    | ['0'] => .ok 0
    | '0' :: _ => wholeIn 8 body
    | [] => .error .emptyNumber
    | _ => if body.contains ':' then wholeInSixties (body.splitOn ':') else wholeIn 10 body
  size.map (sign * ·)

/-- `digits · 10 ^ exponent`, rounded to the nearest binary number; exponents beyond every number of
their length are cut. -/
def scientific (digits : List Char) (exponent : Int) : Float :=
  let n := ofDigits 10 digits
  if n = 0 then 0.0
  else if exponent < 0 then
    let down := exponent.natAbs
    if digits.length + 400 < down then 0.0 else Float.ofScientific n true down
  else Float.ofScientific n false (min exponent.natAbs 400)

/-- A decimal with or without point and exponent. -/
def decimal? (cs : List Char) : Option Float :=
  let body := unsigned cs
  let whole := body.takeWhile (·.isDigit)
  let rest := body.dropWhile (·.isDigit)
  let (fraction, rest) := match rest with
    | '.' :: rest => (rest.takeWhile Char.isDigit, rest.dropWhile Char.isDigit)
    | rest => ([], rest)
  let exponent? : Option Int := match rest with
    | [] => some 0
    | e :: rest =>
      let digits := unsigned rest
      if (e == 'e' || e == 'E') && !digits.isEmpty && digits.all (·.isDigit) then
        let n : Int := ofDigits 10 digits
        some (if rest.head? == some '-' then -n else n)
      else none
  if whole.isEmpty && fraction.isEmpty then none
  else exponent?.map fun exponent =>
    let size := scientific (whole ++ fraction) (exponent - fraction.length)
    if cs.head? == some '-' then -size else size

/-- A number with or without a point, or the name of one that is not finite. -/
def floatOf (cs : List Char) : Except Fault Float :=
  let body := (Text.trim cs).map Text.asciiDigit
  let name := String.ofList (unsigned body)
  let signed := fun (x : Float) => if body.head? == some '-' then -x else x
  if name == "inf" || name == "infinity" then .ok (signed (1.0 / 0.0))
  else if name == "nan" then .ok (0.0 / 0.0)
  else match decimal? body with
    | some x => .ok x
    | none => .error (.decimal (String.ofList cs))

/-- The sum of parts in base sixty, the last one first, each weighted and added in turn. -/
def sumInSixties : Float → Nat → List Float → Float
  | sum, _, [] => sum
  | sum, weight, part :: rest => sumInSixties (sum + part * Float.ofNat weight) (weight * 60) rest

/-- The number of parts in base sixty whose weights are all below the greatest number. -/
def sixtiesLimit : Nat := 174

/-- A number without its underscores, in small letters. -/
def floatBody (text : String) : List Char :=
  Text.smallLetters (text.toList.filter (· != '_'))

/-- Whether a text writes the number that is none by its own name. -/
def isNamedNaN (text : String) : Bool :=
  unsigned (floatBody text) == ['.', 'n', 'a', 'n']

/-- The number of a text; underscores and case do not count. -/
def floatValue (text : String) : Except Fault Float :=
  let cs := floatBody text
  let sign : Float := if cs.head? == some '-' then -1.0 else 1.0
  let body := unsigned cs
  if cs.isEmpty then .error .emptyNumber
  else if body == ['.', 'i', 'n', 'f'] then .ok (sign * (1.0 / 0.0))
  else if body == ['.', 'n', 'a', 'n'] then .ok (0.0 / 0.0)
  else if body.contains ':' then do
    let parts ← (body.splitOn ':').mapM floatOf
    if sixtiesLimit < parts.length then throw .tooLarge
    return sign * sumInSixties 0.0 1 parts.reverse
  else (floatOf body).map (sign * ·)

def stampValue (text : String) : Except Fault Datum :=
  match stamp? (withoutLastBreak text.toList) with
  | none => .error .stamp
  | some stamp =>
    let day := Day.of? stamp.year stamp.month stamp.day
    let value := match stamp.time with
      | none => day.map Datum.day
      | some (hour, minute, second, micros, zone) =>
        (Moment.of? day hour minute second micros zone).map Datum.moment
    value.mapError Fault.calendar

def boolValue (text : String) : Except Fault Bool :=
  let word := String.ofList (Text.smallLetters text.toList)
  if trueWords.contains word then .ok true
  else if falseWords.contains word then .ok false
  else .error (.truth word)

end SourceOutline.Yaml
