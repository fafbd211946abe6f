/-!
The shortest decimal that reads back as a binary number. A finite number is `m · 2 ^ q`; the reals that
round to it form an interval, whose ends belong to it when `m` is even. For one digit, two, and so on,
the two neighbours of the number on that decimal grid are tried.
-/
namespace SourceOutline.Number

/-- A decimal `digits · 10 ^ exponent`. -/
structure Decimal where
  digits : Nat
  exponent : Int
deriving DecidableEq, Repr

structure Ratio where
  num : Nat
  den : Nat

namespace Ratio

/-- `n · b ^ e`. -/
def scaled (n b : Nat) (e : Int) : Ratio :=
  match e with
  | .ofNat k => ⟨n * b.pow k, 1⟩
  | .negSucc k => ⟨n, b.pow (k + 1)⟩

def le (x y : Ratio) : Bool :=
  x.num * y.den ≤ y.num * x.den

def lt (x y : Ratio) : Bool :=
  x.num * y.den < y.num * x.den

def dist (x y : Ratio) : Ratio :=
  let a := x.num * y.den
  let b := y.num * x.den
  ⟨(a - b) + (b - a), x.den * y.den⟩

/-- The whole number of grid steps `10 ^ e` below a fraction. -/
def steps (x : Ratio) (e : Int) : Nat :=
  match e with
  | .ofNat k => x.num / (x.den * Nat.pow 10 k)
  | .negSucc k => x.num * Nat.pow 10 (k + 1) / x.den

end Ratio

/-- The reals that round to one number. -/
structure Interval where
  low : Ratio
  high : Ratio
  closed : Bool

def Interval.contains (i : Interval) (x : Ratio) : Bool :=
  if i.closed then i.low.le x && x.le i.high else i.low.lt x && x.lt i.high

/-- The decimal exponent of the leading digit. No number of 64 bits lies below
ten to the minus four hundredth. -/
def leadingExponent (x : Ratio) : Int :=
  if x.den ≤ x.num then ((Nat.toDigits 10 (x.num / x.den)).length : Int) - 1
  else
    -((List.range 400).find? fun k => x.den ≤ x.num * Nat.pow 10 (k + 1)).elim 400 fun k => (k : Int) + 1

/-- The better of the two neighbours on one grid, if one of them reads back. Of two the nearer is taken,
and of two equally near ones the even one. -/
def onGrid? (x : Ratio) (i : Interval) (e : Int) : Option Decimal :=
  let lower := x.steps e
  let below := Ratio.scaled lower 10 e
  let above := Ratio.scaled (lower + 1) 10 e
  match i.contains below, i.contains above with
  | true, true =>
    let down := x.dist below
    let up := x.dist above
    if down.lt up || (!up.lt down && lower % 2 == 0) then some ⟨lower, e⟩ else some ⟨lower + 1, e⟩
  | true, false => some ⟨lower, e⟩
  | false, true => some ⟨lower + 1, e⟩
  | false, false => none

/-- The shortest decimal in an interval around a number; seventeen digits are always enough. -/
def shortestIn (x : Ratio) (i : Interval) : Decimal :=
  let lead := leadingExponent x
  ((List.range 17).findSome? fun (n : Nat) => onGrid? x i (lead - n)).getD ⟨0, 0⟩

/-- The shortest decimal of the positive number `m · 2 ^ q`; `narrow` says that the number below is only
half as far away as the number above. -/
def shortest (m : Nat) (q : Int) (narrow : Bool) : Decimal :=
  let interval : Interval :=
    { low := Ratio.scaled (4 * m - if narrow then 1 else 2) 2 (q - 2)
      high := Ratio.scaled (4 * m + 2) 2 (q - 2), closed := m % 2 == 0 }
  shortestIn (Ratio.scaled m 2 q) interval

/-- Where a decimal is written with an exponent, and how. -/
structure DecimalFormat where
  positionalFrom : Int
  positionalBelow : Int
  exponentWidth : Nat

def withoutEndZeros (digits : List Char) : List Char :=
  (digits.reverse.dropWhile (· == '0')).reverse

/-- Digits around a point; `lead` is the exponent of the first one. -/
def positional (digits : List Char) (lead : Int) : List Char :=
  match lead with
  | .ofNat k =>
    let whole := digits.take (k + 1) ++ List.replicate (k + 1 - digits.length) '0'
    let rest := digits.drop (k + 1)
    whole ++ '.' :: if rest.isEmpty then ['0'] else rest
  | .negSucc k => '0' :: '.' :: List.replicate k '0' ++ digits

/-- A decimal as text: positional when the exponent of its first digit is in the format's range, with
at least one digit after the point, and otherwise with a signed exponent. -/
def DecimalFormat.render (f : DecimalFormat) (d : Decimal) : String :=
  let all := Nat.toDigits 10 d.digits
  let lead := d.exponent + all.length - 1
  let digits := withoutEndZeros all
  if d.digits = 0 then "0.0"
  else if f.positionalFrom ≤ lead && lead < f.positionalBelow then
    String.ofList (positional digits lead)
  else
    let exponent := Nat.toDigits 10 lead.natAbs
    let padded := List.replicate (f.exponentWidth - exponent.length) '0' ++ exponent
    let fraction := match digits.drop 1 with
      | [] => []
      | rest => '.' :: rest
    String.ofList (digits.take 1 ++ fraction ++ 'e' :: (if lead < 0 then '-' else '+') :: padded)

/-- Numbers are positional from 0.0001 on and below ten to the sixteenth. -/
def numberFormat : DecimalFormat :=
  { positionalFrom := -4, positionalBelow := 16, exponentWidth := 2 }

/-- A binary number of 64 bits taken apart. A finite one is `m · 2 ^ q`; it is narrow when the number
below is only half as far away as the number above. -/
inductive Unpacked where
  | nan
  | infinite (negative : Bool)
  | finite (negative : Bool) (m : Nat) (q : Int) (narrow : Bool)

def unpack (x : Float) : Unpacked :=
  let bits : Nat := x.toBits.toNat
  let negative := bits / Nat.pow 2 63 == 1
  let exponent : Nat := bits / Nat.pow 2 52 % Nat.pow 2 11
  let fraction : Nat := bits % Nat.pow 2 52
  if exponent = 2047 then
    if fraction = 0 then .infinite negative else .nan
  else if exponent = 0 then .finite negative fraction (-1074) false
  else .finite negative (Nat.pow 2 52 + fraction) ((exponent : Int) - 1075) (fraction == 0 && exponent != 1)

def floatText (x : Float) : String :=
  let sign := fun (negative : Bool) => if negative then "-" else ""
  match unpack x with
  | .nan => "nan"
  | .infinite negative => sign negative ++ "inf"
  | .finite negative m q narrow =>
    sign negative ++ if m = 0 then "0.0" else numberFormat.render (shortest m q narrow)

/-- The whole number a binary number is equal to, if it is one. -/
def whole? (x : Float) : Option Int :=
  match unpack x with
  | .finite negative m q _ =>
    let size : Option Nat := match q with
      | .ofNat k => some (m * Nat.pow 2 k)
      | .negSucc k => if m % Nat.pow 2 (k + 1) = 0 then some (m / Nat.pow 2 (k + 1)) else none
    size.map fun n => if negative then -(n : Int) else n
  | _ => none

end SourceOutline.Number
