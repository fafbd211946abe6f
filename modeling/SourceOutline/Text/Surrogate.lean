/-!
Surrogates, the halves of a pair of units of sixteen bits. A text may name one by its number, but it is
no character, and no octets stand for it. In texts a number of a plane without any characters is in its
place.
-/
namespace SourceOutline.Text

def isSurrogateCode (n : Nat) : Bool :=
  0xD800 ≤ n && n < 0xE000

/-- How far the number in the place of a surrogate is above that of the surrogate. -/
def surrogateShift : Nat := 0xD0000

/-- The character of a number, or the one in the place of the surrogate of that number. -/
def ofCode (n : Nat) : Char :=
  if isSurrogateCode n then Char.ofNat (n + surrogateShift) else Char.ofNat n

/-- Whether a character is in the place of a surrogate. -/
def isSurrogate (c : Char) : Bool :=
  surrogateShift ≤ c.toNat && isSurrogateCode (c.toNat - surrogateShift)

/-- The number of a character, or that of the surrogate in whose place it is. -/
def code (c : Char) : Nat :=
  if isSurrogate c then c.toNat - surrogateShift else c.toNat

/-- Whether a character is in the place of a surrogate that stands for an octet beyond ASCII. -/
def isStrayOctet (c : Char) : Bool :=
  0xDC80 ≤ code c && code c ≤ 0xDCFF

/-- The number of octets that a character takes in the name of a file. -/
def octetsOf (c : Char) : Nat :=
  if isStrayOctet c then 1 else c.utf8Size

def octetCount (text : String) : Nat :=
  text.toList.foldr (fun c count => octetsOf c + count) 0

/-- Surrogates at the places `first` to `last` of a text, for which there are no octets. -/
structure EncodeError where
  first : Nat
  last : Nat
  code : Nat
deriving DecidableEq, Repr

/-- The first run of surrogates from place `i` on. With `strayOctets` those that stand for octets are
left out at the start of a run. -/
def encodeErrorFrom? (strayOctets : Bool) (i : Nat) : List Char → Option EncodeError
  | [] => none
  | c :: rest =>
    if isSurrogate c && !(strayOctets && isStrayOctet c) then
      some ⟨i, i + (rest.takeWhile isSurrogate).length, code c⟩
    else encodeErrorFrom? strayOctets (i + 1) rest

/-- The first surrogates of a text, which keep it from being written as octets. -/
def encodeError? (text : String) : Option EncodeError :=
  encodeErrorFrom? false 0 text.toList

/-- The first surrogates of a text that keep it from being the name of a file. -/
def nameError? (text : String) : Option EncodeError :=
  encodeErrorFrom? true 0 text.toList

/-- Whether characters come before others by their numbers, or are the same. -/
def charsPrecede : List Char → List Char → Bool
  | [], _ => true
  | _ :: _, [] => false
  | a :: as, b :: bs => code a < code b || (code a == code b && charsPrecede as bs)

/-- Whether a text comes before another by the numbers of its characters, or is the same. -/
def precedes (a b : String) : Bool :=
  charsPrecede a.toList b.toList

end SourceOutline.Text
