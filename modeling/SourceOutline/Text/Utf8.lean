/-!
UTF-8 octets read as characters, in two ways: lenient reading puts U+FFFD for each longest piece that
no character can start with, strict reading stops at the first such piece.
-/
namespace SourceOutline.Text.Utf8

inductive Fault where
  | start
  | continuation
  | truncated
deriving DecidableEq, Repr

def Fault.reason : Fault → String
  | .start => "invalid start byte"
  | .continuation => "invalid continuation byte"
  | .truncated => "unexpected end of data"

/-- What follows a first octet: how many octets are still owed, the bounds of the next one, and the
bits the first one contributes. -/
structure Lead where
  owed : Nat
  low : Nat
  high : Nat
  bits : Nat

/-- The role of a first octet; none when it starts no character. -/
def Lead.of? (b : Nat) : Option Lead :=
  if b ≤ 0x7F then some ⟨0, 0x80, 0xBF, b⟩
  else if 0xC2 ≤ b ∧ b ≤ 0xDF then some ⟨1, 0x80, 0xBF, b - 0xC0⟩
  else if b = 0xE0 then some ⟨2, 0xA0, 0xBF, 0⟩
  else if b = 0xED then some ⟨2, 0x80, 0x9F, 0xD⟩
  else if 0xE1 ≤ b ∧ b ≤ 0xEF then some ⟨2, 0x80, 0xBF, b - 0xE0⟩
  else if b = 0xF0 then some ⟨3, 0x90, 0xBF, 0⟩
  else if b = 0xF4 then some ⟨3, 0x80, 0x8F, 4⟩
  else if 0xF1 ≤ b ∧ b ≤ 0xF3 then some ⟨3, 0x80, 0xBF, b - 0xF0⟩
  else none

/-- One character or one fault, with the number of octets after the first that belong to it. -/
structure Piece where
  content : Except Fault Char
  extra : Nat

/-- Reads the owed octets; `taken` counts those read. -/
def tail (owed low high bits taken : Nat) : List UInt8 → Piece
  | [] => match owed with
    | 0 => ⟨.ok (Char.ofNat bits), taken⟩
    | _ + 1 => ⟨.error .truncated, taken⟩
  | b :: rest => match owed with
    | 0 => ⟨.ok (Char.ofNat bits), taken⟩
    | owed + 1 =>
      if low ≤ b.toNat ∧ b.toNat ≤ high then
        tail owed 0x80 0xBF (bits * 64 + (b.toNat - 0x80)) (taken + 1) rest
      else ⟨.error .continuation, taken⟩

def piece (b : UInt8) (rest : List UInt8) : Piece :=
  match Lead.of? b.toNat with
  | none => ⟨.error .start, 0⟩
  | some lead => tail lead.owed lead.low lead.high lead.bits 0 rest

/-- Lenient reading: every faulty piece becomes one U+FFFD. -/
def decode : List UInt8 → List Char
  | [] => []
  | b :: rest =>
    let p := piece b rest
    let c := match p.content with
      | .ok c => c
      | .error _ => '�'
    c :: decode (rest.drop p.extra)
termination_by bytes => bytes.length
decreasing_by simp only [List.length_drop, List.length_cons]; omega

/-- The first fault of a strict reading: its octets `first` to `last` and the reason. -/
structure DecodeError where
  fault : Fault
  first : Nat
  last : Nat
  octet : UInt8
deriving DecidableEq, Repr

def DecodeError.message (e : DecodeError) : String :=
  let hex := fun (n : Nat) => String.ofList (Nat.toDigits 16 n)
  if e.first = e.last then
    let digits := hex e.octet.toNat
    let padded := if digits.length < 2 then "0" ++ digits else digits
    s!"'utf-8' codec can't decode byte 0x{padded} in position {e.first}: {e.fault.reason}"
  else s!"'utf-8' codec can't decode bytes in position {e.first}-{e.last}: {e.fault.reason}"

/-- Strict reading; `offset` is the number of the first octet. -/
def decodeFrom? (offset : Nat) : List UInt8 → Except DecodeError (List Char)
  | [] => .ok []
  | b :: rest =>
    let p := piece b rest
    match p.content with
    | .ok c => (decodeFrom? (offset + 1 + p.extra) (rest.drop p.extra)).map (c :: ·)
    | .error fault => .error ⟨fault, offset, offset + p.extra, b⟩
termination_by bytes => bytes.length
decreasing_by simp only [List.length_drop, List.length_cons]; omega

def decode? (bytes : List UInt8) : Except DecodeError (List Char) :=
  decodeFrom? 0 bytes

/-- Strict reading of a part of a text: the characters, and the octets at the end that more octets may
complete to one. -/
def decodePart (offset : Nat) : List UInt8 → Except DecodeError (List Char × List UInt8)
  | [] => .ok ([], [])
  | b :: rest =>
    let p := piece b rest
    match p.content with
    | .ok c =>
      (decodePart (offset + 1 + p.extra) (rest.drop p.extra)).map fun (cs, left) => (c :: cs, left)
    | .error .truncated => .ok ([], b :: rest)
    | .error fault => .error ⟨fault, offset, offset + p.extra, b⟩
termination_by bytes => bytes.length
decreasing_by simp only [List.length_drop, List.length_cons]; omega

def encode (s : String) : ByteArray :=
  s.toUTF8

end SourceOutline.Text.Utf8
