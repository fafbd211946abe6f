import SourceOutline.Text.Blank
import SourceOutline.Text.Utf8

/-!
Text handed out piece by piece. Octets are decoded in chunks, a fault is found when its chunk is, and the
octets of a fault are counted from the start of its chunk. Every line ends in a line feed.
-/
namespace SourceOutline.Text

/-- A text that is partly handed out. -/
structure Feed where
  /-- The octets that are not decoded. -/
  octets : List UInt8
  /-- The octets of a character that is not complete. -/
  held : List UInt8 := []
  /-- Whether a carriage return is kept back, as a line feed may follow. -/
  returnHeld : Bool := false
  /-- The characters that are not handed out. -/
  ready : List Char := []
  /-- The octets and the characters of the last chunk. -/
  chunkOctets : Nat := 0
  chunkChars : Nat := 0

namespace Feed

def leastChunk : Nat := 8192

/-- The octets to decode when some characters are asked for: as many as the last chunk had for as many
characters. -/
def chunkSize (f : Feed) (wanted : Nat) : Nat :=
  max leastChunk (max wanted (f.chunkOctets * wanted / f.chunkChars))

/-- Lines that all end in a line feed, and whether a carriage return at the end is kept back. -/
def unify (final returnHeld : Bool) (cs : List Char) : List Char × Bool :=
  let cs := if returnHeld && (final || !cs.isEmpty) then '\r' :: cs else cs
  if cs.isEmpty then ([], returnHeld && !final)
  else if !final && cs.getLast? == some '\r' then (unifyBreaks cs.dropLast, true)
  else (unifyBreaks cs, false)

/-- Decodes one more chunk; at the end nothing may be kept back. -/
def decodeChunk (wanted : Nat) (f : Feed) : Except Utf8.DecodeError Feed := do
  let size := f.chunkSize wanted
  let chunk := f.octets.take size
  let final := chunk.isEmpty
  let (cs, held) ←
    if final then (Utf8.decode? f.held).map fun cs => (cs, [])
    else Utf8.decodePart 0 (f.held ++ chunk)
  let (cs, returnHeld) := unify final f.returnHeld cs
  return { octets := f.octets.drop size, held, returnHeld, ready := f.ready ++ cs
           chunkOctets := chunk.length, chunkChars := cs.length }

/-- Decodes chunks until there are as many characters as wanted or no more octets. Every chunk but the
last has octets, so their number is fuel enough. -/
def fill (wanted : Nat) : Nat → Feed → Except Utf8.DecodeError Feed
  | 0, f => .ok f
  | fuel + 1, f =>
    let missing := wanted - f.ready.length
    if missing = 0 then .ok f
    else do
      let atEnd := f.octets.isEmpty
      let f ← f.decodeChunk missing
      if atEnd then return f else fill wanted fuel f

/-- Hands out up to `count` characters; none at the end of the text. -/
def take (count : Nat) (f : Feed) : Except Utf8.DecodeError (List Char × Feed) := do
  let f ← fill count (f.octets.length + 1) f
  return (f.ready.take count, { f with ready := f.ready.drop count })

end Feed

end SourceOutline.Text
