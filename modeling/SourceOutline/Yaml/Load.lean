import SourceOutline.Readers
import SourceOutline.Text.Feed
import SourceOutline.Yaml.Build

/-!
Values from YAML text. The text is fed in pieces, and each piece is checked when the one before is used up,
so a fault of the text further on does not count before those that come first.
-/
namespace SourceOutline.Yaml

/-- As much of a text as can be read, and why nothing can be read after it unless the text ends there. -/
structure Source where
  chars : List Char := []
  stop : Option Fault := none

def pieceSize : Nat := 4096

/-- The pieces that can be read, the last one first, and why there are no more. -/
def piecesFrom : Nat → Text.Feed → List (List Char) → List (List Char) × Option Fault
  | 0, _, pieces => (pieces, none)
  | fuel + 1, feed, pieces =>
    match feed.take pieceSize with
    | .error e => (pieces, some (.undecodable e))
    | .ok (piece, feed) =>
      if piece.isEmpty then (pieces, none)
      else if piece.all isAllowed then piecesFrom fuel feed (piece :: pieces)
      else (pieces, some .malformed)

/-- The source that octets write. The first two pieces are read at once. -/
def Source.ofOctets (octets : List UInt8) : Source :=
  let first := do
    let feed : Text.Feed := { octets := octets }
    let (a, feed) ← feed.take pieceSize
    let (b, feed) ← feed.take pieceSize
    return (a ++ b, feed)
  match first with
  | .error e => { stop := some (.undecodable e) }
  | .ok (piece, feed) =>
    if piece.all isAllowed then
      let (pieces, stop) := piecesFrom octets.length feed [piece]
      { chars := pieces.reverse.flatten, stop := stop }
    else { stop := some .malformed }

/-! Values -/

/-- Values of nodes that are known in full, each at the number of its node. -/
abbrev Known := Array (Option Datum)

/-- What a node is worth, and whether it holds no collection again. -/
abbrev Unfolded := Datum × Bool

/-- All of some values, and whether none holds a collection again. -/
def joined (items : List Unfolded) : List Datum × Bool :=
  (items.map (·.1), items.all (·.2))

/-- The value of a node inside of the collections `above`. A collection inside of itself is not unfolded
again. `fuel` bounds the depth; no collection is above itself, so the number of nodes is enough. -/
def unfold (made : Array (Option Made)) : Nat → List NodeId → NodeId → StateM Known Unfolded
  | 0, _, _ => return (.null, true)
  | fuel + 1, above, id => do
    match (← get).getD id none with
    | some d => return (d, true)
    | none =>
      let inner := unfold made fuel (id :: above)
      let (d, closed) ← match made.getD id none with
        | none => pure (Datum.null, true)
        | some (.value d) => pure (d, true)
        | some (.list items) =>
          if above.contains id then pure (.again false, false)
          else do
            let (items, closed) := joined (← items.mapM inner)
            pure (.list items, closed)
        | some (.pairs entries) =>
          if above.contains id then pure (.again false, false)
          else do
            let (items, closed) := joined (← entries.mapM fun (key, value) => do
              let (key, a) ← inner key
              let (value, b) ← inner value
              return (.pair key value, a && b))
            pure (.list items, closed)
        | some (.set keys) => pure (.set keys, true)
        | some (.map entries) =>
          if above.contains id then pure (.again true, false)
          else do
            let values ← entries.mapM fun (key, value) => do
              let (value, closed) ← inner value
              return (DatumEntry.mk key value, closed)
            pure (.map (values.map (·.1)), values.all (·.2))
      if closed then modify fun known => known.set! id (some d)
      return (d, closed)

/-- The value of a document. The values in an outermost mapping are each seen for themselves. -/
def Document.value (d : Document) : Except Fault Datum := do
  let made ← d.build
  let fuel := made.size + 1
  let known : Known := Array.replicate made.size none
  match made.getD d.root none with
  | some (.map entries) =>
    let (entries, _) := (entries.mapM fun (key, value) => do
      return DatumEntry.mk key (← unfold made fuel [] value).1 : StateM Known (List DatumEntry)).run known
    return .map entries
  | _ => return ((unfold made fuel [] d.root).run known).1.1

/-- The value that octets write as YAML text; an empty text writes nothing. -/
def load (octets : List UInt8) : Except Fault Datum := do
  let source := Source.ofOctets octets
  match ← documentOf source.chars source.stop with
  | none => return .null
  | some d => d.value

instance : YamlReader := ⟨load⟩

end SourceOutline.Yaml
