/-! The tokens of YAML text. -/
namespace SourceOutline.Yaml

inductive Directive where
  | version (major : Nat)
  | tag (handle start : String)
  | other
deriving DecidableEq, Repr

/-- A tag as written: a suffix, after a handle unless it is complete in itself. -/
structure TagText where
  handle : Option String
  suffix : String
deriving DecidableEq, Repr

/-- A token. Blocks start and end with indentation, flow collections with brackets. -/
inductive Token where
  | directive (d : Directive)
  | documentStart
  | documentEnd
  | textEnd
  | blockSequence
  | blockMapping
  | blockEnd
  | flowSequence
  | flowSequenceEnd
  | flowMapping
  | flowMappingEnd
  | blockEntry
  | flowEntry
  | key
  | value
  | reference (name : String)
  | anchor (name : String)
  | tag (t : TagText)
  | scalar (text : String) (plain : Bool)
deriving DecidableEq, Repr

end SourceOutline.Yaml
