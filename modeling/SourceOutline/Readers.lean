import SourceOutline.Datum.Basic
import SourceOutline.Syntax.Source
import SourceOutline.Yaml.Fault

/-!
What takes texts apart. The program works with any parser of Go and any reader of YAML, and nothing that is
said of it rests on how they work.
-/
namespace SourceOutline

/-- A parser of Go. Every source has a tree, and what is no Go in it stands in the tree too. -/
class GoParser where
  parse : Syntax.Source → Syntax.Node

class YamlReader where
  read : List UInt8 → Except Yaml.Fault Datum

end SourceOutline
