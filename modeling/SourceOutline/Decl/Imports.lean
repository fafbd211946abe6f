import SourceOutline.Decl.Basic
import SourceOutline.Text.Blank

/-! Qualifiers of imports, and the table from qualifiers to paths. -/
namespace SourceOutline

/-- The last component of an import path, trailing slashes apart. -/
def lastComponent (path : List Char) : List Char :=
  ((Text.dropEndWhile (· == '/') path).splitOn '/').getLast?.getD []

/-- The name by which a file refers to an import: the name it is given, or the last component of its path. -/
def Import.qualifier (i : Import) : String :=
  match i.localName with
  | none => String.ofList (lastComponent i.path.toList)
  | some name => if name = "" then String.ofList (lastComponent i.path.toList) else name

/-- Import paths by qualifier, in the order in which the qualifiers first appear. -/
abbrev ImportTable := List (String × String)

/-- Binds a qualifier. A bound qualifier keeps its place and takes the new path. -/
def ImportTable.bind (table : ImportTable) (qualifier path : String) : ImportTable :=
  if table.any (·.1 == qualifier) then
    table.map fun entry => if entry.1 == qualifier then (qualifier, path) else entry
  else table ++ [(qualifier, path)]

def ImportTable.ofPairs (pairs : List (String × String)) : ImportTable :=
  pairs.foldl (fun table p => ImportTable.bind table p.1 p.2) []

/-- The imports of a file by qualifier; the last import with a qualifier decides its path. -/
def GoFile.importTable (file : GoFile) : ImportTable :=
  ImportTable.ofPairs (file.imports.map fun i => (i.qualifier, i.path))

end SourceOutline
