import SourceOutline.Decl.OfSyntax
import SourceOutline.Failure
import SourceOutline.Files.Access
import SourceOutline.Files.Discover
import SourceOutline.Log.Basic
import SourceOutline.Readers
import SourceOutline.Syntax.Errors

/-! Go files read from a tree. -/
namespace SourceOutline.Scan

open SourceOutline.Files (FileTree)
open SourceOutline.Log (Note Level)

variable [GoParser]

structure Parsed where
  source : Syntax.Source
  root : Syntax.Node

def Parsed.size (p : Parsed) : Nat :=
  p.source.bytes.size

def Parsed.errorCount (p : Parsed) : Nat :=
  p.root.errorCount

def parseFile (t : FileTree) (path : String) : Except Files.FileError Parsed :=
  (t.read path).map fun content =>
    let source : Syntax.Source := ⟨content⟩
    { source := source, root := GoParser.parse source }

/-- What is said about a value that is given where the octets of a source are due. -/
def refusedSource (d : Datum) : String :=
  s!"Source must be bytes, got {d.kind}"

def parseNote (level : Level) (message : String) : Note :=
  ⟨level, "scanner.parser", message⟩

/-- The messages about parsing a file; nothing is said about a path that is none. -/
def parseNotes (path : String) : Except Files.FileError Parsed → List Note
  | .error e =>
    if e.isTextual then []
    else
      [parseNote Level.error
        (if e.cause = .missing then s!"Go file not found: {path}"
          else s!"Cannot read Go file {path}: {e.message}")]
  | .ok p =>
    [parseNote Level.debug "Created tree-sitter Go parser"] ++
      (if p.errorCount = 0 then []
        else [parseNote Level.debug s!"Go source of {p.size} bytes parsed with errors"]) ++
      [parseNote Level.debug s!"Parsed {path} ({p.size} bytes)"]

/-- A Go file with the number of places where it is no Go. -/
structure Loaded where
  file : GoFile
  errorCount : Nat

def Parsed.loaded (p : Parsed) (path : String) : Loaded :=
  { file := GoFile.ofSyntax p.source p.root path, errorCount := p.errorCount }

/-- The parsed file at an absolute path, which must be a Go file. -/
def openGo (t : FileTree) (path : String) : Except Failure Parsed :=
  if !t.isFile path then .error (.fileNotFound path)
  else if Path.extension path != Files.goExtension then .error (.notGo path)
  else (parseFile t path).mapError .file

/-- A try to load a file: its absolute path, the path it is reported by, and what came of it. -/
structure Attempt where
  path : String
  shown : String
  opened : Except Failure Parsed

/-- Tries to load a file; its path is reported as seen from the root, or from its own folder. -/
def attempt (t : FileTree) (root? : Option String) (path : String) : Attempt :=
  let path := Path.absolute t.cwd path
  { path := path, shown := Path.reported t.cwd path root?, opened := openGo t path }

def Attempt.loaded (a : Attempt) : Except Failure Loaded :=
  a.opened.map (·.loaded a.shown)

def load (t : FileTree) (root? : Option String) (path : String) : Except Failure Loaded :=
  (attempt t root? path).loaded

/-- What stands for a path that is empty. -/
def shownPath (path : String) : String :=
  if path = "" then "<memory>" else path

def loadedNotes (l : Loaded) : List Note :=
  let package := l.file.package.getD "None"
  (if l.errorCount = 0 then []
    else [⟨Level.warning, "scanner.extractor",
      s!"File {l.file.path} contains syntax errors ({l.errorCount} error nodes)"⟩]) ++
  [⟨Level.debug, "scanner.nodes",
    s!"Built source unit {shownPath l.file.path}: package={package}" ++
      s!" imports={l.file.imports.length} declarations={l.file.decls.length}"⟩]

/-- The messages about a try to load a file. -/
def Attempt.notes (a : Attempt) : List Note :=
  match a.opened with
  | .error (.file e) => parseNotes a.path (.error e)
  | .error _ => []
  | .ok p => parseNotes a.path (.ok p) ++ loadedNotes (p.loaded a.shown)

end SourceOutline.Scan
