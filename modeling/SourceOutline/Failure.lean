import SourceOutline.Files.Tree
import SourceOutline.Settings.Basic
import SourceOutline.Yaml.Fault

/-! Why a piece of work cannot be done. -/
namespace SourceOutline

/-- Why a piece of work cannot be done. -/
inductive Failure where
  | file (e : Files.FileError)
  | fileNotFound (path : String)
  | folderNotFound (path : String)
  | sourceNotFound (path : String)
  | sourceFolderNotFound (path : String)
  | notGo (path : String)
  | noValue (f : Yaml.Fault)
  | settings (c : Settings.Complaint)
  | tooLong

namespace Failure

def message : Failure → String
  | .file e => e.message
  | .fileNotFound path => s!"File not found: {path}"
  | .folderNotFound path => s!"Directory not found: {path}"
  | .sourceNotFound path => s!"Source not found: {path}"
  | .sourceFolderNotFound path => s!"Source directory not found: {path}"
  | .notGo path => s!"File {path} is not a Go source file. Expected one of: " ++ "\x7b'.go'\x7d"
  | .noValue f => f.message
  | .settings c => c.message
  | .tooLong =>
    s!"Exceeds the limit ({Text.digitLimit} digits) for integer string conversion; " ++
      "use sys.set_int_max_str_digits() to increase the limit"

def isMissing : Failure → Bool
  | .file e => e.cause == .missing
  | .fileNotFound _ => true
  | .folderNotFound _ => true
  | .sourceNotFound _ => true
  | .sourceFolderNotFound _ => true
  | _ => false

def isValue : Failure → Bool
  | .file e => e.isTextual
  | .notGo _ => true
  | .noValue f => f.isValue
  | .tooLong => true
  | _ => false

end Failure

end SourceOutline
