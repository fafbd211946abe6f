import SourceOutline.Files.Changes
import SourceOutline.Run.Clock
import SourceOutline.Run.Program

/-!
The command line. Files are read into a tree before the run, and what the run changed in the tree is
stored after it.
-/
namespace SourceOutline.Main

open SourceOutline.Files (Entry FileTree Change Location)
open SourceOutline.Run (Workspace Host Ending)

def pathOf (here : Location) : String :=
  "/" ++ "/".intercalate here

/-- Where a link leads that leads nowhere: no file has such a name. -/
def nowhere : String := "\x00"

def kindOf (metadata : IO IO.FS.Metadata) : IO (Option IO.FS.FileType) := do
  try return some (← metadata).type catch _ => return none

/-- What is stored at a path. A link to a file counts as the file; one to a folder is not entered,
unless it is the path itself. -/
partial def stored (follow : Bool) (path : String) : IO (Option Entry) := do
  let place := (← IO.currentDir) / path
  let isLink := (← kindOf place.symlinkMetadata) == some .symlink
  let some kind ← kindOf place.metadata
    | return if isLink then some (.link nowhere) else none
  try
    match kind with
    | .file => return some (.file (← IO.FS.readBinFile place))
    | .dir =>
      if isLink && !follow then return some (.link (← IO.FS.realPath place).toString)
      let items ← (← place.readDir).toList.filterMapM fun item => do
        return (← stored false (Path.join path item.fileName)).map (item.fileName, ·)
      return some (.folder items)
    | _ => return none
  catch _ => return none

/-- What is stored at a path, without the items of a folder. -/
def storedAlone (path : String) : IO (Option Entry) := do
  if ← ((← IO.currentDir) / path).isDir then return some (.folder []) else stored true path

/-- Puts an entry into a tree, keeping a folder that is there. -/
def keep (t : FileTree) (here : Location) : Option Entry → FileTree
  | none => t
  | some e => if (t.root.get? here).any Entry.isFolder then t else t.setAt here e

/-- Takes what is stored at a path into a tree, with the folders above it. -/
def takeIn (t : FileTree) (path : String) : IO FileTree := do
  let names := Files.names (Path.absolute t.cwd path)
  let mut t := t
  for n in [1:names.length] do
    let here := names.take n
    t := keep t here (← storedAlone (pathOf here))
  match ← stored true (pathOf names) with
  | none => return t
  | some e => return t.setAt names e

def environment : IO Settings.Environment := do
  let names := (Settings.variableStart ++ "STRICT_CONFIG") :: Settings.Key.all.map (·.variable)
  names.filterMapM fun name => do return (← IO.getEnv name).map (name, ·)

def workspace (args : List String) : IO Workspace := do
  let cwd := (← IO.currentDir).toString
  let files ← takeIn ⟨.folder [], cwd⟩ (Path.join cwd Settings.defaultFile)
  let w : Workspace := { files := files, environment := ← environment }
  match w.arguments args with
  | .error _ => return w
  | .ok a =>
    let files ← a.config.toList.foldlM takeIn files
    let folders := match ({ w with files := files }.settingsFor a).1 with
      | .error _ => [a.earlyReportDir]
      | .ok s => [s.sourceDir, s.resultRoot, s.reportDir]
    return { w with files := ← folders.foldlM takeIn files }

/-- The time: when a new file was changed last. -/
def now : IO Moment := do
  let (_, path) ← IO.FS.createTempFile
  let time := (← path.metadata).modified
  IO.FS.removeFile path
  return Moment.ofSeconds time.sec.toNat (time.nsec.toNat / 1000)

/-- A name for a run: twelve hexadecimal digits. -/
def runName : IO String := do
  let bytes ← IO.getRandomBytes 6
  return String.ofList (bytes.toList.flatMap fun b => Text.hexDigits 2 b.toNat)

def store : Change → IO Unit
  | .makeFolder here => IO.FS.createDirAll (pathOf here)
  | .writeFile here content => IO.FS.writeBinFile (pathOf here) content

/-- Says how the program ended; the answer is its exit code. -/
def conclude : Ending → IO UInt32
  | .refused .help => do
    IO.print Run.helpText
    return 0
  | .refused .valueLost => do
    IO.eprint s!"source-outline: {Run.valueLostText}\n"
    return 1
  | .refused (.usage e) => do
    IO.eprint s!"{Run.usageText}source-outline: error: {e.message}\n"
    return 2
  | .exit code => return code.toUInt32
  | .failed f => do
    IO.eprintln f.message
    return 1

end SourceOutline.Main

open SourceOutline in
/-- Runs the program. Scanning is timed by a first pass over the same files. -/
def main (args : List String) : IO UInt32 := do
  let w ← Main.workspace args
  let name ← Main.runName
  let time ← Main.now
  let started ← IO.monoMsNow
  let _ ← IO.lazyPure fun _ => Run.program (.ofClock time 0 fun _ => name) args w
  let host := Run.Host.ofClock (← Main.now) ((← IO.monoMsNow) - started) fun _ => name
  let (ending, done) := Run.program host args w
  (w.files.changes done.files).forM Main.store
  done.log.written.forM fun r => IO.eprint (done.log.text (Run.logTime time) r)
  Main.conclude ending
