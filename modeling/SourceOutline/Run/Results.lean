import SourceOutline.Files.Access
import SourceOutline.Log.Basic
import SourceOutline.Payload.Render
import SourceOutline.Text.Utf8

/-!
Result files and reports. What goes wrong with a result file is told and does not end a run, unless its
path or its text has no octets at all; a report that cannot be written is a failure.
-/
namespace SourceOutline.Run

open SourceOutline.Files (FileTree FileError)
open SourceOutline.Log (Note Told Level)

def defaultRoot : String := "result"

def resultNote (level : Level) (message : String) : Note :=
  ⟨level, "core.run_artifacts", message⟩

/-- Makes the folder of all results. The answer is whether there is something of that name now. -/
def makeRoot (t : FileTree) (root : String) : Told (Except FileError Bool × FileTree) :=
  match t.makeFolder root with
  | .ok t => { value := (.ok true, t) }
  | .error e =>
    if e.isTextual then { value := (.error e, t) }
    else if e.cause = .present then
      { value := (.ok true, t)
        notes := [resultNote Level.info s!"Skipping folder creation since {root} already exists"] }
    else
      { value := (.ok false, t)
        notes := [resultNote Level.error s!"Could not create result folder {root}: {e.message}"] }

/-- Makes the folder of a package's results, if the package has one. -/
def makePackageFolder (t : FileTree) (root : String) (folders : List String) :
    Told (Except FileError Unit × FileTree) :=
  if folders.isEmpty then { value := (.ok (), t) }
  else
    let folder := Path.joinAll root folders
    match t.makeFolders folder with
    | (t, none) => { value := (.ok (), t) }
    | (t, some e) =>
      if e.isTextual then { value := (.error e, t) }
      else
        { value := (.ok (), t)
          notes := [resultNote Level.error
            s!"Could not create package folder {folder}: {e.message}"] }

/-- Writes a text to a file. Nothing of a text with surrogates gets into the file, but the file is there. -/
def writeText (t : FileTree) (text path : String) : Except FileError Unit × FileTree :=
  match Text.encodeError? text with
  | none =>
    match t.write path (Text.Utf8.encode text) with
    | .ok t => (.ok (), t)
    | .error e => (.error e, t)
  | some surrogates =>
    match t.write path ByteArray.empty with
    | .ok t => (.error ⟨.surrogates surrogates, path⟩, t)
    | .error e => (.error e, t)

/-- Writes a result file in the folder of its package. The answer is whether it was written. -/
def writeResult (t : FileTree) (text path : String) (folders : List String) (root : String) :
    Told (Except FileError Bool × FileTree) :=
  let made := makePackageFolder t root folders
  match made.value with
  | (.error e, t) => { value := (.error e, t), notes := made.notes }
  | (.ok (), t) =>
    match writeText t text path with
    | (.ok (), t) =>
      { value := (.ok true, t)
        notes := made.notes ++
          [resultNote Level.debug s!"Wrote {text.length} characters to {path}"] }
    | (.error e, t) =>
      if e.isTextual then { value := (.error e, t), notes := made.notes }
      else
        { value := (.ok false, t)
          notes := made.notes ++
            [resultNote Level.error s!"Could not write result file {path}: {e.message}"] }

/-- The text of a report: keys in order, in ASCII. The run and the time are added if they are missing. -/
def reportText (timestamp runId : String) (report : List (String × Payload)) : String :=
  let named := Payload.withDefault "run_id" (.text runId) report
  let dated := Payload.withDefault "timestamp_utc" (.text timestamp) named
  (Payload.object dated).sorted.render { ascii := true }

def reportPath (folder runId : String) : String :=
  Path.join folder (runId ++ ".json")

def writeReport (t : FileTree) (timestamp : String) (report : List (String × Payload))
    (runId folder : String) : FileTree × Except FileError String :=
  match t.makeFolders folder with
  | (t, some e) => (t, .error e)
  | (t, none) =>
    let path := reportPath folder runId
    match writeText t (reportText timestamp runId report) path with
    | (.ok (), t) => (t, .ok path)
    | (.error e, t) => (t, .error e)

end SourceOutline.Run
