import SourceOutline.Files.Resolve

/-! Reading and changing a tree. A change that fails may have made some folders before. -/
namespace SourceOutline.Files

namespace FileTree

def read (t : FileTree) (path : String) : Except FileError ByteArray :=
  match t.entry path with
  | .ok (.file content) => .ok content
  | .ok (.folder _) => .error ⟨.isFolder, path⟩
  | .ok (.link _) => .error ⟨.missing, path⟩
  | .error cause => .error ⟨cause, path⟩

def setAt (t : FileTree) (here : Location) (e : Entry) : FileTree :=
  { t with root := t.root.set here e }

/-- Writes a file, replacing the one that is there. A slash at the end of a path asks for a folder, which
cannot be written. -/
def write (t : FileTree) (path : String) (content : ByteArray) : Except FileError FileTree :=
  if path.endsWith "/" then
    match t.folderOf path with
    | .error cause => .error ⟨cause, path⟩
    | .ok _ => .error ⟨.isFolder, path⟩
  else match t.place true path with
    | .error cause => .error ⟨cause, path⟩
    | .ok (.vacant folder name) => .ok (t.setAt (folder ++ [name]) (.file content))
    | .ok (.found here) =>
      match t.root.get? here with
      | some (.folder _) => .error ⟨.isFolder, path⟩
      | _ => .ok (t.setAt here (.file content))

/-- Puts a new entry where there is none. A link in the last place is an entry too. -/
def create (t : FileTree) (path : String) (e : Entry) : Except FileError FileTree :=
  match t.place false path with
  | .error cause => .error ⟨cause, path⟩
  | .ok (.found _) => .error ⟨.present, path⟩
  | .ok (.vacant folder name) => .ok (t.setAt (folder ++ [name]) e)

def makeFolder (t : FileTree) (path : String) : Except FileError FileTree :=
  t.create path (.folder [])

def makeLink (t : FileTree) (path target : String) : Except FileError FileTree :=
  t.create path (.link target)

def cutLast (path : List Char) : List Char × List Char :=
  let (head, tail) := Path.splitLast path
  (Path.dropSlashes head, tail)

/-- A path cut before its last name, slashes at the end apart. -/
def cutLastName (path : List Char) : List Char × List Char :=
  match cutLast path with
  | (head, []) => cutLast head
  | cut => cut

/-- Makes a folder that may be there already. -/
def ensureFolder (t : FileTree) (path : String) : FileTree × Option FileError :=
  match t.makeFolder path with
  | .ok t => (t, none)
  | .error e => if t.isFolder path then (t, none) else (t, some e)

/-- Makes a folder and those above it, as far as they are not there. `fuel` bounds their number. -/
def makeFoldersWith : Nat → FileTree → List Char → FileTree × Option FileError
  | 0, t, path => t.ensureFolder (String.ofList path)
  | fuel + 1, t, path =>
    let (head, tail) := cutLastName path
    if head.isEmpty || tail.isEmpty || t.has (String.ofList head) then
      t.ensureFolder (String.ofList path)
    else
      match makeFoldersWith fuel t head with
      | (t, some e) =>
        if e.cause = .present then
          if tail = ['.'] then (t, none) else t.ensureFolder (String.ofList path)
        else (t, some e)
      | (t, none) => if tail = ['.'] then (t, none) else t.ensureFolder (String.ofList path)

/-- Makes a folder and those above it, as far as they are not there. -/
def makeFolders (t : FileTree) (path : String) : FileTree × Option FileError :=
  makeFoldersWith path.length t path.toList

end FileTree

end SourceOutline.Files
