import SourceOutline.Files.Resolve

/-!
The Go files below a folder. Hidden folders and some by name are left out, links to folders are not
entered, and test files count only on request.
-/
namespace SourceOutline.Files

def goExtension : String := ".go"

def excludedFolders : List String :=
  ["vendor", "testdata", "node_modules", "result"]

def isEntered (name : String) : Bool :=
  !name.startsWith "." && !excludedFolders.contains name

def isWanted (includeTests : Bool) (name : String) : Bool :=
  Path.extension name == goExtension && (includeTests || !name.endsWith "_test.go")

mutual

/-- The wanted files below an entry, under the path of its folder; `isFolderLink` tells which paths of
links lead to folders. -/
def goFilesIn (isFolderLink : String → Bool) (includeTests : Bool) (path : String) :
    Entry → List String
  | .folder items => goFilesAmong isFolderLink includeTests path items
  | _ => []

def goFilesAmong (isFolderLink : String → Bool) (includeTests : Bool) (path : String) :
    List (String × Entry) → List String
  | [] => []
  | item :: rest =>
    goFilesOf isFolderLink includeTests path item ++
      goFilesAmong isFolderLink includeTests path rest

def goFilesOf (isFolderLink : String → Bool) (includeTests : Bool) (path : String) :
    String × Entry → List String
  | (name, .folder items) =>
    if isEntered name then goFilesAmong isFolderLink includeTests (Path.join path name) items else []
  | (name, .file _) => if isWanted includeTests name then [Path.join path name] else []
  | (name, .link _) =>
    if isWanted includeTests name && !isFolderLink (Path.join path name) then [Path.join path name]
    else []

end

/-- The Go files below a folder given by its absolute path, in increasing order. -/
def FileTree.goFiles (t : FileTree) (includeTests : Bool) (folder : String) : List String :=
  match t.entry folder with
  | .ok e => (goFilesIn t.isFolder includeTests folder e).mergeSort Text.precedes
  | .error _ => []

end SourceOutline.Files
