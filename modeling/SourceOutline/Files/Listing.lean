import SourceOutline.Files.Resolve

/-! Everything below a folder: files with their contents, and folders that hold nothing. -/
namespace SourceOutline.Files

mutual

/-- What an entry holds, under the path given; links are left out. -/
def listedIn (path : String) : Entry → List (String × Option ByteArray)
  | .folder items => listedAmong path items
  | _ => []

def listedAmong (path : String) : List (String × Entry) → List (String × Option ByteArray)
  | [] => []
  | item :: rest => listedOf path item ++ listedAmong path rest

def listedOf (path : String) : String × Entry → List (String × Option ByteArray)
  | (name, .file content) => [(Path.join path name, some content)]
  | (_, .link _) => []
  | (name, .folder []) => [(Path.join path name ++ "/", none)]
  | (name, .folder (item :: rest)) =>
    listedOf (Path.join path name) item ++ listedAmong (Path.join path name) rest

end

/-- The files and empty folders below a folder, by their paths from there, in increasing order. -/
def FileTree.listing (t : FileTree) (folder : String) : List (String × Option ByteArray) :=
  match t.entry folder with
  | .ok e => (listedIn "" e).mergeSort fun a b => Text.precedes a.1 b.1
  | .error _ => []

end SourceOutline.Files
