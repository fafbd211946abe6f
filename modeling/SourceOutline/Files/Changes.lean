import SourceOutline.Files.Tree

/-! What has to be stored to bring one tree to another that has grown from it. -/
namespace SourceOutline.Files

/-- A step towards a tree. -/
inductive Change where
  | makeFolder (here : Location)
  | writeFile (here : Location) (content : ByteArray)

/-- The items of an entry; what is no folder has none. -/
def Entry.items : Entry → List (String × Entry)
  | .folder items => items
  | _ => []

/-- The step that makes a folder, unless there was one. -/
def folderChange (here : Location) : Option Entry → List Change
  | some (.folder _) => []
  | _ => [.makeFolder here]

/-- The step that writes a file, unless it had that content. -/
def fileChange (here : Location) (content : ByteArray) : Option Entry → List Change
  | some (.file old) => if old.data = content.data then [] else [.writeFile here content]
  | _ => [.writeFile here content]

mutual

/-- The steps from what was at a location, if anything, to an entry. Folders come before what is in
them. -/
def changesTo (here : Location) (old : Option Entry) : Entry → List Change
  | .file content => fileChange here content old
  | .link _ => []
  | .folder items =>
    folderChange here old ++ changesAmong here ((old.map Entry.items).getD []) items

def changesAmong (here : Location) (old : List (String × Entry)) :
    List (String × Entry) → List Change
  | [] => []
  | item :: rest => changesOf here old item ++ changesAmong here old rest

def changesOf (here : Location) (old : List (String × Entry)) : String × Entry → List Change
  | (name, e) => changesTo (here ++ [name]) (old.lookup name) e

end

def FileTree.changes (old new : FileTree) : List Change :=
  changesTo [] (some old.root) new.root

end SourceOutline.Files
