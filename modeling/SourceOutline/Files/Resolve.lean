import SourceOutline.Files.Tree

/-! Where a path leads: each name in turn, with symbolic links followed. -/
namespace SourceOutline.Files

/-- Where a path leads: to an entry, or to a name that a folder does not have. -/
inductive Place where
  | found (at_ : Location)
  | vacant (folder : Location) (name : String)
deriving DecidableEq, Repr

/-- How far names lead without following a link. -/
inductive Walk where
  | arrived (place : Place)
  | failed (cause : Cause)
  | link (folder : Location) (target : String) (rest : List String)

def names (path : String) : List String :=
  (Text.splitAt '/' path).filter (· ≠ "")

def nameLimit : Nat := 255

/-- The number of octets that a path is too long with. -/
def pathLimit : Nat := 4096

/-- Follows names from a location up to the first link. With `whole` a link in the last place is
followed too. -/
def walk (root : Entry) (whole : Bool) : Location → List String → Walk
  | here, [] => .arrived (.found here)
  | here, name :: rest =>
    match root.get? here with
    | some (.folder items) =>
      if name = "." then walk root whole here rest
      else if name = ".." then walk root whole here.dropLast rest
      else if nameLimit < Text.octetCount name then .failed .longName
      else match items.lookup name with
        | none => if rest.isEmpty then .arrived (.vacant here name) else .failed .missing
        | some (.link target) =>
          if rest.isEmpty && !whole then .arrived (.found (here ++ [name]))
          else .link here target rest
        | some _ => walk root whole (here ++ [name]) rest
    | _ => .failed .notFolder

/-- Follows names from a location through at most `links` links. -/
def resolve (root : Entry) (whole : Bool) : Nat → Location → List String → Except Cause Place
  | links, here, path =>
    match walk root whole here path with
    | .arrived place => .ok place
    | .failed cause => .error cause
    | .link folder target rest =>
      match links with
      | 0 => .error .manyLinks
      | links + 1 =>
        let start := if target.startsWith "/" then [] else folder
        resolve root whole links start (names target ++ rest)

/-- The number of links one path may go through. -/
def linkLimit : Nat := 40

namespace FileTree

/-- Where the names of a path lead, after `keep` has chosen among them. -/
def placeOf (t : FileTree) (whole : Bool) (keep : List String → List String) (path : String) :
    Except Cause Place :=
  if let some e := Text.nameError? path then .error (.surrogates e)
  else if path.contains (Char.ofNat 0) then .error .nullByte
  else if path = "" then .error .missing
  else if pathLimit ≤ Text.octetCount path then .error .longName
  else
    let start := if path.startsWith "/" then [] else names t.cwd
    resolve t.root whole linkLimit start (keep (names path))

def place (t : FileTree) (whole : Bool) (path : String) : Except Cause Place :=
  t.placeOf whole id path

def folderOf (t : FileTree) (path : String) : Except Cause Location := do
  match ← t.placeOf true List.dropLast path with
  | .vacant _ _ => .error .missing
  | .found here =>
    match t.root.get? here with
    | some (.folder _) => .ok here
    | _ => .error .notFolder

def entry (t : FileTree) (path : String) : Except Cause Entry := do
  match ← t.place true path with
  | .vacant _ _ => .error .missing
  | .found here =>
    match t.root.get? here with
    | none => .error .missing
    | some e => if path.endsWith "/" && !e.isFolder then .error .notFolder else .ok e

def has (t : FileTree) (path : String) : Bool :=
  (t.entry path).toBool

def isFile (t : FileTree) (path : String) : Bool :=
  match t.entry path with
  | .ok e => e.isFile
  | .error _ => false

def isFolder (t : FileTree) (path : String) : Bool :=
  match t.entry path with
  | .ok e => e.isFolder
  | .error _ => false

end FileTree

end SourceOutline.Files
