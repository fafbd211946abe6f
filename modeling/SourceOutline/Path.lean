import SourceOutline.Text.Blank

/-!
Slash-separated paths as text: normal form, joining, the folder and the extension of a path, and the
way from one folder to another. Nothing here looks at a file system.
-/
namespace SourceOutline.Path

/-- The components of a path between its slashes, empty ones included. -/
def components (path : List Char) : List (List Char) :=
  path.splitOn '/'

/-- How many slashes a path keeps at its start: exactly two are kept, more count as one. -/
def leadingSlashes : List Char → Nat
  | '/' :: '/' :: '/' :: _ => 1
  | '/' :: '/' :: _ => 2
  | '/' :: _ => 1
  | _ => 0

/-- Takes one more component into a normal form, given backwards. A `..` undoes the component before
it, is kept where there is none, and vanishes at the root. -/
def pushComponent (rooted : Bool) (done : List (List Char)) (c : List Char) : List (List Char) :=
  if c = [] ∨ c = ['.'] then done
  else if c = ['.', '.'] then
    match done with
    | [] => if rooted then [] else [c]
    | last :: before => if last = ['.', '.'] then c :: done else before
  else c :: done

def normalComponents (path : List Char) : List (List Char) :=
  ((components path).foldl (pushComponent (leadingSlashes path != 0)) []).reverse

/-- Components with slashes between them, after a number of leading slashes. -/
def assemble (slashes : Nat) (cs : List (List Char)) : List Char :=
  match List.replicate slashes '/' ++ ['/'].intercalate cs with
  | [] => ['.']
  | path => path

/-- The normal form of a path: no empty component, no `.`, and `..` only at the start. -/
def normalizeChars (path : List Char) : List Char :=
  assemble (leadingSlashes path) (normalComponents path)

/-- Joins two paths; an absolute second path stands alone. -/
def joinChars (a b : List Char) : List Char :=
  match b with
  | '/' :: _ => b
  | _ => if a = [] ∨ a.getLast? = some '/' then a ++ b else a ++ '/' :: b

/-- What stands before the last slash, the slash included, and what follows it. -/
def splitLast (path : List Char) : List Char × List Char :=
  let tail := (path.reverse.takeWhile (· != '/')).reverse
  (path.take (path.length - tail.length), tail)

/-- Drops slashes at the end, except from a path of slashes only. -/
def dropSlashes (head : List Char) : List Char :=
  if head.all (· == '/') then head else Text.dropEndWhile (· == '/') head

def parentChars (path : List Char) : List Char :=
  dropSlashes (splitLast path).1

/-- The place of the last dot in a file name, when a character other than a dot stands before it. -/
def dotPlace? (name : List Char) : Option Nat :=
  match name.reverse.findIdx? (· == '.') with
  | none => none
  | some after =>
    let place := name.length - 1 - after
    if (name.take place).all (· == '.') then none else some place

/-- Cuts a path before its extension. Leading dots of a file name start no extension. -/
def splitExtension (path : List Char) : List Char × List Char :=
  let (head, name) := splitLast path
  match dotPlace? name with
  | none => (path, [])
  | some place => (head ++ name.take place, name.drop place)

def commonLength : List (List Char) → List (List Char) → Nat
  | a :: as, b :: bs => if a = b then commonLength as bs + 1 else 0
  | _, _ => 0

/-- The way from the folder `start` to `target`, both absolute and in normal form. -/
def wayTo (start target : List Char) : List Char :=
  let up := (components start).filter (· ≠ [])
  let down := (components target).filter (· ≠ [])
  let shared := commonLength up down
  assemble 0 (List.replicate (up.length - shared) ['.', '.'] ++ down.drop shared)

def normalize (path : String) : String :=
  String.ofList (normalizeChars path.toList)

def join (a b : String) : String :=
  String.ofList (joinChars a.toList b.toList)

def joinAll (a : String) (bs : List String) : String :=
  bs.foldl join a

/-- The folder of a path; empty for a bare file name. -/
def parent (path : String) : String :=
  String.ofList (parentChars path.toList)

def stem (path : String) : String :=
  String.ofList (splitExtension path.toList).1

/-- The extension of a path, with its dot. -/
def extension (path : String) : String :=
  String.ofList (splitExtension path.toList).2

def absolute (cwd path : String) : String :=
  normalize (join cwd path)

/-- The way from `start` to `target`, both seen from `cwd`; there is none to the empty path. -/
def relativeTo? (cwd target start : String) : Option String :=
  if target = "" then none
  else some (String.ofList (wayTo (absolute cwd start).toList (absolute cwd target).toList))

/-- The folders a relative file path goes through. -/
def folders (path : String) : List String :=
  let folder := parentChars (normalizeChars path.toList)
  if folder = [] ∨ folder = ['.'] then []
  else ((components folder).filter fun c => c ≠ [] ∧ c ≠ ['.']).map String.ofList

def resultPath (path root suffix : String) : String :=
  join root (stem (normalize path) ++ suffix)

/-- The path of a file as it is reported: seen from the given root, or from its own folder. The empty
path has no such form and stays. -/
def reported (cwd path : String) (root : Option String) : String :=
  let start := match root with
    | none => parent path
    | some r => absolute cwd r
  (relativeTo? cwd path start).getD path

end SourceOutline.Path
