import SourceOutline.Path
import SourceOutline.Text.Quoted

/-! A tree of files, folders and symbolic links, and what can go wrong with it. -/
namespace SourceOutline.Files

/-- The names from the root down to an entry. -/
abbrev Location := List String

/-- An entry of the tree. The items of a folder are in the order they are listed in. -/
inductive Entry where
  | file (content : ByteArray)
  | link (target : String)
  | folder (items : List (String × Entry))

instance : Inhabited Entry := ⟨.folder []⟩

/-- Gives a name an entry: in its place if the name is there, and at the end otherwise. -/
def put (name : String) (e : Entry) : List (String × Entry) → List (String × Entry)
  | [] => [(name, e)]
  | item :: rest => if item.1 == name then (name, e) :: rest else item :: put name e rest

namespace Entry

def get? : Entry → Location → Option Entry
  | e, [] => some e
  | .folder items, name :: rest =>
    match items.lookup name with
    | some e => e.get? rest
    | none => none
  | _, _ :: _ => none

def set : Entry → Location → Entry → Entry
  | _, [], new => new
  | .folder items, [name], new => .folder (put name new items)
  | .folder items, name :: rest, new =>
    match items.lookup name with
    | some e => .folder (put name (e.set rest new) items)
    | none => .folder items
  | e, _ :: _, _ => e

def isFolder : Entry → Bool
  | .folder _ => true
  | _ => false

def isFile : Entry → Bool
  | .file _ => true
  | _ => false

@[simp] theorem get?_nil (e : Entry) : e.get? [] = some e := by
  cases e <;> rfl

end Entry

@[simp] theorem lookup_put_self (name : String) (e : Entry) (items : List (String × Entry)) :
    (put name e items).lookup name = some e := by
  induction items with
  | nil => simp [put]
  | cons item rest ih =>
    simp only [put]
    split
    · simp
    · next h =>
      have : (name == item.1) = false := by
        rw [beq_eq_false_iff_ne]
        exact fun heq => h (by rw [heq]; exact beq_self_eq_true _)
      rw [List.lookup_cons, this]
      exact ih

inductive Cause where
  | missing
  | present
  | notFolder
  | isFolder
  | longName
  | manyLinks
  | nullByte
  | surrogates (e : Text.EncodeError)
deriving DecidableEq, Repr

/-- The number of a cause; one that lies in a text alone has none. -/
def Cause.number? : Cause → Option Nat
  | .missing => some 2
  | .present => some 17
  | .notFolder => some 20
  | .isFolder => some 21
  | .longName => some 36
  | .manyLinks => some 40
  | .nullByte => none
  | .surrogates _ => none

def Cause.text : Cause → String
  | .missing => "No such file or directory"
  | .present => "File exists"
  | .notFolder => "Not a directory"
  | .isFolder => "Is a directory"
  | .longName => "File name too long"
  | .manyLinks => "Too many levels of symbolic links"
  | .nullByte => "embedded null byte"
  | .surrogates e => e.message

structure FileError where
  cause : Cause
  path : String
deriving DecidableEq, Repr

def FileError.message (e : FileError) : String :=
  match e.cause.number? with
  | some number => s!"[Errno {number}] {e.cause.text}: {Text.quoted e.path}"
  | none => e.cause.text

/-- Whether a path or a content cannot be used whatever files there are. -/
def FileError.isTextual (e : FileError) : Bool :=
  e.cause.number?.isNone

/-- A tree, and the folder that relative paths are seen from. -/
structure FileTree where
  root : Entry
  cwd : String

end SourceOutline.Files
