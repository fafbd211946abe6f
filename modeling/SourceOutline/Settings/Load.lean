import SourceOutline.Failure
import SourceOutline.Files.Access
import SourceOutline.Log.Basic
import SourceOutline.Readers

/-!
Settings from a file, the environment and arguments. Wherever something is wrong a strict reading ends, and a
lenient one tells what is wrong and goes on.
-/
namespace SourceOutline.Settings

open SourceOutline.Files (FileTree)
open SourceOutline.Log (Note Told Level)

/-- Work that may end early, with what it tells up to there. -/
def Reading (α : Type) : Type :=
  Told (Except Failure α)

instance : Monad Reading where
  pure a := { value := .ok a }
  bind r next :=
    match r.value with
    | .error f => { value := .error f, notes := r.notes }
    | .ok a =>
      let after := next a
      { value := after.value, notes := r.notes ++ after.notes }

def ended {α : Type} (f : Failure) : Reading α :=
  { value := .error f }

def tell (note : Note) : Reading Unit :=
  { value := .ok (), notes := [note] }

def warning (c : Complaint) : Note :=
  ⟨Level.warning, "core.run_config", c.message ++ "; continuing with defaults"⟩

/-- Something is wrong: the end of a strict reading, and a warning of a lenient one. -/
def fail (strict : Bool) (c : Complaint) : Reading Unit :=
  if strict then ended (.settings c) else tell (warning c)

/-- The text of a datum, which may be too long to be shown. -/
def textOf (d : Datum) : Reading String :=
  if d.isShowable then return d.plain else ended .tooLong

def flagFrom (strict : Bool) (key : Key) (d : Datum) : Reading (Option Value) := do
  match flagOf? (← textOf d) with
  | some b => return some (.flag b)
  | none =>
    fail strict (.notFlag key.name d.quoted)
    return none

/-- The value that a setting takes from a datum, if it is valid. Truth values are taken from words too, and
texts from numbers. -/
def coerce (strict : Bool) (key : Key) (d : Datum) : Reading (Option Value) :=
  if key.isFlag then
    match d with
    | .bool b => return some (.flag b)
    | d => flagFrom strict key d
  else
    match d with
    | .text s => return some (.text s)
    | .int n => return some (.text (← textOf (.int n)))
    | .float x => return some (.text (← textOf (.float x)))
    | d => do
      fail strict (.notText key.name d.kind)
      return none

def readEntry (strict : Bool) (origin : String) (entry : Datum × Datum) : Reading (Option Update) :=
  match keyOf? entry.1 with
  | none => do
    fail strict (.unknownKey (← textOf entry.1) origin)
    return none
  | some key => do
    let value? ← coerce strict key entry.2
    return value?.map (Update.mk key)

def readEntries (strict : Bool) (origin : String) : List (Datum × Datum) → Reading (List Update)
  | [] => return []
  | entry :: rest => do
    let update? ← readEntry strict origin entry
    let more ← readEntries strict origin rest
    return update?.toList ++ more

def applyLayer (strict : Bool) (s : Settings) (l : Layer) : Reading Settings := do
  let updates ← readEntries strict l.origin l.entries
  return updates.foldl apply s

/-- The file that is read when none is named and it is there. -/
def defaultFile : String := "godmt.yaml"

def variableStart : String := "GODMT_"

abbrev Environment := List (String × String)

def Key.variable (key : Key) : String :=
  variableStart ++ String.ofList (key.name.toList.map Char.toUpper)

def isStrict (env : Environment) (default : Bool) : Bool :=
  match env.lookup (variableStart ++ "STRICT_CONFIG") with
  | none => default
  | some text => yesWords.contains (plainWord text)

/-- An order in which all settings are visited. -/
structure KeyOrder where
  keys : List Key
  perm : keys.Perm Key.all

instance : Inhabited KeyOrder := ⟨Key.all, .refl _⟩

/-- The layer of the environment, whose variables are visited in some order. -/
def environmentLayer (order : KeyOrder) (env : Environment) : Layer :=
  { origin := "environment"
    entries := order.keys.filterMap fun key =>
      (env.lookup key.variable).map fun text => (.text key.name, .text text) }

/-- The layer of arguments; those that are nothing do not count. -/
def argumentLayer (arguments : List (String × Datum)) : Layer :=
  { origin := "arguments"
    entries := arguments.filterMap fun (name, value) =>
      match value with
      | .null => none
      | value => some (.text name, value) }

def fileLayer (path : String) (entries : List DatumEntry) : Layer :=
  { origin := path, entries := entries.map fun e => (e.key, e.value) }

/-- The settings file: the one that is named, or the default one if it is there. -/
def filePath? (t : FileTree) : Option String → Option String
  | some path => some path
  | none => if t.isFile defaultFile then some defaultFile else none

/-- The entries that a settings file is read to, if it is one. A scalar in it that names no value ends both
readings. -/
def payloadEntries (strict : Bool) (path : String) : Except Yaml.Fault Datum → Reading (List DatumEntry)
  | .error (.malformed reason) =>
    if strict then ended (.settings (.fileMalformed path reason))
    else do
      tell (warning (.fileMalformed path reason))
      return []
  | .error f => ended (.noValue f)
  | .ok .null => return []
  | .ok (.map entries) => return entries
  | .ok d => do
    fail strict (.notMapping d.kind)
    return []

variable [YamlReader]

/-- The entries of a settings file; one that is not there has none for a lenient reading. -/
def loadFile (t : FileTree) (strict : Bool) (path : String) : Reading (List DatumEntry) :=
  match t.read path with
  | .ok content => payloadEntries strict path (YamlReader.read content.toList)
  | .error e =>
    if e.cause = .missing then
      if strict then ended (.settings (.fileMissing path))
      else do
        tell (warning (.fileMissing path))
        return []
    else ended (.file e)

def fileLayers (t : FileTree) (strict : Bool) (path? : Option String) : Reading (List Layer) :=
  match filePath? t path? with
  | none => return []
  | some path => do
    let entries ← loadFile t strict path
    return [fileLayer path entries]

/-- Settings from all layers, each over the one before. -/
def settle (t : FileTree) (env : Environment) (strict : Bool) (path? : Option String)
    (arguments : List (String × Datum)) (order : KeyOrder) : Reading Settings := do
  let file ← fileLayers t strict path?
  (file ++ [environmentLayer order env, argumentLayer arguments]).foldlM (applyLayer strict) {}

def announce (s : Settings) : Reading Settings := do
  tell ⟨Level.debug, "core.run_config", "Effective run config: " ++ s.shown⟩
  return s

def load (t : FileTree) (env : Environment) (strict : Bool) (path? : Option String)
    (arguments : List (String × Datum)) (order : KeyOrder := default) : Reading Settings := do
  announce (← settle t env strict path? arguments order)

end SourceOutline.Settings
