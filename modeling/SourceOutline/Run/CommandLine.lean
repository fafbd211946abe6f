import SourceOutline.Text.Digit
import SourceOutline.Text.Quoted

/-!
The command line. An option may be shortened as long as only one option starts that way, and takes its
value after an equals sign or as the next argument. All arguments are classified before any is used.
-/
namespace SourceOutline.Run

inductive Switch where
  | help
  | config
  | sourceDir
  | resultRoot
  | reportDir
  | recordOmissions
  | fileIndex
  | strictConfig
  | verbose
deriving DecidableEq, Repr

namespace Switch

def spellings : List (String × Switch) :=
  [("-h", help), ("--help", help), ("--config", config), ("--source-dir", sourceDir),
    ("--result-root", resultRoot), ("--report-dir", reportDir),
    ("--record-omissions", recordOmissions), ("--file-index", fileIndex),
    ("--strict-config", strictConfig), ("--verbose", verbose)]

def ofName? (name : String) : Option Switch :=
  spellings.lookup name

/-- All names of an option, as messages give them. -/
def title (s : Switch) : String :=
  "/".intercalate ((spellings.filter (·.2 == s)).map (·.1))

def takesValue : Switch → Bool
  | config => true
  | sourceDir => true
  | resultRoot => true
  | reportDir => true
  | _ => false

def purpose : Switch → String
  | help => "show this help message and exit"
  | config => "YAML run configuration. Default: ./godmt.yaml when present."
  | sourceDir => "Path to the Go source directory to scan."
  | resultRoot => "Directory receiving one JSON model per Go file. Default: result"
  | reportDir => "Directory receiving the JSON run report."
  | recordOmissions => "Include every skipped field/initializer in the per-file output."
  | fileIndex => "Resolve identifiers per file instead of per package folder."
  | strictConfig => "Fail on invalid configuration instead of falling back to defaults."
  | verbose => "Enable debug logging."

def all : List Switch :=
  [help, config, sourceDir, resultRoot, reportDir, recordOmissions, fileIndex, strictConfig, verbose]

def helpLine (s : Switch) : String :=
  let value := if s.takesValue then " VALUE" else ""
  let head := "  " ++ s.title ++ value
  let gap := String.ofList (List.replicate (24 - head.length) ' ')
  head ++ gap ++ s.purpose ++ "\n"

end Switch

def usageText : String :=
  "usage: source-outline [option ...]\n"

def helpText : String :=
  Switch.all.foldl (fun text s => text ++ s.helpLine) (usageText ++
    "\nGo declaration scanner: structs, consts and vars to a JSON model\n\noptions:\n")

inductive UsageError where
  | ambiguous (argument : String) (matching : List String)
  | unrecognized (arguments : List String)
  | valueMissing (s : Switch)
  | valueIgnored (s : Switch) (value : String)
deriving DecidableEq, Repr

def UsageError.message : UsageError → String
  | .ambiguous argument matching =>
    s!"ambiguous option: {argument} could match " ++ ", ".intercalate matching
  | .unrecognized arguments => "unrecognized arguments: " ++ " ".intercalate arguments
  | .valueMissing s => s!"argument {s.title}: expected one argument"
  | .valueIgnored s value =>
    s!"argument {s.title}: ignored explicit argument {Text.quoted value}"

/-- What an argument is taken for. The value of an option is what is attached to it after an equals sign;
what is attached to an option of one letter is more letters first. -/
inductive Argument where
  | word (text : String)
  | unknown (text : String)
  | option (s : Switch) (value : Option String)
  | cluster (s : Switch) (letters : List Char)
deriving DecidableEq, Repr

def cutAtEquals (cs : List Char) : List Char × Option (List Char) :=
  match cs.dropWhile (· != '=') with
  | [] => (cs, none)
  | _ :: value => (cs.takeWhile (· != '='), some value)

/-- Whether a text is a negative number, in the digits of any script. One line break may end it. -/
def isNegativeNumber : List Char → Bool
  | '-' :: digits =>
    let digits := if digits.getLast? == some '\n' then digits.dropLast else digits
    let whole := digits.takeWhile Text.isDecimal
    match digits.dropWhile Text.isDecimal with
    | [] => !whole.isEmpty
    | '.' :: fraction => !fraction.isEmpty && fraction.all Text.isDecimal
    | _ => false
  | _ => false

/-- The readings of an argument as a shortened option, or as an option of one letter with more behind
it. -/
def shortened (cs : List Char) : List (String × Argument) :=
  match cs with
  | '-' :: '-' :: _ =>
    let (start, value) := cutAtEquals cs
    (Switch.spellings.filter fun (name, _) => start.isPrefixOf name.toList).map fun (name, s) =>
      (name, .option s (value.map String.ofList))
  | _ =>
    Switch.spellings.filterMap fun (name, s) =>
      if name.toList = cs.take 2 then some (name, .cluster s (cs.drop 2))
      else if cs.isPrefixOf name.toList then some (name, .option s none)
      else none

def classify (text : String) : Except UsageError Argument :=
  let cs := text.toList
  match cs with
  | '-' :: _ :: _ =>
    match Switch.ofName? text with
    | some s => .ok (.option s none)
    | none =>
      let (name, value) := cutAtEquals cs
      match value, Switch.ofName? (String.ofList name) with
      | some value, some s =>
        .ok (if name.length = 2 then .cluster s value else .option s (some (String.ofList value)))
      | _, _ =>
        match shortened cs with
        | [(_, argument)] => .ok argument
        | [] => .ok (if isNegativeNumber cs || cs.contains ' ' then .word text else .unknown text)
        | readings => .error (.ambiguous text (readings.map (·.1)))
  | _ => .ok (.word text)

structure Arguments where
  config : Option String := none
  sourceDir : Option String := none
  resultRoot : Option String := none
  reportDir : Option String := none
  recordOmissions : Bool := false
  fileIndex : Bool := false
  strictConfig : Bool := false
  verbose : Bool := false
deriving DecidableEq, Repr

/-- Arguments with one option set; options without a value take any text for yes. -/
def Arguments.set (a : Arguments) (s : Switch) (value : String) : Arguments :=
  match s with
  | .help => a
  | .config => { a with config := some value }
  | .sourceDir => { a with sourceDir := some value }
  | .resultRoot => { a with resultRoot := some value }
  | .reportDir => { a with reportDir := some value }
  | .recordOmissions => { a with recordOmissions := true }
  | .fileIndex => { a with fileIndex := true }
  | .strictConfig => { a with strictConfig := true }
  | .verbose => { a with verbose := true }

/-- Why a command line starts no run. A value of two hyphens is taken away, and then there is none. -/
inductive Refusal where
  | help
  | usage (e : UsageError)
  | valueLost
deriving DecidableEq, Repr

/-- What is said about a value that was taken away. -/
def valueLostText : String :=
  "not enough values to unpack (expected 1, got 0)"

/-- Letters behind an option of one letter that takes no value: each is such an option again. From the
first letter that is none on, they are a value that nothing takes. -/
def clustered (s : Switch) : List Char → Refusal
  | [] => .help
  | 'h' :: rest => clustered s rest
  | rest => .usage (.valueIgnored s (String.ofList rest))

/-- Uses classified arguments in order; `tail` holds the texts after the last one. -/
def useArguments (tail : List String) : Arguments → List String → List Argument →
    Except Refusal Arguments
  | a, extras, [] =>
    match extras ++ tail with
    | [] => .ok a
    | extras => .error (.usage (.unrecognized extras))
  | a, extras, .word text :: rest => useArguments tail a (extras ++ [text]) rest
  | a, extras, .unknown text :: rest => useArguments tail a (extras ++ [text]) rest
  | _, _, .cluster s [] :: _ => .error (.usage (.valueIgnored s ""))
  | _, _, .cluster s letters :: _ => .error (clustered s letters)
  | a, extras, .option s (some value) :: rest =>
    if !s.takesValue then .error (.usage (.valueIgnored s value))
    else if value = "--" then .error .valueLost
    else useArguments tail (a.set s value) extras rest
  | a, extras, .option s none :: rest =>
    if s = .help then .error .help
    else if s.takesValue then
      match rest with
      | .word value :: rest => useArguments tail (a.set s value) extras rest
      | _ => .error (.usage (.valueMissing s))
    else useArguments tail (a.set s "") extras rest

/-- Reads a command line. After `--` there are no options, and since there is nothing else to name,
whatever stands there is not recognized. -/
def Arguments.ofCommandLine (strictByDefault : Bool) (argv : List String) :
    Except Refusal Arguments :=
  let front := argv.takeWhile (· != "--")
  match front.mapM classify with
  | .error e => .error (.usage e)
  | .ok arguments =>
    useArguments (argv.drop front.length) { strictConfig := strictByDefault } [] arguments

end SourceOutline.Run
