import SourceOutline.Log.Level

/-!
Log records with the run, the package and the source file they belong to. A source file is in scope
from where its scope is entered to where it is left, and scopes nest.
-/
namespace SourceOutline.Log

/-- What stands for a part of the context that is not set. -/
def unset : String := "-"

/-- A text that is given and not empty, or else another. -/
def given (text? : Option String) (otherwise : String) : String :=
  (text?.filter (· ≠ "")).getD otherwise

@[simp] theorem given_none (otherwise : String) : given none otherwise = otherwise := rfl

@[simp] theorem given_some (text otherwise : String) :
    given (some text) otherwise = if text = "" then otherwise else text := by
  by_cases h : text = "" <;> simp [given, Option.filter, h]

structure Scope where
  package : String
  source : String
deriving DecidableEq, Repr

/-- A scope; a missing or empty package is not set. -/
def Scope.of (source : String) (package? : Option String) : Scope :=
  ⟨given package? unset, source⟩

/-- The run, package and source a record belongs to. -/
structure Context where
  runId : String := unset
  package : String := unset
  source : String := unset
deriving DecidableEq, Repr

namespace Context

def scope (c : Context) : Scope :=
  ⟨c.package, c.source⟩

def within (c : Context) (s : Scope) : Context :=
  { c with package := s.package, source := s.source }

end Context

structure Record where
  level : Level
  logger : String
  message : String
  context : Context
deriving DecidableEq, Repr

structure Note where
  level : Level
  logger : String
  message : String
deriving DecidableEq, Repr

/-- A result, and the messages on the way to it, in order. -/
structure Told (α : Type) where
  value : α
  notes : List Note := []

/-- Where lines go: bare messages, or lines with the context that its filters add. -/
structure Handler where
  structured : Bool := false
  contextFilters : Nat := 0
deriving DecidableEq, Repr

/-- Gives a handler the lines with context, and the one filter that adds it. -/
def Handler.configured (h : Handler) : Handler :=
  { structured := true, contextFilters := if h.contextFilters = 0 then 1 else h.contextFilters }

/-- The state of the log: what is let through, by whom it is written, and what a record written now
belongs to. `saved` holds what each open scope found when it was opened, the innermost first, and
`records` the last record first. -/
structure State where
  level : Level := Level.warning
  handlers : List Handler := []
  context : Context := {}
  saved : List Scope := []
  records : List Record := []
deriving Repr

namespace State

/-- Opens a scope, and keeps what it replaces. -/
def enter (source : String) (package? : Option String) (log : State) : State :=
  { log with
    context := log.context.within (Scope.of source package?)
    saved := log.context.scope :: log.saved }

/-- Closes the innermost scope: what it replaced is put back, while the run stays. -/
def leave (log : State) : State :=
  match log.saved with
  | [] => log
  | replaced :: rest => { log with context := log.context.within replaced, saved := rest }

def setRunId (id : String) (log : State) : State :=
  { log with context := { log.context with runId := id } }

/-- Sets the level and gives every handler lines with context; without any handler there is one
afterwards. -/
def configure (level : Level) (log : State) : State :=
  { log with
    level := level
    handlers := match log.handlers with
      | [] => [Handler.configured {}]
      | handlers => handlers.map Handler.configured }

/-- Whether a record of some level is written. -/
def lets (log : State) (level : Level) : Bool :=
  0 < level && log.level ≤ level

/-- The name of a logger; one without a name is the root of all. -/
def loggerName (name : String) : String :=
  if name = "" then "root" else name

def record (level : Level) (logger message : String) (log : State) : Record :=
  ⟨level, loggerName logger, message, log.context⟩

def write (level : Level) (logger message : String) (log : State) : State :=
  if log.lets level then { log with records := log.record level logger message :: log.records }
  else log

def writeAll (notes : List Note) (log : State) : State :=
  notes.foldl (fun log n => log.write n.level n.logger n.message) log

def written (log : State) : List Record :=
  log.records.reverse

@[simp] theorem scope_enter (source : String) (package? : Option String) (log : State) :
    (log.enter source package?).context.scope = Scope.of source package? := rfl

@[simp] theorem leave_enter (source : String) (package? : Option String) (log : State) :
    (log.enter source package?).leave = log := rfl

end State

/-- The line of a record as a handler writes it, `time` being when. A line with context cannot be written
where no filter adds the context. -/
def Handler.line (h : Handler) (time : String) (r : Record) : String :=
  if !h.structured then s!"{r.message}\n"
  else if h.contextFilters = 0 then ""
  else
    s!"{time} | {r.level.name} | run_id={r.context.runId} | {r.context.package}:{r.context.source}" ++
      s!" | {r.logger} | {r.message}\n"

/-- The text that all handlers write for a record; without handlers the bare message is written. -/
def State.text (log : State) (time : String) (r : Record) : String :=
  match log.handlers with
  | [] => ({} : Handler).line time r
  | handlers => handlers.foldr (fun h rest => h.line time r ++ rest) ""

end SourceOutline.Log
