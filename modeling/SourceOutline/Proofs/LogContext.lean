import SourceOutline.Log.Basic

/-!
The context of log lines over whole runs. Scopes keep what they replace and put it back; whatever happens in
between, a line belongs to the innermost scope that is open and to the run that was named last.
-/
namespace SourceOutline.Log

/-- What can happen to a log. A scope is left when its work is done; a failure leaves a number of scopes, the
innermost first, until it is caught. -/
inductive Event where
  | setRunId (id? : Option String) (fresh : String)
  | configure (level : Level)
  | message (level : Level) (logger text : String)
  | enter (source : String) (package? : Option String)
  | leave
  | fail (scopes : Nat)
deriving DecidableEq, Repr

namespace State

/-- Closes a number of scopes, one after the other. -/
def leaveAll : Nat → State → State
  | 0, log => log
  | count + 1, log => leaveAll count log.leave

/-- What one event does. Without an id, or with an empty one, a run gets a fresh id. -/
def step (log : State) : Event → State
  | .setRunId id? fresh => log.setRunId (given id? fresh)
  | .configure level => log.configure level
  | .message level logger text => log.write level logger text
  | .enter source package? => log.enter source package?
  | .leave => log.leave
  | .fail scopes => log.leaveAll scopes

def run (log : State) (events : List Event) : State :=
  events.foldl step log

/-- What the handlers write when a message comes now: the text of the records that it adds. -/
def said (time : String) (level : Level) (logger message : String) (log : State) : String :=
  let next := log.write level logger message
  String.join ((next.written.drop log.written.length).map (next.text time))

/-- A log before any run: no scope is open, nothing is set, and filters have been added once at most. -/
structure Fresh (log : State) : Prop where
  context : log.context = ⟨"-", "-", "-"⟩
  saved : log.saved = []
  filters : ∀ h ∈ log.handlers, h.contextFilters ≤ 1

/-- Every handler writes lines with context, and has one filter for it. -/
structure Ready (log : State) : Prop where
  some_handler : log.handlers ≠ []
  handlers : ∀ h ∈ log.handlers, h = { structured := true, contextFilters := 1 }

end State

/-- A scope as it was asked for. -/
structure Opening where
  source : String
  package? : Option String
deriving DecidableEq, Repr

/-- The scopes that are open after an event. It has no place in a properly nested run if it leaves more scopes than
are open. -/
def Event.openAfter : Event → List Opening → Option (List Opening)
  | .enter source package?, opened => some (⟨source, package?⟩ :: opened)
  | .leave, opened => if 1 ≤ opened.length then some opened.tail else none
  | .fail scopes, opened => if scopes ≤ opened.length then some (opened.drop scopes) else none
  | .setRunId _ _, opened => some opened
  | .configure _, opened => some opened
  | .message _ _ _, opened => some opened

/-- The scopes that are open after the events of a properly nested run, the innermost first. -/
def openScopes (events : List Event) : Option (List Opening) :=
  events.foldlM (fun opened e => e.openAfter opened) []

def Opening.scope (o : Opening) : Scope :=
  ⟨given o.package? "-", o.source⟩

/-- What lines show of the innermost scope. -/
def innermostScope (opened : List Opening) : Scope :=
  (opened.head?.map Opening.scope).getD ⟨"-", "-"⟩

def Event.runId? : Event → Option String
  | .setRunId id? fresh => some (given id? fresh)
  | _ => none

/-- The run that was named last. -/
def lastRunId (events : List Event) : String :=
  (events.filterMap Event.runId?).getLast?.getD "-"

theorem Handler.configured_eq {h : Handler} (hfew : h.contextFilters ≤ 1) :
    h.configured = { structured := true, contextFilters := 1 } := by
  unfold Handler.configured
  by_cases hnone : h.contextFilters = 0
  · rw [if_pos hnone]
  · rw [if_neg hnone]
    have hone : h.contextFilters = 1 := by omega
    rw [hone]

namespace State

theorem run_cons (log : State) (e : Event) (events : List Event) :
    log.run (e :: events) = (log.step e).run events := rfl

section Write

variable (log : State) (level : Level) (logger text : String)

@[simp] theorem context_write : (log.write level logger text).context = log.context := by
  unfold write
  split <;> rfl

@[simp] theorem saved_write : (log.write level logger text).saved = log.saved := by
  unfold write
  split <;> rfl

@[simp] theorem handlers_write : (log.write level logger text).handlers = log.handlers := by
  unfold write
  split <;> rfl

end Write

@[simp] theorem handlers_leave (log : State) : log.leave.handlers = log.handlers := by
  unfold leave
  split <;> rfl

@[simp] theorem runId_leave (log : State) : log.leave.context.runId = log.context.runId := by
  unfold leave
  split <;> rfl

@[simp] theorem handlers_leaveAll (count : Nat) (log : State) :
    (log.leaveAll count).handlers = log.handlers := by
  induction count generalizing log with
  | zero => rfl
  | succ count ih => rw [leaveAll, ih, handlers_leave]

@[simp] theorem runId_leaveAll (count : Nat) (log : State) :
    (log.leaveAll count).context.runId = log.context.runId := by
  induction count generalizing log with
  | zero => rfl
  | succ count ih => rw [leaveAll, ih, runId_leave]

/-! What is shown and what is saved, together, are the scopes that are open, above a scope that shows nothing. -/

/-- The scopes shown and saved are those of the openings. -/
def Tracks (log : State) (opened : List Opening) : Prop :=
  log.context.scope :: log.saved = opened.map Opening.scope ++ [⟨"-", "-"⟩]

theorem Fresh.tracks {log : State} (h : log.Fresh) : log.Tracks [] := by
  unfold Tracks
  rw [h.context, h.saved]
  rfl

theorem Tracks.scope {log : State} {opened : List Opening} (h : log.Tracks opened) :
    log.context.scope = innermostScope opened := by
  unfold Tracks at h
  cases opened with
  | nil => exact (List.cons.inj h).1
  | cons o outer => exact (List.cons.inj h).1

theorem Tracks.leave {log : State} {opened : List Opening} (h : log.Tracks opened)
    (hsome : 1 ≤ opened.length) : log.leave.Tracks opened.tail := by
  cases opened with
  | nil => simp at hsome
  | cons o outer =>
    have hsaved : log.saved = outer.map Opening.scope ++ [⟨"-", "-"⟩] := (List.cons.inj h).2
    unfold Tracks State.leave
    -- below every open scope something is saved, at the least that nothing was shown
    cases hrest : log.saved with
    | nil =>
      rw [hrest] at hsaved
      simp at hsaved
    | cons replaced rest =>
      rw [hrest] at hsaved
      exact hsaved

theorem Tracks.leaveAll {log : State} {opened : List Opening} (h : log.Tracks opened) {count : Nat}
    (hcount : count ≤ opened.length) : (log.leaveAll count).Tracks (opened.drop count) := by
  induction count generalizing log opened with
  | zero => exact h
  | succ count ih =>
    have hleft := h.leave (by omega)
    have hfew : count ≤ opened.tail.length := by
      rw [List.length_tail]
      omega
    have hrest := ih hleft hfew
    rwa [List.drop_tail] at hrest

theorem Tracks.step {log : State} {opened opened' : List Opening} {e : Event} (h : log.Tracks opened)
    (he : e.openAfter opened = some opened') : (log.step e).Tracks opened' := by
  cases e with
  | setRunId id? fresh =>
    cases he
    exact h
  | configure level =>
    cases he
    exact h
  | message level logger text =>
    cases he
    unfold Tracks State.step
    rw [context_write, saved_write]
    exact h
  | enter source package? =>
    cases he
    exact congrArg (Scope.of source package? :: ·) h
  | leave =>
    obtain ⟨hsome, hopened⟩ := Option.ite_none_right_eq_some.1 he
    cases hopened
    exact h.leave hsome
  | fail scopes =>
    obtain ⟨hcount, hopened⟩ := Option.ite_none_right_eq_some.1 he
    cases hopened
    exact h.leaveAll hcount

theorem Tracks.run {log : State} {opened opened' : List Opening} {events : List Event}
    (h : log.Tracks opened) (he : events.foldlM (fun opened e => e.openAfter opened) opened = some opened') :
    (log.run events).Tracks opened' := by
  induction events generalizing log opened with
  | nil =>
    cases he
    exact h
  | cons e events ih =>
    rw [List.foldlM_cons] at he
    obtain ⟨next, hnext, hrest⟩ := Option.bind_eq_some_iff.1 he
    rw [run_cons]
    exact ih (h.step hnext) hrest

theorem runId_step (log : State) (e : Event) :
    (log.step e).context.runId = e.runId?.getD log.context.runId := by
  cases e with
  | message level logger text =>
    unfold step
    rw [context_write]
    rfl
  | leave => exact runId_leave log
  | fail scopes => exact runId_leaveAll scopes log
  | _ => rfl

theorem runId_run (log : State) (events : List Event) :
    (log.run events).context.runId =
      (events.filterMap Event.runId?).getLast?.getD log.context.runId := by
  induction events generalizing log with
  | nil => rfl
  | cons e events ih =>
    rw [run_cons, ih, runId_step, List.filterMap_cons]
    cases he : e.runId? with
    | none => rfl
    | some id => simp only [List.getLast?_cons, Option.getD_some]

/-! The handlers change only where the log is configured. -/

theorem configure_ready {log : State} (hfew : ∀ h ∈ log.handlers, h.contextFilters ≤ 1) (level : Level) :
    (log.configure level).Ready := by
  unfold configure
  cases hhandlers : log.handlers with
  | nil => exact ⟨by simp, by simp [Handler.configured]⟩
  | cons first rest =>
    rw [hhandlers] at hfew
    refine ⟨by simp, fun h hh => ?_⟩
    obtain ⟨before, hbefore, rfl⟩ := List.mem_map.1 hh
    exact Handler.configured_eq (hfew before hbefore)

theorem Ready.filters {log : State} (hready : log.Ready) : ∀ h ∈ log.handlers, h.contextFilters ≤ 1 := by
  intro h hh
  have hone : h.contextFilters = 1 := by rw [hready.handlers h hh]
  omega

theorem handlers_step (log : State) (e : Event) :
    (∃ level, e = .configure level) ∨ (log.step e).handlers = log.handlers := by
  cases e with
  | configure level => exact Or.inl ⟨level, rfl⟩
  | message level logger text => exact Or.inr (handlers_write log level logger text)
  | leave => exact Or.inr (handlers_leave log)
  | fail scopes => exact Or.inr (handlers_leaveAll scopes log)
  | setRunId id? fresh => exact Or.inr rfl
  | enter source package? => exact Or.inr rfl

theorem Ready.step {log : State} (hready : log.Ready) (e : Event) : (log.step e).Ready := by
  rcases log.handlers_step e with ⟨level, rfl⟩ | hsame
  · exact configure_ready hready.filters level
  · exact ⟨hsame ▸ hready.some_handler, hsame ▸ hready.handlers⟩

theorem Ready.run {log : State} (hready : log.Ready) (events : List Event) : (log.run events).Ready := by
  induction events generalizing log with
  | nil => exact hready
  | cons e events ih => exact ih (hready.step e)

/-- From the first configuration on, all handlers are ready, however often it is repeated. -/
theorem run_ready {log : State} (hfew : ∀ h ∈ log.handlers, h.contextFilters ≤ 1) {events : List Event}
    {level : Level} (hconfigured : .configure level ∈ events) : (log.run events).Ready := by
  induction events generalizing log with
  | nil => cases hconfigured
  | cons e events ih =>
    rcases log.handlers_step e with ⟨first, rfl⟩ | hsame
    · exact (configure_ready hfew first).run events
    · rcases List.mem_cons.1 hconfigured with rfl | hlater
      · exact (configure_ready hfew level).run events
      · exact ih (hsame ▸ hfew) hlater

theorem text_eq_join {log : State} (hsome : log.handlers ≠ []) (time : String) (r : Record) :
    log.text time r = String.join (log.handlers.map fun h => h.line time r) := by
  have hjoin : ∀ handlers : List Handler, handlers.foldr (fun h rest => h.line time r ++ rest) "" =
      String.join (handlers.map fun h => h.line time r) := by
    intro handlers
    induction handlers with
    | nil => rfl
    | cons h rest ih => rw [List.foldr_cons, ih, List.map_cons, String.join_cons]
  unfold State.text
  cases hhandlers : log.handlers with
  | nil => exact absurd hhandlers hsome
  | cons first rest => exact hjoin (first :: rest)

theorem said_eq {log : State} {level : Level} (hlets : log.lets level = true) (hsome : log.handlers ≠ [])
    (time logger message : String) :
    log.said time level logger message =
      String.join (log.handlers.map fun h => h.line time (log.record level logger message)) := by
  have hadded : (log.write level logger message).written =
      log.written ++ [log.record level logger message] := by
    unfold write written
    rw [if_pos hlets, List.reverse_cons]
  have hsome' : (log.write level logger message).handlers ≠ [] := by rwa [handlers_write]
  dsimp only [said]
  rw [hadded, List.drop_left, List.map_singleton, String.join_cons, String.join_nil, String.append_empty,
    text_eq_join hsome', handlers_write]

theorem Ready.line_eq {log : State} (hready : log.Ready) {h : Handler} (hh : h ∈ log.handlers)
    (time : String) (r : Record) :
    h.line time r = time ++ " | " ++ r.level.name ++ " | run_id=" ++ r.context.runId ++ " | " ++
      r.context.package ++ ":" ++ r.context.source ++ " | " ++ r.logger ++ " | " ++ r.message ++ "\n" := by
  rw [hready.handlers h hh]
  simp only [Handler.line, toString, Bool.not_true, Bool.false_eq_true, if_false, Nat.one_ne_zero,
    String.append_assoc]

end State

/-- Every line belongs to the innermost open scope and to the run that was named last.

After the events of any properly nested run, in which scopes may also be left by failures, the context shows
the scope that was opened last and is still open, or `-` where none is, and the run id that was set last. Once
the log was configured, however often, every handler has one filter, and each message that is let through is
written by each handler in one line that shows this run, package and source. -/
theorem run_shows_innermost {start : State} (hstart : start.Fresh) {events : List Event}
    {opened : List Opening} (hopened : openScopes events = some opened) :
    (start.run events).context =
      ⟨lastRunId events, (innermostScope opened).package, (innermostScope opened).source⟩ ∧
    ((∃ level, .configure level ∈ events) →
      (start.run events).handlers ≠ [] ∧
      (∀ h ∈ (start.run events).handlers, h.contextFilters = 1) ∧
      ∀ (time : String) (level : Level) (logger message : String), (start.run events).lets level = true →
        (start.run events).said time level logger message =
          String.join ((start.run events).handlers.map fun _ =>
            time ++ " | " ++ level.name ++ " | run_id=" ++ lastRunId events ++ " | " ++
              (innermostScope opened).package ++ ":" ++ (innermostScope opened).source ++ " | " ++
              State.loggerName logger ++ " | " ++ message ++ "\n")) := by
  have hscope := (hstart.tracks.run hopened).scope
  have hrun := start.runId_run events
  rw [hstart.context] at hrun
  have hcontext : (start.run events).context =
      ⟨lastRunId events, (innermostScope opened).package, (innermostScope opened).source⟩ := by
    rw [← hscope]
    exact congrArg (fun id => Context.mk id _ _) hrun
  refine ⟨hcontext, ?_⟩
  rintro ⟨first, hconfigured⟩
  have hready := State.run_ready hstart.filters hconfigured
  refine ⟨hready.some_handler, fun h hh => by rw [hready.handlers h hh], ?_⟩
  intro time level logger message hlets
  rw [State.said_eq hlets hready.some_handler]
  congr 1
  apply List.map_congr_left
  intro h hh
  rw [hready.line_eq hh, State.record, hcontext]

/-- A run in which two scopes were left by a failure, within which the run got another id, and a file without a
package is being worked on. -/
private def stockEvents : List Event :=
  [.message Level.warning "scanner" "early", .configure Level.info, .setRunId (some "run-1") "0a1b",
    .enter "shop/shop.go" (some "shop"), .configure Level.debug,
    .enter "shop/main.go" none, .leave, .enter "shop/inventory/stock.go" (some "inventory"),
    .enter "shop/inventory/bin.go" (some "inventory"), .setRunId (some "") "0f3a", .fail 2,
    .enter "shop/stock.go" (some "")]

private def plainLog : State :=
  { handlers := [{}] }

theorem run_shows_innermost_stock :
    openScopes stockEvents = some [⟨"shop/stock.go", some ""⟩, ⟨"shop/shop.go", some "shop"⟩] ∧
      (plainLog.run stockEvents).context = ⟨"0f3a", "-", "shop/stock.go"⟩ ∧
      (plainLog.run stockEvents).said "12:00" Level.info "scanner" "done" =
        "12:00 | INFO | run_id=0f3a | -:shop/stock.go | scanner | done\n" := by
  have hopened : openScopes stockEvents =
      some [⟨"shop/stock.go", some ""⟩, ⟨"shop/shop.go", some "shop"⟩] := rfl
  have hfresh : plainLog.Fresh := ⟨rfl, rfl, by decide⟩
  obtain ⟨hcontext, hlines⟩ := run_shows_innermost hfresh hopened
  obtain ⟨-, -, hsaid⟩ := hlines ⟨Level.info, by decide⟩
  refine ⟨hopened, hcontext, ?_⟩
  rw [hsaid "12:00" Level.info "scanner" "done" (by decide)]
  decide

end SourceOutline.Log
