/-
  Log messages.

  * `LogEvent`: a message with its source and its level.
  * `LogFilter`: which messages are shown.
  * `LogFilter.ofText`: a filter from its written form: levels for sources that begin in
    some way, or one level for all.
-/

namespace PackratCpp.Cli

/-- How important a message has to be at least, from the fewest messages to the most. -/
inductive LogLevel where
  | off
  | error
  | warn
  | info
  | debug
  | trace
  deriving DecidableEq

namespace LogLevel

/-- The name of a level. -/
def name : LogLevel → String
  | .off => "OFF"
  | .error => "ERROR"
  | .warn => "WARN"
  | .info => "INFO"
  | .debug => "DEBUG"
  | .trace => "TRACE"

/-- Every level. -/
def all : List LogLevel := [.off, .error, .warn, .info, .debug, .trace]

/-- Whether a filter at a level shows a message of another one. -/
def shows (limit level : LogLevel) : Bool :=
  level.ctorIdx ≤ limit.ctorIdx

/-- A level by its name, in any case. -/
def ofName? (text : String) : Option LogLevel :=
  all.find? (·.name = text.toUpper)

end LogLevel

/-- Where a message comes from. -/
inductive LogSource where
  /-- Making grammars. -/
  | grammars
  /-- Grammars that have been made before. -/
  | grammarStore
  | parses
  | checks
  deriving DecidableEq

/-- The name of a source. -/
def LogSource.name : LogSource → String
  | .grammars => "cxxparse_lib::grammar"
  | .grammarStore => "cxxparse_lib::grammar::cache"
  | .parses => "cxxparse_lib::engine"
  | .checks => "cxxparse::commands::check"

/-- A message. -/
structure LogEvent where
  level : LogLevel
  source : LogSource
  text : String

/-- The line of a message. -/
def LogEvent.line (e : LogEvent) : String :=
  "[" ++ e.level.name ++ " " ++ e.source.name ++ "] " ++ e.text ++ "\n"

/-! ## Filters -/

/-- The level for sources whose name begins in some way. -/
structure LogDirective where
  target : String
  level : LogLevel

/-- Which messages are shown.  Of the directives for a source the most specific holds. -/
structure LogFilter where
  directives : List LogDirective

namespace LogFilter

/-- Warnings and errors. -/
def standard : LogFilter := ⟨[⟨"", .warn⟩]⟩

/-- A directive from its written form.  A target without a level shows everything. -/
def directive? (text : String) : Option LogDirective :=
  match text.splitOn "=" with
  | [one] => some (match LogLevel.ofName? one with
    | some level => ⟨"", level⟩
    | none => ⟨one, .trace⟩)
  | [target, level] =>
    let level := level.trimAscii.toString
    if level.isEmpty then some ⟨target, .trace⟩
    else (LogLevel.ofName? level).map (⟨target, ·⟩)
  | _ => none

/-- A filter from its written form. -/
def ofText (text : String) : LogFilter :=
  let parts := (text.splitOn ",").map fun part => part.trimAscii.toString
  let directives := (parts.filter fun part => !part.isEmpty).filterMap directive?
  ⟨if directives.isEmpty then [⟨"", .error⟩] else directives⟩

/-- The directive that holds for a source. -/
def directiveFor? (f : LogFilter) (source : LogSource) : Option LogDirective :=
  f.directives.foldl (fun best? d =>
    if d.target.toList.isPrefixOf source.name.toList then
      match best? with
      | some best => if best.target.length ≤ d.target.length then some d else best?
      | none => some d
    else best?) none

/-- Whether a message is shown. -/
def shows (f : LogFilter) (e : LogEvent) : Bool :=
  match f.directiveFor? e.source with
  | some d => d.level.shows e.level
  | none => false

/-- The lines of the messages that are shown. -/
def render (f : LogFilter) (events : List LogEvent) : String :=
  String.join ((events.filter f.shows).map LogEvent.line)

end LogFilter

end PackratCpp.Cli
