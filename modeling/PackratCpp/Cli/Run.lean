/-
  What commands do.

  * `Transcript`: what a command leaves behind.
  * `TreeRequest.run`, `CheckRequest.run`, `RulesRequest.run`, `Command.run`: the commands.

  A command stops at the first thing that is wrong with its request: the configuration, then
  the rule to parse from, then the source.  Files that are checked do not depend on each
  other.
-/
import PackratCpp.Cli.Files
import PackratCpp.Cli.Log
import PackratCpp.Cli.Pool
import PackratCpp.Cli.Report
import PackratCpp.Config.Basic
import PackratCpp.Grammar.Reachable
import PackratCpp.Grammar.Standard
import PackratCpp.Tree.Concrete
import PackratCpp.Tree.Dump
import PackratCpp.Tree.Object

namespace PackratCpp.Cli

/-- What a command leaves behind. -/
structure Transcript where
  code : Nat
  output : String
  /-- Messages on the way. -/
  log : List LogEvent
  /-- What went wrong, behind the messages. -/
  errors : String

namespace Transcript

/-- A command that went well. -/
def success (log : List LogEvent) (output : String) : Transcript := ⟨0, output, log, ""⟩

/-- A command that stopped. -/
def failure (log : List LogEvent) (message : String) : Transcript :=
  ⟨1, "", log, "error: " ++ message ++ "\n"⟩

/-- Messages as far as they are shown, and what went wrong. -/
def errorOutput (t : Transcript) (filter : LogFilter) : String :=
  filter.render t.log ++ t.errors

end Transcript

/-! ## Messages -/

/-- A truth value in words. -/
def shownBool (b : Bool) : String := if b then "true" else "false"

/-- Extensions in words. -/
def shownExtensions (ext : Extensions) : String :=
  "Extensions \x7b gnu: " ++ shownBool ext.gnu ++ ", managed: " ++ shownBool ext.managed ++
    ", attributed_atl: " ++ shownBool ext.attributedAtl ++ " \x7d"

/-- A grammar was made. -/
def builtEvent (g : Grammar) : LogEvent :=
  ⟨.debug, .grammars, "built C++ grammar: " ++ toString g.rules.length ++ " rules, language " ++
    g.dialect.language.name ++ ", recovery " ++ shownBool g.dialect.errorRecovery ++
    ", extensions " ++ shownExtensions g.dialect.extensions⟩

/-- A grammar was at hand. -/
def reusedEvent (g : Grammar) : LogEvent :=
  ⟨.trace, .grammarStore, "grammar cache hit for GrammarKey \x7b error_recovery: " ++
    shownBool g.dialect.errorRecovery ++ ", language: " ++ g.dialect.language.name ++
    ", extensions: " ++ shownExtensions g.dialect.extensions ++ " \x7d"⟩

/-- A file is looked at. -/
def checkingEvent (r : FileReport) : LogEvent :=
  ⟨.debug, .checks, "checking " ++ r.name ++ " as " ++ r.language.name⟩

/-- What a parse has to report. -/
def parseEvents (p : Parse) : List LogEvent :=
  p.events.map fun e => ⟨.debug, .parses, e.message⟩

/-! ## Sources and configurations -/

/-- A path as shown. -/
def shownPath (path : String) : String :=
  if path = standardInput then "<stdin>" else path

namespace Surroundings

/-- A file that has to be there. -/
def fileOrMessage (s : Surroundings) (path : String) : Except String String :=
  (s.file path).mapError fun e => "failed to read '" ++ path ++ "': " ++ e.message

/-- A source. -/
def source (s : Surroundings) (path : String) : Except String String :=
  if path = standardInput then s.input.mapError fun e => "failed to read stdin: " ++ e.message
  else s.fileOrMessage path

/-- Sources in order.  What the standard input holds is read once. -/
def sources (s : Surroundings) : List String → List (String × Except String String)
  | [] => []
  | path :: paths =>
    let rest := if path = standardInput then { s with input := .ok "" } else s
    (path, s.source path) :: rest.sources paths

/-- The configuration that a request names. -/
def configuration (s : Surroundings) (r : Reading) : Except String Configuration := do
  let config : Configuration ← match r.config? with
    | none => pure {}
    | some path =>
      let text ← s.fileOrMessage path
      (Configuration.ofJson? text).mapError fun e => path ++ ": " ++ e.message
  return if r.noRecovery then { config with errorRecovery := false } else config

end Surroundings

/-- The language of a file. -/
def Reading.languageOf (r : Reading) (config : Configuration) (path : String) : Language :=
  r.language?.getD (config.languageOf path)

/-- The grammar for a language. -/
def grammarFor (config : Configuration) (language : Language) : Except String Grammar :=
  (Grammar.standard? (config.dialect language) []).mapError GrammarError.message

/-- Whether output that is no terminal is colored. -/
def ColorChoice.isOn (color : ColorChoice) : Bool := color = .always

/-! ## The tree of a file -/

/-- The rule that a request names. -/
def rootOf : Option String → Except String Rule
  | none => .ok .translationUnit
  | some name =>
    match Rule.ofName? name with
    | some rule => .ok rule
    | none =>
      .error ("unknown rule '" ++ name ++ "'\n\nRun 'cxxparse rules' for the full list.")

/-- A tree as printed. -/
def TreeRequest.render (t : TreeRequest) (p : Parse) : String :=
  match t.form with
  | .dump => p.tree.dump p.tokens ⟨t.spans, t.eof, .of t.color.isOn⟩
  | .json => (p.tree.toJson p.tokens).pretty ++ "\n"
  | .concrete => (ConcreteTree.ofTree p.tokens p.rootRule p.tree).outline

/-- Prints the tree of a file. -/
def TreeRequest.run (s : Surroundings) (t : TreeRequest) : Transcript :=
  let prepared : Except String (Rule × String × Grammar) := do
    let config ← s.configuration t.reading
    let root ← rootOf t.rule?
    let source ← s.source t.file
    let grammar ← grammarFor config (t.reading.languageOf config t.file)
    return (root, source, grammar)
  match prepared with
  | .error message => .failure [] message
  | .ok (root, source, g) =>
    match g.parse (lex g.dialect.language source) root (some nestingLimit) with
    | .ok p => .success (builtEvent g :: parseEvents p) (t.render p)
    | .error (.recognition d) =>
      ⟨1, "", [builtEvent g], d.render source (some (shownPath t.file)) t.color.isOn ++ "\n"⟩
    | .error e => .failure [builtEvent g] (shownPath t.file ++ ": " ++ e.message)

/-! ## What is unreadable in some files -/

/-- Grammars for both languages. -/
structure Grammars where
  c : Grammar
  cxx : Grammar

/-- The grammar for a language. -/
def Grammars.of (gs : Grammars) : Language → Grammar
  | .c => gs.c
  | .cxx => gs.cxx

/-- Grammars for both languages. -/
def grammarsFor (config : Configuration) : Except String Grammars := do
  return ⟨← grammarFor config .c, ← grammarFor config .cxx⟩

/-- A report on a file. -/
def CheckRequest.report (c : CheckRequest) (config : Configuration) (gs : Grammars) :
    String × Except String String → FileReport
  | (path, source) =>
    let g := gs.of (c.reading.languageOf config path)
    match source with
    | .ok source => .ofSource g (shownPath path) source
    | .error message => ⟨shownPath path, "", g.dialect.language, .unreadable message⟩

/-- What there is to say on the way to some reports, where grammars for the languages in
`made` are at hand. -/
def reportEvents (gs : Grammars) (made : List Language) : List FileReport → List LogEvent
  | [] => []
  | r :: rs =>
    let g := gs.of r.language
    let start := [if r.language ∈ made then reusedEvent g else builtEvent g, checkingEvent r]
    match r.outcome with
    | .unreadable _ => reportEvents gs made rs
    | .failed _ => start ++ reportEvents gs (r.language :: made) rs
    | .parsed p => start ++ parseEvents p ++ reportEvents gs (r.language :: made) rs

/-- The number of workers: as many as the machine runs at a time unless something else is said, but
no more than files.  One runs at a time if nothing is known about the machine. -/
def CheckRequest.workers (c : CheckRequest) (parallelism? : Option Nat) : Nat :=
  max 1 (min (c.jobs?.getD (parallelism?.getD 1)) c.files.length)

/-- Reports what is unreadable in some files. -/
def CheckRequest.run (s : Surroundings) (c : CheckRequest) (parallelism? : Option Nat := none) :
    Transcript :=
  let prepared : Except String (Configuration × Grammars) := do
    let config ← s.configuration c.reading
    return (config, ← grammarsFor config)
  match prepared with
  | .error message => .failure [] message
  | .ok (config, gs) =>
    let reports := workThrough (c.workers parallelism?) (s.sources c.files) (c.report config gs)
    { code := if reports.any FileReport.isFailure then 1 else 0
      output := ""
      log := reportEvents gs [] reports
      errors := String.join (reports.map (·.render c.color.isOn)) }

/-! ## The rules -/

/-- The line of a rule. -/
def ruleLine (rule : Rule) (note : String) : String :=
  let index := toString rule.index
  String.ofList (List.replicate (3 - index.length) ' ') ++ index ++ "  " ++ rule.name ++ note ++
    "\n"

/-- Every rule. -/
def registry : String :=
  String.join (Rule.all.map fun rule => ruleLine rule "")

/-- The rules inside a translation unit. -/
def reachableRules (g : Grammar) : String :=
  let rules := g.reachableFrom .translationUnit
  let line (rule : Rule) : String :=
    ruleLine rule (if (g.find? rule).any Production.collapse then "  (collapse)" else "")
  String.join (rules.map line) ++ toString rules.length ++ " of " ++ toString Rule.count ++
    " rules reachable\n"

/-- Lists the rules. -/
def RulesRequest.run (s : Surroundings) (r : RulesRequest) : Transcript :=
  if r.reachable then
    let grammar : Except String Grammar := do
      grammarFor (← s.configuration r.reading) (r.reading.language?.getD .cxx)
    match grammar with
    | .error message => .failure [] message
    | .ok g => .success [builtEvent g] (reachableRules g)
  else
    .success [] registry

/-! ## Commands -/

/-- What `--version` prints. -/
def versionLine : String := "cxxparse 0.4.0\n"

/-- Does what is asked for, on a machine that runs so many workers at a time. -/
def Command.run (s : Surroundings) (command : Command) (parallelism? : Option Nat := none) :
    Transcript :=
  match command with
  | .version => .success [] versionLine
  | .tree t => t.run s
  | .check c => c.run s parallelism?
  | .rules r => r.run s

end PackratCpp.Cli
