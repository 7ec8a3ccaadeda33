/-
  Reports on files.

  * `FileReport`: what came of looking at a file.
  * `FileReport.ofSource`: parses a source as a translation unit.
  * `FileReport.render`: the lines of a report.
-/
import PackratCpp.Diagnosis.Snippet
import PackratCpp.Lex.Basic
import PackratCpp.Parse.Report

namespace PackratCpp.Cli

/-- What came of looking at a file. -/
inductive FileOutcome where
  | parsed (parse : Parse)
  | failed (error : ParseError)
  /-- The file could not be read. -/
  | unreadable (message : String)

/-- A report on a file. -/
structure FileReport where
  /-- As shown. -/
  name : String
  source : String
  language : Language
  outcome : FileOutcome

/-- How deep rules may nest. -/
def nestingLimit : Nat := 10000

namespace FileReport

/-- Parses a source as a translation unit. -/
def ofSource (g : Grammar) (name source : String) : FileReport :=
  let tokens := lex g.dialect.language source
  { name := name
    source := source
    language := g.dialect.language
    outcome :=
      match g.parse tokens .translationUnit (some nestingLimit) with
      | .ok p => .parsed p
      | .error e => .failed e }

/-- Whether a file was not parsed. -/
def isFailure (r : FileReport) : Bool :=
  match r.outcome with
  | .parsed _ => false
  | _ => true

/-- The line about a skipped piece. -/
def skippedLine (name : String) (r : Recovered) : String :=
  name ++ ":" ++ toString r.line ++ ": C++ parser can't read code. Declaration is skipped.\n"

/-- The lines of a report. -/
def render (r : FileReport) (colored : Bool) : String :=
  match r.outcome with
  | .parsed p => String.join (p.recovered.map (skippedLine r.name))
  | .failed (.recognition d) => d.render r.source (some r.name) colored ++ "\n"
  | .failed e => "error: " ++ r.name ++ ": " ++ e.message ++ "\n"
  | .unreadable message => "error: " ++ message ++ "\n"

end FileReport

end PackratCpp.Cli
