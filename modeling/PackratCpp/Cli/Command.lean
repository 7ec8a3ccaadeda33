/-
  Commands.

  * `Command`: what the program is asked to do.
  * `Command.ofArgs?`: the command that some arguments ask for.
  * `Command.paths`: the files that a command reads.
-/
import PackratCpp.Cli.Arguments
import PackratCpp.Grammar.Dialect

namespace PackratCpp.Cli

/-! ## What can be asked for -/

/-- When output is colored. -/
inductive ColorChoice where
  /-- On a terminal. -/
  | auto
  | always
  | never
  deriving DecidableEq

/-- How sources are read. -/
structure Reading where
  /-- Ends at the first declaration that is unreadable. -/
  noRecovery : Bool
  /-- Path of a configuration. -/
  config? : Option String
  /-- Else the name of the file decides. -/
  language? : Option Language

/-- How a tree is printed. -/
inductive TreeForm where
  | dump
  | json
  /-- With ranges of bytes. -/
  | concrete
  deriving DecidableEq

/-- A request for the tree of a file. -/
structure TreeRequest where
  file : String
  rule? : Option String
  reading : Reading
  form : TreeForm
  spans : Bool
  eof : Bool
  color : ColorChoice

/-- A request to look for what is unreadable in some files. -/
structure CheckRequest where
  files : List String
  reading : Reading
  jobs? : Option Nat
  color : ColorChoice

/-- A request for the list of rules. -/
structure RulesRequest where
  reachable : Bool
  reading : Reading

/-- What the program is asked to do. -/
inductive Command where
  | version
  | tree (request : TreeRequest)
  | check (request : CheckRequest)
  | rules (request : RulesRequest)

/-! ## Values of options -/

/-- A choice of colors by its name. -/
def ColorChoice.ofText? (text : String) : Option ColorChoice :=
  if text = "auto" then some .auto
  else if text = "always" then some .always
  else if text = "never" then some .never
  else none

/-- A language by one of its names. -/
def languageOfText? (text : String) : Option Language :=
  if text = "c" then some .c
  else if text = "cxx" ∨ text = "c++" ∨ text = "cpp" then some .cxx
  else none

/-- A path, which is not empty. -/
def pathOfText? (text : String) : Option String :=
  if text.isEmpty then none else some text

/-- A number from one up to 64 bits, which may have a plus sign. -/
def jobsOfText? (text : String) : Option Nat :=
  let digits := match text.toList with
    | '+' :: digits => digits
    | digits => digits
  if digits.isEmpty || !digits.all Char.isDigit then none
  else
    let n := digits.foldl (fun n c => 10 * n + (c.toNat - '0'.toNat)) 0
    if 0 < n ∧ n < 0x10000000000000000 then some n else none

/-! ## Commands from arguments -/

/-- The options about how sources are read. -/
def readingOptions : List OptionSpec :=
  [⟨"no-recovery", none, false⟩, ⟨"config", none, true⟩, ⟨"lang", some 'l', true⟩]

/-- How sources are read. -/
def Reading.ofArguments? (args : List Argument) : Option Reading := do
  return {
    noRecovery := ← Argument.isGiven? "no-recovery" args
    config? := ← Argument.value? "config" pathOfText? args
    language? := ← Argument.value? "lang" languageOfText? args }

/-- The options of `tree`. -/
def treeOptions : List OptionSpec :=
  readingOptions ++
    [⟨"rule", none, true⟩, ⟨"json", none, false⟩, ⟨"cst", none, false⟩, ⟨"spans", none, false⟩,
     ⟨"eof", none, false⟩, ⟨"color", none, true⟩]

/-- Reads a request for a tree. -/
def TreeRequest.ofArgs? (args : List String) : Option TreeRequest := do
  let args ← Argument.scan treeOptions args
  let [file] := Argument.plains args | none
  let form ← match ← Argument.isGiven? "json" args, ← Argument.isGiven? "cst" args with
    | false, false => some .dump
    | true, false => some .json
    | false, true => some .concrete
    | true, true => none
  return {
    file := ← pathOfText? file
    rule? := ← Argument.value? "rule" some args
    reading := ← Reading.ofArguments? args
    form := form
    spans := ← Argument.isGiven? "spans" args
    eof := ← Argument.isGiven? "eof" args
    color := (← Argument.value? "color" ColorChoice.ofText? args).getD .auto }

/-- The options of `check`. -/
def checkOptions : List OptionSpec :=
  readingOptions ++ [⟨"jobs", some 'j', true⟩, ⟨"color", none, true⟩]

/-- Reads a request to look at some files. -/
def CheckRequest.ofArgs? (args : List String) : Option CheckRequest := do
  let args ← Argument.scan checkOptions args
  let files ← (Argument.plains args).mapM pathOfText?
  if files.isEmpty then none
  return {
    files := files
    reading := ← Reading.ofArguments? args
    jobs? := ← Argument.value? "jobs" jobsOfText? args
    color := (← Argument.value? "color" ColorChoice.ofText? args).getD .auto }

/-- The options of `rules`. -/
def rulesOptions : List OptionSpec :=
  readingOptions ++ [⟨"reachable", none, false⟩]

/-- Reads a request for the list of rules. -/
def RulesRequest.ofArgs? (args : List String) : Option RulesRequest := do
  let args ← Argument.scan rulesOptions args
  let [] := Argument.plains args | none
  return {
    reachable := ← Argument.isGiven? "reachable" args
    reading := ← Reading.ofArguments? args }

/-- Whether an argument asks for the version. -/
def asksForVersion (arg : String) : Bool :=
  arg = "--version" || "-V".toList.isPrefixOf arg.toList

/-- The command that some arguments ask for. -/
def Command.ofArgs? : List String → Option Command
  | [] => none
  | first :: args =>
    if asksForVersion first then some .version
    else if first = "tree" then (TreeRequest.ofArgs? args).map .tree
    else if first = "check" then (CheckRequest.ofArgs? args).map .check
    else if first = "rules" then (RulesRequest.ofArgs? args).map .rules
    else none

/-! ## Files -/

/-- The path that stands for the standard input. -/
def standardInput : String := "-"

/-- The files that a command reads, the standard input among them. -/
def Command.paths : Command → List String
  | .version => []
  | .tree t => t.reading.config?.toList ++ [t.file]
  | .check c => c.reading.config?.toList ++ c.files
  | .rules r => r.reading.config?.toList

end PackratCpp.Cli
