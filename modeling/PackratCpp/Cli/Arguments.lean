/-
  Arguments on a command line.

  * `OptionSpec`: an option that a command knows.
  * `Argument.scan`: tells options with their values from plain arguments.  A value follows
    as the next argument, or in the same one; behind `--` every argument is plain.
  * `Argument.plain`, `Argument.isGiven?`, `Argument.value?`: what was given.  An option
    may be given once.
-/

namespace PackratCpp.Cli

/-- An option that a command knows. -/
structure OptionSpec where
  /-- Behind `--`. -/
  long : String
  /-- Behind `-`. -/
  short? : Option Char
  takesValue : Bool

/-- An argument, taken apart. -/
inductive Argument where
  | option (long : String) (value? : Option String)
  | plain (text : String)
  deriving DecidableEq

/-- What a single argument is. -/
inductive ArgumentForm where
  /-- All that follows is plain. -/
  | separator
  /-- An argument that is complete. -/
  | complete (arg : Argument)
  /-- An option whose value is the next argument. -/
  | pending (long : String)
  | unknown

namespace Argument

/-- Whether an argument begins like an option.  A single `-` does not. -/
def looksLikeOption : List Char → Bool
  | '-' :: _ :: _ => true
  | _ => false

/-- The form of a long option, given what stands behind `--`. -/
def longForm (specs : List OptionSpec) (text : List Char) : ArgumentForm :=
  let name := String.ofList (text.takeWhile (· ≠ '='))
  match specs.find? (·.long = name), text.dropWhile (· ≠ '=') with
  | none, _ => .unknown
  | some spec, [] => if spec.takesValue then .pending name else .complete (.option name none)
  | some spec, _ :: value =>
    if spec.takesValue then .complete (.option name (some (String.ofList value))) else .unknown

/-- The form of a short option, given its letter and what stands behind that. -/
def shortForm (specs : List OptionSpec) (letter : Char) (text : List Char) : ArgumentForm :=
  match specs.find? (·.short? = some letter) with
  | none => .unknown
  | some spec =>
    match spec.takesValue, text with
    | true, [] => .pending spec.long
    | true, '=' :: value => .complete (.option spec.long (some (String.ofList value)))
    | true, value => .complete (.option spec.long (some (String.ofList value)))
    | false, [] => .complete (.option spec.long none)
    | false, _ => .unknown

/-- What an argument is. -/
def form (specs : List OptionSpec) (arg : String) : ArgumentForm :=
  match arg.toList with
  | ['-', '-'] => .separator
  | '-' :: '-' :: text => longForm specs text
  | '-' :: letter :: text => shortForm specs letter text
  | _ => .complete (.plain arg)

/-- Takes arguments apart, unless one of them is wrong. -/
def scan (specs : List OptionSpec) : List String → Option (List Argument)
  | [] => some []
  | arg :: args =>
    match form specs arg with
    | .separator => some (args.map .plain)
    | .complete a => (scan specs args).map (a :: ·)
    | .unknown => none
    | .pending long =>
      match args with
      | [] => none
      | value :: args =>
        if looksLikeOption value.toList then
          none
        else
          (scan specs args).map (.option long (some value) :: ·)

/-- The plain arguments. -/
def plains (args : List Argument) : List String :=
  args.filterMap fun
    | .plain text => some text
    | .option .. => none

/-- The values that an option was given with. -/
def values (long : String) (args : List Argument) : List (Option String) :=
  args.filterMap fun
    | .option name value? => if name = long then some value? else none
    | .plain _ => none

/-- Whether an option without a value was given, unless it was given twice. -/
def isGiven? (long : String) (args : List Argument) : Option Bool :=
  match values long args with
  | [] => some false
  | [_] => some true
  | _ => none

/-- The value of an option, if it was given, unless it was given twice or cannot be read. -/
def value? {α : Type} (long : String) (read : String → Option α) (args : List Argument) :
    Option (Option α) :=
  match values long args with
  | [] => some none
  | [some text] => (read text).map some
  | _ => none

end Argument

end PackratCpp.Cli
