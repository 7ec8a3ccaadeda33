/-
  Languages and dialects.

  * `Language`: C or C++.
  * `Extensions`: the optional constructs on top of ISO C++.
  * `Dialect`: everything that a grammar depends on.
-/

namespace PackratCpp

/-- The language of a source file. -/
inductive Language where
  | c
  | cxx
  deriving DecidableEq, Inhabited

/-- The registered name of a language. -/
def Language.name : Language → String
  | .c => "C"
  | .cxx => "Cxx"

/-- Which extensions of ISO C++ are on. -/
structure Extensions where
  /-- Statement expressions, `?:` without its middle operand, case ranges, designated
  ranges, extended `asm`. -/
  gnu : Bool
  /-- C++/CLI: handles, properties, events, delegates, generics, `for each`, `finally`,
  attribute sections. -/
  managed : Bool
  /-- Attribute blocks in brackets on declarations. -/
  attributedAtl : Bool
  deriving DecidableEq, Inhabited

namespace Extensions

/-- Every extension. -/
def full : Extensions := ⟨true, true, true⟩

/-- ISO C++ alone. -/
def none : Extensions := ⟨false, false, false⟩

/-- What is left of a choice of extensions in a language: C has neither managed nor ATL
constructs. -/
def inLanguage (ext : Extensions) : Language → Extensions
  | .c => { ext with managed := false, attributedAtl := false }
  | .cxx => ext

end Extensions

/-- What a grammar depends on. -/
structure Dialect where
  /-- Whether unreadable input at the top level is skipped. -/
  errorRecovery : Bool
  language : Language
  extensions : Extensions
  deriving DecidableEq, Inhabited

/-- C++ with recovery and every extension. -/
def Dialect.standard : Dialect := ⟨true, .cxx, .full⟩

end PackratCpp
