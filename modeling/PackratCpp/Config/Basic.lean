/-
  Configurations.

  * `Configuration`: whether to recover, the suffixes of C files, and the extensions.
  * `Configuration.ofJson?`: reads a configuration; what is not given keeps its default.
  * `Configuration.languageOf`: the language of a file, by its name.
  * `Configuration.dialect`: what a grammar for a language depends on.
-/
import PackratCpp.Config.Record
import PackratCpp.Grammar.Dialect

namespace PackratCpp

/-- How files are to be read. -/
structure Configuration where
  /-- Whether unreadable input at the top level is skipped. -/
  errorRecovery : Bool := true
  /-- Ends of the names of C files, each once, in increasing order. -/
  cSuffixes : List String := []
  extensions : Extensions := .full

namespace Configuration

/-- A list in increasing order with one more text. -/
def insertSuffix (suffix : String) : List String → List String
  | [] => [suffix]
  | s :: ss =>
    if suffix = s then s :: ss
    else if suffix < s then suffix :: s :: ss
    else s :: insertSuffix suffix ss

/-- A configuration with one more suffix of C files. -/
def withSuffix (config : Configuration) (suffix : String) : Configuration :=
  { config with cSuffixes := insertSuffix suffix config.cSuffixes }

/-! ## Reading -/

/-- Extensions as they are written. -/
def extensionsRecord : Record Extensions :=
  { name := "Extensions"
    fields :=
      [⟨"gnu", do
        let on ← Reader.bool
        return fun ext => { ext with gnu := on }⟩,
       ⟨"managed", do
        let on ← Reader.bool
        return fun ext => { ext with managed := on }⟩,
       ⟨"attributedAtl", do
        let on ← Reader.bool
        return fun ext => { ext with attributedAtl := on }⟩]
    start := .full }

/-- A configuration as it is written. -/
def record : Record Configuration :=
  { name := "Configuration"
    fields :=
      [⟨"errorRecoveryEnabled", do
        let on ← Reader.bool
        return fun config => { config with errorRecovery := on }⟩,
       ⟨"cFileExtensions", do
        let suffixes ← Reader.strings
        return fun config =>
          { config with cSuffixes := suffixes.foldl (fun ss s => insertSuffix s ss) [] }⟩,
       ⟨"extensions", do
        let ext ← Reader.record extensionsRecord
        return fun config => { config with extensions := ext }⟩]
    start := {} }

/-- Reads a configuration. -/
def ofJson? (text : String) : Except ConfigError Configuration :=
  ((Reader.whole (Reader.record record)).run (Cursor.ofText text)).map Prod.fst

/-! ## Use -/

/-- The language of a file: C if its name has one of the suffixes. -/
def languageOf (config : Configuration) (file : String) : Language :=
  if config.cSuffixes.any fun suffix => suffix.toList.isSuffixOf file.toList then .c else .cxx

/-- What a grammar for a language depends on. -/
def dialect (config : Configuration) (language : Language) : Dialect :=
  ⟨config.errorRecovery, language, config.extensions.inLanguage language⟩

end Configuration

end PackratCpp
