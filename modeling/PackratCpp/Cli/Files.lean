/-
  Files.

  * `ReadFailure`: why a file cannot be read.
  * `Surroundings`: what a command can read.
  * `Directory`: some files below one directory, in which paths are looked up.
-/
import PackratCpp.Cli.Command

namespace PackratCpp.Cli

/-- Why a file cannot be read. -/
inductive ReadFailure where
  | missing
  | isDirectory
  /-- The path goes through a file as if it were a directory. -/
  | notDirectory
  | notText
  /-- Anything else, in words. -/
  | other (message : String)
  deriving DecidableEq

/-- The wording of a failure. -/
def ReadFailure.message : ReadFailure → String
  | .missing => "No such file or directory (os error 2)"
  | .isDirectory => "Is a directory (os error 21)"
  | .notDirectory => "Not a directory (os error 20)"
  | .notText => "stream did not contain valid UTF-8"
  | .other message => message

/-- What a command can read. -/
structure Surroundings where
  file : String → Except ReadFailure String
  input : Except ReadFailure String

/-! ## Directories -/

/-- Files below a directory, by their paths in it. -/
structure Directory where
  files : List (List String × ByteArray)

namespace Directory

/-- Where a path leads from. -/
inductive Place where
  /-- A directory below the given one, or that one itself. -/
  | inside (path : List String)
  /-- Any other directory, about which nothing is known. -/
  | outside

/-- Files by their names, in which slashes divide the parts of a path. -/
def ofNames (files : List (String × ByteArray)) : Directory :=
  ⟨files.map fun (name, content) => (name.splitOn "/", content)⟩

/-- Text in a file. -/
def decode (content : ByteArray) : Except ReadFailure String :=
  match String.fromUTF8? content with
  | some text => .ok text
  | none => .error .notText

/-- Follows the parts of a path. -/
def follow (d : Directory) : Place → List String → Except ReadFailure String
  | _, [] => .error .isDirectory
  | place, part :: parts =>
    if part = "" || part = "." then
      d.follow place parts
    else
      match place with
      | .outside => if part = ".." then d.follow .outside parts else .error .missing
      | .inside path =>
        if part = ".." then
          match path with
          | [] => d.follow .outside parts
          | _ => d.follow (.inside path.dropLast) parts
        else
          let path := path ++ [part]
          match d.files.find? (·.1 = path) with
          | some (_, content) => if parts.isEmpty then decode content else .error .notDirectory
          | none =>
            if d.files.any (path.isPrefixOf ·.1) then d.follow (.inside path) parts
            else .error .missing

/-- What a file holds. -/
def read (d : Directory) (path : String) : Except ReadFailure String :=
  let start := if "/".toList.isPrefixOf path.toList then .outside else .inside []
  d.follow start (path.splitOn "/")

end Directory

end PackratCpp.Cli
