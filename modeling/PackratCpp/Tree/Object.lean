/-
  Trees as JSON: nested objects, with the fields in alphabetical order.
-/
import PackratCpp.Text.Json
import PackratCpp.Token.Stream
import PackratCpp.Tree.Basic

namespace PackratCpp

/-- A token as a leaf of an object. -/
def Token.toJson (t : Token) : Json :=
  .obj [
    ("column", .num t.column),
    ("kind", .str t.kind.name),
    ("line", .num t.line),
    ("text", .str t.text)]

namespace Tree

mutual

/-- A tree as an object. -/
def toJson (tokens : TokenStream) : Tree → Json
  | .leaf i =>
    match tokens.get? i with
    | some t => t.toJson
    | none => .null
  | .node r s e cs =>
    .obj [
      ("children", .arr (toJsonAll tokens cs)),
      ("rule", .str r.name),
      ("tokens", .obj [("end", .num e), ("start", .num s)])]

/-- Some trees as objects. -/
def toJsonAll (tokens : TokenStream) : List Tree → List Json
  | [] => []
  | t :: ts => toJson tokens t :: toJsonAll tokens ts

end

end Tree

end PackratCpp
