/-
  What is wrong with the text of a configuration.

  * `ConfigFault`: the fault, with its wording and its category.
  * `ConfigError`: a fault and where it is.
-/
import PackratCpp.Text.Quoted

namespace PackratCpp

/-- A value where a value of another type should be. -/
inductive FoundValue where
  | null
  | bool (value : Bool)
  /-- The number as written out. -/
  | integer (text : String)
  | floating (text : String)
  | string (value : String)
  | list
  | object

/-- A value in words. -/
def FoundValue.describe : FoundValue → String
  | .null => "null"
  | .bool value => "boolean `" ++ toString value ++ "`"
  | .integer text => "integer `" ++ text ++ "`"
  | .floating text => "floating point `" ++ text ++ "`"
  | .string value => "string " ++ Text.quoted value
  | .list => "sequence"
  | .object => "map"

/-- What is wrong with a text. -/
inductive ConfigFault where
  | endInList
  | endInObject
  | endInString
  | endInValue
  | expectedColon
  | expectedListEnd
  | expectedObjectEnd
  /-- Neither `true`, `false` nor `null`. -/
  | expectedWord
  | expectedValue
  | invalidEscape
  | invalidNumber
  | numberOutOfRange
  | controlCharacter
  | keyNoString
  | loneSurrogate
  /-- The second half of a surrogate pair is missing. -/
  | brokenPair
  | trailingComma
  | trailingCharacters
  | wrongType (found : FoundValue) (expected : String)
  | duplicateField (name : String)

/-- Whether a text ends too early, is no JSON, or is JSON for something else. -/
inductive ConfigCategory where
  | eof
  | malformed
  | data
  deriving DecidableEq

namespace ConfigFault

/-- The category of a fault. -/
def category : ConfigFault → ConfigCategory
  | .endInList | .endInObject | .endInString | .endInValue => .eof
  | .wrongType _ _ | .duplicateField _ => .data
  | _ => .malformed

/-- The wording of a fault. -/
def message : ConfigFault → String
  | .endInList => "EOF while parsing a list"
  | .endInObject => "EOF while parsing an object"
  | .endInString => "EOF while parsing a string"
  | .endInValue => "EOF while parsing a value"
  | .expectedColon => "expected `:`"
  | .expectedListEnd => "expected `,` or `]`"
  | .expectedObjectEnd => "expected `,` or `\x7d`"
  | .expectedWord => "expected ident"
  | .expectedValue => "expected value"
  | .invalidEscape => "invalid escape"
  | .invalidNumber => "invalid number"
  | .numberOutOfRange => "number out of range"
  | .controlCharacter => "control character (\\u0000-\\u001F) found while parsing a string"
  | .keyNoString => "key must be a string"
  | .loneSurrogate => "lone leading surrogate in hex escape"
  | .brokenPair => "unexpected end of hex escape"
  | .trailingComma => "trailing comma"
  | .trailingCharacters => "trailing characters"
  | .wrongType found expected => "invalid type: " ++ found.describe ++ ", expected " ++ expected
  | .duplicateField name => "duplicate field `" ++ name ++ "`"

end ConfigFault

/-- A fault and where it is. -/
structure ConfigError where
  fault : ConfigFault
  /-- From one. -/
  line : Nat
  /-- Bytes of the line that have been read. -/
  column : Nat

/-- The wording of an error. -/
def ConfigError.message (e : ConfigError) : String :=
  "invalid configuration: " ++ e.fault.message ++ " at line " ++ toString e.line ++
    " column " ++ toString e.column

end PackratCpp
