/-
  Records in the text of a configuration.

  * `Record`: the fields of a record, how each is read, and the record that has none of them.
  * `Reader.record`: reads a record, written as an object, or as a list of its first fields.
  * `Reader.bool`, `Reader.strings`: the values of fields.
-/
import PackratCpp.Config.Skip

namespace PackratCpp

/-- A field: its name, and how its value changes a record. -/
structure Field (σ : Type) where
  name : String
  read : Reader (σ → σ)

/-- A kind of records. -/
structure Record (σ : Type) where
  /-- As in `expected …`. -/
  name : String
  fields : List (Field σ)
  /-- The record whose fields are all missing. -/
  start : σ

namespace Reader

/-! ## Lists -/

/-- Whether a list goes on.  Goes past the comma in front of the next item. -/
def listGoesOn (first : Bool) : Reader Bool := do
  match ← peekToken? with
  | none => failHere .endInList
  | some ']' => return false
  | some c =>
    if first then
      return true
    else if c = ',' then
      skip
      match ← peekToken? with
      | none => failHere .endInValue
      | some ']' => failNext .trailingComma
      | some _ => return true
    else
      failNext .expectedListEnd

/-- The end of a list. -/
def listEnd : Reader Unit := do
  match ← peekToken? with
  | none => failHere .endInList
  | some ']' => skip
  | some ',' =>
    skip
    match ← peekToken? with
    | some ']' => failNext .trailingComma
    | _ => failNext .trailingCharacters
  | some _ => failNext .trailingCharacters

/-! ## Values of fields -/

/-- A truth value. -/
def bool : Reader Bool := do
  match ← peekToken? with
  | some 't' => word "true".toList; return true
  | some 'f' => word "false".toList; return false
  | _ => wrongType "a boolean"

/-- At most `fuel` strings of a list. -/
def stringsFrom : (fuel : Nat) → (first : Bool) → Reader (List String)
  | 0, _ => failHere .endInList
  | fuel + 1, first => do
    if ← listGoesOn first then
      match ← peekToken? with
      | some '"' =>
        skip
        return (← string) :: (← stringsFrom fuel false)
      | _ => wrongType "a string"
    else
      return []

/-- A list of strings. -/
def strings : Reader (List String) := do
  match ← peekToken? with
  | some '[' =>
    skip
    let found ← stringsFrom ((← remaining) + 1) true
    listEnd
    return found
  | _ => wrongType "a sequence"

/-! ## Records -/

section

variable {σ : Type}

/-- The fields of a list, in order, as far as it goes. -/
def listedFields (first : Bool) (value : σ) : List (Field σ) → Reader σ
  | [] => return value
  | f :: fs => do
    if ← listGoesOn first then
      let update ← f.read
      listedFields false (update value) fs
    else
      return value

/-- Goes past the colon behind a key. -/
def colon : Reader Unit := do
  match ← peekToken? with
  | none => failHere .endInObject
  | some ':' => skip
  | some _ => failNext .expectedColon

/-- Whether an object goes on.  Goes past the comma in front of the next key. -/
def objectGoesOn (first : Bool) : Reader Bool := do
  match ← peekToken? with
  | none => failHere .endInObject
  | some '\x7d' => return false
  | some c =>
    if first then
      if c = '"' then return true else failNext .keyNoString
    else if c = ',' then
      skip
      match ← peekToken? with
      | none => failHere .endInValue
      | some '"' => return true
      | some '\x7d' => failNext .trailingComma
      | some _ => failNext .keyNoString
    else
      failNext .expectedObjectEnd

/-- A field for the second time.  The place of the fault is behind the end of the object, if
that is next. -/
def failTwice (name : String) : Reader σ := do
  match ← peekToken? with
  | some '\x7d' => skip
  | _ => pure ()
  failHere (.duplicateField name)

/-- At most `fuel` fields of an object, after those in `seen`, and its end. -/
def namedFields (fields : List (Field σ)) :
    (fuel : Nat) → (first : Bool) → (seen : List String) → σ → Reader σ
  | 0, _, _, _ => failHere .endInObject
  | fuel + 1, first, seen, value => do
    if ← objectGoesOn first then
      skip
      let key ← string
      match fields.find? (·.name = key) with
      | none =>
        colon
        skipValue
        namedFields fields fuel false seen value
      | some f =>
        if key ∈ seen then
          failTwice key
        else
          colon
          let update ← f.read
          namedFields fields fuel false (key :: seen) (update value)
    else
      skip
      return value

/-- A record. -/
def record (r : Record σ) : Reader σ := do
  match ← peekToken? with
  | some '\x7b' =>
    skip
    namedFields r.fields ((← remaining) + 1) true [] r.start
  | some '[' =>
    skip
    let value ← listedFields true r.start r.fields
    listEnd
    return value
  | _ => wrongType ("struct " ++ r.name)

end

/-- A value that nothing but blanks may follow. -/
def whole {α : Type} (value : Reader α) : Reader α := do
  let a ← value
  match ← peekToken? with
  | none => return a
  | some _ => failNext .trailingCharacters

end Reader

end PackratCpp
