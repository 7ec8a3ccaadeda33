/-
  Strings and numbers in the text of a configuration.

  * `Reader.string`: what stands between quotes, with its escapes resolved.
  * `Reader.number`: a number, which is an integer if it has neither a fraction nor an
    exponent and fits into 64 bits, and else the nearest floating-point number.
  * `Reader.wrongType`: reads the value that stands where another should, and fails.
-/
import PackratCpp.Config.Cursor
import PackratCpp.Text.Decimal

namespace PackratCpp

namespace Reader

/-! ## Strings -/

/-- The value of a hexadecimal digit. -/
def hexValue? (c : Char) : Option Nat :=
  if '0' ≤ c ∧ c ≤ '9' then some (c.toNat - '0'.toNat)
  else if 'a' ≤ c ∧ c ≤ 'f' then some (c.toNat - 'a'.toNat + 10)
  else if 'A' ≤ c ∧ c ≤ 'F' then some (c.toNat - 'A'.toNat + 10)
  else none

/-- The number that hexadecimal digits spell behind the digits of `n`. -/
def hexNumber? (n : Nat) : List Char → Option Nat
  | [] => some n
  | c :: cs => do hexNumber? (16 * n + (← hexValue? c)) cs

/-- The four hexadecimal digits of a `\u` escape. -/
def hexEscape : Reader Nat := do
  let digits := (← get).rest.take 4
  if Text.byteLength digits < 4 then
    failAfter 4 .endInString
  else
    match hexNumber? 0 digits with
    | none => failAfter 4 .invalidEscape
    | some n => do
      skip; skip; skip; skip
      return n

/-- Whether a number is the first half of a surrogate pair. -/
def isLeading (n : Nat) : Bool := 0xd800 ≤ n && n ≤ 0xdbff

/-- Whether a number is the second half of a surrogate pair. -/
def isTrailing (n : Nat) : Bool := 0xdc00 ≤ n && n ≤ 0xdfff

/-- Goes past a character that has to follow the first half of a surrogate pair. -/
def pairMark (mark : Char) : Reader Unit := do
  match ← peek? with
  | none => failHere .endInString
  | some c => if c = mark then skip else failNext .brokenPair

/-- The character of a `\u` escape, behind the `u`. -/
def unicodeEscape : Reader Char := do
  let n ← hexEscape
  if isTrailing n then
    failHere .loneSurrogate
  else if isLeading n then
    pairMark '\\'
    pairMark 'u'
    let m ← hexEscape
    if isTrailing m then
      return Char.ofNat (0x10000 + (n - 0xd800) * 0x400 + (m - 0xdc00))
    else
      failHere .loneSurrogate
  else
    return Char.ofNat n

/-- The character that an escape other than `\u` stands for. -/
def shortEscape? (c : Char) : Option Char :=
  if c = '"' ∨ c = '\\' ∨ c = '/' then some c
  else if c = 'b' then some '\x08'
  else if c = 'f' then some '\x0c'
  else if c = 'n' then some '\n'
  else if c = 'r' then some '\r'
  else if c = 't' then some '\t'
  else none

/-- The character of an escape, behind the backslash. -/
def escape : Reader Char := do
  match ← peek? with
  | none => failHere .endInString
  | some c =>
    if c = 'u' then
      skip
      unicodeEscape
    else
      match shortEscape? c with
      | some e => do
        skip
        return e
      | none => failNext .invalidEscape

/-- The characters up to the closing quote. -/
def stringFrom : (fuel : Nat) → Reader (List Char)
  | 0 => failHere .endInString
  | fuel + 1 => do
    match ← peek? with
    | none => failHere .endInString
    | some c =>
      if c = '"' then
        skip
        return []
      else if c = '\\' then
        skip
        return (← escape) :: (← stringFrom fuel)
      else if c.toNat < 0x20 then
        failNext .controlCharacter
      else
        skip
        return c :: (← stringFrom fuel)

/-- A string, behind its opening quote. -/
def string : Reader String := do
  return String.ofList (← stringFrom ((← remaining) + 1))

/-! ## Numbers -/

/-- Takes the decimal digits at the cursor. -/
def digits : Reader (List Char) :=
  modifyGet fun cur =>
    let ds := cur.rest.takeWhile Char.isDigit
    (ds, { cur with rest := cur.rest.drop ds.length, column := cur.column + ds.length })

/-- The value of a decimal digit. -/
def digitValue (c : Char) : Nat := c.toNat - '0'.toNat

/-- A number that does not fit into 64 bits. -/
def wide (n : Nat) : Bool := 0x10000000000000000 ≤ n

/-- The digits of an integer that fit into 64 bits, and how many more there are. -/
def significand (ds : List Char) : Nat × Nat :=
  ds.foldl (fun (n, more) c =>
    let m := 10 * n + digitValue c
    if 0 < more || wide m then (n, more + 1) else (m, 0)) (0, 0)

/-- A significand with the digits of a fraction, as many as fit into 64 bits, and how many
those are. -/
def withFraction (n places : Nat) : List Char → Nat × Nat
  | [] => (n, places)
  | c :: cs =>
    let m := 10 * n + digitValue c
    if wide m then (n, places) else withFraction m (places + 1) cs

/-- The number that digits spell behind the digits of `n`, or how many digits it takes to
exceed 32 bits. -/
def exponentOf (n count : Nat) : List Char → Except Nat Nat
  | [] => .ok n
  | c :: cs =>
    let m := 10 * n + digitValue c
    if 0x80000000 ≤ m then .error (count + 1) else exponentOf m (count + 1) cs

/-- A number divided by a power of ten. -/
def shrink (f : Float) (exponent : Nat) : Float :=
  if exponent ≤ 308 then f / Float.ofScientific 1 false exponent
  else if f == 0.0 then f
  else shrink (f / Float.ofScientific 1 false 308) (exponent - 308)
termination_by exponent

/-- A significand times a power of ten. -/
def scaled (n : Nat) (exponent : Int) : Reader Float :=
  let f := n.toUInt64.toFloat
  if 0 ≤ exponent then
    if exponent ≤ 308 then
      let g := f * Float.ofScientific 1 false exponent.toNat
      if g.isInf then failHere .numberOutOfRange else pure g
    else if f == 0.0 then pure f
    else failHere .numberOutOfRange
  else
    pure (shrink f (-exponent).toNat)

/-- The exponent behind an `e`, added to the one that a number has already. -/
def exponentPart (n : Nat) (exponent : Int) : Reader Float := do
  let up ← do
    match ← peek? with
    | some '+' => skip; pure true
    | some '-' => skip; pure false
    | _ => pure true
  match ← peek? with
  | none => failHere .endInValue
  | some c =>
    if !c.isDigit then failNext .invalidNumber
    let start ← get
    let ds ← digits
    match exponentOf 0 0 ds with
    | .ok e => scaled n (if up then exponent + e else exponent - e)
    | .error count =>
      if n ≠ 0 && up then
        set start
        failAfter count .numberOutOfRange
      else
        return 0.0

/-- What may follow the digits of a number: an exponent. -/
def exponent? (n : Nat) (exponent : Int) : Reader Float := do
  match ← peek? with
  | some 'e' | some 'E' => skip; exponentPart n exponent
  | _ => scaled n exponent

/-- The fraction behind a point. -/
def fractionPart (n more : Nat) : Reader Float := do
  let ds ← digits
  if ds.isEmpty then
    match ← peek? with
    | none => failHere .endInValue
    | some _ => failNext .invalidNumber
  else
    let (m, places) := withFraction n 0 ds
    exponent? m ((more : Int) - places)

/-- A number behind its sign. -/
def number (negative : Bool) : Reader FoundValue := do
  let sign := if negative then "-" else ""
  let floating (f : Float) : FoundValue := .floating (sign ++ Decimal.text f)
  match ← peek? with
  | none => failHere .endInValue
  | some c =>
    if !c.isDigit then failNext .invalidNumber
    let ds ← if c = '0' then do skip; pure [c] else digits
    let next ← peek?
    if c = '0' && next.any Char.isDigit then failNext .invalidNumber
    let (n, more) := significand ds
    match next with
    | some '.' => skip; return floating (← fractionPart n more)
    | some 'e' | some 'E' => return floating (← exponent? n more)
    | _ =>
      if 0 < more then return floating (← scaled n more)
      else if negative && (n = 0 || 0x8000000000000000 < n) then return floating (← scaled n 0)
      else return .integer (sign ++ toString n)

/-! ## Values of another type -/

/-- Reads the value at the cursor, which should be another one, and fails. -/
def wrongType {α : Type} (expected : String) : Reader α := do
  let fail (found : FoundValue) : Reader α := failHere (.wrongType found expected)
  match ← peekToken? with
  | none => failHere .endInValue
  | some c =>
    if c = 'n' then
      word "null".toList
      fail .null
    else if c = 't' then
      word "true".toList
      fail (.bool true)
    else if c = 'f' then
      word "false".toList
      fail (.bool false)
    else if c = '-' then
      skip
      fail (← number true)
    else if c.isDigit then
      fail (← number false)
    else if c = '"' then
      skip
      fail (.string (← string))
    else if c = '[' then
      fail .list
    else if c = '\x7b' then
      fail .object
    else
      failNext .expectedValue

end Reader

end PackratCpp
