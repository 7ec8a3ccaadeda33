/-
  Values that are read past.

  `Reader.skipValue` goes past any JSON value.  It checks less than reading does: an escape
  only for its digits, and a number only for its form.
-/
import PackratCpp.Config.Literal

namespace PackratCpp

namespace Reader

/-- Goes past a string up to its closing quote. -/
def skipStringFrom : (fuel : Nat) → Reader Unit
  | 0 => failHere .endInString
  | fuel + 1 => do
    match ← peek? with
    | none => failHere .endInString
    | some c =>
      if c = '"' then
        skip
      else if c = '\\' then
        skip
        match ← peek? with
        | none => failHere .endInString
        | some e =>
          if e = 'u' then
            skip
            let _ ← hexEscape
            skipStringFrom fuel
          else if (shortEscape? e).isSome then
            skip
            skipStringFrom fuel
          else
            failNext .invalidEscape
      else if c.toNat < 0x20 then
        failHere .controlCharacter
      else
        skip
        skipStringFrom fuel

/-- Goes past a string, behind its opening quote. -/
def skipString : Reader Unit := do
  skipStringFrom ((← remaining) + 1)

/-- Goes past digits, of which there has to be one. -/
def skipDigits : Reader Unit := do
  if (← digits).isEmpty then failNext .invalidNumber

/-- Goes past an exponent, if there is one. -/
def skipExponent : Reader Unit := do
  match ← peek? with
  | some 'e' | some 'E' =>
    skip
    match ← peek? with
    | some '+' | some '-' => skip
    | _ => pure ()
    skipDigits
  | _ => pure ()

/-- Goes past a number, behind its sign. -/
def skipNumber : Reader Unit := do
  match ← peek? with
  | some '0' =>
    skip
    if (← peek?).any Char.isDigit then failNext .invalidNumber
  | _ => skipDigits
  match ← peek? with
  | some '.' =>
    skip
    skipDigits
  | _ => pure ()
  skipExponent

/-- Goes past a key and the colon behind it. -/
def skipKey : Reader Unit := do
  match ← peekToken? with
  | none => failHere .endInObject
  | some '"' => skip
  | some _ => failNext .keyNoString
  skipString
  match ← peekToken? with
  | none => failHere .endInObject
  | some ':' => skip
  | some _ => failNext .expectedColon

mutual

/-- Goes past a value of at most `fuel` characters. -/
def skipValueFrom : (fuel : Nat) → Reader Unit
  | 0 => failHere .endInValue
  | fuel + 1 => do
    match ← peekToken? with
    | none => failHere .endInValue
    | some c =>
      if c = 'n' then word "null".toList
      else if c = 't' then word "true".toList
      else if c = 'f' then word "false".toList
      else if c = '-' then
        skip
        skipNumber
      else if c.isDigit then skipNumber
      else if c = '"' then
        skip
        skipString
      else if c = '[' then
        skip
        match ← peekToken? with
        | none => failHere .endInList
        | some ']' => skip
        | some _ => skipItems fuel
      else if c = '\x7b' then
        skip
        match ← peekToken? with
        | none => failHere .endInObject
        | some '\x7d' => skip
        | some _ => skipFields fuel
      else
        failNext .expectedValue

/-- Goes past the items of a list and its end. -/
def skipItems : (fuel : Nat) → Reader Unit
  | 0 => failHere .endInList
  | fuel + 1 => do
    skipValueFrom fuel
    match ← peekToken? with
    | none => failHere .endInList
    | some ',' =>
      skip
      skipItems fuel
    | some ']' => skip
    | some _ => failNext .expectedListEnd

/-- Goes past the fields of an object and its end. -/
def skipFields : (fuel : Nat) → Reader Unit
  | 0 => failHere .endInObject
  | fuel + 1 => do
    skipKey
    skipValueFrom fuel
    match ← peekToken? with
    | none => failHere .endInObject
    | some ',' =>
      skip
      skipFields fuel
    | some '\x7d' => skip
    | some _ => failNext .expectedObjectEnd

end

/-- Goes past a value. -/
def skipValue : Reader Unit := do
  skipValueFrom (2 * (← remaining) + 1)

end Reader

end PackratCpp
