/-
  Floating-point numbers in decimal.

  * `Decimal.Binary`: a number as an integer times a power of two.
  * `Decimal.shortest`: the fewest digits that no other number is closer to, and the power of
    ten that they are to be multiplied with.
  * `Decimal.text`: those digits written out, with an exponent for very large and very small
    numbers.
-/

namespace PackratCpp.Decimal

/-- A positive number `significand * 2 ^ exponent`. -/
structure Binary where
  significand : Nat
  exponent : Int
  /-- Whether the next smaller number is only half as far away as the next larger one. -/
  atBoundary : Bool

/-- The parts of a positive finite number. -/
def Binary.ofFloat (f : Float) : Binary :=
  let bits := f.toBits.toNat
  let fraction : Nat := bits % 0x10000000000000
  let biased : Nat := bits / 0x10000000000000 % 0x800
  if biased = 0 then
    ⟨fraction, -1074, false⟩
  else
    ⟨0x10000000000000 + fraction, (biased : Int) - 1075, fraction = 0 && 1 < biased⟩

/-- A positive fraction. -/
structure Ratio where
  num : Nat
  den : Nat

/-- `n * b ^ e` as a fraction. -/
def Ratio.scaled (n b : Nat) (e : Int) : Ratio :=
  if 0 ≤ e then ⟨n * b.pow e.toNat, 1⟩ else ⟨n, b.pow (-e).toNat⟩

/-- Whether a fraction is at most another. -/
def Ratio.le (x y : Ratio) : Bool :=
  x.num * y.den ≤ y.num * x.den

/-- The distance of two fractions, over the product of their denominators. -/
def Ratio.distance (x y : Ratio) : Nat :=
  let a := x.num * y.den
  let b := y.num * x.den
  (a - b) + (b - a)

/-- The integer part of a fraction times a power of ten. -/
def Ratio.scaledFloor (x : Ratio) (tens : Int) : Nat :=
  if 0 ≤ tens then x.num * Nat.pow 10 tens.toNat / x.den
  else x.num / (x.den * Nat.pow 10 (-tens).toNat)

/-- Digits, and the power of ten that they are to be multiplied with. -/
structure Digits where
  digits : Nat
  exponent : Int

/-- The least number of decimal places, at most `fuel`, at which a fraction below one has a
digit other than zero. -/
def leadingPlaces (x : Ratio) : (fuel places : Nat) → Nat
  | 0, places => places
  | fuel + 1, places =>
    if x.den ≤ x.num * Nat.pow 10 places then places else leadingPlaces x fuel (places + 1)

/-- The power of ten of the first digit of a fraction. -/
def leadingExponent (x : Ratio) : Int :=
  let whole := x.num / x.den
  if 0 < whole then (Nat.toDigits 10 whole).length - 1 else -(leadingPlaces x 400 1 : Int)

/-- The nearest number of some digits that reads back as the given one. -/
def withDigits? (b : Binary) (count : Nat) : Option Digits :=
  let value := Ratio.scaled b.significand 2 b.exponent
  let low :=
    if b.atBoundary then Ratio.scaled (4 * b.significand - 1) 2 (b.exponent - 2)
    else Ratio.scaled (2 * b.significand - 1) 2 (b.exponent - 1)
  let high := Ratio.scaled (2 * b.significand + 1) 2 (b.exponent - 1)
  let even := b.significand % 2 = 0
  let exponent := leadingExponent value - (count - 1 : Nat)
  let below := value.scaledFloor (-exponent)
  let fits (d : Nat) : Bool :=
    let x := Ratio.scaled d 10 exponent
    low.le x && x.le high && (even || !(x.le low || high.le x))
  let hits := [below, below + 1].filter fits
  match hits with
  | [] => none
  | [d] => some ⟨d, exponent⟩
  | d :: e :: _ =>
    let dx := (Ratio.scaled d 10 exponent).distance value
    let ex := (Ratio.scaled e 10 exponent).distance value
    some ⟨if ex < dx then e else d, exponent⟩

/-- The same number without zeros at its end. -/
def Digits.trimmed (d : Digits) : Digits :=
  if h : 0 < d.digits ∧ d.digits % 10 = 0 then
    Digits.trimmed ⟨d.digits / 10, d.exponent + 1⟩
  else
    d
termination_by d.digits
decreasing_by exact Nat.div_lt_self h.1 (by decide)

/-- The fewest digits that read back as a positive finite number; seventeen always do. -/
def shortest (f : Float) : Digits :=
  let b := Binary.ofFloat f
  let found := (List.range 17).findSome? fun n => withDigits? b (n + 1)
  (found.getD ⟨0, 0⟩).trimmed

/-- Some zeros. -/
def zeros (n : Nat) : String :=
  String.ofList (List.replicate n '0')

/-- Digits with a point or an exponent.  A point has at least one digit on either side. -/
def Digits.text (d : Digits) : String :=
  let ds := Nat.toDigits 10 d.digits
  let shown := String.ofList ds
  let point : Int := ds.length + d.exponent
  if 0 ≤ d.exponent && point ≤ 16 then
    shown ++ zeros d.exponent.toNat ++ ".0"
  else if 0 < point && point ≤ 16 then
    String.ofList (ds.take point.toNat) ++ "." ++ String.ofList (ds.drop point.toNat)
  else if -5 < point && point ≤ 0 then
    "0." ++ zeros (-point).toNat ++ shown
  else
    let tens := point - 1
    let mantissa := match ds with
      | [c] => String.ofList [c]
      | c :: cs => String.ofList (c :: '.' :: cs)
      | [] => ""
    mantissa ++ "e" ++ (if 0 ≤ tens then "+" else "-") ++ toString tens.natAbs

/-- The text of a finite number that is not negative. -/
def text (f : Float) : String :=
  if f == 0.0 then "0.0" else (shortest f).text

end PackratCpp.Decimal
