import Pegwork.Number.Binary

/-!
# Decimal numbers

Reading numbers from text. A decimal is a natural number of digits and a power of ten; a numeral is
what a number can be written as: a signed decimal, infinity, or not a number.

Whole numbers of a limited range are read from plain digits with an optional plus sign.
-/

namespace Pegwork.Number

/-- The number `digits * 10 ^ exponent`. -/
structure Decimal where
  /-- The digits, read as one whole number. -/
  digits : Nat
  /-- The power of ten. -/
  exponent : Int
  deriving DecidableEq, Repr

/-- A number as it is written. -/
inductive Numeral where
  /-- A signed decimal. -/
  | finite (negative : Bool) (value : Decimal)
  /-- Infinity, with its sign. -/
  | infinite (negative : Bool)
  /-- Not a number. -/
  | nan
  deriving DecidableEq, Repr

/-! ## Digits -/

/-- Whether `c` is one of the ten ASCII digits. -/
def isDecimalDigit (c : Char) : Bool := '0' ≤ c && c ≤ '9'

/-- The value of a digit. -/
def digitValue (c : Char) : Nat := c.toNat - '0'.toNat

/-- The whole number written by a run of digits. -/
def ofDigits (digits : List Char) : Nat := digits.foldl (fun n c => 10 * n + digitValue c) 0

/-- The number of decimal digits of `n`; zero has none. -/
def digitCount (n : Nat) : Nat := if n = 0 then 0 else (Nat.toDigits 10 n).length

/-- A whole number below `bound` written with digits and perhaps a plus sign. -/
def readWhole (bound : Nat) (text : String) : Option Nat :=
  let digits := match text.toList with
    | '+' :: rest => rest
    | all => all
  if digits.isEmpty || !digits.all isDecimalDigit then none
  else if ofDigits digits < bound then some (ofDigits digits) else none

/-! ## Decimals -/

/-- The code of the magnitude nearest to a decimal.

A decimal too large or too small for the format by its number of digits alone is settled without
writing out its power of ten. -/
def Format.ofDecimal (f : Format) (d : Decimal) : Nat :=
  if d.digits = 0 then 0
  else
    let top : Int := digitCount d.digits + d.exponent
    if (Nat.pow 2 (f.exponentWidth - 1) : Int) ≤ 3 * (top - 1) then f.infinity
    else if 3 * top ≤ -(f.scale + 1 : Nat) then 0
    else if 0 ≤ d.exponent then f.nearest (d.digits * Nat.pow 10 d.exponent.toNat) 1
    else f.nearest d.digits (Nat.pow 10 (-d.exponent).toNat)

/-- A sign in front of a text. -/
def splitSign : List Char → Bool × List Char
  | '-' :: rest => (true, rest)
  | '+' :: rest => (false, rest)
  | text => (false, text)

/-- The exponent part of a decimal: nothing, or `e` with a signed whole number. -/
def readExponent : List Char → Option Int
  | [] => some 0
  | c :: rest =>
    if c = 'e' || c = 'E' then
      let (negative, digits) := splitSign rest
      if digits.isEmpty || !digits.all isDecimalDigit then none
      else some (if negative then -(ofDigits digits : Int) else ofDigits digits)
    else none

/-- An unsigned decimal: digits with an optional point, at least one digit, and an optional
exponent. -/
def readDecimal (text : List Char) : Option Decimal :=
  let whole := text.takeWhile isDecimalDigit
  let rest := text.dropWhile isDecimalDigit
  let (fraction, rest) := match rest with
    | '.' :: rest => (rest.takeWhile isDecimalDigit, rest.dropWhile isDecimalDigit)
    | rest => ([], rest)
  if whole.isEmpty && fraction.isEmpty then none
  else (readExponent rest).map fun e =>
    ⟨ofDigits (whole ++ fraction), e - fraction.length⟩

/-- A numeral: an optional sign, then a decimal or one of the words `inf`, `infinity` and `nan` in
any case. -/
def readNumeral (text : String) : Option Numeral :=
  let (negative, body) := splitSign text.toList
  let word := String.ofList (body.map Char.toLower)
  if word = "inf" || word = "infinity" then some (.infinite negative)
  else if word = "nan" then some .nan
  else (readDecimal body).map (.finite negative)

end Pegwork.Number
