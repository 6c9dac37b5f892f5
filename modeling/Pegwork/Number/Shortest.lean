import Pegwork.Number.Decimal

/-!
# Shortest decimals

The decimal written for a floating-point number is the one with the fewest digits that is read back
as that number; of two such decimals it is the nearer one, and of two equally near ones the larger.

For each number of digits the value lies between two neighbours on the grid of decimals with that
many digits. If any decimal on the grid is read back as the number, one of these two is.
-/

namespace Pegwork.Number

/-- The same decimal without zeros at the end of its digits. -/
def Decimal.strip (d : Decimal) : Decimal := go d.digits d.digits d.exponent
where
  /-- Drops at most `fuel` zeros. -/
  go : Nat → Nat → Int → Decimal
    | 0, digits, exponent => ⟨digits, exponent⟩
    | fuel + 1, digits, exponent =>
      if digits ≠ 0 ∧ digits % 10 = 0 then go fuel (digits / 10) (exponent + 1)
      else ⟨digits, exponent⟩

namespace Format

/-- The exponent `k` with `10 ^ k ≤ num / den < 10 ^ (k + 1)`, for a positive quotient. -/
def decimalExponent (num den : Nat) : Int :=
  if den ≤ num then (digitCount (num / den) : Int) - 1
  else -(digitCount ((den + num - 1) / num - 1) : Int)

/-- The better of the two neighbours of a code on the grid of decimals with `count` digits, among
those that are read back as the code. -/
def neighbour (f : Format) (code : Nat) (count : Nat) : Option Decimal :=
  let num := f.units code
  let den := Nat.pow 2 f.scale
  let step : Int := decimalExponent num den + 1 - count
  let num' := if step < 0 then num * Nat.pow 10 (-step).toNat else num
  let den' := if step < 0 then den else den * Nat.pow 10 step.toNat
  let below := Decimal.strip ⟨num' / den', step⟩
  let above := Decimal.strip ⟨num' / den' + 1, step⟩
  match f.ofDecimal below == code, f.ofDecimal above == code with
  | true, true => some (if den' ≤ 2 * (num' % den') then above else below)
  | true, false => some below
  | false, true => some above
  | false, false => none

/-- The most digits that are ever needed to tell two numbers of the format apart. -/
def digitsNeeded (f : Format) : Nat := f.precision * 301 / 1000 + 2

/-- The shortest decimal of a finite code. Zero has no digits. Were no short decimal found, the exact
one would serve. -/
def shortest (f : Format) (code : Nat) : Decimal :=
  if code = 0 then ⟨0, 0⟩
  else
    let counts := (List.range f.digitsNeeded).map (· + 1)
    (counts.findSome? (f.neighbour code)).getD
      ⟨f.units code * Nat.pow 5 f.scale, -(f.scale : Int)⟩

end Format

/-! ## Text of floating-point numbers -/

/-- How numbers are laid out. -/
structure Layout where
  /-- What follows a number without fractional digits. -/
  wholeMark : String
  /-- The powers of ten of a leading digit that are written without an exponent. -/
  positional : Int → Bool

/-- Every number is written out in full, and a whole number has no point. -/
def Layout.plain : Layout := ⟨"", fun _ => true⟩

/-- Numbers from `10 ^ -4` up to `10 ^ 16` are written out with a point, all others with an
exponent. -/
def Layout.diagnostic : Layout := ⟨".0", fun e => -4 ≤ e && e < 16⟩

/-- A run of `n` zeros. -/
def zeros (n : Nat) : List Char := List.replicate n '0'

/-- A decimal written out in full. -/
def Decimal.positional (d : Decimal) (wholeMark : String) : String :=
  let digits := Nat.toDigits 10 d.digits
  let point : Int := digits.length + d.exponent
  if 0 ≤ d.exponent then String.ofList (digits ++ zeros d.exponent.toNat) ++ wholeMark
  else if 0 < point then
    String.ofList (digits.take point.toNat ++ '.' :: digits.drop point.toNat)
  else String.ofList ('0' :: '.' :: zeros (-point).toNat ++ digits)

/-- A decimal written as a number with one digit before the point, times a power of ten. -/
def Decimal.scientific (d : Decimal) : String :=
  let digits := Nat.toDigits 10 d.digits
  let exponent := toString ((digits.length : Int) - 1 + d.exponent)
  match digits with
  | [] => "0"
  | [c] => String.ofList [c] ++ "e" ++ exponent
  | c :: more => String.ofList (c :: '.' :: more) ++ "e" ++ exponent

/-- A decimal in a given layout. -/
def Decimal.text (layout : Layout) (d : Decimal) : String :=
  let exponent : Int := ((Nat.toDigits 10 d.digits).length : Int) - 1 + d.exponent
  if d.digits = 0 || layout.positional exponent then d.positional layout.wholeMark
  else d.scientific

/-- The text of a number from all its bits: the sign, then the shortest decimal. -/
def Format.text (f : Format) (layout : Layout) (bits : Nat) : String :=
  let code := bits % f.signWeight
  if f.infinity < code then "NaN"
  else
    let sign := if f.signWeight ≤ bits then "-" else ""
    if code = f.infinity then sign ++ "inf"
    else sign ++ (f.shortest code).text layout

/-- The bits of a numeral. There is one pattern for all that are not a number. -/
def Format.ofNumeral (f : Format) : Numeral → Nat
  | .finite negative d => f.ofDecimal d + if negative then f.signWeight else 0
  | .infinite negative => f.infinity + if negative then f.signWeight else 0
  | .nan => f.infinity + f.leading / 2

end Pegwork.Number
