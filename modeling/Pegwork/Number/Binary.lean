/-!
# Binary floating-point formats

A binary format of precision `p` writes a number as a sign bit and a *code*, the remaining bits read
as a natural number. Codes are ordered like the magnitudes they stand for, so that the code after
the largest finite magnitude is infinity and the codes beyond it are no numbers.

Every finite magnitude is a whole multiple of the smallest positive one, the *unit* `2 ^ -scale`.
Working in units keeps all arithmetic in the natural numbers:

* `Format.units` is the exact magnitude of a code;
* `Format.nearest` is the code of a quotient of natural numbers, rounded to the nearest magnitude,
  a half to the even neighbour.
-/

namespace Pegwork.Number

/-- A binary floating-point format. -/
structure Format where
  /-- Bits of the significand, the leading one included. -/
  precision : Nat
  /-- Bits of the exponent field. -/
  exponentWidth : Nat
  deriving DecidableEq, Repr

namespace Format

/-- The format of 32 bits. -/
def single : Format := ⟨24, 8⟩

/-- The format of 64 bits. -/
def double : Format := ⟨53, 11⟩

/-- The least significand of a number in normal form. -/
def leading (f : Format) : Nat := Nat.pow 2 (f.precision - 1)

/-- The code of infinity. -/
def infinity (f : Format) : Nat := (Nat.pow 2 f.exponentWidth - 1) * f.leading

/-- The weight of the sign bit; all codes are below it. -/
def signWeight (f : Format) : Nat := Nat.pow 2 f.exponentWidth * f.leading

/-- The unit is `2 ^ -scale`. -/
def scale (f : Format) : Nat := Nat.pow 2 (f.exponentWidth - 1) - 2 + (f.precision - 1)

/-- The magnitude of a finite code, in units. -/
def units (f : Format) (code : Nat) : Nat :=
  if code < f.leading then code
  else (code % f.leading + f.leading) * Nat.pow 2 (code / f.leading - 1)

/-- The quotient of `num` and `den` rounded to the nearest natural number, a half to the even
one. -/
def roundQuotient (num den : Nat) : Nat :=
  let q := num / den
  let r := num % den
  if den < 2 * r || (2 * r == den && q % 2 == 1) then q + 1 else q

/-- The code of the magnitude nearest to `num / den`.

The quotient is measured in units and halved until its significand fits the precision. A code is
the significand plus `leading` for each halving, also when rounding carries into the next power of
two. -/
def nearest (f : Format) (num den : Nat) : Nat :=
  let scaled := num * Nat.pow 2 f.scale
  let halvings := (scaled / den).log2 + 1 - f.precision
  let code := roundQuotient scaled (den * Nat.pow 2 halvings) + halvings * f.leading
  min code f.infinity

end Format

end Pegwork.Number
